import TorrentPrune.Prune.Pass

/-!
# The pass as a loop over a stack of frames

The loop form of a pass: a stack of directory frames, each visited twice. On its first visit a
frame is scanned: its directory is listed, and the paths of the entries, in the order the listing
yields them, are split into subdirectories and files and each part sorted as text; the frames of
the subdirectories are then pushed above it, the first on top. On its second visit, once every
frame pushed above it has been finalized, a frame is popped and finalized: its files are handled,
and the directory is removed when it is not the root, was listed, and no file and no
subdirectory remains in it. A subdirectory remains unless its own frame removed it: the loop
keeps the paths of the directories it removed.

The listing yields a directory's entries in any order (`ListingOrder`); the loop sorts them
before it uses them.

The stack is kept top first. The loop has no bound of its own; `Pass.walk` runs it for a given
number of steps, and a walk whose stack is empty takes no further step.

Source: `src/src/dircomp/core/services/reconciler.py:39–130`.
-/

namespace TorrentPrune.Prune

open TorrentPrune.Fs TorrentPrune.Path TorrentPrune.Logging

/-- The order in which listing a directory yields its entries, given the directory's path and
its entries: any order of them. -/
structure ListingOrder where
  arrange : String → List (String × Node) → List (String × Node)
  perm : ∀ path entries, (arrange path entries).Perm entries

/-- A directory on the stack: its path, whether it has been scanned, whether the scan listed it,
and the paths of its subdirectories and of its other entries. -/
structure Frame where
  path : String
  scanned : Bool := false
  listed : Bool := false
  subdirs : List String := []
  files : List String := []

/-- Where the loop stands: the stack, top first; what the pass has done; and the paths of the
directories it removed. -/
structure Walk where
  stack : List Frame
  trace : Trace
  removed : List String

/-- Paths sorted as text. -/
def sortPaths (paths : List String) : List String := paths.mergeSort fun a b ↦ a ≤ b

/-- Scan the frame's directory: list it, split its entries, in the order the listing yields
them, into subdirectories and files, each sorted; or record why it cannot be listed. Whether it
was listed. -/
def Pass.scan (p : Pass) (order : ListingOrder) (f : Frame) (t : Trace) : Frame × Trace × Bool :=
  match p.list t f.path with
  | .error (n, msg) =>
    let rel := p.rel f.path
    (f, (t.made ⟨.list, f.path, some (n, msg)⟩).fail s!"Cannot list '{rel}': {msg}" rel msg, false)
  | .ok entries =>
    let yielded := order.arrange f.path entries
    ({ f with
        listed := true
        subdirs := sortPaths ((yielded.filter fun e ↦ e.2.isDir).map fun e ↦ join f.path e.1)
        files := sortPaths ((yielded.filter fun e ↦ !e.2.isDir).map fun e ↦ join f.path e.1) },
      t.made ⟨.list, f.path, none⟩, true)

/-- Handle the files at the given paths, in order; how many of them remain. -/
def Pass.handlePaths (p : Pass) : List String → Trace → Trace × Nat
  | [], t => (t, 0)
  | path :: rest, t =>
    let (t, left) := p.handleFile t path
    let (t, n) := p.handlePaths rest t
    (t, n + if left then 1 else 0)

/-- Finalize a frame: handle its files, then, unless it is the root, remove its directory when
it was listed and neither a file nor a subdirectory the loop has not removed remains. -/
def Pass.finalize (p : Pass) (f : Frame) (t : Trace) (removed : List String) :
    Trace × List String :=
  let (t, filesLeft) := p.handlePaths f.files t
  if f.path == p.root then (t, removed)
  else
    let remaining := filesLeft + f.subdirs.countP fun d ↦ !removed.contains d
    let rel := p.rel f.path
    if !f.listed || 0 < remaining then
      (t.note (.debug passLogger s!"Keeping non-empty directory '{rel}'"), removed)
    else
      let (t, gone) := p.removeDir t f.path
      (t, if gone then f.path :: removed else removed)

/-- One turn of the loop: scan the frame on top if it is new, pushing its subdirectories when it
was listed; otherwise pop and finalize it. -/
def Pass.step (p : Pass) (order : ListingOrder) (w : Walk) : Walk :=
  match w.stack with
  | [] => w
  | f :: rest =>
    if !f.scanned then
      let (f, t, listed) := p.scan order { f with scanned := true } w.trace
      if listed then ⟨f.subdirs.map (fun d ↦ { path := d }) ++ f :: rest, t, w.removed⟩
      else ⟨f :: rest, t, w.removed⟩
    else
      let (t, removed) := p.finalize f w.trace w.removed
      ⟨rest, t, removed⟩

/-- Run the loop for `n` turns. -/
def Pass.walk (p : Pass) (order : ListingOrder) : Nat → Walk → Walk
  | 0, w => w
  | n + 1, w => p.walk order n (p.step order w)

/-- The loop's start over the volume `v`: the root's frame alone, nothing done. -/
def Pass.start (p : Pass) (v : Volume) : Walk := ⟨[{ path := p.root }], ⟨v, [], [], [], [], []⟩, []⟩

end TorrentPrune.Prune
