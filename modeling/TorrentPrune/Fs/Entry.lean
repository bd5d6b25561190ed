import TorrentPrune.Fs.Calls

/-!
# Entries of a tree

An entry is a file with its bytes, a directory, or a symbolic link with its target, each at a
path. Placing an entry makes the missing parent directories first; a file replaces the bytes of a
file already there, a directory already there is fine, and a link needs a free path. Removing a
path takes a directory away with everything below it, and anything else alone; a path that names
nothing is left as it is.

The inventory of a directory lists every node below it, links not followed, by relative path in
code-point order.

Source: `src/src/dircomp/core/services/reconciler.py:131–152`.
-/

namespace TorrentPrune.Fs

open TorrentPrune.Path

/-- An entry to place in a tree. -/
inductive Entry where
  | file (path : String) (content : List UInt8)
  | dir (path : String)
  | link (path : String) (target : String)
  deriving Inhabited

namespace Volume

/-- Make a symbolic link at `path` that points to `target`; a target of `pathMax` bytes or more is
too long, whatever the path. -/
def symlink (v : Volume) (cwd target path : String) : Except CallError Volume := do
  if target.toList.contains (Char.ofNat 0) || path.toList.contains (Char.ofNat 0) then
    throw .nulByte
  if pathMax ≤ byteLength target then failWith2 ENAMETOOLONG target path
  let loc ← v.resolve cwd path false
  match v.node? loc with
  | some _ => failWith2 EEXIST target path
  | none =>
    match v.put loc (.link target) with
    | some w => pure w
    | none => failWith2 ENOENT target path

/-- Make the parent directories of a path, when it has any. -/
def makeParents (v : Volume) (cwd path : String) : Except CallError Volume :=
  let parent := dirname path
  if parent.isEmpty then .ok v else v.makedirs cwd parent true

/-- Place an entry, making its missing parents first. -/
def place (v : Volume) (cwd : String) : Entry → Except CallError Volume
  | .file path content => do
    let v ← v.makeParents cwd path
    v.writeFile cwd path content
  | .dir path => v.makedirs cwd path true
  | .link path target => do
    let v ← v.makeParents cwd path
    v.symlink cwd target path

/-- Remove what a path names, a directory with everything below it; nothing to remove is
fine. -/
def removeAll (v : Volume) (cwd path : String) : Except CallError Volume := do
  let loc ← v.resolve cwd path false
  match v.node? loc with
  | none => pure v
  | some _ =>
    match v.erase loc with
    | some w => pure w
    | none => failWith EBUSY path

/-- Every node below the directory at `path`, links not followed, with its path relative to
that directory, in code-point order of the paths. -/
def inventory (v : Volume) (cwd path : String) : List (String × Node) :=
  match v.stat cwd path with
  | .ok (_, .dir entries) => (entriesBelow "" entries).mergeSort fun a b ↦ a.1 ≤ b.1
  | _ => []

/-- The absolute path at which the file of an identity stands, if it still stands anywhere. -/
def locationOf (v : Volume) (id : Nat) : Option String :=
  let held (e : String × Node) : Bool :=
    match e.2 with
    | .file i _ => i == id
    | _ => false
  ((entriesBelow "" v.root).find? held).map fun e ↦ "/" ++ e.1

end Volume

end TorrentPrune.Fs
