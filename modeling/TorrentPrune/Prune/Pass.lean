import TorrentPrune.Fs.Entry
import TorrentPrune.Fs.Refusal
import TorrentPrune.Logging.Record
import TorrentPrune.Prune.Report
import TorrentPrune.Run.Error

/-!
# Pruning a directory against a manifest

A pass walks the directory depth first and handles each directory after everything below it:
its subdirectories in name order, then its files in name order, then the directory itself. A
symbolic link is never followed; it is handled as a file. A file stays when the manifest declares
its relative path, or when declared paths lie below it (a link standing in for a declared
folder); any other file is removed. A directory other than the root is removed when it was
listed and nothing remains in it: no file kept and no subdirectory left. The root always stays.

Failures do not stop a pass: a directory that cannot be listed stays with everything in it, and
a file or directory that cannot be removed stays; each is recorded with the error's text. A
directory that cannot be removed because it is not empty, or because something exists there,
simply stays. In a dry run nothing is touched, and what would be removed is reported as removed.

Before a pass, the root must pass the depth guard, and then be a directory.

Each directory is listed when the pass reaches it, as it is then. The pass only removes, so a
listing holds at most the entries the directory had when the pass began, and the height of that
tree bounds the recursion.

A pass keeps, besides its report, the calls it made on the volume in order: each listing, file
removal and directory removal, with the error it failed with, if any.

Source: `src/src/dircomp/core/services/reconciler.py:39–214`.
-/

namespace TorrentPrune.Prune

open TorrentPrune.Fs TorrentPrune.Path TorrentPrune.Logging TorrentPrune.Run

/-- The logger of pruning passes. -/
def passLogger : String := "dircomp.core.services.reconciler"

/-- What a pass is given: the manifest, the absolute root, whether it only reports, and the
calls the volume refuses. -/
structure Pass where
  manifest : Manifest
  root : String
  dryRun : Bool
  refusals : List Refusal
  deriving Inhabited

/-- A call a pass made on the volume: which call, at which path, and the error number and text it
failed with, if it failed. -/
structure CallMade where
  call : Call
  path : String
  failure : Option (Nat × String)
  deriving Inhabited

/-- What a pass has done so far. -/
structure Trace where
  volume : Volume
  deletedFiles : List String
  deletedDirs : List String
  failures : List Failure
  journal : Journal
  calls : List CallMade
  deriving Inhabited

/-- Record a call made. -/
def Trace.made (t : Trace) (c : CallMade) : Trace := { t with calls := t.calls ++ [c] }

/-- Emit a record. -/
def Trace.note (t : Trace) (r : LogRecord) : Trace := { t with journal := t.journal ++ [r] }

/-- Record a failure, with a warning. -/
def Trace.fail (t : Trace) (warning : String) (rel error : String) : Trace :=
  { t.note (.warning passLogger warning) with failures := t.failures ++ [⟨rel, error⟩] }

/-- A path relative to the root. -/
def Pass.rel (p : Pass) (path : String) : String := relative "/" path p.root

/-- Make a call unless it is refused: the new volume, or the error number and text. -/
def attempt (refused : Option OsError) (call : Unit → Except CallError Volume) :
    Except (Nat × String) Volume :=
  match refused with
  | some e => .error (e.errno, e.message)
  | none =>
    match call () with
    | .ok v => .ok v
    | .error (.os e) => .error (e.errno, e.message)
    | .error .nulByte => .error (EINVAL, "embedded null byte")

/-- Handle one file of a listed directory; whether it remains. -/
def Pass.handleFile (p : Pass) (t : Trace) (path : String) : Trace × Bool :=
  let rel := p.rel path
  if p.manifest.contains rel then (t, true)
  else if p.manifest.isAncestor rel then
    (t.note (.debug passLogger s!"Keeping '{rel}': declared files lie beneath it"), true)
  else if p.dryRun then ({ t with deletedFiles := t.deletedFiles ++ [rel] }, false)
  else
    match attempt (refusalOf p.refusals .removeFile path) (fun _ ↦ t.volume.unlink "/" path) with
    | .ok v =>
      ({ t.made ⟨.removeFile, path, none⟩ with volume := v, deletedFiles := t.deletedFiles ++ [rel] },
        false)
    | .error (n, msg) =>
      ((t.made ⟨.removeFile, path, some (n, msg)⟩).fail s!"Failed to delete '{rel}': {msg}" rel msg,
        true)

/-- Remove a directory in which nothing remains; whether it is gone. -/
def Pass.removeDir (p : Pass) (t : Trace) (path : String) : Trace × Bool :=
  let rel := p.rel path
  if p.dryRun then ({ t with deletedDirs := t.deletedDirs ++ [rel] }, true)
  else
    match attempt (refusalOf p.refusals .removeDir path) (fun _ ↦ t.volume.rmdir "/" path) with
    | .ok v =>
      ({ t.made ⟨.removeDir, path, none⟩ with volume := v, deletedDirs := t.deletedDirs ++ [rel] },
        true)
    | .error (n, msg) =>
      let t := t.made ⟨.removeDir, path, some (n, msg)⟩
      if n == ENOTEMPTY || n == EEXIST then
        (t.note (.debug passLogger s!"Keeping non-empty directory '{rel}'"), false)
      else (t.fail s!"Failed to delete directory '{rel}': {msg}" rel msg, false)

/-- List the directory at `path` as it is now, unless listing it is refused: its entries, or the
error number and text. -/
def Pass.list (p : Pass) (t : Trace) (path : String) :
    Except (Nat × String) (List (String × Node)) :=
  match refusalOf p.refusals .list path with
  | some e => .error (e.errno, e.message)
  | none =>
    match t.volume.listDir "/" path with
    | .ok entries => .ok entries
    | .error (.os e) => .error (e.errno, e.message)
    | .error .nulByte => .error (EINVAL, "embedded null byte")

/-- Handle the files among the entries of the directory at `parent`, in order; how many of them
remain. -/
def Pass.handleFiles (p : Pass) (parent : String) : List (String × Node) → Trace → Trace × Nat
  | [], t => (t, 0)
  | (name, _) :: rest, t =>
    let (t, left) := p.handleFile t (join parent name)
    let (t, n) := p.handleFiles parent rest t
    (t, n + if left then 1 else 0)

/-- Visit the subdirectories among the listed `entries`, in order, each by `visitDir` given its
name; how many of them are left. -/
def visitDirs (visitDir : String → Trace → Trace × Bool) :
    List (String × Node) → Trace → Trace × Nat
  | [], t => (t, 0)
  | (name, node) :: rest, t =>
    if node.isDir then
      let (t, gone) := visitDir name t
      let (t, left) := visitDirs visitDir rest t
      (t, left + if gone then 0 else 1)
    else visitDirs visitDir rest t

/-- Visit the directory at `path`: list it, visit its subdirectories, handle its files, and remove
it when it is not the root and nothing remains in it. Whether it is gone afterwards. `depth`
bounds how deep the pass may still go; the pass only removes, so no directory it lists lies deeper
than the tree it began with. -/
def Pass.visit (p : Pass) : Nat → Bool → String → Trace → Trace × Bool
  | 0, _, _, t => (t, false)
  | depth + 1, top, path, t =>
    let rel := p.rel path
    match p.list t path with
    | .error (n, msg) =>
      let t := (t.made ⟨.list, path, some (n, msg)⟩).fail s!"Cannot list '{rel}': {msg}" rel msg
      if top then (t, false)
      else (t.note (.debug passLogger s!"Keeping non-empty directory '{rel}'"), false)
    | .ok entries =>
      let t := t.made ⟨.list, path, none⟩
      let (t, dirsLeft) := visitDirs (fun name t ↦ p.visit depth false (join path name) t) entries t
      let (t, filesLeft) := p.handleFiles path (entries.filter fun e ↦ !e.2.isDir) t
      if top then (t, false)
      else if 0 < dirsLeft + filesLeft then
        (t.note (.debug passLogger s!"Keeping non-empty directory '{rel}'"), false)
      else p.removeDir t path

/-- The report of a finished pass. -/
def Trace.report (t : Trace) (dryRun : Bool) : Report :=
  ⟨t.deletedFiles, t.deletedDirs, t.failures, dryRun⟩

/-- The pass over the directory `root` against a manifest, from its checks to its finished trace.
The root must pass the depth guard for `minDepth` and be a directory. -/
def reconcileTrace (v : Volume) (refusals : List Refusal) (manifest : Manifest) (root : String)
    (minDepth : Int) (dryRun : Bool) : Except Halt Trace :=
  match ensureSafe v "/" root minDepth with
  | .error g => .error (Halt.ofGuardError g)
  | .ok () =>
    if !v.isDir "/" root then .error (.run (.missing root))
    else
      let rootAbs := absolute "/" root
      let height := match v.stat "/" rootAbs with
        | .ok (_, node) => node.height
        | .error _ => 0
      let pass : Pass := ⟨manifest, rootAbs, dryRun, refusals⟩
      let (t, _) := pass.visit (height + 1) true rootAbs ⟨v, [], [], [], [], []⟩
      let r := t.report dryRun
      let files := r.filesDeleted
      let dirs := r.dirsDeleted
      let failed := r.failures.length
      .ok (t.note (.debug passLogger
        s!"Reconciled '{rootAbs}': {files} files, {dirs} dirs, {failed} failures"))

/-- Prune the directory `root` against a manifest: the volume afterwards, the records emitted
and the report. The root must pass the depth guard for `minDepth` and be a directory. -/
def reconcile (v : Volume) (refusals : List Refusal) (manifest : Manifest) (root : String)
    (minDepth : Int) (dryRun : Bool) : Except Halt (Volume × Journal × Report) :=
  (reconcileTrace v refusals manifest root minDepth dryRun).map
    fun t ↦ (t.volume, t.journal, t.report dryRun)

end TorrentPrune.Prune
