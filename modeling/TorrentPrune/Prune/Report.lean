import TorrentPrune.Json.Value

/-!
# Pruning reports

What a pruning pass did: the files and the directories it deleted (or, in a dry run, would
delete), each by its path relative to the pruned root and in the order of deletion, and the
entries it could not remove or list, each with the error's text. A pass is clean when it deleted
nothing.

Source: `src/src/dircomp/domain/sync_models.py:21–45`.
-/

namespace TorrentPrune.Prune

open TorrentPrune.Json

/-- An entry that could not be removed or listed, and why. -/
structure Failure where
  relPath : String
  error : String
  deriving Inhabited

/-- What a pruning pass did. -/
structure Report where
  deletedFiles : List String
  deletedDirs : List String
  failures : List Failure
  dryRun : Bool
  deriving Inhabited

/-- The number of files deleted. -/
def Report.filesDeleted (r : Report) : Nat := r.deletedFiles.length

/-- The number of directories deleted. -/
def Report.dirsDeleted (r : Report) : Nat := r.deletedDirs.length

/-- Whether the pass deleted nothing. -/
def Report.isClean (r : Report) : Bool := r.deletedFiles.isEmpty && r.deletedDirs.isEmpty

/-- A failure as a record. -/
def Failure.toValue (f : Failure) : Value :=
  .object [("rel_path", .str f.relPath), ("error", .str f.error)]

/-- A report as a record: counts, deleted paths, failures and the dry-run flag, and then, when
`verdict` is set, whether the pass was clean. -/
def Report.toValue (r : Report) (verdict : Bool) : Value :=
  .object ([("files_deleted", .int r.filesDeleted), ("dirs_deleted", .int r.dirsDeleted),
    ("deleted_files", .array (r.deletedFiles.map .str)),
    ("deleted_dirs", .array (r.deletedDirs.map .str)),
    ("failures", .array (r.failures.map Failure.toValue)), ("dry_run", .bool r.dryRun)] ++
    if verdict then [("is_clean", .bool r.isClean)] else [])

end TorrentPrune.Prune
