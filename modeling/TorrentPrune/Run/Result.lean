import TorrentPrune.Prune.Report
import TorrentPrune.Run.Error
import TorrentPrune.Unlock.Release

/-!
# Results of runs

A sync run targets a directory, possibly with a metadata file, and either stops with a run error
or prunes: then it knows how many paths the torrent declares, what the pass did, and what a
release pass before it did, if one ran. An unlock run either stops with a run error, skips a
directory that does not exist or holds no files, or releases the locks below it.

As records, results keep the fields in a fixed order: the outcome flag, the error's message and
kind (both empty on success), the target, and then the details.

Source: `src/src/dircomp/domain/sync_models.py:46–170`.
-/

namespace TorrentPrune.Run

open TorrentPrune.Json TorrentPrune.Prune TorrentPrune.Unlock

/-- How a sync run ended. -/
inductive SyncOutcome where
  | failed (e : RunError)
  | pruned (manifestSize : Nat) (report : Report) (unlock : Option UnlockReport)
  deriving Inhabited

/-- The result of a sync run. -/
structure SyncResult where
  targetDir : String
  torrentPath : String
  outcome : SyncOutcome
  deriving Inhabited

/-- Whether a sync run succeeded. -/
def SyncResult.ok (r : SyncResult) : Bool :=
  match r.outcome with
  | .failed _ => false
  | .pruned .. => true

/-- A sync result as a record; `verdict` says whether its report tells if the pass was clean. -/
def SyncResult.toValue (r : SyncResult) (verdict : Bool) : Value :=
  let (ok, error, kind, size, report, unlock) : Bool × String × String × Nat × Value × Value :=
    match r.outcome with
    | .failed e => (false, e.message, e.kind, 0, .null, .null)
    | .pruned n rep u => (true, "", "", n, rep.toValue verdict, (u.map UnlockReport.toValue).getD .null)
  .object [("ok", .bool ok), ("error", .str error), ("error_kind", .str kind),
    ("target_dir", .str r.targetDir), ("torrent_path", .str r.torrentPath),
    ("manifest_size", .int size), ("report", report), ("unlock", unlock)]

/-- How an unlock run ended. -/
inductive UnlockOutcome where
  | failed (e : RunError)
  | missing
  | noFiles (report : UnlockReport)
  | released (report : UnlockReport)
  deriving Inhabited

/-- The result of an unlock run. -/
structure UnlockResult where
  targetDir : String
  outcome : UnlockOutcome
  deriving Inhabited

/-- Whether an unlock run succeeded. -/
def UnlockResult.ok (r : UnlockResult) : Bool :=
  match r.outcome with
  | .failed _ => false
  | _ => true

/-- Why an unlock run did nothing, or the empty text. -/
def UnlockResult.skipped (r : UnlockResult) : String :=
  match r.outcome with
  | .missing => "directory does not exist"
  | .noFiles _ => "no files found"
  | _ => ""

/-- The release report of an unlock run, if a release pass ran. -/
def UnlockResult.report? (r : UnlockResult) : Option UnlockReport :=
  match r.outcome with
  | .noFiles rep | .released rep => some rep
  | _ => none

/-- An unlock result as a record. -/
def UnlockResult.toValue (r : UnlockResult) : Value :=
  let (error, kind) := match r.outcome with
    | .failed e => (e.message, e.kind)
    | _ => ("", "")
  .object [("ok", .bool r.ok), ("error", .str error), ("error_kind", .str kind),
    ("target_dir", .str r.targetDir), ("skipped", .str r.skipped),
    ("report", (r.report?.map UnlockReport.toValue).getD .null)]

end TorrentPrune.Run
