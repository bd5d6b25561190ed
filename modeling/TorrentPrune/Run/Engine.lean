import TorrentPrune.Prune.Pass
import TorrentPrune.Run.Host
import TorrentPrune.Run.Result
import TorrentPrune.Template.Render

/-!
# Sync and unlock runs

A sync run first pauses for the delay, when it is positive; a pause the clock refuses ends the
step. Then it checks the target against the
depth guard, reads the manifest from the metadata, releases the locks below the target when asked
to (not in a dry run, and only for an existing directory), and prunes the target. A run error at
any of these steps ends the run with a failed result and an error record; a failure no run
handles ends the step.

A sync run from a file checks the target, reads the file, and goes on as a sync run with the
file's bytes; a file that cannot be read is a run error of kind `read`.

An unlock run checks the target against the depth guard; a missing directory, or one without
files, is skipped. Waiting for held processes to end takes time but changes nothing else: every
process found ends, so the grace period is not part of a run.

Source: `src/src/dircomp/core/pipeline/engine.py:53–188`.
-/

namespace TorrentPrune.Run

open TorrentPrune.Fs TorrentPrune.Logging TorrentPrune.Unlock TorrentPrune.Prune
open TorrentPrune.Json TorrentPrune.Bencode

/-- The logger of runs. -/
def runLogger : String := "dircomp.core.pipeline.engine"

/-- The logger of metadata reading. -/
def metadataLogger : String := "dircomp.core.bencode.manifest"

/-- How a sync run goes. -/
structure SyncOptions where
  dryRun : Bool
  minDepth : Int
  delay : Seconds
  unlockFirst : Bool
  deriving Inhabited

/-- A run error ends a sync run: the record, and the failed result. -/
def failSync (h : Host) (target torrentPath : String) (e : RunError) : Host × SyncResult :=
  let msg := e.message
  (h.note (.error runLogger s!"SYNC '{target}' - {msg}, aborted"), ⟨target, torrentPath, .failed e⟩)

/-- Pause for the delay, when it is positive. -/
def pauseFor (h : Host) (delay : Seconds) : Except ClockFault Host :=
  if delay.positive then
    let shown := (Template.formatValue delay.toValue "g".toList).toOption.getD ""
    (h.note (.debug runLogger s!"Waiting {shown}s before sync")).sleep delay
  else .ok h

/-- The part of a sync run after the pause: the host afterwards, and either the run error or the
manifest, the pass's report and the release report. -/
def syncSteps (h : Host) (data : Bytes) (target : String) (o : SyncOptions) :
    Except Escape (Host × Except RunError (Manifest × Report × Option UnlockReport)) :=
  match ensureSafe h.volume "/" target o.minDepth with
  | .error .nulByte => .error .nulByte
  | .error (.shallow e) => .ok (h, .error (.shallow e))
  | .ok () =>
    match parse data with
    | .error (.tooManyDigits n) => .error (.tooManyDigits n)
    | .error (.malformed e) => .ok (h, .error (.decode e))
    | .ok (v, rest) =>
      let trailing := rest.length
      let h := if rest.isEmpty then h
        else h.note (.debug metadataLogger
          s!"Ignoring {trailing} trailing bytes after torrent metadata")
      match extractManifest (Metadata.ofValue v) with
      | .error e => .ok (h, .error (.extract e))
      | .ok m =>
        let size := m.size
        let h := h.note (.debug runLogger s!"Torrent declares {size} files")
        let (h, unlock) :=
          if o.unlockFirst && !o.dryRun && h.volume.isDir "/" target then
            let (left, report) := releaseLocks h.volume h.refusals h.holders target
            ({ h with holders := left }, some report)
          else (h, none)
        match reconcile h.volume h.refusals m target o.minDepth o.dryRun with
        | .error (.escape e) => .error e
        | .error (.run e) => .ok (h, .error e)
        | .ok (v, journal, report) =>
          .ok ({ h with volume := v }.noteAll journal, .ok (m, report, unlock))

/-- The records of a finished pass. -/
def passRecords (target : String) (r : Report) : Journal :=
  let front := if r.dryRun then "DRY RUN " else ""
  let files := r.filesDeleted
  let dirs := r.dirsDeleted
  let summary := if r.isClean then s!"{front}SYNC '{target}' - clean, nothing to remove"
    else s!"{front}SYNC '{target}' - deleted {files} files, {dirs} empty dirs"
  let failed := r.failures.length
  [.info runLogger summary] ++
    if r.failures.isEmpty then []
    else [.warning runLogger s!"SYNC '{target}' - {failed} entries could not be removed"]

/-- A sync run on metadata bytes, once its pause is over. -/
def syncPaused (h : Host) (data : Bytes) (target : String) (o : SyncOptions)
    (torrentPath : String) : Except Escape (Host × SyncResult) := do
  let (h, steps) ← syncSteps h data target o
  match steps with
  | .error e => pure (failSync h target torrentPath e)
  | .ok (m, report, unlock) =>
    pure (h.noteAll (passRecords target report),
      ⟨target, torrentPath, .pruned m.size report unlock⟩)

/-- A sync run on metadata bytes: the pause, then the run; a pause the clock refuses ends the
step before any check. -/
def runSync (h : Host) (data : Bytes) (target : String) (o : SyncOptions)
    (torrentPath : String) : Except Escape (Host × SyncResult) :=
  match pauseFor h o.delay with
  | .error f => .error (.clock f)
  | .ok h => syncPaused h data target o torrentPath

/-- The bytes of a metadata file; a file that cannot be read is a run error of kind `read`. -/
def readMetadata (v : Volume) (path : String) : Except Halt Bytes :=
  match v.readFile "/" path with
  | .error .nulByte => .error (.escape .nulByte)
  | .error (.os e) => .error (.run (.unreadable e))
  | .ok data => .ok data

/-- The manifest of a metadata file. -/
def loadManifest (v : Volume) (path : String) : Except Halt Manifest := do
  let data ← readMetadata v path
  (manifestOfBytes data).mapError Halt.ofManifestError

/-- A sync run on a metadata file. -/
def runSyncFile (h : Host) (torrentPath target : String) (o : SyncOptions) :
    Except Escape (Host × SyncResult) :=
  match ensureSafe h.volume "/" target o.minDepth with
  | .error .nulByte => .error .nulByte
  | .error (.shallow e) => .ok (failSync h target torrentPath (.shallow e))
  | .ok () =>
    match readMetadata h.volume torrentPath with
    | .error (.escape e) => .error e
    | .error (.run e) => .ok (failSync h target torrentPath e)
    | .ok data => runSync h data target o torrentPath

/-- An unlock run. -/
def runUnlock (h : Host) (target : String) (minDepth : Int) : Except Escape (Host × UnlockResult) :=
  match ensureSafe h.volume "/" target minDepth with
  | .error .nulByte => .error .nulByte
  | .error (.shallow e) =>
    let err : RunError := .shallow e
    let msg := err.message
    .ok (h.note (.error runLogger s!"UNLOCK '{target}' - {msg}, aborted"), ⟨target, .failed err⟩)
  | .ok () =>
    if !h.volume.isDir "/" target then
      .ok (h.note (.info runLogger s!"UNLOCK '{target}' - directory does not exist, skipped"),
        ⟨target, .missing⟩)
    else
      let (rest, report) := releaseLocks h.volume h.refusals h.holders target
      let h := { h with holders := rest }
      if report.filesScanned == 0 then
        .ok (h.note (.info runLogger s!"UNLOCK '{target}' - no files found, skipped"),
          ⟨target, .noFiles report⟩)
      else
        let found := report.processesFound
        let ended := report.processesTerminated
        let line := if found == 0 then s!"UNLOCK '{target}' - no locking processes"
          else s!"UNLOCK '{target}' - terminated {ended} of {found} processes"
        .ok (h.note (.info runLogger line), ⟨target, .released report⟩)

end TorrentPrune.Run
