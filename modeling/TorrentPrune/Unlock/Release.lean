import TorrentPrune.Fs.Entry
import TorrentPrune.Fs.Refusal
import TorrentPrune.Json.Value

/-!
# Releasing file locks

Other processes may hold files open below a directory, which keeps a torrent client or a player
busy with files a pass is about to remove. A release pass counts the files below the directory,
and when there are any, finds every process, other than the one running the pass, that holds a
file open whose canonical path lies below the canonical directory, and ends each of them: it asks
each to end, waits a grace period, and forces those still alive. A process already gone counts as
ended; one that is not ours to signal is reported as a failure with the reason.

The pass runs against a process table (`ProcessTable`): what each process holds open, if that can
be read, what a signal to it gives, and which of the processes signalled outlive the grace period.
On the host every process holding a file is ours, every signal reaches it, and one that ignores
the polite request is forced (`hostTable`).

Counting files walks the directory: an entry that is not a directory counts as a file, a link
being judged by what it points to; subdirectories are entered, links to directories are not. A
directory that cannot be listed adds nothing.

A process holds the file it opened, wherever that file stands now; a file removed after it was
opened no longer shows, even when another file has been put at the same path.

Source: `src/src/dircomp/core/services/unlocker.py:31–121`.
-/

namespace TorrentPrune.Unlock

open TorrentPrune.Fs TorrentPrune.Path TorrentPrune.Json

/-- A process of the host that holds a file open: the number the host gave it, the identity of
the file, and whether it ignores the polite request to end. A release pass numbers the processes
by their place instead, so that no two share a number. -/
structure Holder where
  pid : Nat
  file : Nat
  ignoresTerm : Bool
  deriving Inhabited

/-- What a release pass found and did. -/
structure UnlockReport where
  filesScanned : Nat
  processesFound : Nat
  processesTerminated : Nat
  failures : List String
  deriving Inhabited

/-- The report of a pass that did nothing. -/
def UnlockReport.empty : UnlockReport := ⟨0, 0, 0, []⟩

/-- A report as a record. -/
def UnlockReport.toValue (r : UnlockReport) : Value :=
  .object [("files_scanned", .int r.filesScanned), ("processes_found", .int r.processesFound),
    ("processes_terminated", .int r.processesTerminated),
    ("failures", .array (r.failures.map .str))]

mutual

/-- The files below the directory at `path`, whose entries are those of `node`. -/
def countBelow (v : Volume) (refusals : List Refusal) (path : String) : Node → Nat
  | .dir entries =>
    if (refusalOf refusals .list path).isSome then 0 else countEntries v refusals path entries
  | _ => 0

/-- The files among `entries` of the directory at `parent` and below them. -/
def countEntries (v : Volume) (refusals : List Refusal) (parent : String) :
    List (String × Node) → Nat
  | [] => 0
  | (name, node) :: rest =>
    let here := match node with
      | .dir _ => countBelow v refusals (join parent name) node
      | .link _ => if v.isDir "/" (join parent name) then 0 else 1
      | .file _ _ => 1
    here + countEntries v refusals parent rest

end

/-- The files below a directory, links to directories not entered. -/
def countFiles (v : Volume) (refusals : List Refusal) (dir : String) : Nat :=
  match v.stat "/" dir with
  | .ok (_, node) => countBelow v refusals dir node
  | .error _ => 0

/-- The canonical form of a path on the volume, links expanded; a path that cannot be made
canonical stays as it is, made absolute. -/
def canonicalPath (v : Volume) (path : String) : String :=
  (v.realPath "/" path false).toOption.getD (absolute "/" path)

/-- The text every path below a directory starts with: its canonical path and a separator. -/
def belowPrefix (v : Volume) (dir : String) : String := join (canonicalPath v dir) ""

/-- What a signal sent to a process gives, as the process library reports it: delivered; the
process was gone already; the process is a zombie, which the library reports as a kind of gone
process; or the process is not ours to signal, with the library's reason. -/
inductive SignalOutcome where
  | delivered
  | gone
  | zombie
  | denied (reason : String)
  deriving Inhabited, DecidableEq

/-- A process as the process table shows it: its number, the paths of the files it holds open
(none when they cannot be read: the process is gone, a zombie, or not ours to inspect), and what
asking it to end and forcing it to end give. -/
structure Proc where
  pid : Nat
  openFiles : Option (List String)
  onTerminate : SignalOutcome
  onKill : SignalOutcome
  deriving Inhabited

/-- The processes as a release pass sees them: the table, the number of the process running the
pass, and the wait for the grace period, which splits the processes signalled into those that
ended and those still alive. -/
structure ProcessTable where
  procs : List Proc
  ownPid : Nat
  wait : List Proc → List Proc × List Proc

/-- A signal sent to a process. -/
inductive Signal where
  | terminate (pid : Nat)
  | kill (pid : Nat)
  deriving DecidableEq, Repr

/-- Whether a process holds a file open whose canonical path starts with `pathPrefix`; a process
whose open files cannot be read holds none. -/
def Proc.holdsBelow (v : Volume) (pathPrefix : String) (p : Proc) : Bool :=
  match p.openFiles with
  | some files => files.any fun f ↦ (canonicalPath v f).startsWith pathPrefix
  | none => false

/-- The processes, other than the one running the pass, that hold a file below the directory whose
prefix is given, in the order of the table. -/
def ProcessTable.locking (t : ProcessTable) (v : Volume) (pathPrefix : String) : List Proc :=
  t.procs.filter fun p ↦ p.pid != t.ownPid && p.holdsBelow v pathPrefix

/-- Send each process a signal whose outcome `outcome` gives, in order: the processes it reached or
found gone, and those that refused it, with the reason. A zombie is caught as a gone process, before
the clause that names it with the refusals is reached. -/
def signalEach (outcome : Proc → SignalOutcome) : List Proc → List Proc × List (Nat × String)
  | [] => ([], [])
  | p :: rest =>
    let (reached, refused) := signalEach outcome rest
    match outcome p with
    | .delivered | .gone | .zombie => (p :: reached, refused)
    | .denied reason => (reached, (p.pid, reason) :: refused)

/-- What ending the processes found did: the signals sent, in order; the numbers of the processes
that ended, each once; and the processes that could not be stopped, with the reason. -/
structure StopRun where
  signals : List Signal
  terminated : List Nat
  failed : List (Nat × String)

/-- End the processes found: ask each to end, wait for the grace period, and force those still
alive. A process counts as ended when the wait saw it end, or when forcing it reached it or found
it gone. -/
def ProcessTable.stop (t : ProcessTable) (found : List Proc) : StopRun :=
  let (signalled, refusedTerm) := signalEach Proc.onTerminate found
  let (gone, alive) := t.wait signalled
  let (killed, refusedKill) := signalEach Proc.onKill alive
  ⟨found.map (fun p ↦ .terminate p.pid) ++ alive.map (fun p ↦ .kill p.pid),
    (gone ++ killed).foldl (fun pids p ↦ pids.insert p.pid) [], refusedTerm ++ refusedKill⟩

/-- The line that reports a process that could not be stopped: its number and the reason. -/
def failureLine : Nat × String → String
  | (pid, reason) => s!"{pid}: {reason}"

/-- A release pass over the directory `dir` against the process table: the signals sent, in order,
and the report. -/
def ProcessTable.release (t : ProcessTable) (v : Volume) (refusals : List Refusal) (dir : String) :
    List Signal × UnlockReport :=
  let files := countFiles v refusals dir
  if files == 0 then ([], .empty)
  else
    let found := t.locking v (belowPrefix v dir)
    if found.isEmpty then ([], ⟨files, 0, 0, []⟩)
    else
      let run := t.stop found
      (run.signals, ⟨files, found.length, run.terminated.length, run.failed.map failureLine⟩)

/-- Whether the holder at a place ignores the polite request to end. -/
def ignoresTermAt (holders : List Holder) (place : Nat) : Bool :=
  (holders[place]?.map Holder.ignoresTerm).getD false

/-- The process table of the host. Each holder is a process, numbered by its place from one, that
holds open the file of its identity where that file stands now; every signal reaches it, and one
that ignores the polite request outlives the grace period. The process running the pass is
numbered zero and holds nothing. -/
def hostTable (v : Volume) (holders : List Holder) : ProcessTable where
  procs := holders.zipIdx.map fun (h, i) ↦
    ⟨i + 1, some (v.locationOf h.file).toList, .delivered, .delivered⟩
  ownPid := 0
  wait := List.partition fun p ↦ !ignoresTermAt holders (p.pid - 1)

/-- End the processes holding files below a directory: the processes that remain, and the
report. A process that was sent a signal has ended, politely or by force. -/
def releaseLocks (v : Volume) (refusals : List Refusal) (holders : List Holder) (dir : String) :
    List Holder × UnlockReport :=
  let (signals, report) := (hostTable v holders).release v refusals dir
  ((holders.zipIdx.filter fun (_, i) ↦ !signals.contains (.terminate (i + 1))).map Prod.fst, report)

end TorrentPrune.Unlock
