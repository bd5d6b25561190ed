import TorrentPrune.Fs.Calls
import TorrentPrune.Logging.Config
import TorrentPrune.Logging.Layout
import TorrentPrune.Logging.Record
import TorrentPrune.Text.Utf8

/-!
# The logging system

Records pass the system's level (the lowest level of its sinks), then reach each sink whose own
level they reach. Configuring sets the level and replaces the sinks: the console, and the run
log, whose directory is made first and whose file is opened for appending. A run log that cannot
be opened is reported on standard error and left out. Configuring again changes nothing unless
forced; shutting down removes the sinks.

A layout that is not accepted, or a size or count that is not an integer, makes configuring fail;
the system then falls back to an emergency console at level `INFO` that writes every record it
passes, and says so through it. With no sink and no emergency console, records of level
`WARNING` and above still reach standard error as their bare message.

The run log rolls over before a record would make it reach its size limit (counted as its bytes
so far plus the characters of the new line): each older copy `log.i` moves to `log.(i+1)`, the
oldest beyond the count is dropped, the log itself becomes `log.1`, and a new log is started.
Without copies the log just grows.

Source: `src/src/dircomp/infra/logging/core.py:51–189`.
-/

namespace TorrentPrune.Logging

open TorrentPrune.Fs TorrentPrune.Path

/-- The run log's file, made absolute, and its rollover rule. -/
structure RunLog where
  path : String
  maxBytes : Int
  backups : Int
  deriving Inhabited

/-- Where a sink writes. -/
inductive SinkTarget where
  | console
  | runLog (log : RunLog)
  deriving Inhabited

/-- A sink: where it writes, its level and its layout. -/
structure Sink where
  target : SinkTarget
  level : Nat
  layout : String
  deriving Inhabited

/-- The layout of the emergency console. -/
def emergencyLayout : String := "CRITICAL FALLBACK | %(levelname)s | %(message)s"

/-- The message the system gives when it falls back to the emergency console. -/
def fallbackMessage : String := "Logging infrastructure failed. Switched to emergency console."

/-- The first line standard error shows for a record that a sink could not write. -/
def writeFailureLine : String := "--- Logging error ---"

/-- The state of the logging system, with the volume it writes to and what it wrote to standard
error. `sinks` are the sinks fed through the attached queue, when there is one. -/
structure LogSystem where
  rootLevel : Nat
  sinks : Option (List Sink)
  emergency : Bool
  configured : Bool
  volume : Volume
  errText : String
  /-- The time stamp records carry, as date and time of day. -/
  clock : String
  deriving Inhabited

/-- A system with nothing configured, over a volume, at a given time. -/
def LogSystem.fresh (v : Volume) (clock : String) : LogSystem :=
  ⟨warningLevel, none, false, false, v, "", clock⟩

/-- The fields of a record as a layout sees them; `direct` records did not pass a queue, and
`stamp` is the time stamp of this layout. -/
def recordFields (r : LogRecord) (direct : Bool) (stamp : String) (key : String) :
    Option FieldValue :=
  match key with
  | "name" => some (.text (if r.logger.isEmpty then "root" else r.logger))
  | "levelname" => some (.text (levelName r.level))
  | "levelno" => some (.int r.level)
  | "message" | "msg" => some (.text r.message)
  | "asctime" => some (.text stamp)
  | "args" => some (if direct then .text "()" else .nothing)
  | "exc_info" | "exc_text" | "stack_info" => some .nothing
  | "processName" => some (.text "MainProcess")
  | _ => none

/-- Write text to standard error. -/
def LogSystem.toErr (s : LogSystem) (text : String) : LogSystem :=
  { s with errText := s.errText ++ text }

/-- The size of the file at a path, zero when there is none. -/
def fileSize (v : Volume) (path : String) : Nat :=
  match v.readFile "/" path with
  | .ok bytes => bytes.length
  | .error _ => 0

/-- The indices `i` with `1 ≤ i < bound` for which a copy `path.i` is listed beside the log,
highest first. -/
def copyIndices (v : Volume) (path : String) (bound : Int) : List Nat :=
  let (dir, base) := split path
  let names := match v.listDir "/" dir with
    | .ok entries => entries.map Prod.fst
    | .error _ => []
  let indices := names.filterMap fun n ↦
    if n.startsWith (base ++ ".") then
      let digits := (n.drop (base.length + 1)).toString
      match digits.toNat? with
      | some i => if toString i == digits && 1 ≤ i && (i : Int) < bound then some i else none
      | none => none
    else none
  (indices.mergeSort (· ≥ ·))

/-- Move the copy `path.i` to `path.(i+1)`, dropping what stood there. -/
def shiftCopy (path : String) (v : Volume) (i : Nat) : Except CallError Volume := do
  let src := path ++ "." ++ toString i
  let dst := path ++ "." ++ toString (i + 1)
  if !v.exists "/" src then return v
  let v ← if v.exists "/" dst then v.unlink "/" dst else pure v
  v.rename "/" src dst

/-- Roll the run log over: shift the copies, make the log the first copy, start a new log. -/
def rollOver (v : Volume) (log : RunLog) : Except CallError Volume := do
  let first := log.path ++ ".1"
  let v ← if 0 < log.backups then do
      let v ← (copyIndices v log.path log.backups).foldlM (shiftCopy log.path) v
      let v ← if v.exists "/" first then v.unlink "/" first else pure v
      if v.exists "/" log.path then v.rename "/" log.path first else pure v
    else pure v
  let (v, _) ← v.openAppend "/" log.path
  pure v

/-- Whether a record's line calls for a rollover first. -/
def needsRollover (v : Volume) (log : RunLog) (line : String) : Bool :=
  let regular := !v.exists "/" log.path || v.isFile "/" log.path
  regular && 0 < log.maxBytes && log.maxBytes ≤ (fileSize v log.path + line.length : Nat)

/-- Append a line to the run log, rolling over first when it calls for it. -/
def writeRunLog (v : Volume) (log : RunLog) (line : String) : Except CallError Volume := do
  let v ← if needsRollover v log line then rollOver v log else pure v
  let (v, loc) ← v.openAppend "/" log.path
  v.appendAt loc log.path (Text.encodeUtf8 line)

/-- Let one sink write a record that passed the queue. -/
def LogSystem.emitTo (s : LogSystem) (sink : Sink) (r : LogRecord) : LogSystem :=
  match sink.target with
  | .console =>
    match fillLayout (recordFields r false (s.clock ++ ",000")) sink.layout with
    | .ok text => s.toErr (text ++ "\n")
    | .error _ => s.toErr (writeFailureLine ++ "\n")
  | .runLog log =>
    match fillLayout (recordFields r false s.clock) sink.layout with
    | .error _ => s.toErr (writeFailureLine ++ "\n")
    | .ok text =>
      match writeRunLog s.volume log (text ++ "\n") with
      | .ok v => { s with volume := v }
      | .error _ => s.toErr (writeFailureLine ++ "\n")

/-- Log a record. -/
def LogSystem.emit (s : LogSystem) (r : LogRecord) : LogSystem :=
  if r.level ≤ 0 || r.level < s.rootLevel then s
  else
    let s := match s.sinks with
      | some sinks =>
        sinks.foldl (fun (s : LogSystem) (sink : Sink) ↦
          if sink.level ≤ r.level then s.emitTo sink r else s) s
      | none => s
    let s := if s.emergency then
        match fillLayout (recordFields r true (s.clock ++ ",000")) emergencyLayout with
        | .ok text => s.toErr (text ++ "\n")
        | .error _ => s.toErr (writeFailureLine ++ "\n")
      else s
    if s.sinks.isNone && !s.emergency && warningLevel ≤ r.level then s.toErr (r.message ++ "\n")
    else s

/-- Fall back to the emergency console and say so. -/
def LogSystem.fallBack (s : LogSystem) : LogSystem :=
  let s := { s with rootLevel := infoLevel, sinks := none, emergency := true }
  s.emit ⟨"", warningLevel, fallbackMessage⟩

/-- Why building the sinks failed; the system as it was when it failed. -/
structure BuildFailure where
  state : LogSystem

/-- A layout that is text and accepted, or a failure. -/
def checkedLayout (s : LogSystem) (layout : Option String) : Except BuildFailure String :=
  match layout with
  | some l => if acceptsLayout l then .ok l else .error ⟨s⟩
  | none => .error ⟨s⟩

/-- Open the run log: make its directory, read its size and count, open its file. A directory or
file that cannot be made or opened is reported, and there is no run log. -/
def openRunLog (s : LogSystem) (c : LogConfig) (path : String) :
    Except BuildFailure (LogSystem × Option RunLog) := do
  let full := absolute "/" path
  let parent := dirname full
  let report (s : LogSystem) (e : OsError) : LogSystem :=
    let shown := e.message
    s.toErr s!"WARNING: Cannot open log file '{path}': {shown}\n"
  let made : Except CallError Volume :=
    if !parent.isEmpty && !s.volume.exists "/" parent then s.volume.makedirs "/" parent true
    else .ok s.volume
  match made with
  | .error .nulByte => throw ⟨s⟩
  | .error (.os e) => return (report s e, none)
  | .ok v =>
    let s := { s with volume := v }
    let some maxBytes := c.maxBytes | throw ⟨s⟩
    let some backups := c.backupCount | throw ⟨s⟩
    match s.volume.openAppend "/" full with
    | .error .nulByte => throw ⟨s⟩
    | .error (.os e) => return (report s e, none)
    | .ok (v, _) => return ({ s with volume := v }, some ⟨full, maxBytes, backups⟩)

/-- Build the sinks a configuration asks for. -/
def buildSinks (s : LogSystem) (c : LogConfig) : Except BuildFailure (LogSystem × List Sink) := do
  let consoleSinks ← if c.console then
      let layout ← checkedLayout s c.consoleLayout
      pure [⟨.console, c.consoleLevel, layout⟩]
    else pure []
  match c.logFile with
  | some path =>
    if path.isEmpty then return (s, consoleSinks)
    let layout ← checkedLayout s c.fileLayout
    let (s, log) ← openRunLog s c path
    match log with
    | some l => return (s, consoleSinks ++ [⟨.runLog l, c.runLogLevel, layout⟩])
    | none => return (s, consoleSinks)
  | none => return (s, consoleSinks)

/-- Configure the system; unless forced, a configured system stays as it is. -/
def LogSystem.configure (s : LogSystem) (c : LogConfig) (force : Bool) : LogSystem :=
  if s.configured && !force then s
  else
    let s := { s with rootLevel := c.rootLevel, sinks := none, emergency := false }
    match buildSinks s c with
    | .ok (s, []) => s
    | .ok (s, sinks) => { s with sinks := some sinks, configured := true }
    | .error f => f.state.fallBack

/-- Remove every sink and forget the configuration. -/
def LogSystem.shutdown (s : LogSystem) : LogSystem :=
  { s with sinks := none, emergency := false, configured := false }

end TorrentPrune.Logging
