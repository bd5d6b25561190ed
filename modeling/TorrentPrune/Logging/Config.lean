import TorrentPrune.Json.Literal
import TorrentPrune.Logging.Level
import TorrentPrune.Number.Reading

/-!
# Log settings

The two sinks of a run: the console (standard error) and the run log, a file that rolls over when
it would grow past a size, keeping a number of older copies beside it. The console has its own
level; the run log's level defaults to the console's. The logging system as a whole passes the
lowest level among the sinks that are on.

Settings arrive as configuration values: sizes and counts are read as integers the way integer
conversion reads them (a float is cut toward zero, text is read as integer text), and a layout
must be text, a false value standing for the plain message layout.

Source: `src/src/dircomp/infra/logging/config.py:26–78`.
-/

namespace TorrentPrune.Logging

open TorrentPrune.Json TorrentPrune.Number

/-- The console's default layout. -/
def defaultConsoleLayout : String := "%(levelname)s | %(message)s"

/-- The run log's default layout. -/
def defaultFileLayout : String := "[%(asctime)s] %(levelname)s | %(name)s | %(message)s"

/-- The layout of a record's message alone, used for an empty layout. -/
def messageLayout : String := "%(message)s"

/-- Settings of the console and the run log. A size or count of `none` could not be read as an
integer; a layout of `none` is not text. -/
structure LogConfig where
  level : String := "INFO"
  console : Bool := true
  logFile : Option String := none
  fileLevel : Option String := none
  maxBytes : Option Int := some (1024 * 1024)
  backupCount : Option Int := some 5
  consoleLayout : Option String := some defaultConsoleLayout
  fileLayout : Option String := some defaultFileLayout
  deriving Inhabited

/-- Whether the run log is on. -/
def LogConfig.hasRunLog (c : LogConfig) : Bool := c.logFile.any (!·.isEmpty)

/-- The console's threshold. -/
def LogConfig.consoleLevel (c : LogConfig) : Nat := parseLevel c.level infoLevel

/-- The run log's threshold, by default the console's. -/
def LogConfig.runLogLevel (c : LogConfig) : Nat :=
  match c.fileLevel with
  | some name => parseLevel name c.consoleLevel
  | none => c.consoleLevel

/-- The lowest threshold among the sinks that are on; the console's when none is. -/
def LogConfig.rootLevel (c : LogConfig) : Nat :=
  let levels := (if c.console then [c.consoleLevel] else []) ++
    (if c.hasRunLog then [c.runLogLevel] else [])
  match levels with
  | [] => c.consoleLevel
  | l :: ls => ls.foldl min l

/-- A float cut toward zero; `none` for infinities and NaN. -/
def truncate? (x : Binary64) : Option Int :=
  if !x.isFinite then none
  else
    let (m, q) := x.toParts
    let magnitude : Nat := if 0 ≤ q then m * Nat.pow 2 q.toNat else m / Nat.pow 2 (-q).toNat
    some (if x.negative then -(magnitude : Int) else magnitude)

/-- A value read as an integer: integers as they are, flags as 0 and 1, floats cut toward zero,
integer text; `none` for anything else. -/
def integerOf? : Value → Option Int
  | .int n => some n
  | .bool b => some (if b then 1 else 0)
  | .float x => truncate? x
  | .str s =>
    match readIntText s with
    | .ok n => some n
    | .error _ => none
  | _ => none

/-- A value read as a layout: text, the message layout for empty text or a false value, `none`
for other values. -/
def layoutOf? (v : Value) : Option String :=
  match v with
  | .str s => some (if s.isEmpty then messageLayout else s)
  | v => if v.truthy then none else some messageLayout

end TorrentPrune.Logging
