import TorrentPrune.Config.Settings
import TorrentPrune.Json.Literal
import TorrentPrune.Number.Reading
import TorrentPrune.Safety
import TorrentPrune.Text.Upper

/-!
# Checking settings

Raw settings are any JSON value; checking turns them into `Settings`. An object is laid over the
defaults; then the flags (`dry_run`, `unlock_before_sync`, `log_to_file`), the texts
(`log_level`, `log_file`), the durations (`delay_seconds`, `unlock_timeout`) and last the
minimum depth are checked in that order, and the log level is upper-cased. A missing or null
member takes its default.

Leniently, a value of the wrong kind is converted where a rule allows it (numbers 0 and 1 and
yes/no words as flags, number text as a duration or depth), with a notice, and otherwise replaced
by its default, with a notice. Strictly, nothing is converted and the first fault refuses the
settings. An integer too large for a float stops both kinds of checking.

Source: `src/src/dircomp/core/pipeline/validator.py:24–182`.
-/

namespace TorrentPrune.Config

open TorrentPrune.Json TorrentPrune.Number TorrentPrune.Text

/-- A setting that cannot be used as given. -/
inductive Fault where
  /-- The settings are not an object. -/
  | notObject (typeName : String)
  /-- A member has the wrong kind of value. -/
  | wrongType (field expected typeName : String)
  /-- A duration is negative, not a number, or NaN; `shown` is the value's literal. -/
  | notNonNegative (field shown : String)
  /-- The minimum depth is below the floor that no setting may lower. -/
  | belowFloor (depth : Int)
  deriving Inhabited

/-- The text of a fault. -/
def Fault.message : Fault → String
  | .notObject t => s!"Invalid config type: expected dict, received {t}."
  | .wrongType field expected t => s!"Invalid field '{field}': expected {expected}, received {t}."
  | .notNonNegative field shown =>
    s!"Invalid field '{field}': expected a non-negative number, received {shown}."
  | .belowFloor depth => s!"Field 'min_depth' cannot be lower than {minSafeDepth} (received {depth})."

/-- What lenient checking uses in place of the faulty value. -/
def Fault.remedy : Fault → String
  | .notObject _ => "Using defaults."
  | .belowFloor _ => s!"Using {minSafeDepth}."
  | _ => "Using fallback."

/-- Whether the fault is about the kind of a value rather than about its amount. -/
def Fault.isKindMismatch : Fault → Bool
  | .notObject _ | .wrongType .. => true
  | _ => false

/-- What lenient checking reports. -/
inductive Notice where
  /-- The number 0 or 1 was taken as a flag; `shown` is its text. -/
  | numberAsFlag (field shown : String) (b : Bool)
  /-- A yes/no word was taken as a flag. -/
  | wordAsFlag (field text : String) (b : Bool)
  /-- Number text was taken as a duration. -/
  | textAsNumber (field text : String)
  /-- A faulty value was replaced. -/
  | replaced (fault : Fault)
  deriving Inhabited

/-- The literal of a flag. -/
def flagLiteral (b : Bool) : String := if b then "True" else "False"

/-- The text of a notice. -/
def Notice.message : Notice → String
  | .numberAsFlag field shown _ => s!"Field '{field}' converted from number {shown} to bool."
  | .wordAsFlag field text b =>
    let shown := flagLiteral b
    s!"Field '{field}' converted from '{text}' to {shown}."
  | .textAsNumber field text => s!"Field '{field}' converted from '{text}' to number."
  | .replaced fault => fault.message ++ " " ++ fault.remedy

/-- Why checking stopped. -/
inductive ConfigError where
  /-- Strict checking met a fault. -/
  | refused (fault : Fault)
  /-- An integer duration is beyond the float range. -/
  | tooLargeForFloat
  deriving Inhabited

/-- The text of a checking error. -/
def ConfigError.message : ConfigError → String
  | .refused fault => fault.message
  | .tooLargeForFloat => "int too large to convert to float"

/-- A checked value with the notices it caused. -/
abbrev Checked (α : Type) := Except ConfigError (α × List Notice)

/-- Refuse the fault when strict; otherwise use the fallback and report it. -/
def reject {α : Type} (strict : Bool) (fault : Fault) (fallback : α) : Checked α :=
  if strict then .error (.refused fault) else .ok (fallback, [.replaced fault])

/-- Words read as a true flag, compared after trimming and ignoring ASCII case. -/
def trueWords : List String := ["true", "1", "yes", "y", "on"]

/-- Words read as a false flag. -/
def falseWords : List String := ["false", "0", "no", "n", "off"]

/-- The flag a word spells. Case is ignored by lowering ASCII letters alone, which suffices since
every word is ASCII and no character beyond ASCII lowers to one of their letters. -/
def wordFlag? (s : String) : Option Bool :=
  let word := String.ofList ((trim s).toList.map Char.toLower)
  if trueWords.contains word then some true
  else if falseWords.contains word then some false
  else none

/-- The lenient reading of a non-flag value as a flag: 0 and 1 as numbers, or a yes/no word. -/
def flagReading? (field : String) : Value → Option (Bool × Notice)
  | .int n => if n == 0 || n == 1 then some (n == 1, .numberAsFlag field (toString n) (n == 1)) else none
  | .float x =>
    if x.eqNat 0 || x.eqNat 1 then some (x.eqNat 1, .numberAsFlag field x.shortest (x.eqNat 1))
    else none
  | .str s => (wordFlag? s).map fun b ↦ (b, .wordAsFlag field s b)
  | _ => none

/-- Check a flag. -/
def checkFlag (strict : Bool) (field : String) (fallback : Bool) : Value → Checked Bool
  | .bool b => .ok (b, [])
  | .null => .ok (fallback, [])
  | v =>
    match if strict then none else flagReading? field v with
    | some (b, notice) => .ok (b, [notice])
    | none => reject strict (.wrongType field "bool" v.typeName) fallback

/-- Check a text: it is trimmed, and an empty one takes the fallback. -/
def checkText (strict : Bool) (field fallback : String) : Value → Checked String
  | .null => .ok (fallback, [])
  | .str s =>
    let t := trim s
    .ok (if t.isEmpty then fallback else t, [])
  | v => reject strict (.wrongType field "str" v.typeName) fallback

/-- The number a duration value reads as, with the notices of reading it; `none` for a value that
is no number. -/
def durationReading (strict : Bool) (field : String) : Value → Checked (Option Binary64)
  | .int n =>
    match Binary64.ofInt? n with
    | some x => .ok (some x, [])
    | none => .error .tooLargeForFloat
  | .float x => .ok (some x, [])
  | .str s =>
    if strict then .ok (none, [])
    else
      match readFloatText (trim s) with
      | some x => .ok (some x, [.textAsNumber field s])
      | none => .ok (none, [])
  | _ => .ok (none, [])

/-- Check a duration: a number that is at least zero (infinity included). -/
def checkDuration (strict : Bool) (field : String) (fallback : Binary64) (v : Value) :
    Checked Binary64 :=
  match v with
  | .null => .ok (fallback, [])
  | _ =>
    match durationReading strict field v with
    | .error e => .error e
    | .ok (some x, notices) =>
      if x.nonnegative then .ok (x, notices)
      else (reject strict (.notNonNegative field v.literal) fallback).map
        fun r ↦ (r.1, notices ++ r.2)
    | .ok (none, notices) =>
      (reject strict (.notNonNegative field v.literal) fallback).map fun r ↦ (r.1, notices ++ r.2)

/-- The integer a depth value reads as: an integer, or leniently integer text. -/
def depthReading? (strict : Bool) : Value → Option Int
  | .int n => some n
  | .str s =>
    if strict then none
    else
      match readIntText (trim s) with
      | .ok n => some n
      | .error _ => none
  | _ => none

/-- Check the minimum depth: an integer no lower than the floor. -/
def checkMinDepth (strict : Bool) : Value → Checked Int
  | .null => .ok (minSafeDepth, [])
  | v =>
    match depthReading? strict v with
    | none => reject strict (.wrongType "min_depth" "int" v.typeName) minSafeDepth
    | some d => if d < minSafeDepth then reject strict (.belowFloor d) minSafeDepth else .ok (d, [])

/-- The value of a member, null when absent. -/
def memberValue (members : List (String × Value)) (name : String) : Value :=
  (lookup members name).getD .null

/-- Check raw settings. -/
def Settings.validate (raw : Value) (strict : Bool) :
    Except ConfigError (Settings × List Notice) :=
  match raw with
  | .object members => do
    let merged := overDefaults members
    let get := memberValue merged
    let d := Settings.defaults
    let (dryRun, n1) ← checkFlag strict "dry_run" d.dryRun (get "dry_run")
    let (unlockFirst, n2) ← checkFlag strict "unlock_before_sync" d.unlockBeforeSync
      (get "unlock_before_sync")
    let (logToFile, n3) ← checkFlag strict "log_to_file" d.logToFile (get "log_to_file")
    let (logLevel, n4) ← checkText strict "log_level" d.logLevel (get "log_level")
    let (logFile, n5) ← checkText strict "log_file" d.logFile (get "log_file")
    let (delay, n6) ← checkDuration strict "delay_seconds" d.delaySeconds (get "delay_seconds")
    let (timeout, n7) ← checkDuration strict "unlock_timeout" d.unlockTimeout (get "unlock_timeout")
    let (minDepth, n8) ← checkMinDepth strict (get "min_depth")
    let settings : Settings :=
      { minDepth, dryRun, delaySeconds := delay, unlockBeforeSync := unlockFirst,
        unlockTimeout := timeout, logLevel := upper logLevel, logToFile, logFile,
        extras := merged.filter fun m ↦ !isKnown m.1 }
    return (settings, n1 ++ n2 ++ n3 ++ n4 ++ n5 ++ n6 ++ n7 ++ n8)
  | v => reject strict (.notObject v.typeName) Settings.defaults

end TorrentPrune.Config
