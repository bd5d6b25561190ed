import TorrentPrune.Json.Value

/-!
# Run settings

The settings of a run: the depth guard's minimum, whether to delete or only report, the delay
before touching the target, whether and how long to release locks first, and the run log. The
stored and exchanged form is a JSON object whose eight known members stand first, in a fixed
order, followed by any other members, kept as they came.

Source: `src/src/dircomp/domain/config.py:37–63`, `src/src/dircomp/domain/constants.py`.
-/

namespace TorrentPrune.Config

open TorrentPrune.Number TorrentPrune.Json

/-- The names of the known settings, in the order of the stored form. -/
def knownNames : List String :=
  ["min_depth", "dry_run", "delay_seconds", "unlock_before_sync", "unlock_timeout",
    "log_level", "log_to_file", "log_file"]

/-- Checked settings; `extras` are the members with other names, in order. -/
structure Settings where
  minDepth : Int
  dryRun : Bool
  delaySeconds : Binary64
  unlockBeforeSync : Bool
  unlockTimeout : Binary64
  logLevel : String
  logToFile : Bool
  logFile : String
  extras : List (String × Value)
  deriving Inhabited

/-- Three seconds, the default delay before a run. -/
def defaultDelay : Binary64 := ⟨0x4008000000000000⟩

/-- Five seconds, the default time locking processes get to exit. -/
def defaultUnlockTimeout : Binary64 := ⟨0x4014000000000000⟩

/-- The settings used when none are stored. -/
def Settings.defaults : Settings where
  minDepth := 3
  dryRun := false
  delaySeconds := defaultDelay
  unlockBeforeSync := false
  unlockTimeout := defaultUnlockTimeout
  logLevel := "INFO"
  logToFile := true
  logFile := ""
  extras := []

/-- The known members of the settings, in stored order. -/
def Settings.knownMembers (s : Settings) : List (String × Value) :=
  [("min_depth", .int s.minDepth), ("dry_run", .bool s.dryRun),
    ("delay_seconds", .float s.delaySeconds), ("unlock_before_sync", .bool s.unlockBeforeSync),
    ("unlock_timeout", .float s.unlockTimeout), ("log_level", .str s.logLevel),
    ("log_to_file", .bool s.logToFile), ("log_file", .str s.logFile)]

/-- The settings as members: the known ones first, then the others. -/
def Settings.toMembers (s : Settings) : List (String × Value) :=
  s.knownMembers ++ s.extras

/-- The settings as a JSON object. -/
def Settings.toValue (s : Settings) : Value := .object s.toMembers

/-- Whether a name is one of the known settings. -/
def isKnown (name : String) : Bool := knownNames.contains name

/-- Lay `members` over the default members: a known name replaces the default in place, any
other is appended, a later member replacing an earlier one of its name. -/
def overDefaults (members : List (String × Value)) : List (String × Value) :=
  members.foldl (fun acc m ↦ setMember acc m.1 m.2) Settings.defaults.toMembers

/-- Lay one name of the overrides over members: a value other than `None` replaces the member
in place or is appended. -/
def overrideMember (overrides members : List (String × Value)) (name : String) :
    List (String × Value) :=
  match lookup overrides name with
  | none | some .null => members
  | some v => setMember members name v

/-- Lay overrides over stored members: each known name that the overrides give, other than
`None`, replaces its member in place or is appended, in stored order; other names in the
overrides are left out. -/
def mergeKnown (base overrides : List (String × Value)) : List (String × Value) :=
  knownNames.foldl (overrideMember overrides) base

end TorrentPrune.Config
