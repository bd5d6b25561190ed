import TorrentPrune.Text.Blank
import TorrentPrune.Text.Upper

/-!
# Severity levels

A record's severity is a number; the named levels are `DEBUG` (10), `INFO` (20), `WARNING` (30),
`ERROR` (40) and `CRITICAL` (50), and `WARN` is read as `WARNING`. A level name is read after
trimming and upper-casing it; a name that is not a level falls back to a given level. A number
without a name is written `Level n`.

Source: `src/src/dircomp/infra/logging/config.py:26–33`.
-/

namespace TorrentPrune.Logging

open TorrentPrune.Text

/-- The level names that are read, with their numbers. -/
def levelTable : List (String × Nat) :=
  [("DEBUG", 10), ("INFO", 20), ("WARNING", 30), ("WARN", 30), ("ERROR", 40), ("CRITICAL", 50)]

/-- The `DEBUG` level. -/
def debugLevel : Nat := 10

/-- The `INFO` level. -/
def infoLevel : Nat := 20

/-- The `WARNING` level. -/
def warningLevel : Nat := 30

/-- The `ERROR` level. -/
def errorLevel : Nat := 40

/-- The `CRITICAL` level. -/
def criticalLevel : Nat := 50

/-- The level a name stands for, or `fallback`. -/
def parseLevel (name : String) (fallback : Nat) : Nat :=
  (levelTable.lookup (upper (trim name))).getD fallback

/-- The name a record of this level carries. -/
def levelName (n : Int) : String :=
  if n = 50 then "CRITICAL"
  else if n = 40 then "ERROR"
  else if n = 30 then "WARNING"
  else if n = 20 then "INFO"
  else if n = 10 then "DEBUG"
  else if n = 0 then "NOTSET"
  else s!"Level {n}"

end TorrentPrune.Logging
