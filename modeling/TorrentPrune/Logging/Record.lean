import TorrentPrune.Logging.Level

/-!
# Log records

A record is what a part of the program reports: the name of the reporting logger, a severity
level and a message. A run keeps the records it emits, in order, as its journal; where they end
up (the console, the run log, or nowhere) is decided by the logging system that receives them.

Source: `src/src/dircomp/infra/logging/core.py:146–162`.
-/

namespace TorrentPrune.Logging

/-- A record: the name of the logger, its level and its message. -/
structure LogRecord where
  logger : String
  level : Int
  message : String
  deriving Inhabited

/-- The records of a run, in the order they were emitted. -/
abbrev Journal := List LogRecord

/-- A `DEBUG` record. -/
def LogRecord.debug (logger message : String) : LogRecord := ⟨logger, debugLevel, message⟩

/-- An `INFO` record. -/
def LogRecord.info (logger message : String) : LogRecord := ⟨logger, infoLevel, message⟩

/-- A `WARNING` record. -/
def LogRecord.warning (logger message : String) : LogRecord := ⟨logger, warningLevel, message⟩

/-- An `ERROR` record. -/
def LogRecord.error (logger message : String) : LogRecord := ⟨logger, errorLevel, message⟩

/-- A `CRITICAL` record. -/
def LogRecord.critical (logger message : String) : LogRecord := ⟨logger, criticalLevel, message⟩

end TorrentPrune.Logging
