import TorrentPrune.Manifest.Extract
import TorrentPrune.Safety

/-!
# Why a run stops

A run stops for one of five reasons, each reported under its kind: the metadata is not bencode
(`decode`), it has no usable file list (`extract`), the metadata file cannot be read (`read`), the
target is too shallow (`safety`), or the target directory is missing (`precondition`).

Three other failures are not the run's to report, and end the step that started the run: a path
that holds a NUL character, integer text too long to convert, and a pause the clock refuses.

Source: `src/src/dircomp/domain/errors.py:19–92`.
-/

namespace TorrentPrune.Run

open TorrentPrune.Fs TorrentPrune.Bencode

/-- Why a run stops. -/
inductive RunError where
  | decode (e : DecodeError)
  | extract (e : ExtractError)
  | unreadable (e : OsError)
  | shallow (e : SafetyError)
  | missing (dir : String)
  deriving Inhabited

/-- The kind of a run error, as results report it. -/
def RunError.kind : RunError → String
  | .decode _ => "decode"
  | .extract _ => "extract"
  | .unreadable _ => "read"
  | .shallow _ => "safety"
  | .missing _ => "precondition"

/-- The message of a run error. -/
def RunError.message : RunError → String
  | .decode e => e.message
  | .extract e => e.message
  | .unreadable e => "Cannot read torrent file: " ++ e.message
  | .shallow e => e.message
  | .missing dir => s!"Directory '{dir}' does not exist"

/-- The name of a run error's class. -/
def RunError.className : RunError → String
  | .decode e =>
    match e.problem with
    | .stringTooShort _ _ => "StringLengthError"
    | _ => "DecodeError"
  | .extract _ => "ExtractError"
  | .unreadable _ => "TorrentReadError"
  | .shallow _ => "SafetyError"
  | .missing _ => "PreconditionError"

/-- Why the clock refuses a pause. -/
inductive ClockFault where
  /-- Whole seconds whose nanoseconds do not fit a signed 64-bit count. -/
  | tooLarge
  /-- Seconds whose nanoseconds, rounded up, reach 2^63, or are infinite. -/
  | outOfRange
  /-- A deadline past the clock's last instant, which wraps below zero. -/
  | invalid
  deriving Inhabited

/-- The class name of the clock's refusal. -/
def ClockFault.className : ClockFault → String
  | .invalid => "OSError"
  | _ => "OverflowError"

/-- The message of the clock's refusal. -/
def ClockFault.message : ClockFault → String
  | .tooLarge => "timestamp too large to convert to C _PyTime_t"
  | .outOfRange => "timestamp out of range for platform time_t"
  | .invalid => "[Errno 22] Invalid argument"

/-- A failure no run handles. -/
inductive Escape where
  | nulByte
  | tooManyDigits (count : Nat)
  | clock (f : ClockFault)
  deriving Inhabited

/-- The message of an unhandled failure. -/
def Escape.message : Escape → String
  | .nulByte => "embedded null byte"
  | .tooManyDigits n => Number.digitLimitMessage n
  | .clock f => f.message

/-- The class name of an unhandled failure. -/
def Escape.className : Escape → String
  | .clock f => f.className
  | _ => "ValueError"

/-- Why a step stops: a run error, or a failure no run handles. -/
inductive Halt where
  | run (e : RunError)
  | escape (e : Escape)
  deriving Inhabited

/-- The class name and message of a stopped step. -/
def Halt.describe : Halt → String × String
  | .run e => (e.className, e.message)
  | .escape e => (e.className, e.message)

/-- Unreadable metadata bytes stop a step. -/
def Halt.ofReadFailure : ReadFailure → Halt
  | .malformed e => .run (.decode e)
  | .tooManyDigits n => .escape (.tooManyDigits n)

/-- Metadata without a usable manifest stops a step. -/
def Halt.ofManifestError : ManifestError → Halt
  | .unreadable f => Halt.ofReadFailure f
  | .unusable e => .run (.extract e)

/-- A guard that refuses a target stops a step. -/
def Halt.ofGuardError : GuardError → Halt
  | .shallow e => .run (.shallow e)
  | .nulByte => .escape .nulByte

end TorrentPrune.Run
