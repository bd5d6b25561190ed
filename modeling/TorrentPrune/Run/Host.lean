import TorrentPrune.Fs.Refusal
import TorrentPrune.Json.Value
import TorrentPrune.Logging.Record
import TorrentPrune.Run.Error
import TorrentPrune.Unlock.Release

/-!
# The host of a run

Runs act on a host: its volume, the processes that hold files open on it, the calls the
volume refuses, and the clock it pauses on. What a run reports goes to the host's journal, and
every pause it takes is noted, so that a run neither waits nor writes anywhere but in its host.

A monotonic clock counts nanoseconds in a signed 64-bit integer. A pause is converted to
nanoseconds first (whole seconds exactly, a binary64 number in binary64 and rounded up), and a
count of 2^63 or more is refused; the deadline `now + ns` is then computed in the same count,
and one that passes 2^63 wraps below zero and is refused by the wait. A recorder, the clock of a
test double, notes pauses and refuses none.

Source: `src/src/dircomp/core/pipeline/engine.py:80–82`.
-/

namespace TorrentPrune.Run

open TorrentPrune.Fs TorrentPrune.Logging TorrentPrune.Unlock TorrentPrune.Number

/-- A length of time as it was given: whole seconds or a binary64 number of seconds. -/
inductive Seconds where
  | whole (n : Int)
  | real (x : Binary64)
  deriving Inhabited

/-- Whether a length of time is greater than zero. -/
def Seconds.positive : Seconds → Bool
  | .whole n => decide (0 < n)
  | .real x => x.positive

/-- A length of time as a number value. -/
def Seconds.toValue : Seconds → Json.Value
  | .whole n => .int n
  | .real x => .float x

/-- The nanoseconds a signed 64-bit count cannot reach. -/
def clockLimit : Nat := Nat.pow 2 63

/-- The nanoseconds of a positive pause as the clock reads them, or why it refuses them. -/
def Seconds.nanos : Seconds → Except ClockFault Nat
  | .whole n =>
    let ns := n.toNat * 1000000000
    if clockLimit ≤ ns then .error .tooLarge else .ok ns
  | .real x =>
    let d := x.timesNat 1000000000
    if !d.isFinite then .error .outOfRange
    else if clockLimit ≤ d.ceilNat then .error .outOfRange
    else .ok d.ceilNat

/-- The clock a host pauses on. -/
inductive Clock where
  /-- A clock that notes each pause and lets no time pass. -/
  | recorder
  /-- A monotonic clock at `now` nanoseconds. -/
  | monotonic (now : Nat)
  deriving Inhabited

/-- The host of a run. -/
structure Host where
  volume : Volume
  holders : List Holder
  refusals : List Refusal
  journal : Journal
  slept : List Seconds
  clock : Clock
  deriving Inhabited

/-- A host with a volume and a recorder for a clock. -/
def Host.ofVolume (v : Volume) : Host := ⟨v, [], [], [], [], .recorder⟩

/-- Emit a record. -/
def Host.note (h : Host) (r : LogRecord) : Host := { h with journal := h.journal ++ [r] }

/-- Emit records. -/
def Host.noteAll (h : Host) (rs : Journal) : Host := { h with journal := h.journal ++ rs }

/-- Pause for `s`: a recorder notes the pause; a monotonic clock waits until its deadline. -/
def Host.sleep (h : Host) (s : Seconds) : Except ClockFault Host :=
  match h.clock with
  | .recorder => .ok { h with slept := h.slept ++ [s] }
  | .monotonic now =>
    match s.nanos with
    | .error f => .error f
    | .ok ns =>
      if clockLimit ≤ now + ns then .error .invalid
      else .ok { h with slept := h.slept ++ [s], clock := .monotonic (now + ns) }

end TorrentPrune.Run
