import TorrentPrune.Bencode.Error

/-!
# Reading bencode

`parse` reads one value from the front of the input and returns it with the bytes after it;
`decode` also requires that no bytes follow. Containers are kept on an explicit stack of open
frames, so nesting is bounded by the depth limit and not by recursion: opening a container when
`limit` containers are already open is an error, whatever the limit (zero or negative included).

Every step consumes at least one byte, so reading ends on every input. A malformed input fails at
the first defect met from the left, with the offset where it was detected.

Source: `src/src/dircomp/core/bencode/decoder.py:43–200`.
-/

namespace TorrentPrune.Bencode

open TorrentPrune.Number

/-- The largest signed 64-bit integer. -/
def int64Max : Int := Nat.pow 2 63 - 1

/-- The smallest signed 64-bit integer. -/
def int64Min : Int := -(Nat.pow 2 63)

/-- The default limit on container nesting. -/
def defaultDepthLimit : Int := 512

/-- The number written by ASCII decimal digits. -/
def digitsValue (ds : Bytes) : Nat :=
  ds.foldl (fun acc d ↦ acc * 10 + (d.toNat - 48)) 0

/-- Canonical decimal text of a natural number: `0`, or digits with no leading zero. -/
def isNaturalText : Bytes → Bool
  | [] => false
  | d :: ds => if d == 48 then ds.isEmpty else isDigit d && ds.all isDigit

/-- Canonical decimal text of an integer: natural text after an optional minus sign, but not
`-0`. -/
def isIntegerText : Bytes → Bool
  | [] => false
  | d :: ds => if d == minus then isNaturalText ds && ds != [48] else isNaturalText (d :: ds)

/-- Read an integer whose lead byte stands at `pos`, from the bytes `tail` after that lead byte.
Gives the integer and the number of bytes of `tail` it takes, the closing `e` included. -/
def readInteger (pos : Nat) (tail : Bytes) : Except ReadFailure (Int × Nat) :=
  let body := tail.takeWhile (· != leadEnd)
  if body.length = tail.length then .error (.malformed ⟨.intUnterminated, pos⟩)
  else if !isIntegerText body then .error (.malformed ⟨.intBadFormat body, pos⟩)
  else
    let negative := body.head? == some minus
    let digits := if negative then body.drop 1 else body
    if digitLimit < digits.length then .error (.tooManyDigits digits.length)
    else
      let magnitude : Int := digitsValue digits
      let n := if negative then -magnitude else magnitude
      if n < int64Min ∨ int64Max < n then .error (.malformed ⟨.intOutOfRange body, pos⟩)
      else .ok (n, body.length + 1)

/-- Read a byte string whose length prefix starts at `pos` with the digit `first`, followed by
`tail`. Gives the bytes and the number of bytes of `tail` the string takes. -/
def readString (pos : Nat) (first : UInt8) (tail : Bytes) : Except ReadFailure (Bytes × Nat) :=
  let more := tail.takeWhile isDigit
  let digits := first :: more
  match tail.drop more.length with
  | [] => .error (.malformed ⟨.lengthNoColon, pos⟩)
  | c :: after =>
    if c != colon then .error (.malformed ⟨.lengthNoColon, pos⟩)
    else if first == 48 && !more.isEmpty then .error (.malformed ⟨.lengthLeadingZero digits, pos⟩)
    else if digitLimit < digits.length then .error (.tooManyDigits digits.length)
    else
      let needed := digitsValue digits
      if after.length < needed then
        .error (.malformed ⟨.stringTooShort needed after.length, pos⟩)
      else .ok (after.take needed, more.length + 1 + needed)

/-- An open container on the reader's stack, with the offset of its lead byte. -/
inductive Frame where
  /-- A list and its items so far, the latest first. -/
  | list (offset : Nat) (items : List Value)
  /-- A dictionary, its entries so far, and a key that waits for its value. -/
  | dict (offset : Nat) (entries : List (Bytes × Value)) (pending : Option Bytes)
  deriving Inhabited

/-- The finished container. -/
def Frame.close : Frame → Value
  | .list _ items => .list items.reverse
  | .dict _ entries _ => .dict entries

/-- What is missing when the input ends inside this container. -/
def Frame.endProblem : Frame → Problem
  | .list _ _ => .unclosedList
  | .dict _ _ (some _) => .missingValue
  | .dict _ _ none => .unclosedDict

/-- Add a finished value to the container: an item of a list, or a dictionary's key or value.
A dictionary key must be a byte string; the error stands at the dictionary's offset. -/
def Frame.add : Frame → Value → Except DecodeError Frame
  | .list o items, v => .ok (.list o (v :: items))
  | .dict o entries none, .bytes k => .ok (.dict o entries (some k))
  | .dict o _ none, v => .error ⟨.keyNotBytes v.kindName, o⟩
  | .dict o entries (some k), v => .ok (.dict o (insertEntry k v entries) none)

/-- The frame that a lead byte opens at `pos`. -/
def Frame.opening (lead : UInt8) (pos : Nat) : Frame :=
  if lead == leadDict then .dict pos [] none else .list pos []

/-- What the input ending means with this stack. -/
def endProblem : List Frame → Problem
  | [] => .endOfData
  | f :: _ => f.endProblem

/-- The outcome of one step of reading, which consumes the lead byte and `consumed` more. -/
inductive Step where
  /-- The outermost value is complete. -/
  | done (v : Value) (consumed : Nat)
  /-- Reading goes on with this stack and depth. -/
  | next (stack : List Frame) (depth : Nat) (consumed : Nat)
  /-- Reading failed. -/
  | fail (f : ReadFailure)

/-- Hand a finished value to the container on top of the stack; with no container open the
value is the result. -/
def deliver (v : Value) (stack : List Frame) (depth consumed : Nat) : Step :=
  match stack with
  | [] => .done v consumed
  | f :: fs =>
    match f.add v with
    | .ok g => .next (g :: fs) depth consumed
    | .error e => .fail (.malformed e)

/-- A step at a lead byte that starts a value. -/
def startValue (limit : Int) (stack : List Frame) (depth pos : Nat) (b : UInt8)
    (tail : Bytes) : Step :=
  if b == leadList || b == leadDict then
    if limit ≤ depth then .fail (.malformed ⟨.tooDeep limit, pos⟩)
    else .next (Frame.opening b pos :: stack) (depth + 1) 0
  else if b == leadInt then
    match readInteger pos tail with
    | .ok (n, k) => deliver (.int n) stack depth k
    | .error e => .fail e
  else if isDigit b then
    match readString pos b tail with
    | .ok (s, k) => deliver (.bytes s) stack depth k
    | .error e => .fail e
  else .fail (.malformed ⟨.unexpectedByte b, pos⟩)

/-- One step at the lead byte `b`, offset `pos`, followed by `tail`. An `e` closes the innermost
open container, unless it is a dictionary whose last key has no value. -/
def stepAt (limit : Int) (stack : List Frame) (depth pos : Nat) (b : UInt8) (tail : Bytes) :
    Step :=
  match stack with
  | f :: fs =>
    if b == leadEnd then
      match f with
      | .dict _ _ (some _) => .fail (.malformed ⟨.missingValue, pos⟩)
      | _ => deliver f.close fs (depth - 1) 0
    else startValue limit stack depth pos b tail
  | [] => startValue limit [] depth pos b tail

/-- Read from `input`, which starts at offset `pos`, with `stack` open (innermost first) and
`depth` its size. -/
def readFrom (limit : Int) (stack : List Frame) (depth pos : Nat) :
    Bytes → Except ReadFailure (Value × Bytes)
  | [] => .error (.malformed ⟨endProblem stack, pos⟩)
  | b :: tail =>
    match stepAt limit stack depth pos b tail with
    | .done v k => .ok (v, tail.drop k)
    | .next st d k => readFrom limit st d (pos + 1 + k) (tail.drop k)
    | .fail f => .error f
termination_by input => input.length
decreasing_by simp only [List.length_drop, List.length_cons]; omega

/-- Read one value from the front of `data`; gives the value and the bytes after it. -/
def parse (data : Bytes) (limit : Int := defaultDepthLimit) : Except ReadFailure (Value × Bytes) :=
  readFrom limit [] 0 0 data

/-- Read `data` as exactly one value: bytes after the value are an error at their offset. -/
def decode (data : Bytes) (limit : Int := defaultDepthLimit) : Except ReadFailure Value :=
  match parse data limit with
  | .error f => .error f
  | .ok (v, []) => .ok v
  | .ok (_, rest) =>
    .error (.malformed ⟨.trailing rest.length, data.length - rest.length⟩)

/-- The message for reading something that is not bytes, naming its type. -/
def notBytesMessage (typeName : String) : String :=
  s!"Input data must be bytes, received {typeName}."

end TorrentPrune.Bencode
