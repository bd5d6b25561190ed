import TorrentPrune.Bencode.Value
import TorrentPrune.Text.Quoted
import TorrentPrune.Number.DigitLimit

/-!
# Reading errors

What can go wrong while reading bencode, each with the byte offset where it was detected, and the
one text that describes it. A second kind of failure is not about the format at all: integer text
longer than the digit limit is refused when it is converted to a number, as the surrounding
runtime does for every integer conversion (`TorrentPrune.Number.digitLimit`).

Source: `src/src/dircomp/core/bencode/decoder.py:146–200`, `src/src/dircomp/domain/errors.py:25–53`.
-/

namespace TorrentPrune.Bencode

open TorrentPrune.Text TorrentPrune.Number

/-- The defect found in malformed input. -/
inductive Problem where
  /-- The input ended where a value had to start. -/
  | endOfData
  /-- The input ended inside a list. -/
  | unclosedList
  /-- A dictionary key has no value: the dictionary ended or the input did. -/
  | missingValue
  /-- The input ended inside a dictionary, after a complete entry. -/
  | unclosedDict
  /-- A container would open below the permitted nesting. -/
  | tooDeep (limit : Int)
  /-- A dictionary key is not a byte string; the kind that stood there. -/
  | keyNotBytes (kind : String)
  /-- A byte that starts no value. -/
  | unexpectedByte (b : UInt8)
  /-- An integer without its closing `e`. -/
  | intUnterminated
  /-- Integer text that is not a canonical decimal. -/
  | intBadFormat (body : Bytes)
  /-- An integer outside the signed 64-bit range. -/
  | intOutOfRange (body : Bytes)
  /-- A length prefix not followed by a colon. -/
  | lengthNoColon
  /-- A length prefix with a leading zero. -/
  | lengthLeadingZero (digits : Bytes)
  /-- A byte string longer than the input that remains after its colon. -/
  | stringTooShort (needed available : Nat)
  /-- Bytes left over after a complete value, when the whole input must be one value. -/
  | trailing (count : Nat)
  deriving Inhabited, BEq

/-- A defect and the byte offset where it was detected. -/
structure DecodeError where
  problem : Problem
  offset : Nat
  deriving Inhabited, BEq

/-- Text of bytes read as ASCII, each byte above 0x7F standing as the replacement character. -/
def asciiLossy (b : Bytes) : String :=
  String.ofList (b.map fun x ↦ if x < 128 then Char.ofNat x.toNat else Char.ofNat 0xFFFD)

/-- The description of a defect. -/
def Problem.describe : Problem → String
  | .endOfData => "Unexpected end of data"
  | .unclosedList => "List: missing 'e'"
  | .missingValue => "Dictionary: missing value"
  | .unclosedDict => "Dictionary: missing 'e'"
  | .tooDeep limit => s!"Nesting deeper than {limit} levels"
  | .keyNotBytes kind => s!"Dictionary: key must be byte string, got {kind}"
  | .unexpectedByte b =>
    let shown := quote (Char.ofNat b.toNat).toString
    let code := hexPadded 2 b.toNat
    s!"Unexpected byte {shown} (0x{code})"
  | .intUnterminated => "Integer: missing 'e'"
  | .intBadFormat body =>
    let shown := quote (asciiLossy body)
    s!"Integer: bad format {shown}"
  | .intOutOfRange body =>
    let shown := asciiLossy body
    s!"Integer: {shown} out of 64-bit range"
  | .lengthNoColon => "String: missing ':'"
  | .lengthLeadingZero digits =>
    let shown := quote (asciiLossy digits)
    s!"String: bad length {shown}"
  | .stringTooShort needed available =>
    s!"String: expected {needed} bytes but only {available} available"
  | .trailing count => s!"{count} trailing bytes after root value"

/-- The full message of a reading error. -/
def DecodeError.message (e : DecodeError) : String :=
  let text := e.problem.describe
  let offset := e.offset
  s!"Bencode parse error: {text} (at offset {offset})"

/-- Why reading failed: malformed input, or integer text too long to convert. -/
inductive ReadFailure where
  | malformed (e : DecodeError)
  | tooManyDigits (count : Nat)
  deriving Inhabited, BEq

end TorrentPrune.Bencode
