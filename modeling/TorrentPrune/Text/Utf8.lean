/-!
# UTF-8

Encoding characters as UTF-8 bytes, and decoding bytes in two ways: strictly, failing at the
first ill-formed sequence, and lossily, writing one replacement character U+FFFD for each maximal
ill-formed subpart. A maximal subpart is the longest prefix of a well-formed sequence that stands
at the front of the bytes: a lead byte with the continuation bytes that may follow it, up to the
first byte that may not (or the end of the bytes). A byte that can start no sequence is a subpart
of its own. Surrogate code points are ill-formed, so their three-byte encodings give three
replacement characters.

Names read from a file system are bytes, decoded the same way except that each byte of an
ill-formed subpart is kept: bytes 0x80 to 0xFF are held by the characters U+10FF80 to U+10FFFF
(`heldByte`), so that the name's bytes can be recovered from its text. Such a character stands
for a lone surrogate, which strict encoding refuses.

Source: `src/src/dircomp/domain/bencode_models.py:42–52`, `src/src/dircomp/domain/config.py:94–115`.
-/

namespace TorrentPrune.Text

/-- The UTF-8 bytes of one character. -/
def encodeChar (c : Char) : List UInt8 :=
  let n := c.toNat
  if n < 0x80 then [n.toUInt8]
  else if n < 0x800 then [(0xC0 + n / 64).toUInt8, (0x80 + n % 64).toUInt8]
  else if n < 0x10000 then
    [(0xE0 + n / 4096).toUInt8, (0x80 + n / 64 % 64).toUInt8, (0x80 + n % 64).toUInt8]
  else
    [(0xF0 + n / 262144).toUInt8, (0x80 + n / 4096 % 64).toUInt8, (0x80 + n / 64 % 64).toUInt8,
      (0x80 + n % 64).toUInt8]

/-- The character that holds a byte which does not decode. -/
def heldByte (b : UInt8) : Char := Char.ofNat (0x10FF00 + b.toNat)

/-- The byte that a character holds, for the characters U+10FF80 to U+10FFFF. -/
def byteHeld? (c : Char) : Option UInt8 :=
  if 0x10FF80 ≤ c.toNat then some (c.toNat - 0x10FF00).toUInt8 else none

/-- The UTF-8 bytes of a text. -/
def encodeUtf8 (s : String) : List UInt8 := s.toList.flatMap encodeChar

/-- Whether strict encoding refuses a character: one that holds a byte stands for a lone
surrogate, which has no UTF-8 form. -/
def refusedByEncoder (c : Char) : Bool := (byteHeld? c).isSome

/-- Where strict encoding failed: the run of refused characters from offset `start` up to `stop`
(excluded), and the byte that the first of them holds. -/
structure EncodeFailure where
  start : Nat
  stop : Nat
  firstByte : UInt8

/-- The message of a strict encoding failure; a held byte shows as its lone surrogate. -/
def EncodeFailure.message (f : EncodeFailure) : String :=
  if f.stop ≤ f.start + 1 then
    let unit := String.ofList (Nat.toDigits 16 (0xDC00 + f.firstByte.toNat))
    s!"'utf-8' codec can't encode character '\\u{unit}' in position {f.start}: surrogates not allowed"
  else
    let last := f.stop - 1
    s!"'utf-8' codec can't encode characters in position {f.start}-{last}: surrogates not allowed"

/-- Encode strictly the characters from offset `pos`, failing at the first refused one. -/
def encodeStrictFrom (pos : Nat) : List Char → Except EncodeFailure (List UInt8)
  | [] => .ok []
  | c :: rest =>
    match byteHeld? c with
    | some b => .error ⟨pos, pos + 1 + (rest.takeWhile refusedByEncoder).length, b⟩
    | none => (encodeChar c ++ ·) <$> encodeStrictFrom (pos + 1) rest

/-- Encode a text strictly. -/
def encodeStrict (s : String) : Except EncodeFailure (List UInt8) := encodeStrictFrom 0 s.toList

/-- Text handed in pieces to a strict UTF-8 stream: the bytes of the pieces before the first that
fails to encode, and that failure. -/
def encodePieces : List String → List UInt8 × Option EncodeFailure
  | [] => ([], none)
  | p :: ps =>
    match encodeStrict p with
    | .error f => ([], some f)
    | .ok bytes =>
      let (rest, failure) := encodePieces ps
      (bytes ++ rest, failure)

/-- What a lead byte announces: how many continuation bytes follow, and the range allowed for
the first of them (the others range over 0x80 to 0xBF). `none` for a byte that starts nothing. -/
def leadShape (b : Nat) : Option (Nat × Nat × Nat) :=
  if b < 0x80 then some (0, 0, 0)
  else if b < 0xC2 then none
  else if b < 0xE0 then some (1, 0x80, 0xBF)
  else if b == 0xE0 then some (2, 0xA0, 0xBF)
  else if b == 0xED then some (2, 0x80, 0x9F)
  else if b < 0xF0 then some (2, 0x80, 0xBF)
  else if b == 0xF0 then some (3, 0x90, 0xBF)
  else if b < 0xF4 then some (3, 0x80, 0xBF)
  else if b == 0xF4 then some (3, 0x80, 0x8F)
  else none

/-- The sequence at the front of some bytes. -/
inductive Piece where
  /-- A well-formed sequence of `len` bytes encoding `c`. -/
  | char (c : Char) (len : Nat)
  /-- A byte that starts no sequence. -/
  | invalidStart
  /-- A maximal subpart of `len` bytes followed by a byte that may not continue it. -/
  | invalidContinuation (len : Nat)
  /-- A maximal subpart of `len` bytes that the end of the bytes cuts short. -/
  | truncated (len : Nat)

/-- How many bytes a piece takes (at least one). -/
def Piece.length : Piece → Nat
  | .char _ len => len
  | .invalidStart => 1
  | .invalidContinuation len => len
  | .truncated len => len

/-- Take `count` continuation bytes, the first within `lo..hi`: the accumulated code point, or
how far the well-formed prefix went (`none` when the bytes ran out, `some` when a byte did not
fit). -/
def continuation (count lo hi : Nat) (acc : Nat) (taken : Nat) :
    List UInt8 → Nat ⊕ (Option Nat)
  | [] => if count = 0 then .inl acc else .inr none
  | b :: rest =>
    match count with
    | 0 => .inl acc
    | k + 1 =>
      if lo ≤ b.toNat && b.toNat ≤ hi then
        continuation k 0x80 0xBF (acc * 64 + (b.toNat - 0x80)) (taken + 1) rest
      else .inr (some taken)

/-- The piece at the front of nonempty bytes `b :: rest`. -/
def frontPiece (b : UInt8) (rest : List UInt8) : Piece :=
  match leadShape b.toNat with
  | none => .invalidStart
  | some (0, _, _) => .char (Char.ofNat b.toNat) 1
  | some (count, lo, hi) =>
    let payload := if count == 1 then b.toNat - 0xC0
      else if count == 2 then b.toNat - 0xE0 else b.toNat - 0xF0
    match continuation count lo hi payload 1 rest with
    | .inl code => .char (Char.ofNat code) (count + 1)
    | .inr (some taken) => .invalidContinuation taken
    | .inr none => .truncated (rest.length + 1)

/-- Decode, writing U+FFFD for each maximal ill-formed subpart. -/
def decodeLossy : List UInt8 → List Char
  | [] => []
  | b :: rest =>
    let p := frontPiece b rest
    let c := match p with
      | .char c _ => c
      | _ => Char.ofNat 0xFFFD
    c :: decodeLossy ((b :: rest).drop (max p.length 1))
termination_by bs => bs.length
decreasing_by simp only [List.length_drop, List.length_cons]; omega

/-- Decode lossily into a text. -/
def decodeLossyText (bs : List UInt8) : String := String.ofList (decodeLossy bs)

/-- Where strict decoding failed: the offset and length of the ill-formed subpart, the byte
there, and the reason. -/
structure DecodeFailure where
  offset : Nat
  length : Nat
  firstByte : UInt8
  reason : String

/-- The message of a strict decoding failure. -/
def DecodeFailure.message (f : DecodeFailure) : String :=
  let first := f.firstByte.toNat
  let hex := String.ofList (Nat.toDigits 16 first)
  let hex := if hex.length < 2 then "0" ++ hex else hex
  if f.length ≤ 1 then
    s!"'utf-8' codec can't decode byte 0x{hex} in position {f.offset}: {f.reason}"
  else
    let last := f.offset + f.length - 1
    s!"'utf-8' codec can't decode bytes in position {f.offset}-{last}: {f.reason}"

/-- Decode strictly from offset `pos`, failing at the first ill-formed subpart. -/
def decodeStrictFrom (pos : Nat) (acc : List Char) : List UInt8 → Except DecodeFailure String
  | [] => .ok (String.ofList acc.reverse)
  | b :: rest =>
    match frontPiece b rest with
    | .char c len => decodeStrictFrom (pos + len) (c :: acc) ((b :: rest).drop (max len 1))
    | .invalidStart => .error ⟨pos, 1, b, "invalid start byte"⟩
    | .invalidContinuation len => .error ⟨pos, len, b, "invalid continuation byte"⟩
    | .truncated len => .error ⟨pos, len, b, "unexpected end of data"⟩
termination_by bs => bs.length
decreasing_by simp only [List.length_drop, List.length_cons]; omega

/-- Decode strictly. -/
def decodeStrict (bs : List UInt8) : Except DecodeFailure String := decodeStrictFrom 0 [] bs

end TorrentPrune.Text
