import TorrentPrune.Text.Utf8

/-!
# Byte names as texts

A file system holds a name as bytes and hands it over as text: each well-formed UTF-8 sequence is
its character, and each byte of an ill-formed subpart is kept in the character that holds it
(`heldByte`). A manifest reads the components of a declared path lossily instead, writing U+FFFD
for an ill-formed subpart.

The two readings agree exactly on the bytes that decode strictly, and there both give the strict
decoding (`decodeName_eq_decodeLossyText_iff`). On any other bytes they part: where the file
system keeps a byte, the lossy reading has lost it.
-/

namespace TorrentPrune.Text

/-- Decode as a file system hands names over: each well-formed sequence is its character, and
each byte of an ill-formed subpart is held by its own character. Every byte after the first of a
maximal subpart is a continuation byte, which starts no sequence, so a subpart may be taken one
byte at a time. -/
def decodeKeeping : List UInt8 → List Char
  | [] => []
  | b :: rest =>
    match frontPiece b rest with
    | .char c len => c :: decodeKeeping ((b :: rest).drop (max len 1))
    | _ => heldByte b :: decodeKeeping rest
termination_by bs => bs.length
decreasing_by
  all_goals simp only [List.length_drop, List.length_cons]
  all_goals omega

/-- The text a file system gives a name of the given bytes. -/
def decodeName (bs : List UInt8) : String := String.ofList (decodeKeeping bs)

/-- The character that holds a byte is U+10FF00 above it. -/
theorem toNat_heldByte (b : UInt8) : (heldByte b).toNat = 0x10FF00 + b.toNat := by
  have hb := b.toNat_lt
  have hv : (0x10FF00 + b.toNat).isValidChar := Or.inr ⟨by omega, by omega⟩
  unfold heldByte
  rw [Char.ofNat, dif_pos hv]
  rfl

/-- No byte is held by the replacement character. -/
theorem heldByte_ne_replacement (b : UInt8) : heldByte b ≠ Char.ofNat 0xFFFD := by
  intro h
  have hn := congrArg Char.toNat h
  have hr : (Char.ofNat 0xFFFD).toNat = 0xFFFD := by decide
  rw [toNat_heldByte, hr] at hn
  omega

/-- Where strict decoding goes through, the lossy reading gives what it gives after the
characters already read, and the file system's reading is the lossy one. -/
theorem decodeStrictFrom_eq_ok : ∀ {bs : List UInt8} {pos : Nat} {acc : List Char} {s : String},
    decodeStrictFrom pos acc bs = .ok s →
      s = String.ofList (acc.reverse ++ decodeLossy bs) ∧ decodeKeeping bs = decodeLossy bs
  | [], pos, acc, s, h => by
    rw [decodeStrictFrom.eq_1] at h
    cases h
    simp [decodeLossy.eq_1, decodeKeeping.eq_1]
  | b :: rest, pos, acc, s, h => by
    rw [decodeStrictFrom.eq_2] at h
    split at h
    · next c len hp =>
      obtain ⟨hs, hk⟩ := decodeStrictFrom_eq_ok h
      refine ⟨?_, ?_⟩
      · rw [hs, decodeLossy.eq_2, hp]
        simp [Piece.length]
      · rw [decodeKeeping.eq_2, decodeLossy.eq_2, hp]
        simp [Piece.length, hk]
    all_goals cases h
termination_by bs => bs.length
decreasing_by simp only [List.length_drop, List.length_cons]; omega

/-- Where strict decoding fails, the file system's reading and the lossy one differ: they agree
up to the first ill-formed subpart, and there one holds a byte and the other has U+FFFD. -/
theorem decodeKeeping_ne_of_decodeStrictFrom_error :
    ∀ {bs : List UInt8} {pos : Nat} {acc : List Char} {e : DecodeFailure},
      decodeStrictFrom pos acc bs = .error e → decodeKeeping bs ≠ decodeLossy bs
  | [], pos, acc, e, h => by
    rw [decodeStrictFrom.eq_1] at h
    cases h
  | b :: rest, pos, acc, e, h => by
    rw [decodeStrictFrom.eq_2] at h
    rw [decodeKeeping.eq_2, decodeLossy.eq_2]
    split at h
    · next c len hp =>
      have hne := decodeKeeping_ne_of_decodeStrictFrom_error h
      simpa [hp, Piece.length] using hne
    all_goals
      next hp =>
      simp [hp, heldByte_ne_replacement]
termination_by bs => bs.length
decreasing_by simp only [List.length_drop, List.length_cons]; omega

/-- A file system and a lossy reader give a name the same text exactly when its bytes decode
strictly, and then both give the strict decoding. -/
theorem decodeName_eq_decodeLossyText_iff (bs : List UInt8) :
    decodeName bs = decodeLossyText bs ↔ ∃ s, decodeStrict bs = .ok s := by
  unfold decodeName decodeLossyText
  rw [String.ofList_inj]
  constructor
  · intro h
    cases hs : decodeStrict bs with
    | ok s => exact ⟨s, rfl⟩
    | error e => exact absurd h (decodeKeeping_ne_of_decodeStrictFrom_error hs)
  · rintro ⟨s, hs⟩
    exact (decodeStrictFrom_eq_ok hs).2

/-- The lossy reading of bytes that decode strictly is their strict decoding. -/
theorem decodeLossyText_of_decodeStrict {bs : List UInt8} {s : String}
    (h : decodeStrict bs = .ok s) : decodeLossyText bs = s := by
  rw [(decodeStrictFrom_eq_ok h).1]
  rfl

end TorrentPrune.Text
