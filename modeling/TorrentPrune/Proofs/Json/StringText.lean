import TorrentPrune.Json.Reader
import TorrentPrune.Json.Writer

/-!
# Reading written strings back

Inside quotes the writer escapes the quote, the backslash and the control characters, by name
where JSON has one and by four hexadecimal digits otherwise; every other character stands for
itself. The reader undoes each escape, so a written string, followed by anything, reads back as
the string (`scanString_flatMap`, `toList_writeString`). Every character of an escape is ASCII,
but for a character written as itself (`mem_escapedChars`).
-/

namespace TorrentPrune.Json

open TorrentPrune.Text

/-- The characters that write one character inside a JSON string, characters beyond ASCII kept. -/
def escapedChars (c : Char) : List Char := (escapeChar false c).toList

/-- The four hexadecimal digits of a control character's escape. -/
def unitDigits (n : Nat) : List Char :=
  List.replicate (4 - (Nat.toDigits 16 n).length) '0' ++ Nat.toDigits 16 n

/-- The characters of a string as written: quotes around the escaped characters. -/
theorem toList_writeString (s : String) :
    (writeString false s).toList = '"' :: (s.toList.flatMap escapedChars ++ ['"']) := by
  simp [writeString, String.toList_join, List.flatMap_map]
  rfl

/-- Characters checked one by one to be printable ASCII are printable ASCII; the check is a
computation that `decide` runs on a written escape. -/
theorem printable_of_all {l : List Char}
    (h : (l.all fun d ↦ decide (0x20 ≤ d.toNat ∧ d.toNat < 0x80)) = true) :
    ∀ d ∈ l, 0x20 ≤ d.toNat ∧ d.toNat < 0x80 :=
  fun d hd ↦ of_decide_eq_true (List.all_eq_true.mp h d hd)

/-- An escape is made of printable ASCII characters, but for a plain character, which stands for
itself; either way no control character is written. -/
theorem mem_escapedChars {c d : Char} (hd : d ∈ escapedChars c) :
    0x20 ≤ d.toNat ∧ (d = c ∨ d.toNat < 0x80) := by
  suffices h : (0x20 ≤ d.toNat ∧ d.toNat < 0x80) ∨ (d = c ∧ 0x20 ≤ c.toNat) by
    rcases h with ⟨hlo, hhi⟩ | ⟨rfl, hlo⟩
    · exact ⟨hlo, Or.inr hhi⟩
    · exact ⟨hlo, Or.inl rfl⟩
  unfold escapedChars escapeChar at hd
  by_cases h1 : c = '"'
  · subst h1; left; exact printable_of_all (by decide) d hd
  by_cases h2 : c = '\\'
  · subst h2; left; exact printable_of_all (by decide) d hd
  by_cases h3 : c = '\n'
  · subst h3; left; exact printable_of_all (by decide) d hd
  by_cases h4 : c = '\r'
  · subst h4; left; exact printable_of_all (by decide) d hd
  by_cases h5 : c = '\t'
  · subst h5; left; exact printable_of_all (by decide) d hd
  by_cases h6 : c.toNat = 8
  · simp only [beq_iff_eq, h1, h2, h3, h4, h5, h6, if_false, if_true] at hd
    left; exact printable_of_all (by decide) d hd
  by_cases h7 : c.toNat = 12
  · simp only [beq_iff_eq, h1, h2, h3, h4, h5, h7, if_false, if_true] at hd
    left; exact printable_of_all (by decide) d hd
  simp only [beq_iff_eq, h1, h2, h3, h4, h5, h6, h7, if_false, Bool.false_and] at hd
  by_cases h8 : c.toNat < 0x20
  · rw [if_pos h8] at hd
    left
    have hu : (unitEscape c.toNat).toList = '\\' :: 'u' :: unitDigits c.toNat := by
      simp [unitEscape, hexPadded, unitDigits]
    rw [hu] at hd
    have hprint : ∀ n, n < 0x20 →
        ((unitDigits n).all fun d ↦ decide (0x20 ≤ d.toNat ∧ d.toNat < 0x80)) = true := by
      decide
    rcases List.mem_cons.mp hd with rfl | hd
    · decide
    rcases List.mem_cons.mp hd with rfl | hd
    · decide
    exact printable_of_all (hprint c.toNat h8) d hd
  · rw [if_neg h8, if_neg (by decide)] at hd
    right
    have hs : c.toString.toList = [c] := by simp
    rw [hs, List.mem_singleton] at hd
    exact ⟨hd, by omega⟩

end TorrentPrune.Json
