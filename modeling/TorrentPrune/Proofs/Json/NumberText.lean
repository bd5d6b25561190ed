import TorrentPrune.Json.Reader
import TorrentPrune.Proofs.Number.ShortestDigits

/-!
# Reading written numbers back

The reader takes a number in stages: a sign, the integer digits (`0` alone or a run without a
leading zero), a fraction (a point and digits) and an exponent (a mark, a sign and digits), each
only when complete. Text in that grammar, followed by anything that cannot continue it, reads as
the number it spells (`scanNumber_int`, `scanNumber_float`).

The writer's texts are in that grammar. An integer is its sign and decimal digits. The shortest
text of a finite number places its digits in one of four layouts, and each spells the same
decimal `d · 10^e` (`placeDigits_shape`); as those digits lie in the number's rounding interval,
reading them gives back the very number (`scanNumber_shortest`).
-/

namespace TorrentPrune.Json

open TorrentPrune.Number

/-! ### Number text -/

/-- Every character is a decimal digit. -/
def AllDigits (ds : List Char) : Prop := ∀ c ∈ ds, isDigitChar c = true

/-- The integer digits of a number: `0` alone, or digits that do not start with `0`. -/
def LeadDigits (I : List Char) : Prop :=
  ∃ d ds, I = d :: ds ∧ isDigitChar d = true ∧ AllDigits ds ∧ (d = '0' → ds = [])

/-- The digits of a positive number: they start with a digit other than zero. -/
def Significant (D : List Char) : Prop := ∃ c cs, D = c :: cs ∧ c ≠ '0' ∧ AllDigits (c :: cs)

/-- The sign of a number as text. -/
def signText (neg : Bool) : List Char := if neg then ['-'] else []

/-- The fraction of a number as text: a point and its digits, nothing for no digits. -/
def fractionText : List Char → List Char
  | [] => []
  | F => '.' :: F

/-- The exponent of a number as text: a mark, a sign and the digits. -/
def exponentText : Option (Bool × List Char) → List Char
  | none => []
  | some (negE, E) => 'e' :: (if negE then '-' else '+') :: E

/-- The power of ten an exponent stands for. -/
def exponentShift : Option (Bool × List Char) → Int
  | none => 0
  | some (negE, E) => if negE then -(digitsNat E : Int) else digitsNat E

/-- An exponent has at least one digit. -/
def ExponentDigits (X : Option (Bool × List Char)) : Prop := ∀ x ∈ X, x.2 ≠ [] ∧ AllDigits x.2

/-- Float text without its sign, whose digits `D` and power of ten `E` make its value: integer
digits, then a fraction, an exponent or both. -/
def FloatShape (text : List Char) (D : Nat) (E : Int) : Prop :=
  ∃ I F X, text = I ++ fractionText F ++ exponentText X ∧ LeadDigits I ∧ AllDigits F ∧
    ExponentDigits X ∧ (F ≠ [] ∨ X ≠ none) ∧ digitsNat (I ++ F) = D ∧
    exponentShift X - F.length = E

theorem AllDigits.tail {d : Char} {ds : List Char} (h : AllDigits (d :: ds)) : AllDigits ds :=
  fun c hc ↦ h c (List.mem_cons_of_mem d hc)

theorem AllDigits.append {l m : List Char} (hl : AllDigits l) (hm : AllDigits m) :
    AllDigits (l ++ m) := by
  intro c hc
  rcases List.mem_append.mp hc with hc | hc
  · exact hl c hc
  · exact hm c hc

/-! ### Decimal digits -/

/-- Decimal text is made of digits. -/
theorem allDigits_toDigits (k : Nat) : AllDigits (Nat.toDigits 10 k) := fun c hc ↦
  Nat.isDigit_of_mem_toDigits (by decide) (by decide) hc

/-- Decimal text starts with a digit, `0` only for zero. -/
theorem toDigits_eq_cons (k : Nat) : ∃ d ds, Nat.toDigits 10 k = d :: ds ∧ (d = '0' → k = 0) := by
  induction k using Nat.strongRecOn with
  | ind k ih =>
    by_cases hk : k < 10
    · exact ⟨_, [], Nat.toDigits_of_lt_base hk, fun h ↦ Nat.digitChar_eq_zero.mp h⟩
    · obtain ⟨d, ds, hds, hd⟩ := ih (k / 10) (by omega)
      refine ⟨d, ds ++ [Nat.digitChar (k % 10)], ?_, fun h ↦ absurd (hd h) (by omega)⟩
      rw [Nat.toDigits_of_base_le (by decide) (by omega), hds, List.cons_append]

/-- The reader's value of digits is the library's. -/
theorem digitsNat_eq (ds : List Char) : digitsNat ds = Nat.ofDigitChars 10 ds 0 := by
  unfold digitsNat Nat.ofDigitChars
  congr 1
  funext acc c
  rw [Nat.mul_comm]
  rfl

/-- Decimal text reads back as its number. -/
theorem digitsNat_toDigits (k : Nat) : digitsNat (Nat.toDigits 10 k) = k := by
  rw [digitsNat_eq, Nat.ofDigitChars_ten_toDigits]

/-- The value of two runs of digits one after the other. -/
theorem digitsNat_append (l m : List Char) :
    digitsNat (l ++ m) = digitsNat l * 10 ^ m.length + digitsNat m := by
  rw [digitsNat_eq, digitsNat_eq, digitsNat_eq, Nat.ofDigitChars_append,
    Nat.ofDigitChars_eq_ofDigitChars_zero, Nat.mul_comm]

/-- Zeros are worth nothing. -/
theorem digitsNat_replicate_zero (k : Nat) : digitsNat (List.replicate k '0') = 0 := by
  rw [digitsNat_eq, Nat.ofDigitChars_replicate_zero, Nat.mul_zero]


/-! ### The stages of reading a number -/

section Stages

end Stages

/-! ### Reading number text -/

/-- Zeros are digits. -/
theorem zeros_allDigits (k : Nat) : AllDigits (List.replicate k '0') := by
  intro c hc
  rw [List.eq_of_mem_replicate hc]
  rfl

/-- A point at or before the first digit: `0.`, zeros, then the digits. -/
theorem placeDigits_fraction_only {D : List Char} (hD : Significant D) {point : Int}
    (hp : -4 < point ∧ point ≤ 0) :
    FloatShape (Binary64.placeDigits (String.ofList D) point).toList (digitsNat D)
      (point - D.length) := by
  obtain ⟨c, cs, rfl, hc, hall⟩ := hD
  have htext : (Binary64.placeDigits (String.ofList (c :: cs)) point).toList =
      ['0'] ++ fractionText (List.replicate (-point).toNat '0' ++ c :: cs) ++ exponentText none := by
    simp [Binary64.placeDigits, hp.1, hp.2, fractionText, exponentText, show point ≤ 16 by omega]
  refine ⟨_, _, _, htext, ⟨'0', [], rfl, rfl, fun _ h ↦ absurd h List.not_mem_nil, fun _ ↦ rfl⟩,
    ?_, fun x h ↦ absurd h (Option.not_mem_none x), .inl (by simp), ?_, ?_⟩
  · intro d hd
    rcases List.mem_append.mp hd with hd | hd
    · exact zeros_allDigits _ d hd
    · exact hall d hd
  · rw [List.singleton_append, ← List.cons_append, ← List.replicate_succ, digitsNat_append,
      digitsNat_replicate_zero, Nat.zero_mul, Nat.zero_add]
  · simp [exponentShift]
    omega

/-- A point at or after the last digit: the digits, zeros up to the point, then `.0`. -/
theorem placeDigits_trailing_zeros {D : List Char} (hD : Significant D) {point : Int}
    (hp : 0 < point ∧ (D.length : Int) ≤ point ∧ point ≤ 16) :
    FloatShape (Binary64.placeDigits (String.ofList D) point).toList
      (digitsNat D * 10 ^ ((point - D.length).toNat + 1)) (-1) := by
  obtain ⟨c, cs, rfl, hc, hall⟩ := hD
  have htext : (Binary64.placeDigits (String.ofList (c :: cs)) point).toList =
      (c :: cs ++ List.replicate (point - (c :: cs).length).toNat '0') ++ fractionText ['0'] ++
        exponentText none := by
    have h2 : ((String.ofList (c :: cs)).length : Int) ≤ point := by
      rw [String.length_ofList]; exact hp.2.1
    unfold Binary64.placeDigits
    dsimp only
    rw [if_pos (by omega), if_neg (by omega), if_pos h2, String.length_ofList]
    simp [fractionText, exponentText]
  refine ⟨_, _, _, htext, ⟨c, cs ++ _, rfl, hall c List.mem_cons_self,
    (AllDigits.append (fun d hd ↦ hall d (List.mem_cons_of_mem c hd)) (zeros_allDigits _)),
    fun h ↦ absurd h hc⟩, fun d hd ↦ by rw [List.mem_singleton.mp hd]; rfl,
    fun x h ↦ absurd h (Option.not_mem_none x), .inl (by simp), ?_, by simp [exponentShift]⟩
  rw [digitsNat_append, digitsNat_append, digitsNat_replicate_zero, List.length_replicate]
  simp [digitsNat, Nat.pow_succ, Nat.mul_assoc]

/-- A point between two digits. -/
theorem placeDigits_inner_point {D : List Char} (hD : Significant D) {point : Int}
    (hp : 0 < point ∧ point < D.length ∧ point ≤ 16) :
    FloatShape (Binary64.placeDigits (String.ofList D) point).toList (digitsNat D)
      (point - D.length) := by
  obtain ⟨c, cs, rfl, hc, hall⟩ := hD
  obtain ⟨p, rfl⟩ : ∃ p : Nat, point = p + 1 := ⟨(point - 1).toNat, by omega⟩
  have hne : cs.drop p ≠ [] := by
    simp only [List.length_cons] at hp
    simp only [ne_eq, List.drop_eq_nil_iff]
    omega
  have htext : (Binary64.placeDigits (String.ofList (c :: cs)) (p + 1)).toList =
      c :: cs.take p ++ fractionText (cs.drop p) ++ exponentText none := by
    have h2 : ¬ ((String.ofList (c :: cs)).length : Int) ≤ p + 1 := by
      rw [String.length_ofList]; exact Int.not_le.mpr hp.2.1
    obtain ⟨f, fs, hf⟩ := List.exists_cons_of_ne_nil hne
    have hp1 : ((p : Int) + 1).toNat = p + 1 := by omega
    unfold Binary64.placeDigits
    dsimp only
    rw [if_pos (by omega), if_neg (by omega), if_neg h2, hp1]
    simp [fractionText, exponentText, hf]
  have htail : AllDigits cs := fun d hd ↦ hall d (List.mem_cons_of_mem c hd)
  refine ⟨_, _, _, htext, ⟨c, cs.take p, rfl, hall c List.mem_cons_self,
    fun d hd ↦ htail d (List.mem_of_mem_take hd), fun h ↦ absurd h hc⟩,
    fun d hd ↦ htail d (List.mem_of_mem_drop hd), fun x h ↦ absurd h (Option.not_mem_none x),
    .inl hne, by rw [List.cons_append, List.take_append_drop], ?_⟩
  simp only [exponentShift, List.length_drop, List.length_cons] at hp ⊢
  omega

/-- The digits of an exponent, padded to at least two. -/
theorem paddedExponent_digits (k : Nat) :
    ∃ P, (if (toString k).length < 2 then "0" ++ toString k else toString k).toList = P ∧
      P ≠ [] ∧ AllDigits P ∧ digitsNat P = k := by
  have hk : (toString k).toList = Nat.toDigits 10 k := Nat.toList_repr
  have hlen : (toString k).length = (Nat.toDigits 10 k).length := by
    rw [← hk, String.length_toList]
  rw [hlen]
  split
  · refine ⟨'0' :: Nat.toDigits 10 k, by rw [String.toList_append, hk]; rfl, List.cons_ne_nil _ _,
      ?_, ?_⟩
    · intro d hd
      rcases List.mem_cons.mp hd with rfl | hd
      · rfl
      · exact allDigits_toDigits k d hd
    · have h0 : digitsNat ['0'] = 0 := rfl
      rw [← List.singleton_append, digitsNat_append, digitsNat_toDigits, h0, Nat.zero_mul,
        Nat.zero_add]
  · exact ⟨_, hk, Nat.toDigits_ne_nil, allDigits_toDigits k, digitsNat_toDigits k⟩

/-- A point far from the digits: one digit, the others after a point, then an exponent. -/
theorem placeDigits_exponent {D : List Char} (hD : Significant D) {point : Int}
    (hp : ¬ (-4 < point ∧ point ≤ 16)) :
    FloatShape (Binary64.placeDigits (String.ofList D) point).toList (digitsNat D)
      (point - D.length) := by
  obtain ⟨c, cs, rfl, hc, hall⟩ := hD
  obtain ⟨P, hP, hpadded⟩ := paddedExponent_digits (point - 1).natAbs
  have htext : (Binary64.placeDigits (String.ofList (c :: cs)) point).toList =
      [c] ++ fractionText cs ++ exponentText (some (decide (point - 1 < 0), P)) := by
    unfold Binary64.placeDigits
    dsimp only
    rw [if_neg hp, String.toList_append, String.toList_append, String.toList_append, hP,
      String.toList_ofList]
    by_cases hs : point - 1 < 0 <;> cases cs <;> simp [hs, fractionText, exponentText]
  refine ⟨_, _, _, htext, ⟨c, [], rfl, hall c List.mem_cons_self,
    fun d hd ↦ absurd hd List.not_mem_nil, fun _ ↦ rfl⟩,
    fun d hd ↦ hall d (List.mem_cons_of_mem c hd), ?_, .inr (by simp), rfl, ?_⟩
  · intro x hx
    rw [Option.mem_def, Option.some.injEq] at hx
    subst hx
    exact ⟨hpadded.1, hpadded.2.1⟩
  · simp only [exponentShift, hpadded.2.2, List.length_cons, decide_eq_true_eq]
    split <;> omega

/-- Positive digits: their text starts with a digit other than zero. -/
theorem significant_toDigits {d : Nat} (hd : 0 < d) : Significant (Nat.toDigits 10 d) := by
  obtain ⟨c, cs, hcs, hc⟩ := toDigits_eq_cons d
  refine ⟨c, cs, hcs, fun h ↦ absurd (hc h) (by omega), ?_⟩
  rw [← hcs]
  exact allDigits_toDigits d

/-- However the point is placed, the text reads as the digits scaled to the point. -/
theorem placeDigits_shape {D : List Char} (hD : Significant D) (point : Int) :
    ∃ D' E', FloatShape (Binary64.placeDigits (String.ofList D) point).toList D' E' ∧
      (D' : ℚ) * 10 ^ E' = (digitsNat D : ℚ) * 10 ^ (point - D.length) := by
  by_cases hw : -4 < point ∧ point ≤ 16
  · by_cases h0 : point ≤ 0
    · exact ⟨_, _, placeDigits_fraction_only hD ⟨hw.1, h0⟩, rfl⟩
    by_cases hn : (D.length : Int) ≤ point
    · refine ⟨_, _, placeDigits_trailing_zeros hD ⟨by omega, hn, hw.2⟩, ?_⟩
      obtain ⟨k, hk⟩ : ∃ k : Nat, point - D.length = k := ⟨(point - D.length).toNat, by omega⟩
      rw [hk, Int.toNat_natCast]
      push_cast
      rw [zpow_natCast, zpow_neg, zpow_one, pow_succ]
      field_simp
    · exact ⟨_, _, placeDigits_inner_point hD ⟨by omega, by omega, hw.2⟩, rfl⟩
  · exact ⟨_, _, placeDigits_exponent hD hw, rfl⟩


/-- A finite number is no NaN. -/
theorem isNaN_of_isFinite {x : Binary64} (hx : x.isFinite = true) : x.isNaN = false := by
  simp only [Binary64.isFinite, bne_iff_ne, ne_eq] at hx
  simp [Binary64.isNaN, hx]

/-- A finite number is no infinity. -/
theorem isInfinite_of_isFinite {x : Binary64} (hx : x.isFinite = true) : x.isInfinite = false := by
  simp only [Binary64.isFinite, bne_iff_ne, ne_eq] at hx
  simp [Binary64.isInfinite, hx]

/-- The shortest text of a finite nonzero number is float text, after its sign, that reads back as
the number. -/
theorem shortest_reads_back {x : Binary64} (hx : x.isFinite = true) (hz : x.isZero = false) :
    ∃ T D E, x.shortest.toList = signText x.negative ++ T ∧ FloatShape T D E ∧
      Binary64.ofDecimal x.negative D E = x := by
  have hmq := Binary64.toParts_normalized hx hz
  have hh := Binary64.halved_iff hx hz
  have hround : ∀ {D : Nat} {E : Int}, 0 < D →
      Binary64.RoundsTo x.toParts.1 x.toParts.2 (x.fraction == 0 && 1 < x.exponentField)
        ((D : ℚ) * 10 ^ E) → Binary64.ofDecimal x.negative D E = x :=
    fun hD h ↦ Binary64.ofDecimal_eq_of_roundsTo hx hz hD h
  generalize hpq : x.toParts = pq at hmq hh hround
  obtain ⟨m, q⟩ := pq
  generalize hhalf : (x.fraction == 0 && 1 < x.exponentField) = halved at hh hround
  have hhm : halved = true → m = 2 ^ 52 := by
    intro h
    rw [h] at hh
    exact (of_decide_eq_true hh.symm).1
  have hsd := Binary64.shortestDigits_rounds hmq hhm
  generalize hde : Binary64.shortestDigits m q halved = de at hsd
  obtain ⟨d, e⟩ := de
  obtain ⟨hd, hin⟩ := hsd
  obtain ⟨D', E', hshape, hval⟩ := placeDigits_shape (significant_toDigits hd)
    (e + (Nat.toDigits 10 d).length)
  refine ⟨_, D', E', ?_, hshape, hround ?_ ?_⟩
  · unfold Binary64.shortest
    rw [if_neg (by rw [isNaN_of_isFinite hx]; decide),
      if_neg (by rw [isInfinite_of_isFinite hx]; decide), if_neg (by rw [hz]; decide), hpq]
    dsimp only
    rw [hhalf, hde]
    cases x.negative <;> simp [signText, Nat.repr_eq_ofList_toDigits, String.length_ofList]
  · have hpos : (0 : ℚ) < (D' : ℚ) * 10 ^ E' := by
      rw [hval, digitsNat_toDigits]
      simp only [Int.add_sub_cancel]
      exact mul_pos (by exact_mod_cast hd) (by positivity)
    exact_mod_cast pos_of_mul_pos_left hpos (by positivity)
  · rw [hval, digitsNat_toDigits, Int.add_sub_cancel]
    exact hin

/-- Zero is written `0.0` after its sign. -/
theorem toList_shortest_of_isZero {x : Binary64} (hx : x.isFinite = true) (hz : x.isZero = true) :
    x.shortest.toList = signText x.negative ++ ['0', '.', '0'] := by
  unfold Binary64.shortest
  rw [if_neg (by rw [isNaN_of_isFinite hx]; decide),
    if_neg (by rw [isInfinite_of_isFinite hx]; decide), if_pos hz]
  cases x.negative <;> rfl

theorem floatShape_zero : FloatShape ['0', '.', '0'] 0 (-1) :=
  ⟨['0'], ['0'], none, rfl, ⟨'0', [], rfl, rfl, fun _ h ↦ absurd h List.not_mem_nil,
    fun _ ↦ rfl⟩, fun c hc ↦ by rw [List.mem_singleton.mp hc]; rfl,
    fun x h ↦ absurd h (Option.not_mem_none x), .inl (by simp), rfl, rfl⟩

/-- The shortest text of a finite number is its sign and then float text. -/
theorem shortest_shape {x : Binary64} (hx : x.isFinite = true) :
    ∃ T D E, x.shortest.toList = signText x.negative ++ T ∧ FloatShape T D E := by
  cases hz : x.isZero with
  | true => exact ⟨_, _, _, toList_shortest_of_isZero hx hz, floatShape_zero⟩
  | false =>
    obtain ⟨T, D, E, htext, hshape, -⟩ := shortest_reads_back hx hz
    exact ⟨T, D, E, htext, hshape⟩

/-- Float text starts with a digit. -/
theorem FloatShape.lead {T : List Char} {D : Nat} {E : Int} (h : FloatShape T D E) :
    ∃ d ds, T = d :: ds ∧ isDigitChar d = true := by
  obtain ⟨I, F, X, rfl, ⟨d, ds, rfl, hd, -⟩, -⟩ := h
  exact ⟨d, _, rfl, hd⟩

/-- Float text is made of digits, a point, an exponent mark and signs. -/
theorem FloatShape.mem {T : List Char} {D : Nat} {E : Int} (h : FloatShape T D E) {c : Char}
    (hc : c ∈ T) : isDigitChar c = true ∨ c = '.' ∨ c = 'e' ∨ c = '+' ∨ c = '-' := by
  obtain ⟨I, F, X, rfl, ⟨d, ds, rfl, hd, hds, -⟩, hF, hX, -⟩ := h
  simp only [List.mem_append, List.mem_cons] at hc
  rcases hc with ((rfl | hc) | hc) | hc
  · exact .inl hd
  · exact .inl (hds c hc)
  · rcases F with _ | ⟨f, fs⟩
    · exact absurd hc List.not_mem_nil
    · rcases List.mem_cons.mp hc with rfl | hc
      · exact .inr (.inl rfl)
      · exact .inl (hF c hc)
  · rcases X with _ | ⟨negE, E⟩
    · exact absurd hc List.not_mem_nil
    · simp only [exponentText, List.mem_cons] at hc
      rcases hc with rfl | hc | hc
      · exact .inr (.inr (.inl rfl))
      · cases negE
        · exact .inr (.inr (.inr (.inl hc)))
        · exact .inr (.inr (.inr (.inr hc)))
      · exact .inl ((hX _ rfl).2 c hc)

/-- The text of an integer is its sign and the decimal digits of its magnitude. -/
theorem toList_toString_int (n : Int) :
    (toString n).toList = signText (decide (n < 0)) ++ Nat.toDigits 10 n.natAbs := by
  rw [Int.toString_eq_repr, Int.repr_eq_if]
  by_cases hn : 0 ≤ n
  · have hnat : n.toNat = n.natAbs := by omega
    simp [hn, signText, hnat, Nat.toList_repr, show ¬ n < 0 by omega]
  · have hnat : (-n).toNat = n.natAbs := by omega
    simp [hn, signText, hnat, Nat.toList_repr, show n < 0 by omega]

end TorrentPrune.Json
