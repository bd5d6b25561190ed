import Mathlib
import TorrentPrune.Number.Binary64

/-!
# Rounding a rational back to a binary64 number

A finite nonzero number `x` has the magnitude `m · 2^q` (`toParts`), and every rational in its
rounding interval, half a unit of `2^q` on either side (a quarter below at a power of two whose
gap below is halved, the ends included when `m` is even), rounds back to `x`: `ofRatio` with the
sign of `x` gives `x` itself, bit for bit (`ofRatio_eq_of_roundsTo`). Reading a decimal whose value
lies there gives `x` as well (`ofDecimal_eq_of_roundsTo`).

The bit pattern is read as a natural number: the sign is its top bit, the exponent field the next
eleven and the fraction the low fifty-two, and a number is rebuilt from its three fields.
-/

namespace TorrentPrune.Number.Binary64

/-! ### Fields as arithmetic on the bit pattern -/

theorem exponentField_eq (x : Binary64) : x.exponentField = x.bits.toNat / 2 ^ 52 % 2048 := by
  simp only [exponentField, UInt64.toNat_and, UInt64.toNat_shiftRight]
  rw [show (0x7FF : UInt64).toNat = 2 ^ 11 - 1 from rfl, Nat.and_two_pow_sub_one_eq_mod]
  simp [Nat.shiftRight_eq_div_pow]

theorem fraction_eq (x : Binary64) : x.fraction = x.bits.toNat % 2 ^ 52 := by
  simp only [fraction, UInt64.toNat_and]
  rw [show (0xFFFFFFFFFFFFF : UInt64).toNat = 2 ^ 52 - 1 from rfl, Nat.and_two_pow_sub_one_eq_mod]

theorem negative_eq (x : Binary64) : x.negative = decide (2 ^ 63 ≤ x.bits.toNat) := by
  have h := x.bits.toNat_lt
  simp only [negative]
  rw [Bool.eq_iff_iff, beq_iff_eq, decide_eq_true_iff, ← UInt64.toNat_inj]
  simp [Nat.shiftRight_eq_div_pow]
  omega

theorem exponentField_lt (x : Binary64) : x.exponentField < 2048 := by
  rw [exponentField_eq]
  exact Nat.mod_lt _ (by decide)

theorem fraction_lt (x : Binary64) : x.fraction < 2 ^ 52 := by
  rw [fraction_eq]
  exact Nat.mod_lt _ (by decide)

/-- The bit pattern is the sign bit, the exponent field and the fraction, side by side. -/
theorem bits_toNat (x : Binary64) :
    x.bits.toNat = (if x.negative then 2 ^ 63 else 0) + x.exponentField * 2 ^ 52 + x.fraction := by
  have h := x.bits.toNat_lt
  rw [exponentField_eq, fraction_eq, negative_eq]
  split
  all_goals
    rename_i hs
    rw [decide_eq_true_eq] at hs
    simp only [Nat.reducePow] at h hs ⊢
    omega

theorem ofFields_toNat (s : Bool) (f r : Nat) :
    (ofFields s f r).bits.toNat = (if s then 2 ^ 63 else 0) + f % 2048 * 2 ^ 52 + r % 2 ^ 52 := by
  have hf : ((f.toUInt64 &&& 0x7FF) <<< 52).toNat = 2 ^ 52 * (f % 2048) := by
    simp only [UInt64.toNat_shiftLeft, UInt64.toNat_and, Nat.shiftLeft_eq]
    rw [show (0x7FF : UInt64).toNat = 2 ^ 11 - 1 from rfl, Nat.and_two_pow_sub_one_eq_mod]
    simp only [Nat.toUInt64_eq, UInt64.toNat_ofNat']
    rw [Nat.mod_mod_of_dvd _ (by decide : 2 ^ 11 ∣ 2 ^ 64),
      show (52 : UInt64).toNat % 64 = 52 from rfl]
    have := Nat.mod_lt f (show 0 < 2 ^ 11 by decide)
    rw [Nat.mod_eq_of_lt (by omega)]
    omega
  have hr : (r.toUInt64 &&& 0xFFFFFFFFFFFFF).toNat = r % 2 ^ 52 := by
    simp only [UInt64.toNat_and]
    rw [show (0xFFFFFFFFFFFFF : UInt64).toNat = 2 ^ 52 - 1 from rfl, Nat.and_two_pow_sub_one_eq_mod]
    simp only [Nat.toUInt64_eq, UInt64.toNat_ofNat']
    rw [Nat.mod_mod_of_dvd _ (by decide : 2 ^ 52 ∣ 2 ^ 64)]
  have hs : ((if s then 1 else 0 : UInt64) <<< 63).toNat = 2 ^ 63 * (if s then 1 else 0) := by
    cases s <;> rfl
  have hlow : 2 ^ 52 * (f % 2048) < 2 ^ 63 := by omega
  simp only [ofFields, UInt64.toNat_or, hf, hr, hs]
  -- the three fields occupy disjoint bits, so their union is their sum
  rw [← Nat.two_pow_add_eq_or_of_lt hlow,
    show 2 ^ 63 * (if s then 1 else 0) + 2 ^ 52 * (f % 2048)
      = 2 ^ 52 * (2 ^ 11 * (if s then 1 else 0) + f % 2048) by ring,
    ← Nat.two_pow_add_eq_or_of_lt (Nat.mod_lt r (by decide))]
  cases s <;> simp <;> ring

/-- Two numbers with one bit pattern are one number. -/
theorem eq_of_bits_toNat {x y : Binary64} (h : x.bits.toNat = y.bits.toNat) : x = y := by
  cases x
  cases y
  congr
  exact UInt64.toNat_inj.mp h

/-- A number is rebuilt from its sign, exponent field and fraction. -/
theorem ofFields_fields (x : Binary64) : ofFields x.negative x.exponentField x.fraction = x := by
  apply eq_of_bits_toNat
  rw [ofFields_toNat, bits_toNat x, Nat.mod_eq_of_lt x.exponentField_lt,
    Nat.mod_eq_of_lt x.fraction_lt]

theorem negative_ofFields (s : Bool) (f r : Nat) : (ofFields s f r).negative = s := by
  have := Nat.mod_lt f (show 0 < 2048 by decide)
  have := Nat.mod_lt r (show 0 < 2 ^ 52 by decide)
  rw [negative_eq, ofFields_toNat]
  simp only [Nat.reducePow] at *
  cases s <;> simp <;> omega

/-! ### The magnitude of a finite nonzero number -/

/-- A significand and exponent of a finite nonzero magnitude `m · 2^q`: below `2^53`, with all
53 bits above the subnormal range, and the exponent within the format's range. -/
structure Normalized (m : Nat) (q : Int) : Prop where
  pos : 0 < m
  lt : m < 2 ^ 53
  low : -1074 ≤ q
  high : q ≤ 971
  full : 2 ^ 52 ≤ m ∨ q = -1074

theorem toParts_normalized {x : Binary64} (hx : x.isFinite = true) (hz : x.isZero = false) :
    Normalized x.toParts.1 x.toParts.2 := by
  have hf := x.exponentField_lt
  have hr := x.fraction_lt
  simp only [isFinite, bne_iff_ne, ne_eq] at hx
  simp only [isZero, Bool.and_eq_false_iff, beq_eq_false_iff_ne, ne_eq] at hz
  unfold toParts hiddenBit
  simp only [Nat.pow_eq, Nat.reducePow] at *
  split
  · next h0 =>
    rw [beq_iff_eq] at h0
    exact ⟨by omega, by omega, le_rfl, by norm_num, .inr rfl⟩
  · next h0 =>
    rw [beq_iff_eq] at h0
    exact ⟨by omega, by omega, by omega, by omega, .inl (by omega)⟩

/-- The halved gap below, read off the fields, is the one at a power of two above the subnormal
range. -/
theorem halved_iff {x : Binary64} (hx : x.isFinite = true) (hz : x.isZero = false) :
    (x.fraction == 0 && 1 < x.exponentField) = decide (x.toParts.1 = 2 ^ 52 ∧ -1074 < x.toParts.2) := by
  have hr := x.fraction_lt
  simp only [isZero, Bool.and_eq_false_iff, beq_eq_false_iff_ne, ne_eq] at hz
  unfold toParts hiddenBit
  simp only [Nat.pow_eq, Nat.reducePow] at *
  split
  · next h0 =>
    rw [beq_iff_eq] at h0
    simp only [h0, Nat.not_lt_zero, decide_false, Bool.and_false, lt_self_iff_false, and_false]
  · next h0 =>
    rw [beq_iff_eq] at h0
    by_cases h1 : x.fraction = 0 <;> by_cases h2 : 1 < x.exponentField <;> simp [h1, h2] <;> omega

/-- A finite nonzero number is rebuilt from its magnitude the way rounding builds one. -/
theorem ofParts_toParts {x : Binary64} (hx : x.isFinite = true) (hz : x.isZero = false) :
    (if x.toParts.1 < hiddenBit then ofFields x.negative 0 x.toParts.1
      else ofFields x.negative (x.toParts.2 + 1075).toNat (x.toParts.1 - hiddenBit)) = x := by
  have hr := x.fraction_lt
  simp only [isFinite, bne_iff_ne, ne_eq] at hx
  conv => rhs; rw [← ofFields_fields x]
  unfold toParts hiddenBit
  simp only [Nat.pow_eq, Nat.reducePow] at *
  split
  · next h0 =>
    rw [beq_iff_eq] at h0
    rw [h0]
  · next h0 =>
    rw [beq_iff_eq] at h0
    rw [if_neg (by omega)]
    have h1 : ((x.exponentField : Int) - 1075 + 1075).toNat = x.exponentField := by omega
    rw [h1, Nat.add_sub_cancel]

/-! ### Rounding to the nearest integer -/

/-- `k` is an integer nearest to `r`: within a half of it, an even one on a tie. -/
def NearestEven (r : ℚ) (k : Nat) : Prop :=
  (k : ℚ) - 1 / 2 ≤ r ∧ r ≤ k + 1 / 2 ∧ (r = k - 1 / 2 ∨ r = k + 1 / 2 → k % 2 = 0)

/-- `roundHalfEven a b` is the integer nearest to `a / b`, a tie going to the even one. -/
theorem roundHalfEven_eq_of_nearestEven {a b k : Nat} (hb : 0 < b)
    (h : NearestEven ((a : ℚ) / b) k) : roundHalfEven a b = k := by
  obtain ⟨hlo, hhi, htie⟩ := h
  have hbq : (0 : ℚ) < b := by exact_mod_cast hb
  -- the three conditions as statements about naturals
  have hlo' : 2 * (k * b) ≤ 2 * a + b := by
    have : ((k : ℚ) - 1 / 2) * b ≤ a := (le_div_iff₀ hbq).mp hlo
    have : (2 * (k * b) : ℚ) ≤ 2 * a + b := by linarith
    exact_mod_cast this
  have hhi' : 2 * a ≤ 2 * (k * b) + b := by
    have : (a : ℚ) ≤ (k + 1 / 2) * b := (div_le_iff₀ hbq).mp hhi
    have : (2 * a : ℚ) ≤ 2 * (k * b) + b := by linarith
    exact_mod_cast this
  have htie' : 2 * (k * b) = 2 * a + b ∨ 2 * a = 2 * (k * b) + b → k % 2 = 0 := by
    intro ht
    apply htie
    rcases ht with ht | ht
    · left
      have : (2 * (k * b) : ℚ) = 2 * a + b := by exact_mod_cast ht
      field_simp
      linarith
    · right
      have : (2 * a : ℚ) = 2 * (k * b) + b := by exact_mod_cast ht
      field_simp
      linarith
  have hdm := Nat.div_add_mod' a b
  have hr := Nat.mod_lt a hb
  -- the nearest integer is the quotient or the one above it
  have hk1 : k ≤ a / b + 1 := by
    by_contra hc
    have h : (a / b + 2) * b ≤ k * b := Nat.mul_le_mul_right b (by omega)
    have e : (a / b + 2) * b = a / b * b + 2 * b := by ring
    omega
  have hk2 : a / b ≤ k := by
    by_contra hc
    have h : (k + 1) * b ≤ a / b * b := Nat.mul_le_mul_right b (by omega)
    have e : (k + 1) * b = k * b + b := by ring
    omega
  unfold roundHalfEven
  dsimp only
  rcases (show k = a / b ∨ k = a / b + 1 by omega) with rfl | rfl
  · split
    · rfl
    · split
      · omega
      · rw [if_pos (by have := htie' (.inr (by omega)); simpa using this)]
  · have hs : (a / b + 1) * b = a / b * b + b := Nat.succ_mul _ _
    split
    · omega
    · split
      · rfl
      · next h1 h2 =>
        have ht : 2 * ((a / b + 1) * b) = 2 * a + b := by omega
        have := htie' (.inl ht)
        rw [if_neg (by rw [beq_iff_eq]; omega)]

/-! ### The binade of a ratio -/

section Ratio

variable {num den : Nat}

/-- `2^e` as a rational, by the sign of `e`. -/
theorem two_zpow_of_nonneg {e : Int} (he : 0 ≤ e) : (2 : ℚ) ^ e = 2 ^ e.toNat := by
  rw [← zpow_natCast, Int.toNat_of_nonneg he]

theorem two_zpow_of_neg {e : Int} (he : e < 0) : (2 : ℚ) ^ e = ((2 : ℚ) ^ (-e).toNat)⁻¹ := by
  rw [← zpow_natCast, Int.toNat_of_nonneg (by omega), zpow_neg, inv_inv]

theorem atLeastPow2_iff (hd : 0 < den) (e : Int) :
    atLeastPow2 num den e = true ↔ (2 : ℚ) ^ e ≤ (num : ℚ) / den := by
  have hdq : (0 : ℚ) < den := by exact_mod_cast hd
  rw [le_div_iff₀ hdq]
  unfold atLeastPow2
  split
  · next he =>
    rw [decide_eq_true_iff, two_zpow_of_nonneg he, Nat.pow_eq]
    constructor
    · intro h
      have : ((den * 2 ^ e.toNat : Nat) : ℚ) ≤ num := by exact_mod_cast h
      push_cast at this
      linarith
    · intro h
      have : ((den * 2 ^ e.toNat : Nat) : ℚ) ≤ num := by push_cast; linarith
      exact_mod_cast this
  · next he =>
    rw [decide_eq_true_iff, two_zpow_of_neg (by omega), Nat.pow_eq]
    have hp : (0 : ℚ) < 2 ^ (-e).toNat := by positivity
    rw [inv_mul_le_iff₀ hp]
    constructor
    · intro h
      have : (den : ℚ) ≤ ((num * 2 ^ (-e).toNat : Nat) : ℚ) := by exact_mod_cast h
      push_cast at this
      linarith
    · intro h
      have : (den : ℚ) ≤ ((num * 2 ^ (-e).toNat : Nat) : ℚ) := by push_cast; linarith
      exact_mod_cast this

/-- `floorLog2` is the exponent of the binade the ratio lies in. -/
theorem floorLog2_spec (hn : 0 < num) (hd : 0 < den) :
    (2 : ℚ) ^ floorLog2 num den ≤ (num : ℚ) / den ∧
      (num : ℚ) / den < 2 ^ (floorLog2 num den + 1) := by
  have hdq : (0 : ℚ) < den := by exact_mod_cast hd
  have hn1 : ((2 ^ num.log2 : Nat) : ℚ) ≤ num := by exact_mod_cast Nat.log2_self_le hn.ne'
  have hn2 : (num : ℚ) < ((2 ^ (num.log2 + 1) : Nat) : ℚ) := by exact_mod_cast Nat.lt_log2_self
  have hd1 : ((2 ^ den.log2 : Nat) : ℚ) ≤ den := by exact_mod_cast Nat.log2_self_le hd.ne'
  have hd2 : (den : ℚ) < ((2 ^ (den.log2 + 1) : Nat) : ℚ) := by exact_mod_cast Nat.lt_log2_self
  push_cast at hn1 hn2 hd1 hd2
  have hpow : ∀ a b : Nat, (2 : ℚ) ^ ((a : Int) - b - 1) * 2 ^ (b + 1) = 2 ^ a := by
    intro a b
    rw [← zpow_natCast, ← zpow_natCast, ← zpow_add₀ two_ne_zero]
    congr 1
    push_cast
    ring
  have hpow' : ∀ a b : Nat, (2 : ℚ) ^ ((a : Int) - b + 1) * 2 ^ b = 2 ^ (a + 1) := by
    intro a b
    rw [← zpow_natCast, ← zpow_natCast, ← zpow_add₀ two_ne_zero]
    congr 1
    push_cast
    ring
  -- the ratio lies in [2^(g-1), 2^(g+1)), with `g` the difference of the logarithms
  have hlow : (2 : ℚ) ^ ((num.log2 : Int) - den.log2 - 1) ≤ (num : ℚ) / den := by
    rw [le_div_iff₀ hdq]
    calc (2 : ℚ) ^ ((num.log2 : Int) - den.log2 - 1) * den
        ≤ 2 ^ ((num.log2 : Int) - den.log2 - 1) * 2 ^ (den.log2 + 1) := by gcongr
      _ = 2 ^ num.log2 := hpow _ _
      _ ≤ num := hn1
  have hhigh : (num : ℚ) / den < 2 ^ ((num.log2 : Int) - den.log2 + 1) := by
    rw [div_lt_iff₀ hdq]
    calc (num : ℚ) < 2 ^ (num.log2 + 1) := hn2
      _ = 2 ^ ((num.log2 : Int) - den.log2 + 1) * 2 ^ den.log2 := (hpow' _ _).symm
      _ ≤ 2 ^ ((num.log2 : Int) - den.log2 + 1) * den := by gcongr
  unfold floorLog2
  dsimp only
  split
  · next h => exact ⟨(atLeastPow2_iff hd _).mp h, hhigh⟩
  · next h =>
    rw [atLeastPow2_iff hd] at h
    refine ⟨hlow, ?_⟩
    rw [sub_add_cancel]
    exact lt_of_not_ge h

theorem le_floorLog2 (hn : 0 < num) (hd : 0 < den) {a : Int}
    (h : (2 : ℚ) ^ a ≤ (num : ℚ) / den) : a ≤ floorLog2 num den := by
  by_contra hc
  have hle : (2 : ℚ) ^ (floorLog2 num den + 1) ≤ 2 ^ a :=
    zpow_le_zpow_right₀ one_le_two (by omega)
  linarith [(floorLog2_spec hn hd).2]

theorem floorLog2_lt (hn : 0 < num) (hd : 0 < den) {b : Int}
    (h : (num : ℚ) / den < 2 ^ b) : floorLog2 num den < b := by
  by_contra hc
  have hle : (2 : ℚ) ^ b ≤ 2 ^ floorLog2 num den := zpow_le_zpow_right₀ one_le_two (by omega)
  linarith [(floorLog2_spec hn hd).1]

/-- At exponent `q`, rounding takes the integer nearest to the ratio in units of `2^q`. -/
theorem quotient_eq_of_nearestEven (hd : 0 < den) {q : Int} {k : Nat}
    (h : NearestEven ((num : ℚ) / den / 2 ^ q) k) :
    (if 0 ≤ q then roundHalfEven num (den * Nat.pow 2 q.toNat)
      else roundHalfEven (num * Nat.pow 2 (-q).toNat) den) = k := by
  rw [Nat.pow_eq, Nat.pow_eq]
  split
  · next hq =>
    apply roundHalfEven_eq_of_nearestEven (Nat.mul_pos hd (Nat.two_pow_pos _))
    rw [two_zpow_of_nonneg hq, div_div] at h
    push_cast
    exact h
  · next hq =>
    apply roundHalfEven_eq_of_nearestEven hd
    rw [two_zpow_of_neg (by omega), div_inv_eq_mul, div_mul_eq_mul_div] at h
    push_cast
    exact h

end Ratio

/-! ### The rounding interval -/

/-- The low end of the interval of rationals that round to `m · 2^q`: half a unit below it, or a
quarter of a unit when the gap below is halved. -/
def lowEnd (m : Nat) (q : Int) (halved : Bool) : ℚ :=
  ((4 * m - if halved then 1 else 2 : Nat) : ℚ) * 2 ^ (q - 2)

/-- The high end of the interval of rationals that round to `m · 2^q`: half a unit above it. -/
def highEnd (m : Nat) (q : Int) : ℚ := ((4 * m + 2 : Nat) : ℚ) * 2 ^ (q - 2)

/-- `r` rounds to `m · 2^q`: it lies between the ends, which are included when `m` is even. -/
structure RoundsTo (m : Nat) (q : Int) (halved : Bool) (r : ℚ) : Prop where
  above : lowEnd m q halved < r ∨ lowEnd m q halved = r ∧ m % 2 = 0
  below : r < highEnd m q ∨ r = highEnd m q ∧ m % 2 = 0

theorem two_zpow_sub_two (q : Int) : (2 : ℚ) ^ (q - 2) = 2 ^ q / 4 := by
  rw [zpow_sub₀ two_ne_zero]
  norm_num

theorem lowEnd_eq {m : Nat} (hm : 0 < m) (q : Int) (halved : Bool) :
    lowEnd m q halved = ((m : ℚ) - if halved then 1 / 4 else 1 / 2) * 2 ^ q := by
  unfold lowEnd
  rw [two_zpow_sub_two]
  cases halved
  · simp only [Bool.false_eq_true, if_false]
    rw [Nat.cast_sub (by omega)]
    push_cast
    ring
  · simp only [if_true]
    rw [Nat.cast_sub (by omega)]
    push_cast
    ring

theorem highEnd_eq (m : Nat) (q : Int) : highEnd m q = ((m : ℚ) + 1 / 2) * 2 ^ q := by
  unfold highEnd
  rw [two_zpow_sub_two]
  push_cast
  ring

theorem RoundsTo.le_highEnd {m : Nat} {q : Int} {halved : Bool} {r : ℚ}
    (h : RoundsTo m q halved r) : r ≤ ((m : ℚ) + 1 / 2) * 2 ^ q := by
  rw [← highEnd_eq]
  rcases h.below with h | ⟨h, -⟩
  · exact h.le
  · exact h.le

theorem RoundsTo.lowEnd_le {m : Nat} {q : Int} {halved : Bool} {r : ℚ} (hm : 0 < m)
    (h : RoundsTo m q halved r) : ((m : ℚ) - if halved then 1 / 4 else 1 / 2) * 2 ^ q ≤ r := by
  rw [← lowEnd_eq hm]
  rcases h.above with h | ⟨h, -⟩
  · exact h.le
  · exact h.le

/-- Inside the interval the ratio is within half a unit of `m`, and a tie happens only at an end
that the interval includes, so with an even `m`. -/
theorem RoundsTo.nearestEven {m : Nat} {q : Int} {halved : Bool} {r : ℚ} (hm : 0 < m)
    (h : RoundsTo m q halved r) : NearestEven (r / 2 ^ q) m := by
  have hu : (0 : ℚ) < 2 ^ q := by positivity
  have hlo := h.lowEnd_le hm
  have hhi := h.le_highEnd
  have hlo' : ((m : ℚ) - 1 / 2) * 2 ^ q ≤ r := by
    refine le_trans ?_ hlo
    gcongr
    split <;> norm_num
  refine ⟨?_, ?_, ?_⟩
  · rw [le_div_iff₀ hu]
    exact hlo'
  · rw [div_le_iff₀ hu]
    exact hhi
  · intro ht
    rcases ht with ht | ht
    · -- a tie at the low end: the end is not halved, and is included
      have hr : r = ((m : ℚ) - 1 / 2) * 2 ^ q := by rw [div_eq_iff hu.ne'] at ht; exact ht
      cases halved
      · rcases h.above with h' | ⟨-, he⟩
        · rw [lowEnd_eq hm, hr] at h'
          simp at h'
        · exact he
      · have := hlo
        rw [hr] at this
        simp only [if_true] at this
        have : (m : ℚ) - 1 / 4 ≤ m - 1 / 2 := le_of_mul_le_mul_right this hu
        linarith
    · have hr : r = highEnd m q := by
        rw [highEnd_eq]
        rw [div_eq_iff hu.ne'] at ht
        exact ht
      rcases h.below with h' | ⟨-, he⟩
      · exact absurd hr h'.ne
      · exact he

/-! ### Rounding inside the interval gives the number back -/

section Exact

variable {num den : Nat}

/-- A ratio that rounds to a normalized `m · 2^q` is rounded to exactly that magnitude. Below a
power of two whose gap below is halved, the ratio lies in the binade under it and rounds up to
`2^53` there, which carries into `2^52` one binade up. -/
theorem roundRatio_eq_of_roundsTo {m : Nat} {q : Int} (hn : 0 < num) (hd : 0 < den)
    (hmq : Normalized m q)
    (h : RoundsTo m q (decide (m = 2 ^ 52 ∧ -1074 < q)) ((num : ℚ) / den)) :
    roundRatio num den = (m, q) := by
  set r : ℚ := (num : ℚ) / den with hr
  have hu : (0 : ℚ) < 2 ^ q := by positivity
  have hm53 : (m : ℚ) + 1 / 2 < 2 ^ 53 := by
    have : m + 1 ≤ 2 ^ 53 := hmq.lt
    have : ((m + 1 : Nat) : ℚ) ≤ ((2 ^ 53 : Nat) : ℚ) := by exact_mod_cast this
    push_cast at this
    linarith
  have hq53 : (2 : ℚ) ^ (q + 53) = 2 ^ 53 * 2 ^ q := by
    rw [zpow_add₀ two_ne_zero, mul_comm]
    norm_num
  have hq52 : (2 : ℚ) ^ (q + 52) = 2 ^ 52 * 2 ^ q := by
    rw [zpow_add₀ two_ne_zero, mul_comm]
    norm_num
  -- the ratio is below the binade above `m`
  have hf_hi : floorLog2 num den < q + 53 := by
    apply floorLog2_lt hn hd
    calc r ≤ ((m : ℚ) + 1 / 2) * 2 ^ q := h.le_highEnd
      _ < 2 ^ 53 * 2 ^ q := by gcongr
      _ = 2 ^ (q + 53) := hq53.symm
  unfold roundRatio
  dsimp only
  by_cases hc : m = 2 ^ 52 ∧ -1074 < q ∧ r < 2 ^ (q + 52)
  · -- the ratio lies in the binade below: it rounds to `2^53` at the exponent below
    obtain ⟨rfl, hq, hr52⟩ := hc
    have hlo := h.lowEnd_le hmq.pos
    simp only [hq, and_self, decide_true, if_true] at hlo
    have hf : floorLog2 num den = q + 51 := by
      have h1 : q + 51 ≤ floorLog2 num den := by
        apply le_floorLog2 hn hd
        calc (2 : ℚ) ^ (q + 51) = 2 ^ 51 * 2 ^ q := by
              rw [zpow_add₀ two_ne_zero, mul_comm]
              norm_num
          _ ≤ (((2 ^ 52 : Nat) : ℚ) - 1 / 4) * 2 ^ q := by gcongr; norm_num
          _ ≤ r := hlo
      have h2 : floorLog2 num den < q + 52 := floorLog2_lt hn hd hr52
      omega
    have hmax : max (floorLog2 num den - 52) (-1074) = q - 1 := by omega
    rw [hmax]
    have hround : (if 0 ≤ q - 1 then roundHalfEven num (den * Nat.pow 2 (q - 1).toNat)
        else roundHalfEven (num * Nat.pow 2 (-(q - 1)).toNat) den) = 2 ^ 53 := by
      apply quotient_eq_of_nearestEven hd
      have hsplit : (2 : ℚ) ^ q = 2 ^ (q - 1) * 2 := by
        rw [← zpow_add_one₀ two_ne_zero, sub_add_cancel]
      have hv : (0 : ℚ) < 2 ^ (q - 1) := by positivity
      have hlo' : ((2 : ℚ) ^ 53 - 1 / 2) * 2 ^ (q - 1) ≤ r := by
        refine le_trans (le_of_eq ?_) hlo
        rw [hsplit]
        push_cast
        ring
      have hhi' : r < 2 ^ 53 * 2 ^ (q - 1) := by
        calc r < 2 ^ (q + 52) := hr52
          _ = 2 ^ 53 * 2 ^ (q - 1) := by rw [hq52, hsplit]; ring
      refine ⟨?_, ?_, fun _ ↦ by norm_num⟩
      · rw [le_div_iff₀ hv]
        push_cast
        exact hlo'
      · rw [div_le_iff₀ hv]
        push_cast
        linarith
    rw [hround, if_pos (by rw [Nat.pow_eq]), sub_add_cancel, Nat.pow_eq]
  · -- otherwise the ratio lies in the binade of `m`, or `m` is subnormal
    have hf_lo : q + 52 ≤ floorLog2 num den ∨ q = -1074 := by
      rcases hmq.full with hm | hq
      · by_cases hq : q = -1074
        · exact .inr hq
        refine .inl (le_floorLog2 hn hd ?_)
        rw [hq52]
        rcases Nat.lt_or_ge (2 ^ 52) m with hm' | hm'
        · -- above the power of two the whole interval is in the binade
          have hm1 : ((2 ^ 52 : Nat) : ℚ) + 1 ≤ m := by exact_mod_cast hm'
          push_cast at hm1
          calc (2 : ℚ) ^ 52 * 2 ^ q ≤ ((m : ℚ) - 1 / 2) * 2 ^ q := by gcongr; linarith
            _ ≤ ((m : ℚ) - if decide (m = 2 ^ 52 ∧ -1074 < q) then 1 / 4 else 1 / 2) * 2 ^ q := by
                gcongr
                split <;> norm_num
            _ ≤ r := h.lowEnd_le hmq.pos
        · -- at the power of two the gap below is halved, and the ratio is not below it
          have hm2 : m = 2 ^ 52 := le_antisymm hm' hm
          have : ¬ r < 2 ^ (q + 52) := fun hlt ↦ hc ⟨hm2, by have := hmq.low; omega, hlt⟩
          rw [hq52] at this
          exact le_of_not_gt this
      · exact .inr hq
    have hmax : max (floorLog2 num den - 52) (-1074) = q := by
      have := hmq.low
      omega
    rw [hmax, quotient_eq_of_nearestEven hd (h.nearestEven hmq.pos), if_neg]
    rw [Nat.pow_eq]
    exact Nat.ne_of_lt hmq.lt

/-- Every ratio in the rounding interval of a finite nonzero number rounds back to it. -/
theorem ofRatio_eq_of_roundsTo {x : Binary64} (hx : x.isFinite = true) (hz : x.isZero = false)
    (hn : 0 < num) (hd : 0 < den)
    (h : RoundsTo x.toParts.1 x.toParts.2 (x.fraction == 0 && 1 < x.exponentField)
      ((num : ℚ) / den)) :
    ofRatio x.negative num den = x := by
  have hmq := toParts_normalized hx hz
  rw [halved_iff hx hz] at h
  unfold ofRatio
  rw [if_neg hn.ne', roundRatio_eq_of_roundsTo hn hd hmq h]
  dsimp only
  rw [if_neg (by have := hmq.high; omega)]
  exact ofParts_toParts hx hz

/-- A decimal with `len` digits lies between `10^(len-1)` and `10^len`. -/
theorem pow_length_toDigits {digits : Nat} (hdig : 0 < digits) :
    10 ^ ((Nat.toDigits 10 digits).length - 1) ≤ digits ∧
      digits < 10 ^ (Nat.toDigits 10 digits).length := by
  have hpos := Nat.length_toDigits_pos (b := 10) (n := digits)
  refine ⟨?_, (Nat.length_toDigits_le_iff (by norm_num) hpos).mp le_rfl⟩
  by_contra hc
  rcases Nat.lt_or_ge 1 (Nat.toDigits 10 digits).length with h1 | h1
  · have := (Nat.length_toDigits_le_iff (b := 10) (n := digits) (by norm_num)
      (show 0 < (Nat.toDigits 10 digits).length - 1 by omega)).mpr (by omega)
    omega
  · have : (Nat.toDigits 10 digits).length - 1 = 0 := by omega
    rw [this] at hc
    omega

/-- A decimal whose value lies in the rounding interval of a finite nonzero number reads back as
that number: its value is far from the magnitudes that the reading settles without powers of
ten. -/
theorem ofDecimal_eq_of_roundsTo {x : Binary64} (hx : x.isFinite = true) (hz : x.isZero = false)
    {digits : Nat} {exp10 : Int} (hdig : 0 < digits)
    (h : RoundsTo x.toParts.1 x.toParts.2 (x.fraction == 0 && 1 < x.exponentField)
      ((digits : ℚ) * 10 ^ exp10)) :
    ofDecimal x.negative digits exp10 = x := by
  have hmq := toParts_normalized hx hz
  set m := x.toParts.1
  set q := x.toParts.2
  set len := (Nat.toDigits 10 digits).length with hlen
  obtain ⟨hlen1, hlen2⟩ := pow_length_toDigits hdig
  have hpos : 0 < len := Nat.length_toDigits_pos
  have hten : ∀ a : Nat, ∀ b : Int, (10 : ℚ) ^ a * 10 ^ b = 10 ^ ((a : Int) + b) := by
    intro a b
    rw [zpow_add₀ (by norm_num), zpow_natCast]
  -- the value lies within its decimal order of magnitude
  have hv1 : (10 : ℚ) ^ ((len - 1 : Nat) + exp10) ≤ (digits : ℚ) * 10 ^ exp10 := by
    rw [← hten]
    gcongr
    exact_mod_cast hlen1
  have hv2 : (digits : ℚ) * 10 ^ exp10 < 10 ^ ((len : Int) + exp10) := by
    rw [← hten]
    gcongr
    exact_mod_cast hlen2
  -- and within the range of finite numbers
  have hhi : (digits : ℚ) * 10 ^ exp10 < 10 ^ (309 : Int) := by
    have hm : (m : ℚ) + 1 / 2 < 2 ^ 53 := by
      have : ((m + 1 : Nat) : ℚ) ≤ ((2 ^ 53 : Nat) : ℚ) := by exact_mod_cast hmq.lt
      push_cast at this
      linarith
    calc (digits : ℚ) * 10 ^ exp10 ≤ ((m : ℚ) + 1 / 2) * 2 ^ q := h.le_highEnd
      _ ≤ 2 ^ 53 * 2 ^ (971 : Int) := by
          gcongr
          · exact one_le_two
          · exact hmq.high
      _ < 10 ^ (309 : Int) := by
          rw [show (971 : Int) = (971 : Nat) from rfl, show (309 : Int) = (309 : Nat) from rfl,
            zpow_natCast, zpow_natCast]
          exact_mod_cast (by decide +kernel : 2 ^ 53 * 2 ^ 971 < 10 ^ 309)
  have hlo : 10 ^ (-400 : Int) < (digits : ℚ) * 10 ^ exp10 := by
    have hm : (1 : ℚ) / 2 ≤ (m : ℚ) - if (x.fraction == 0 && 1 < x.exponentField) then 1 / 4
        else 1 / 2 := by
      have : (1 : ℚ) ≤ m := by exact_mod_cast hmq.pos
      split <;> linarith
    calc (10 : ℚ) ^ (-400 : Int) < 1 / 2 * 2 ^ (-1074 : Int) := by
          rw [show (-400 : Int) = -(400 : Nat) from rfl, show (-1074 : Int) = -(1074 : Nat) from rfl,
            zpow_neg, zpow_neg, zpow_natCast, zpow_natCast]
          rw [one_div, ← mul_inv, inv_lt_inv₀ (by positivity) (by positivity)]
          exact_mod_cast (by decide +kernel : 2 * 2 ^ 1074 < 10 ^ 400)
      _ ≤ ((m : ℚ) - if (x.fraction == 0 && 1 < x.exponentField) then 1 / 4 else 1 / 2) *
          2 ^ q := by
          gcongr
          · exact one_le_two
          · exact hmq.low
      _ ≤ (digits : ℚ) * 10 ^ exp10 := h.lowEnd_le hmq.pos
  have hscale_hi : (len - 1 : Nat) + exp10 < 309 :=
    (zpow_lt_zpow_iff_right₀ (by norm_num : (1 : ℚ) < 10)).mp (lt_of_le_of_lt hv1 hhi)
  have hscale_lo : -400 < (len : Int) + exp10 :=
    (zpow_lt_zpow_iff_right₀ (by norm_num : (1 : ℚ) < 10)).mp (lt_trans hlo hv2)
  unfold ofDecimal
  rw [if_neg hdig.ne']
  dsimp only
  rw [if_neg (by rw [← hlen]; omega), if_neg (by rw [← hlen]; omega)]
  split
  · next he =>
    apply ofRatio_eq_of_roundsTo hx hz (Nat.mul_pos hdig (by rw [Nat.pow_eq]; positivity)) one_pos
    rw [Nat.pow_eq]
    push_cast
    rw [div_one, ← zpow_natCast, Int.toNat_of_nonneg he]
    exact h
  · next he =>
    apply ofRatio_eq_of_roundsTo hx hz hdig (by rw [Nat.pow_eq]; positivity)
    rw [Nat.pow_eq]
    push_cast
    rw [← zpow_natCast, Int.toNat_of_nonneg (by omega), div_eq_mul_inv, ← zpow_neg, neg_neg]
    exact h

end Exact

end TorrentPrune.Number.Binary64
