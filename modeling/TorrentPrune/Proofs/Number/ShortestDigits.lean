import TorrentPrune.Number.Shortest
import TorrentPrune.Proofs.Number.Rounding

/-!
# The shortest digits lie in the rounding interval

`shortestDigits m q` tries decimal grids from coarse to fine and returns a grid point that passes
`inRoundingInterval`, which is membership in the rounding interval of `m · 2^q`
(`inRoundingInterval_iff`). The search never runs out: `floorLog10` never overshoots the decimal
exponent of `m · 2^q` (`ten_zpow_floorLog10_le`), so at seventeen digits the grid is finer than
the interval is wide, and one of the two grid points around the number lies inside it
(`found_at_seventeen_digits`). Removing trailing zeros keeps the value.
-/

namespace TorrentPrune.Number.Binary64

/-! ### Exact comparisons -/

/-- Two comparisons agree when their orders do. -/
theorem compare_eq_of_iff {α β : Type} [LinearOrder α] [LinearOrder β] {a b : α} {a' b' : β}
    (hlt : a < b ↔ a' < b') (heq : a = b ↔ a' = b') :
    compare a b = compare a' b' := by
  rcases lt_trichotomy a b with h | h | h
  · rw [compare_lt_iff_lt.mpr h, compare_lt_iff_lt.mpr (hlt.mp h)]
  · rw [compare_eq_iff_eq.mpr h, compare_eq_iff_eq.mpr (heq.mp h)]
  · have h₁ : ¬ a' < b' := fun h' ↦ (lt_asymm h) (hlt.mpr h')
    have h₂ : a' ≠ b' := fun h' ↦ (ne_of_gt h) (heq.mpr h')
    rw [compare_gt_iff_gt.mpr h, compare_gt_iff_gt.mpr (lt_of_le_of_ne (not_lt.mp h₁) h₂.symm)]

/-- A power with an integer exponent as a quotient of two natural powers, one of them `1`. -/
theorem zpow_eq_div (a : ℚ) (e : Int) : a ^ e = a ^ e.toNat / a ^ (-e).toNat := by
  rcases le_or_gt 0 e with he | he
  · rw [Int.toNat_of_nonpos (show -e ≤ 0 by omega), pow_zero, div_one, ← zpow_natCast,
      Int.toNat_of_nonneg he]
  · rw [Int.toNat_of_nonpos (show e ≤ 0 by omega), pow_zero, one_div, ← zpow_natCast,
      Int.toNat_of_nonneg (show 0 ≤ -e by omega), zpow_neg, inv_inv]

/-- `compareScaled` compares `c · 10^e` with `y · 2^b` exactly. -/
theorem compareScaled_eq (c : Nat) (e : Int) (y : Nat) (b : Int) :
    compareScaled c e y b = compare ((c : ℚ) * 10 ^ e) ((y : ℚ) * 2 ^ b) := by
  unfold compareScaled
  dsimp only
  rw [Nat.pow_eq, Nat.pow_eq, Nat.pow_eq, Nat.pow_eq]
  -- both sides are multiplied by `10^(-e) · 2^(-b)` to clear the negative powers
  set s : ℚ := 10 ^ (-e).toNat * 2 ^ (-b).toNat
  have hs : 0 < s := by positivity
  have hl : ((c * 10 ^ e.toNat * 2 ^ (-b).toNat : Nat) : ℚ) = (c : ℚ) * 10 ^ e * s := by
    rw [zpow_eq_div 10 e]
    field_simp
    push_cast
    ring
  have hr : ((y * 2 ^ b.toNat * 10 ^ (-e).toNat : Nat) : ℚ) = (y : ℚ) * 2 ^ b * s := by
    rw [zpow_eq_div 2 b]
    field_simp
    push_cast
    ring
  apply compare_eq_of_iff
  · rw [← Nat.cast_lt (α := ℚ), hl, hr]
    exact mul_lt_mul_iff_left₀ hs
  · rw [← Nat.cast_inj (R := ℚ), hl, hr]
    exact mul_left_inj' hs.ne'

/-- The model's test of a grid point is membership in the rounding interval. -/
theorem inRoundingInterval_iff (m : Nat) (q : Int) (halved : Bool) (c : Nat) (e : Int) :
    inRoundingInterval m q halved c e = true ↔ RoundsTo m q halved ((c : ℚ) * 10 ^ e) := by
  have hlow : (if halved then 4 * m - 1 else 4 * m - 2) = 4 * m - if halved then 1 else 2 := by
    cases halved <;> rfl
  have hr : RoundsTo m q halved ((c : ℚ) * 10 ^ e) ↔
      (lowEnd m q halved < c * 10 ^ e ∨ lowEnd m q halved = c * 10 ^ e ∧ m % 2 = 0) ∧
        (c * 10 ^ e < highEnd m q ∨ c * 10 ^ e = highEnd m q ∧ m % 2 = 0) :=
    ⟨fun h ↦ ⟨h.above, h.below⟩, fun ⟨h₁, h₂⟩ ↦ ⟨h₁, h₂⟩⟩
  unfold inRoundingInterval
  dsimp only
  rw [hlow, compareScaled_eq, compareScaled_eq, Bool.and_eq_true, hr]
  simp only [lowEnd, highEnd]
  -- each end is passed according to the comparison's three outcomes
  apply and_congr
  · split
    · next hc =>
      exact iff_of_true rfl (.inl (compare_gt_iff_gt.mp hc))
    · next hc =>
      have := compare_eq_iff_eq.mp hc
      simp [this]
    · next hc =>
      have := compare_lt_iff_lt.mp hc
      simp only [Bool.false_eq_true, false_iff, not_or, not_and]
      exact ⟨not_lt.mpr this.le, fun h' ↦ absurd h'.symm (ne_of_lt this)⟩
  · split
    · next hc =>
      exact iff_of_true rfl (.inl (compare_lt_iff_lt.mp hc))
    · next hc =>
      have := compare_eq_iff_eq.mp hc
      simp [this]
    · next hc =>
      have := compare_gt_iff_gt.mp hc
      simp only [Bool.false_eq_true, false_iff, not_or, not_and]
      exact ⟨not_lt.mpr this.le, fun h' ↦ absurd h' (ne_of_gt this)⟩

/-! ### The decimal exponent estimate

`log10 2` lies between `0.30102` and `0.30103`; the two powers below pin the upper value down to
the precision the estimate needs: `2^100000 ≤ 10^30103 ≤ 2 · 2^100000`. -/

theorem two_pow_le_ten_pow : 2 ^ 100000 ≤ 10 ^ 30103 := by decide +kernel

theorem ten_pow_le_two_pow : 10 ^ 30103 ≤ 2 * 2 ^ 100000 := by decide +kernel

/-- The estimate `⌊0.30103 k⌋` is at most two above the decimal exponent of `2^k`, for every
binary exponent `k` a finite number reaches. -/
theorem ten_zpow_sub_two_le {k j : Int} (hk : k ≤ 1100) (hj : j * 100000 ≤ k * 30103) :
    (10 : ℚ) ^ (j - 2) ≤ 2 ^ k := by
  rcases le_or_gt 0 k with hk0 | hk0
  · rcases le_or_gt j 2 with hj2 | hj2
    · calc (10 : ℚ) ^ (j - 2) ≤ 1 := zpow_le_one_of_nonpos₀ (by norm_num) (by omega)
        _ ≤ 2 ^ k := one_le_zpow₀ one_le_two hk0
    · -- in naturals: `(10^j)^N ≤ (2 · 2^k)^N` for `N = 100000`
      obtain ⟨J, rfl⟩ : ∃ J : Nat, j = J := ⟨j.toNat, by omega⟩
      obtain ⟨K, rfl⟩ : ∃ K : Nat, k = K := ⟨k.toNat, by omega⟩
      obtain ⟨N, hN⟩ : ∃ N : Nat, N = 100000 := ⟨_, rfl⟩
      have hJK : J * N ≤ K * 30103 := by subst hN; omega
      have hK : 2 ^ K ≤ 2 ^ N := Nat.pow_le_pow_right (by norm_num) (by omega)
      have hten : 10 ^ 30103 ≤ 2 * 2 ^ N := hN ▸ ten_pow_le_two_pow
      have hpow : (10 ^ J) ^ N ≤ (2 * 2 ^ K) ^ N :=
        calc (10 ^ J) ^ N = 10 ^ (J * N) := by rw [← pow_mul]
          _ ≤ 10 ^ (K * 30103) := Nat.pow_le_pow_right (by norm_num) hJK
          _ = (10 ^ 30103) ^ K := by rw [mul_comm, pow_mul]
          _ ≤ (2 * 2 ^ N) ^ K := Nat.pow_le_pow_left hten _
          _ = 2 ^ K * (2 ^ K) ^ N := by rw [mul_pow, ← pow_mul, ← pow_mul, mul_comm N]
          _ ≤ 2 ^ N * (2 ^ K) ^ N := Nat.mul_le_mul_right _ hK
          _ = (2 * 2 ^ K) ^ N := by rw [mul_pow]
      have h10 : 10 ^ J ≤ 2 * 2 ^ K := (Nat.pow_le_pow_iff_left (by omega)).mp hpow
      have h10q : (10 : ℚ) ^ J ≤ 2 * 2 ^ K := by exact_mod_cast h10
      have h2K : (0 : ℚ) ≤ 2 ^ K := by positivity
      have hsub : (10 : ℚ) ^ ((J : Int) - 2) = 10 ^ J / 100 := by
        rw [zpow_sub₀ (by norm_num), zpow_natCast]
        norm_num
      rw [hsub, zpow_natCast, div_le_iff₀ (by norm_num)]
      linarith
  · -- in naturals with the signs turned: `2^(-k) ≤ 10^(-j)`
    obtain ⟨J, hJ⟩ : ∃ J : Nat, j = -J := ⟨(-j).toNat, by omega⟩
    obtain ⟨K, hK⟩ : ∃ K : Nat, k = -K := ⟨(-k).toNat, by omega⟩
    subst hJ hK
    obtain ⟨N, hN⟩ : ∃ N : Nat, N = 100000 := ⟨_, rfl⟩
    have hJK : K * 30103 ≤ J * N := by subst hN; omega
    have htwo : 2 ^ N ≤ 10 ^ 30103 := hN ▸ two_pow_le_ten_pow
    have hpow : (2 ^ K) ^ N ≤ (10 ^ J) ^ N :=
      calc (2 ^ K) ^ N = (2 ^ N) ^ K := by rw [← pow_mul, ← pow_mul, mul_comm]
        _ ≤ (10 ^ 30103) ^ K := Nat.pow_le_pow_left htwo _
        _ = 10 ^ (K * 30103) := by rw [← pow_mul, mul_comm]
        _ ≤ 10 ^ (J * N) := Nat.pow_le_pow_right (by norm_num) hJK
        _ = (10 ^ J) ^ N := by rw [pow_mul]
    have h2 : 2 ^ K ≤ 10 ^ J := (Nat.pow_le_pow_iff_left (by omega)).mp hpow
    have h2q : (2 : ℚ) ^ K ≤ 10 ^ J := by exact_mod_cast h2
    rw [show -(J : Int) - 2 = -((J + 2 : Nat) : Int) by push_cast; ring, zpow_neg, zpow_neg,
      zpow_natCast, zpow_natCast, inv_le_inv₀ (by positivity) (by positivity), pow_add]
    exact le_trans h2q (le_mul_of_one_le_right (by positivity) (by norm_num))

/-- One correction of a decimal exponent `t` of `y · 2^b`: down when `10^t` is above it, up when
`10^(t+1)` is not. -/
def correctExponent (y : Nat) (b t : Int) : Int :=
  if compareScaled 1 t y b == .gt then t - 1
  else if compareScaled 1 (t + 1) y b != .gt then t + 1
  else t

theorem floorLog10_eq (y : Nat) (b : Int) :
    floorLog10 y b =
      correctExponent y b (correctExponent y b ((((Nat.log2 y : Int) + b) * 30103).fdiv 100000)) :=
  rfl

/-- A correction keeps `10^t` below `y · 2^b` once it is within one step above it... -/
theorem ten_zpow_correctExponent_sub_one_le {y : Nat} {b t : Int}
    (h : (10 : ℚ) ^ (t - 2) ≤ y * 2 ^ b) : (10 : ℚ) ^ (correctExponent y b t - 1) ≤ y * 2 ^ b := by
  unfold correctExponent
  rw [compareScaled_eq, compareScaled_eq, Nat.cast_one, one_mul, one_mul]
  split
  · rwa [show t - 1 - 1 = t - 2 by ring]
  · next hgt =>
    have hle : (10 : ℚ) ^ t ≤ y * 2 ^ b := by
      rw [beq_iff_eq, compare_gt_iff_gt] at hgt
      exact not_lt.mp hgt
    split
    · rwa [add_sub_cancel_right]
    · exact le_trans (zpow_le_zpow_right₀ (by norm_num) (by omega)) hle

/-- ... and below it once it is within one step. -/
theorem ten_zpow_correctExponent_le {y : Nat} {b t : Int}
    (h : (10 : ℚ) ^ (t - 1) ≤ y * 2 ^ b) : (10 : ℚ) ^ correctExponent y b t ≤ y * 2 ^ b := by
  unfold correctExponent
  rw [compareScaled_eq, compareScaled_eq, Nat.cast_one, one_mul, one_mul]
  split
  · exact h
  · next hgt =>
    have hle : (10 : ℚ) ^ t ≤ y * 2 ^ b := by
      rw [beq_iff_eq, compare_gt_iff_gt] at hgt
      exact not_lt.mp hgt
    split
    · next hup =>
      rw [bne_iff_ne, ne_eq, compare_gt_iff_gt] at hup
      exact not_lt.mp hup
    · exact hle

/-- `floorLog10` never overshoots: `10^t ≤ y · 2^b`. -/
theorem ten_zpow_floorLog10_le {y : Nat} (hy : 0 < y) {b : Int}
    (hb : (Nat.log2 y : Int) + b ≤ 1100) : (10 : ℚ) ^ floorLog10 y b ≤ y * 2 ^ b := by
  rw [floorLog10_eq]
  apply ten_zpow_correctExponent_le
  apply ten_zpow_correctExponent_sub_one_le
  have hest := Int.ediv_mul_le (((Nat.log2 y : Int) + b) * 30103) (b := 100000) (by norm_num)
  rw [Int.fdiv_eq_ediv, if_pos (.inl (by norm_num)), sub_zero]
  calc (10 : ℚ) ^ ((((Nat.log2 y : Int) + b) * 30103) / 100000 - 2)
      ≤ 2 ^ ((Nat.log2 y : Int) + b) := ten_zpow_sub_two_le hb hest
    _ = 2 ^ Nat.log2 y * 2 ^ b := by rw [zpow_add₀ two_ne_zero, zpow_natCast]
    _ ≤ y * 2 ^ b := by
        gcongr
        exact_mod_cast Nat.log2_self_le hy.ne'

/-! ### The search over decimal grids -/

section Search

variable {m : Nat} {q : Int} {halved : Bool}

/-- The grid point at or below `m · 2^q` on the grid of `10^e`, as the search computes it. -/
def gridBelow (m : Nat) (q e : Int) : Nat :=
  if 0 ≤ e then (m * Nat.pow 2 q.toNat) / (Nat.pow 10 e.toNat * Nat.pow 2 (-q).toNat)
  else (m * Nat.pow 2 q.toNat * Nat.pow 10 (-e).toNat) / Nat.pow 2 (-q).toNat

/-- A quotient of naturals is the floor of the rational quotient. -/
theorem div_cast_bounds (N D : Nat) (hD : 0 < D) :
    ((N / D : Nat) : ℚ) * D ≤ N ∧ (N : ℚ) < ((N / D : Nat) + 1) * D := by
  have h1 : N / D * D ≤ N := Nat.div_mul_le_self N D
  have h2 : N < (N / D + 1) * D := by
    rw [Nat.succ_mul]
    exact Nat.lt_div_mul_add hD
  exact ⟨by exact_mod_cast h1, by exact_mod_cast h2⟩

/-- `gridBelow` is the floor of `m · 2^q / 10^e`. -/
theorem gridBelow_spec (m : Nat) (q e : Int) :
    (gridBelow m q e : ℚ) * 10 ^ e ≤ m * 2 ^ q ∧ (m : ℚ) * 2 ^ q < (gridBelow m q e + 1) * 10 ^ e := by
  have h2 : (0 : ℚ) < 2 ^ (-q).toNat := by positivity
  have hv : (m : ℚ) * 2 ^ q = m * 2 ^ q.toNat / 2 ^ (-q).toNat := by
    rw [zpow_eq_div 2 q]
    ring
  unfold gridBelow
  simp only [Nat.pow_eq]
  split
  · next he =>
    have h10 : (10 : ℚ) ^ e = 10 ^ e.toNat := by rw [← zpow_natCast, Int.toNat_of_nonneg he]
    obtain ⟨hlo, hhi⟩ := div_cast_bounds (m * 2 ^ q.toNat) (10 ^ e.toNat * 2 ^ (-q).toNat)
      (by positivity)
    push_cast at hlo hhi
    rw [hv, h10, le_div_iff₀ h2, div_lt_iff₀ h2]
    constructor <;> linarith
  · next he =>
    have h10 : (10 : ℚ) ^ e = (10 ^ (-e).toNat)⁻¹ := by
      rw [← zpow_natCast, Int.toNat_of_nonneg (by omega), zpow_neg, inv_inv]
    have h10' : (0 : ℚ) < 10 ^ (-e).toNat := by positivity
    obtain ⟨hlo, hhi⟩ := div_cast_bounds (m * 2 ^ q.toNat * 10 ^ (-e).toNat) (2 ^ (-q).toNat)
      (by positivity)
    push_cast at hlo hhi
    rw [hv, h10, ← div_eq_mul_inv, ← div_eq_mul_inv, div_le_div_iff₀ h10' h2,
      div_lt_div_iff₀ h2 h10']
    constructor <;> linarith

/-- Step `n` of the search finds a point: the grid point below when it is not zero, or the one
above. -/
def FoundAt (m : Nat) (q : Int) (halved : Bool) (t : Int) (n : Nat) : Prop :=
  (gridBelow m q (t - n + 1) ≠ 0 ∧
      inRoundingInterval m q halved (gridBelow m q (t - n + 1)) (t - n + 1) = true) ∨
    inRoundingInterval m q halved (gridBelow m q (t - n + 1) + 1) (t - n + 1) = true

/-- What the search returns: a positive digit string whose value rounds to `m · 2^q`. -/
def Rounds (m : Nat) (q : Int) (halved : Bool) (p : Nat × Int) : Prop :=
  0 < p.1 ∧ RoundsTo m q halved ((p.1 : ℚ) * 10 ^ p.2)

theorem search_succ (t : Int) (n fuel : Nat) :
    shortestDigits.search m q halved t n (fuel + 1) =
      if (gridBelow m q (t - n + 1) != 0 &&
            inRoundingInterval m q halved (gridBelow m q (t - n + 1)) (t - n + 1)) &&
          inRoundingInterval m q halved (gridBelow m q (t - n + 1) + 1) (t - n + 1) then
        (match compareScaled (2 * gridBelow m q (t - n + 1) + 1) (t - n + 1) (4 * m) (q - 1) with
          | .gt => (gridBelow m q (t - n + 1), t - n + 1)
          | .lt => (gridBelow m q (t - n + 1) + 1, t - n + 1)
          | .eq =>
            if gridBelow m q (t - n + 1) % 2 == 0 then (gridBelow m q (t - n + 1), t - n + 1)
            else (gridBelow m q (t - n + 1) + 1, t - n + 1))
      else if gridBelow m q (t - n + 1) != 0 &&
          inRoundingInterval m q halved (gridBelow m q (t - n + 1)) (t - n + 1) then
        (gridBelow m q (t - n + 1), t - n + 1)
      else if inRoundingInterval m q halved (gridBelow m q (t - n + 1) + 1) (t - n + 1) then
        (gridBelow m q (t - n + 1) + 1, t - n + 1)
      else shortestDigits.search m q halved t (n + 1) fuel :=
  rfl

/-- The search returns a point of the interval as long as a step within its fuel finds one: each
step returns a point it found, or moves to the next finer grid. -/
theorem search_rounds (t : Int) :
    ∀ fuel n, (∃ i < fuel, FoundAt m q halved t (n + i)) →
      Rounds m q halved (shortestDigits.search m q halved t n fuel) := by
  intro fuel
  induction fuel with
  | zero =>
    intro n ⟨i, hi, _⟩
    omega
  | succ fuel ih =>
    intro n hfound
    set c := gridBelow m q (t - n + 1)
    set e := t - n + 1
    have hlow : c ≠ 0 → inRoundingInterval m q halved c e = true → Rounds m q halved (c, e) :=
      fun hc h ↦ ⟨Nat.pos_of_ne_zero hc, (inRoundingInterval_iff m q halved c e).mp h⟩
    have hhigh : inRoundingInterval m q halved (c + 1) e = true → Rounds m q halved (c + 1, e) :=
      fun h ↦ ⟨Nat.succ_pos c, by exact_mod_cast (inRoundingInterval_iff m q halved (c + 1) e).mp h⟩
    rw [search_succ]
    split
    · next hboth =>
      simp only [Bool.and_eq_true, bne_iff_ne, ne_eq] at hboth
      obtain ⟨⟨hc, hb⟩, ha⟩ := hboth
      -- both neighbours are in the interval; the nearer one, or the even one on a tie, is taken
      split
      · exact hlow hc hb
      · exact hhigh ha
      · split
        · exact hlow hc hb
        · exact hhigh ha
    · split
      · next hb =>
        simp only [Bool.and_eq_true, bne_iff_ne, ne_eq] at hb
        exact hlow hb.1 hb.2
      · split
        · next ha => exact hhigh ha
        · next hb ha =>
          -- this step found nothing, so the step that finds a point lies further on
          obtain ⟨i, hi, hf⟩ := hfound
          have hi0 : i ≠ 0 := by
            rintro rfl
            simp only [Bool.and_eq_true, bne_iff_ne, ne_eq, not_and, Bool.not_eq_true] at hb ha
            simp only [FoundAt, Nat.add_zero] at hf
            rcases hf with ⟨hc, hb'⟩ | ha'
            · rw [hb hc] at hb'
              exact Bool.false_ne_true hb'
            · rw [ha] at ha'
              exact Bool.false_ne_true ha'
          exact ih (n + 1) ⟨i - 1, by omega, by rwa [show n + 1 + (i - 1) = n + i by omega]⟩

/-- At seventeen digits the grid is finer than the interval is wide, so one of the two grid points
around `m · 2^q` lies inside: the grid step is at most `m · 2^q / 10^16`, below the whole unit
`2^q` the interval spans, or below the three quarters it spans at a power of two. -/
theorem found_at_seventeen_digits (hmq : Normalized m q) (hh : halved = true → m = 2 ^ 52)
    {t : Int} (ht : (10 : ℚ) ^ t ≤ m * 2 ^ q) : FoundAt m q halved t 17 := by
  unfold FoundAt
  generalize he : t - ((17 : Nat) : Int) + 1 = e
  have he' : t = e + 16 := by push_cast at he; omega
  obtain ⟨hc1, hc2⟩ := gridBelow_spec m q e
  generalize gridBelow m q e = c at hc1 hc2
  have hu : (0 : ℚ) < 2 ^ q := by positivity
  have hm1 : (1 : ℚ) ≤ m := by exact_mod_cast hmq.pos
  have hstep : (10 : ℚ) ^ e * 10 ^ 16 ≤ m * 2 ^ q := by
    rw [he', zpow_add₀ (by norm_num)] at ht
    simpa using ht
  have hL := lowEnd_eq hmq.pos q halved
  have hH := highEnd_eq m q
  -- the grid step is shorter than the interval is wide
  have hwidth : (10 : ℚ) ^ e < highEnd m q - lowEnd m q halved := by
    rw [hL, hH]
    cases halved
    · have hm53 : (m : ℚ) < 2 ^ 53 := by exact_mod_cast hmq.lt
      have := mul_lt_mul_of_pos_right hm53 hu
      simp only [Bool.false_eq_true, if_false]
      nlinarith
    · have hm52 : (m : ℚ) = 2 ^ 52 := by exact_mod_cast hh rfl
      simp only [if_true]
      rw [hm52] at hstep ⊢
      nlinarith
  have hlow_pos : 0 < lowEnd m q halved := by
    rw [hL]
    apply mul_pos _ hu
    split <;> linarith
  have hv_lt : (m : ℚ) * 2 ^ q < highEnd m q := by
    rw [hH]
    nlinarith
  have hlow_lt : lowEnd m q halved < m * 2 ^ q := by
    rw [hL]
    apply mul_lt_mul_of_pos_right _ hu
    split <;> linarith
  by_cases hlc : lowEnd m q halved < c * 10 ^ e
  · -- the grid point below is inside
    left
    refine ⟨?_, (inRoundingInterval_iff m q halved c e).mpr ⟨.inl hlc, .inl (by linarith)⟩⟩
    rintro rfl
    simp only [Nat.cast_zero, zero_mul] at hlc
    linarith
  · -- the grid point below is at or under the low end, so the one above is inside
    right
    rw [inRoundingInterval_iff]
    push_cast
    refine ⟨.inl (by linarith), .inl ?_⟩
    have : (c : ℚ) * 10 ^ e ≤ lowEnd m q halved := le_of_not_gt hlc
    linarith

/-- Removing trailing zeros keeps the value and a positive digit string. -/
theorem stripZeros_spec : ∀ (fuel d : Nat) (e : Int), 0 < d →
    0 < (shortestDigits.stripZeros d e fuel).1 ∧
      ((shortestDigits.stripZeros d e fuel).1 : ℚ) * 10 ^ (shortestDigits.stripZeros d e fuel).2 =
        d * 10 ^ e := by
  intro fuel
  induction fuel with
  | zero => intro d e hd; exact ⟨hd, rfl⟩
  | succ fuel ih =>
    intro d e hd
    unfold shortestDigits.stripZeros
    split
    · next h =>
      simp only [Bool.and_eq_true, bne_iff_ne, ne_eq, beq_iff_eq] at h
      have hd10 : d / 10 * 10 = d := Nat.div_mul_cancel (Nat.dvd_of_mod_eq_zero h.2)
      obtain ⟨hpos, hval⟩ := ih (d / 10) (e + 1) (by omega)
      refine ⟨hpos, ?_⟩
      rw [hval, zpow_add_one₀ (by norm_num), mul_comm ((10 : ℚ) ^ e) 10, ← mul_assoc]
      congr 1
      exact_mod_cast hd10
    · exact ⟨hd, rfl⟩

/-- The shortest digits of a normalized magnitude: a positive digit string whose value rounds back
to it. -/
theorem shortestDigits_rounds (hmq : Normalized m q) (hh : halved = true → m = 2 ^ 52) :
    Rounds m q halved (shortestDigits m q halved) := by
  have hlog : (Nat.log2 m : Int) + q ≤ 1100 := by
    have h1 : Nat.log2 m < 53 := (Nat.log2_lt hmq.pos.ne').mpr hmq.lt
    have := hmq.high
    omega
  have hfound : Rounds m q halved (shortestDigits.search m q halved (floorLog10 m q) 1 17) :=
    search_rounds (floorLog10 m q) 17 1 ⟨16, by norm_num, found_at_seventeen_digits hmq hh (ten_zpow_floorLog10_le hmq.pos hlog)⟩
  unfold shortestDigits
  dsimp only
  generalize shortestDigits.search m q halved (floorLog10 m q) 1 17 = p at hfound
  obtain ⟨d, e⟩ := p
  obtain ⟨hpos, hr⟩ := hfound
  obtain ⟨hpos', hval⟩ := stripZeros_spec 20 d e hpos
  exact ⟨hpos', by rw [hval]; exact hr⟩

end Search

end TorrentPrune.Number.Binary64
