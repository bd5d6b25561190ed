import Mathlib.Data.List.DropRight
import Mathlib.Data.List.TakeWhile
import TorrentPrune.Text.Blank
import TorrentPrune.Text.Upper

/-!
# Upper case and trimming, settled

Upper-casing settles in one pass: every character upper-cases to one or more characters, each of
which upper-cases to itself (`upperChar_spec`), so `upper (upper s) = upper s`. Nothing it
produces is blank unless it was blank before, so a text without blanks at its ends keeps none
there (`trimmed_upper`); and trimming settles in one pass too (`trim_trim`).

The tables are checked once, by the kernel: each run's images form a progression that no run and
no special mapping starts from and that holds no blank (`CaseRun.imagesSettled`), and each special
mapping's characters are settled one by one. The lemmas on runs turn that finite check into the
statement about every character.
-/

namespace TorrentPrune.Text

/-! ### The tables -/

/-- The last code point a run maps. -/
def CaseRun.top (r : CaseRun) : Nat := r.first + (r.last - r.first) / r.step * r.step

/-- No point from `lo` to `hi` (every second one when `step` is 2) is mapped by the run `r'`. -/
def CaseRun.avoids (lo hi step : Nat) (r' : CaseRun) : Bool :=
  hi < r'.first || r'.top < lo ||
    ((step == 2 || lo == hi) && r'.step == 2 && lo % 2 != r'.first % 2)

/-- The code point `n` is no point from `lo` to `hi` (every second one when `step` is 2). -/
def CaseRun.misses (lo hi step n : Nat) : Bool :=
  n < lo || hi < n || (step == 2 && lo % 2 != n % 2)

/-- The images of a run are valid code points that no run maps, that no special mapping starts
from, and that are not blank. -/
def CaseRun.imagesSettled (r : CaseRun) : Bool :=
  let lo := ((r.first : Int) + r.shift).toNat
  let hi := ((r.top : Int) + r.shift).toNat
  decide (0 < r.step) && decide (0 ≤ (r.first : Int) + r.shift) &&
    (hi < 0xD800 || (0xDFFF < lo && hi < 0x110000)) &&
    upperRuns.all (CaseRun.avoids lo hi r.step) &&
    upperSpecial.all (fun e ↦ CaseRun.misses lo hi r.step e.1) &&
    blankCodes.all (CaseRun.misses lo hi r.step)

/-- Every run of single mappings maps onto settled characters. -/
theorem upperRuns_imagesSettled : upperRuns.all CaseRun.imagesSettled = true := by
  decide +kernel

/-- Every special mapping gives characters that are settled and not blank. -/
theorem upperSpecial_settled : ∀ e ∈ upperSpecial, e.2 ≠ [] ∧
    ∀ u ∈ e.2, upperChar (Char.ofNat u) = [Char.ofNat u] ∧ isBlank (Char.ofNat u) = false := by
  decide +kernel

/-! ### Runs and characters -/

/-- A code point a run maps lies on its progression, at most at its top. -/
theorem CaseRun.eq_of_maps {r : CaseRun} {n : Nat} (hlo : r.first ≤ n) (hhi : n ≤ r.last)
    (hmod : (n - r.first) % r.step = 0) :
    ∃ q, n = r.first + q * r.step ∧ n ≤ r.top := by
  have hdvd : r.step ∣ n - r.first := Nat.dvd_of_mod_eq_zero hmod
  have hq : n - r.first = (n - r.first) / r.step * r.step := (Nat.div_mul_cancel hdvd).symm
  have hqle : (n - r.first) / r.step ≤ (r.last - r.first) / r.step :=
    Nat.div_le_div_right (by omega)
  have hmul := Nat.mul_le_mul_right r.step hqle
  refine ⟨(n - r.first) / r.step, by omega, ?_⟩
  unfold CaseRun.top
  omega

/-- A run that avoids a stretch of code points maps none of them. -/
theorem CaseRun.not_maps_of_avoids {lo hi step m : Nat} {r' : CaseRun}
    (h : CaseRun.avoids lo hi step r' = true) (hlo : lo ≤ m) (hhi : m ≤ hi)
    (hpar : step = 2 → m % 2 = lo % 2) :
    ¬ (r'.first ≤ m ∧ m ≤ r'.last ∧ (m - r'.first) % r'.step = 0) := by
  rintro ⟨h₁, h₂, h₃⟩
  obtain ⟨q, hq, htop⟩ := CaseRun.eq_of_maps h₁ h₂ h₃
  simp only [CaseRun.avoids, Bool.or_eq_true, decide_eq_true_eq, Bool.and_eq_true, beq_iff_eq,
    bne_iff_ne, ne_eq] at h
  rcases h with (h | h) | ⟨⟨hs | hs, hs'⟩, hp⟩
  · omega
  · omega
  · rw [hs'] at h₃
    have := hpar hs
    omega
  · rw [hs'] at h₃
    omega

/-- A code point that misses a stretch is none of its points. -/
theorem CaseRun.ne_of_misses {lo hi step m n : Nat} (h : CaseRun.misses lo hi step n = true)
    (hlo : lo ≤ m) (hhi : m ≤ hi) (hpar : step = 2 → m % 2 = lo % 2) : m ≠ n := by
  rintro rfl
  simp only [CaseRun.misses, Bool.or_eq_true, decide_eq_true_eq, Bool.and_eq_true, beq_iff_eq,
    bne_iff_ne, ne_eq] at h
  rcases h with (h | h) | ⟨hs, hp⟩
  · omega
  · omega
  · exact hp (hpar hs).symm

/-- `Char.ofNat` keeps a valid code point. -/
theorem toNat_ofNat_of_valid {n : Nat} (h : n.isValidChar) : (Char.ofNat n).toNat = n := by
  rw [Char.ofNat, dif_pos h]
  rfl

/-- A character that no special mapping starts from and no run maps upper-cases to itself. -/
theorem upperChar_of_unmapped {d : Char} (hs : ∀ e ∈ upperSpecial, e.1 ≠ d.toNat)
    (hr : ∀ r ∈ upperRuns,
      ¬ (r.first ≤ d.toNat ∧ d.toNat ≤ r.last ∧ (d.toNat - r.first) % r.step = 0)) :
    upperChar d = [d] := by
  have h₁ : upperSpecial.find? (fun e ↦ e.1 == d.toNat) = none :=
    List.find?_eq_none.mpr fun e he ↦ by simpa using hs e he
  have h₂ : upperRuns.find? (fun r ↦ r.first ≤ d.toNat && d.toNat ≤ r.last &&
      (d.toNat - r.first) % r.step == 0) = none :=
    List.find?_eq_none.mpr fun r hr' ↦ by simpa [and_assoc] using hr r hr'
  simp only [upperChar, h₁, h₂]

/-- The image of a code point under a run is a settled character: it upper-cases to itself and
is not blank. -/
theorem CaseRun.image_settled {r : CaseRun} (hr : r.imagesSettled = true) {n : Nat}
    (hlo : r.first ≤ n) (hhi : n ≤ r.last) (hmod : (n - r.first) % r.step = 0) :
    upperChar (Char.ofNat ((n : Int) + r.shift).toNat) = [Char.ofNat ((n : Int) + r.shift).toNat] ∧
      isBlank (Char.ofNat ((n : Int) + r.shift).toNat) = false := by
  simp only [CaseRun.imagesSettled, Bool.and_eq_true, decide_eq_true_eq, Bool.or_eq_true,
    List.all_eq_true] at hr
  obtain ⟨⟨⟨⟨⟨hstep, hnonneg⟩, hvalid⟩, havoid⟩, hmiss⟩, hblank⟩ := hr
  obtain ⟨q, hq, htop⟩ := CaseRun.eq_of_maps hlo hhi hmod
  -- the image lies on the progression from the image of `first` to the image of the top
  have hlo' : ((r.first : Int) + r.shift).toNat ≤ ((n : Int) + r.shift).toNat := by omega
  have hhi' : ((n : Int) + r.shift).toNat ≤ ((r.top : Int) + r.shift).toNat := by omega
  have hpar : r.step = 2 →
      ((n : Int) + r.shift).toNat % 2 = ((r.first : Int) + r.shift).toNat % 2 := by
    intro h2
    rw [h2] at hq
    omega
  have hch : (Char.ofNat ((n : Int) + r.shift).toNat).toNat = ((n : Int) + r.shift).toNat :=
    toNat_ofNat_of_valid (by unfold Nat.isValidChar; omega)
  refine ⟨upperChar_of_unmapped (fun e he ↦ ?_) (fun r' hr' ↦ ?_), ?_⟩
  · rw [hch]
    exact (CaseRun.ne_of_misses (hmiss e he) hlo' hhi' hpar).symm
  · rw [hch]
    exact CaseRun.not_maps_of_avoids (havoid r' hr') hlo' hhi' hpar
  · have hnot : (Char.ofNat ((n : Int) + r.shift).toNat).toNat ∉ blankCodes := fun hm ↦
      CaseRun.ne_of_misses (hblank _ hm) hlo' hhi' hpar hch.symm
    simpa [isBlank] using hnot

/-- Every character upper-cases to at least one character; each of them upper-cases to itself, and
none is blank unless it is the character itself, left without a mapping. -/
theorem upperChar_spec (c : Char) : upperChar c ≠ [] ∧
    ∀ d ∈ upperChar c, upperChar d = [d] ∧ (isBlank d = true → d = c) := by
  rw [upperChar]
  split
  · next us hfind =>
    -- a mapping to several characters: the table check settles each of them
    obtain ⟨hne, hus⟩ := upperSpecial_settled _ (List.mem_of_find?_eq_some hfind)
    refine ⟨by simpa using hne, fun d hd ↦ ?_⟩
    obtain ⟨u, hu, rfl⟩ := List.mem_map.mp hd
    obtain ⟨hup, hblank⟩ := hus u hu
    exact ⟨hup, by simp [hblank]⟩
  · split
    · next r hfind =>
      have hsat := List.find?_some hfind
      simp only [Bool.and_eq_true, decide_eq_true_eq, beq_iff_eq] at hsat
      obtain ⟨⟨hlo, hhi⟩, hmod⟩ := hsat
      have hr : r.imagesSettled = true :=
        List.all_eq_true.mp upperRuns_imagesSettled r (List.mem_of_find?_eq_some hfind)
      obtain ⟨hup, hblank⟩ := CaseRun.image_settled hr hlo hhi hmod
      refine ⟨List.cons_ne_nil _ _, fun d hd ↦ ?_⟩
      rw [List.mem_singleton.mp hd]
      exact ⟨hup, by simp [hblank]⟩
    · next hspecial _ hrun =>
      refine ⟨List.cons_ne_nil _ _, fun d hd ↦ ?_⟩
      rw [List.mem_singleton.mp hd]
      exact ⟨by rw [upperChar, hspecial, hrun], fun _ ↦ rfl⟩

/-! ### Texts -/

/-- Each character of an upper-cased text upper-cases to itself. -/
theorem flatMap_upperChar_upperChar (c : Char) : (upperChar c).flatMap upperChar = upperChar c := by
  calc (upperChar c).flatMap upperChar = (upperChar c).flatMap fun d ↦ [d] :=
        List.flatMap_congr fun d hd ↦ ((upperChar_spec c).2 d hd).1
    _ = upperChar c := List.flatMap_singleton' _

/-- Upper-casing twice is upper-casing once. -/
theorem upper_upper (s : String) : upper (upper s) = upper s := by
  simp only [upper, String.toList_ofList, List.flatMap_assoc, flatMap_upperChar_upperChar]

example : upper (upper "ﬃ straße") = "FFI STRASSE" := by decide

/-- Only the empty text upper-cases to the empty text. -/
theorem isEmpty_upper (s : String) : (upper s).isEmpty = s.isEmpty := by
  have hne : ∀ c ∈ s.toList, upperChar c ≠ [] := fun c _ ↦ (upperChar_spec c).1
  rw [Bool.eq_iff_iff, String.isEmpty_iff, String.isEmpty_iff, upper, ← String.toList_inj,
    ← String.toList_inj, String.toList_ofList, String.toList_empty, List.flatMap_eq_nil_iff]
  constructor
  · intro h
    cases hs : s.toList with
    | nil => rfl
    | cons c _ => exact absurd (h c (by simp [hs])) (hne c (by simp [hs]))
  · intro h c hc
    simp [h] at hc

/-- Characters with nothing blank at either end: what trimming leaves. -/
def Trimmed (cs : List Char) : Prop :=
  (∀ c ∈ cs.head?, isBlank c = false) ∧ ∀ c ∈ cs.getLast?, isBlank c = false

/-- Trimming drops blanks from the front, then from the back. -/
theorem trim_toList (s : String) :
    (trim s).toList = (s.toList.dropWhile isBlank).rdropWhile isBlank := by
  simp only [trim, String.toList_ofList, List.rdropWhile]

/-- A prefix of a list that is not empty starts as the list does. -/
theorem mem_head?_of_isPrefix {cs ds : List Char} (h : cs <+: ds) {c : Char} (hc : c ∈ cs.head?) :
    c ∈ ds.head? := by
  obtain ⟨t, rfl⟩ := h
  cases cs with
  | nil => cases hc
  | cons d r => simpa using hc

/-- Trimming leaves nothing blank at either end. -/
theorem trimmed_trim (s : String) : Trimmed (trim s).toList := by
  rw [trim_toList]
  constructor
  · intro c hc
    have hpre := List.rdropWhile_prefix isBlank (s.toList.dropWhile isBlank)
    have hd := List.head?_dropWhile_not isBlank s.toList
    rw [mem_head?_of_isPrefix hpre hc] at hd
    exact hd
  · intro c hc
    have hd := List.head?_dropWhile_not isBlank (s.toList.dropWhile isBlank).reverse
    rw [List.rdropWhile, List.getLast?_reverse] at hc
    rw [hc] at hd
    exact hd

/-- A text with nothing blank at either end is its own trimming. -/
theorem trim_eq_of_trimmed {s : String} (h : Trimmed s.toList) : trim s = s := by
  rw [← String.toList_inj, trim_toList]
  have hhead : s.toList.dropWhile isBlank = s.toList := by
    cases hs : s.toList with
    | nil => rfl
    | cons c r => simp [h.1 c (by simp [hs])]
  have hlast : s.toList.rdropWhile isBlank = s.toList := by
    rw [List.rdropWhile_eq_self_iff]
    intro hne
    simpa using h.2 _ (List.getLast?_eq_some_getLast hne)
  rw [hhead, hlast]

/-- Trimming twice is trimming once. -/
theorem trim_trim (s : String) : trim (trim s) = trim s := trim_eq_of_trimmed (trimmed_trim s)

/-- The first character of an upper-cased text comes from the upper case of the first one. -/
theorem head?_flatMap_upperChar (cs : List Char) {d : Char}
    (hd : d ∈ (cs.flatMap upperChar).head?) : ∃ c ∈ cs.head?, d ∈ upperChar c := by
  cases cs with
  | nil => cases hd
  | cons c r =>
    obtain ⟨u, us, hu⟩ := List.exists_cons_of_ne_nil (upperChar_spec c).1
    rw [List.flatMap_cons, hu] at hd
    refine ⟨c, rfl, ?_⟩
    rw [hu]
    simp_all

/-- The last character of an upper-cased text comes from the upper case of the last one. -/
theorem getLast?_flatMap_upperChar (cs : List Char) {d : Char}
    (hd : d ∈ (cs.flatMap upperChar).getLast?) : ∃ c ∈ cs.getLast?, d ∈ upperChar c := by
  rcases List.eq_nil_or_concat' cs with rfl | ⟨r, c, rfl⟩
  · cases hd
  · rw [List.flatMap_append, List.flatMap_singleton,
      List.getLast?_append_of_ne_nil _ (upperChar_spec c).1] at hd
    exact ⟨c, by simp, List.mem_of_getLast? hd⟩

/-- The upper case of a character that is not blank has nothing blank in it. -/
theorem isBlank_of_mem_upperChar {c d : Char} (hd : d ∈ upperChar c) (hc : isBlank c = false) :
    isBlank d = false := by
  cases hb : isBlank d with
  | false => rfl
  | true =>
    rw [((upperChar_spec c).2 d hd).2 hb, hc] at hb
    cases hb

/-- Upper-casing adds no blank at either end. -/
theorem trimmed_upper {s : String} (h : Trimmed s.toList) : Trimmed (upper s).toList := by
  rw [upper, String.toList_ofList]
  constructor
  · intro d hd
    obtain ⟨c, hc, hdc⟩ := head?_flatMap_upperChar _ hd
    exact isBlank_of_mem_upperChar hdc (h.1 c hc)
  · intro d hd
    obtain ⟨c, hc, hdc⟩ := getLast?_flatMap_upperChar _ hd
    exact isBlank_of_mem_upperChar hdc (h.2 c hc)

/-- Upper-casing a trimmed text leaves it trimmed. -/
theorem trim_upper_of_trim {s : String} (h : trim s = s) : trim (upper s) = upper s := by
  have ht : Trimmed s.toList := h ▸ trimmed_trim s
  exact trim_eq_of_trimmed (trimmed_upper ht)

end TorrentPrune.Text
