import Mathlib.Data.List.Induction
import TorrentPrune.Bencode.Reader

/-!
# Decimal text in bencode

Integers and length prefixes are written in canonical decimal: no leading zero except in `0`
itself, and no `-0`. The integer reader and the string reader accept exactly that text, and
what they return is the number it writes: `readInteger_intBytes` and `eq_of_readInteger` for
integers in the signed 64-bit range, `readString_stringBytes` and `eq_of_readString` for byte
strings whose length fits the digit limit.
-/

namespace TorrentPrune.Bencode

variable {α : Type}

open TorrentPrune.Number

/-- The byte of the character for the digit `d`. -/
theorem digitByte_eq : ∀ d, d < 10 → (Nat.digitChar d).toNat.toUInt8 = (48 + d).toUInt8 := by
  decide

/-- A digit byte read back as a number. -/
theorem toNat_digitByte {d : Nat} (hd : d < 10) : (48 + d).toUInt8.toNat = 48 + d := by
  simp [Nat.toUInt8, UInt8.toNat_ofNat]
  omega

/-- The digit bytes are those from `0` to `9`. -/
theorem isDigit_iff (b : UInt8) : isDigit b = true ↔ 48 ≤ b.toNat ∧ b.toNat ≤ 57 := by
  simp [isDigit, UInt8.le_iff_toNat_le]

/-- A digit is none of the bytes that open or close other values. -/
theorem ne_of_isDigit {b : UInt8} (hb : isDigit b = true) :
    b ≠ leadEnd ∧ b ≠ leadList ∧ b ≠ leadDict ∧ b ≠ leadInt := by
  have := (isDigit_iff b).mp hb
  refine ⟨?_, ?_, ?_, ?_⟩ <;> intro heq <;> subst heq <;>
    simp_all [leadEnd, leadList, leadDict, leadInt]

/-- The decimal text of a number is that of its tenth followed by its last digit. -/
theorem decimalBytes_eq_if (n : Nat) :
    decimalBytes n = if n < 10 then [(48 + n).toUInt8]
      else decimalBytes (n / 10) ++ [(48 + n % 10).toUInt8] := by
  unfold decimalBytes
  rw [Nat.toDigits_eq_if (by omega)]
  split
  · next h => simp [digitByte_eq n h]
  · simp [digitByte_eq (n % 10) (Nat.mod_lt _ (by omega))]

/-- No digits denote zero. -/
@[simp] theorem digitsValue_nil : digitsValue [] = 0 := rfl

/-- One more digit shifts the value one place. -/
theorem digitsValue_append_singleton (ds : Bytes) (b : UInt8) :
    digitsValue (ds ++ [b]) = digitsValue ds * 10 + (b.toNat - 48) := by
  simp [digitsValue, List.foldl_append]

/-- The decimal text of a number denotes that number. -/
theorem digitsValue_decimalBytes (n : Nat) : digitsValue (decimalBytes n) = n := by
  induction n using Nat.strongRecOn with
  | ind n ih =>
    rw [decimalBytes_eq_if]
    split
    · next h =>
      simp [digitsValue]
      omega
    · next h =>
      rw [digitsValue_append_singleton, ih (n / 10) (by omega),
        toNat_digitByte (Nat.mod_lt _ (by omega))]
      omega

/-- Decimal text is made of digit bytes. -/
theorem isDigit_of_mem_decimalBytes {n : Nat} {b : UInt8} (h : b ∈ decimalBytes n) :
    isDigit b = true := by
  induction n using Nat.strongRecOn with
  | ind n ih =>
    rw [decimalBytes_eq_if] at h
    rw [isDigit_iff]
    split at h
    · next hn =>
      simp only [List.mem_singleton] at h
      subst h
      rw [toNat_digitByte hn]
      omega
    · next hn =>
      rcases List.mem_append.mp h with h | h
      · exact (isDigit_iff b).mp (ih (n / 10) (by omega) h)
      · simp only [List.mem_singleton] at h
        subst h
        rw [toNat_digitByte (Nat.mod_lt _ (by omega))]
        omega

/-- A number below `10 ^ k` is written in at most `k` digits. -/
theorem length_decimalBytes_le {n k : Nat} (hk : 0 < k) (h : n < Nat.pow 10 k) :
    (decimalBytes n).length ≤ k := by
  simpa [decimalBytes] using (Nat.length_toDigits_le_iff (by omega) hk).mpr h

/-- Every number is written with at least one digit. -/
theorem decimalBytes_ne_nil (n : Nat) : decimalBytes n ≠ [] := by
  simp [decimalBytes]

/-- Only zero is written with a leading `0`. -/
theorem head_decimalBytes_ne {n : Nat} (hn : 0 < n) : (decimalBytes n).head? ≠ some 48 := by
  induction n using Nat.strongRecOn with
  | ind n ih =>
    rw [decimalBytes_eq_if]
    split
    · next h =>
      intro heq
      have := congrArg UInt8.toNat (Option.some.inj heq)
      rw [toNat_digitByte h] at this
      simp at this
      omega
    · next h =>
      obtain ⟨d, ds, hd⟩ := List.exists_cons_of_ne_nil (decimalBytes_ne_nil (n / 10))
      have := ih (n / 10) (by omega) (by omega)
      rw [hd] at this ⊢
      simpa using this

/-- The digit byte of the value of a digit byte is that byte. -/
theorem digitByte_of_isDigit {b : UInt8} (hb : isDigit b = true) :
    (48 + (b.toNat - 48)).toUInt8 = b := by
  have := (isDigit_iff b).mp hb
  apply UInt8.toNat_inj.mp
  rw [toNat_digitByte (by omega)]
  omega

/-- Digits after a nonzero leading digit write a positive value, and are its decimal text. -/
theorem decimalBytes_digitsValue_cons {d : UInt8} (hd : isDigit d = true) (h0 : d ≠ 48) :
    ∀ ds : Bytes, (∀ b ∈ ds, isDigit b = true) →
      decimalBytes (digitsValue (d :: ds)) = d :: ds ∧ 0 < digitsValue (d :: ds) := by
  have hdn := (isDigit_iff d).mp hd
  have hd48 : d.toNat ≠ 48 := fun h ↦ h0 (UInt8.toNat_inj.mp h)
  intro ds
  induction ds using List.reverseRecOn with
  | nil =>
    intro _
    have hv : digitsValue [d] = d.toNat - 48 := by simp [digitsValue]
    rw [hv, decimalBytes_eq_if, if_pos (by omega), digitByte_of_isDigit hd]
    exact ⟨rfl, by omega⟩
  | append_singleton xs b ih =>
    intro hall
    obtain ⟨hxs, hpos⟩ := ih fun c hc ↦ hall c (List.mem_append_left _ hc)
    have hb := hall b (List.mem_append_right _ (List.mem_singleton_self b))
    have hbn := (isDigit_iff b).mp hb
    have hv : digitsValue (d :: (xs ++ [b])) = digitsValue (d :: xs) * 10 + (b.toNat - 48) := by
      rw [← List.cons_append, digitsValue_append_singleton]
    rw [hv, decimalBytes_eq_if, if_neg (by omega)]
    have hdiv : (digitsValue (d :: xs) * 10 + (b.toNat - 48)) / 10 = digitsValue (d :: xs) := by
      omega
    have hmod : (digitsValue (d :: xs) * 10 + (b.toNat - 48)) % 10 = b.toNat - 48 := by omega
    rw [hdiv, hmod, hxs, digitByte_of_isDigit hb]
    exact ⟨rfl, by omega⟩

/-- Canonical natural text, read at its first byte. -/
theorem isNaturalText_cons (d : UInt8) (ds : Bytes) :
    isNaturalText (d :: ds) = if d == 48 then ds.isEmpty else isDigit d && ds.all isDigit := rfl

/-- Canonical decimal text is the text of its value. -/
theorem decimalBytes_digitsValue {ds : Bytes} (h : isNaturalText ds = true) :
    decimalBytes (digitsValue ds) = ds := by
  cases ds with
  | nil => simp [isNaturalText] at h
  | cons d rest =>
    rw [isNaturalText_cons] at h
    split at h
    · next h0 =>
      simp only [beq_iff_eq] at h0
      subst h0
      simp only [List.isEmpty_iff] at h
      subst h
      rfl
    · next h0 =>
      simp only [Bool.and_eq_true, List.all_eq_true] at h
      exact (decimalBytes_digitsValue_cons h.1 (by simpa using h0) rest h.2).1

/-- The decimal text of a number is canonical. -/
theorem isNaturalText_decimalBytes (n : Nat) : isNaturalText (decimalBytes n) = true := by
  obtain ⟨d, ds, hd⟩ := List.exists_cons_of_ne_nil (decimalBytes_ne_nil n)
  have hdig : ∀ b ∈ d :: ds, isDigit b = true :=
    fun b hb ↦ isDigit_of_mem_decimalBytes (hd ▸ hb)
  rw [hd, isNaturalText_cons]
  split
  · next h0 =>
    simp only [beq_iff_eq] at h0
    -- a leading zero is zero itself
    have hn : n = 0 := by
      by_contra hn
      exact head_decimalBytes_ne (Nat.pos_of_ne_zero hn) (by rw [hd, h0]; rfl)
    subst hn
    have : decimalBytes 0 = [48] := rfl
    rw [this] at hd
    simp only [List.cons.injEq] at hd
    simp [← hd.2]
  · simp only [Bool.and_eq_true, List.all_eq_true]
    exact ⟨hdig d List.mem_cons_self, fun b hb ↦ hdig b (List.mem_cons_of_mem _ hb)⟩

/-- A list is the run of elements that pass `p` and what follows it, which starts with an element
that fails. -/
theorem takeWhile_split (p : α → Bool) (l : List α) :
    l = l.takeWhile p ++ l.drop (l.takeWhile p).length ∧
      ∀ x rest, l.drop (l.takeWhile p).length = x :: rest → p x = false := by
  induction l with
  | nil => simp
  | cons y ys ih =>
    rw [List.takeWhile_cons]
    cases hy : p y with
    | true =>
      simp only [if_true, List.length_cons, List.drop_succ_cons, List.cons_append,
        List.cons.injEq, true_and]
      exact ih
    | false =>
      simp only [Bool.false_eq_true, if_false, List.length_nil, List.drop_zero, List.nil_append,
        List.cons.injEq, true_and]
      rintro x rest ⟨rfl, -⟩
      exact hy

/-- The bytes of a number's decimal text are digits, so neither a sign nor an `e`. -/
theorem ne_of_mem_decimalBytes {n : Nat} {b : UInt8} (h : b ∈ decimalBytes n) :
    b ≠ leadEnd ∧ b ≠ minus ∧ b ≠ colon := by
  have := (isDigit_iff b).mp (isDigit_of_mem_decimalBytes h)
  refine ⟨?_, ?_, ?_⟩ <;> intro heq <;> subst heq <;> simp_all [leadEnd, minus, colon]

/-- The text of an integer is canonical. -/
theorem isIntegerText_intBytes (n : Int) : isIntegerText (intBytes n) = true := by
  unfold intBytes
  split
  · next hn =>
    have hne : decimalBytes n.natAbs ≠ [48] := by
      intro h
      have := congrArg digitsValue h
      rw [digitsValue_decimalBytes] at this
      simp [digitsValue] at this
      omega
    simp [isIntegerText, isNaturalText_decimalBytes, hne]
  · obtain ⟨d, ds, hd⟩ := List.exists_cons_of_ne_nil (decimalBytes_ne_nil n.natAbs)
    have hdm : d ≠ minus := (ne_of_mem_decimalBytes (hd ▸ List.mem_cons_self)).2.1
    have := isNaturalText_decimalBytes n.natAbs
    rw [hd] at this ⊢
    simp [isIntegerText, hdm, this]

/-- The magnitude of a 64-bit integer has at most 19 decimal digits, far below the digit limit. -/
theorem length_decimalBytes_natAbs {n : Int} (hlo : int64Min ≤ n) (hhi : n ≤ int64Max) :
    (decimalBytes n.natAbs).length ≤ digitLimit := by
  have hlt : n.natAbs < Nat.pow 10 19 := by
    simp only [int64Min, int64Max] at hlo hhi
    have : Nat.pow 2 63 < Nat.pow 10 19 := by decide
    omega
  have := length_decimalBytes_le (by decide) hlt
  simp only [digitLimit]
  omega

/-- The integer reader takes the canonical text of a 64-bit integer and its closing `e`. -/
theorem readInteger_intBytes (pos : Nat) {n : Int} (hlo : int64Min ≤ n) (hhi : n ≤ int64Max)
    (rest : Bytes) :
    readInteger pos (intBytes n ++ leadEnd :: rest) = .ok (n, (intBytes n).length + 1) := by
  have hbody : (intBytes n ++ leadEnd :: rest).takeWhile (· != leadEnd) = intBytes n := by
    rw [List.takeWhile_append_of_pos]
    · simp [leadEnd]
    · intro b hb
      unfold intBytes at hb
      split at hb
      · rcases List.mem_cons.mp hb with rfl | hb
        · simp [minus, leadEnd]
        · simpa using (ne_of_mem_decimalBytes hb).1
      · simpa using (ne_of_mem_decimalBytes hb).1
  unfold readInteger
  simp only [hbody, isIntegerText_intBytes, Bool.not_true, Bool.false_eq_true, if_false,
    List.length_append, List.length_cons]
  rw [if_neg (by omega)]
  unfold intBytes
  split
  · next hn =>
    have := length_decimalBytes_natAbs hlo hhi
    simp only [List.head?_cons, beq_self_eq_true, if_true, List.drop_succ_cons, List.drop_zero,
      digitsValue_decimalBytes]
    rw [if_neg (by omega), if_neg (by omega)]
    congr 2
    omega
  · next hn =>
    obtain ⟨d, ds, hd⟩ := List.exists_cons_of_ne_nil (decimalBytes_ne_nil n.natAbs)
    have hdm : d ≠ minus := (ne_of_mem_decimalBytes (hd ▸ List.mem_cons_self)).2.1
    have := length_decimalBytes_natAbs hlo hhi
    have hhead : ((decimalBytes n.natAbs).head? == some minus) = false := by
      simp [hd, hdm]
    simp only [hhead, Bool.false_eq_true, if_false, digitsValue_decimalBytes]
    rw [if_neg (by omega), if_neg (by omega)]
    congr 2
    omega

/-- Canonical integer text is the text of the integer it denotes. -/
theorem intBytes_of_isIntegerText {body : Bytes} (h : isIntegerText body = true) {m : Int}
    (hm : m = if (body.head? == some minus) = true then -(digitsValue (body.drop 1) : Int)
      else (digitsValue body : Int)) :
    intBytes m = body := by
  cases body with
  | nil => simp [isIntegerText] at h
  | cons d ds =>
    by_cases hd : d = minus
    · subst hd
      simp only [isIntegerText, beq_self_eq_true, if_true, Bool.and_eq_true, bne_iff_ne,
        ne_eq] at h
      have hval := decimalBytes_digitsValue h.1
      -- `-0` is not canonical, so the value is negative
      have hpos : digitsValue ds ≠ 0 := by
        intro h0
        rw [h0] at hval
        exact h.2 hval.symm
      simp only [List.head?_cons, beq_self_eq_true, if_true, List.drop_succ_cons,
        List.drop_zero] at hm
      subst hm
      simp only [intBytes]
      rw [if_pos (by omega)]
      simp [hval]
    · have hnat : isNaturalText (d :: ds) = true := by simpa [isIntegerText, hd] using h
      have hhead : ((some d) == some minus) = false := by simp [hd]
      simp only [List.head?_cons, hhead, Bool.false_eq_true, if_false] at hm
      subst hm
      simp [intBytes, decimalBytes_digitsValue hnat]

/-- What the integer reader accepts is the canonical text of a 64-bit integer and its closing
`e`. -/
theorem eq_of_readInteger {pos : Nat} {tail : Bytes} {n : Int} {k : Nat}
    (h : readInteger pos tail = .ok (n, k)) :
    int64Min ≤ n ∧ n ≤ int64Max ∧ tail = intBytes n ++ leadEnd :: tail.drop k ∧
      k = (intBytes n).length + 1 := by
  obtain ⟨hsplit, hstop⟩ := takeWhile_split (· != leadEnd) tail
  unfold readInteger at h
  simp only at h
  split at h
  · cases h
  next hlen =>
  split at h
  · cases h
  next htext =>
  simp only [Bool.not_eq_true', Bool.not_eq_false] at htext
  -- the body runs up to the first `e`
  obtain ⟨x, rest, hdrop⟩ := List.exists_cons_of_ne_nil (l := tail.drop _) (by
    intro hnil
    rw [hnil, List.append_nil] at hsplit
    exact hlen (congrArg List.length hsplit).symm)
  have hx : x = leadEnd := by simpa using hstop x rest hdrop
  subst hx
  -- past the digit limit and the range check, the value is that of the body
  have hval : ∃ m : Int, (m = if ((tail.takeWhile (· != leadEnd)).head? == some minus) = true
      then -(digitsValue ((tail.takeWhile (· != leadEnd)).drop 1) : Int)
      else (digitsValue (tail.takeWhile (· != leadEnd)) : Int)) ∧
      int64Min ≤ m ∧ m ≤ int64Max ∧ n = m ∧
      k = (tail.takeWhile (· != leadEnd)).length + 1 := by
    by_cases hneg : ((tail.takeWhile (· != leadEnd)).head? == some minus) = true
    · simp only [hneg, if_true] at h ⊢
      split at h
      · cases h
      split at h
      · cases h
      next hrange =>
      simp only [Except.ok.injEq, Prod.mk.injEq] at h
      simp only [not_or, Int.not_lt] at hrange
      exact ⟨_, rfl, hrange.1, hrange.2, h.1.symm, h.2.symm⟩
    · simp only [hneg, Bool.false_eq_true, if_false] at h ⊢
      split at h
      · cases h
      split at h
      · cases h
      next hrange =>
      simp only [Except.ok.injEq, Prod.mk.injEq] at h
      simp only [not_or, Int.not_lt] at hrange
      exact ⟨_, rfl, hrange.1, hrange.2, h.1.symm, h.2.symm⟩
  obtain ⟨m, hm, hlo, hhi, rfl, rfl⟩ := hval
  have hint : intBytes n = tail.takeWhile (· != leadEnd) := intBytes_of_isIntegerText htext hm
  refine ⟨hlo, hhi, ?_, by rw [hint]⟩
  rw [hint, ← List.drop_drop, hdrop]
  calc tail = tail.takeWhile (· != leadEnd) ++ tail.drop (tail.takeWhile (· != leadEnd)).length :=
        hsplit
    _ = _ := by rw [hdrop]; rfl

/-- Every count up to the digit limit is below the largest length a prefix can announce. -/
theorem lt_pow_digitLimit {n : Nat} (h : n ≤ digitLimit) : n < Nat.pow 10 digitLimit := by
  have hpow : ∀ m : Nat, m < Nat.pow 10 m := fun _ ↦ Nat.lt_pow_self (by decide)
  exact Nat.lt_of_le_of_lt h (hpow digitLimit)

/-- A length that fits the digit limit is written in at most that many digits. -/
theorem length_decimalBytes_le_digitLimit {n : Nat} (hn : n < Nat.pow 10 digitLimit) :
    (decimalBytes n).length ≤ digitLimit :=
  length_decimalBytes_le (by decide) hn

/-- The string reader takes a byte string behind its canonical length prefix. -/
theorem readString_stringBytes (pos : Nat) {s : Bytes} (hs : s.length < Nat.pow 10 digitLimit)
    {first : UInt8} {more : Bytes} (hd : decimalBytes s.length = first :: more) (rest : Bytes) :
    readString pos first (more ++ colon :: (s ++ rest)) = .ok (s, more.length + 1 + s.length) := by
  have hdig : ∀ b ∈ first :: more, isDigit b = true :=
    fun b hb ↦ isDigit_of_mem_decimalBytes (hd ▸ hb)
  have htake : (more ++ colon :: (s ++ rest)).takeWhile isDigit = more := by
    rw [List.takeWhile_append_of_pos (fun b hb ↦ hdig b (List.mem_cons_of_mem _ hb))]
    simp [isDigit, colon]
  have hlen : (first :: more).length ≤ digitLimit := hd ▸ length_decimalBytes_le_digitLimit hs
  -- only zero is written with a leading `0`, and then alone
  have hzero : (first == 48 && !more.isEmpty) = false := by
    cases hm : more with
    | nil => simp
    | cons _ _ =>
      have hne : 0 < s.length := by
        rcases Nat.eq_zero_or_pos s.length with h0 | h0
        · rw [h0] at hd
          have : decimalBytes 0 = [48] := rfl
          rw [this, hm] at hd
          simp at hd
        · exact h0
      have := head_decimalBytes_ne hne
      rw [hd] at this
      simpa using this
  have hval : digitsValue (first :: more) = s.length := by rw [← hd, digitsValue_decimalBytes]
  unfold readString
  simp only [htake, List.drop_left, bne_self_eq_false, Bool.false_eq_true, if_false, hzero, hval]
  rw [if_neg (by simpa using hlen), if_neg (by simp)]
  simp

/-- What the string reader accepts, after a first digit, is a byte string behind its canonical
length prefix. -/
theorem eq_of_readString {pos : Nat} {first : UInt8} {tail s : Bytes} {k : Nat}
    (hf : isDigit first = true) (h : readString pos first tail = .ok (s, k)) :
    ∃ more, decimalBytes s.length = first :: more ∧ tail = more ++ colon :: s ++ tail.drop k ∧
      k = more.length + 1 + s.length := by
  obtain ⟨hsplit, hstop⟩ := takeWhile_split isDigit tail
  unfold readString at h
  simp only at h
  split at h
  · cases h
  next c after hdrop =>
  split at h
  · cases h
  next hc =>
  have hc : c = colon := by simpa using hc
  subst hc
  split at h
  · cases h
  next hzero =>
  split at h
  · cases h
  split at h
  · cases h
  next hshort =>
  simp only [Except.ok.injEq, Prod.mk.injEq] at h
  obtain ⟨rfl, rfl⟩ := h
  -- the length prefix is canonical decimal text
  have hnat : isNaturalText (first :: tail.takeWhile isDigit) = true := by
    rw [isNaturalText_cons]
    split
    · next h48 =>
      simp only [beq_iff_eq] at h48
      simp only [h48, beq_self_eq_true, Bool.true_and, Bool.not_eq_eq_eq_not, Bool.not_true,
        Bool.not_eq_false] at hzero
      simpa using hzero
    · simp [hf, List.all_takeWhile]
  have hlen : (after.take (digitsValue (first :: tail.takeWhile isDigit))).length =
      digitsValue (first :: tail.takeWhile isDigit) := by
    simp only [List.length_take]
    omega
  refine ⟨tail.takeWhile isDigit, ?_, ?_, ?_⟩
  · rw [hlen, decimalBytes_digitsValue hnat]
  · have hk : tail.drop ((tail.takeWhile isDigit).length + 1 +
        digitsValue (first :: tail.takeWhile isDigit)) =
        after.drop (digitsValue (first :: tail.takeWhile isDigit)) := by
      rw [← List.drop_drop, ← List.drop_drop, hdrop]
      simp
    rw [hk]
    calc tail = tail.takeWhile isDigit ++ tail.drop (tail.takeWhile isDigit).length := hsplit
      _ = _ := by rw [hdrop]; simp
  · rw [hlen]

end TorrentPrune.Bencode
