import TorrentPrune.Proofs.Bencode.Grammar
import TorrentPrune.Proofs.Bencode.Numerals

/-!
# Reading bencode accepts exactly the grammar

The reader keeps open containers on a stack instead of recursing. Two directions relate it to the
grammar of `Term`:

* reading the text of a term that fits under the depth limit reads exactly that text and
  completes the term's value, whatever is open around it (`readFrom_encode`, by recursion on the
  term);
* whatever the reader accepts is the text of such a term (`readFrom_sound`, by induction on the
  length of the input, with `Closes` saying what the open containers demand of the text after a
  value).

`resume` is how reading goes on once a value is complete.
-/

namespace TorrentPrune.Bencode

open TorrentPrune.Number

/-- How reading goes on once a value is complete: it goes to the container on top of the stack,
or it is the result when no container is open. -/
def resume (limit : Int) (v : Value) (stack : List Frame) (depth pos : Nat) (rest : Bytes) :
    Except ReadFailure (Value × Bytes) :=
  match deliver v stack depth 0 with
  | .done v _ => .ok (v, rest)
  | .next st d _ => readFrom limit st d pos rest
  | .fail f => .error f

/-- A step that completes a value goes on as `resume` says. -/
theorem readFrom_of_deliver {limit : Int} {st st' : List Frame} {d d' pos : Nat} {b : UInt8}
    {tail : Bytes} {v : Value} {k : Nat} (h : stepAt limit st d pos b tail = deliver v st' d' k) :
    readFrom limit st d pos (b :: tail) = resume limit v st' d' (pos + 1 + k) (tail.drop k) := by
  rw [readFrom.eq_2, h]
  cases st' with
  | nil => rfl
  | cons f fs =>
    simp only [deliver, resume]
    cases f.add v <;> rfl

/-- A step that fails ends reading with its failure. -/
theorem readFrom_of_fail {limit : Int} {st : List Frame} {d pos : Nat} {b : UInt8} {tail : Bytes}
    {e : ReadFailure} (h : stepAt limit st d pos b tail = .fail e) :
    readFrom limit st d pos (b :: tail) = .error e := by
  rw [readFrom.eq_2, h]

/-- With no container open, a complete value is the result. -/
@[simp] theorem resume_nil (limit : Int) (v : Value) (d pos : Nat) (rest : Bytes) :
    resume limit v [] d pos rest = .ok (v, rest) := rfl

/-- A complete value joins the container on top. -/
theorem resume_cons_of_add {limit : Int} {v : Value} {f g : Frame} {fs : List Frame} {d pos : Nat}
    {rest : Bytes} (h : f.add v = .ok g) :
    resume limit v (f :: fs) d pos rest = readFrom limit (g :: fs) d pos rest := by
  simp [resume, deliver, h]

/-- A byte other than `e` starts a value, whatever is open. -/
theorem stepAt_of_ne {limit : Int} {st : List Frame} {d pos : Nat} {b : UInt8} {tail : Bytes}
    (hb : b ≠ leadEnd) : stepAt limit st d pos b tail = startValue limit st d pos b tail := by
  cases st with
  | nil => rfl
  | cons f fs => simp [stepAt, hb]

/-- An `e` closes the container on top, unless a key waits for its value. -/
theorem stepAt_end {limit : Int} {f : Frame} {fs : List Frame} {d pos : Nat} {tail : Bytes}
    (hf : ∀ o E k, f ≠ .dict o E (some k)) :
    stepAt limit (f :: fs) d pos leadEnd tail = deliver f.close fs (d - 1) 0 := by
  cases f with
  | list o items => rfl
  | dict o E pending =>
    cases pending with
    | none => rfl
    | some k => exact absurd rfl (hf o E k)

section Lead

variable {limit : Int}

/-- At an `i`, the integer read is delivered. -/
theorem stepAt_int {st : List Frame} {d pos : Nat} {tail : Bytes} {n : Int} {k : Nat}
    (h : readInteger pos tail = .ok (n, k)) :
    stepAt limit st d pos leadInt tail = deliver (.int n) st d k := by
  have hopen : ¬(leadInt = leadList ∨ leadInt = leadDict) := by decide
  rw [stepAt_of_ne (by decide)]
  simp [startValue, hopen, h]

/-- At an `i`, an integer that cannot be read fails the step. -/
theorem stepAt_int_error {st : List Frame} {d pos : Nat} {tail : Bytes} {e : ReadFailure}
    (h : readInteger pos tail = .error e) : stepAt limit st d pos leadInt tail = .fail e := by
  have hopen : ¬(leadInt = leadList ∨ leadInt = leadDict) := by decide
  rw [stepAt_of_ne (by decide)]
  simp [startValue, hopen, h]

/-- At a digit, the byte string read is delivered. -/
theorem stepAt_digit {st : List Frame} {d pos : Nat} {b : UInt8} (hb : isDigit b = true)
    {tail s : Bytes} {k : Nat} (h : readString pos b tail = .ok (s, k)) :
    stepAt limit st d pos b tail = deliver (.bytes s) st d k := by
  obtain ⟨he, hl, hd, hi⟩ := ne_of_isDigit hb
  rw [stepAt_of_ne he]
  simp [startValue, hl, hd, hi, hb, h]

/-- At a digit, a byte string that cannot be read fails the step. -/
theorem stepAt_digit_error {st : List Frame} {d pos : Nat} {b : UInt8} (hb : isDigit b = true)
    {tail : Bytes} {e : ReadFailure} (h : readString pos b tail = .error e) :
    stepAt limit st d pos b tail = .fail e := by
  obtain ⟨he, hl, hd, hi⟩ := ne_of_isDigit hb
  rw [stepAt_of_ne he]
  simp [startValue, hl, hd, hi, hb, h]

/-- A byte that starts no value and closes nothing fails. -/
theorem stepAt_other (st : List Frame) (d pos : Nat) {b : UInt8} (he : b ≠ leadEnd)
    (hopen : ¬(b = leadList ∨ b = leadDict)) (hi : b ≠ leadInt) (hb : isDigit b = false)
    (tail : Bytes) :
    stepAt limit st d pos b tail = .fail (.malformed ⟨.unexpectedByte b, pos⟩) := by
  rw [stepAt_of_ne he]
  simp only [not_or] at hopen
  simp [startValue, hopen.1, hopen.2, hi, hb]

/-- A container opens below the depth limit. -/
theorem stepAt_open (st : List Frame) {d : Nat} (pos : Nat) {b : UInt8}
    (hopen : b = leadList ∨ b = leadDict) (hd : (d : Int) < limit) (tail : Bytes) :
    stepAt limit st d pos b tail = .next (Frame.opening b pos :: st) (d + 1) 0 := by
  have he : b ≠ leadEnd := by rcases hopen with rfl | rfl <;> decide
  have hbool : (b == leadList || b == leadDict) = true := by
    rcases hopen with rfl | rfl <;> decide
  rw [stepAt_of_ne he]
  simp only [startValue, hbool, if_true]
  rw [if_neg (by omega)]

/-- A container cannot open at the depth limit. -/
theorem stepAt_open_deep (st : List Frame) {d : Nat} (pos : Nat) {b : UInt8}
    (hopen : b = leadList ∨ b = leadDict) (hd : limit ≤ d) (tail : Bytes) :
    stepAt limit st d pos b tail = .fail (.malformed ⟨.tooDeep limit, pos⟩) := by
  have he : b ≠ leadEnd := by rcases hopen with rfl | rfl <;> decide
  have hbool : (b == leadList || b == leadDict) = true := by
    rcases hopen with rfl | rfl <;> decide
  rw [stepAt_of_ne he]
  simp only [startValue, hbool, if_true]
  rw [if_pos hd]

end Lead

section Steps

variable {limit : Int} {st : List Frame} {d pos : Nat} {rest : Bytes}

/-- Reading the text of an integer in range completes that integer. -/
theorem readFrom_intText {n : Int} (lo : int64Min ≤ n) (hi : n ≤ int64Max) :
    readFrom limit st d pos (leadInt :: intBytes n ++ leadEnd :: rest) =
      resume limit (.int n) st d (pos + ((intBytes n).length + 2)) rest := by
  rw [List.cons_append, readFrom_of_deliver (stepAt_int (readInteger_intBytes pos lo hi rest))]
  have hdrop : (intBytes n ++ leadEnd :: rest).drop ((intBytes n).length + 1) = rest := by
    rw [← List.drop_drop, List.drop_left]
    rfl
  rw [hdrop]
  congr 1
  omega

/-- Reading a byte string behind its length prefix completes that byte string. -/
theorem readFrom_stringBytes {b : Bytes} (hs : (stringBytes b).length < Nat.pow 10 digitLimit) :
    readFrom limit st d pos (stringBytes b ++ rest) =
      resume limit (.bytes b) st d (pos + (stringBytes b).length) rest := by
  obtain ⟨first, more, hd⟩ := List.exists_cons_of_ne_nil (decimalBytes_ne_nil b.length)
  have hb : b.length < Nat.pow 10 digitLimit := by
    simp only [stringBytes, List.length_append, List.length_cons] at hs
    omega
  have hdig : isDigit first = true := isDigit_of_mem_decimalBytes (hd ▸ List.mem_cons_self)
  have htext : stringBytes b ++ rest = first :: (more ++ colon :: (b ++ rest)) := by
    simp [stringBytes, hd]
  rw [htext, readFrom_of_deliver (stepAt_digit hdig (readString_stringBytes pos hb hd rest))]
  have hdrop : (more ++ colon :: (b ++ rest)).drop (more.length + 1 + b.length) = rest := by
    rw [← List.drop_drop, ← List.drop_drop, List.drop_left]
    simp
  have hlen : (stringBytes b).length = more.length + 1 + b.length + 1 := by
    simp [stringBytes, hd]
    omega
  rw [hdrop, hlen]
  congr 1
  omega

/-- Opening a container below the limit pushes its frame. -/
theorem readFrom_open {b : UInt8} (hb : b = leadList ∨ b = leadDict) (hd : (d : Int) < limit) :
    readFrom limit st d pos (b :: rest) =
      readFrom limit (Frame.opening b pos :: st) (d + 1) (pos + 1) rest := by
  rw [readFrom.eq_2, stepAt_open st pos hb hd rest]
  rfl

/-- An `l` opens a list. -/
@[simp] theorem Frame.opening_list (pos : Nat) : Frame.opening leadList pos = .list pos [] := rfl

/-- A `d` opens a dictionary. -/
@[simp] theorem Frame.opening_dict (pos : Nat) : Frame.opening leadDict pos = .dict pos [] none :=
  rfl

/-- An `e` closes the container on top, which completes its value. -/
theorem readFrom_close {f : Frame} {fs : List Frame} (hf : ∀ o E k, f ≠ .dict o E (some k)) :
    readFrom limit (f :: fs) d pos (leadEnd :: rest) =
      resume limit f.close fs (d - 1) (pos + 1) rest := by
  rw [readFrom_of_deliver (stepAt_end hf)]
  rfl

end Steps

section Completeness

variable (limit : Int)

mutual

/-- Reading the text of a term that fits under the limit reads exactly that text and completes
the term's value. -/
theorem readFrom_encode : ∀ (t : Term) (st : List Frame) (d pos : Nat) (rest : Bytes),
    t.Fits limit d → t.encode.length < Nat.pow 10 digitLimit →
    readFrom limit st d pos (t.encode ++ rest) =
      resume limit t.value st d (pos + t.encode.length) rest
  | .int n lo hi, st, d, pos, rest, _, _ => by
    have h : readFrom limit st d pos (leadInt :: intBytes n ++ leadEnd :: rest) =
        resume limit (.int n) st d (pos + ((intBytes n).length + 2)) rest :=
      readFrom_intText lo hi
    simpa [Term.encode, Term.value] using h
  | .str b, st, d, pos, rest, _, hsize => by
    have h : readFrom limit st d pos (stringBytes b ++ rest) =
        resume limit (.bytes b) st d (pos + (stringBytes b).length) rest :=
      readFrom_stringBytes hsize
    simpa [Term.encode, Term.value] using h
  | .list ts, st, d, pos, rest, hfit, hsize => by
    have hlen : (Term.list ts).encode.length = (Term.encodeItems ts).length + 2 := by
      simp [Term.encode]
    -- the list nests at least one level, so it opens below the limit
    have hd := Term.lt_of_fits_list hfit
    have hitems : ∀ t ∈ ts, t.Fits limit (d + 1) := fun t ht ↦ Term.fits_of_mem_list hfit ht
    have hopen : readFrom limit st d pos (leadList :: (Term.encodeItems ts ++ leadEnd :: rest)) =
        readFrom limit (.list pos [] :: st) (d + 1) (pos + 1)
          (Term.encodeItems ts ++ leadEnd :: rest) :=
      readFrom_open (Or.inl rfl) hd
    simp only [Term.encode, List.cons_append, List.append_assoc, List.nil_append]
    rw [hopen, readFrom_encodeItems ts pos [] st d (pos + 1) (leadEnd :: rest) hitems
      (by rw [hlen] at hsize; omega), readFrom_close (by simp)]
    simp only [Frame.close, List.append_nil, List.reverse_reverse, Term.value, List.length_cons,
      List.length_append, List.length_nil, Nat.add_sub_cancel]
    congr 1
    omega
  | .dict es, st, d, pos, rest, hfit, hsize => by
    have hlen : (Term.dict es).encode.length = (Term.encodeEntries es).length + 2 := by
      simp [Term.encode]
    have hd := Term.lt_of_fits_dict hfit
    have hentries : ∀ k t, (k, t) ∈ es → t.Fits limit (d + 1) :=
      fun k t ht ↦ Term.fits_of_mem_dict hfit ht
    have hopen : readFrom limit st d pos (leadDict :: (Term.encodeEntries es ++ leadEnd :: rest)) =
        readFrom limit (.dict pos [] none :: st) (d + 1) (pos + 1)
          (Term.encodeEntries es ++ leadEnd :: rest) :=
      readFrom_open (Or.inr rfl) hd
    simp only [Term.encode, List.cons_append, List.append_assoc, List.nil_append]
    rw [hopen, readFrom_encodeEntries es pos [] st d (pos + 1) (leadEnd :: rest) hentries
      (by rw [hlen] at hsize; omega), readFrom_close (by simp)]
    simp only [Frame.close, Term.value, List.length_cons, List.length_append, List.length_nil,
      Nat.add_sub_cancel]
    congr 1
    omega

/-- Reading the texts of list items, one after another, adds their values to the list on top. -/
theorem readFrom_encodeItems : ∀ (ts : List Term) (o : Nat) (vs : List Value) (st : List Frame)
    (d pos : Nat) (rest : Bytes), (∀ t ∈ ts, t.Fits limit (d + 1)) →
    (Term.encodeItems ts).length < Nat.pow 10 digitLimit →
    readFrom limit (.list o vs :: st) (d + 1) pos (Term.encodeItems ts ++ rest) =
      readFrom limit (.list o ((Term.itemValues ts).reverse ++ vs) :: st) (d + 1)
        (pos + (Term.encodeItems ts).length) rest
  | [], o, vs, st, d, pos, rest, _, _ => by simp [Term.itemValues]
  | t :: ts, o, vs, st, d, pos, rest, hfit, hsize => by
    rw [Term.length_encodeItems_cons] at hsize
    simp only [Term.encodeItems, List.append_assoc]
    rw [readFrom_encode t _ (d + 1) pos _ (hfit t List.mem_cons_self) (by omega),
      resume_cons_of_add rfl,
      readFrom_encodeItems ts o (t.value :: vs) st d _ rest
        (fun u hu ↦ hfit u (List.mem_cons_of_mem _ hu)) (by omega)]
    simp only [Term.itemValues, List.reverse_cons, List.append_assoc, List.singleton_append,
      List.length_append, Nat.add_assoc]

/-- Reading the texts of dictionary entries, key before value, enters them into the dictionary
on top, left to right. -/
theorem readFrom_encodeEntries : ∀ (es : List (Bytes × Term)) (o : Nat)
    (E : List (Bytes × Value)) (st : List Frame) (d pos : Nat) (rest : Bytes),
    (∀ k t, (k, t) ∈ es → t.Fits limit (d + 1)) →
    (Term.encodeEntries es).length < Nat.pow 10 digitLimit →
    readFrom limit (.dict o E none :: st) (d + 1) pos (Term.encodeEntries es ++ rest) =
      readFrom limit (.dict o (Term.entryValues es E) none :: st) (d + 1)
        (pos + (Term.encodeEntries es).length) rest
  | [], o, E, st, d, pos, rest, _, _ => by simp [Term.encodeEntries, Term.entryValues]
  | (k, t) :: es, o, E, st, d, pos, rest, hfit, hsize => by
    simp only [Term.encodeEntries, List.length_append] at hsize
    simp only [Term.encodeEntries, List.append_assoc]
    rw [readFrom_stringBytes (by omega), resume_cons_of_add rfl,
      readFrom_encode t _ (d + 1) _ _ (hfit k t List.mem_cons_self) (by omega),
      resume_cons_of_add rfl,
      readFrom_encodeEntries es o (insertEntry k t.value E) st d _ rest
        (fun k' u hu ↦ hfit k' u (List.mem_cons_of_mem _ hu)) (by omega)]
    simp only [Term.entryValues, List.length_append]
    congr 1
    omega

end

end Completeness

section Soundness

variable {limit : Int}

/-- The texts of list items after those already read, then the closing `e`, each item fitting at
depth `d`. -/
def ItemsRest (limit : Int) (d : Nat) (t : Bytes) (ts : List Term) (r : Bytes) : Prop :=
  t = Term.encodeItems ts ++ leadEnd :: r ∧ ∀ u ∈ ts, u.Fits limit d

/-- The texts of dictionary entries after those already read, then the closing `e`, each term
fitting at depth `d`. -/
def EntriesRest (limit : Int) (d : Nat) (t : Bytes) (es : List (Bytes × Term)) (r : Bytes) :
    Prop :=
  t = Term.encodeEntries es ++ leadEnd :: r ∧ ∀ k u, (k, u) ∈ es → u.Fits limit d

/-- What the containers still open demand of the text `t` after a value `v` just completed at
depth `d`, for reading to end with `j` and the bytes `r`: each reads the rest of its container from
the text and hands the container's value to the one outside it; with none open, `v` is the
result. -/
def Closes (limit : Int) : List Frame → Nat → Value → Bytes → Value → Bytes → Prop
  | [], _, v, t, j, r => j = v ∧ r = t
  | .list _ items :: outer, d, v, t, j, r =>
    ∃ ts t', ItemsRest limit d t ts t' ∧
      Closes limit outer (d - 1) (.list ((v :: items).reverse ++ Term.itemValues ts)) t' j r
  | .dict _ E none :: outer, d, v, t, j, r =>
    ∃ k, v = .bytes k ∧ ∃ (u : Term) (t₁ : Bytes) (es : List (Bytes × Term)) (t' : Bytes),
      t = u.encode ++ t₁ ∧ u.Fits limit d ∧
      EntriesRest limit d t₁ es t' ∧
      Closes limit outer (d - 1) (.dict (Term.entryValues es (insertEntry k u.value E))) t' j r
  | .dict _ E (some k) :: outer, d, v, t, j, r =>
    ∃ es t', EntriesRest limit d t es t' ∧
      Closes limit outer (d - 1) (.dict (Term.entryValues es (insertEntry k v E))) t' j r

/-- Reading that succeeds from a byte starting a value reads a term that fits, and the open
containers take the rest. -/
def ValueSound (limit : Int) (inp : Bytes) : Prop :=
  ∀ st d pos j r, inp.head? ≠ some leadEnd → readFrom limit st d pos inp = .ok (j, r) →
    ∃ (u : Term) (t : Bytes), inp = u.encode ++ t ∧ u.Fits limit d ∧
      Closes limit st d u.value t j r

/-- Going on successfully after a completed value means the open containers take the rest. -/
def ContinueSound (limit : Int) (t : Bytes) : Prop :=
  ∀ v st d pos j r, resume limit v st d pos t = .ok (j, r) → Closes limit st d v t j r

/-- Reading never succeeds on an exhausted input. -/
theorem readFrom_nil_ne (st : List Frame) (d pos : Nat) (j : Value) (r : Bytes) :
    readFrom limit st d pos [] ≠ .ok (j, r) := by
  rw [readFrom]
  simp

/-- A key without its value cannot be closed. -/
theorem readFrom_pending_end_ne {o : Nat} {E : List (Bytes × Value)} {k : Bytes}
    {fs : List Frame} {d pos : Nat} {t : Bytes} {j : Value} {r : Bytes} :
    readFrom limit (.dict o E (some k) :: fs) d pos (leadEnd :: t) ≠ .ok (j, r) := by
  have h : stepAt limit (.dict o E (some k) :: fs) d pos leadEnd t =
      .fail (.malformed ⟨.missingValue, pos⟩) := rfl
  simp [readFrom_of_fail h]

section Rests

variable {st : List Frame} {d o pos : Nat} {t : Bytes} {j : Value} {r : Bytes}

/-- Reading that succeeds with a list on top reads the texts of more items that fit and the
closing `e`, and the containers outside take what follows. -/
theorem listRest_sound {items : List Value} (hv : ValueSound limit t)
    (hc : ∀ t' : Bytes, t'.length < t.length → ContinueSound limit t')
    (h : readFrom limit (.list o items :: st) d pos t = .ok (j, r)) :
    ∃ ts t', ItemsRest limit d t ts t' ∧
      Closes limit st (d - 1) (.list (items.reverse ++ Term.itemValues ts)) t' j r := by
  cases t with
  | nil => exact absurd h (readFrom_nil_ne _ _ _ _ _)
  | cons b t =>
    by_cases hb : b = leadEnd
    · -- the list closes here
      subst hb
      rw [readFrom_close (by simp)] at h
      have hcl := hc t (by simp) _ _ _ _ _ _ h
      exact ⟨[], t, ⟨by simp, by simp⟩, by simpa [Frame.close, Term.itemValues] using hcl⟩
    · obtain ⟨u, t₁, htext, hfit, hcl⟩ := hv _ _ _ _ _ (by simpa using hb) h
      obtain ⟨ts, t', ⟨hrest, hfits⟩, hcl⟩ := hcl
      refine ⟨u :: ts, t', ⟨?_, ?_⟩, ?_⟩
      · rw [htext, hrest]
        simp [Term.encodeItems]
      · intro w hw
        rcases List.mem_cons.mp hw with rfl | hw
        · exact hfit
        · exact hfits w hw
      · simpa [Term.itemValues] using hcl

/-- Reading that succeeds with a dictionary on top, no key pending, reads the texts of more
entries whose terms fit and the closing `e`, and the containers outside take what follows. -/
theorem dictRest_sound {E : List (Bytes × Value)} (hv : ValueSound limit t)
    (hc : ∀ t' : Bytes, t'.length < t.length → ContinueSound limit t')
    (h : readFrom limit (.dict o E none :: st) d pos t = .ok (j, r)) :
    ∃ es t', EntriesRest limit d t es t' ∧
      Closes limit st (d - 1) (.dict (Term.entryValues es E)) t' j r := by
  cases t with
  | nil => exact absurd h (readFrom_nil_ne _ _ _ _ _)
  | cons b t =>
    by_cases hb : b = leadEnd
    · -- the dictionary closes here
      subst hb
      rw [readFrom_close (by simp)] at h
      have hcl := hc t (by simp) _ _ _ _ _ _ h
      exact ⟨[], t, ⟨by simp [Term.encodeEntries], by simp⟩,
        by simpa [Frame.close, Term.entryValues] using hcl⟩
    · obtain ⟨u, t₁, htext, -, hcl⟩ := hv _ _ _ _ _ (by simpa using hb) h
      obtain ⟨k, hk, u₂, t₂, es, t', htext₂, hfit₂, ⟨hrest, hfits⟩, hcl⟩ := hcl
      -- the first term read is the key, a byte string
      obtain rfl := Term.eq_str_of_value hk
      refine ⟨(k, u₂) :: es, t', ⟨?_, ?_⟩, ?_⟩
      · rw [htext, htext₂, hrest]
        simp [Term.encode, Term.encodeEntries]
      · intro k' w hw
        rcases List.mem_cons.mp hw with hw | hw
        · cases hw
          exact hfit₂
        · exact hfits k' w hw
      · simpa [Term.entryValues] using hcl

end Rests

/-- What follows a nonempty front of a text is shorter than the text. -/
theorem length_drop_lt_of_eq {tail pre : Bytes} {k : Nat} (h : tail = pre ++ tail.drop k)
    (hpre : pre ≠ []) : (tail.drop k).length < tail.length := by
  have hlen := congrArg List.length h
  have hpos := List.length_pos_iff.mpr hpre
  simp only [List.length_append] at hlen
  omega

/-- A value read from a text that does not start with `e` is a term that fits, written at the
front of the text, once shorter texts are known to read soundly. -/
theorem valueSound_of {inp : Bytes}
    (ih : ∀ t : Bytes, t.length < inp.length → ValueSound limit t ∧ ContinueSound limit t) :
    ValueSound limit inp := by
  intro st d pos j r hhead h
  cases inp with
  | nil => exact absurd h (readFrom_nil_ne _ _ _ _ _)
  | cons b tail =>
    have hb : b ≠ leadEnd := by simpa using hhead
    have hshort : ∀ t : Bytes, t.length ≤ tail.length → ValueSound limit t ∧ ContinueSound limit t :=
      fun t ht ↦ ih t (by simp; omega)
    have hc : ∀ t : Bytes, t.length < tail.length → ContinueSound limit t :=
      fun t ht ↦ (hshort t (Nat.le_of_lt ht)).2
    by_cases hopen : b = leadList ∨ b = leadDict
    · by_cases hd : (d : Int) < limit
      · rw [readFrom_open hopen hd] at h
        rcases hopen with rfl | rfl
        · obtain ⟨ts, t', ⟨hrest, hfits⟩, hcl⟩ :=
            listRest_sound (hshort tail (Nat.le_refl _)).1 hc (by simpa using h)
          exact ⟨.list ts, t', by simp [Term.encode, hrest], Term.fits_list hd hfits,
            by simpa [Term.value] using hcl⟩
        · obtain ⟨es, t', ⟨hrest, hfits⟩, hcl⟩ :=
            dictRest_sound (hshort tail (Nat.le_refl _)).1 hc (by simpa using h)
          exact ⟨.dict es, t', by simp [Term.encode, hrest], Term.fits_dict hd hfits,
            by simpa [Term.value] using hcl⟩
      · -- too deep to open
        simp [readFrom_of_fail (stepAt_open_deep st pos hopen (Int.not_lt.mp hd) tail)] at h
    by_cases hi : b = leadInt
    · subst hi
      cases hn : readInteger pos tail with
      | error e => simp [readFrom_of_fail (stepAt_int_error hn)] at h
      | ok p =>
        obtain ⟨n, k⟩ := p
        obtain ⟨lo, hi, htail, -⟩ := eq_of_readInteger hn
        rw [readFrom_of_deliver (stepAt_int hn)] at h
        have hshorter := length_drop_lt_of_eq
          (by simpa using htail : tail = (intBytes n ++ [leadEnd]) ++ tail.drop k) (by simp)
        have hcl := hc (tail.drop k) hshorter _ _ _ _ _ _ h
        refine ⟨.int n lo hi, tail.drop k, ?_, Or.inl rfl, by simpa [Term.value] using hcl⟩
        nth_rewrite 1 [htail]
        simp [Term.encode]
    cases hdig : isDigit b
    · simp [readFrom_of_fail (stepAt_other st d pos hb hopen hi hdig tail)] at h
    cases hs : readString pos b tail with
    | error e => simp [readFrom_of_fail (stepAt_digit_error hdig hs)] at h
    | ok p =>
      obtain ⟨s, k⟩ := p
      obtain ⟨more, hdec, htail, -⟩ := eq_of_readString hdig hs
      rw [readFrom_of_deliver (stepAt_digit hdig hs)] at h
      have hshorter := length_drop_lt_of_eq
        (by simpa using htail : tail = (more ++ colon :: s) ++ tail.drop k) (by simp)
      have hcl := hc (tail.drop k) hshorter _ _ _ _ _ _ h
      refine ⟨.str s, tail.drop k, ?_, Or.inl rfl, by simpa [Term.value] using hcl⟩
      nth_rewrite 1 [htail]
      simp [Term.encode, stringBytes, hdec]

/-- Going on from a text that reads soundly as a value, once shorter texts are known to go on
soundly, is sound. -/
theorem continueSound_of {t : Bytes} (hv : ValueSound limit t)
    (hc : ∀ t' : Bytes, t'.length < t.length → ContinueSound limit t') :
    ContinueSound limit t := by
  intro v st d pos j r h
  cases st with
  | nil =>
    simp only [resume_nil, Except.ok.injEq, Prod.mk.injEq] at h
    exact ⟨h.1.symm, h.2.symm⟩
  | cons f fs =>
    cases f with
    | list o items =>
      rw [resume_cons_of_add rfl] at h
      exact listRest_sound hv hc h
    | dict o E pending =>
      cases pending with
      | some k =>
        rw [resume_cons_of_add rfl] at h
        exact dictRest_sound hv hc h
      | none =>
        -- a key is expected: a byte string, followed by the text of its value
        cases v with
        | bytes k =>
          rw [resume_cons_of_add rfl] at h
          refine ⟨k, rfl, ?_⟩
          have hhead : t.head? ≠ some leadEnd := by
            rintro hhead
            obtain ⟨t', rfl⟩ : ∃ t', t = leadEnd :: t' := by
              cases t with
              | nil => simp at hhead
              | cons b t' =>
                simp only [List.head?_cons, Option.some.injEq] at hhead
                exact ⟨t', by rw [hhead]⟩
            exact readFrom_pending_end_ne h
          obtain ⟨u, t₁, htext, hfit, es, t', hrest, hcl⟩ := hv _ _ _ _ _ hhead h
          exact ⟨u, t₁, es, t', htext, hfit, hrest, hcl⟩
        | int n => simp [resume, deliver, Frame.add] at h
        | list items => simp [resume, deliver, Frame.add] at h
        | dict entries => simp [resume, deliver, Frame.add] at h

/-- Reading is sound on every text: by strong induction on its length. -/
theorem sound_of_length (n : Nat) :
    ∀ t : Bytes, t.length ≤ n → ValueSound limit t ∧ ContinueSound limit t := by
  induction n using Nat.strongRecOn with
  | ind n ih =>
    intro t ht
    have hshort : ∀ t' : Bytes, t'.length < t.length →
        ValueSound limit t' ∧ ContinueSound limit t' :=
      fun t' ht' ↦ ih t'.length (by omega) t' (Nat.le_refl _)
    have hv := valueSound_of hshort
    exact ⟨hv, continueSound_of hv fun t' ht' ↦ (hshort t' ht').2⟩

/-- What the reader accepts from a text that does not start with `e` is a term that fits,
written at the front of the text. -/
theorem readFrom_sound {inp : Bytes} {st : List Frame} {d pos : Nat} {j : Value} {r : Bytes}
    (hhead : inp.head? ≠ some leadEnd) (h : readFrom limit st d pos inp = .ok (j, r)) :
    ∃ (u : Term) (t : Bytes), inp = u.encode ++ t ∧ u.Fits limit d ∧
      Closes limit st d u.value t j r :=
  (sound_of_length inp.length inp (Nat.le_refl _)).1 st d pos j r hhead h

end Soundness


section Parse

variable {limit : Int}

/-- An `e` cannot start the outermost value. -/
theorem readFrom_top_end_ne (d pos : Nat) (t : Bytes) (j : Value) (r : Bytes) :
    readFrom limit [] d pos (leadEnd :: t) ≠ .ok (j, r) := by
  have h : stepAt limit [] d pos leadEnd t = .fail (.malformed ⟨.unexpectedByte leadEnd, pos⟩) :=
    rfl
  simp [readFrom_of_fail h]

/-- Reading from the top the text of a term that fits reads exactly that text. -/
theorem parse_encode {t : Term} (hfit : t.Fits limit 0)
    (hsize : t.encode.length < Nat.pow 10 digitLimit) (rest : Bytes) :
    parse (t.encode ++ rest) limit = .ok (t.value, rest) := by
  unfold parse
  rw [readFrom_encode limit t [] 0 0 rest hfit hsize, resume_nil]

/-- Whatever is read from the top is the value of a term that fits, whose text comes first. -/
theorem parse_sound {data : Bytes} {v : Value} {rest : Bytes}
    (h : parse data limit = .ok (v, rest)) :
    ∃ t : Term, data = t.encode ++ rest ∧ t.Fits limit 0 ∧ v = t.value := by
  have hhead : data.head? ≠ some leadEnd := by
    intro hhead
    obtain ⟨t, rfl⟩ := List.head?_eq_some_iff.mp hhead
    exact readFrom_top_end_ne _ _ _ _ _ h
  obtain ⟨u, t, htext, hfit, hv, hr⟩ := readFrom_sound hhead h
  exact ⟨u, hr ▸ htext, hfit, hv⟩

/-- The grammar is prefix-free: a text begins with the text of at most one term. -/
theorem encode_prefix_unique {t t' : Term} {r r' : Bytes} (h : t.encode ++ r = t'.encode ++ r')
    (hsize : (t.encode ++ r).length < Nat.pow 10 digitLimit) :
    t.encode = t'.encode ∧ r = r' := by
  -- read under a limit that both terms fit
  have hfit : t.Fits (max t.depth t'.depth) 0 := Or.inr (by simpa using Int.le_max_left _ _)
  have hfit' : t'.Fits (max t.depth t'.depth) 0 := Or.inr (by simpa using Int.le_max_right _ _)
  have hlen : t.encode.length < Nat.pow 10 digitLimit := by
    simp only [List.length_append] at hsize
    omega
  have hlen' : t'.encode.length < Nat.pow 10 digitLimit := by
    rw [h] at hsize
    simp only [List.length_append] at hsize
    omega
  have hread := parse_encode hfit hlen r
  rw [h, parse_encode hfit' hlen' r'] at hread
  obtain ⟨-, hr⟩ := Prod.mk.inj (Except.ok.inj hread)
  subst hr
  exact ⟨List.append_cancel_right h, rfl⟩

/-- `decode` gives a value exactly when `parse` reads it and leaves nothing. -/
theorem decode_eq_ok_iff (data : Bytes) (v : Value) :
    decode data limit = .ok v ↔ parse data limit = .ok (v, []) := by
  unfold decode
  split <;> simp_all

/-- Reading accepts exactly the grammar of `Term`. For every text shorter than the largest length
a prefix within the digit limit can announce (so for every text that can be held): `parse` reads
a value and leaves `rest` exactly when the text is the text of a term that fits the depth limit
followed by `rest`, the value being the term's; no other term's text starts the text; and
`decode` gives a value exactly when `parse` leaves nothing after it. -/
theorem parse_accepts_exactly_the_grammar (data : Bytes) (limit : Int)
    (hsize : data.length < Nat.pow 10 digitLimit) :
    (∀ v rest, parse data limit = .ok (v, rest) ↔
      ∃ t : Term, data = t.encode ++ rest ∧ t.Fits limit 0 ∧ v = t.value) ∧
    (∀ (t t' : Term) (r r' : Bytes), data = t.encode ++ r → data = t'.encode ++ r' →
      t.encode = t'.encode ∧ r = r') ∧
    (∀ v, decode data limit = .ok v ↔ parse data limit = .ok (v, [])) := by
  refine ⟨fun v rest ↦ ⟨parse_sound, ?_⟩, ?_, decode_eq_ok_iff data⟩
  · rintro ⟨t, rfl, hfit, rfl⟩
    have hlen : t.encode.length < Nat.pow 10 digitLimit := by
      simp only [List.length_append] at hsize
      omega
    exact parse_encode hfit hlen rest
  · rintro t t' r r' rfl h
    exact encode_prefix_unique h hsize

/-- The list of one integer, `li7ee`, is read back under a depth limit of one. -/
theorem parse_accepts_exactly_the_grammar_list_of_seven :
    [108, 105, 55, 101, 101].length < Nat.pow 10 digitLimit ∧
      (∀ v rest, parse [108, 105, 55, 101, 101] 1 = .ok (v, rest) ↔
        ∃ t : Term, [108, 105, 55, 101, 101] = t.encode ++ rest ∧ t.Fits 1 0 ∧ v = t.value) ∧
      (∀ (t t' : Term) (r r' : Bytes), [108, 105, 55, 101, 101] = t.encode ++ r →
        [108, 105, 55, 101, 101] = t'.encode ++ r' → t.encode = t'.encode ∧ r = r') ∧
      (∀ v, decode [108, 105, 55, 101, 101] 1 = .ok v ↔
        parse [108, 105, 55, 101, 101] 1 = .ok (v, [])) :=
  have hsize : [108, 105, 55, 101, 101].length < Nat.pow 10 digitLimit :=
    lt_pow_digitLimit (by decide)
  ⟨hsize, parse_accepts_exactly_the_grammar _ 1 hsize⟩

end Parse

end TorrentPrune.Bencode
