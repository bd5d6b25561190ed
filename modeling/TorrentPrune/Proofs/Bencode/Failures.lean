import TorrentPrune.Proofs.Bencode.Canonical

/-!
# Where reading bencode fails

Reading stops at the first defect it meets, and every failure can be found in the input
(`ReadFailure.Located`). A malformed input fails with a decoding error whose offset lies within
the input: at its very end exactly when the input ran out before the next value or closing `e`,
and with a too-short byte string exactly where a well-formed length prefix announces more bytes
than follow its colon. The one failure that is not a decoding error is number text beyond the
digit limit, which stands at canonical integer text or a canonical length prefix of more than
`digitLimit` digits (`reading_fails_at_located_defects`).

The proof carries one invariant through the reader's loop: the position is where the remaining
input starts in the whole input, and every open container stands at its lead byte. One step
keeps it and fails only at a located defect (`stepAt_fail_located`, `stepAt_next_keeps`); the
functional induction of `readFrom` then covers the whole run.

Number text beyond the digit limit is refused with the digit limit, whatever the depth limit,
and not with a decoding error (`parse_long_integer_text`).
-/

namespace TorrentPrune.Bencode

open TorrentPrune.Number

/-! ### Located failures -/

/-- At `pos`, `data` holds a well-formed length prefix declaring `needed` bytes, of which only
`available` follow its colon. -/
def LengthShortAt (data : Bytes) (pos needed available : Nat) : Prop :=
  ∃ digits after, data.drop pos = digits ++ colon :: after ∧ isNaturalText digits = true ∧
    needed = digitsValue digits ∧ available = after.length ∧ available < needed

/-- At `pos`, `data` holds canonical integer text `i…e`, or a canonical length prefix and its
colon, written with `count` digits. -/
def NumeralAt (data : Bytes) (pos count : Nat) : Prop :=
  (∃ sign digits rest, data.drop pos = leadInt :: (sign ++ digits ++ leadEnd :: rest) ∧
      (sign = [] ∨ sign = [minus]) ∧ isIntegerText (sign ++ digits) = true ∧
      count = digits.length) ∨
    ∃ digits rest, data.drop pos = digits ++ colon :: rest ∧ isNaturalText digits = true ∧
      count = digits.length

/-- The problems that only the end of the input raises. -/
def Problem.endsInput : Problem → Bool
  | .endOfData | .unclosedList | .unclosedDict => true
  | _ => false

/-- The input ran out before the next lead byte: the problem is one that only the end raises, or
a key's missing value with no byte left to stand at. -/
def DecodeError.RanOut (data : Bytes) (e : DecodeError) : Prop :=
  e.problem.endsInput = true ∨ (e.problem = .missingValue ∧ data.length ≤ e.offset)

/-- Where a decoding error of `data` stands. -/
structure DecodeError.Located (data : Bytes) (e : DecodeError) : Prop where
  /-- The offset lies within the input, its end included. -/
  offset_le : e.offset ≤ data.length
  /-- The error stands at the end exactly when the input ran out. -/
  at_end_iff : e.offset = data.length ↔ e.RanOut data
  /-- A byte string is too short exactly at a length prefix announcing more than follows. -/
  tooShort_iff : ∀ needed available,
    e.problem = .stringTooShort needed available ↔ LengthShortAt data e.offset needed available

/-- Where a failure of reading `data` stands: a decoding error located in the input, or number
text of more digits than the limit at some offset. -/
def ReadFailure.Located (data : Bytes) : ReadFailure → Prop
  | .malformed e => e.Located data
  | .tooManyDigits n => digitLimit < n ∧ ∃ pos, NumeralAt data pos n

/-- An open container stands at its lead byte. -/
def Frame.OpenedIn (data : Bytes) : Frame → Prop
  | .list o _ => data[o]? = some leadList
  | .dict o _ _ => data[o]? = some leadDict

section Positions

variable {data tail : Bytes} {pos : Nat} {b : UInt8}

/-- The byte at the front of the input from `pos` is the input's byte at `pos`. -/
theorem getElem?_of_drop (h : data.drop pos = b :: tail) : data[pos]? = some b := by
  have hfront := congrArg (·[0]?) h
  simpa [List.getElem?_drop] using hfront

/-- A byte of the input stands before its end. -/
theorem lt_length_of_getElem? {o : Nat} (h : data[o]? = some b) : o < data.length :=
  (List.getElem?_eq_some_iff.mp h).1

/-- What follows the byte at `pos` is the input from the next position. -/
theorem drop_succ_of_drop (h : data.drop pos = b :: tail) (k : Nat) :
    data.drop (pos + 1 + k) = tail.drop k := by
  rw [← List.drop_drop, ← List.drop_drop, h]
  rfl

/-- Canonical decimal text is a nonempty run of digits. -/
theorem digits_of_isNaturalText {ds : Bytes} (h : isNaturalText ds = true) :
    ∃ d rest, ds = d :: rest ∧ ∀ x ∈ d :: rest, isDigit x = true := by
  cases ds with
  | nil => simp [isNaturalText] at h
  | cons d rest =>
    refine ⟨d, rest, rfl, ?_⟩
    rw [isNaturalText_cons] at h
    split at h
    · next h0 =>
      simp only [beq_iff_eq] at h0
      simp only [List.isEmpty_iff] at h
      subst h0 h
      simp [isDigit]
    · simpa using h

/-- A length prefix starts with a digit. -/
theorem LengthShortAt.lead {n a : Nat} (h : LengthShortAt data pos n a) :
    ∃ x, data[pos]? = some x ∧ isDigit x = true := by
  obtain ⟨ds, after, hd, hnat, -⟩ := h
  obtain ⟨x, rest, rfl, hdig⟩ := digits_of_isNaturalText hnat
  exact ⟨x, getElem?_of_drop hd, hdig x List.mem_cons_self⟩

/-- A short length prefix at `pos` is what the string reader sees there: the run of digits from
`pos` is canonical and followed by a colon, and the bytes after that colon are too few. -/
theorem LengthShortAt.read {n a : Nat} (h : LengthShortAt data pos n a)
    (hpos : data.drop pos = b :: tail) :
    isNaturalText (b :: tail.takeWhile isDigit) = true ∧
      ∃ after, tail.drop (tail.takeWhile isDigit).length = colon :: after ∧
        n = digitsValue (b :: tail.takeWhile isDigit) ∧ a = after.length ∧ a < n := by
  obtain ⟨ds, after, hd, hnat, hn, ha, hlt⟩ := h
  obtain ⟨x, rest, rfl, hdig⟩ := digits_of_isNaturalText hnat
  rw [hpos, List.cons_append] at hd
  obtain ⟨rfl, rfl⟩ := List.cons.inj hd
  -- the digits run up to the colon, which is no digit
  have htake : (rest ++ colon :: after).takeWhile isDigit = rest := by
    rw [List.takeWhile_append_of_pos fun y hy ↦ hdig y (List.mem_cons_of_mem _ hy)]
    simp [isDigit, colon]
  rw [htake]
  exact ⟨hnat, after, by simp, hn, ha, hlt⟩

end Positions

section Located

variable {data : Bytes} {e : DecodeError}

/-- A decoding error raised before the end of the input, with a problem that the end does not
raise, is located once its short-string problems are those of short length prefixes. -/
theorem DecodeError.located_before_end (hlt : e.offset < data.length)
    (hend : e.problem.endsInput = false)
    (hshort : ∀ n a, e.problem = .stringTooShort n a ↔ LengthShortAt data e.offset n a) :
    e.Located data := by
  refine ⟨Nat.le_of_lt hlt, ?_, hshort⟩
  -- the offset is a byte's, before the end, and the input did not run out there
  constructor
  · intro heq
    omega
  · rintro (h | ⟨-, hle⟩)
    · simp [h] at hend
    · omega

/-- A decoding error raised at a byte that is not a digit, with a problem that the end of the
input does not raise, is located. -/
theorem DecodeError.located_at_byte {x : UInt8} (hx : data[e.offset]? = some x)
    (hd : isDigit x = false) (hend : e.problem.endsInput = false)
    (hs : ∀ n a, e.problem ≠ .stringTooShort n a) : e.Located data := by
  apply DecodeError.located_before_end (lt_length_of_getElem? hx) hend
  intro n a
  constructor
  · intro h
    exact absurd h (hs n a)
  · intro h
    obtain ⟨y, hy, hyd⟩ := h.lead
    rw [hx] at hy
    cases hy
    simp [hd] at hyd

/-- A decoding error raised at the end of the input because it ran out is located. -/
theorem DecodeError.located_at_end (he : e.offset = data.length)
    (hp : e.problem.endsInput = true ∨ e.problem = .missingValue) : e.Located data := by
  have hs : ∀ n a, e.problem ≠ .stringTooShort n a := by
    intro n a h
    rcases hp with hp | hp <;> rw [h] at hp <;> simp [Problem.endsInput] at hp
  refine ⟨Nat.le_of_eq he, ⟨fun _ ↦ ?_, fun _ ↦ he⟩, ?_⟩
  · rcases hp with hp | hp
    · exact .inl hp
    · exact .inr ⟨hp, Nat.le_of_eq he.symm⟩
  · intro n a
    constructor
    · intro h
      exact absurd h (hs n a)
    · intro h
      obtain ⟨y, hy, -⟩ := h.lead
      rw [he] at hy
      simp at hy

end Located

/-! ### The number readers -/

section Numbers

variable {data tail : Bytes} {pos : Nat}

/-- Integer text that is canonical is a sign, at most a minus, followed by canonical digits;
the digits are what is left after a leading minus. -/
theorem sign_split_of_isIntegerText {body : Bytes} (h : isIntegerText body = true) :
    ∃ sign, (sign = [] ∨ sign = [minus]) ∧
      body = sign ++ (if (body.head? == some minus) = true then body.drop 1 else body) := by
  cases body with
  | nil => simp [isIntegerText] at h
  | cons x rest =>
    by_cases hx : x = minus
    · subst hx
      exact ⟨[minus], .inr rfl, by simp⟩
    · exact ⟨[], .inl rfl, by simp [hx]⟩

/-- The integer reader fails only at a located defect: a malformed integer at the `i` at `pos`,
or canonical integer text of more digits than the limit. -/
theorem readInteger_located (hpos : data.drop pos = leadInt :: tail) {f : ReadFailure}
    (h : readInteger pos tail = .error f) : f.Located data := by
  have hat : data[pos]? = some leadInt := getElem?_of_drop hpos
  have hnd : isDigit leadInt = false := by decide
  obtain ⟨hsplit, hstop⟩ := takeWhile_split (· != leadEnd) tail
  unfold readInteger at h
  simp only at h
  split at h
  · -- no closing `e`
    cases h
    exact DecodeError.located_at_byte hat hnd rfl (by simp)
  next hlen =>
  split at h
  · -- not canonical text
    cases h
    exact DecodeError.located_at_byte hat hnd rfl (by simp)
  next htext =>
  simp only [Bool.not_eq_true', Bool.not_eq_false] at htext
  obtain ⟨sign, hsign, hbody⟩ := sign_split_of_isIntegerText htext
  -- the digits are what follows a leading minus
  generalize (if ((tail.takeWhile (· != leadEnd)).head? == some minus) = true
    then (tail.takeWhile (· != leadEnd)).drop 1 else tail.takeWhile (· != leadEnd)) = digits
    at h hbody
  split at h
  · -- too many digits: the body is canonical integer text, closed by the first `e`
    next hlong =>
    cases h
    obtain ⟨x, rest, hdrop⟩ := List.exists_cons_of_ne_nil (l := tail.drop _) (by
      intro hnil
      rw [hnil, List.append_nil] at hsplit
      exact hlen (congrArg List.length hsplit).symm)
    have hx : x = leadEnd := by simpa using hstop x rest hdrop
    subst hx
    refine ⟨hlong, pos, .inl ⟨sign, digits, rest, ?_, hsign, hbody ▸ htext, rfl⟩⟩
    rw [hpos, ← hbody, ← hdrop, ← hsplit]
  · -- out of the 64-bit range
    rcases ite_eq_iff.mp h with ⟨-, h⟩ | ⟨-, h⟩
    · cases h
      exact DecodeError.located_at_byte hat hnd rfl (by simp)
    · cases h

/-- The string reader fails only at a located defect: a malformed length prefix at `pos`, a byte
string too short for its well-formed prefix, or a canonical prefix of more digits than the
limit. -/
theorem readString_located {first : UInt8} (hpos : data.drop pos = first :: tail)
    (hf : isDigit first = true) {f : ReadFailure} (h : readString pos first tail = .error f) :
    f.Located data := by
  have hlt : pos < data.length := lt_length_of_getElem? (getElem?_of_drop hpos)
  obtain ⟨hsplit, -⟩ := takeWhile_split isDigit tail
  -- a malformed prefix at `pos` that is no short length prefix is located
  have hat : ∀ p : Problem, p.endsInput = false → (∀ n a, p ≠ .stringTooShort n a) →
      (∀ n a, ¬LengthShortAt data pos n a) → (DecodeError.mk p pos).Located data := by
    intro p hend hs hno
    apply DecodeError.located_before_end hlt hend
    intro n a
    exact ⟨fun hp ↦ absurd hp (hs n a), fun hshort ↦ absurd hshort (hno n a)⟩
  unfold readString at h
  simp only at h
  split at h
  · -- the digits run to the end: no colon
    next hnil =>
    cases h
    refine hat _ rfl (by simp) fun n a hshort ↦ ?_
    obtain ⟨-, after, hafter, -⟩ := hshort.read hpos
    rw [hafter] at hnil
    cases hnil
  next c after hdrop =>
  split at h
  · -- the digits are followed by a byte other than a colon
    next hc =>
    cases h
    refine hat _ rfl (by simp) fun n a hshort ↦ ?_
    obtain ⟨-, after', hafter, -⟩ := hshort.read hpos
    rw [hafter] at hdrop
    obtain ⟨rfl, -⟩ := List.cons.inj hdrop
    simp at hc
  next hc =>
  have hc : c = colon := by simpa using hc
  subst hc
  -- the digits and their colon make a length prefix
  have hprefix : data.drop pos = (first :: tail.takeWhile isDigit) ++ colon :: after := by
    rw [hpos, List.cons_append, ← hdrop, ← hsplit]
  split at h
  · -- a leading zero
    next hzero =>
    cases h
    refine hat _ rfl (by simp) fun n a hshort ↦ ?_
    obtain ⟨hnat, -⟩ := hshort.read hpos
    simp only [Bool.and_eq_true, beq_iff_eq, Bool.not_eq_true', List.isEmpty_eq_false_iff] at hzero
    obtain ⟨rfl, hne⟩ := hzero
    obtain ⟨y, ys, hys⟩ := List.exists_cons_of_ne_nil hne
    rw [hys] at hnat
    simp [isNaturalText] at hnat
  next hzero =>
  -- without a leading zero the prefix is canonical
  have hnat : isNaturalText (first :: tail.takeWhile isDigit) = true := by
    rw [isNaturalText_cons]
    split
    · next h48 =>
      simp only [beq_iff_eq] at h48
      simpa [h48] using hzero
    · simp [hf, List.all_takeWhile]
  split at h
  · -- too many digits
    next hlong =>
    cases h
    exact ⟨hlong, pos, .inr ⟨_, after, hprefix, hnat, rfl⟩⟩
  split at h
  · -- a byte string longer than what follows its colon
    next hshort =>
    cases h
    apply DecodeError.located_before_end hlt rfl
    intro n a
    constructor
    · intro hp
      simp only [Problem.stringTooShort.injEq] at hp
      obtain ⟨rfl, rfl⟩ := hp
      exact ⟨_, after, hprefix, hnat, rfl, rfl, hshort⟩
    · intro hs
      obtain ⟨-, after', hafter, hn, ha, -⟩ := hs.read hpos
      rw [hafter] at hdrop
      obtain ⟨-, rfl⟩ := List.cons.inj hdrop
      simp [hn, ha]
  · cases h

end Numbers

/-! ### One step, and the whole run -/

section Steps

variable {data tail : Bytes} {limit : Int} {st : List Frame} {d pos : Nat} {b : UInt8}

/-- Adding a value to a container keeps where it stands. -/
theorem Frame.add_openedIn {fr g : Frame} {v : Value} (h : fr.add v = .ok g)
    (hfr : fr.OpenedIn data) : g.OpenedIn data := by
  cases fr with
  | list o items =>
    cases h
    exact hfr
  | dict o entries pending =>
    cases pending with
    | some k =>
      cases h
      exact hfr
    | none =>
      cases v with
      | bytes k =>
        cases h
        exact hfr
      | int n => cases h
      | list items => cases h
      | dict es => cases h

/-- Handing a value to the open containers fails only with a key that is not a byte string,
located at its dictionary's `d`. -/
theorem deliver_fail_located {v : Value} {k : Nat} {f : ReadFailure}
    (hst : ∀ fr ∈ st, fr.OpenedIn data) (h : deliver v st d k = .fail f) : f.Located data := by
  cases st with
  | nil => cases h
  | cons fr fs =>
    have hfr := hst fr List.mem_cons_self
    cases hadd : fr.add v with
    | ok g => simp [deliver, hadd] at h
    | error e =>
      simp only [deliver, hadd, Step.fail.injEq] at h
      subst h
      -- only a dictionary waiting for a key refuses a value
      cases fr with
      | list o items => cases hadd
      | dict o entries pending =>
        cases pending with
        | some key => cases hadd
        | none =>
          cases v with
          | bytes key => cases hadd
          | int n =>
            cases hadd
            exact DecodeError.located_at_byte hfr (by decide) rfl (by simp)
          | list items =>
            cases hadd
            exact DecodeError.located_at_byte hfr (by decide) rfl (by simp)
          | dict es =>
            cases hadd
            exact DecodeError.located_at_byte hfr (by decide) rfl (by simp)

/-- Handing a value on keeps every open container at its lead byte, and consumes nothing more. -/
theorem deliver_next_keeps {v : Value} {k : Nat} {st' : List Frame} {d' k' : Nat}
    (hst : ∀ fr ∈ st, fr.OpenedIn data) (h : deliver v st d k = .next st' d' k') :
    (∀ fr ∈ st', fr.OpenedIn data) ∧ k' = k := by
  cases st with
  | nil => cases h
  | cons fr fs =>
    cases hadd : fr.add v with
    | error e => simp [deliver, hadd] at h
    | ok g =>
      simp only [deliver, hadd, Step.next.injEq] at h
      obtain ⟨rfl, -, rfl⟩ := h
      refine ⟨fun x hx ↦ ?_, rfl⟩
      rcases List.mem_cons.mp hx with rfl | hx
      · exact Frame.add_openedIn hadd (hst fr List.mem_cons_self)
      · exact hst x (List.mem_cons_of_mem _ hx)

/-- A step at a byte that starts a value fails only at a located defect. -/
theorem startValue_fail_located (hpos : data.drop pos = b :: tail)
    (hst : ∀ fr ∈ st, fr.OpenedIn data) {f : ReadFailure}
    (h : startValue limit st d pos b tail = .fail f) : f.Located data := by
  have hat : data[pos]? = some b := getElem?_of_drop hpos
  unfold startValue at h
  split at h
  · -- a container opens, or is too deep
    next hopen =>
    split at h
    · cases h
      have hb : b = leadList ∨ b = leadDict := by simpa using hopen
      exact DecodeError.located_at_byte hat (by rcases hb with rfl | rfl <;> decide) rfl
        (by simp)
    · cases h
  split at h
  · -- an integer
    next hi =>
    have hi : b = leadInt := by simpa using hi
    subst hi
    split at h
    · exact deliver_fail_located hst h
    · next e he =>
      cases h
      exact readInteger_located hpos he
  split at h
  · -- a byte string
    next hdig =>
    split at h
    · exact deliver_fail_located hst h
    · next e he =>
      cases h
      exact readString_located hpos hdig he
  · -- a byte that starts nothing
    next hdig =>
    cases h
    exact DecodeError.located_at_byte hat (by simpa using hdig) rfl (by simp)

/-- What a completed read consumes lies within the bytes after its lead byte. -/
theorem startValue_next_keeps (hpos : data.drop pos = b :: tail)
    (hst : ∀ fr ∈ st, fr.OpenedIn data) {st' : List Frame} {d' k : Nat}
    (h : startValue limit st d pos b tail = .next st' d' k) :
    (∀ fr ∈ st', fr.OpenedIn data) ∧ k ≤ tail.length := by
  have hat : data[pos]? = some b := getElem?_of_drop hpos
  unfold startValue at h
  split at h
  · next hopen =>
    split at h
    · cases h
    · -- the new container stands at its lead byte
      cases h
      have hb : b = leadList ∨ b = leadDict := by simpa using hopen
      refine ⟨fun x hx ↦ ?_, Nat.zero_le _⟩
      rcases List.mem_cons.mp hx with rfl | hx
      · rcases hb with rfl | rfl
        · exact hat
        · exact hat
      · exact hst x hx
  split at h
  · -- an integer, delivered
    split at h
    · next n k₀ hread =>
      obtain ⟨hkeep, rfl⟩ := deliver_next_keeps hst h
      obtain ⟨-, -, htail, hk⟩ := eq_of_readInteger hread
      refine ⟨hkeep, ?_⟩
      have hlen := congrArg List.length htail
      simp only [List.length_append, List.length_cons] at hlen
      omega
    · cases h
  split at h
  · -- a byte string, delivered
    next hdig =>
    split at h
    · next s k₀ hread =>
      obtain ⟨hkeep, rfl⟩ := deliver_next_keeps hst h
      obtain ⟨more, -, htail, hk⟩ := eq_of_readString hdig hread
      refine ⟨hkeep, ?_⟩
      have hlen := congrArg List.length htail
      simp only [List.length_append, List.length_cons] at hlen
      omega
    · cases h
  · cases h

/-- One step of reading fails only at a located defect. -/
theorem stepAt_fail_located (hpos : data.drop pos = b :: tail)
    (hst : ∀ fr ∈ st, fr.OpenedIn data) {f : ReadFailure}
    (h : stepAt limit st d pos b tail = .fail f) : f.Located data := by
  cases st with
  | nil => exact startValue_fail_located hpos hst h
  | cons fr fs =>
    by_cases he : b = leadEnd
    · subst he
      by_cases hpend : ∃ o E k, fr = .dict o E (some k)
      · -- an `e` where a key waits for its value
        obtain ⟨o, E, k, rfl⟩ := hpend
        have hmiss : stepAt limit (.dict o E (some k) :: fs) d pos leadEnd tail =
            .fail (.malformed ⟨.missingValue, pos⟩) := rfl
        rw [hmiss] at h
        cases h
        exact DecodeError.located_at_byte (getElem?_of_drop hpos) (by decide) rfl (by simp)
      · -- an `e` closes the container on top
        simp only [not_exists] at hpend
        rw [stepAt_end hpend] at h
        exact deliver_fail_located (fun x hx ↦ hst x (List.mem_cons_of_mem _ hx)) h
    · rw [stepAt_of_ne he] at h
      exact startValue_fail_located hpos hst h

/-- One step of reading that goes on keeps every open container at its lead byte, and consumes
no more than the bytes after its lead byte. -/
theorem stepAt_next_keeps (hpos : data.drop pos = b :: tail)
    (hst : ∀ fr ∈ st, fr.OpenedIn data) {st' : List Frame} {d' k : Nat}
    (h : stepAt limit st d pos b tail = .next st' d' k) :
    (∀ fr ∈ st', fr.OpenedIn data) ∧ k ≤ tail.length := by
  cases st with
  | nil => exact startValue_next_keeps hpos hst h
  | cons fr fs =>
    by_cases he : b = leadEnd
    · subst he
      by_cases hpend : ∃ o E k, fr = .dict o E (some k)
      · obtain ⟨o, E, k, rfl⟩ := hpend
        cases h
      · -- closing the container on top consumes nothing after the `e`
        simp only [not_exists] at hpend
        rw [stepAt_end hpend] at h
        obtain ⟨hkeep, rfl⟩ := deliver_next_keeps (fun x hx ↦ hst x (List.mem_cons_of_mem _ hx)) h
        exact ⟨hkeep, Nat.zero_le _⟩
    · rw [stepAt_of_ne he] at h
      exact startValue_next_keeps hpos hst h

/-- A run of the reader from `pos`, where the rest of the input starts, with every open container
at its lead byte, fails only at a located defect. By the functional induction of `readFrom`: a
step that goes on keeps the invariant for the rest of the run. -/
theorem readFrom_located :
    ∀ st d pos inp, data.drop pos = inp → pos ≤ data.length → (∀ fr ∈ st, fr.OpenedIn data) →
      ∀ f, readFrom limit st d pos inp = .error f → f.Located data := by
  intro st d pos inp
  induction st, d, pos, inp using readFrom.induct limit with
  | case1 st d pos =>
    -- the input ran out: the error stands at its end
    intro hpos hle _ f h
    rw [readFrom.eq_1] at h
    cases h
    have hend : pos = data.length := by
      have := List.drop_eq_nil_iff.mp hpos
      omega
    apply DecodeError.located_at_end hend
    cases st with
    | nil => exact .inl rfl
    | cons fr fs =>
      cases fr with
      | list o items => exact .inl rfl
      | dict o entries pending =>
        cases pending with
        | some k => exact .inr rfl
        | none => exact .inl rfl
  | case2 st d pos b tail v k hstep =>
    intro _ _ _ f h
    rw [readFrom.eq_2, hstep] at h
    cases h
  | case3 st d pos b tail st' d' k hstep ih =>
    intro hpos _ hst f h
    rw [readFrom.eq_2, hstep] at h
    obtain ⟨hkeep, hk⟩ := stepAt_next_keeps hpos hst hstep
    have hlen : pos + 1 + tail.length = data.length := by
      have := congrArg List.length hpos
      simp at this
      omega
    exact ih (drop_succ_of_drop hpos k) (by omega) hkeep f h
  | case4 st d pos b tail f₀ hstep =>
    intro hpos _ hst f h
    rw [readFrom.eq_2, hstep] at h
    cases h
    exact stepAt_fail_located hpos hst hstep

end Steps

/-! ### Reading a whole input -/

/-- Every failure of `parse` is located in the input. -/
theorem parse_located {data : Bytes} {limit : Int} {f : ReadFailure}
    (h : parse data limit = .error f) : f.Located data :=
  readFrom_located [] 0 0 data rfl (Nat.zero_le _) (by simp) f h

/-- Reading bencode fails only at a located defect. Every failure of `parse`, whatever the depth
limit, is a decoding error whose offset lies within the input, stands at its end exactly when the
input ran out before the next lead byte, and reports a too-short byte string exactly at a
well-formed length prefix that announces more bytes than follow its colon (`needed` its value,
`available` those bytes); or it refuses canonical number text of more than `digitLimit` digits.
`decode` fails in the same ways, or with the bytes after a complete value, standing at the first
of them. -/
theorem reading_fails_at_located_defects (data : Bytes) (limit : Int) :
    (∀ f, parse data limit = .error f → f.Located data) ∧
      ∀ f, decode data limit = .error f → f.Located data ∨
        ∃ k, 0 < k ∧ k ≤ data.length ∧ f = .malformed ⟨.trailing k, data.length - k⟩ := by
  refine ⟨fun f h ↦ parse_located h, fun f h ↦ ?_⟩
  unfold decode at h
  split at h
  · next f₀ hp =>
    cases h
    exact .inl (parse_located hp)
  · cases h
  · next v rest hne hp =>
    cases h
    -- the rest is what follows the value's text
    obtain ⟨t, hdata, -, -⟩ := parse_sound hp
    have hpos : 0 < rest.length := List.length_pos_iff.mpr (by simpa using hne)
    refine .inr ⟨rest.length, hpos, ?_, rfl⟩
    rw [hdata, List.length_append]
    omega

/-! ### Number text beyond the digit limit -/

/-- Canonical integer text of more digits than the limit is refused with the digit limit, not
with a decoding error, at any depth limit and whatever follows it. -/
theorem parse_long_integer_text (limit : Int) {digits : Bytes}
    (hnat : isNaturalText digits = true) (hlong : digitLimit < digits.length) (rest : Bytes) :
    parse (leadInt :: (digits ++ leadEnd :: rest)) limit = .error (.tooManyDigits digits.length) := by
  obtain ⟨x, xs, rfl, hdig⟩ := digits_of_isNaturalText hnat
  -- the body runs to the first `e`, which no digit is
  have hbody : (x :: xs ++ leadEnd :: rest).takeWhile (· != leadEnd) = x :: xs := by
    rw [List.takeWhile_append_of_pos fun y hy ↦ by
      simpa using (ne_of_isDigit (hdig y hy)).1]
    simp
  have hlen : (x :: xs).length ≠ (x :: xs ++ leadEnd :: rest).length := by simp
  have hx : x ≠ minus := by
    intro hx
    have := hdig x List.mem_cons_self
    simp [hx, minus, isDigit] at this
  have hint : isIntegerText (x :: xs) = true := by simpa [isIntegerText, hx] using hnat
  have hneg : ((x :: xs).head? == some minus) = false := by simpa using hx
  have hread : readInteger 0 (x :: xs ++ leadEnd :: rest) =
      .error (.tooManyDigits (x :: xs).length) := by
    unfold readInteger
    simp only [hbody, hlen, if_false, hint, Bool.not_true, Bool.false_eq_true, hneg]
    rw [if_pos hlong]
  unfold parse
  exact readFrom_of_fail (stepAt_int_error hread)

/-- A run of ones is canonical decimal text, whatever its length. -/
theorem isNaturalText_replicate_one (n : Nat) :
    isNaturalText (List.replicate (n + 1) (49 : UInt8)) = true := by
  rw [List.replicate_succ, isNaturalText_cons]
  simp [isDigit, List.all_replicate]

/-- Integer text of 4301 ones, one digit beyond the limit, is refused with the digit limit
instead of a decoding error. -/
theorem parse_refuses_integer_of_4301_digits :
    parse (leadInt :: (List.replicate 4301 49 ++ [leadEnd])) defaultDepthLimit =
      .error (.tooManyDigits 4301) := by
  have hlong : digitLimit < (List.replicate (4300 + 1) (49 : UInt8)).length := by
    rw [List.length_replicate]
    decide
  have h := parse_long_integer_text defaultDepthLimit (isNaturalText_replicate_one 4300) hlong []
  rw [List.length_replicate] at h
  exact h

end TorrentPrune.Bencode
