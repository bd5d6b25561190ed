import TorrentPrune.Proofs.Json.Document

/-!
# The text a document is written as

Settings are written to their file in pieces, one container opening at a time, and each piece is
encoded on its own. The pieces join to the indented text of the document
(`toList_join_piecesAt`), so the bytes that reach the file are those of that text. Every
character of the text is a line break or no control character, and it is ASCII unless it is a
character of one of the strings the document holds (`writtenChar_writeAt`): what the writer adds
around the strings is plain ASCII, and the strings themselves are written as they are.
-/

namespace TorrentPrune.Json

open TorrentPrune.Number

/-! ### Writing in pieces -/

section Pieces

variable {n : Nat}

mutual
/-- The pieces of a value join to its text. -/
theorem toList_join_piecesAt (level : Nat) : ∀ v : Value,
    (String.join (v.piecesAt n level)).toList = (v.writeAt ⟨some n, false⟩ level).toList
  | .null => by simp [Value.piecesAt]
  | .bool b => by simp [Value.piecesAt]
  | .int m => by simp [Value.piecesAt]
  | .float x => by simp [Value.piecesAt]
  | .str s => by simp [Value.piecesAt]
  | .array [] => by simp [Value.piecesAt, Value.writeAt, writeItems, enclose]
  | .array (v :: vs) => by
    have h := toList_join_itemPieces level ("[" ++ lineBreak n (level + 1)) v vs
    rw [String.toList_join] at h
    simp [Value.piecesAt, h, toList_writeAt_array_cons]
  | .object [] => by simp [Value.piecesAt, Value.writeAt, writeMembers, enclose]
  | .object (m :: ms) => by
    have h := toList_join_memberPieces level true m ms
    rw [String.toList_join] at h
    simp [Value.piecesAt, h, toList_writeAt_object_cons]
termination_by v => sizeOf v

/-- The pieces of array items join to the first item's text after `lead`, and the text of the
others. -/
theorem toList_join_itemPieces (level : Nat) (lead : String) : ∀ (v : Value) (vs : List Value),
    (String.join (itemPieces n level lead (v :: vs))).toList =
      lead.toList ++ (v.writeAt ⟨some n, false⟩ (level + 1)).toList ++ laterItems n level vs
  | v, vs => by
    have hv : (String.join (if v.isContainer then lead :: v.piecesAt n (level + 1)
        else [lead ++ v.writeAt ⟨some n, false⟩ (level + 1)])).toList =
        lead.toList ++ (v.writeAt ⟨some n, false⟩ (level + 1)).toList := by
      split
      · rw [String.join_cons, String.toList_append, toList_join_piecesAt (level + 1) v]
      · simp
    have hvs : (String.join (itemPieces n level ("," ++ lineBreak n (level + 1)) vs)).toList =
        laterItems n level vs := by
      cases vs with
      | nil => simp [itemPieces, laterItems]
      | cons w ws =>
        rw [toList_join_itemPieces level _ w ws]
        simp [laterItems]
    rw [itemPieces, String.toList_join, List.flatMap_append, ← String.toList_join, hv,
      ← String.toList_join, hvs]
termination_by v vs => sizeOf v + sizeOf vs + 1

/-- The pieces of object members join to the first member's text, after a separator unless it
is the `first`, and the text of the others. -/
theorem toList_join_memberPieces (level : Nat) (first : Bool) :
    ∀ (m : String × Value) (ms : List (String × Value)),
    (String.join (memberPieces n level first (m :: ms))).toList =
      (if first then [] else ',' :: (lineBreak n (level + 1)).toList) ++ memberText n level m ++
        laterMembers n level ms
  | (k, v), ms => by
    have hv : (if v.isContainer then v.piecesAt n (level + 1)
        else [v.writeAt ⟨some n, false⟩ (level + 1)]).flatMap String.toList =
        (v.writeAt ⟨some n, false⟩ (level + 1)).toList := by
      split
      · rw [← String.toList_join]
        exact toList_join_piecesAt (level + 1) v
      · simp
    have hms : (memberPieces n level false ms).flatMap String.toList = laterMembers n level ms := by
      cases ms with
      | nil => simp [memberPieces, laterMembers]
      | cons m' ms' =>
        rw [← String.toList_join, toList_join_memberPieces level false m' ms']
        simp [laterMembers]
    rw [memberPieces, String.toList_join]
    simp only [List.flatMap_append, hv, hms]
    cases first <;> simp [memberText, lineBreak]
termination_by m ms => sizeOf m + sizeOf ms + 1
end

end Pieces

/-! ### The characters written -/

mutual
/-- The strings a value holds, member names included, in the order they are written. -/
def Value.texts : Value → List String
  | .str s => [s]
  | .array items => itemTexts items
  | .object members => memberTexts members
  | _ => []

/-- The strings held by array items. -/
def itemTexts : List Value → List String
  | [] => []
  | v :: vs => v.texts ++ itemTexts vs

/-- The strings held by object members, each name before its value's. -/
def memberTexts : List (String × Value) → List String
  | [] => []
  | (k, v) :: ms => k :: v.texts ++ memberTexts ms
end

/-- A character of written text: a line break or no control character, and ASCII or a character
of one of the strings written. -/
def WrittenChar (texts : List String) (d : Char) : Prop :=
  (d = '\n' ∨ 0x20 ≤ d.toNat) ∧ (d.toNat < 0x80 ∨ ∃ s ∈ texts, d ∈ s.toList)

theorem WrittenChar.mono {ts ts' : List String} (h : ∀ s ∈ ts, s ∈ ts') {d : Char}
    (hd : WrittenChar ts d) : WrittenChar ts' d := by
  refine ⟨hd.1, ?_⟩
  rcases hd.2 with hd | ⟨s, hs, hd⟩
  · exact .inl hd
  · exact .inr ⟨s, h s hs, hd⟩

theorem WrittenChar.of_printable (ts : List String) {d : Char} (h : 0x20 ≤ d.toNat ∧ d.toNat < 0x80) :
    WrittenChar ts d :=
  ⟨.inr h.1, .inl h.2⟩

/-- Characters checked one by one, a computation that `decide` runs on a fixed text. -/
theorem writtenChar_of_all (ts : List String) {l : List Char}
    (h : (l.all fun d ↦ decide ((d = '\n' ∨ 0x20 ≤ d.toNat) ∧ d.toNat < 0x80)) = true) {d : Char}
    (hd : d ∈ l) : WrittenChar ts d := by
  have h' := of_decide_eq_true (List.all_eq_true.mp h d hd)
  exact ⟨h'.1, .inl h'.2⟩

section Chars

variable {n : Nat}

theorem writtenChar_lineBreak (ts : List String) (level : Nat) {d : Char}
    (hd : d ∈ (lineBreak n level).toList) : WrittenChar ts d := by
  rw [toList_lineBreak, List.mem_cons, List.mem_replicate] at hd
  rcases hd with rfl | ⟨-, rfl⟩
  · exact ⟨.inl rfl, .inl (by decide)⟩
  · exact .of_printable ts (by decide)

theorem writtenChar_toString_int (ts : List String) (m : Int) {d : Char}
    (hd : d ∈ (toString m).toList) : WrittenChar ts d := by
  rw [toList_toString_int, List.mem_append] at hd
  rcases hd with hd | hd
  · exact .of_printable ts (ascii_of_signText hd)
  · exact .of_printable ts (ascii_of_isDigitChar (allDigits_toDigits _ d hd))

theorem writtenChar_writeFloat (ts : List String) (x : Binary64) {d : Char}
    (hd : d ∈ (writeFloat x).toList) : WrittenChar ts d := by
  unfold writeFloat at hd
  by_cases hnan : x.isNaN = true
  · rw [if_pos hnan] at hd
    exact writtenChar_of_all ts (by decide) hd
  rw [if_neg hnan] at hd
  by_cases hinf : x.isInfinite = true
  · rw [if_pos hinf] at hd
    split at hd
    · exact writtenChar_of_all ts (by decide) hd
    · exact writtenChar_of_all ts (by decide) hd
  rw [if_neg hinf] at hd
  obtain ⟨T, D, E, htext, hshape⟩ := shortest_shape (isFinite_of_not_isNaN hnan hinf)
  rw [htext, List.mem_append] at hd
  rcases hd with hd | hd
  · exact .of_printable ts (ascii_of_signText hd)
  · rcases hshape.mem hd with h | rfl | rfl | rfl | rfl
    · exact .of_printable ts (ascii_of_isDigitChar h)
    all_goals exact .of_printable ts (by decide)

theorem writtenChar_writeString (s : String) {d : Char} (hd : d ∈ (writeString false s).toList) :
    WrittenChar [s] d := by
  rw [toList_writeString] at hd
  simp only [List.mem_cons, List.mem_append, List.mem_flatMap, List.not_mem_nil, or_false] at hd
  rcases hd with rfl | ⟨c, hc, hd⟩ | rfl
  · exact .of_printable _ (by decide)
  · -- an escape is printable ASCII, and a character written as itself is no control character
    obtain ⟨hlo, hd⟩ := mem_escapedChars hd
    rcases hd with rfl | h
    · exact ⟨.inr hlo, .inr ⟨s, List.mem_singleton_self s, hc⟩⟩
    · exact .of_printable _ ⟨hlo, h⟩
  · exact .of_printable _ (by decide)

mutual
/-- Every character of a value's text is written for a string of the value, or is ASCII, and none
is a control character but the line break. -/
theorem writtenChar_writeAt (level : Nat) : ∀ (v : Value) {d : Char},
    d ∈ (v.writeAt ⟨some n, false⟩ level).toList → WrittenChar v.texts d
  | .null, _, hd => by
    rw [Value.writeAt] at hd
    exact writtenChar_of_all _ (by decide) hd
  | .bool b, _, hd => by
    cases b <;> simp only [Value.writeAt, Bool.false_eq_true, if_false, if_true] at hd <;>
      exact writtenChar_of_all _ (by decide) hd
  | .int m, _, hd => writtenChar_toString_int _ m hd
  | .float x, _, hd => writtenChar_writeFloat _ x hd
  | .str s, _, hd => writtenChar_writeString s hd
  | .array [], _, hd => by
    simp [Value.writeAt, writeItems, enclose] at hd
    rcases hd with rfl | rfl <;> exact .of_printable _ (by decide)
  | .array (v :: vs), d, hd => by
    have hsub : ∀ s ∈ v.texts, s ∈ (Value.array (v :: vs)).texts := fun s hs ↦ by
      simp [Value.texts, itemTexts, hs]
    have hsub' : ∀ s ∈ itemTexts vs, s ∈ (Value.array (v :: vs)).texts := fun s hs ↦ by
      simp [Value.texts, itemTexts, hs]
    rw [toList_writeAt_array_cons, List.mem_cons] at hd
    simp only [List.mem_append, List.mem_singleton] at hd
    rcases hd with rfl | ((hd | hd) | ((hd | hd) | rfl))
    · exact .of_printable _ (by decide)
    · exact writtenChar_lineBreak _ _ hd
    · exact (writtenChar_writeAt (level + 1) v hd).mono hsub
    · exact (writtenChar_laterItems level vs hd).mono hsub'
    · exact writtenChar_lineBreak _ _ hd
    · exact .of_printable _ (by decide)
  | .object [], _, hd => by
    simp [Value.writeAt, writeMembers, enclose] at hd
    rcases hd with rfl | rfl <;> exact .of_printable _ (by decide)
  | .object (m :: ms), d, hd => by
    have hsub : ∀ s ∈ m.1 :: m.2.texts, s ∈ (Value.object (m :: ms)).texts := fun s hs ↦ by
      obtain ⟨k, v⟩ := m
      simp only [List.mem_cons] at hs
      rcases hs with rfl | hs <;> simp [Value.texts, memberTexts, *]
    have hsub' : ∀ s ∈ memberTexts ms, s ∈ (Value.object (m :: ms)).texts := fun s hs ↦ by
      obtain ⟨k, v⟩ := m
      simp [Value.texts, memberTexts, hs]
    rw [toList_writeAt_object_cons, List.mem_cons] at hd
    simp only [List.mem_append, List.mem_singleton] at hd
    rcases hd with rfl | ((hd | hd) | ((hd | hd) | rfl))
    · exact .of_printable _ (by decide)
    · exact writtenChar_lineBreak _ _ hd
    · exact (writtenChar_memberText level m hd).mono hsub
    · exact (writtenChar_laterMembers level ms hd).mono hsub'
    · exact writtenChar_lineBreak _ _ hd
    · exact .of_printable _ (by decide)
termination_by v => sizeOf v

theorem writtenChar_laterItems (level : Nat) : ∀ (vs : List Value) {d : Char},
    d ∈ laterItems n level vs → WrittenChar (itemTexts vs) d
  | [], _, hd => absurd hd (by simp [laterItems])
  | w :: ws, d, hd => by
    simp only [laterItems, List.flatMap_cons, List.mem_append, List.mem_cons] at hd
    rcases hd with (rfl | (hd | hd)) | hd
    · exact .of_printable _ (by decide)
    · exact writtenChar_lineBreak _ _ hd
    · exact (writtenChar_writeAt (level + 1) w hd).mono fun s hs ↦ by simp [itemTexts, hs]
    · exact (writtenChar_laterItems level ws hd).mono fun s hs ↦ by simp [itemTexts, hs]
termination_by vs => sizeOf vs

theorem writtenChar_memberText (level : Nat) : ∀ (m : String × Value) {d : Char},
    d ∈ memberText n level m → WrittenChar (m.1 :: m.2.texts) d
  | (k, v), d, hd => by
    simp only [memberText, String.toList_append, List.mem_append] at hd
    rcases hd with (hd | hd) | hd
    · exact (writtenChar_writeString k hd).mono fun s hs ↦ by simp_all
    · exact writtenChar_of_all _ (by decide) hd
    · exact (writtenChar_writeAt (level + 1) v hd).mono fun s hs ↦ by simp [hs]
termination_by m => sizeOf m

theorem writtenChar_laterMembers (level : Nat) : ∀ (ms : List (String × Value)) {d : Char},
    d ∈ laterMembers n level ms → WrittenChar (memberTexts ms) d
  | [], _, hd => absurd hd (by simp [laterMembers])
  | (k, v) :: ms, d, hd => by
    simp only [laterMembers, List.flatMap_cons, List.mem_append, List.mem_cons] at hd
    rcases hd with (rfl | (hd | hd)) | hd
    · exact .of_printable _ (by decide)
    · exact writtenChar_lineBreak _ _ hd
    · exact (writtenChar_memberText level (k, v) hd).mono fun s hs ↦ by
        simp only [List.mem_cons] at hs
        rcases hs with rfl | hs <;> simp [memberTexts, *]
    · exact (writtenChar_laterMembers level ms hd).mono fun s hs ↦ by simp [memberTexts, hs]
termination_by ms => sizeOf ms
end

end Chars

end TorrentPrune.Json
