import TorrentPrune.Bencode.Reader

/-!
# The bencode grammar

The strict grammar of a bencode term, as a tree: an integer `i<decimal>e` in the signed 64-bit
range with canonical decimal text, a byte string `<length>:<bytes>` behind its canonical length,
a list `l<terms>e`, and a dictionary `d<byte string><term>...e` whose keys may come in any order
and may repeat. `Term.encode` is the text of a term; each term has exactly one text, since the
grammar admits no second spelling of a number.

`Term.value` is what a term denotes: a dictionary takes its entries left to right, so a later
duplicate key replaces an earlier one. `Term.depth` counts nested containers in the text itself,
duplicates included, and `Term.Fits limit d` says that a term can be read with `d` containers
already open when at most `limit` may be.
-/

namespace TorrentPrune.Bencode

/-- A term of the strict bencode grammar. -/
inductive Term where
  /-- An integer in the signed 64-bit range. -/
  | int (n : Int) (lo : int64Min ≤ n) (hi : n ≤ int64Max)
  /-- A byte string. -/
  | str (b : Bytes)
  /-- A list of terms. -/
  | list (items : List Term)
  /-- A dictionary: byte-string keys each before a term, in any order, repeats allowed. -/
  | dict (entries : List (Bytes × Term))

mutual
/-- The text of a term. -/
def Term.encode : Term → Bytes
  | .int n _ _ => leadInt :: intBytes n ++ [leadEnd]
  | .str b => stringBytes b
  | .list items => leadList :: Term.encodeItems items ++ [leadEnd]
  | .dict entries => leadDict :: Term.encodeEntries entries ++ [leadEnd]

/-- The texts of list items, one after another. -/
def Term.encodeItems : List Term → Bytes
  | [] => []
  | t :: ts => t.encode ++ Term.encodeItems ts

/-- The texts of dictionary entries, each key before its term. -/
def Term.encodeEntries : List (Bytes × Term) → Bytes
  | [] => []
  | (k, t) :: es => stringBytes k ++ t.encode ++ Term.encodeEntries es
end

mutual
/-- The value a term denotes. -/
def Term.value : Term → Value
  | .int n _ _ => .int n
  | .str b => .bytes b
  | .list items => .list (Term.itemValues items)
  | .dict entries => .dict (Term.entryValues entries [])

/-- The values of list items, in order. -/
def Term.itemValues : List Term → List Value
  | [] => []
  | t :: ts => t.value :: Term.itemValues ts

/-- Dictionary entries entered left to right into `acc`, a later key replacing an earlier one. -/
def Term.entryValues : List (Bytes × Term) → List (Bytes × Value) → List (Bytes × Value)
  | [], acc => acc
  | (k, t) :: es, acc => Term.entryValues es (insertEntry k t.value acc)
end

mutual
/-- Container nesting in a term's text: 0 for an integer or a byte string, one more than the
deepest member for a list or a dictionary. -/
def Term.depth : Term → Nat
  | .int .. => 0
  | .str _ => 0
  | .list items => Term.itemsDepth items + 1
  | .dict entries => Term.entriesDepth entries + 1

/-- The greatest depth among list items, 0 for none. -/
def Term.itemsDepth : List Term → Nat
  | [] => 0
  | t :: ts => max t.depth (Term.itemsDepth ts)

/-- The greatest depth among the terms of dictionary entries, 0 for none. -/
def Term.entriesDepth : List (Bytes × Term) → Nat
  | [] => 0
  | (_, t) :: es => max t.depth (Term.entriesDepth es)
end

/-- Whether a term can be read with `d` containers already open: a term with a container nests
no deeper than `limit` allows. -/
def Term.Fits (limit : Int) (d : Nat) (t : Term) : Prop :=
  t.depth = 0 ∨ (d + t.depth : Int) ≤ limit

@[simp] theorem Term.encodeItems_nil : Term.encodeItems [] = [] := rfl

/-- The items' texts, the first before the others. -/
theorem Term.length_encodeItems_cons (t : Term) (ts : List Term) :
    (Term.encodeItems (t :: ts)).length = t.encode.length + (Term.encodeItems ts).length := by
  simp [Term.encodeItems]

/-- A list's items are never deeper than the list's deepest item. -/
theorem Term.depth_le_itemsDepth {t : Term} {ts : List Term} (h : t ∈ ts) :
    t.depth ≤ Term.itemsDepth ts := by
  induction ts with
  | nil => simp at h
  | cons u us ih =>
    simp only [Term.itemsDepth]
    rcases List.mem_cons.mp h with rfl | h
    · omega
    · have := ih h
      omega

/-- A dictionary's terms are never deeper than its deepest term. -/
theorem Term.depth_le_entriesDepth {k : Bytes} {t : Term} {es : List (Bytes × Term)}
    (h : (k, t) ∈ es) : t.depth ≤ Term.entriesDepth es := by
  induction es with
  | nil => simp at h
  | cons e es ih =>
    obtain ⟨k', u⟩ := e
    simp only [Term.entriesDepth]
    rcases List.mem_cons.mp h with h | h
    · cases h
      omega
    · have := ih h
      omega

section Fits

variable {limit : Int} {d : Nat}

/-- A container nests at least one level, so one that fits opens below the limit. -/
theorem Term.lt_of_fits_list {ts : List Term} (h : (Term.list ts).Fits limit d) :
    (d : Int) < limit := by
  rcases h with h | h
  · simp [Term.depth] at h
  · simp only [Term.depth] at h
    omega

/-- A dictionary that fits opens below the limit. -/
theorem Term.lt_of_fits_dict {es : List (Bytes × Term)} (h : (Term.dict es).Fits limit d) :
    (d : Int) < limit := by
  rcases h with h | h
  · simp [Term.depth] at h
  · simp only [Term.depth] at h
    omega

/-- The items of a list that fits fit one level down. -/
theorem Term.fits_of_mem_list {ts : List Term} (h : (Term.list ts).Fits limit d) {t : Term}
    (ht : t ∈ ts) : t.Fits limit (d + 1) := by
  have := Term.depth_le_itemsDepth ht
  rcases h with h | h
  · simp [Term.depth] at h
  · simp only [Term.depth] at h
    right
    omega

/-- The terms of a dictionary that fits fit one level down. -/
theorem Term.fits_of_mem_dict {es : List (Bytes × Term)} (h : (Term.dict es).Fits limit d)
    {k : Bytes} {t : Term} (ht : (k, t) ∈ es) : t.Fits limit (d + 1) := by
  have := Term.depth_le_entriesDepth ht
  rcases h with h | h
  · simp [Term.depth] at h
  · simp only [Term.depth] at h
    right
    omega

/-- A list fits when it opens below the limit and its items fit one level down. -/
theorem Term.fits_list {ts : List Term} (hd : (d : Int) < limit)
    (h : ∀ t ∈ ts, t.Fits limit (d + 1)) : (Term.list ts).Fits limit d := by
  right
  simp only [Term.depth]
  induction ts with
  | nil => simp [Term.itemsDepth]; omega
  | cons u us ih =>
    simp only [Term.itemsDepth]
    have hu := h u List.mem_cons_self
    have hus := ih fun t ht ↦ h t (List.mem_cons_of_mem _ ht)
    rcases hu with hu | hu <;> omega

/-- A dictionary fits when it opens below the limit and its terms fit one level down. -/
theorem Term.fits_dict {es : List (Bytes × Term)} (hd : (d : Int) < limit)
    (h : ∀ k t, (k, t) ∈ es → t.Fits limit (d + 1)) : (Term.dict es).Fits limit d := by
  right
  simp only [Term.depth]
  induction es with
  | nil => simp [Term.entriesDepth]; omega
  | cons e es ih =>
    obtain ⟨k, u⟩ := e
    simp only [Term.entriesDepth]
    have hu := h k u List.mem_cons_self
    have hes := ih fun k' t ht ↦ h k' t (List.mem_cons_of_mem _ ht)
    rcases hu with hu | hu <;> omega

end Fits

/-- Only a byte-string term denotes bytes. -/
theorem Term.eq_str_of_value {t : Term} {b : Bytes} (h : t.value = .bytes b) : t = .str b := by
  cases t with
  | str b' =>
    simp only [Term.value, Value.bytes.injEq] at h
    rw [h]
  | int n lo hi => simp [Term.value] at h
  | list items => simp [Term.value] at h
  | dict entries => simp [Term.value] at h

end TorrentPrune.Bencode
