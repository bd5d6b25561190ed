import TorrentPrune.Proofs.Bencode.Reading

/-!
# Canonical bencode

`Value.encode` writes a value canonically: integers in shortest decimal form, byte strings behind
their shortest length prefix, dictionary entries in the order they are held. A value is what a
program's bencode term can be when its integers are 64-bit and each of its dictionaries holds one
entry per key, keys ascending in raw-byte order (`Value.WellFormed`): that is how a dictionary
with byte-string keys is held here, so its entries come out in ascending key order.

Reading and canonical writing agree (`parse_canonical`):

* the canonical text of a well-formed value that fits the depth limit reads back as that value,
  whatever follows it;
* a text that reading takes is the canonical text of the value read exactly when each dictionary
  in it lists its keys in strictly ascending order (`Term.Ordered`). A key repeated or out of
  order gives a value whose text is another. This rests on the grammar being unambiguous: a text
  starts with the text of at most one term (`Term.eq_of_encode_append`).
-/

namespace TorrentPrune.Bencode

open TorrentPrune.Number

/-- Keys in strictly ascending raw-byte order, so each key at most once. -/
def KeysAscending {α : Type} (es : List (Bytes × α)) : Prop :=
  (es.map Prod.fst).Pairwise fun a b ↦ keyBefore a b = true

instance {α : Type} (es : List (Bytes × α)) : Decidable (KeysAscending es) :=
  inferInstanceAs (Decidable ((es.map Prod.fst).Pairwise fun a b ↦ keyBefore a b = true))

mutual
/-- A value that a bencode term of a program can be: its integers are 64-bit, and each of its
dictionaries keeps its keys strictly ascending. -/
def Value.WellFormed : Value → Prop
  | .int n => int64Min ≤ n ∧ n ≤ int64Max
  | .bytes _ => True
  | .list items => Value.ItemsWellFormed items
  | .dict entries => KeysAscending entries ∧ Value.EntriesWellFormed entries

/-- Every list item is well formed. -/
def Value.ItemsWellFormed : List Value → Prop
  | [] => True
  | v :: vs => v.WellFormed ∧ Value.ItemsWellFormed vs

/-- Every dictionary value is well formed. -/
def Value.EntriesWellFormed : List (Bytes × Value) → Prop
  | [] => True
  | (_, v) :: es => v.WellFormed ∧ Value.EntriesWellFormed es
end

mutual
/-- Whether a value is well formed is decided by reading it. -/
def Value.decWellFormed : (v : Value) → Decidable v.WellFormed
  | .int n => inferInstanceAs (Decidable (int64Min ≤ n ∧ n ≤ int64Max))
  | .bytes _ => isTrue trivial
  | .list items => Value.decItemsWellFormed items
  | .dict entries =>
    have := Value.decEntriesWellFormed entries
    inferInstanceAs (Decidable (KeysAscending entries ∧ Value.EntriesWellFormed entries))

/-- Whether list items are well formed is decided by reading them. -/
def Value.decItemsWellFormed : (vs : List Value) → Decidable (Value.ItemsWellFormed vs)
  | [] => isTrue trivial
  | v :: vs =>
    have := Value.decWellFormed v
    have := Value.decItemsWellFormed vs
    inferInstanceAs (Decidable (v.WellFormed ∧ Value.ItemsWellFormed vs))

/-- Whether dictionary values are well formed is decided by reading them. -/
def Value.decEntriesWellFormed : (es : List (Bytes × Value)) → Decidable (Value.EntriesWellFormed es)
  | [] => isTrue trivial
  | (_, v) :: es =>
    have := Value.decWellFormed v
    have := Value.decEntriesWellFormed es
    inferInstanceAs (Decidable (v.WellFormed ∧ Value.EntriesWellFormed es))
end

instance : DecidablePred Value.WellFormed := Value.decWellFormed

mutual
/-- Every dictionary in the term lists its keys in strictly ascending raw-byte order: no key
repeats, and none follows a greater one. -/
def Term.Ordered : Term → Prop
  | .int .. => True
  | .str _ => True
  | .list items => Term.ItemsOrdered items
  | .dict entries => KeysAscending entries ∧ Term.EntriesOrdered entries

/-- Every list item is ordered. -/
def Term.ItemsOrdered : List Term → Prop
  | [] => True
  | t :: ts => t.Ordered ∧ Term.ItemsOrdered ts

/-- Every term of the dictionary entries is ordered. -/
def Term.EntriesOrdered : List (Bytes × Term) → Prop
  | [] => True
  | (_, t) :: es => t.Ordered ∧ Term.EntriesOrdered es
end

/-! ### Raw-byte order of keys -/

section KeyOrder

/-- No key comes before itself. -/
@[simp] theorem keyBefore_self : ∀ a : Bytes, keyBefore a a = false
  | [] => rfl
  | x :: xs => by simp [keyBefore, keyBefore_self xs]

/-- Raw-byte order is transitive. -/
theorem keyBefore_trans : ∀ {a b c : Bytes}, keyBefore a b = true → keyBefore b c = true →
    keyBefore a c = true
  | [], _ :: _, _ :: _, _, _ => rfl
  | x :: xs, y :: ys, z :: zs, hab, hbc => by
    simp only [keyBefore, Bool.or_eq_true, Bool.and_eq_true, beq_iff_eq, decide_eq_true_eq]
      at hab hbc ⊢
    rcases hab with hxy | ⟨rfl, hxs⟩ <;> rcases hbc with hyz | ⟨rfl, hys⟩
    · exact .inl (UInt8.lt_trans hxy hyz)
    · exact .inl hxy
    · exact .inl hyz
    · exact .inr ⟨rfl, keyBefore_trans hxs hys⟩
  | [], [], _, hab, _ => by simp [keyBefore] at hab
  | _ :: _, [], _, hab, _ => by simp [keyBefore] at hab
  | _, _ :: _, [], _, hbc => by simp [keyBefore] at hbc

/-- Two keys in order are not in the other order. -/
theorem keyBefore_asymm {a b : Bytes} (h : keyBefore a b = true) : keyBefore b a = false := by
  cases hba : keyBefore b a
  · rfl
  · have := keyBefore_trans h hba
    simp at this

/-- Of two different keys, one comes first. -/
theorem keyBefore_total : ∀ {a b : Bytes}, a ≠ b → keyBefore a b = true ∨ keyBefore b a = true
  | [], [], h => absurd rfl h
  | [], _ :: _, _ => .inl rfl
  | _ :: _, [], _ => .inr rfl
  | x :: xs, y :: ys, h => by
    simp only [keyBefore, Bool.or_eq_true, Bool.and_eq_true, beq_iff_eq, decide_eq_true_eq]
    rcases Nat.lt_trichotomy x.toNat y.toNat with hxy | hxy | hyx
    · exact .inl (.inl (UInt8.lt_iff_toNat_lt.mpr hxy))
    · obtain rfl := UInt8.toNat_inj.mp hxy
      have hne : xs ≠ ys := fun he ↦ h (he ▸ rfl)
      rcases keyBefore_total hne with h₁ | h₁
      · exact .inl (.inr ⟨rfl, h₁⟩)
      · exact .inr (.inr ⟨rfl, h₁⟩)
    · exact .inr (.inl (UInt8.lt_iff_toNat_lt.mpr hyx))

end KeyOrder

/-! ### Entering dictionary entries -/

section Insert

variable {α : Type}

/-- The keys of entries, in order. -/
def keysOf (es : List (Bytes × α)) : List Bytes := es.map Prod.fst

/-- A key greater than every key held goes last. -/
theorem insertEntry_eq_append {k : Bytes} {v : Value} {E : List (Bytes × Value)}
    (h : ∀ e ∈ E, keyBefore e.1 k = true) : insertEntry k v E = E ++ [(k, v)] := by
  induction E with
  | nil => rfl
  | cons e E ih =>
    obtain ⟨k₀, v₀⟩ := e
    have hk₀ : keyBefore k₀ k = true := h (k₀, v₀) List.mem_cons_self
    have hne : (k == k₀) = false := by
      rw [beq_eq_false_iff_ne]
      rintro rfl
      simp at hk₀
    simp only [insertEntry, hne, keyBefore_asymm hk₀, Bool.false_eq_true, if_false,
      List.cons_append, ih fun e he ↦ h e (List.mem_cons_of_mem _ he)]

/-- Entering a key adds that key to those held. -/
theorem mem_keys_insertEntry {k k' : Bytes} {v : Value} {E : List (Bytes × Value)} :
    k' ∈ keysOf (insertEntry k v E) ↔ k' = k ∨ k' ∈ keysOf E := by
  induction E with
  | nil => simp [insertEntry, keysOf]
  | cons e E ih =>
    obtain ⟨k₀, v₀⟩ := e
    simp only [keysOf] at ih ⊢
    unfold insertEntry
    split
    · next h =>
      rw [beq_iff_eq] at h
      subst h
      simp
    · split
      · simp
      · simp only [List.map_cons, List.mem_cons, ih]
        tauto

/-- Entering a value puts it under its key and keeps every other entry. -/
theorem mem_insertEntry {k : Bytes} {v : Value} {E : List (Bytes × Value)} {e : Bytes × Value}
    (h : e ∈ insertEntry k v E) : e = (k, v) ∨ e ∈ E := by
  induction E with
  | nil => simpa [insertEntry] using h
  | cons e₀ E ih =>
    obtain ⟨k₀, v₀⟩ := e₀
    unfold insertEntry at h
    split at h
    · rcases List.mem_cons.mp h with h | h
      · exact .inl h
      · exact .inr (List.mem_cons_of_mem _ h)
    · split at h
      · rcases List.mem_cons.mp h with h | h
        · exact .inl h
        · exact .inr h
      · rcases List.mem_cons.mp h with h | h
        · exact .inr (h ▸ List.mem_cons_self)
        · rcases ih h with h | h
          · exact .inl h
          · exact .inr (List.mem_cons_of_mem _ h)

/-- Entering a key keeps the keys ascending. -/
theorem KeysAscending.insertEntry {k : Bytes} {v : Value} {E : List (Bytes × Value)}
    (hE : KeysAscending E) : KeysAscending (insertEntry k v E) := by
  induction E with
  | nil => simp [KeysAscending, TorrentPrune.Bencode.insertEntry]
  | cons e E ih =>
    obtain ⟨k₀, v₀⟩ := e
    simp only [KeysAscending, List.map_cons, List.pairwise_cons] at hE ih
    unfold TorrentPrune.Bencode.insertEntry
    split
    · next h =>
      rw [beq_iff_eq] at h
      subst h
      simpa [KeysAscending] using hE
    · next hne =>
      split
      · next hlt =>
        -- the new key comes first, before the old first key and so before all
        simp only [KeysAscending, List.map_cons, List.pairwise_cons, List.mem_cons,
          forall_eq_or_imp]
        exact ⟨⟨hlt, fun b hb ↦ keyBefore_trans hlt (hE.1 b hb)⟩, hE⟩
      · next hge =>
        -- the new key goes after the old first key
        have hk₀ : keyBefore k₀ k = true := by
          have hne' : k ≠ k₀ := by simpa using hne
          simpa [hge] using keyBefore_total hne'
        simp only [KeysAscending, List.map_cons, List.pairwise_cons]
        refine ⟨fun b hb ↦ ?_, ih hE.2⟩
        rcases mem_keys_insertEntry.mp (by simpa [keysOf] using hb) with rfl | hb
        · exact hk₀
        · exact hE.1 b (by simpa [keysOf] using hb)

end Insert

/-! ### The values terms denote -/

section Denotation

/-- Well-formed list items, one by one. -/
theorem Value.itemsWellFormed_iff : ∀ {vs : List Value},
    Value.ItemsWellFormed vs ↔ ∀ v ∈ vs, v.WellFormed
  | [] => by simp [Value.ItemsWellFormed]
  | v :: vs => by simp [Value.ItemsWellFormed, @Value.itemsWellFormed_iff vs]

/-- Well-formed dictionary values, one by one. -/
theorem Value.entriesWellFormed_iff : ∀ {es : List (Bytes × Value)},
    Value.EntriesWellFormed es ↔ ∀ e ∈ es, e.2.WellFormed
  | [] => by simp [Value.EntriesWellFormed]
  | (k, v) :: es => by simp [Value.EntriesWellFormed, @Value.entriesWellFormed_iff es]

/-- Entries given in ascending key order after those held are entered at the end, in order. -/
theorem Term.entryValues_of_ascending : ∀ {es : List (Bytes × Term)} {acc : List (Bytes × Value)},
    (keysOf acc ++ keysOf es).Pairwise (fun a b ↦ keyBefore a b = true) →
    Term.entryValues es acc = acc ++ es.map fun e ↦ (e.1, e.2.value)
  | [], acc, _ => by simp [Term.entryValues]
  | (k, t) :: es, acc, h => by
    have hk : ∀ e ∈ acc, keyBefore e.1 k = true := fun e he ↦
      (List.pairwise_append.mp h).2.2 e.1 (List.mem_map_of_mem he) k (by simp [keysOf])
    rw [Term.entryValues, insertEntry_eq_append hk, Term.entryValues_of_ascending]
    · simp
    · simpa [keysOf] using h

/-- Entering dictionary entries keeps keys ascending. -/
theorem Term.entryValues_ascending : ∀ {es : List (Bytes × Term)} {acc : List (Bytes × Value)},
    KeysAscending acc → KeysAscending (Term.entryValues es acc)
  | [], _, h => h
  | (_, _) :: _, _, h => by
    simp only [Term.entryValues]
    exact Term.entryValues_ascending h.insertEntry

/-- Entering dictionary entries enters only well-formed values into well-formed ones. -/
theorem Term.entryValues_wellFormed : ∀ {es : List (Bytes × Term)} {acc : List (Bytes × Value)},
    (∀ e ∈ es, e.2.value.WellFormed) → (∀ e ∈ acc, e.2.WellFormed) →
    ∀ e ∈ Term.entryValues es acc, e.2.WellFormed
  | [], _, _, hacc => hacc
  | (k, t) :: es, acc, hes, hacc => by
    simp only [Term.entryValues]
    refine Term.entryValues_wellFormed (fun e he ↦ hes e (List.mem_cons_of_mem _ he)) ?_
    intro e he
    rcases mem_insertEntry he with rfl | he
    · exact hes (k, t) List.mem_cons_self
    · exact hacc e he

mutual
/-- Every term denotes a well-formed value. -/
theorem Term.wellFormed_value : ∀ t : Term, t.value.WellFormed
  | .int _ lo hi => ⟨lo, hi⟩
  | .str _ => trivial
  | .list ts => Value.itemsWellFormed_iff.mpr (Term.wellFormed_itemValues ts)
  | .dict es =>
    ⟨Term.entryValues_ascending (by simp [KeysAscending]),
      Value.entriesWellFormed_iff.mpr
        (Term.entryValues_wellFormed (Term.wellFormed_entryValues es) (by simp))⟩

/-- The values of list items are well formed. -/
theorem Term.wellFormed_itemValues : ∀ ts : List Term, ∀ v ∈ Term.itemValues ts, v.WellFormed
  | [] => by simp [Term.itemValues]
  | t :: ts => by
    simp only [Term.itemValues, List.mem_cons, forall_eq_or_imp]
    exact ⟨Term.wellFormed_value t, Term.wellFormed_itemValues ts⟩

/-- The values of dictionary terms are well formed. -/
theorem Term.wellFormed_entryValues : ∀ es : List (Bytes × Term), ∀ e ∈ es, e.2.value.WellFormed
  | [] => by simp
  | (_, t) :: es => by
    simp only [List.mem_cons, forall_eq_or_imp]
    exact ⟨Term.wellFormed_value t, Term.wellFormed_entryValues es⟩
end

mutual
/-- An ordered term's value is written back as the term's text. -/
theorem Term.encode_value : ∀ t : Term, t.Ordered → t.value.encode = t.encode
  | .int .., _ => rfl
  | .str _, _ => rfl
  | .list ts, h => by
    simp only [Term.value, Value.encode, Term.encode, Term.encodeItems_itemValues ts h]
  | .dict es, h => by
    have hvals : Term.entryValues es [] = es.map fun e ↦ (e.1, e.2.value) :=
      Term.entryValues_of_ascending (by simpa [keysOf, KeysAscending] using h.1)
    simp only [Term.value, Value.encode, Term.encode, hvals, Term.encodeEntries_values es h.2]

/-- The values of ordered list items are written back as the items' texts. -/
theorem Term.encodeItems_itemValues : ∀ ts : List Term, Term.ItemsOrdered ts →
    TorrentPrune.Bencode.encodeItems (Term.itemValues ts) = Term.encodeItems ts
  | [], _ => rfl
  | t :: ts, h => by
    simp only [Term.itemValues, TorrentPrune.Bencode.encodeItems, Term.encodeItems, Term.encode_value t h.1,
      Term.encodeItems_itemValues ts h.2]

/-- Ordered dictionary terms are written back as their texts. -/
theorem Term.encodeEntries_values : ∀ es : List (Bytes × Term), Term.EntriesOrdered es →
    TorrentPrune.Bencode.encodeEntries (es.map fun e ↦ (e.1, e.2.value)) = Term.encodeEntries es
  | [], _ => rfl
  | (k, t) :: es, h => by
    simp only [List.map_cons, TorrentPrune.Bencode.encodeEntries, Term.encodeEntries, Term.encode_value t h.1,
      Term.encodeEntries_values es h.2]
end

mutual
/-- Every well-formed value is the value of an ordered term of the same depth. -/
theorem Value.exists_term : ∀ v : Value, v.WellFormed →
    ∃ t : Term, t.Ordered ∧ t.value = v ∧ t.depth = v.depth
  | .int _, h => ⟨.int _ h.1 h.2, trivial, rfl, rfl⟩
  | .bytes b, _ => ⟨.str b, trivial, rfl, rfl⟩
  | .list vs, h => by
    obtain ⟨ts, hord, hval, hdepth⟩ := Value.exists_items vs h
    exact ⟨.list ts, hord, by simp [Term.value, hval], by simp [Term.depth, Value.depth, hdepth]⟩
  | .dict es, h => by
    obtain ⟨ts, hkeys, hord, hval, hdepth⟩ := Value.exists_entries es h.2
    have hasc : KeysAscending ts := by
      unfold KeysAscending
      rw [show ts.map Prod.fst = es.map Prod.fst from hkeys]
      exact h.1
    have hvals : Term.entryValues ts [] = es := by
      rw [Term.entryValues_of_ascending (by simpa [keysOf, KeysAscending] using hasc)]
      simpa using hval
    exact ⟨.dict ts, ⟨hasc, hord⟩, by simp [Term.value, hvals],
      by simp [Term.depth, Value.depth, hdepth]⟩

/-- Well-formed list items are the values of ordered terms of the same depth. -/
theorem Value.exists_items : ∀ vs : List Value, Value.ItemsWellFormed vs →
    ∃ ts : List Term, Term.ItemsOrdered ts ∧ Term.itemValues ts = vs ∧
      Term.itemsDepth ts = listDepth vs
  | [], _ => ⟨[], trivial, rfl, rfl⟩
  | v :: vs, h => by
    obtain ⟨t, ht, htv, htd⟩ := Value.exists_term v h.1
    obtain ⟨ts, hts, htsv, htsd⟩ := Value.exists_items vs h.2
    exact ⟨t :: ts, ⟨ht, hts⟩, by simp [Term.itemValues, htv, htsv],
      by simp [Term.itemsDepth, listDepth, htd, htsd]⟩

/-- Well-formed dictionary values are the values of ordered terms of the same depth, under the
same keys. -/
theorem Value.exists_entries : ∀ es : List (Bytes × Value), Value.EntriesWellFormed es →
    ∃ ts : List (Bytes × Term), keysOf ts = keysOf es ∧ Term.EntriesOrdered ts ∧
      ts.map (fun e ↦ (e.1, e.2.value)) = es ∧ Term.entriesDepth ts = entriesDepth es
  | [], _ => ⟨[], rfl, trivial, rfl, rfl⟩
  | (k, v) :: es, h => by
    obtain ⟨t, ht, htv, htd⟩ := Value.exists_term v h.1
    obtain ⟨ts, hk, hts, htsv, htsd⟩ := Value.exists_entries es h.2
    refine ⟨(k, t) :: ts, by simp [keysOf] at hk ⊢; exact hk, ⟨ht, hts⟩,
      by simp [htv, htsv], by simp [Term.entriesDepth, entriesDepth, htd, htsd]⟩
end

/-- A well-formed value's canonical text is the text of an ordered term of the same depth that
denotes it. -/
theorem Value.exists_term_encode {v : Value} (h : v.WellFormed) :
    ∃ t : Term, t.Ordered ∧ t.value = v ∧ t.depth = v.depth ∧ v.encode = t.encode := by
  obtain ⟨t, ht, rfl, hd⟩ := Value.exists_term v h
  exact ⟨t, ht, rfl, hd, Term.encode_value t ht⟩

end Denotation

/-! ### One term per text -/

section Unambiguous

/-- A run of bytes without `b` and then `b`: two such texts that agree have the same run and the
same bytes after `b`. -/
theorem append_cons_inj {b : UInt8} : ∀ {xs ys r r' : Bytes}, b ∉ xs → b ∉ ys →
    xs ++ b :: r = ys ++ b :: r' → xs = ys ∧ r = r'
  | [], [], _, _, _, _, h => ⟨rfl, (List.cons.inj h).2⟩
  | [], _ :: _, _, _, _, hy, h => by
    obtain ⟨rfl, -⟩ := List.cons.inj h
    exact absurd List.mem_cons_self hy
  | _ :: _, [], _, _, hx, _, h => by
    obtain ⟨rfl, -⟩ := List.cons.inj h
    exact absurd List.mem_cons_self hx
  | x :: xs, y :: ys, r, r', hx, hy, h => by
    rw [List.cons_append, List.cons_append] at h
    obtain ⟨rfl, h₁⟩ := List.cons.inj h
    obtain ⟨rfl, rfl⟩ := append_cons_inj (List.not_mem_of_not_mem_cons hx)
      (List.not_mem_of_not_mem_cons hy) h₁
    exact ⟨rfl, rfl⟩

/-- Different numbers have different decimal texts. -/
theorem decimalBytes_inj {m n : Nat} (h : decimalBytes m = decimalBytes n) : m = n := by
  simpa [digitsValue_decimalBytes] using congrArg digitsValue h

/-- Decimal text holds no colon. -/
theorem colon_not_mem_decimalBytes (n : Nat) : colon ∉ decimalBytes n :=
  fun h ↦ (ne_of_mem_decimalBytes h).2.2 rfl

/-- The text of an integer holds no `e`. -/
theorem leadEnd_not_mem_intBytes (n : Int) : leadEnd ∉ intBytes n := by
  intro h
  unfold intBytes at h
  split at h
  · rcases List.mem_cons.mp h with h | h
    · exact absurd h (by decide)
    · exact (ne_of_mem_decimalBytes h).1 rfl
  · exact (ne_of_mem_decimalBytes h).1 rfl

/-- Different integers have different texts. -/
theorem intBytes_inj {m n : Int} (h : intBytes m = intBytes n) : m = n := by
  unfold intBytes at h
  split at h <;> split at h
  · have := decimalBytes_inj (List.cons.inj h).2
    omega
  · -- a sign against a digit
    have hm : minus ∈ decimalBytes n.natAbs := h ▸ List.mem_cons_self
    exact absurd rfl (ne_of_mem_decimalBytes hm).2.1
  · have hm : minus ∈ decimalBytes m.natAbs := h ▸ List.mem_cons_self
    exact absurd rfl (ne_of_mem_decimalBytes hm).2.1
  · have := decimalBytes_inj h
    omega

/-- A byte string's text, then more bytes, tells the byte string and what follows it. -/
theorem stringBytes_append_inj {b b' r r' : Bytes} (h : stringBytes b ++ r = stringBytes b' ++ r') :
    b = b' ∧ r = r' := by
  simp only [stringBytes, List.append_assoc, List.cons_append] at h
  obtain ⟨hlen, hrest⟩ := append_cons_inj (colon_not_mem_decimalBytes _)
    (colon_not_mem_decimalBytes _) h
  exact List.append_inj hrest (decimalBytes_inj hlen)

/-- A byte string's text starts with a digit. -/
theorem stringBytes_eq_cons (b : Bytes) : ∃ d rest, stringBytes b = d :: rest ∧ isDigit d = true := by
  obtain ⟨d, ds, hd⟩ := List.exists_cons_of_ne_nil (decimalBytes_ne_nil b.length)
  exact ⟨d, ds ++ colon :: b, by simp [stringBytes, hd],
    isDigit_of_mem_decimalBytes (hd ▸ List.mem_cons_self)⟩

/-- The kind of term a lead byte opens: an integer, a list, a dictionary, or else a byte
string. -/
def leadKind (b : UInt8) : Nat :=
  if b = leadInt then 0 else if b = leadList then 2 else if b = leadDict then 3 else 1

/-- The kind of a term. -/
def Term.kind : Term → Nat
  | .int .. => 0
  | .str _ => 1
  | .list _ => 2
  | .dict _ => 3

/-- A term's text starts with a byte other than `e` that tells the term's kind. -/
theorem Term.encode_eq_cons (t : Term) :
    ∃ b rest, t.encode = b :: rest ∧ b ≠ leadEnd ∧ leadKind b = t.kind := by
  cases t with
  | int n lo hi => exact ⟨leadInt, _, rfl, by decide, rfl⟩
  | str b =>
    obtain ⟨d, rest, hd, hdig⟩ := stringBytes_eq_cons b
    obtain ⟨he, hl, hdict, hi⟩ := ne_of_isDigit hdig
    exact ⟨d, rest, hd, he, by simp [leadKind, hl, hdict, hi, Term.kind]⟩
  | list ts => exact ⟨leadList, _, rfl, by decide, rfl⟩
  | dict es => exact ⟨leadDict, _, rfl, by decide, rfl⟩

/-- Texts that start alike start with terms of one kind. -/
theorem Term.kind_eq_of_encode_append {t t' : Term} {r r' : Bytes}
    (h : t.encode ++ r = t'.encode ++ r') : t.kind = t'.kind := by
  obtain ⟨b, s, hb, -, hk⟩ := t.encode_eq_cons
  obtain ⟨b', s', hb', -, hk'⟩ := t'.encode_eq_cons
  rw [hb, hb'] at h
  obtain ⟨rfl, -⟩ := List.cons.inj h
  rw [← hk, ← hk']

/-- No term's text starts with `e`. -/
theorem Term.encode_append_ne_end (t : Term) (r s : Bytes) : t.encode ++ r ≠ leadEnd :: s := by
  obtain ⟨b, rest, hb, hne, -⟩ := t.encode_eq_cons
  rw [hb]
  exact fun h ↦ hne (List.cons.inj h).1

/-- No byte string's text starts with `e`. -/
theorem stringBytes_append_ne_end (k r s : Bytes) : stringBytes k ++ r ≠ leadEnd :: s := by
  obtain ⟨d, rest, hd, hdig⟩ := stringBytes_eq_cons k
  rw [hd]
  exact fun h ↦ (ne_of_isDigit hdig).1 (List.cons.inj h).1

mutual
/-- A text starts with the text of at most one term: the grammar is unambiguous. -/
theorem Term.eq_of_encode_append : ∀ (t t' : Term) {r r' : Bytes},
    t.encode ++ r = t'.encode ++ r' → t = t' ∧ r = r'
  | .int n _ _, .int n' _ _, r, r', h => by
    simp only [Term.encode, List.cons_append, List.append_assoc, List.cons.injEq,
      true_and] at h
    obtain ⟨hn, rfl⟩ := append_cons_inj (leadEnd_not_mem_intBytes n)
      (leadEnd_not_mem_intBytes n') h
    obtain rfl := intBytes_inj hn
    exact ⟨rfl, rfl⟩
  | .str b, .str b', r, r', h => by
    obtain ⟨rfl, rfl⟩ := stringBytes_append_inj h
    exact ⟨rfl, rfl⟩
  | .list ts, .list ts', r, r', h => by
    simp only [Term.encode, List.cons_append, List.append_assoc, List.cons.injEq,
      true_and] at h
    obtain ⟨rfl, rfl⟩ := Term.eq_of_encodeItems_append ts ts' h
    exact ⟨rfl, rfl⟩
  | .dict es, .dict es', r, r', h => by
    simp only [Term.encode, List.cons_append, List.append_assoc, List.cons.injEq,
      true_and] at h
    obtain ⟨rfl, rfl⟩ := Term.eq_of_encodeEntries_append es es' h
    exact ⟨rfl, rfl⟩
  -- terms of different kinds start differently
  | .int .., .str _, _, _, h => absurd (Term.kind_eq_of_encode_append h) (by simp [Term.kind])
  | .int .., .list _, _, _, h => absurd (Term.kind_eq_of_encode_append h) (by simp [Term.kind])
  | .int .., .dict _, _, _, h => absurd (Term.kind_eq_of_encode_append h) (by simp [Term.kind])
  | .str _, .int .., _, _, h => absurd (Term.kind_eq_of_encode_append h) (by simp [Term.kind])
  | .str _, .list _, _, _, h => absurd (Term.kind_eq_of_encode_append h) (by simp [Term.kind])
  | .str _, .dict _, _, _, h => absurd (Term.kind_eq_of_encode_append h) (by simp [Term.kind])
  | .list _, .int .., _, _, h => absurd (Term.kind_eq_of_encode_append h) (by simp [Term.kind])
  | .list _, .str _, _, _, h => absurd (Term.kind_eq_of_encode_append h) (by simp [Term.kind])
  | .list _, .dict _, _, _, h => absurd (Term.kind_eq_of_encode_append h) (by simp [Term.kind])
  | .dict _, .int .., _, _, h => absurd (Term.kind_eq_of_encode_append h) (by simp [Term.kind])
  | .dict _, .str _, _, _, h => absurd (Term.kind_eq_of_encode_append h) (by simp [Term.kind])
  | .dict _, .list _, _, _, h => absurd (Term.kind_eq_of_encode_append h) (by simp [Term.kind])

/-- The texts of list items and the closing `e` tell the items and what follows. -/
theorem Term.eq_of_encodeItems_append : ∀ (ts ts' : List Term) {r r' : Bytes},
    Term.encodeItems ts ++ leadEnd :: r = Term.encodeItems ts' ++ leadEnd :: r' →
      ts = ts' ∧ r = r'
  | [], [], _, _, h => ⟨rfl, (List.cons.inj h).2⟩
  | [], t' :: ts', _, _, h => by
    simp only [Term.encodeItems, List.nil_append, List.append_assoc] at h
    exact absurd h.symm (Term.encode_append_ne_end t' _ _)
  | t :: ts, [], _, _, h => by
    simp only [Term.encodeItems, List.nil_append, List.append_assoc] at h
    exact absurd h (Term.encode_append_ne_end t _ _)
  | t :: ts, t' :: ts', _, _, h => by
    simp only [Term.encodeItems, List.append_assoc] at h
    obtain ⟨rfl, h₁⟩ := Term.eq_of_encode_append t t' h
    obtain ⟨rfl, rfl⟩ := Term.eq_of_encodeItems_append ts ts' h₁
    exact ⟨rfl, rfl⟩

/-- The texts of dictionary entries and the closing `e` tell the entries and what follows. -/
theorem Term.eq_of_encodeEntries_append : ∀ (es es' : List (Bytes × Term)) {r r' : Bytes},
    Term.encodeEntries es ++ leadEnd :: r = Term.encodeEntries es' ++ leadEnd :: r' →
      es = es' ∧ r = r'
  | [], [], _, _, h => ⟨rfl, (List.cons.inj h).2⟩
  | [], (k', _) :: _, _, _, h => by
    simp only [Term.encodeEntries, List.nil_append, List.append_assoc] at h
    exact absurd h.symm (stringBytes_append_ne_end k' _ _)
  | (k, _) :: _, [], _, _, h => by
    simp only [Term.encodeEntries, List.nil_append, List.append_assoc] at h
    exact absurd h (stringBytes_append_ne_end k _ _)
  | (k, t) :: es, (k', t') :: es', _, _, h => by
    simp only [Term.encodeEntries, List.append_assoc] at h
    obtain ⟨rfl, h₁⟩ := stringBytes_append_inj h
    obtain ⟨rfl, h₂⟩ := Term.eq_of_encode_append t t' h₁
    obtain ⟨rfl, rfl⟩ := Term.eq_of_encodeEntries_append es es' h₂
    exact ⟨rfl, rfl⟩
end

/-- Different terms have different texts. -/
theorem Term.encode_injective {t t' : Term} (h : t.encode = t'.encode) : t = t' :=
  (@Term.eq_of_encode_append t t' [] [] (by simpa using h)).1

end Unambiguous

/-! ### Reading canonical text -/

section Canonical

variable {limit : Int}

/-- The canonical text of a well-formed value that fits the limit reads back as the value, and
leaves what follows it. -/
theorem parse_encode_value {v : Value} (hv : v.WellFormed)
    (hfit : v.depth = 0 ∨ (v.depth : Int) ≤ limit) (hsize : v.encode.length < Nat.pow 10 digitLimit)
    (r : Bytes) : parse (v.encode ++ r) limit = .ok (v, r) := by
  obtain ⟨t, -, rfl, hd, henc⟩ := Value.exists_term_encode hv
  have hfit' : t.Fits limit 0 := by
    unfold Term.Fits
    rw [hd]
    omega
  rw [henc] at hsize ⊢
  exact parse_encode hfit' hsize r

/-- What reading takes is the canonical text of the value read exactly when the term written
there is ordered; only one term is written there. -/
theorem encode_eq_iff_ordered {data : Bytes} {v : Value} {rest : Bytes}
    (h : parse data limit = .ok (v, rest)) {c : Bytes} (hc : data = c ++ rest) :
    v.encode = c ↔ ∀ t : Term, t.encode = c → t.Ordered := by
  obtain ⟨t₀, hdata, -, rfl⟩ := parse_sound h
  obtain rfl : c = t₀.encode := List.append_cancel_right (hc.symm.trans hdata)
  constructor
  · intro henc t ht
    -- the value's canonical text is that of an ordered term, and no other term has that text
    obtain ⟨u, hu, -, -, hue⟩ := Value.exists_term_encode (Term.wellFormed_value t₀)
    obtain rfl : t = u := Term.encode_injective (ht.trans (henc.symm.trans hue))
    exact hu
  · intro hord
    exact Term.encode_value t₀ (hord t₀ rfl)

/-- Canonical writing and reading agree, under every depth limit. The canonical text of a
well-formed value that nests no deeper than the limit, followed by any bytes, reads back as the
value and leaves those bytes, and `decode` gives the value from its text alone; the text must be
short enough for its length prefixes to be read, as every text that can be held is. Conversely,
whenever reading takes a value from the front of a text, the bytes it took are the value's
canonical text exactly when every dictionary written in them lists its keys in strictly
ascending raw-byte order. -/
theorem parse_canonical (limit : Int) :
    (∀ v : Value, v.WellFormed → (v.depth = 0 ∨ (v.depth : Int) ≤ limit) →
      v.encode.length < Nat.pow 10 digitLimit →
      ∀ r, parse (v.encode ++ r) limit = .ok (v, r) ∧ decode v.encode limit = .ok v) ∧
    (∀ data v rest, parse data limit = .ok (v, rest) → ∀ c, data = c ++ rest →
      (v.encode = c ↔ ∀ t : Term, t.encode = c → t.Ordered)) := by
  refine ⟨fun v hv hfit hsize r ↦ ⟨parse_encode_value hv hfit hsize r, ?_⟩,
    fun data v rest h c hc ↦ encode_eq_iff_ordered h hc⟩
  rw [decode_eq_ok_iff]
  simpa using parse_encode_value hv hfit hsize []

/-- The dictionary `d1:ai7ee`, one key `a` holding 7, is its own canonical text under a depth
limit of one. -/
theorem parse_canonical_one_key :
    (Value.dict [([97], .int 7)]).WellFormed ∧
      ((Value.dict [([97], .int 7)]).depth = 0 ∨ ((Value.dict [([97], .int 7)]).depth : Int) ≤ 1) ∧
      (Value.dict [([97], .int 7)]).encode.length < Nat.pow 10 digitLimit ∧
      (parse ((Value.dict [([97], .int 7)]).encode ++ []) 1 = .ok (.dict [([97], .int 7)], []) ∧
        decode (Value.dict [([97], .int 7)]).encode 1 = .ok (.dict [([97], .int 7)])) ∧
      ((Value.dict [([97], .int 7)]).encode = (Value.dict [([97], .int 7)]).encode ↔
        ∀ t : Term, t.encode = (Value.dict [([97], .int 7)]).encode → t.Ordered) := by
  have hv : (Value.dict [([97], .int 7)]).WellFormed := by decide
  have hd : (Value.dict [([97], .int 7)]).depth = 0 ∨
      ((Value.dict [([97], .int 7)]).depth : Int) ≤ 1 := by decide
  have hs : (Value.dict [([97], .int 7)]).encode.length < Nat.pow 10 digitLimit :=
    lt_pow_digitLimit (by decide)
  have hread := (parse_canonical 1).1 _ hv hd hs []
  exact ⟨hv, hd, hs, hread, (parse_canonical 1).2 _ _ _ hread.1 _ rfl⟩

end Canonical

end TorrentPrune.Bencode
