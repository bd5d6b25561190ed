import Mathlib.Data.List.Basic
import TorrentPrune.Fs.Calls

/-!
# Tidy directories

A directory of a real file system holds each name once, and no name is empty, `.` or `..`, or
holds a separator or a NUL character; a volume also keeps the names of a directory in ascending
order. This module states that shape (`ValidName`, `EntriesTidy`, `Node.Tidy`, `Volume.Tidy`) and
the laws of the entry operations: a lookup finds the one entry of a name, replacing or dropping an
entry touches no other, and changing a directory deep in a volume is changing its parent's entry
for it.

`setEntry` says in one function what `putEntry` and `dropEntry` do to the entry of a name present
in a tidy list: it gets a new node, or it goes. `settle` is a directory after some of its entries
have met their outcome, the others untouched; a pass over a directory settles it name by name.
-/

namespace TorrentPrune.Fs

/-- A name a directory entry can carry: not empty, not `.` or `..`, without a separator and
without a NUL character. -/
def ValidName (n : String) : Prop :=
  n ≠ "" ∧ n ≠ "." ∧ n ≠ ".." ∧ '/' ∉ n.toList ∧ Char.ofNat 0 ∉ n.toList

mutual
/-- Every directory at or below the node holds tidy entries. -/
def Node.Tidy : Node → Prop
  | .dir es => EntriesTidy es
  | _ => True

/-- Valid names in strictly ascending order, every directory among the entries tidy as well. -/
def EntriesTidy : List (String × Node) → Prop
  | [] => True
  | (n, x) :: rest => ValidName n ∧ (∀ e ∈ rest, n < e.1) ∧ x.Tidy ∧ EntriesTidy rest
end

/-- A volume whose root directory is tidy. -/
def Volume.Tidy (v : Volume) : Prop := EntriesTidy v.root

instance (n : String) : Decidable (ValidName n) := by
  unfold ValidName
  infer_instance

mutual
/-- Whether a node is tidy is decided by reading it. -/
def Node.decTidy : (x : Node) → Decidable x.Tidy
  | .dir es => decEntriesTidy es
  | .file _ _ => isTrue trivial
  | .link _ => isTrue trivial

/-- Whether entries are tidy is decided by reading them. -/
def decEntriesTidy : (es : List (String × Node)) → Decidable (EntriesTidy es)
  | [] => isTrue trivial
  | (n, x) :: rest =>
    have := Node.decTidy x
    have := decEntriesTidy rest
    inferInstanceAs (Decidable (ValidName n ∧ (∀ e ∈ rest, n < e.1) ∧ x.Tidy ∧ EntriesTidy rest))
end

instance : DecidablePred Node.Tidy := Node.decTidy

instance : DecidablePred EntriesTidy := decEntriesTidy

instance : DecidablePred Volume.Tidy := fun v ↦ decEntriesTidy v.root

/-- The names of directory entries, in order. -/
def names (es : List (String × Node)) : List String := es.map Prod.fst

/-- The entries with the node under `name` replaced by `r`, or that entry taken away when `r` is
`none`; entries under other names stay as they are. -/
def setEntry (name : String) (r : Option Node) : List (String × Node) → List (String × Node)
  | [] => []
  | (n, x) :: rest =>
    if n = name then (r.map (n, ·)).toList ++ rest else (n, x) :: setEntry name r rest

/-- The entries once those under the names in `done` have met their outcome under `g`: each of
them stays with a new node or goes, and every other entry is as it was. -/
def settle (g : String × Node → Option Node) (done : List String) (es : List (String × Node)) :
    List (String × Node) :=
  es.filterMap fun e ↦ if e.1 ∈ done then (g e).map (e.1, ·) else some e

@[simp] theorem names_nil : names [] = [] := rfl

@[simp] theorem names_cons (e : String × Node) (es : List (String × Node)) :
    names (e :: es) = e.1 :: names es := rfl

/-- A lookup looks at the first entry, and past it only when the name differs. -/
@[simp] theorem findEntry_cons (n m : String) (x : Node) (rest : List (String × Node)) :
    findEntry ((n, x) :: rest) m = if n = m then some x else findEntry rest m := by
  unfold findEntry
  by_cases h : n = m
  · simp [h]
  · simp [beq_eq_false_iff_ne.mpr h, h]

@[simp] theorem findEntry_nil (m : String) : findEntry [] m = none := rfl

/-- A name that no entry carries is not found. -/
theorem findEntry_eq_none {es : List (String × Node)} {m : String} (h : m ∉ names es) :
    findEntry es m = none := by
  induction es with
  | nil => rfl
  | cons e rest ih =>
    obtain ⟨n, x⟩ := e
    simp only [names_cons, List.mem_cons, not_or] at h
    simp [Ne.symm h.1, ih h.2]

/-- An entry found under a name is a member of the list. -/
theorem mem_of_findEntry {es : List (String × Node)} {m : String} {x : Node}
    (h : findEntry es m = some x) : (m, x) ∈ es := by
  induction es with
  | nil => simp at h
  | cons e rest ih =>
    obtain ⟨n, y⟩ := e
    simp only [findEntry_cons] at h
    split at h
    · next hn => cases h; simp [hn]
    · exact List.mem_cons_of_mem _ (ih h)

/-- With distinct names, a member of the list is what a lookup of its name finds. -/
theorem findEntry_of_mem {es : List (String × Node)} {m : String} {x : Node}
    (hd : (names es).Nodup) (h : (m, x) ∈ es) : findEntry es m = some x := by
  induction es with
  | nil => simp at h
  | cons e rest ih =>
    obtain ⟨n, y⟩ := e
    simp only [names_cons, List.nodup_cons] at hd
    rcases List.mem_cons.mp h with same | later
    · cases same; simp
    · have hne : n ≠ m := by
        rintro rfl
        exact hd.1 (List.mem_map_of_mem (f := Prod.fst) later)
      simp [hne, ih hd.2 later]

/-- Looking up a name after a lookup has found it under a new node gives that node, whatever
the order of the list. -/
theorem findEntry_putEntry_self (name : String) (x : Node) (es : List (String × Node)) :
    findEntry (putEntry name x es) name = some x := by
  induction es with
  | nil => simp [putEntry]
  | cons e rest ih =>
    obtain ⟨n, y⟩ := e
    simp only [putEntry, beq_iff_eq]
    by_cases h₁ : name = n
    · simp [h₁]
    · by_cases h₂ : name < n
      · simp [h₁, h₂]
      · simp [h₁, h₂, Ne.symm h₁, ih]

/-- Putting a node under a name twice keeps only the second. -/
theorem putEntry_putEntry (name : String) (x y : Node) (es : List (String × Node)) :
    putEntry name x (putEntry name y es) = putEntry name x es := by
  induction es with
  | nil => simp [putEntry]
  | cons e rest ih =>
    obtain ⟨n, m⟩ := e
    simp only [putEntry, beq_iff_eq]
    by_cases h₁ : name = n
    · simp [h₁, putEntry]
    · by_cases h₂ : name < n
      · simp [h₁, h₂, putEntry]
      · simp [h₁, h₂, putEntry, ih]

/-- Tidy entries carry their names in strictly ascending order. -/
theorem EntriesTidy.sorted {es : List (String × Node)} (h : EntriesTidy es) :
    (names es).Pairwise (· < ·) := by
  induction es with
  | nil => simp
  | cons e rest ih =>
    obtain ⟨n, x⟩ := e
    obtain ⟨-, hlt, -, hrest⟩ := h
    simp only [names_cons, List.pairwise_cons]
    refine ⟨fun m hm ↦ ?_, ih hrest⟩
    obtain ⟨e, he, rfl⟩ := List.mem_map.mp hm
    exact hlt e he

/-- Names in strictly ascending order are distinct. -/
theorem nodup_of_sorted {ns : List String} (h : ns.Pairwise (· < ·)) : ns.Nodup :=
  h.imp fun hlt ↦ String.ne_of_lt hlt

/-- Every entry of a tidy list has a valid name and a tidy node. -/
theorem EntriesTidy.of_mem {es : List (String × Node)} (h : EntriesTidy es) {n : String}
    {x : Node} (hm : (n, x) ∈ es) : ValidName n ∧ x.Tidy := by
  induction es with
  | nil => simp at hm
  | cons e rest ih =>
    obtain ⟨m, y⟩ := e
    obtain ⟨hv, -, hy, hrest⟩ := h
    rcases List.mem_cons.mp hm with same | later
    · cases same; exact ⟨hv, hy⟩
    · exact ih hrest later

/-- A subdirectory stands lower than the directory holding it. -/
theorem entriesHeight_lt_of_mem {es c : List (String × Node)} {n : String}
    (hm : (n, .dir c) ∈ es) : entriesHeight c < entriesHeight es := by
  induction es with
  | nil => simp at hm
  | cons e rest ih =>
    obtain ⟨m, y⟩ := e
    rcases List.mem_cons.mp hm with same | later
    · cases same
      simp only [entriesHeight, Node.height]
      omega
    · have := ih later
      simp only [entriesHeight]
      omega

/-- Giving a name a new node or dropping it only ever removes names. -/
theorem names_setEntry_sublist (name : String) (r : Option Node) (es : List (String × Node)) :
    (names (setEntry name r es)).Sublist (names es) := by
  induction es with
  | nil => simp [setEntry]
  | cons e rest ih =>
    obtain ⟨n, x⟩ := e
    by_cases h : n = name
    · cases r <;> simp [setEntry, h]
    · simpa [setEntry, h] using ih

/-- A lookup of another name does not see the change. -/
theorem findEntry_setEntry_of_ne {name m : String} (r : Option Node) (es : List (String × Node))
    (h : m ≠ name) : findEntry (setEntry name r es) m = findEntry es m := by
  induction es with
  | nil => rfl
  | cons e rest ih =>
    obtain ⟨n, x⟩ := e
    by_cases hn : n = name
    · subst hn
      cases r <;> simp [setEntry, Ne.symm h]
    · by_cases hm : n = m
      · subst hm
        simp [setEntry, hn]
      · simp [setEntry, hn, hm, ih]

/-- With distinct names, a lookup of the changed name finds the new node, or nothing. -/
theorem findEntry_setEntry_self {name : String} (r : Option Node) {es : List (String × Node)}
    (hd : (names es).Nodup) (hm : name ∈ names es) : findEntry (setEntry name r es) name = r := by
  induction es with
  | nil => simp at hm
  | cons e rest ih =>
    obtain ⟨n, x⟩ := e
    simp only [names_cons, List.nodup_cons] at hd
    by_cases hn : n = name
    · subst hn
      cases r <;> simp [setEntry, findEntry_eq_none hd.1]
    · have hm' : name ∈ names rest := by
        rcases List.mem_cons.mp hm with same | later
        · exact absurd same.symm hn
        · exact later
      simp [setEntry, hn, ih hd.2 hm']

/-- Giving a name the node it already has changes nothing, when names are distinct. -/
theorem setEntry_of_findEntry {name : String} {x : Node} {es : List (String × Node)}
    (hd : (names es).Nodup) (h : findEntry es name = some x) : setEntry name (some x) es = es := by
  induction es with
  | nil => rfl
  | cons e rest ih =>
    obtain ⟨n, y⟩ := e
    simp only [names_cons, List.nodup_cons] at hd
    by_cases hn : n = name
    · subst hn
      simp only [findEntry_cons, if_true, Option.some.injEq] at h
      subst h
      simp [setEntry]
    · simp only [findEntry_cons, hn, if_false] at h
      simp [setEntry, hn, ih hd.2 h]

/-- A second change of a name that was given a node overrides the first. -/
theorem setEntry_setEntry_some (name : String) (r : Option Node) (y : Node)
    (es : List (String × Node)) : setEntry name r (setEntry name (some y) es) = setEntry name r es := by
  induction es with
  | nil => rfl
  | cons e rest ih =>
    obtain ⟨n, x⟩ := e
    by_cases hn : n = name
    · simp [setEntry, hn]
    · simp [setEntry, hn, ih]

/-- On sorted names, putting a node under a name already present replaces its node in place. -/
theorem putEntry_eq_setEntry {name : String} (x : Node) {es : List (String × Node)}
    (hs : (names es).Pairwise (· < ·)) (hm : name ∈ names es) :
    putEntry name x es = setEntry name (some x) es := by
  induction es with
  | nil => simp at hm
  | cons e rest ih =>
    obtain ⟨n, y⟩ := e
    simp only [names_cons, List.pairwise_cons] at hs
    by_cases hn : name = n
    · subst hn
      simp [putEntry, setEntry]
    · have hm' : name ∈ names rest := by
        rcases List.mem_cons.mp hm with same | later
        · exact absurd same hn
        · exact later
      have hlt : ¬ name < n := String.lt_asymm (hs.1 name hm')
      simp [putEntry, setEntry, hn, hlt, Ne.symm hn, ih hs.2 hm']

/-- With distinct names, dropping a name takes away its one entry. -/
theorem dropEntry_eq_setEntry (name : String) {es : List (String × Node)}
    (hd : (names es).Nodup) : dropEntry name es = setEntry name none es := by
  induction es with
  | nil => rfl
  | cons e rest ih =>
    obtain ⟨n, x⟩ := e
    simp only [names_cons, List.nodup_cons] at hd
    by_cases hn : n = name
    · subst hn
      have hkeep : ∀ e ∈ rest, (e.1 != n) = true := by
        intro e he
        have : e.1 ≠ n := fun h ↦ hd.1 (h ▸ List.mem_map_of_mem he)
        simpa using this
      simp [dropEntry, setEntry, List.filter_eq_self.mpr hkeep]
    · have := ih hd.2
      simp only [dropEntry] at this
      simp [dropEntry, setEntry, hn, this]

/-- Settling no name changes nothing. -/
@[simp] theorem settle_nil (g : String × Node → Option Node) (es : List (String × Node)) :
    settle g [] es = es := by
  simp [settle]

/-- The entry of a name not yet settled is the one the directory had. -/
theorem findEntry_settle_of_not_mem (g : String × Node → Option Node) {done : List String}
    (es : List (String × Node)) {m : String} (h : m ∉ done) :
    findEntry (settle g done es) m = findEntry es m := by
  induction es with
  | nil => rfl
  | cons e rest ih =>
    obtain ⟨n, x⟩ := e
    simp only [settle, List.filterMap_cons] at ih ⊢
    by_cases hn : n ∈ done
    · have hne : n ≠ m := fun he ↦ h (he ▸ hn)
      cases g (n, x) <;> simp [hn, hne, ih]
    · simp [hn, ih]

/-- Settling only ever removes names. -/
theorem names_settle_sublist (g : String × Node → Option Node) (done : List String)
    (es : List (String × Node)) : (names (settle g done es)).Sublist (names es) := by
  induction es with
  | nil => simp [settle]
  | cons e rest ih =>
    obtain ⟨n, x⟩ := e
    simp only [settle, List.filterMap_cons] at ih ⊢
    by_cases hn : n ∈ done
    · cases hg : g (n, x)
      · simpa [hn, hg] using ih.cons n
      · simpa [hn, hg] using ih.cons_cons n
    · simpa [hn] using ih.cons_cons n

/-- Giving one more name its outcome settles that name too. -/
theorem setEntry_settle (g : String × Node → Option Node) {done : List String}
    {es : List (String × Node)} (hd : (names es).Nodup) {n : String} {x : Node}
    (hm : (n, x) ∈ es) (hn : n ∉ done) :
    setEntry n (g (n, x)) (settle g done es) = settle g (n :: done) es := by
  induction es with
  | nil => simp at hm
  | cons e rest ih =>
    obtain ⟨m, y⟩ := e
    simp only [names_cons, List.nodup_cons] at hd
    simp only [settle, List.filterMap_cons] at ih ⊢
    rcases List.mem_cons.mp hm with same | later
    · cases same
      have hkeep : rest.filterMap (fun e ↦ if e.1 ∈ n :: done then (g e).map (e.1, ·) else some e)
          = rest.filterMap (fun e ↦ if e.1 ∈ done then (g e).map (e.1, ·) else some e) := by
        apply List.filterMap_congr
        intro e he
        have : e.1 ≠ n := fun h ↦ hd.1 (h ▸ List.mem_map_of_mem he)
        simp [this]
      cases g (n, x) <;> simp [hn, setEntry, ← hkeep]
    · have hne : m ≠ n := fun h ↦ hd.1 (h ▸ List.mem_map_of_mem (f := Prod.fst) later)
      by_cases hmd : m ∈ done
      · cases g (m, y) <;> simp [hmd, hne, setEntry, ih hd.2 later]
      · simp [hmd, hne, setEntry, ih hd.2 later]

/-- Once every name is settled, each entry has met its outcome. -/
theorem settle_of_forall_mem (g : String × Node → Option Node) {done : List String}
    {es : List (String × Node)} (h : ∀ n ∈ names es, n ∈ done) :
    settle g done es = es.filterMap fun e ↦ (g e).map (e.1, ·) := by
  apply List.filterMap_congr
  intro e he
  simp [h e.1 (List.mem_map_of_mem he)]

/-- Settling depends on the names settled, not on their order or repetition. -/
theorem settle_congr (g : String × Node → Option Node) {done done' : List String}
    (es : List (String × Node)) (h : ∀ n ∈ names es, n ∈ done ↔ n ∈ done') :
    settle g done es = settle g done' es := by
  apply List.filterMap_congr
  intro e he
  simp [h e.1 (List.mem_map_of_mem he)]

end TorrentPrune.Fs
