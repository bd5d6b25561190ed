import TorrentPrune.Proofs.Fs.Resolution

/-!
# Volumes after removals

A volume `w` lies within a volume `v` when every node of `w` stands at the same location in `v`
and is of the same kind there: a directory, a file, or a link with the same target. Erasing a node
keeps a volume within the one before it and keeps it tidy; erasing a leaf (anything but a
directory, or an empty directory) keeps every other node that is not a directory exactly as it
was.

Resolution reads a volume only through the kinds of the nodes it meets and the targets of links,
so a path that leads to a node of `w` leads to the same location in every volume `w` lies within.
Whatever a later call finds through a path, it finds where the first volume had it.
-/

namespace TorrentPrune.Fs

open TorrentPrune.Path

/-- Two nodes of one kind: directories, files, or links with the same target. -/
def Node.Like : Node → Node → Prop
  | .dir _, .dir _ => True
  | .file _ _, .file _ _ => True
  | .link a, .link b => a = b
  | _, _ => False

/-- A node that holds no other: anything but a directory, or an empty directory. -/
def Node.Leaf (x : Node) : Prop := ∀ E, x = .dir E → E = []

/-- Every node below the entries `es'` stands at the same location below `es`, of the same
kind. -/
def EntriesWithin (es' es : List (String × Node)) : Prop :=
  ∀ loc y, nodeIn es' loc = some y → ∃ x, nodeIn es loc = some x ∧ y.Like x

/-- Every node of `w` stands at the same location in `v`, of the same kind. -/
def Volume.Within (w v : Volume) : Prop := EntriesWithin w.root v.root

theorem Node.Like.refl (x : Node) : x.Like x := by
  cases x <;> simp [Node.Like]

theorem Node.Like.trans {x y z : Node} (h₁ : x.Like y) (h₂ : y.Like z) : x.Like z := by
  cases x <;> cases y <;> cases z <;> simp_all [Node.Like]

/-- Nodes of one kind are both directories or both not. -/
theorem Node.Like.isDir_eq {x y : Node} (h : x.Like y) : x.isDir = y.isDir := by
  cases x <;> cases y <;> simp_all [Node.Like, Node.isDir]

/-- A node other than a directory is a leaf. -/
theorem Node.leaf_of_not_dir {x : Node} (hx : x.isDir = false) : x.Leaf := by
  rintro E rfl
  simp [Node.isDir] at hx

/-- An empty directory is a leaf. -/
theorem Node.leaf_dir_nil : (Node.dir []).Leaf := fun _ h ↦ (Node.dir.inj h).symm

/-! ### Lookups after a change of one directory -/

/-- A lookup through a name reads only the entry under that name. -/
theorem nodeIn_cons_congr {es es' : List (String × Node)} {l : String}
    (h : findEntry es' l = findEntry es l) (rest : Loc) :
    nodeIn es' (l :: rest) = nodeIn es (l :: rest) := by
  unfold nodeIn
  rw [h]

/-- Below one name, something stands only where a directory does. -/
theorem nodeIn_cons_of_ne_nil {es : List (String × Node)} {l : String} {rest : Loc} {x : Node}
    (hr : rest ≠ []) (h : nodeIn es (l :: rest) = some x) :
    ∃ sub, findEntry es l = some (.dir sub) ∧ nodeIn sub rest = some x := by
  unfold nodeIn at h
  split at h
  · next sub hf => exact ⟨sub, hf, h⟩
  · exact absurd rfl hr
  · cases h

/-- A node below a location lies in a directory standing there, under a name it has. -/
theorem nodeIn_append_cons {es : List (String × Node)} {loc rest : Loc} {m : String} {x : Node}
    (h : nodeIn es (loc ++ m :: rest) = some x) :
    ∃ E, nodeIn es loc = some (.dir E) ∧ (findEntry E m).isSome := by
  induction loc generalizing es with
  | nil =>
    refine ⟨es, rfl, ?_⟩
    cases hf : findEntry es m with
    | some y => rfl
    | none => cases rest <;> simp [nodeIn, hf] at h
  | cons l loc ih =>
    obtain ⟨sub, hf, hs⟩ := nodeIn_cons_of_ne_nil (by simp) h
    rw [nodeIn_cons_of_dir loc hf]
    exact ih hs

/-- Dropping a name hides exactly that name. -/
theorem findEntry_dropEntry (n m : String) (es : List (String × Node)) :
    findEntry (dropEntry n es) m = if m = n then none else findEntry es m := by
  induction es with
  | nil => simp [dropEntry]
  | cons e rest ih =>
    obtain ⟨k, x⟩ := e
    by_cases hk : k = n
    · subst hk
      have hdrop : dropEntry k ((k, x) :: rest) = dropEntry k rest := by simp [dropEntry]
      rw [hdrop, ih]
      by_cases hm : m = k
      · simp [hm]
      · simp [hm, Ne.symm hm]
    · have hdrop : dropEntry n ((k, x) :: rest) = (k, x) :: dropEntry n rest := by
        simp [dropEntry, hk]
      rw [hdrop, findEntry_cons, findEntry_cons, ih]
      by_cases hm : m = n
      · subst hm
        simp [hk]
      · simp [hm]

/-- Putting a node under a name leaves the lookups of other names alone. -/
theorem findEntry_putEntry_of_ne {name m : String} (x : Node) (es : List (String × Node))
    (h : m ≠ name) : findEntry (putEntry name x es) m = findEntry es m := by
  induction es with
  | nil => simp [putEntry, Ne.symm h]
  | cons e rest ih =>
    obtain ⟨n, y⟩ := e
    simp only [putEntry, beq_iff_eq]
    by_cases h₁ : name = n
    · subst h₁
      simp [Ne.symm h]
    · by_cases h₂ : name < n
      · simp [h₁, h₂, Ne.symm h]
      · simp [h₁, h₂, ih]

/-- What a change of the directory at `D` keeps within, the whole tree keeps within: the change
reaches it through one subdirectory after another, each given its changed self. -/
theorem EntriesWithin.updateDirIn {f : List (String × Node) → List (String × Node)}
    (hf : ∀ E, EntriesWithin (f E) E) {es es' : List (String × Node)} {D : Loc}
    (h : updateDirIn f es D = some es') : EntriesWithin es' es := by
  induction D generalizing es es' with
  | nil =>
    simp only [TorrentPrune.Fs.updateDirIn, Option.some.injEq] at h
    subst h
    exact hf es
  | cons d D ih =>
    simp only [TorrentPrune.Fs.updateDirIn] at h
    split at h
    · next sub hsub =>
      obtain ⟨sub₂, hs, rfl⟩ := Option.map_eq_some_iff.mp h
      intro loc y hy
      cases loc with
      | nil =>
        simp only [nodeIn, Option.some.injEq] at hy
        subst hy
        exact ⟨.dir es, rfl, trivial⟩
      | cons m rest =>
        by_cases hm : m = d
        · subst hm
          rw [nodeIn_cons_of_dir rest (findEntry_putEntry_self m _ es)] at hy
          rw [nodeIn_cons_of_dir rest hsub]
          exact ih hs rest y hy
        · rw [nodeIn_cons_congr (findEntry_putEntry_of_ne _ es hm)] at hy
          exact ⟨y, hy, Node.Like.refl y⟩
    · cases h

/-- Dropping a name keeps the entries within what they were. -/
theorem EntriesWithin.dropEntry (n : String) (E : List (String × Node)) :
    EntriesWithin (TorrentPrune.Fs.dropEntry n E) E := by
  intro loc y hy
  cases loc with
  | nil =>
    simp only [nodeIn, Option.some.injEq] at hy
    subst hy
    exact ⟨.dir E, rfl, trivial⟩
  | cons m rest =>
    by_cases hm : m = n
    · -- the dropped name leads nowhere
      have hf : findEntry (TorrentPrune.Fs.dropEntry n E) m = findEntry [] m := by
        simp [findEntry_dropEntry, hm]
      rw [nodeIn_cons_congr hf] at hy
      cases rest <;> simp [nodeIn] at hy
    · have hf : findEntry (TorrentPrune.Fs.dropEntry n E) m = findEntry E m := by
        simp [findEntry_dropEntry, hm]
      rw [nodeIn_cons_congr hf] at hy
      exact ⟨y, hy, Node.Like.refl y⟩

/-- Dropping the name `n` from the directory at `D` keeps every node that is not a directory and
does not lie at or below `D ++ [n]`: the change goes down through one subdirectory after another,
and a node off that way is not touched. -/
theorem nodeIn_updateDirIn_dropEntry {n : String} {es es' : List (String × Node)} {D : Loc}
    (h : updateDirIn (dropEntry n) es D = some es') {M : Loc} {x : Node}
    (hM : nodeIn es M = some x) (hx : x.isDir = false) (hL : ¬ (D ++ [n]) <+: M) :
    nodeIn es' M = some x := by
  induction D generalizing es es' M with
  | nil =>
    simp only [updateDirIn, Option.some.injEq] at h
    subst h
    cases M with
    | nil =>
      simp only [nodeIn, Option.some.injEq] at hM
      subst hM
      simp [Node.isDir] at hx
    | cons m rest =>
      have hm : m ≠ n := by
        rintro rfl
        exact hL (by simp)
      have hf : findEntry (dropEntry n es) m = findEntry es m := by
        simp [findEntry_dropEntry, hm]
      rw [nodeIn_cons_congr hf]
      exact hM
  | cons d D ih =>
    simp only [updateDirIn] at h
    split at h
    · next sub hsub =>
      obtain ⟨sub₂, hs, rfl⟩ := Option.map_eq_some_iff.mp h
      cases M with
      | nil =>
        simp only [nodeIn, Option.some.injEq] at hM
        subst hM
        simp [Node.isDir] at hx
      | cons m rest =>
        by_cases hm : m = d
        · subst hm
          rw [nodeIn_cons_of_dir rest (findEntry_putEntry_self m _ es)]
          rw [nodeIn_cons_of_dir rest hsub] at hM
          exact ih hs hM (fun hp ↦ hL (by simpa using hp))
        · rw [nodeIn_cons_congr (findEntry_putEntry_of_ne _ es hm)]
          exact hM
    · cases h

/-- Dropping the name `n` from the directory at `D` keeps a node at every location that does not
lie at or below `D ++ [n]` and had one, and adds none. -/
theorem nodeIn_updateDirIn_dropEntry_isSome {n : String} {es es' : List (String × Node)}
    {D : Loc} (h : updateDirIn (dropEntry n) es D = some es') {M : Loc}
    (hL : ¬ (D ++ [n]) <+: M) : (nodeIn es' M).isSome = (nodeIn es M).isSome := by
  induction D generalizing es es' M with
  | nil =>
    simp only [updateDirIn, Option.some.injEq] at h
    subst h
    cases M with
    | nil => rfl
    | cons m rest =>
      have hm : m ≠ n := by
        rintro rfl
        exact hL (by simp)
      have hf : findEntry (dropEntry n es) m = findEntry es m := by
        simp [findEntry_dropEntry, hm]
      rw [nodeIn_cons_congr hf]
  | cons d D ih =>
    simp only [updateDirIn] at h
    split at h
    · next sub hsub =>
      obtain ⟨sub₂, hs, rfl⟩ := Option.map_eq_some_iff.mp h
      cases M with
      | nil => rfl
      | cons m rest =>
        by_cases hm : m = d
        · subst hm
          rw [nodeIn_cons_of_dir rest (findEntry_putEntry_self m _ es),
            nodeIn_cons_of_dir rest hsub]
          exact ih hs (fun hp ↦ hL (by simpa using hp))
        · rw [nodeIn_cons_congr (findEntry_putEntry_of_ne _ es hm)]
    · cases h

/-! ### Tidiness after a change -/

/-- Giving a name a tidy node, or dropping it, keeps tidy entries tidy. -/
theorem EntriesTidy.setEntry {es : List (String × Node)} (hT : EntriesTidy es) (name : String)
    {r : Option Node} (hr : ∀ y ∈ r, y.Tidy) : EntriesTidy (TorrentPrune.Fs.setEntry name r es) := by
  induction es with
  | nil => trivial
  | cons e rest ih =>
    obtain ⟨n, x⟩ := e
    obtain ⟨hn, hlt, hx, hrest⟩ := hT
    by_cases h : n = name
    · cases r with
      | none => simpa [TorrentPrune.Fs.setEntry, h] using hrest
      | some y =>
        simp only [TorrentPrune.Fs.setEntry, h, if_true, Option.map_some, Option.toList_some,
          List.singleton_append]
        exact ⟨h ▸ hn, h ▸ hlt, hr y rfl, hrest⟩
    · simp only [TorrentPrune.Fs.setEntry, h, if_false]
      refine ⟨hn, fun e he ↦ ?_, hx, ih hrest⟩
      have hs : e.1 ∈ names rest :=
        (names_setEntry_sublist name r rest).subset (List.mem_map_of_mem he)
      simp only [names, List.mem_map] at hs
      obtain ⟨e', he', hee⟩ := hs
      rw [← hee]
      exact hlt e' he'

/-- A change of one directory that keeps its entries tidy keeps the whole tree tidy. -/
theorem EntriesTidy.updateDirIn {f : List (String × Node) → List (String × Node)}
    (hf : ∀ E, EntriesTidy E → EntriesTidy (f E)) {es es' : List (String × Node)} {D : Loc}
    (hT : EntriesTidy es) (h : TorrentPrune.Fs.updateDirIn f es D = some es') : EntriesTidy es' := by
  induction D generalizing es es' with
  | nil =>
    simp only [TorrentPrune.Fs.updateDirIn, Option.some.injEq] at h
    subst h
    exact hf es hT
  | cons d D ih =>
    simp only [TorrentPrune.Fs.updateDirIn] at h
    split at h
    · next sub hsub =>
      obtain ⟨sub₂, hs, rfl⟩ := Option.map_eq_some_iff.mp h
      have hmem := mem_of_findEntry hsub
      have hsub₂ : EntriesTidy sub₂ := ih (hT.of_mem hmem).2 hs
      rw [putEntry_eq_setEntry _ hT.sorted (List.mem_map_of_mem hmem)]
      exact hT.setEntry d (fun y hy ↦ by cases hy; exact hsub₂)
    · cases h

/-- Dropping a name keeps tidy entries tidy. -/
theorem EntriesTidy.dropEntry {E : List (String × Node)} (hT : EntriesTidy E) (n : String) :
    EntriesTidy (TorrentPrune.Fs.dropEntry n E) := by
  rw [dropEntry_eq_setEntry n (nodup_of_sorted hT.sorted)]
  exact hT.setEntry n (fun _ hy ↦ by cases hy)

/-! ### Volumes -/

namespace Volume

/-- Read through `node?`: a node of `w` stands in `v`, of the same kind. -/
theorem Within.node? {w v : Volume} (h : w.Within v) {loc : Loc} {y : Node}
    (hy : w.node? loc = some y) : ∃ x, v.node? loc = some x ∧ y.Like x := by
  rw [node?_eq_nodeIn] at hy ⊢
  exact h loc y hy

theorem Within.refl (v : Volume) : v.Within v :=
  fun _ y h ↦ ⟨y, h, Node.Like.refl y⟩

theorem Within.trans {u w v : Volume} (h₁ : u.Within w) (h₂ : w.Within v) : u.Within v := by
  intro loc y hy
  obtain ⟨z, hz, hyz⟩ := h₁ loc y hy
  obtain ⟨x, hx, hzx⟩ := h₂ loc z hz
  exact ⟨x, hx, hyz.trans hzx⟩

/-- A directory of `w` is a directory of every volume `w` lies within. -/
theorem Within.dir {w v : Volume} (h : w.Within v) {loc : Loc} {E : List (String × Node)}
    (hE : w.node? loc = some (.dir E)) : ∃ E', v.node? loc = some (.dir E') := by
  obtain ⟨x, hx, hl⟩ := h.node? hE
  cases x with
  | dir E' => exact ⟨E', hx⟩
  | file id c => simp [Node.Like] at hl
  | link t => simp [Node.Like] at hl

/-- A node below a location lies in a directory standing there, under a name it has. -/
theorem node?_append_cons {v : Volume} {loc rest : Loc} {m : String} {x : Node}
    (h : v.node? (loc ++ m :: rest) = some x) :
    ∃ E, v.node? loc = some (.dir E) ∧ (findEntry E m).isSome := by
  rw [node?_eq_nodeIn] at h ⊢
  exact nodeIn_append_cons h

/-- Every location above a node holds a directory. -/
theorem dir_of_prefix_of_ne {v : Volume} {D M : Loc} {x : Node} (h : v.node? M = some x)
    (hp : D <+: M) (hne : D ≠ M) : ∃ E, v.node? D = some (.dir E) := by
  obtain ⟨t, rfl⟩ := hp
  cases t with
  | nil => simp at hne
  | cons m rest =>
    obtain ⟨E, hE, -⟩ := node?_append_cons h
    exact ⟨E, hE⟩

/-- A leaf has nothing below it: a location that holds a node and starts with the leaf's
location is the leaf's. -/
theorem eq_of_prefix_of_leaf {v : Volume} {L M : Loc} {y x : Node} (hL : v.node? L = some y)
    (hy : y.Leaf) (hM : v.node? M = some x) (hp : L <+: M) : L = M := by
  obtain ⟨t, rfl⟩ := hp
  cases t with
  | nil => simp
  | cons m rest =>
    obtain ⟨E, hE, hm⟩ := node?_append_cons hM
    rw [hL, Option.some.injEq] at hE
    subst hE
    simp [hy E rfl] at hm

/-- Erasing a location is dropping its last name from the directory above it. -/
theorem erase_eq_some {v w : Volume} {L : Loc} (h : v.erase L = some w) :
    ∃ D n, L = D ++ [n] ∧ v.updateDir D (TorrentPrune.Fs.dropEntry n) = some w := by
  unfold erase at h
  split at h
  · cases h
  · next n hn =>
    obtain ⟨D, rfl⟩ := List.getLast?_eq_some_iff.mp hn
    exact ⟨D, n, rfl, by simpa using h⟩

/-- Erasing keeps a volume within what it was. -/
theorem Within.erase {v w : Volume} {L : Loc} (h : v.erase L = some w) : w.Within v := by
  obtain ⟨D, n, -, hw⟩ := erase_eq_some h
  obtain ⟨r, hr, rfl⟩ := Option.map_eq_some_iff.mp hw
  exact EntriesWithin.updateDirIn (EntriesWithin.dropEntry n) hr

/-- Erasing keeps a tidy volume tidy. -/
theorem Tidy.erase {v w : Volume} {L : Loc} (hT : v.Tidy) (h : v.erase L = some w) : w.Tidy := by
  obtain ⟨D, n, -, hw⟩ := erase_eq_some h
  obtain ⟨r, hr, rfl⟩ := Option.map_eq_some_iff.mp hw
  exact EntriesTidy.updateDirIn (fun E hE ↦ hE.dropEntry n) hT hr

/-- Erasing a leaf keeps every other node that is not a directory. -/
theorem node?_erase_of_ne {v w : Volume} {L M : Loc} (h : v.erase L = some w) {y x : Node}
    (hL : v.node? L = some y) (hy : y.Leaf) (hM : v.node? M = some x) (hx : x.isDir = false)
    (hne : M ≠ L) : w.node? M = some x := by
  obtain ⟨D, n, rfl, hw⟩ := erase_eq_some h
  obtain ⟨r, hr, rfl⟩ := Option.map_eq_some_iff.mp hw
  have hp : ¬ (D ++ [n]) <+: M := fun hp ↦ hne (eq_of_prefix_of_leaf hL hy hM hp).symm
  rw [node?_eq_nodeIn] at hM ⊢
  exact nodeIn_updateDirIn_dropEntry hr hM hx hp

/-- Erasing a location keeps a node at every location not at or below it that had one, and adds
none. -/
theorem isSome_node?_erase {v w : Volume} {L M : Loc} (h : v.erase L = some w)
    (hM : ¬ L <+: M) : (w.node? M).isSome = (v.node? M).isSome := by
  obtain ⟨D, n, rfl, hw⟩ := erase_eq_some h
  obtain ⟨r, hr, rfl⟩ := Option.map_eq_some_iff.mp hw
  rw [node?_eq_nodeIn, node?_eq_nodeIn]
  exact nodeIn_updateDirIn_dropEntry_isSome hr hM

/-- Erasing a location leaves nothing there. -/
theorem node?_erase_self {v w : Volume} {L : Loc} (h : v.erase L = some w) : w.node? L = none := by
  obtain ⟨D, n, rfl, hw⟩ := erase_eq_some h
  obtain ⟨E, -, hE⟩ := node?_of_updateDir hw
  rw [node?_append hE, findEntry_dropEntry, if_pos rfl]

/-- Where a volume has nothing, no volume within it has anything. -/
theorem Within.node?_eq_none {w v : Volume} (h : w.Within v) {loc : Loc}
    (hv : v.node? loc = none) : w.node? loc = none := by
  cases hw : w.node? loc with
  | none => rfl
  | some y =>
    obtain ⟨x, hx, -⟩ := h.node? hw
    rw [hv] at hx
    cases hx

/-- In a tidy volume, the names leading down from a location to a node are valid names. -/
theorem Tidy.valid_of_node? {v : Volume} (hT : v.Tidy) {x : Node} :
    ∀ {L : Loc} {ds : List String}, v.node? (L ++ ds) = some x → ∀ d ∈ ds, ValidName d
  | _, [], _ => by simp
  | L, d :: rest, h => by
    obtain ⟨E, hE, hd⟩ := node?_append_cons h
    obtain ⟨y, hy⟩ := Option.isSome_iff_exists.mp hd
    have hvalid : ValidName d := ((hT.dir hE).of_mem (mem_of_findEntry hy)).1
    have hrest := @Tidy.valid_of_node? v hT x (L ++ [d]) rest (by simpa using h)
    intro e he
    rcases List.mem_cons.mp he with rfl | he
    · exact hvalid
    · exact hrest e he

end Volume

/-- A walk through `w` takes the same way through every volume `w` lies within: it meets nodes of
the same kinds there, and links with the same targets. It ends at the same place when it ends at
a node of `w`, or where `v` holds no link. -/
theorem walk_of_within_ends {w v : Volume} (hw : w.Within v) {fl : Bool} {F links : Nat}
    {cur L : Loc} {cs : List String} (h : walk w fl F links cur cs = .ok L)
    (hL : (w.node? L).isSome ∨ ∀ t, v.node? L ≠ some (.link t)) :
    walk v fl F links cur cs = .ok L := by
  induction F generalizing links cur cs with
  | zero =>
    cases cs with
    | nil => simpa [walk] using h
    | cons c rest => simp [walk] at h
  | succ F ih =>
    cases cs with
    | nil => simpa [walk] using h
    | cons c rest =>
      simp only [walk] at h ⊢
      by_cases h₁ : (c == "" || c == ".") = true
      · rw [if_pos h₁] at h ⊢
        exact ih h
      rw [if_neg h₁] at h ⊢
      by_cases h₂ : (c == "..") = true
      · rw [if_pos h₂] at h ⊢
        exact ih h
      rw [if_neg h₂] at h ⊢
      cases hc : w.node? (cur ++ [c]) with
      | none =>
        -- only a missing last component is accepted, where `v` holds no link
        simp only [hc] at h
        split at h
        · next hr =>
          cases h
          obtain rfl : rest = [] := List.isEmpty_iff.mp hr
          have hv : ∀ t, v.node? (cur ++ [c]) ≠ some (.link t) := by
            rcases hL with hL | hL
            · simp [hc] at hL
            · exact hL
          cases hx : v.node? (cur ++ [c]) with
          | none => simp
          | some x =>
            cases x with
            | dir es => cases F <;> simp [walk]
            | file id content => simp
            | link t => exact absurd hx (hv t)
        · cases h
      | some y =>
        obtain ⟨x, hx, hyx⟩ := hw.node? hc
        cases y with
        | file id content =>
          cases x <;> simp only [Node.Like] at hyx
          simpa [hc, hx] using h
        | dir es =>
          cases x <;> simp only [Node.Like] at hyx
          simp only [hc] at h
          simp only [hx]
          exact ih h
        | link t =>
          cases x <;> simp only [Node.Like] at hyx
          subst hyx
          simp only [hc] at h
          simp only [hx]
          by_cases h₃ : (rest.isEmpty && !fl) = true
          · simpa [h₃] using h
          rw [if_neg h₃] at h ⊢
          by_cases h₄ : linkLimit ≤ links
          · simp [h₄] at h
          rw [if_neg h₄] at h ⊢
          exact ih h

/-- A walk through `w` that ends at a node of `w` takes the same way through every volume `w` lies
within. -/
theorem walk_of_within {w v : Volume} (hw : w.Within v) {fl : Bool} {F links : Nat} {cur L : Loc}
    {cs : List String} (h : walk w fl F links cur cs = .ok L) (hL : (w.node? L).isSome) :
    walk v fl F links cur cs = .ok L :=
  walk_of_within_ends hw h (.inl hL)

/-- A path that leads to a node of `w` leads to the same location in every volume `w` lies
within. -/
theorem Volume.locate_of_within {w v : Volume} (hw : w.Within v) {cwd p : String} {fl : Bool}
    {L : Loc} (h : w.locate cwd p fl = .ok L) (hL : (w.node? L).isSome) :
    v.locate cwd p fl = .ok L := by
  unfold Volume.locate at h ⊢
  by_cases hp : p.isEmpty = true
  · simp [hp] at h
  rw [if_neg hp] at h ⊢
  -- the length check reads the path alone, the same for both volumes
  by_cases hlong : pathMax ≤ byteLength p
  · simp [hlong] at h
  rw [if_neg hlong] at h ⊢
  exact walk_of_within hw h hL

/-- Where a path leads to a node of `w`, it leads in every volume `w` lies within, and nowhere
else. -/
theorem Volume.locate_eq_of_within {w v : Volume} (hw : w.Within v) {cwd p : String} {fl : Bool}
    {L L' : Loc} (h : w.locate cwd p fl = .ok L) (hL : (w.node? L).isSome)
    (h' : v.locate cwd p fl = .ok L') : L = L' := by
  rw [Volume.locate_of_within hw h hL] at h'
  exact Except.ok.inj h'

namespace Volume

/-- An unlink that succeeds erases a node other than a directory, at the location its path leads
to without following a last link. -/
theorem unlink_eq_ok {v w : Volume} {cwd p : String} (h : v.unlink cwd p = .ok w) :
    ∃ L y, v.locate cwd p false = .ok L ∧ v.node? L = some y ∧ y.isDir = false ∧
      v.erase L = some w := by
  unfold unlink resolve at h
  split at h
  · cases h
  · split at h
    · next L hL =>
      simp only [bind, Except.bind] at h
      split at h
      · cases h
      · cases h
      · next y hnd hy =>
        split at h
        · next w' hw =>
          cases h
          refine ⟨L, y, hL, hy, ?_, hw⟩
          cases y with
          | dir es => exact absurd rfl (hnd es)
          | file id c => rfl
          | link t => rfl
        · cases h
    · cases h

/-- An rmdir that succeeds erases an empty directory, at the location its path leads to without
following a last link. -/
theorem rmdir_eq_ok {v w : Volume} {cwd p : String} (h : v.rmdir cwd p = .ok w) :
    ∃ L, v.locate cwd p false = .ok L ∧ v.node? L = some (.dir []) ∧ v.erase L = some w := by
  unfold rmdir resolve at h
  split at h
  · cases h
  · split at h
    · next L hL =>
      simp only [bind, Except.bind] at h
      split at h
      · cases h
      · next hy =>
        split at h
        · next w' hw =>
          cases h
          exact ⟨L, hL, hy, hw⟩
        · cases h
      · cases h
      · cases h
    · cases h

end Volume

end TorrentPrune.Fs
