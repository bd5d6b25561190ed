import TorrentPrune.Proofs.Fs.Entries

/-!
# Nodes at locations

`nodeIn es loc` is the node at a location below a directory whose entries are `es`, read one name
at a time; a volume's `node?` is `nodeIn` of its root. Through it, this module relates changes made
deep in a volume to changes of one directory: changing the directory at `loc ++ [n]` is giving the
entry `n` of the directory at `loc` a new node, two changes of one directory are one change, and
erasing an entry is dropping its name from its parent.
-/

namespace TorrentPrune.Fs

/-- The node at a location below a directory with entries `es`; the empty location is that
directory itself. -/
def nodeIn (es : List (String × Node)) : Loc → Option Node
  | [] => some (.dir es)
  | l :: rest =>
    match findEntry es l, rest with
    | some (.dir sub), _ => nodeIn sub rest
    | x, [] => x
    | _, _ :: _ => none

/-- The node at one name is the entry found under it. -/
theorem nodeIn_singleton (es : List (String × Node)) (n : String) :
    nodeIn es [n] = findEntry es n := by
  unfold nodeIn
  split <;> simp_all [nodeIn]

/-- A step down into a subdirectory. -/
theorem nodeIn_cons_of_dir {es sub : List (String × Node)} {l : String} (rest : Loc)
    (h : findEntry es l = some (.dir sub)) : nodeIn es (l :: rest) = nodeIn sub rest := by
  simp [nodeIn, h]

/-- A directory below a directory is reached through a subdirectory named by the first part. -/
theorem nodeIn_cons_eq_dir {es E : List (String × Node)} {l : String} {rest : Loc}
    (h : nodeIn es (l :: rest) = some (.dir E)) :
    ∃ sub, findEntry es l = some (.dir sub) ∧ nodeIn sub rest = some (.dir E) := by
  unfold nodeIn at h
  split at h
  · next sub hf => exact ⟨sub, hf, h⟩
  · next x hx => exact absurd h (hx E)
  · cases h

/-- A volume's node at a location is read from its root directory. -/
theorem Volume.node?_eq_nodeIn (v : Volume) (loc : Loc) : v.node? loc = nodeIn v.root loc := by
  suffices h : ∀ (es : List (String × Node)) (l : String) (rest : Loc),
      lookupIn es (l :: rest) = nodeIn es (l :: rest) by
    cases loc with
    | nil => rfl
    | cons l rest => exact h v.root l rest
  intro es l rest
  induction rest generalizing es l with
  | nil => simp [lookupIn, nodeIn_singleton]
  | cons l₂ rest ih =>
    unfold lookupIn
    cases hf : findEntry es l with
    | none => simp [nodeIn, hf]
    | some x =>
      cases x with
      | dir sub => simp [nodeIn, hf, ih]
      | file id c => simp [nodeIn, hf]
      | link t => simp [nodeIn, hf]

/-- Below a directory at `loc`, the name `n` leads to its entry under `n`. -/
theorem nodeIn_append {es E : List (String × Node)} {loc : Loc}
    (h : nodeIn es loc = some (.dir E)) (n : String) :
    nodeIn es (loc ++ [n]) = findEntry E n := by
  induction loc generalizing es with
  | nil =>
    simp only [nodeIn, Option.some.injEq, Node.dir.injEq] at h
    subst h
    exact nodeIn_singleton es n
  | cons l rest ih =>
    cases rest with
    | nil =>
      rw [nodeIn_singleton] at h
      rw [List.cons_append, List.nil_append, nodeIn_cons_of_dir _ h, nodeIn_singleton]
    | cons l₂ rest₂ =>
      obtain ⟨sub, hf, hs⟩ := nodeIn_cons_eq_dir h
      rw [List.cons_append, nodeIn_cons_of_dir _ hf]
      exact ih hs

/-- The node of a volume at `loc ++ [n]`, when `loc` is a directory. -/
theorem Volume.node?_append {v : Volume} {loc : Loc} {E : List (String × Node)}
    (h : v.node? loc = some (.dir E)) (n : String) : v.node? (loc ++ [n]) = findEntry E n := by
  rw [Volume.node?_eq_nodeIn] at h ⊢
  exact nodeIn_append h n

/-- A change of the directory at a location succeeds only where a directory stands, and leaves
there the changed entries. -/
theorem nodeIn_of_updateDirIn {f : List (String × Node) → List (String × Node)}
    {es es' : List (String × Node)} {loc : Loc} (h : updateDirIn f es loc = some es') :
    ∃ E, nodeIn es loc = some (.dir E) ∧ nodeIn es' loc = some (.dir (f E)) := by
  induction loc generalizing es es' with
  | nil =>
    simp only [updateDirIn, Option.some.injEq] at h
    subst h
    exact ⟨es, rfl, rfl⟩
  | cons l rest ih =>
    simp only [updateDirIn] at h
    split at h
    · next sub hf =>
      obtain ⟨sub₂, hs, rfl⟩ := Option.map_eq_some_iff.mp h
      obtain ⟨E, hE, hE'⟩ := ih hs
      refine ⟨E, ?_, ?_⟩
      · rw [nodeIn_cons_of_dir rest hf]
        exact hE
      · rw [nodeIn_cons_of_dir rest (findEntry_putEntry_self l (.dir sub₂) es)]
        exact hE'
    · cases h

/-- Where a directory stands, changing it succeeds. -/
theorem updateDirIn_isSome (f : List (String × Node) → List (String × Node))
    {es E : List (String × Node)} {loc : Loc} (h : nodeIn es loc = some (.dir E)) :
    (updateDirIn f es loc).isSome := by
  induction loc generalizing es with
  | nil => simp [updateDirIn]
  | cons l rest ih =>
    obtain ⟨sub, hf, hs⟩ := nodeIn_cons_eq_dir h
    simpa [updateDirIn, hf] using ih hs

/-- Changing the directory at `loc ++ [n]` is giving the entry `n` of the directory at `loc` the
changed directory. -/
theorem updateDirIn_append (f : List (String × Node) → List (String × Node))
    {es E S : List (String × Node)} {loc : Loc} {n : String} (h : nodeIn es loc = some (.dir E))
    (hn : findEntry E n = some (.dir S)) :
    updateDirIn f es (loc ++ [n]) = updateDirIn (putEntry n (.dir (f S))) es loc := by
  induction loc generalizing es with
  | nil =>
    simp only [nodeIn, Option.some.injEq, Node.dir.injEq] at h
    subst h
    simp [updateDirIn, hn]
  | cons l rest ih =>
    obtain ⟨sub, hf, hs⟩ := nodeIn_cons_eq_dir h
    simp [updateDirIn, hf, ih hs]

/-- Two changes of one directory, one after the other, are one change. -/
theorem updateDirIn_comp (f g : List (String × Node) → List (String × Node))
    (es : List (String × Node)) (loc : Loc) :
    (updateDirIn f es loc).bind (fun es' ↦ updateDirIn g es' loc) = updateDirIn (g ∘ f) es loc := by
  induction loc generalizing es with
  | nil => simp [updateDirIn]
  | cons l rest ih =>
    cases hf : findEntry es l with
    | none => simp [updateDirIn, hf]
    | some x =>
      cases x with
      | file id c => simp [updateDirIn, hf]
      | link t => simp [updateDirIn, hf]
      | dir sub =>
        have hsub := ih sub
        cases hs : updateDirIn f sub rest with
        | none =>
          rw [hs] at hsub
          simp [updateDirIn, hf, hs, ← hsub]
        | some sub₂ =>
          rw [hs] at hsub
          simp [updateDirIn, hf, hs, findEntry_putEntry_self, putEntry_putEntry, ← hsub]

/-- A change of a directory depends only on what it makes of the entries found there. -/
theorem updateDirIn_congr {f g : List (String × Node) → List (String × Node)}
    {es E : List (String × Node)} {loc : Loc} (h : nodeIn es loc = some (.dir E))
    (hfg : f E = g E) : updateDirIn f es loc = updateDirIn g es loc := by
  induction loc generalizing es with
  | nil =>
    simp only [nodeIn, Option.some.injEq, Node.dir.injEq] at h
    subst h
    simp [updateDirIn, hfg]
  | cons l rest ih =>
    obtain ⟨sub, hf, hs⟩ := nodeIn_cons_eq_dir h
    simp [updateDirIn, hf, ih hs]

/-- Every directory of a tidy tree is tidy. -/
theorem EntriesTidy.nodeIn {es E : List (String × Node)} {loc : Loc} (hT : EntriesTidy es)
    (h : nodeIn es loc = some (.dir E)) : EntriesTidy E := by
  induction loc generalizing es with
  | nil =>
    simp only [TorrentPrune.Fs.nodeIn, Option.some.injEq, Node.dir.injEq] at h
    subst h
    exact hT
  | cons l rest ih =>
    obtain ⟨sub, hf, hs⟩ := nodeIn_cons_eq_dir h
    exact ih (hT.of_mem (mem_of_findEntry hf)).2 hs

/-- Every directory of a tidy volume is tidy. -/
theorem Volume.Tidy.dir {v : Volume} {loc : Loc} {E : List (String × Node)} (hT : v.Tidy)
    (h : v.node? loc = some (.dir E)) : EntriesTidy E := by
  rw [Volume.node?_eq_nodeIn] at h
  exact EntriesTidy.nodeIn hT h

/-- In a tidy tree, giving a directory the entries it has gives back the tree. -/
theorem updateDirIn_self {es E : List (String × Node)} {loc : Loc} (hT : EntriesTidy es)
    (h : nodeIn es loc = some (.dir E)) : updateDirIn (fun _ ↦ E) es loc = some es := by
  induction loc generalizing es with
  | nil =>
    simp only [nodeIn, Option.some.injEq, Node.dir.injEq] at h
    subst h
    rfl
  | cons l rest ih =>
    obtain ⟨sub, hf, hs⟩ := nodeIn_cons_eq_dir h
    have hm := mem_of_findEntry hf
    have hsub : EntriesTidy sub := (hT.of_mem hm).2
    have hl : l ∈ names es := List.mem_map_of_mem (f := Prod.fst) hm
    simp only [updateDirIn, hf, ih hsub hs, Option.map_some, Option.some.injEq]
    rw [putEntry_eq_setEntry _ hT.sorted hl, setEntry_of_findEntry (nodup_of_sorted hT.sorted) hf]

namespace Volume

/-- A change of a volume's directory succeeds only where a directory stands, and leaves there the
changed entries. -/
theorem node?_of_updateDir {v w : Volume} {loc : Loc}
    {f : List (String × Node) → List (String × Node)} (h : v.updateDir loc f = some w) :
    ∃ E, v.node? loc = some (.dir E) ∧ w.node? loc = some (.dir (f E)) := by
  obtain ⟨r, hr, rfl⟩ := Option.map_eq_some_iff.mp h
  simpa only [node?_eq_nodeIn] using nodeIn_of_updateDirIn hr

/-- Where a directory stands, changing it succeeds. -/
theorem exists_updateDir {v : Volume} {loc : Loc} {E : List (String × Node)}
    (f : List (String × Node) → List (String × Node)) (h : v.node? loc = some (.dir E)) :
    ∃ w, v.updateDir loc f = some w := by
  rw [node?_eq_nodeIn] at h
  obtain ⟨r, hr⟩ := Option.isSome_iff_exists.mp (updateDirIn_isSome f h)
  exact ⟨{ v with root := r }, by simp [updateDir, hr]⟩

/-- A change of a volume's directory depends only on what it makes of the entries found there. -/
theorem updateDir_congr {v : Volume} {loc : Loc} {E : List (String × Node)}
    {f g : List (String × Node) → List (String × Node)} (h : v.node? loc = some (.dir E))
    (hfg : f E = g E) : v.updateDir loc f = v.updateDir loc g := by
  rw [node?_eq_nodeIn] at h
  simp [updateDir, updateDirIn_congr h hfg]

/-- In a tidy volume, giving a directory the entries it has gives back the volume. -/
theorem updateDir_self {v : Volume} {loc : Loc} {E : List (String × Node)} (hT : v.Tidy)
    (h : v.node? loc = some (.dir E)) : v.updateDir loc (fun _ ↦ E) = some v := by
  rw [node?_eq_nodeIn] at h
  simp [updateDir, updateDirIn_self hT h]

/-- Changing the directory at `loc ++ [n]` is changing the entry `n` of the directory at `loc`. -/
theorem updateDir_append {v : Volume} {loc : Loc} {E S : List (String × Node)} {n : String}
    (f : List (String × Node) → List (String × Node)) (h : v.node? loc = some (.dir E))
    (hn : findEntry E n = some (.dir S)) :
    v.updateDir (loc ++ [n]) f = v.updateDir loc (putEntry n (.dir (f S))) := by
  rw [node?_eq_nodeIn] at h
  simp [updateDir, updateDirIn_append f h hn]

/-- Two changes of one directory of a volume are one change. -/
theorem updateDir_comp (v : Volume) (loc : Loc) (f g : List (String × Node) → List (String × Node)) :
    (v.updateDir loc f).bind (fun w ↦ w.updateDir loc g) = v.updateDir loc (g ∘ f) := by
  have h := updateDirIn_comp f g v.root loc
  cases hf : updateDirIn f v.root loc with
  | none =>
    rw [hf] at h
    simp [updateDir, hf, ← h]
  | some r =>
    rw [hf] at h
    simp [updateDir, hf, ← h]

/-- Changing a directory after giving it the entries `E` is giving it the changed entries. -/
theorem updateDir_const_then {v w w' : Volume} {loc : Loc} {E : List (String × Node)}
    {f : List (String × Node) → List (String × Node)} (h₁ : v.updateDir loc (fun _ ↦ E) = some w)
    (h₂ : w.updateDir loc f = some w') : v.updateDir loc (fun _ ↦ f E) = some w' := by
  have hc := updateDir_comp v loc (fun _ ↦ E) f
  rw [h₁, Option.bind_some, h₂] at hc
  exact hc.symm

/-- Erasing the entry `n` of the directory at `loc` drops its name there. -/
theorem erase_append (v : Volume) (loc : Loc) (n : String) :
    v.erase (loc ++ [n]) = v.updateDir loc (dropEntry n) := by
  simp [erase]

end Volume

end TorrentPrune.Fs
