import Mathlib.Data.List.Forall2
import TorrentPrune.Manifest.Extract
import TorrentPrune.Proofs.Path.Relative

/-!
# Which metadata has a manifest

A manifest is read from the `info` dictionary of decoded metadata. `Declares` says, without the
reader, which component lists metadata declares: the `path` lists of the entries of `files`, each
a dictionary whose `path` is a nonempty list of byte strings decoding to safe components, or, when
`files` is absent or null, the `name` alone. A component is safe when it is neither empty, `.` nor
`..` and holds no `/`.

The main statement is `extractManifest_ok_iff_declared`: reading succeeds exactly when the
metadata declares component lists, and then the manifest holds them joined by `/`, in order. A
`files` entry that is there decides, even when it is malformed and `name` would do. Joined safe
components split back into themselves, make a relative path that normalisation leaves as it is,
and two such paths agree only when their components do.
-/

namespace TorrentPrune

open TorrentPrune.Bencode TorrentPrune.Text TorrentPrune.Path

/-- A run of a check over a list succeeds exactly when it succeeds at every item, giving the
items' results in order. -/
theorem mapM_eq_ok_iff {α β ε : Type} (f : α → Except ε β) :
    ∀ (xs : List α) (ys : List β),
      xs.mapM f = .ok ys ↔ List.Forall₂ (fun x y ↦ f x = .ok y) xs ys
  | [], ys => by cases ys <;> simp [pure, Except.pure]
  | x :: xs, ys => by
    rw [List.mapM_cons]
    cases hx : f x with
    | error e => cases ys <;> simp [bind, Except.bind, hx]
    | ok y =>
      cases hxs : xs.mapM f with
      | error e => cases ys <;> simp [bind, Except.bind, ← mapM_eq_ok_iff f xs, hx, hxs]
      | ok ys' =>
        cases ys <;> simp [bind, Except.bind, pure, Except.pure, ← mapM_eq_ok_iff f xs, hx, hxs]

/-- A computation followed by a pure function succeeds with `b` exactly when the computation
succeeds with an `a` that the function sends to `b`. -/
theorem bind_pure_eq_ok_iff {ε α β : Type} (x : Except ε α) (g : α → β) (b : β) :
    (x >>= fun a ↦ pure (g a)) = .ok b ↔ ∃ a, x = .ok a ∧ b = g a := by
  cases x <;> simp [bind, Except.bind, pure, Except.pure, eq_comm]

/-! ### Components -/

/-- A component that keeps a relative path in place: neither empty, `.` nor `..`, and without a
separator. -/
def SafeComponent (c : String) : Prop := c ≠ "" ∧ c ≠ "." ∧ c ≠ ".." ∧ '/' ∉ c.toList

/-- The component check passes exactly the safe components. -/
theorem checkComponent_eq_ok_iff (place : Place) (c : String) :
    checkComponent place c = .ok () ↔ SafeComponent c := by
  unfold checkComponent SafeComponent
  by_cases h₁ : (c == "" || c == "." || c == "..") = true
  · rw [if_pos h₁]
    simp only [Bool.or_eq_true, beq_iff_eq] at h₁
    simp only [reduceCtorEq, false_iff]
    rintro ⟨h, h', h'', -⟩
    rcases h₁ with (h₁ | h₁) | h₁ <;> contradiction
  · rw [if_neg h₁]
    simp only [Bool.or_eq_true, beq_iff_eq, not_or] at h₁
    by_cases h₂ : c.toList.contains '/' = true
    · rw [if_pos h₂]
      simp only [List.contains_iff_mem] at h₂
      simp [h₂]
    · rw [if_neg h₂]
      simp only [List.contains_iff_mem] at h₂
      simp [h₁, h₂]

/-! ### Declared component lists -/

namespace Metadata

theorem asList_eq_some_iff (o : Option Metadata) (items : List Metadata) :
    asList o = some items ↔ o = some (.list items) := by
  rcases o with _ | ⟨_ | _ | _ | _ | _ | _⟩ <;> simp [asList]

theorem asBytes_eq_some_iff (o : Option Metadata) (b : Bytes) :
    asBytes o = some b ↔ o = some (.bytes b) := by
  rcases o with _ | ⟨_ | _ | _ | _ | _ | _⟩ <;> simp [asBytes]

theorem asDict_eq_some_iff (o : Option Metadata) (d : Metadata) :
    asDict o = some d ↔ ∃ entries, o = some (.dict entries) ∧ d = .dict entries := by
  rcases o with _ | ⟨_ | _ | _ | _ | _ | _⟩ <;> simp [asDict, eq_comm]

end Metadata

/-- Metadata `c` is a path component reading as `n`: a byte string whose lossy decoding is the
safe component `n`. -/
def ComponentDeclares (c : Metadata) (n : String) : Prop :=
  ∃ b, c = .bytes b ∧ n = decodeLossyText b ∧ SafeComponent n

/-- A file entry declares the components `ns`: it is a dictionary whose `path` is a nonempty list
of components reading as `ns`. -/
def EntryDeclares (entry : Metadata) (ns : List String) : Prop :=
  ∃ comps, entry.field keyPath = some (.list comps) ∧ comps ≠ [] ∧
    List.Forall₂ ComponentDeclares comps ns

/-- The check of one component of a file entry gives its name exactly when the component reads as
that name. -/
theorem entryComponent_eq_ok_iff (index : Nat) (c : Metadata) (name : String) :
    (do
      let name ← match Metadata.asBytes (some c) with
        | some b => pure (decodeLossyText b)
        | none => throw (ExtractError.componentNotBytes index)
      checkComponent (.entry index) name
      pure name : Except ExtractError String) = .ok name ↔ ComponentDeclares c name := by
  cases hb : Metadata.asBytes (some c) with
  | none =>
    have hnot : ∀ b, c ≠ .bytes b := fun b he ↦ by simp [he, Metadata.asBytes] at hb
    simp [bind, Except.bind, throw, throwThe, MonadExceptOf.throw, ComponentDeclares, hnot]
  | some b =>
    have hc : c = .bytes b := by simpa [Metadata.asBytes_eq_some_iff] using hb
    subst hc
    cases hcheck : checkComponent (.entry index) (decodeLossyText b) with
    | error e =>
      have hbad : ¬ SafeComponent (decodeLossyText b) := by
        rw [← checkComponent_eq_ok_iff (.entry index), hcheck]
        simp
      simp only [bind, Except.bind, pure, Except.pure, hcheck, reduceCtorEq, false_iff]
      rintro ⟨b', hb', rfl, hsafe⟩
      cases hb'
      exact hbad hsafe
    | ok u =>
      have hgood : SafeComponent (decodeLossyText b) :=
        (checkComponent_eq_ok_iff (.entry index) _).mp hcheck
      simp only [bind, Except.bind, pure, Except.pure, hcheck, Except.ok.injEq]
      constructor
      · rintro rfl
        exact ⟨b, rfl, rfl, hgood⟩
      · rintro ⟨b', hb', rfl, -⟩
        cases hb'
        rfl

/-- A file entry's path is its components joined, exactly when the entry declares them. -/
theorem entryPath_eq_ok_iff (index : Nat) (entry : Metadata) (p : String) :
    entryPath index entry = .ok p ↔
      ∃ ns, EntryDeclares entry ns ∧ p = "/".intercalate ns := by
  unfold entryPath EntryDeclares
  cases hl : Metadata.asList (entry.field keyPath) with
  | none =>
    have hnot : ∀ comps, entry.field keyPath ≠ some (.list comps) := fun comps he ↦ by
      simp [he, Metadata.asList] at hl
    simp [bind, Except.bind, throw, throwThe, MonadExceptOf.throw, hnot]
  | some comps =>
    have hfield : entry.field keyPath = some (.list comps) :=
      (Metadata.asList_eq_some_iff _ _).mp hl
    cases comps with
    | nil =>
      simp [bind, Except.bind, throw, throwThe, MonadExceptOf.throw, hfield]
    | cons c cs =>
      simp only [hfield, Option.some.injEq, Metadata.list.injEq]
      rw [pure_bind, bind_pure_eq_ok_iff]
      simp only [mapM_eq_ok_iff]
      constructor
      · rintro ⟨ns, hns, rfl⟩
        exact ⟨ns, ⟨c :: cs, rfl, List.cons_ne_nil _ _,
          hns.imp fun x y ↦ (entryComponent_eq_ok_iff index x y).mp⟩, rfl⟩
      · rintro ⟨ns, ⟨_, rfl, -, hns⟩, rfl⟩
        exact ⟨ns, hns.imp fun x y ↦ (entryComponent_eq_ok_iff index x y).mpr, rfl⟩

/-- The entries of `files` give paths exactly when each declares its components; the paths are
the components joined. -/
theorem entryPaths_eq_ok_iff : ∀ (entries : List Metadata) (n : Nat) (ps : List String),
    List.Forall₂ (fun (x : Metadata × Nat) y ↦ entryPath x.2 x.1 = .ok y)
        (entries.zipIdx n) ps ↔
      ∃ nss, List.Forall₂ EntryDeclares entries nss ∧ ps = nss.map ("/".intercalate ·)
  | [], n, ps => by cases ps <;> simp
  | e :: es, n, ps => by
    rw [List.zipIdx_cons]
    cases ps with
    | nil => simp
    | cons p ps =>
      rw [List.forall₂_cons, entryPath_eq_ok_iff, entryPaths_eq_ok_iff es (n + 1) ps]
      constructor
      · rintro ⟨⟨ns, hns, rfl⟩, nss, hnss, rfl⟩
        exact ⟨ns :: nss, List.Forall₂.cons hns hnss, rfl⟩
      · rintro ⟨_ | ⟨ns, nss⟩, hall, heq⟩
        · cases hall
        · rw [List.forall₂_cons] at hall
          simp only [List.map_cons, List.cons.injEq] at heq
          exact ⟨⟨ns, hall.1, heq.1⟩, nss, hall.2, heq.2⟩

/-- Metadata declares the component lists `nss`, in metadata order: its `info` is a dictionary, and
either `files` is there and a list of entries declaring `nss` one by one, or `files` is absent or
null and `name` is a byte string decoding to a safe component, the one list. -/
def Declares (root : Metadata) (nss : List (List String)) : Prop :=
  ∃ info, root.field keyInfo = some (.dict info) ∧
    ((∃ entries, (Metadata.dict info).field keyFiles = some (.list entries) ∧
        List.Forall₂ EntryDeclares entries nss) ∨
      (Metadata.isPresent ((Metadata.dict info).field keyFiles) = false ∧
        ∃ b, (Metadata.dict info).field keyName = some (.bytes b) ∧
          nss = [[decodeLossyText b]] ∧ SafeComponent (decodeLossyText b)))

/-- Reading the manifest of metadata succeeds exactly when the metadata declares component lists,
and the manifest's paths are those lists joined by `/`. -/
theorem extractManifest_eq_ok_iff_declares (root : Metadata) (m : Manifest) :
    extractManifest root = .ok m ↔
      ∃ nss, Declares root nss ∧ m.paths = nss.map ("/".intercalate ·) := by
  unfold extractManifest Declares
  cases hi : Metadata.asDict (root.field keyInfo) with
  | none =>
    have hnot : ∀ info, root.field keyInfo ≠ some (.dict info) := fun info he ↦ by
      simp [he, Metadata.asDict] at hi
    simp [bind, Except.bind, throw, throwThe, MonadExceptOf.throw, hnot]
  | some d =>
    obtain ⟨info, hfield, rfl⟩ := (Metadata.asDict_eq_some_iff _ _).mp hi
    simp only [hfield, Option.some.injEq, Metadata.dict.injEq, exists_eq_left']
    rw [pure_bind]
    obtain ⟨paths⟩ := m
    by_cases hf : Metadata.isPresent ((Metadata.dict info).field keyFiles) = true
    · -- `files` is there: it decides, whatever `name` holds
      rw [if_pos hf]
      cases hl : Metadata.asList ((Metadata.dict info).field keyFiles) with
      | none =>
        have hnot : ∀ entries, (Metadata.dict info).field keyFiles ≠ some (.list entries) :=
          fun entries he ↦ by simp [he, Metadata.asList] at hl
        simp [throw, throwThe, MonadExceptOf.throw, hnot, hf]
      | some entries =>
        have hfiles := (Metadata.asList_eq_some_iff _ _).mp hl
        simp only [hfiles, Option.some.injEq, Metadata.list.injEq, exists_eq_left',
          Metadata.isPresent, Bool.true_eq_false, false_and, or_false]
        rw [bind_pure_eq_ok_iff]
        simp only [mapM_eq_ok_iff, entryPaths_eq_ok_iff, Manifest.mk.injEq]
        constructor
        · rintro ⟨ps, ⟨nss, hnss, rfl⟩, rfl⟩
          exact ⟨nss, hnss, rfl⟩
        · rintro ⟨nss, hnss, rfl⟩
          exact ⟨_, ⟨nss, hnss, rfl⟩, rfl⟩
    · -- no `files`: the `name` alone
      rw [if_neg hf]
      have hnotList : ∀ entries, (Metadata.dict info).field keyFiles ≠ some (.list entries) :=
        fun entries he ↦ hf (by simp [he, Metadata.isPresent])
      have hf' : Metadata.isPresent ((Metadata.dict info).field keyFiles) = false := by
        simpa using hf
      cases hb : Metadata.asBytes ((Metadata.dict info).field keyName) with
      | none =>
        have hnot : ∀ b, (Metadata.dict info).field keyName ≠ some (.bytes b) :=
          fun b he ↦ by simp [he, Metadata.asBytes] at hb
        simp [throw, throwThe, MonadExceptOf.throw, hnotList, hnot]
      | some b =>
        have hname := (Metadata.asBytes_eq_some_iff _ _).mp hb
        simp only [hname, hnotList, hf', Option.some.injEq, Metadata.bytes.injEq, false_and,
          exists_false, false_or, true_and, exists_eq_left']
        cases hc : checkComponent .name (decodeLossyText b) with
        | error e =>
          have hbad : ¬ SafeComponent (decodeLossyText b) := by
            rw [← checkComponent_eq_ok_iff .name, hc]
            simp
          simp [bind, Except.bind, hbad]
        | ok u =>
          have hgood := (checkComponent_eq_ok_iff .name _).mp hc
          simp [bind, Except.bind, pure, Except.pure, hgood, eq_comm]

/-! ### Joined safe components -/

theorem SafeComponent.proper {c : String} (h : SafeComponent c) : Proper c := ⟨h.1, h.2.2.2⟩

/-- Safe components joined by separators start with a character other than the separator. -/
theorem head?_intercalate_ne_sep :
    ∀ {ns : List String}, ns ≠ [] → (∀ c ∈ ns, SafeComponent c) →
    ("/".intercalate ns).toList.head? ≠ some '/'
  | [], h, _ => absurd rfl h
  | n :: rest, _, hv => by
    have hn := hv n List.mem_cons_self
    have hne : n.toList ≠ [] := fun h ↦ hn.1 (String.toList_eq_nil_iff.mp h)
    have hhead : ("/".intercalate (n :: rest)).toList.head? = n.toList.head? := by
      cases rest with
      | nil => simp
      | cons n' rest =>
        rw [String.intercalate_cons_cons, String.toList_append, String.toList_append,
          List.append_assoc, List.head?_append_of_ne_nil _ hne]
    rw [hhead]
    exact fun h ↦ hn.2.2.2 (List.mem_of_head? h)

/-- Normalisation keeps no separator in front of a text that does not start with one. -/
theorem leadingOf_of_head?_ne {cs : List Char} (h : cs.head? ≠ some '/') : leadingOf cs = 0 := by
  cases cs with
  | nil => rfl
  | cons c rest =>
    have hc : '/' ≠ c := fun he ↦ h (by simp [← he])
    simp [leadingOf, List.isPrefixOf, hc]

/-- Normalisation reads safe components one by one, keeping each. -/
theorem foldl_normStep_of_safe (k : Nat) :
    ∀ (ns acc : List String), (∀ c ∈ ns, SafeComponent c) →
    ns.foldl (normStep k) acc = ns.reverse ++ acc
  | [], acc, _ => rfl
  | n :: ns, acc, hv => by
    obtain ⟨hne, hdot, hdots, -⟩ := hv n List.mem_cons_self
    have hstep : normStep k acc n = n :: acc := by simp [normStep, hne, hdot, hdots]
    rw [List.foldl_cons, hstep,
      foldl_normStep_of_safe k ns _ fun c hc ↦ hv c (List.mem_cons_of_mem _ hc)]
    simp

/-- Safe components joined by separators make a relative path. -/
theorem isAbs_intercalate_safe {ns : List String} (hne : ns ≠ [])
    (hv : ∀ c ∈ ns, SafeComponent c) :
    isAbs ("/".intercalate ns) = false := by
  simpa [isAbs] using head?_intercalate_ne_sep hne hv

/-- Safe components joined by separators are already normal. -/
theorem normalize_intercalate_safe {ns : List String} (hne : ns ≠ [])
    (hv : ∀ c ∈ ns, SafeComponent c) :
    normalize ("/".intercalate ns) = "/".intercalate ns := by
  have hproper : ∀ c ∈ ns, Proper c := fun c hc ↦ (hv c hc).proper
  have hnonempty : ("/".intercalate ns).isEmpty = false := by
    obtain ⟨⟨c, hc, -⟩, -⟩ := intercalate_ends hne hproper
    exact String.isEmpty_eq_false_iff.mpr fun he ↦ by simp [he] at hc
  rw [normalize_eq hnonempty, leadingOf_of_head?_ne (head?_intercalate_ne_sep hne hv),
    pieces_intercalate hproper hne, foldl_normStep_of_safe 0 ns [] hv]
  simp [hnonempty]

/-! ### Reading the manifest -/

/-- What a relation gives every right-hand item of related lists. -/
theorem forall_of_forall₂_right {α β : Type} {R : α → β → Prop} {P : β → Prop}
    (hR : ∀ x y, R x y → P y) :
    ∀ {xs : List α} {ys : List β}, List.Forall₂ R xs ys → ∀ y ∈ ys, P y
  | _, _, .nil => fun _ h ↦ absurd h List.not_mem_nil
  | _, _, .cons hxy hrest => fun y hy ↦ by
    rcases List.mem_cons.mp hy with rfl | hy
    · exact hR _ _ hxy
    · exact forall_of_forall₂_right hR hrest y hy

/-- A declaring entry has at least one component, and every component is safe. -/
theorem EntryDeclares.safe {entry : Metadata} {ns : List String} (h : EntryDeclares entry ns) :
    ns ≠ [] ∧ ∀ c ∈ ns, SafeComponent c := by
  obtain ⟨comps, -, hne, hall⟩ := h
  refine ⟨fun hnil ↦ hne (List.eq_nil_of_length_eq_zero ?_), ?_⟩
  · rw [hall.length_eq, hnil, List.length_nil]
  · exact forall_of_forall₂_right (fun _ _ ⟨_, _, _, hsafe⟩ ↦ hsafe) hall

/-- Every component list that metadata declares is nonempty and made of safe components. -/
theorem Declares.safe {root : Metadata} {nss : List (List String)} (h : Declares root nss) :
    ∀ ns ∈ nss, ns ≠ [] ∧ ∀ c ∈ ns, SafeComponent c := by
  obtain ⟨info, -, ⟨entries, -, hall⟩ | ⟨-, b, -, rfl, hsafe⟩⟩ := h
  · exact forall_of_forall₂_right (fun _ _ hentry ↦ hentry.safe) hall
  · intro ns hns
    rw [List.mem_singleton.mp hns]
    exact ⟨List.cons_ne_nil _ _, fun c hc ↦ List.mem_singleton.mp hc ▸ hsafe⟩

/-- Reading the manifest of metadata succeeds exactly when the metadata declares component lists
(the `info` dictionary's `files` entries, each a dictionary whose `path` is a nonempty list of
byte strings decoding to safe components, or with `files` absent or null its `name`, a byte
string decoding to one); the manifest's paths are then those lists joined by `/`, in order. Each
path splits at `/` back into its components, is relative and already normal, and two paths agree
exactly when their component lists do. -/
theorem extractManifest_ok_iff_declared (root : Metadata) (m : Manifest) :
    extractManifest root = .ok m ↔
      ∃ nss, Declares root nss ∧ m.paths = nss.map ("/".intercalate ·) ∧
        ∀ ns ∈ nss, pieces ("/".intercalate ns) = ns ∧ isAbs ("/".intercalate ns) = false ∧
          normalize ("/".intercalate ns) = "/".intercalate ns ∧
          ∀ ns' ∈ nss, ("/".intercalate ns = "/".intercalate ns' ↔ ns = ns') := by
  rw [extractManifest_eq_ok_iff_declares]
  constructor
  · rintro ⟨nss, hdecl, hpaths⟩
    refine ⟨nss, hdecl, hpaths, fun ns hns ↦ ?_⟩
    obtain ⟨hne, hsafe⟩ := hdecl.safe ns hns
    have hproper : ∀ c ∈ ns, Proper c := fun c hc ↦ (hsafe c hc).proper
    refine ⟨pieces_intercalate hproper hne, isAbs_intercalate_safe hne hsafe,
      normalize_intercalate_safe hne hsafe,
      fun ns' hns' ↦ ⟨fun heq ↦ ?_, fun heq ↦ heq ▸ rfl⟩⟩
    obtain ⟨hne', hsafe'⟩ := hdecl.safe ns' hns'
    exact intercalate_inj hproper (fun c hc ↦ (hsafe' c hc).proper) hne hne' heq
  · rintro ⟨nss, hdecl, hpaths, -⟩
    exact ⟨nss, hdecl, hpaths⟩

end TorrentPrune
