import TorrentPrune.Proofs.Manifest.Ancestors
import TorrentPrune.Proofs.Manifest.Extraction

/-!
# Declared paths and their ancestors

Metadata declares paths as lists of byte components: the `path` list of each entry of `files`, or
the `name` alone. `declaredComponents` reads those lists off the metadata without checking them;
when the manifest of the metadata can be read, its paths are exactly those lists, each component
decoded lossily and the components joined by `/`, and every component is a proper one: not
empty and without a separator (`extractManifest_eq_ok`).

A path is an ancestor when it is a directory on the way to a declared path. For proper
components the ancestors of a path are exactly its leading components joined, so a manifest
keeps every leading part of a declared path (`Manifest.keeps_leading_parts`).
-/

namespace TorrentPrune

open TorrentPrune.Bencode TorrentPrune.Text TorrentPrune.Path

/-- The byte strings among the components of a file entry's `path` list. -/
def Metadata.pathComponents (entry : Metadata) : List Bytes :=
  ((Metadata.asList (entry.field keyPath)).getD []).filterMap fun c ↦ Metadata.asBytes (some c)

/-- The byte components of the paths that metadata declares: the `path` list of each entry of
`files` when the `info` dictionary has `files`, else the `name` alone. -/
def declaredComponents (root : Metadata) : List (List Bytes) :=
  match Metadata.asDict (root.field keyInfo) with
  | none => []
  | some info =>
    if Metadata.isPresent (info.field keyFiles) then
      ((Metadata.asList (info.field keyFiles)).getD []).map Metadata.pathComponents
    else
      match Metadata.asBytes (info.field keyName) with
      | some b => [[b]]
      | none => []

/-- The byte components of the paths that torrent bytes declare, read from the metadata at their
front. -/
def declaredBy (data : Bytes) : List (List Bytes) :=
  match parse data with
  | .ok (v, _) => declaredComponents (Metadata.ofValue v)
  | .error _ => []

/-- The path a manifest holds for byte components: each decoded lossily, joined by `/`. -/
def declaredPath (cs : List Bytes) : String := "/".intercalate (cs.map decodeLossyText)

/-! ### Reading the manifest -/

/-- Components that read as names are byte strings whose lossy decodings are the names, each a
safe component. -/
theorem filterMap_asBytes_of_declares {comps : List Metadata} {ns : List String}
    (h : List.Forall₂ ComponentDeclares comps ns) :
    (comps.filterMap fun c ↦ Metadata.asBytes (some c)).map decodeLossyText = ns ∧
      ∀ b ∈ comps.filterMap (fun c ↦ Metadata.asBytes (some c)),
        SafeComponent (decodeLossyText b) := by
  induction h with
  | nil => simp
  | cons hc _ ih =>
    obtain ⟨b, rfl, rfl, hsafe⟩ := hc
    have hb : Metadata.asBytes (some (.bytes b)) = some b := rfl
    rw [List.filterMap_cons, hb]
    refine ⟨by rw [List.map_cons, ih.1], ?_⟩
    intro b' hb'
    rcases List.mem_cons.mp hb' with rfl | hb'
    · exact hsafe
    · exact ih.2 b' hb'

/-- A file entry that declares names has them as its byte components, decoded: at least one, each
safe. -/
theorem EntryDeclares.pathComponents {entry : Metadata} {ns : List String}
    (h : EntryDeclares entry ns) :
    entry.pathComponents.map decodeLossyText = ns ∧ entry.pathComponents ≠ [] ∧
      ∀ c ∈ entry.pathComponents, SafeComponent (decodeLossyText c) := by
  obtain ⟨comps, hfield, hne, hall⟩ := h
  have hcomps : entry.pathComponents = comps.filterMap fun c ↦ Metadata.asBytes (some c) := by
    simp [Metadata.pathComponents, hfield, Metadata.asList]
  obtain ⟨hmap, hsafe⟩ := filterMap_asBytes_of_declares hall
  rw [hcomps]
  refine ⟨hmap, fun hnil ↦ hne ?_, hsafe⟩
  rw [hnil, List.map_nil] at hmap
  subst hmap
  exact List.forall₂_nil_right_iff.mp hall

/-- Entries declaring component lists have them as their byte components, decoded. -/
theorem pathComponents_of_forall₂ {entries : List Metadata} {nss : List (List String)}
    (h : List.Forall₂ EntryDeclares entries nss) :
    (entries.map Metadata.pathComponents).map (·.map decodeLossyText) = nss ∧
      ∀ cs ∈ entries.map Metadata.pathComponents,
        cs ≠ [] ∧ ∀ c ∈ cs, SafeComponent (decodeLossyText c) := by
  induction h with
  | nil => simp
  | cons he _ ih =>
    obtain ⟨hmap, hne, hsafe⟩ := he.pathComponents
    refine ⟨by rw [List.map_cons, List.map_cons, hmap, ih.1], ?_⟩
    intro cs hcs
    rcases List.mem_cons.mp hcs with rfl | hcs
    · exact ⟨hne, hsafe⟩
    · exact ih.2 cs hcs

/-- The component lists that metadata declares are its declared byte components, decoded: each
list has at least one component, each safe. -/
theorem Declares.components {root : Metadata} {nss : List (List String)}
    (h : Declares root nss) :
    (declaredComponents root).map (·.map decodeLossyText) = nss ∧
      ∀ cs ∈ declaredComponents root, cs ≠ [] ∧ ∀ c ∈ cs, SafeComponent (decodeLossyText c) := by
  obtain ⟨info, hinfo, ⟨entries, hfiles, hall⟩ | ⟨hnone, b, hname, rfl, hsafe⟩⟩ := h
  · have hdc : declaredComponents root = entries.map Metadata.pathComponents := by
      simp [declaredComponents, hinfo, hfiles, Metadata.asDict, Metadata.asList,
        Metadata.isPresent]
    rw [hdc]
    exact pathComponents_of_forall₂ hall
  · have hdc : declaredComponents root = [[b]] := by
      simp [declaredComponents, hinfo, hnone, hname, Metadata.asDict, Metadata.asBytes]
    rw [hdc]
    simp [hsafe]

/-- When the manifest of metadata can be read, its paths are the declared byte components,
decoded and joined, and every declared path has at least one component, each proper. -/
theorem extractManifest_eq_ok {root : Metadata} {m : Manifest} (h : extractManifest root = .ok m) :
    m.paths = (declaredComponents root).map declaredPath ∧
      ∀ cs ∈ declaredComponents root, cs ≠ [] ∧ ∀ c ∈ cs, Proper (decodeLossyText c) := by
  obtain ⟨nss, hdecl, hpaths⟩ := (extractManifest_eq_ok_iff_declares root m).mp h
  obtain ⟨hnss, hall⟩ := hdecl.components
  refine ⟨?_, fun cs hcs ↦ ⟨(hall cs hcs).1, fun c hc ↦ ((hall cs hcs).2 c hc).proper⟩⟩
  rw [hpaths, ← hnss, List.map_map]
  rfl

/-! ### Ancestors -/

/-- A manifest read from metadata keeps every nonempty leading part of a declared path: the whole
path is declared, and a shorter part is an ancestor of it. -/
theorem Manifest.keeps_leading_parts {root : Metadata} {m : Manifest}
    (h : extractManifest root = .ok m) {cs bs : List Bytes} (hcs : cs ∈ declaredComponents root)
    (hpre : bs <+: cs) (hne : bs ≠ []) :
    m.contains (declaredPath bs) = true ∨ m.isAncestor (declaredPath bs) = true := by
  obtain ⟨hpaths, hall⟩ := extractManifest_eq_ok h
  obtain ⟨more, rfl⟩ := hpre
  by_cases hmore : more = []
  · subst hmore
    rw [List.append_nil] at hcs
    left
    simp only [Manifest.contains, hpaths, List.contains_iff_mem, List.mem_map]
    exact ⟨bs, hcs, rfl⟩
  · right
    have hv : ∀ d ∈ (bs ++ more).map decodeLossyText, Proper d := by
      intro d hd
      obtain ⟨c, hc, rfl⟩ := List.mem_map.mp hd
      exact (hall _ hcs).2 c hc
    -- the leading part is a directory part of the whole declared path
    have hlead : ((bs ++ more).map decodeLossyText).take bs.length = bs.map decodeLossyText := by
      rw [List.map_append, List.take_left' (List.length_map _)]
    have hlen : bs.length < ((bs ++ more).map decodeLossyText).length := by
      have := List.length_pos_of_ne_nil hmore
      simp
      omega
    obtain ⟨hne', k, hk, hpart⟩ := (Manifest.iterate_dirname_intercalate_iff hv (declaredPath bs)).mpr
      ⟨bs.length, List.length_pos_of_ne_nil hne, hlen, by rw [hlead]; rfl⟩
    rw [Manifest.isAncestor_iff, hpaths]
    exact ⟨hne', declaredPath (bs ++ more), List.mem_map_of_mem hcs, k, hk, hpart⟩

/-- The ancestors of a manifest are the nonempty directory parts of its paths, taken once or
more: the loop that stops each climb at a part already found gathers all of them, and every climb
ends by its own test within its bound of steps, also on paths such as `/` and `//` that are their
own directory part. For a manifest read from metadata they are the proper nonempty leading parts
of each declared component list, decoded and joined by `/`. -/
theorem Manifest.ancestors_are_directory_parts :
    (∀ (paths : List String) (r : String), (Manifest.mk paths).isAncestor r = true ↔
        r ≠ "" ∧ ∃ p ∈ paths, ∃ k, 1 ≤ k ∧ r = dirname^[k] p) ∧
    (∀ (found : List String) (q : String) (n : Nat), 2 * q.length + 2 ≤ n →
        Manifest.climbFor found q n = Manifest.climb found q) ∧
    (∀ (root : Metadata) (m : Manifest), extractManifest root = .ok m → ∀ r,
        m.isAncestor r = true ↔ ∃ cs ∈ declaredComponents root, ∃ j, 1 ≤ j ∧ j < cs.length ∧
          r = declaredPath (cs.take j)) := by
  refine ⟨fun paths r ↦ ?_, fun found q n hn ↦ Manifest.climbFor_eq_climb hn, ?_⟩
  · rw [Manifest.isAncestor_iff]
    constructor
    · rintro ⟨hne, p, hp, k, hk, rfl⟩
      exact ⟨hne, p, hp, k, hk, rfl⟩
    · rintro ⟨hne, p, hp, k, hk, rfl⟩
      exact ⟨hne, p, hp, k, hk, rfl⟩
  · intro root m h r
    obtain ⟨hpaths, hall⟩ := extractManifest_eq_ok h
    rw [Manifest.isAncestor_iff, hpaths]
    constructor
    · rintro ⟨hne, _, hp, k, hk, hr⟩
      obtain ⟨cs, hcs, rfl⟩ := List.mem_map.mp hp
      have hv : ∀ d ∈ cs.map decodeLossyText, Proper d := by
        intro d hd
        obtain ⟨c, hc, rfl⟩ := List.mem_map.mp hd
        exact (hall cs hcs).2 c hc
      obtain ⟨j, hj, hjlen, rfl⟩ :=
        (Manifest.iterate_dirname_intercalate_iff hv r).mp ⟨hne, k, hk, hr⟩
      refine ⟨cs, hcs, j, hj, by simpa using hjlen, ?_⟩
      simp [declaredPath, List.map_take]
    · rintro ⟨cs, hcs, j, hj, hjlen, rfl⟩
      have hv : ∀ d ∈ cs.map decodeLossyText, Proper d := by
        intro d hd
        obtain ⟨c, hc, rfl⟩ := List.mem_map.mp hd
        exact (hall cs hcs).2 c hc
      obtain ⟨hne, k, hk, hr⟩ :=
        (Manifest.iterate_dirname_intercalate_iff hv (declaredPath (cs.take j))).mpr
          ⟨j, hj, by simpa using hjlen, by simp [declaredPath, List.map_take]⟩
      exact ⟨hne, declaredPath cs, List.mem_map_of_mem hcs, k, hk, hr⟩

/-- A manifest read from metadata whose one file entry has the components `a`, `b`, `c` has `a/b`
as an ancestor, and a climb from `//` has ended within six steps. -/
theorem Manifest.ancestors_of_one_entry :
    (2 * "//".length + 2 ≤ 6 ∧ Manifest.climbFor [] "//" 6 = Manifest.climb [] "//") ∧
    (extractManifest (.dict [(keyInfo, .dict [(keyFiles, .list [.dict [(keyPath,
        .list [.bytes [97], .bytes [98], .bytes [99]])]])])]) = .ok ⟨["a/b/c"]⟩ ∧
      ((⟨["a/b/c"]⟩ : Manifest).isAncestor "a/b" = true ↔
        ∃ cs ∈ declaredComponents (.dict [(keyInfo, .dict [(keyFiles, .list [.dict [(keyPath,
          .list [.bytes [97], .bytes [98], .bytes [99]])]])])]), ∃ j, 1 ≤ j ∧ j < cs.length ∧
          "a/b" = declaredPath (cs.take j))) := by
  have hext : extractManifest (.dict [(keyInfo, .dict [(keyFiles, .list [.dict [(keyPath,
      .list [.bytes [97], .bytes [98], .bytes [99]])]])])]) = .ok ⟨["a/b/c"]⟩ := by
    have hpaths : ((extractManifest (.dict [(keyInfo, .dict [(keyFiles, .list [.dict [(keyPath,
        .list [.bytes [97], .bytes [98], .bytes [99]])]])])])).toOption.map Manifest.paths) =
        some ["a/b/c"] := by decide +kernel
    revert hpaths
    cases extractManifest (.dict [(keyInfo, .dict [(keyFiles, .list [.dict [(keyPath,
        .list [.bytes [97], .bytes [98], .bytes [99]])]])])]) with
    | ok m =>
      intro h
      cases m
      simp_all [Except.toOption]
    | error e => simp [Except.toOption]
  exact ⟨⟨by decide, Manifest.ancestors_are_directory_parts.2.1 [] "//" 6 (by decide)⟩,
    hext, Manifest.ancestors_are_directory_parts.2.2 _ _ hext "a/b"⟩

end TorrentPrune
