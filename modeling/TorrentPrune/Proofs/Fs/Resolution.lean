import TorrentPrune.Proofs.Fs.Locations

/-!
# Resolving the paths of entries

A pass over a directory names every entry by a path: the directory's own path, a separator and
the entry's name. This module shows that such a path leads to the entry's location, given that the
directory's path leads to the directory; and that this keeps holding while the pass changes what
the directory holds, as long as the directory's own path does not run through its entries
(`Volume.Reaches`).

The walk of the resolver is taken one component at a time: more fuel never changes a finished
walk, a trailing empty component changes nothing after a directory, and one more component that
names an entry of the directory reached goes to that entry.
-/

namespace TorrentPrune.Path

/-- Splitting at a separator splits the text on either side. -/
theorem pieces_append_sep (a b : String) : pieces (a ++ "/" ++ b) = pieces a ++ pieces b := by
  have h : (a ++ "/" ++ b).toList = a.toList ++ '/' :: b.toList := by simp
  simp only [pieces, h, List.splitOn_append_cons_self, List.map_append]

/-- Text without a separator is one piece. -/
theorem pieces_of_not_mem {n : String} (h : '/' ∉ n.toList) : pieces n = [n] := by
  simp [pieces, List.splitOn_eq_singleton h]

/-- Text that ends with a separator ends in an empty piece, and text appended to it replaces that
piece. -/
theorem pieces_of_sep_end {p : String} (h : p.toList.getLast? = some '/') (n : String)
    (hn : '/' ∉ n.toList) :
    ∃ ps, pieces p = ps ++ [""] ∧ pieces (p ++ n) = ps ++ [n] := by
  obtain ⟨xs, hxs⟩ : ∃ xs, p.toList = xs ++ ['/'] :=
    ⟨p.toList.dropLast, (List.dropLast_append_getLast? _ h).symm⟩
  refine ⟨(xs.splitOn '/').map String.ofList, ?_, ?_⟩
  · simp [pieces, hxs, List.splitOn_append_cons_self]
  · have h₂ : (p ++ n).toList = xs ++ '/' :: n.toList := by simp [hxs]
    simp [pieces, h₂, List.splitOn_append_cons_self, List.splitOn_eq_singleton hn]

/-- A relative name is put after a separator, unless the path already ends with one. -/
theorem join_eq_of_not_abs {p n : String} (hn : isAbs n = false) :
    join p n = if p.isEmpty || p.toList.getLast? == some '/' then p ++ n else p ++ "/" ++ n := by
  simp [join, hn]

end TorrentPrune.Path

namespace TorrentPrune.Fs

open TorrentPrune.Path

/-- More fuel never changes a walk that finished. -/
theorem walk_fuel_mono {v : Volume} {fl : Bool} {F F' links : Nat} {cur L : Loc}
    {cs : List String} (h : walk v fl F links cur cs = .ok L) (hF : F ≤ F') :
    walk v fl F' links cur cs = .ok L := by
  induction F generalizing F' links cur cs with
  | zero =>
    cases cs with
    | nil => simpa [walk] using h
    | cons c rest => simp [walk] at h
  | succ F ih =>
    obtain ⟨F', rfl⟩ : ∃ k, F' = k + 1 := ⟨F' - 1, by omega⟩
    cases cs with
    | nil => simpa [walk] using h
    | cons c rest =>
      have hF' : F ≤ F' := by omega
      simp only [walk] at h ⊢
      by_cases h₁ : (c == "" || c == ".") = true
      · rw [if_pos h₁] at h ⊢
        exact ih h hF'
      rw [if_neg h₁] at h ⊢
      by_cases h₂ : (c == "..") = true
      · rw [if_pos h₂] at h ⊢
        exact ih h hF'
      rw [if_neg h₂] at h ⊢
      cases hn : v.node? (cur ++ [c]) with
      | none => simpa [hn] using h
      | some x =>
        cases x with
        | dir es =>
          simp only [hn] at h ⊢
          exact ih h hF'
        | file id content => simpa [hn] using h
        | link t =>
          simp only [hn] at h ⊢
          by_cases h₃ : (rest.isEmpty && !fl) = true
          · simpa [h₃] using h
          rw [if_neg h₃] at h ⊢
          by_cases h₄ : linkLimit ≤ links
          · simp [h₄] at h
          rw [if_neg h₄] at h ⊢
          exact ih h hF'

/-- From a directory, the name of one of its entries leads to that entry; a link there is taken
as it is when the last link is not to be followed. -/
theorem walk_entry {v : Volume} {fl : Bool} {F links : Nat} {cur : Loc}
    {E : List (String × Node)} (hc : v.node? cur = some (.dir E)) {n : String} {x : Node}
    (hn : findEntry E n = some x) (hv : ValidName n) (hx : x.isDir ∨ fl = false) :
    walk v fl (F + 1) links cur [n] = .ok (cur ++ [n]) := by
  obtain ⟨hne, hdot, hdots, -, -⟩ := hv
  have hx' := Volume.node?_append hc n
  rw [hn] at hx'
  cases x with
  | dir es => simp [walk, hne, hdot, hdots, hx']
  | file id content => simp [walk, hne, hdot, hdots, hx']
  | link t =>
    simp only [Node.isDir, Bool.false_eq_true, false_or] at hx
    simp [walk, hne, hdot, hdots, hx', hx]

/-- One more component naming an entry of the directory a walk reached goes to that entry. -/
theorem walk_append_entry {v : Volume} {fl : Bool} {F links : Nat} {cur L : Loc}
    {cs : List String} (h : walk v true F links cur cs = .ok L) {E : List (String × Node)}
    (hL : v.node? L = some (.dir E)) {n : String} {x : Node} (hn : findEntry E n = some x)
    (hv : ValidName n) (hx : x.isDir ∨ fl = false) :
    walk v fl (F + 1) links cur (cs ++ [n]) = .ok (L ++ [n]) := by
  induction F generalizing links cur cs with
  | zero =>
    cases cs with
    | nil =>
      simp only [walk, Except.ok.injEq] at h
      subst h
      exact walk_entry hL hn hv hx
    | cons c rest => simp [walk] at h
  | succ F ih =>
    cases cs with
    | nil =>
      simp only [walk, Except.ok.injEq] at h
      subst h
      exact walk_entry hL hn hv hx
    | cons c rest =>
      simp only [walk, List.cons_append] at h ⊢
      by_cases h₁ : (c == "" || c == ".") = true
      · rw [if_pos h₁] at h ⊢
        exact ih h
      rw [if_neg h₁] at h ⊢
      by_cases h₂ : (c == "..") = true
      · rw [if_pos h₂] at h ⊢
        exact ih h
      rw [if_neg h₂] at h ⊢
      cases hc : v.node? (cur ++ [c]) with
      | none =>
        -- only a missing last component is accepted, and the walk ended at a directory
        simp only [hc] at h
        split at h
        · cases h
          simp [hc] at hL
        · cases h
      | some y =>
        cases y with
        | dir es =>
          simp only [hc] at h ⊢
          exact ih h
        | file id content =>
          simp only [hc] at h
          split at h
          · cases h
            simp [hc] at hL
          · cases h
        | link t =>
          simp only [hc, Bool.not_true, Bool.and_false, Bool.false_eq_true, if_false] at h
          have hne : ((rest ++ [n]).isEmpty && !fl) = false := by simp
          simp only [hne, Bool.false_eq_true, if_false]
          by_cases h₄ : linkLimit ≤ links
          · simp [h₄] at h
          rw [if_neg h₄] at h ⊢
          rw [← List.append_assoc]
          exact ih h

/-- A walk that succeeds with a trailing empty component succeeds without it, following the last
link: the empty component asks for a directory. -/
theorem walk_of_append_empty {v : Volume} {fl : Bool} {F links : Nat} {cur L : Loc}
    {cs : List String} (h : walk v fl F links cur (cs ++ [""]) = .ok L) :
    walk v true F links cur cs = .ok L := by
  induction F generalizing links cur cs with
  | zero => cases cs <;> simp [walk] at h
  | succ F ih =>
    cases cs with
    | nil =>
      cases F with
      | zero => simpa [walk] using h
      | succ F => simpa [walk] using h
    | cons c rest =>
      simp only [walk, List.cons_append] at h ⊢
      by_cases h₁ : (c == "" || c == ".") = true
      · rw [if_pos h₁] at h ⊢
        exact ih h
      rw [if_neg h₁] at h ⊢
      by_cases h₂ : (c == "..") = true
      · rw [if_pos h₂] at h ⊢
        exact ih h
      rw [if_neg h₂] at h ⊢
      have hne : (rest ++ [""]).isEmpty = false := by simp
      cases hc : v.node? (cur ++ [c]) with
      | none => simp [hc, hne] at h
      | some y =>
        cases y with
        | dir es =>
          simp only [hc] at h ⊢
          exact ih h
        | file id content => simp [hc, hne] at h
        | link t =>
          simp only [hc, hne, Bool.false_and, Bool.false_eq_true, if_false] at h
          simp only [Bool.not_true, Bool.and_false, Bool.false_eq_true, if_false]
          by_cases h₄ : linkLimit ≤ links
          · simp [h₄] at h
          rw [if_neg h₄] at h ⊢
          rw [← List.append_assoc] at h
          exact ih h

/-- Text joined to a name without NUL characters has none when the text has none. -/
theorem nul_not_mem_join {p n : String} (hp : Char.ofNat 0 ∉ p.toList)
    (hn : Char.ofNat 0 ∉ n.toList) : Char.ofNat 0 ∉ (join p n).toList := by
  unfold join
  split
  · exact hn
  split <;> simp [hp, hn]

/-- From the root as working directory, a path is read from the root whether it is absolute or
not. -/
theorem Volume.locate_from_root (v : Volume) (p : String) (fl : Bool) :
    v.locate "/" p fl =
      if p.isEmpty then .error ENOENT
      else if pathMax ≤ byteLength p then .error ENAMETOOLONG
      else walk v fl (4096 + 8 * p.length) 0 [] (pieces p) := by
  have h : locOf "/" = [] := by cbv
  simp [Volume.locate, h]

/-- A path that leads somewhere from the root is not empty and fits, and its walk from the top
gets there. -/
theorem Volume.walk_of_locate {v : Volume} {p : String} {fl : Bool} {L : Loc}
    (h : v.locate "/" p fl = .ok L) :
    p.isEmpty = false ∧ byteLength p < pathMax ∧
      walk v fl (4096 + 8 * p.length) 0 [] (pieces p) = .ok L := by
  rw [Volume.locate_from_root] at h
  split at h
  · cases h
  · next hp =>
    split at h
    · cases h
    · next hlong => exact ⟨by simpa using hp, Nat.lt_of_not_le hlong, h⟩

/-- A path that is not empty and fits leads from the root where its walk from the top goes. -/
theorem Volume.locate_of_walk {v : Volume} {p : String} {fl : Bool} {L : Loc}
    (hp : p.isEmpty = false) (hfit : byteLength p < pathMax)
    (h : walk v fl (4096 + 8 * p.length) 0 [] (pieces p) = .ok L) : v.locate "/" p fl = .ok L := by
  rw [Volume.locate_from_root, hp, if_neg Bool.false_ne_true, if_neg (Nat.not_le.mpr hfit)]
  exact h

/-- A path too long for the system leads nowhere, and fails alike in every volume. -/
theorem Volume.resolve_of_too_long (cwd : String) {p : String} (fl : Bool)
    (h : pathMax ≤ byteLength p) : ∃ e, ∀ v : Volume, v.resolve cwd p fl = .error e := by
  have hne : p.isEmpty = false := by
    cases hp : p.isEmpty
    · rfl
    · simp [String.isEmpty_iff.mp hp, byteLength, pathMax] at h
  by_cases hnul : Char.ofNat 0 ∈ p.toList
  · exact ⟨.nulByte, fun v ↦ by simp [resolve, hnul]⟩
  · exact ⟨.os (OsError.ofErrno ENAMETOOLONG p), fun v ↦ by
      simp [resolve, hnul, Volume.locate, hne, h]⟩

/-- A name is not absolute. -/
theorem ValidName.isAbs_eq_false {n : String} (hv : ValidName n) : isAbs n = false := by
  obtain ⟨-, -, -, hsep, -⟩ := hv
  cases h : n.toList with
  | nil => simp [isAbs, h]
  | cons c cs =>
    have hc : c ≠ '/' := fun hc ↦ hsep (by simp [h, hc])
    simp [isAbs, h, hc]

/-- A name has at least one character. -/
theorem ValidName.length_pos {n : String} (hv : ValidName n) : 0 < n.length := by
  obtain ⟨hne, -⟩ := hv
  exact Nat.pos_of_ne_zero fun h ↦ hne (String.length_eq_zero_iff.mp h)

/-- When a path leads to a directory, the path joined to the name of one of its entries leads to
that entry; a link there is taken as it is when the last link is not to be followed. -/
theorem Volume.locate_join {v : Volume} {p : String} {loc : Loc}
    (h : v.locate "/" p true = .ok loc) {E : List (String × Node)}
    (hL : v.node? loc = some (.dir E)) {n : String} {x : Node} (hn : findEntry E n = some x)
    (hv : ValidName n) (hfit : byteLength (join p n) < pathMax) {fl : Bool}
    (hx : x.isDir ∨ fl = false) :
    v.locate "/" (join p n) fl = .ok (loc ++ [n]) := by
  obtain ⟨hp, -, hwalk⟩ := walk_of_locate h
  -- a path longer than the name is not empty
  have hlong : ∀ s : String, n.length ≤ s.length → s.isEmpty = false := fun s hs ↦
    String.isEmpty_eq_false_iff.mpr fun he ↦ hv.1 (by simpa [he] using hs)
  have hlen := hv.length_pos
  have hjoin := join_eq_of_not_abs (p := p) hv.isAbs_eq_false
  rw [hp, Bool.false_or] at hjoin
  by_cases hend : p.toList.getLast? = some '/'
  · -- the path ends with a separator: its empty last piece gives way to the name
    obtain ⟨ps, hps, hpn⟩ := pieces_of_sep_end hend n hv.2.2.2.1
    rw [hps] at hwalk
    have hw := walk_append_entry (walk_of_append_empty hwalk) hL hn hv hx
    have hfuel : 4096 + 8 * p.length + 1 ≤ 4096 + 8 * (p ++ n).length := by
      rw [String.length_append]
      omega
    simp only [hend, beq_self_eq_true, if_true] at hjoin
    rw [hjoin] at hfit ⊢
    refine locate_of_walk (hlong (p ++ n) (by simp)) hfit ?_
    rw [hpn]
    exact walk_fuel_mono hw hfuel
  · have hend' : (p.toList.getLast? == some '/') = false := by simpa using hend
    have hw := walk_append_entry hwalk hL hn hv hx
    have hfuel : 4096 + 8 * p.length + 1 ≤ 4096 + 8 * (p ++ "/" ++ n).length := by
      simp
      omega
    have hpieces : pieces (p ++ "/" ++ n) = pieces p ++ [n] := by
      rw [pieces_append_sep, pieces_of_not_mem hv.2.2.2.1]
    rw [hend', if_neg Bool.false_ne_true] at hjoin
    rw [hjoin] at hfit ⊢
    refine locate_of_walk (hlong (p ++ "/" ++ n) (by simp)) hfit ?_
    rw [hpieces]
    exact walk_fuel_mono hw hfuel

namespace Volume

/-- The path leads from the root to the directory at `loc`, and keeps leading there whatever that
directory comes to hold: resolving it never passes through the directory's own entries. -/
def Reaches (v : Volume) (path : String) (loc : Loc) : Prop :=
  Char.ofNat 0 ∉ path.toList ∧ v.locate "/" path true = .ok loc ∧
    ∀ E w, v.updateDir loc (fun _ ↦ E) = some w → w.locate "/" path true = .ok loc

/-- The path names a directory and keeps naming it whatever that directory comes to hold:
resolving the path never passes through the directory's own entries. -/
def Steady (v : Volume) (path : String) : Prop :=
  ∀ loc es, v.stat "/" path = .ok (loc, .dir es) →
    ∀ E w, v.updateDir loc (fun _ ↦ E) = some w → w.locate "/" path true = .ok loc

/-- What a path names, read from the root, is where it leads. -/
theorem stat_eq_ok {v : Volume} {p : String} {loc : Loc} {x : Node}
    (h : v.stat "/" p = .ok (loc, x)) :
    Char.ofNat 0 ∉ p.toList ∧ v.locate "/" p true = .ok loc ∧ v.node? loc = some x := by
  unfold stat statWith at h
  split at h
  · cases h
  · next hnul =>
    split at h
    · cases h
    · next l hl =>
      split at h
      · next y hy =>
        cases h
        exact ⟨by simpa using hnul, hl, hy⟩
      · cases h

/-- A steady path that names a directory reaches it. -/
theorem Steady.reaches {v : Volume} {p : String} (h : v.Steady p) {loc : Loc}
    {es : List (String × Node)} (hs : v.stat "/" p = .ok (loc, .dir es)) :
    v.Reaches p loc ∧ v.node? loc = some (.dir es) := by
  obtain ⟨hnul, hloc, hnode⟩ := stat_eq_ok hs
  exact ⟨⟨hnul, hloc, h loc es hs⟩, hnode⟩

/-- The path `/` leads to the top of every volume, whatever it holds. -/
theorem locate_slash (v : Volume) : v.locate "/" "/" true = .ok [] := by
  rw [locate_from_root]
  rfl

/-- The path `/` reaches the top of a volume, and keeps reaching it. -/
theorem reaches_slash (v : Volume) : v.Reaches "/" [] :=
  ⟨by decide, locate_slash v, fun _ w _ ↦ locate_slash w⟩

/-- A path that reaches a directory is steady. -/
theorem Reaches.steady {v : Volume} {p : String} {loc : Loc} (h : v.Reaches p loc) :
    v.Steady p := by
  intro loc' es hs E w hw
  obtain ⟨-, hloc, -⟩ := stat_eq_ok hs
  rw [h.2.1] at hloc
  cases hloc
  exact h.2.2 E w hw

/-- A path that lists a directory names it. -/
theorem stat_of_listDir {v : Volume} {p : String} {E : List (String × Node)}
    (h : v.listDir "/" p = .ok E) : ∃ loc, v.stat "/" p = .ok (loc, .dir E) := by
  unfold listDir resolve at h
  split at h
  · cases h
  · next hnul =>
    split at h
    · next loc hloc =>
      refine ⟨loc, ?_⟩
      simp only [bind, Except.bind] at h
      split at h
      · next es hnode =>
        cases h
        have hnul' : Char.ofNat 0 ∉ p.toList := by simpa using hnul
        simp [stat, statWith, hnul', hloc, hnode]
      · cases h
      · cases h
    · cases h

/-- A path keeps reaching a directory while that directory changes. -/
theorem Reaches.updateDir {v w : Volume} {p : String} {loc : Loc}
    {f : List (String × Node) → List (String × Node)} (h : v.Reaches p loc)
    (hw : v.updateDir loc f = some w) : w.Reaches p loc := by
  obtain ⟨hnul, -, hkeep⟩ := h
  obtain ⟨E₀, hE₀, -⟩ := node?_of_updateDir hw
  refine ⟨hnul, hkeep (f E₀) w ?_, fun E w' hw' ↦ hkeep E w' ?_⟩
  · rw [← hw]
    exact updateDir_congr hE₀ rfl
  · -- a change after a change is one change, and this one forgets the first
    have hc := updateDir_comp v loc f (fun _ ↦ E)
    simp only [hw, Option.bind_some, hw'] at hc
    exact hc.symm

/-- A path without NUL characters resolves to where it leads. -/
theorem resolve_of_locate {v : Volume} {p : String} {fl : Bool} {loc : Loc}
    (hnul : Char.ofNat 0 ∉ p.toList) (h : v.locate "/" p fl = .ok loc) :
    v.resolve "/" p fl = .ok loc := by
  simp [resolve, hnul, h]

section TooLong

variable {v : Volume} {p : String} (h : pathMax ≤ byteLength p)
include h

/-- A path too long for the system lists nothing, and fails alike in every volume. -/
theorem listDir_of_too_long : ∃ e, ∀ w : Volume, w.listDir "/" p = .error e := by
  obtain ⟨e, he⟩ := resolve_of_too_long "/" true h
  exact ⟨e, fun w ↦ by simp [listDir, he w, bind, Except.bind]⟩

/-- A path too long for the system unlinks nothing. -/
theorem unlink_of_too_long : ∃ e, v.unlink "/" p = .error e := by
  obtain ⟨e, he⟩ := resolve_of_too_long "/" false h
  exact ⟨e, by simp [unlink, he v, bind, Except.bind]⟩

/-- A path too long for the system removes no directory. -/
theorem rmdir_of_too_long : ∃ e, v.rmdir "/" p = .error e := by
  obtain ⟨e, he⟩ := resolve_of_too_long "/" false h
  exact ⟨e, by simp [rmdir, he v, bind, Except.bind]⟩

end TooLong

section Child

variable {v : Volume} {p : String} {loc : Loc} {E : List (String × Node)} {n : String}

/-- The path of a directory joined to the name of one of its entries resolves to that entry. -/
theorem Reaches.resolve_join (h : v.Reaches p loc) (hL : v.node? loc = some (.dir E)) {x : Node}
    (hn : findEntry E n = some x) (hv : ValidName n) (hfit : byteLength (join p n) < pathMax)
    {fl : Bool} (hx : x.isDir ∨ fl = false) :
    v.resolve "/" (join p n) fl = .ok (loc ++ [n]) :=
  resolve_of_locate (nul_not_mem_join h.1 hv.2.2.2.2) (locate_join h.2.1 hL hn hv hfit hx)

/-- The path of a directory joined to the name of a subdirectory reaches the subdirectory. -/
theorem Reaches.child (h : v.Reaches p loc) (hL : v.node? loc = some (.dir E))
    {S : List (String × Node)} (hn : findEntry E n = some (.dir S)) (hv : ValidName n)
    (hfit : byteLength (join p n) < pathMax) :
    v.Reaches (join p n) (loc ++ [n]) := by
  refine ⟨nul_not_mem_join h.1 hv.2.2.2.2, locate_join h.2.1 hL hn hv hfit (.inl rfl),
    fun E' w hw ↦ ?_⟩
  rw [updateDir_append (fun _ ↦ E') hL hn] at hw
  obtain ⟨E₁, -, hw₁⟩ := node?_of_updateDir hw
  -- the change is one of the parent, whose path is not disturbed by it
  exact locate_join (h.updateDir hw).2.1 hw₁ (findEntry_putEntry_self n _ E₁) hv hfit (.inl rfl)

/-- A path that reaches a directory lists its entries. -/
theorem Reaches.listDir (h : v.Reaches p loc) (hL : v.node? loc = some (.dir E)) :
    v.listDir "/" p = .ok E := by
  have hres := resolve_of_locate h.1 h.2.1
  simp [Volume.listDir, hres, hL, bind, Except.bind, pure, Except.pure]

/-- Unlinking an entry other than a directory by its path drops its name from its parent. -/
theorem Reaches.unlink_join (h : v.Reaches p loc) (hL : v.node? loc = some (.dir E)) {x : Node}
    (hn : findEntry E n = some x) (hx : x.isDir = false) (hv : ValidName n)
    (hfit : byteLength (join p n) < pathMax) :
    ∃ w, v.unlink "/" (join p n) = .ok w ∧ v.updateDir loc (dropEntry n) = some w := by
  obtain ⟨w, hw⟩ := exists_updateDir (dropEntry n) hL
  have hres : v.resolve "/" (join p n) false = .ok (loc ++ [n]) :=
    h.resolve_join hL hn hv hfit (.inr rfl)
  have hnode : v.node? (loc ++ [n]) = some x := by rw [node?_append hL, hn]
  refine ⟨w, ?_, hw⟩
  cases x with
  | dir es => simp [Node.isDir] at hx
  | file id c => simp [unlink, hres, hnode, erase_append, hw, bind, Except.bind, pure, Except.pure]
  | link t => simp [unlink, hres, hnode, erase_append, hw, bind, Except.bind, pure, Except.pure]

/-- Removing an empty subdirectory by its path drops its name from its parent. -/
theorem Reaches.rmdir_join (h : v.Reaches p loc) (hL : v.node? loc = some (.dir E))
    (hn : findEntry E n = some (.dir [])) (hv : ValidName n)
    (hfit : byteLength (join p n) < pathMax) :
    ∃ w, v.rmdir "/" (join p n) = .ok w ∧ v.updateDir loc (dropEntry n) = some w := by
  obtain ⟨w, hw⟩ := exists_updateDir (dropEntry n) hL
  have hres : v.resolve "/" (join p n) false = .ok (loc ++ [n]) :=
    h.resolve_join hL hn hv hfit (.inr rfl)
  have hnode : v.node? (loc ++ [n]) = some (.dir []) := by rw [node?_append hL, hn]
  exact ⟨w, by simp [rmdir, hres, hnode, erase_append, hw, bind, Except.bind, pure, Except.pure], hw⟩

end Child

end Volume

end TorrentPrune.Fs
