import Mathlib
import TorrentPrune.Proofs.Fs.Within
import TorrentPrune.Proofs.Path.CanonicalText

/-!
# Paths through directories

A path whose names all lead to directories needs no link to be followed.

* A call's walk goes one directory down per name (`walk_through_dirs`).
* A call finds a directory by its text from the root, as long as the text is shorter than
  `pathMax` bytes (`statWith_textOf_dir`). A text of `pathMax` bytes or more fails every call
  (`statWith_of_too_long`).
* The canonical path checks each name with such a call and joins the name to its text, one name
  per step (`realPathFrom_through_dirs`).

The bytes of a text add up over its pieces (`byteLength_append`), and a text of the first form
grows with every name joined.
-/

namespace TorrentPrune.Fs

open TorrentPrune.Path TorrentPrune.Text

section Bytes

/-- The bytes of a text, one character at a time. -/
theorem byteLength_eq_sum (s : String) :
    byteLength s = (s.toList.map fun c ↦
      if (byteHeld? c).isSome then 1 else (encodeChar c).length).sum := by
  unfold byteLength
  induction s.toList with
  | nil => rfl
  | cons c cs ih => rw [List.foldr_cons, ih, List.map_cons, List.sum_cons]

/-- The bytes of joined texts add up. -/
theorem byteLength_append (a b : String) : byteLength (a ++ b) = byteLength a + byteLength b := by
  simp only [byteLength_eq_sum, String.toList_append, List.map_append, List.sum_append]

/-- A text of the first form grows by the bytes of every part joined after it. -/
theorem byteLength_textOf_le {parts : List String} (hp : ∀ c ∈ parts, Proper c) {xs : List String}
    (hxs : ∀ c ∈ xs, Proper c) : byteLength (textOf true parts) ≤ byteLength (textOf true (parts ++ xs)) := by
  by_cases hne : xs = []
  · simp [hne]
  · rw [← join_textOf_intercalate true hp hxs hne, join_eq_of_not_abs
      (by simpa [isAbs] using intercalate_head?_ne_sep hxs)]
    split <;> simp only [byteLength_append] <;> omega

/-- A text of the first form holds no NUL character when its parts hold none. -/
theorem nul_not_mem_textOf {abs : Bool} :
    ∀ {parts : List String}, (∀ c ∈ parts, Proper c ∧ Char.ofNat 0 ∉ c.toList) →
      Char.ofNat 0 ∉ (textOf abs parts).toList := by
  intro parts
  induction parts using List.reverseRecOn with
  | nil => intro _; cases abs <;> simp [textOf]
  | append_singleton parts n ih =>
    intro hp
    have hparts : ∀ c ∈ parts, Proper c ∧ Char.ofNat 0 ∉ c.toList :=
      fun c hc ↦ hp c (List.mem_append_left _ hc)
    have hn := hp n (List.mem_append_right _ List.mem_cons_self)
    rw [← join_textOf (fun c hc ↦ (hparts c hc).1) hn.1]
    exact nul_not_mem_join (ih hparts) hn.2

/-- A text of the first form has at least as many characters as parts. -/
theorem length_le_length_textOf :
    ∀ {parts : List String}, (∀ c ∈ parts, Proper c) → parts.length ≤ (textOf true parts).length := by
  intro parts
  induction parts using List.reverseRecOn with
  | nil => intro _; simp
  | append_singleton parts n ih =>
    intro hp
    have hparts : ∀ c ∈ parts, Proper c := fun c hc ↦ hp c (List.mem_append_left _ hc)
    have hn := hp n (List.mem_append_right _ List.mem_cons_self)
    have hpos : 0 < n.length := Nat.pos_of_ne_zero fun h ↦ hn.1 (String.length_eq_zero_iff.mp h)
    have hle := ih hparts
    by_cases hnil : parts = []
    · subst hnil
      simp [textOf]
      omega
    · rw [textOf_snoc hnil]
      simp only [String.length_append, List.length_append, List.length_singleton]
      omega

end Bytes

variable {v : Volume}

section Walk

/-- A walk through names that lead to directories goes one directory down per name. -/
theorem walk_through_dirs (fl : Bool) (links : Nat) (rest : List String) :
    ∀ {ns : List String} {B : Loc} {F : Nat} {E : List (String × Node)}, (∀ n ∈ ns, ValidName n) →
      v.node? (B ++ ns) = some (.dir E) → ns.length ≤ F →
      walk v fl F links B (ns ++ rest) = walk v fl (F - ns.length) links (B ++ ns) rest
  | [], B, F, E, _, _, _ => by simp
  | n :: ns, B, F, E, hv, hE, hF => by
    -- every location on the way is a directory, the first one included
    obtain ⟨E', hE'⟩ : ∃ E', v.node? (B ++ [n]) = some (.dir E') := by
      by_cases hns : ns = []
      · subst hns
        exact ⟨E, by simpa using hE⟩
      · exact Volume.dir_of_prefix_of_ne hE ⟨ns, by simp⟩ (by simp [hns])
    obtain ⟨hne, hdot, hdots, -, -⟩ := hv n List.mem_cons_self
    obtain ⟨F, rfl⟩ : ∃ F', F = F' + 1 := ⟨F - 1, by simp at hF; omega⟩
    rw [List.cons_append, walk, if_neg (by simp [hne, hdot]), if_neg (by simpa using hdots)]
    simp only [hE']
    rw [walk_through_dirs fl links rest (fun c hc ↦ hv c (List.mem_cons_of_mem _ hc))
      (by simpa using hE) (by simp at hF; omega)]
    simp

/-- A call finds a directory by its text from the root, when the text is shorter than
`pathMax` bytes. -/
theorem statWith_textOf_dir (cwd : String) (fl : Bool) {P : Loc} {E : List (String × Node)}
    (hP : ∀ n ∈ P, ValidName n) (hE : v.node? P = some (.dir E))
    (hfit : byteLength (textOf true P) < pathMax) :
    v.statWith cwd (textOf true P) fl = .ok (P, .dir E) := by
  have hp : ∀ c ∈ P, Proper c := fun c hc ↦ ValidName.proper (hP c hc)
  have hnul : Char.ofNat 0 ∉ (textOf true P).toList :=
    nul_not_mem_textOf fun c hc ↦ ⟨hp c hc, (hP c hc).2.2.2.2⟩
  have hne : (textOf true P).isEmpty = false := isEmpty_of_mem_toList (c := '/') (by simp [textOf])
  have hlen := length_le_length_textOf hp
  -- the walk: the leading separator, then one directory per name
  have hwalk : walk v fl (4096 + 8 * (textOf true P).length) 0 [] (pieces (textOf true P)) =
      .ok P := by
    by_cases hnil : P = []
    · subst hnil
      simp only [textOf_root_nil]
      rfl
    · obtain ⟨F, hF⟩ : ∃ F, 4096 + 8 * (textOf true P).length = F + P.length + 1 :=
        ⟨4096 + 8 * (textOf true P).length - P.length - 1, by omega⟩
      have h := walk_through_dirs fl 0 [] (B := []) (F := F + P.length) hP (by simpa using hE) (by omega)
      rw [List.append_nil, List.nil_append, Nat.add_sub_cancel] at h
      rw [hF, pieces_textOf hp hnil, if_pos rfl, List.singleton_append, walk, if_pos (by simp), h]
      cases F <;> rfl
  have hloc : v.locate cwd (textOf true P) fl = .ok P := by
    rw [Volume.locate, hne, if_neg Bool.false_ne_true, if_neg (Nat.not_le.mpr hfit)]
    simpa [isAbs_textOf hp] using hwalk
  simp [Volume.statWith, hnul, hloc, hE]

/-- A path of `pathMax` bytes or more without a NUL character fails every call that resolves
it. -/
theorem statWith_of_too_long (cwd : String) (fl : Bool) {p : String}
    (hnul : Char.ofNat 0 ∉ p.toList) (h : pathMax ≤ byteLength p) :
    v.statWith cwd p fl = .error (.os (OsError.ofErrno ENAMETOOLONG p)) := by
  have hne : p.isEmpty = false := by
    cases hp : p.isEmpty
    · rfl
    · simp [String.isEmpty_iff.mp hp, byteLength, pathMax] at h
  simp [Volume.statWith, Volume.locate, hnul, hne, h]

end Walk

section Canonical

/-- The canonical path reads names that lead to directories one per step, joining each to its
text, as long as the text stays shorter than `pathMax` bytes. -/
theorem realPathFrom_through_dirs {cwd : String} {strict : Bool} {seen : Seen}
    {rest : List String} :
    ∀ {ns : List String} {B : Loc} {F : Nat} {E : List (String × Node)},
      (∀ n ∈ B ++ ns, ValidName n) → v.node? (B ++ ns) = some (.dir E) →
      byteLength (textOf true (B ++ ns)) < pathMax → ns.length ≤ F →
      realPathFrom v cwd strict F seen (textOf true B) (ns ++ rest) =
        realPathFrom v cwd strict (F - ns.length) seen (textOf true (B ++ ns)) rest
  | [], B, F, E, _, _, _, _ => by simp
  | n :: ns, B, F, E, hv, hE, hfit, hF => by
    have hp : ∀ c ∈ B ++ n :: ns, Proper c := fun c hc ↦ ValidName.proper (hv c hc)
    have hsub : ∀ c ∈ B ++ [n], c ∈ B ++ n :: ns := fun c hc ↦ by
      rw [List.mem_append, List.mem_singleton] at hc
      rcases hc with hc | rfl
      · exact List.mem_append_left _ hc
      · simp
    obtain ⟨hne, hdot, hdots, -, -⟩ := hv n (by simp)
    obtain ⟨E', hE'⟩ : ∃ E', v.node? (B ++ [n]) = some (.dir E') := by
      by_cases hns : ns = []
      · subst hns
        exact ⟨E, hE⟩
      · exact Volume.dir_of_prefix_of_ne hE ⟨ns, by simp⟩ (by simp [hns])
    -- the text so far is shorter than the whole text
    have hfit' : byteLength (textOf true (B ++ [n])) < pathMax := by
      have hle : byteLength (textOf true (B ++ [n])) ≤ byteLength (textOf true (B ++ [n] ++ ns)) :=
        byteLength_textOf_le (fun c hc ↦ hp c (hsub c hc)) (fun c hc ↦ hp c (by simp [hc]))
      simp only [List.append_assoc, List.singleton_append] at hle
      omega
    have hl : v.lstat cwd (join (textOf true B) n) = .ok (B ++ [n], .dir E') := by
      rw [join_textOf (fun c hc ↦ hp c (by simp [hc])) (hp n (by simp))]
      exact statWith_textOf_dir cwd false (fun c hc ↦ hv c (hsub c hc)) hE' hfit'
    obtain ⟨F, rfl⟩ : ∃ F', F = F' + 1 := ⟨F - 1, by simp at hF; omega⟩
    rw [List.cons_append, realPathFrom, if_neg (by simp [hne, hdot]), if_neg (by simpa using hdots)]
    simp only [hl]
    rw [join_textOf (fun c hc ↦ hp c (by simp [hc])) (hp n (by simp)),
      realPathFrom_through_dirs (B := B ++ [n]) (by simpa using hv) (by simpa using hE)
        (by simpa using hfit) (by simp at hF; omega)]
    simp

end Canonical

end TorrentPrune.Fs
