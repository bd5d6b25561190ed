import TorrentPrune.Proofs.Fs.Directories
import TorrentPrune.Proofs.Fs.Following

/-!
# The canonical path and the depth guard

The canonical path expands links one component at a time on text, and applies `..` to the text
already expanded. A call's walk applies `..` to the location it has reached. The two agree
whenever the canonical path finishes in strict mode: both follow links as `Resolves` says,
which is deterministic.

The canonical path's texts are kept in the forms of `textOf`, read from the root or from the
working directory. Every name on them has been checked to stand in the volume and not to be a link
(`Canon`). Every link in its cache of finished expansions names the text where following the link
leads (`SeenSound`). One step of the expansion keeps both facts, and so does a whole run
(`expandsSoundly`).

The depth guard counts the segments of the canonical path. So when the path resolves, the guard
counts the depth of the location that the call's walk reaches (`countSegments_resolved_eq_depth`).
-/

namespace TorrentPrune.Fs

open TorrentPrune.Path

variable {v : Volume}

section Walks

/-- What a path names, read from any working directory, is where it leads. -/
theorem statWith_eq_ok {cwd p : String} {fl : Bool} {L : Loc} {x : Node}
    (h : v.statWith cwd p fl = .ok (L, x)) :
    Char.ofNat 0 ∉ p.toList ∧ v.locate cwd p fl = .ok L ∧ v.node? L = some x := by
  unfold Volume.statWith at h
  split at h
  · cases h
  · next hnul =>
    split at h
    · cases h
    · next l hl =>
      split at h
      · next y hy =>
        cases h
        exact ⟨by simpa using hnul, hl, hy⟩
      · cases h

/-- A path that leads somewhere is not empty, and its walk from the root or from the working
directory gets there. -/
theorem Volume.walk_of_locate_from {cwd p : String} {fl : Bool} {L : Loc}
    (h : v.locate cwd p fl = .ok L) :
    p.isEmpty = false ∧
      ∃ F, walk v fl F 0 (if isAbs p then [] else locOf cwd) (pieces p) = .ok L := by
  unfold Volume.locate at h
  split at h
  · cases h
  · next hp =>
    split at h
    · cases h
    · exact ⟨by simpa using hp, _, h⟩

/-- An empty component or `.` leaves a walk where it is. -/
theorem walk_of_skip {fl : Bool} {F links : Nat} {cur L : Loc} {c : String} {rest : List String}
    (hc : c = "" ∨ c = ".") (h : walk v fl F links cur (c :: rest) = .ok L) :
    ∃ F', walk v fl F' links cur rest = .ok L := by
  cases F with
  | zero => simp [walk] at h
  | succ F =>
    rw [walk, if_pos (by simpa using hc)] at h
    exact ⟨F, h⟩

/-- A run of `..` takes a walk up as many locations. -/
theorem walk_of_dots {fl : Bool} {links : Nat} {rest : List String} {L : Loc} :
    ∀ (k : Nat) {F : Nat} {cur : Loc}, walk v fl F links cur (List.replicate k ".." ++ rest) = .ok L →
      ∃ F', walk v fl F' links (cur.take (cur.length - k)) rest = .ok L
  | 0, F, cur, h => ⟨F, by simpa using h⟩
  | k + 1, F, cur, h => by
    rw [List.replicate_succ, List.cons_append] at h
    cases F with
    | zero => simp [walk] at h
    | succ F =>
      rw [walk, if_neg (by decide), if_pos (by decide)] at h
      obtain ⟨F', h'⟩ := walk_of_dots k h
      refine ⟨F', ?_⟩
      have hup : cur.dropLast.take (cur.dropLast.length - k) = cur.take (cur.length - (k + 1)) := by
        rw [List.dropLast_eq_take, List.take_take, List.length_take]
        congr 1
        omega
      rwa [hup] at h'

/-- A name that stands and is no link takes a walk one location down. -/
theorem walk_of_name {fl : Bool} {F links : Nat} {cur L : Loc} {n : String} {rest : List String}
    {x : Node} (hv : ValidName n) (hx : v.node? (cur ++ [n]) = some x) (hl : x.isLink = false)
    (h : walk v fl F links cur (n :: rest) = .ok L) :
    ∃ F', walk v fl F' links (cur ++ [n]) rest = .ok L := by
  obtain ⟨hne, hdot, hdots, -, -⟩ := hv
  cases F with
  | zero => simp [walk] at h
  | succ F =>
    rw [walk, if_neg (by simp [hne, hdot]), if_neg (by simpa using hdots)] at h
    cases x with
    | dir es =>
      simp only [hx] at h
      exact ⟨F, h⟩
    | file id content =>
      -- a file ends the walk: nothing may follow it
      simp only [hx] at h
      split at h
      · next hrest =>
        cases h
        rw [List.isEmpty_iff.mp hrest]
        exact ⟨0, rfl⟩
      · cases h
    | link t => cases hl

/-- The last name of a walk that does not follow a last link is where the walk ends. -/
theorem walk_last {F links : Nat} {cur L : Loc} {n : String} (hv : ValidName n)
    (h : walk v false F links cur [n] = .ok L) : L = cur ++ [n] := by
  obtain ⟨hne, hdot, hdots, -, -⟩ := hv
  cases F with
  | zero => simp [walk] at h
  | succ F =>
    rw [walk, if_neg (by simp [hne, hdot]), if_neg (by simpa using hdots)] at h
    have hend : walk v false F links (cur ++ [n]) [] = .ok (cur ++ [n]) := by cases F <;> rfl
    cases hx : v.node? (cur ++ [n]) with
    | none => simpa [hx] using h.symm
    | some x => cases x <;> simp [hx, hend] at h <;> exact h.symm

end Walks

section Checked

/-- Names read one after another from `B`, each standing in the volume and none a link: the names
the canonical path has checked on its way. -/
inductive Along (v : Volume) (B : Loc) : List String → Prop
  | nil : Along v B []
  | snoc {ns : List String} {n : String} {x : Node} : Along v B ns → ValidName n →
      v.node? (B ++ ns ++ [n]) = some x → x.isLink = false → Along v B (ns ++ [n])

variable {B : Loc} {ns : List String}

/-- The names checked are names. -/
theorem Along.valid (h : Along v B ns) : ∀ c ∈ ns, ValidName c := by
  induction h with
  | nil => simp
  | snoc _ hv _ _ ih =>
    intro c hc
    rcases List.mem_append.mp hc with hc | hc
    · exact ih c hc
    · rw [List.mem_singleton.mp hc]
      exact hv

/-- Dropping the last name keeps the others checked. -/
theorem Along.dropLast (h : Along v B ns) : Along v B ns.dropLast := by
  cases h with
  | nil => exact .nil
  | snoc h _ _ _ => rwa [List.dropLast_concat]

/-- A walk through checked names reaches the location below them. -/
theorem Along.walk {fl : Bool} {links : Nat} {L : Loc} (h : Along v B ns) :
    ∀ {F : Nat} {rest : List String}, walk v fl F links B (ns ++ rest) = .ok L →
      ∃ F', walk v fl F' links (B ++ ns) rest = .ok L := by
  induction h with
  | nil => exact fun hw ↦ ⟨_, by simpa using hw⟩
  | snoc _ hv hx hl ih =>
    intro F rest hw
    rw [List.append_assoc, List.singleton_append] at hw
    obtain ⟨F', hw'⟩ := ih hw
    rw [← List.append_assoc]
    exact walk_of_name hv hx hl hw'

end Checked

section Texts

/-- A text the canonical path builds and the location it names: from the root, or from the working
directory `C` after `k` steps up, then through names checked on the way. -/
inductive Canon (v : Volume) (C : Loc) : String → Loc → Prop
  | root {ns : List String} : Along v [] ns → Canon v C (textOf true ns) ns
  | up (k : Nat) {ns : List String} : Along v (C.take (C.length - k)) ns →
      Canon v C (textOf false (List.replicate k ".." ++ ns)) (C.take (C.length - k) ++ ns)

variable {C : Loc}

/-- The root and the working directory are texts of the canonical path. -/
theorem Canon.start (abs : Bool) :
    Canon v C (if abs then "/" else "") (if abs then [] else C) := by
  cases abs with
  | true => simpa [textOf] using (Canon.root .nil : Canon v C (textOf true []) [])
  | false =>
    simpa [textOf] using
      (Canon.up 0 .nil : Canon v C (textOf false (List.replicate 0 ".." ++ [])) (C.take (C.length - 0) ++ []))

/-- Joining a name that stands and is no link gives a text of the canonical path for the location
below. -/
theorem Canon.child {t : String} {P : Loc} {n : String} {x : Node} (h : Canon v C t P)
    (hv : ValidName n) (hx : v.node? (P ++ [n]) = some x) (hl : x.isLink = false) :
    Canon v C (join t n) (P ++ [n]) := by
  cases h with
  | root hA =>
    rw [join_textOf (fun c hc ↦ ValidName.proper (hA.valid c hc)) (ValidName.proper hv)]
    exact .root (hA.snoc hv (by simpa using hx) hl)
  | up k hA =>
    rw [join_textOf (proper_dots_append k hA.valid) (ValidName.proper hv), List.append_assoc,
      List.append_assoc]
    exact .up k (hA.snoc hv hx hl)

/-- The parent of a text of the canonical path names the parent location. -/
theorem Canon.parent {t : String} {P : Loc} (h : Canon v C t P) :
    Canon v C (parentText t) P.dropLast := by
  cases h with
  | root hA =>
    cases hA with
    | nil =>
      rw [parentText_root]
      exact .root .nil
    | snoc hA hv _ _ =>
      rw [parentText_textOf (fun c hc ↦ ValidName.proper (hA.valid c hc)) (ValidName.proper hv) hv.2.2.1,
        List.dropLast_concat]
      exact .root hA
  | up k hA =>
    cases hA with
    | nil =>
      -- one more `..`: the location one further up
      have hup : (C.take (C.length - k)).dropLast = C.take (C.length - (k + 1)) := by
        rw [List.dropLast_eq_take, List.take_take, List.length_take]
        congr 1
        omega
      rw [List.append_nil, List.append_nil, parentText_dots, hup]
      simpa using (Canon.up (k + 1) .nil :
        Canon v C (textOf false (List.replicate (k + 1) ".." ++ [])) (C.take (C.length - (k + 1)) ++ []))
    | snoc hA hv _ _ =>
      rw [← List.append_assoc, parentText_textOf (proper_dots_append k hA.valid) (ValidName.proper hv) hv.2.2.1,
        ← List.append_assoc, List.dropLast_concat]
      exact .up k hA

variable (hC : ∀ c ∈ C, ValidName c)
include hC

/-- A location named by a text of the canonical path is made of names. -/
theorem Canon.valid {t : String} {P : Loc} (h : Canon v C t P) : ∀ c ∈ P, ValidName c := by
  cases h with
  | root hA => exact hA.valid
  | up k hA =>
    intro c hc
    rcases List.mem_append.mp hc with hc | hc
    · exact hC c (List.mem_of_mem_take hc)
    · exact hA.valid c hc

/-- A text of the canonical path, made absolute, spells the location it names. -/
theorem Canon.spells {t : String} {P : Loc} (h : Canon v C t P) :
    absolute (textOf true C) t = textOf true P := by
  cases h with
  | root hA => exact absolute_textOf_root _ hA.valid
  | up k hA => exact absolute_textOf_up hC k hA.valid

/-- A text of the canonical path with a name joined, made absolute, spells the location below,
whatever stands there. -/
theorem Canon.spells_child {t : String} {P : Loc} {n : String} (h : Canon v C t P)
    (hv : ValidName n) : absolute (textOf true C) (join t n) = textOf true (P ++ [n]) := by
  cases h with
  | root hA =>
    rw [join_textOf (fun c hc ↦ ValidName.proper (hA.valid c hc)) (ValidName.proper hv)]
    refine absolute_textOf_root _ fun c hc ↦ ?_
    rcases List.mem_append.mp hc with hc | hc
    · exact hA.valid c hc
    · rw [List.mem_singleton.mp hc]
      exact hv
  | up k hA =>
    rw [join_textOf (proper_dots_append k hA.valid) (ValidName.proper hv), List.append_assoc,
      List.append_assoc, absolute_textOf_up hC k]
    intro c hc
    rcases List.mem_append.mp hc with hc | hc
    · exact hA.valid c hc
    · rw [List.mem_singleton.mp hc]
      exact hv

/-- The canonical path checks a name with a call that does not follow a last link. When the call
finds something, the name is a name, and the call found it below the location of the text. -/
theorem Canon.lstat_join {t : String} {P L : Loc} {n : String} {x : Node} (h : Canon v C t P)
    (hn : Proper n) (hdot : n ≠ ".") (hdots : n ≠ "..")
    (hs : v.lstat (textOf true C) (join t n) = .ok (L, x)) :
    ValidName n ∧ L = P ++ [n] ∧ v.node? L = some x := by
  obtain ⟨hnul, hloc, hx⟩ := statWith_eq_ok hs
  have hv : ValidName n := ⟨hn.1, hdot, hdots, hn.2, fun h0 ↦
    hnul (mem_join_of_mem hn.isAbs_eq_false h0)⟩
  refine ⟨hv, ?_, hx⟩
  obtain ⟨-, F, hw⟩ := Volume.walk_of_locate_from hloc
  cases h with
  | root hA =>
    -- from the root: the leading separator, the names checked, then the name
    have hp : ∀ c ∈ _ ++ [n], Proper c := fun c hc ↦ by
      rcases List.mem_append.mp hc with hc | hc
      · exact ValidName.proper (hA.valid c hc)
      · rw [List.mem_singleton.mp hc]
        exact hn
    rw [join_textOf (fun c hc ↦ ValidName.proper (hA.valid c hc)) hn, isAbs_textOf hp, if_pos rfl,
      pieces_textOf hp (by simp), if_pos rfl, List.singleton_append] at hw
    obtain ⟨F₁, hw₁⟩ := walk_of_skip (Or.inl rfl) hw
    obtain ⟨F₂, hw₂⟩ := hA.walk hw₁
    simpa using walk_last hv hw₂
  | up k hA =>
    -- from the working directory: up `k` locations, the names checked, then the name
    have hp := proper_dots_append k (fun c hc ↦ by
      rcases List.mem_append.mp hc with hc | hc
      · exact hA.valid c hc
      · rw [List.mem_singleton.mp hc]
        exact hv)
    rw [join_textOf (proper_dots_append k hA.valid) hn, List.append_assoc, isAbs_textOf hp,
      if_neg Bool.false_ne_true, locOf_textOf hC, pieces_textOf hp (by simp), if_neg Bool.false_ne_true,
      List.nil_append] at hw
    obtain ⟨F₁, hw₁⟩ := walk_of_dots k hw
    obtain ⟨F₂, hw₂⟩ := hA.walk hw₁
    rw [walk_last hv hw₂, List.append_assoc]

end Texts

section Cache

/-- Looking a link up once the state of its expansion is recorded. -/
theorem Seen.lookup_set (seen : Seen) (l l' : String) (r : Option String) :
    (seen.set l r).lookup l' = if l' = l then some r else seen.lookup l' := by
  by_cases hl : l' = l
  · subst hl
    simp [Seen.set]
  · -- dropping the old entries of `l` leaves every other key's entry first
    have hfilter : ∀ es : Seen, (es.filter fun e ↦ e.1 != l).lookup l' = es.lookup l' := by
      intro es
      induction es with
      | nil => rfl
      | cons e es ih =>
        obtain ⟨k, r'⟩ := e
        by_cases hk : k = l
        · subst hk
          have hne : (l' == k) = false := by simpa using hl
          simp [List.lookup_cons, hne, ih]
        · by_cases hk' : l' = k
          · subst hk'
            simp [hk]
          · have hne : (l' == k) = false := by simpa using hk'
            simp [hk, List.lookup_cons, hne, ih]
    have hne : (l' == l) = false := by simpa using hl
    simp [Seen.set, List.lookup_cons, hne, hfilter, hl]

/-- Every finished expansion in the cache is right: its key, made absolute, spells the location of
a link, and the text kept for it is a text of the canonical path that names where following the
link's target leads. Expansions in progress carry nothing. -/
def SeenSound (v : Volume) (C : Loc) (seen : Seen) : Prop :=
  ∀ l d, seen.lookup l = some (some d) → ∃ L t D, (∀ c ∈ L, ValidName c) ∧
    absolute (textOf true C) l = textOf true L ∧ v.node? L = some (.link t) ∧ Canon v C d D ∧
    Resolves v (if isAbs t then [] else L.dropLast) (pieces t) D

variable {C : Loc} {seen : Seen}

/-- An empty cache is right. -/
theorem SeenSound.empty : SeenSound v C [] := fun _ _ h ↦ by cases h

/-- Marking an expansion as in progress keeps the cache right. -/
theorem SeenSound.set_none (h : SeenSound v C seen) (l : String) :
    SeenSound v C (seen.set l none) := by
  intro l' d hd
  rw [Seen.lookup_set] at hd
  split at hd
  · cases hd
  · exact h l' d hd

/-- Recording a finished expansion that is right keeps the cache right. -/
theorem SeenSound.set_some (h : SeenSound v C seen) {l d t : String} {L D : Loc}
    (hL : ∀ c ∈ L, ValidName c) (hl : absolute (textOf true C) l = textOf true L)
    (hx : v.node? L = some (.link t)) (hd : Canon v C d D)
    (hR : Resolves v (if isAbs t then [] else L.dropLast) (pieces t) D) :
    SeenSound v C (seen.set l (some d)) := by
  intro l' d' hd'
  rw [Seen.lookup_set] at hd'
  split at hd'
  · next heq =>
    cases hd'
    exact ⟨L, t, D, hL, heq ▸ hl, hx, hd, hR⟩
  · exact h l' d' hd'

/-- A finished expansion found in the cache for a link below a text of the canonical path names
where following that link's target leads. -/
theorem SeenSound.cached (hC : ∀ c ∈ C, ValidName c) (h : SeenSound v C seen) {path name d t : String}
    {P : Loc} (hP : Canon v C path P) (hv : ValidName name) (hx : v.node? (P ++ [name]) = some (.link t))
    (hd : seen.lookup (join path name) = some (some d)) :
    ∃ D, Canon v C d D ∧ Resolves v (if isAbs t then [] else P) (pieces t) D := by
  obtain ⟨L, t', D, hL, hl, hxL, hD, hR⟩ := h _ _ hd
  -- the key spells the link's location, so the entry is about this link
  have hPv : ∀ c ∈ P ++ [name], ValidName c := fun c hc ↦ by
    rcases List.mem_append.mp hc with hc | hc
    · exact hP.valid hC c hc
    · rw [List.mem_singleton.mp hc]
      exact hv
  have hLeq : L = P ++ [name] :=
    textOf_root_inj (fun c hc ↦ ValidName.proper (hL c hc)) (fun c hc ↦ ValidName.proper (hPv c hc))
      (hl.symm.trans (hP.spells_child hC hv))
  subst hLeq
  rw [hx, Option.some.injEq, Node.link.injEq] at hxL
  subst hxL
  exact ⟨D, hD, by simpa using hR⟩

end Cache

section Expansion

/-- What a strict expansion with `fuel` steps left keeps. From a text of the canonical path and a
right cache, a finished expansion of `rest` ends at a text of the canonical path that names where
following links from the text's location leads, with a right cache. -/
def ExpandsSoundly (v : Volume) (C : Loc) (fuel : Nat) : Prop :=
  ∀ ⦃seen seen' : Seen⦄ ⦃path q : String⦄ ⦃rest : List String⦄ ⦃P : Loc⦄ ⦃done : Bool⦄,
    realPathFrom v (textOf true C) true fuel seen path rest = .ok (q, done, seen') →
    Canon v C path P → SeenSound v C seen → (∀ c ∈ rest, '/' ∉ c.toList) →
    done = true ∧ SeenSound v C seen' ∧ ∃ Q, Canon v C q Q ∧ Resolves v P rest Q

variable {C : Loc} (hC : ∀ c ∈ C, ValidName c)

/-- With nothing left to read an expansion stops where it is; with no steps left and something to
read it fails. -/
theorem expandsSoundly_zero : ExpandsSoundly v C 0 := by
  intro seen seen' path q rest P done h hP hS _
  cases rest with
  | nil =>
    rw [realPathFrom] at h
    cases h
    exact ⟨rfl, hS, P, hP, .nil P⟩
  | cons name rest => simp [realPathFrom] at h

include hC

/-- One step of a strict expansion keeps what `ExpandsSoundly` says, given that the steps after it
do. A name that is a link is either found in the cache, or expanded first from its target and
then recorded. -/
theorem ExpandsSoundly.succ {fuel : Nat} (ih : ExpandsSoundly v C fuel) :
    ExpandsSoundly v C (fuel + 1) := by
  intro seen seen' path q rest P done h hP hS hrest
  cases rest with
  | nil =>
    rw [realPathFrom] at h
    cases h
    exact ⟨rfl, hS, P, hP, .nil P⟩
  | cons name rest =>
    have hrest' : ∀ c ∈ rest, '/' ∉ c.toList := fun c hc ↦ hrest c (List.mem_cons_of_mem _ hc)
    rw [realPathFrom] at h
    by_cases h₁ : name = "" ∨ name = "."
    · rw [if_pos (by simpa using h₁)] at h
      obtain ⟨hd, hS', Q, hQ, hR⟩ := ih h hP hS hrest'
      exact ⟨hd, hS', Q, hQ, .stay h₁ hR⟩
    rw [if_neg (by simpa using h₁)] at h
    obtain ⟨hne, hdot⟩ := not_or.mp h₁
    by_cases hdots : name = ".."
    · subst hdots
      rw [if_pos (beq_self_eq_true _)] at h
      obtain ⟨hd, hS', Q, hQ, hR⟩ := ih h hP.parent hS hrest'
      exact ⟨hd, hS', Q, hQ, .up hR⟩
    rw [if_neg (by simpa using hdots)] at h
    have hn : Proper name := ⟨hne, hrest name List.mem_cons_self⟩
    cases hl : v.lstat (textOf true C) (join path name) with
    | error e =>
      -- in strict mode a failed check fails the expansion
      simp only [hl] at h
      cases e with
      | nulByte => cases h
      | os e => cases h
    | ok r =>
      obtain ⟨L, x⟩ := r
      obtain ⟨hv, rfl, hx⟩ := hP.lstat_join hC hn hdot hdots hl
      cases x with
      | dir es =>
        simp only [hl] at h
        obtain ⟨hd, hS', Q, hQ, hR⟩ := ih h (hP.child hv hx rfl) hS hrest'
        exact ⟨hd, hS', Q, hQ, .name hne hdot hdots hx rfl hR⟩
      | file id content =>
        simp only [hl] at h
        obtain ⟨hd, hS', Q, hQ, hR⟩ := ih h (hP.child hv hx rfl) hS hrest'
        exact ⟨hd, hS', Q, hQ, .name hne hdot hdots hx rfl hR⟩
      | link t =>
        simp only [hl] at h
        cases hs : seen.lookup (join path name) with
        | some r =>
          cases r with
          | some d =>
            -- the cache holds the finished expansion of this link
            simp only [hs] at h
            obtain ⟨D, hD, hT⟩ := hS.cached hC hP hv hx hs
            obtain ⟨hd, hS', Q, hQ, hR⟩ := ih h hD hS hrest'
            exact ⟨hd, hS', Q, hQ, .link hne hdot hdots hx hT hR⟩
          | none => simp [hs] at h
        | none =>
          -- expand the target first, from the root or from the link's directory
          simp only [hs] at h
          have hbase : Canon v C (if isAbs t then "/" else path) (if isAbs t then [] else P) := by
            cases isAbs t with
            | true => exact Canon.start true
            | false => exact hP
          have hpair : ∀ {α : Type} (a b : α), (if isAbs t then (a, pieces t) else (b, pieces t)) =
              ((if isAbs t then a else b), pieces t) := fun a b ↦ by split <;> rfl
          rw [hpair] at h
          have htarget : ∀ c ∈ pieces t, '/' ∉ c.toList := fun c hc ↦ sep_not_mem_of_mem_pieces hc
          cases hT : realPathFrom v (textOf true C) true fuel (seen.set (join path name) none)
              (if isAbs t then "/" else path) (pieces t) with
          | error e =>
            rw [hT] at h
            cases h
          | ok r =>
            obtain ⟨p, b, seen₂⟩ := r
            obtain ⟨rfl, hS₂, M, hM, hRT⟩ := ih hT hbase (hS.set_none _) htarget
            rw [hT] at h
            have hS₃ := hS₂.set_some (fun c hc ↦ by
                rcases List.mem_append.mp hc with hc | hc
                · exact hP.valid hC c hc
                · rw [List.mem_singleton.mp hc]
                  exact hv)
              (hP.spells_child hC hv) hx hM (by simpa using hRT)
            obtain ⟨hd, hS', Q, hQ, hR⟩ := ih h hM hS₃ hrest'
            exact ⟨hd, hS', Q, hQ, .link hne hdot hdots hx hRT hR⟩

/-- Every strict expansion keeps what `ExpandsSoundly` says, whatever the fuel. -/
theorem expandsSoundly : ∀ fuel, ExpandsSoundly v C fuel
  | 0 => expandsSoundly_zero
  | fuel + 1 => (expandsSoundly fuel).succ hC

end Expansion

end TorrentPrune.Fs

namespace TorrentPrune

open TorrentPrune.Path TorrentPrune.Fs

section Guard

variable {v : Volume} {C : Loc} (hC : ∀ c ∈ C, ValidName c)
include hC

/-- A strict canonical path that resolves spells where following links leads from the root, for an
absolute path, or else from the working directory. -/
theorem realPath_resolves {p c : String} (h : v.realPath (textOf true C) p true = .ok c) :
    ∃ Q, c = textOf true Q ∧ (∀ n ∈ Q, ValidName n) ∧
      Resolves v (if isAbs p then [] else C) (pieces p) Q := by
  have hpair : (if isAbs p then ("/", pieces p) else ("", pieces p)) =
      ((if isAbs p then "/" else ""), pieces p) := by
    split <;> rfl
  simp only [Volume.realPath, hpair] at h
  cases hr : realPathFrom v (textOf true C) true (4096 + 8 * p.length) []
      (if isAbs p then "/" else "") (pieces p) with
  | error e =>
    rw [hr] at h
    cases h
  | ok r =>
    obtain ⟨q, b, seen⟩ := r
    rw [hr] at h
    cases h
    obtain ⟨-, -, Q, hQ, hR⟩ := expandsSoundly hC _ hr (Canon.start (isAbs p)) SeenSound.empty
      fun _ hc ↦ sep_not_mem_of_mem_pieces hc
    exact ⟨Q, hQ.spells hC, hQ.valid hC, hR⟩

/-- What a call reaches with every link followed is where following links leads. -/
theorem stat_resolves {p : String} {L : Loc} {x : Node}
    (h : v.stat (textOf true C) p = .ok (L, x)) :
    p.isEmpty = false ∧ Resolves v (if isAbs p then [] else C) (pieces p) L := by
  obtain ⟨-, hloc, hx⟩ := statWith_eq_ok h
  obtain ⟨hne, F, hw⟩ := Volume.walk_of_locate_from hloc
  rw [locOf_textOf hC] at hw
  exact ⟨hne, walk_resolves hw (by simp [hx])⟩

/-- When a path that is not written Windows style resolves canonically, the canonical path spells
the location that a call reaches with every link followed. The depth guard then counts the depth
of that location, and lets an operation go on exactly when the depth reaches the minimum. -/
theorem countSegments_resolved_eq_depth {p c : String} {L : Loc} {x : Node}
    (hw : isWindowsStyle p = false) (hr : v.realPath (textOf true C) p true = .ok c)
    (hs : v.stat (textOf true C) p = .ok (L, x)) :
    c = textOf true L ∧ countSegments v (textOf true C) p = .ok L.length ∧
      ∀ minDepth : Int, ensureSafe v (textOf true C) p minDepth = .ok () ↔ minDepth ≤ L.length := by
  obtain ⟨Q, rfl, hQ, hRQ⟩ := realPath_resolves hC hr
  obtain ⟨hne, hRL⟩ := stat_resolves hC hs
  -- following links is deterministic: the two procedures reach one location
  obtain rfl := hRQ.det hRL
  have hcount : countSegments v (textOf true C) p = .ok Q.length := by
    simp only [countSegments, hne, hw, hr, segments_textOf hQ, Bool.false_eq_true, if_false]
  refine ⟨rfl, hcount, fun minDepth ↦ ?_⟩
  simp only [ensureSafe, hcount]
  split <;> simp_all

end Guard

/-- A volume where `/a/l` links to `/b/c`. -/
def upThroughLink : Volume := ⟨[("a", .dir [("l", .link "/b/c")]), ("b", .dir [("c", .dir [])])], 0⟩

/-- Up through a link: `/a/l/..` is written two names deep, but `l` leads to `/b/c`, so the path
names `/b` and the guard counts one segment. -/
theorem countSegments_up_through_link :
    isWindowsStyle "/a/l/.." = false ∧
      upThroughLink.realPath (textOf true []) "/a/l/.." true = .ok "/b" ∧
      upThroughLink.stat (textOf true []) "/a/l/.." = .ok (["b"], .dir [("c", .dir [])]) ∧
      ("/b" = textOf true ["b"] ∧ countSegments upThroughLink (textOf true []) "/a/l/.." =
          .ok ["b"].length ∧
        ∀ minDepth : Int, ensureSafe upThroughLink (textOf true []) "/a/l/.." minDepth = .ok () ↔
          minDepth ≤ ["b"].length) :=
  ⟨by decide, rfl, rfl, countSegments_resolved_eq_depth (by simp) (by decide) rfl rfl⟩

section LongCanonicalPath

/-- A name of 250 characters. -/
def longName : String := String.ofList (List.replicate 250 'x')

/-- Directories named `longName`, `n` below the first, and at the bottom the link `B` to `/r`. -/
def longChain : Nat → Node
  | 0 => .dir [("B", .link "/r")]
  | n + 1 => .dir [(longName, longChain n)]

/-- The root holds the link `L` to sixteen names down the chain, the empty directory `r`, and the
chain, seventeen names deep. -/
def longVolume : Volume :=
  ⟨[("L", .link (textOf true (List.replicate 16 longName))), ("r", .dir []),
    (longName, longChain 16)], 0⟩

theorem longName_toList : longName.toList = List.replicate 250 'x' := String.toList_ofList

theorem length_longName : longName.length = 250 := by
  rw [← String.length_toList, longName_toList]
  exact List.length_replicate

theorem longName_valid : ValidName longName := by
  have hl := longName_toList
  have hlen := length_longName
  refine ⟨fun h ↦ ?_, fun h ↦ ?_, fun h ↦ ?_, fun h ↦ ?_, fun h ↦ ?_⟩
  · rw [h] at hlen
    exact absurd hlen (by decide)
  · rw [h] at hlen
    exact absurd hlen (by decide)
  · rw [h] at hlen
    exact absurd hlen (by decide)
  · rw [hl] at h
    exact absurd (List.eq_of_mem_replicate h) (by decide)
  · rw [hl] at h
    exact absurd (List.eq_of_mem_replicate h) (by decide)

theorem byteLength_longName : byteLength longName = 250 := by
  have hx : (if (Text.byteHeld? 'x').isSome then 1 else (Text.encodeChar 'x').length) = 1 := by
    decide
  -- one byte for each character of the run
  have hrun : ∀ n, ((List.replicate n 'x').map fun c ↦
      if (Text.byteHeld? c).isSome then 1 else (Text.encodeChar c).length).sum = n := by
    intro n
    induction n with
    | zero => rfl
    | succ n ih => rw [List.replicate_succ, List.map_cons, List.sum_cons, hx, ih, Nat.add_comm]
  rw [byteLength_eq_sum, longName_toList]
  exact hrun 250

/-- Sixteen names down the chain the text has 4016 bytes, seventeen names down 4267. -/
theorem byteLength_longNames (i : Nat) :
    byteLength (textOf true (List.replicate (i + 1) longName)) = 251 * (i + 1) := by
  have hsep : byteLength "/" = 1 := rfl
  induction i with
  | zero =>
    have htext : textOf true (List.replicate (0 + 1) longName) = "/" ++ longName := by
      simp [textOf]
    rw [htext, byteLength_append, hsep, byteLength_longName]
  | succ i ih =>
    rw [List.replicate_succ', textOf_snoc (by simp), byteLength_append, byteLength_append, ih,
      byteLength_longName, hsep]
    omega

/-- The chain's first directory stands at the root. -/
theorem longVolume_top : longVolume.node? [longName] = some (longChain 16) := by
  have hne : ∀ s : String, s.length = 1 → (s == longName) = false := by
    intro s hs
    rw [beq_eq_false_iff_ne]
    intro h
    have hlen := length_longName
    rw [← h, hs] at hlen
    exact absurd hlen (by decide)
  have hL := hne "L" rfl
  have hr := hne "r" rfl
  simp only [longVolume, Volume.node?, lookupIn, findEntry, List.find?_cons, hL, hr,
    beq_self_eq_true, Option.map_some]

/-- Down the chain, the `i + 1`-th name is a directory with `16 - i` more below it. -/
theorem longVolume_chain : ∀ i ≤ 16,
    longVolume.node? (List.replicate (i + 1) longName) = some (longChain (16 - i))
  | 0, _ => longVolume_top
  | i + 1, hi => by
    have h := longVolume_chain i (by omega)
    obtain ⟨j, hj⟩ : ∃ j, 16 - i = j + 1 := ⟨15 - i, by omega⟩
    rw [hj] at h
    rw [List.replicate_succ', Volume.node?_append h, show 16 - (i + 1) = j by omega]
    simp [findEntry]

/-- An empty component or `.` is skipped. -/
theorem walk_skip_eq {v : Volume} {fl : Bool} {F links : Nat} {cur : Loc} {c : String}
    {rest : List String} (hc : c = "" ∨ c = ".") :
    walk v fl (F + 1) links cur (c :: rest) = walk v fl F links cur rest := by
  rw [walk, if_pos (by rcases hc with rfl | rfl <;> rfl)]

/-- A link that is followed is replaced by its target, read from the root or from the link's
directory. -/
theorem walk_link_eq {v : Volume} {fl : Bool} {F links : Nat} {cur : Loc} {n t : String}
    {rest : List String} (hv : ValidName n) (hn : v.node? (cur ++ [n]) = some (.link t))
    (hfl : rest ≠ [] ∨ fl = true) (hl : links < linkLimit) :
    walk v fl (F + 1) links cur (n :: rest) =
      walk v fl F (links + 1) (if isAbs t then [] else cur) (pieces t ++ rest) := by
  obtain ⟨hne, hdot, hdots, -, -⟩ := hv
  rw [walk, if_neg (by simp [hne, hdot]), if_neg (by simpa using hdots)]
  have hfollow : (rest.isEmpty && !fl) = false := by
    rcases hfl with h | rfl
    · simp [List.isEmpty_iff, h]
    · simp
  simp only [hn, hfollow, Bool.false_eq_true, if_false, if_neg (Nat.not_le.mpr hl)]

/-- The path `/L/<longName>/B`. -/
def longPath : String := textOf true ["L", longName, "B"]

theorem longPath_parts_valid : ∀ c ∈ ["L", longName, "B"], ValidName c := by
  intro c hc
  simp only [List.mem_cons, List.not_mem_nil, or_false] at hc
  rcases hc with rfl | rfl | rfl
  · decide
  · exact longName_valid
  · decide

theorem longNames_valid (k : Nat) : ∀ c ∈ List.replicate k longName, ValidName c := by
  intro c hc
  rw [List.eq_of_mem_replicate hc]
  exact longName_valid

theorem longPath_eq : longPath = "/L" ++ "/" ++ longName ++ "/" ++ "B" := by
  have hL : textOf true ["L"] = "/L" := rfl
  rw [longPath, show ["L", longName, "B"] = ["L"] ++ [longName] ++ ["B"] from rfl,
    textOf_snoc (by simp), textOf_snoc (by simp), hL]

theorem byteLength_longPath : byteLength longPath = 255 := by
  rw [longPath_eq]
  simp only [byteLength_append, byteLength_longName]
  rfl

theorem longPath_parts_proper : ∀ c ∈ ["L", longName, "B"], Proper c :=
  fun c hc ↦ ValidName.proper (longPath_parts_valid c hc)

theorem pieces_longPath : pieces longPath = ["", "L", longName, "B"] := by
  rw [longPath, pieces_textOf longPath_parts_proper (by simp)]
  rfl

theorem isAbs_longPath : isAbs longPath = true := isAbs_textOf longPath_parts_proper

theorem longVolume_link :
    longVolume.node? ["L"] = some (.link (textOf true (List.replicate 16 longName))) := rfl

theorem longVolume_r : longVolume.node? ["r"] = some (.dir []) := rfl

theorem longVolume_B :
    longVolume.node? (List.replicate 17 longName ++ ["B"]) = some (.link "/r") := by
  rw [Volume.node?_append (E := [("B", .link "/r")]) (longVolume_chain 16 (by omega))]
  rfl

theorem walk_nil_eq {v : Volume} {fl : Bool} {F links : Nat} {cur : Loc} :
    walk v fl F links cur [] = .ok cur := by
  cases F <;> rfl

theorem longVolume_walk_longPath (F : Nat) :
    walk longVolume true (F + 40) 0 [] ["", "L", longName, "B"] = .ok ["r"] := by
  have h16 : ∀ c ∈ List.replicate 16 longName, Proper c :=
    fun c hc ↦ ValidName.proper (longNames_valid 16 c hc)
  have hLv : ValidName "L" := by decide
  have hBv : ValidName "B" := by decide
  have hLnode : longVolume.node? ([] ++ ["L"]) =
      some (.link (textOf true (List.replicate 16 longName))) := longVolume_link
  have hE17 : longVolume.node? ([] ++ List.replicate 17 longName) =
      some (.dir [("B", .link "/r")]) := longVolume_chain 16 (by omega)
  have hBnode : longVolume.node? ([] ++ List.replicate 17 longName ++ ["B"]) =
      some (.link "/r") := by
    rw [List.nil_append]
    exact longVolume_B
  have hsplit : List.replicate 16 longName ++ [longName, "B"] =
      List.replicate 17 longName ++ ["B"] := by
    rw [show 17 = 16 + 1 from rfl, List.replicate_succ', List.append_assoc]
    rfl
  have hfuel : F + 37 - (List.replicate 17 longName).length = F + 19 + 1 := by
    rw [List.length_replicate]
    omega
  have hr : pieces "/r" = ["", "r"] := rfl
  -- the leading separator, then `L` is replaced by its target, read from the root
  rw [walk_skip_eq (Or.inl rfl), walk_link_eq hLv hLnode (Or.inl (by simp)) (by decide), ite_self,
    pieces_textOf h16 (by simp), if_pos rfl, List.singleton_append, List.cons_append,
    walk_skip_eq (Or.inl rfl)]
  -- seventeen directories down the chain, then `B` is replaced by `/r`
  rw [hsplit, walk_through_dirs true 1 ["B"] (longNames_valid 17) hE17
      (by rw [List.length_replicate]; omega), hfuel,
    walk_link_eq hBv hBnode (Or.inr rfl) (by decide), if_pos (by decide), hr, List.append_nil,
    walk_skip_eq (Or.inl rfl), walk, if_neg (by decide), if_neg (by decide)]
  simp only [List.nil_append, longVolume_r, walk_nil_eq]

theorem longVolume_stat_longPath :
    longVolume.stat (textOf true []) longPath = .ok (["r"], .dir []) := by
  have hnul : Char.ofNat 0 ∉ longPath.toList :=
    nul_not_mem_textOf fun c hc ↦ ⟨longPath_parts_proper c hc, (longPath_parts_valid c hc).2.2.2.2⟩
  have hne : longPath.isEmpty = false := by
    rw [longPath]
    exact isEmpty_of_mem_toList (c := '/') (by simp [textOf])
  have hfit : ¬ pathMax ≤ byteLength longPath := by
    rw [byteLength_longPath]
    decide
  obtain ⟨F, hF⟩ : ∃ F, 4096 + 8 * longPath.length = F + 40 :=
    ⟨4056 + 8 * longPath.length, by omega⟩
  have hloc : longVolume.locate (textOf true []) longPath true = .ok ["r"] := by
    rw [Volume.locate, hne, if_neg Bool.false_ne_true, if_neg hfit, pieces_longPath, hF,
      isAbs_longPath, if_pos rfl, longVolume_walk_longPath F]
  rw [Volume.stat, Volume.statWith, if_neg (by rw [List.contains_iff_mem]; exact hnul), hloc]
  simp only [longVolume_r]

/-- An empty component or `.` leaves the canonical text as it is. -/
theorem realPathFrom_skip_eq {v : Volume} {cwd : String} {strict : Bool} {F : Nat} {seen : Seen}
    {path c : String} {rest : List String} (hc : c = "" ∨ c = ".") :
    realPathFrom v cwd strict (F + 1) seen path (c :: rest) =
      realPathFrom v cwd strict F seen path rest := by
  rw [realPathFrom, if_pos (by rcases hc with rfl | rfl <;> rfl)]

/-- A link met for the first time is expanded from the root or from its directory, and the text
goes on from its expansion once that finishes. -/
theorem realPathFrom_link_eq {v : Volume} {cwd : String} {strict : Bool} {F : Nat} {seen seen' : Seen}
    {path n t p : String} {rest : List String} {L : Loc} (hv : ValidName n)
    (hl : v.lstat cwd (join path n) = .ok (L, .link t)) (hseen : seen.lookup (join path n) = none)
    (hin : realPathFrom v cwd strict F (seen.set (join path n) none)
      (if isAbs t then "/" else path) (pieces t) = .ok (p, true, seen')) :
    realPathFrom v cwd strict (F + 1) seen path (n :: rest) =
      realPathFrom v cwd strict F (seen'.set (join path n) (some p)) p rest := by
  obtain ⟨hne, hdot, hdots, -, -⟩ := hv
  have hpair : (if isAbs t then ("/", pieces t) else (path, pieces t)) =
      ((if isAbs t then "/" else path), pieces t) := by
    split <;> rfl
  rw [realPathFrom, if_neg (by simp [hne, hdot]), if_neg (by simpa using hdots)]
  simp only [hl, hseen, hpair, hin]

/-- In strict mode a name that no call can reach ends the canonical path with that call's error. -/
theorem realPathFrom_strict_error_eq {v : Volume} {cwd : String} {F : Nat} {seen : Seen}
    {path n : String} {rest : List String} {e : OsError} (hv : ValidName n)
    (he : v.lstat cwd (join path n) = .error (.os e)) :
    realPathFrom v cwd true (F + 1) seen path (n :: rest) = .error (.os e) := by
  obtain ⟨hne, hdot, hdots, -, -⟩ := hv
  rw [realPathFrom, if_neg (by simp [hne, hdot]), if_neg (by simpa using hdots)]
  simp only [he, if_true]

/-- The canonical path fails with the error of its run over the pieces of the path. -/
theorem realPath_eq_error {v : Volume} {cwd path : String} {strict : Bool} {e : CallError}
    (h : realPathFrom v cwd strict (4096 + 8 * path.length) [] (if isAbs path then "/" else "")
      (pieces path) = .error e) :
    v.realPath cwd path strict = .error e := by
  have hpair : (if isAbs path then ("/", pieces path) else ("", pieces path)) =
      ((if isAbs path then "/" else ""), pieces path) := by
    split <;> rfl
  simp only [Volume.realPath, hpair, h]

theorem longVolume_realPath_longPath :
    longVolume.realPath (textOf true []) longPath true =
      .error (.os (OsError.ofErrno ENAMETOOLONG (textOf true (List.replicate 17 longName)))) := by
  have h16 : ∀ c ∈ List.replicate 16 longName, Proper c :=
    fun c hc ↦ ValidName.proper (longNames_valid 16 c hc)
  obtain ⟨F, hF⟩ : ∃ F, 4096 + 8 * longPath.length = F + 40 :=
    ⟨4056 + 8 * longPath.length, by omega⟩
  have hLl : longVolume.lstat (textOf true []) (join "/" "L") =
      .ok (["L"], .link (textOf true (List.replicate 16 longName))) := rfl
  -- the target of `L`: sixteen directories, 4016 bytes
  have hinner : ∀ seen : Seen,
      realPathFrom longVolume (textOf true []) true (F + 38) seen "/"
        (pieces (textOf true (List.replicate 16 longName))) =
        .ok (textOf true (List.replicate 16 longName), true, seen) := by
    intro seen
    have h : realPathFrom longVolume (textOf true []) true (F + 37) seen (textOf true [])
        (List.replicate 16 longName ++ []) =
        realPathFrom longVolume (textOf true []) true (F + 37 - (List.replicate 16 longName).length)
          seen (textOf true ([] ++ List.replicate 16 longName)) [] :=
      realPathFrom_through_dirs (E := [(longName, longChain 0)]) (longNames_valid 16)
        (longVolume_chain 15 (by omega))
        (by rw [List.nil_append, byteLength_longNames 15]; decide)
        (by rw [List.length_replicate]; omega)
    rw [List.append_nil, List.nil_append] at h
    rw [pieces_textOf h16 (by simp), if_pos rfl, List.singleton_append,
      realPathFrom_skip_eq (Or.inl rfl), ← textOf_root_nil, h]
    cases F + 37 - (List.replicate 16 longName).length <;> rfl
  -- the seventeenth name makes a text of 4267 bytes, too long for any call
  have hlong : longVolume.lstat (textOf true [])
      (join (textOf true (List.replicate 16 longName)) longName) =
      .error (.os (OsError.ofErrno ENAMETOOLONG (textOf true (List.replicate 17 longName)))) := by
    have h17 : ∀ c ∈ List.replicate 17 longName, Proper c ∧ Char.ofNat 0 ∉ c.toList :=
      fun c hc ↦ ⟨ValidName.proper (longNames_valid 17 c hc), (longNames_valid 17 c hc).2.2.2.2⟩
    rw [join_textOf h16 (ValidName.proper longName_valid), ← List.replicate_succ']
    exact statWith_of_too_long _ false (nul_not_mem_textOf h17)
      (by rw [byteLength_longNames 16]; decide)
  have hrun : realPathFrom longVolume (textOf true []) true (F + 40) [] "/"
      ["", "L", longName, "B"] =
      .error (.os (OsError.ofErrno ENAMETOOLONG (textOf true (List.replicate 17 longName)))) := by
    have hLv : ValidName "L" := by decide
    have hseen : ([] : Seen).lookup (join "/" "L") = none := rfl
    have hexp : realPathFrom longVolume (textOf true []) true (F + 38)
        (Seen.set [] (join "/" "L") none)
        (if isAbs (textOf true (List.replicate 16 longName)) then "/" else "/")
        (pieces (textOf true (List.replicate 16 longName))) =
        .ok (textOf true (List.replicate 16 longName), true, Seen.set [] (join "/" "L") none) := by
      rw [ite_self]
      exact hinner _
    rewrite [realPathFrom_skip_eq (Or.inl rfl), realPathFrom_link_eq hLv hLl hseen hexp]
    exact realPathFrom_strict_error_eq longName_valid hlong
  have hcall : realPathFrom longVolume (textOf true []) true (4096 + 8 * longPath.length) []
      (if isAbs longPath then "/" else "") (pieces longPath) =
      .error (.os (OsError.ofErrno ENAMETOOLONG (textOf true (List.replicate 17 longName)))) := by
    rewrite [isAbs_longPath, if_pos rfl, pieces_longPath, hF]
    exact hrun
  exact realPath_eq_error hcall

/-- The path `/L/<longName>/B` names `/r`, one segment deep. Its canonical path follows `L` to
sixteen names down the chain, 4016 bytes, and the seventeenth name makes a text of 4267 bytes
that no call takes. The guard then counts the three segments of the path as written and lets a
minimum depth of three pass. -/
theorem ensureSafe_passes_shallow_target_past_pathMax :
    longVolume.stat (textOf true []) longPath = .ok (["r"], .dir []) ∧
      ensureSafe longVolume (textOf true []) longPath 3 = .ok () := by
  have hv := longPath_parts_valid
  have hne : longPath.isEmpty = false := by
    rw [longPath]
    exact isEmpty_of_mem_toList (c := '/') (by simp [textOf])
  have hwin : isWindowsStyle longPath = false := by
    obtain ⟨rest, hl⟩ : ∃ rest, longPath.toList = '/' :: 'L' :: rest :=
      ⟨_, by rw [longPath_eq]; simp only [String.toList_append, List.append_assoc]; rfl⟩
    rewrite [isWindowsStyle, hl]
    rfl
  have hseg : (parsePosix longPath).segments = 3 := by
    rw [longPath, segments_textOf hv]
    rfl
  have hcount : countSegments longVolume (textOf true []) longPath = .ok 3 := by
    unfold countSegments
    rewrite [hne, if_neg Bool.false_ne_true, hwin, if_neg Bool.false_ne_true,
      longVolume_realPath_longPath]
    exact congrArg Except.ok hseg
  refine ⟨longVolume_stat_longPath, ?_⟩
  rewrite [ensureSafe, hcount]
  rfl

end LongCanonicalPath

end TorrentPrune
