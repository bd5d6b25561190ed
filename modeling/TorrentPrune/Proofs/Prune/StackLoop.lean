import Mathlib.Data.List.Sort
import Mathlib.Data.String.Basic
import TorrentPrune.Prune.Stack
import TorrentPrune.Proofs.Prune.Keeping

/-!
# The loop over a stack of frames is the recursive pass

Run long enough, the loop of `Prune.Stack` empties its stack, and what it has done then is what
the recursive pass does (`walk_root_eventually`): the same calls in the same order, the same
deleted files and directories, the same failures, the same tree left, whatever the tree, the
refused calls and the order in which listings yield their entries.

The loop goes in step with the recursion. A fresh frame on top of the stack is a call of the
recursive visit: its scan is the visit's listing; the frames it pushes, one per subdirectory in
name order, are the visits of the subdirectories, each of which leaves the stack as it found it
(`walk_visit`); popping the frame is the rest of the visit. The loop sorts what a listing yields,
and a listing of a tidy tree is already in name order, so every order gives the same frames.

Where the recursion counts the subdirectories its visits left, the loop asks which of their paths
it has removed. The two agree because every path the loop removes while it visits a directory has
the directory's names below the root in front of its own (`Pass.Below`), and sibling directories
have different names.
-/

namespace TorrentPrune.Prune

open TorrentPrune.Fs TorrentPrune.Path

section Turns

variable {p : Pass} {order : ListingOrder}

/-- The loop goes from `w` to `w'` in some number of turns. -/
def Pass.Leads (p : Pass) (order : ListingOrder) (w w' : Walk) : Prop :=
  ∃ k, p.walk order k w = w'

theorem Pass.walk_add (a b : Nat) (w : Walk) :
    p.walk order (a + b) w = p.walk order b (p.walk order a w) := by
  induction a generalizing w with
  | zero => simp [Pass.walk]
  | succ a ih =>
    rw [Nat.add_right_comm]
    exact ih (p.step order w)

theorem Pass.Leads.refl (w : Walk) : p.Leads order w w := ⟨0, rfl⟩

theorem Pass.Leads.trans {w₁ w₂ w₃ : Walk} (h₁ : p.Leads order w₁ w₂) (h₂ : p.Leads order w₂ w₃) :
    p.Leads order w₁ w₃ := by
  obtain ⟨a, ha⟩ := h₁
  obtain ⟨b, hb⟩ := h₂
  exact ⟨a + b, by rw [Pass.walk_add, ha, hb]⟩

theorem Pass.Leads.step {w w' : Walk} (h : p.step order w = w') : p.Leads order w w' :=
  ⟨1, h⟩

/-- A walk with an empty stack takes no further step. -/
theorem Pass.walk_of_stack_nil {w : Walk} (h : w.stack = []) (n : Nat) : p.walk order n w = w := by
  induction n with
  | zero => rfl
  | succ n ih =>
    have hs : p.step order w = w := by
      unfold Pass.step
      rw [h]
    rw [Pass.walk, hs, ih]

end Turns

section Order

/-- Sorting a list of paths that is some order of a list strictly ascending gives that list. -/
theorem sortPaths_of_perm {l l' : List String} (hp : l.Perm l') (hs : l'.Pairwise (· < ·)) :
    sortPaths l = l' := by
  have hsorted : (sortPaths l).Pairwise (· ≤ ·) := List.pairwise_mergeSort' _ l
  refine List.Perm.eq_of_pairwise (fun a b _ _ hab hba ↦ le_antisymm hab hba) hsorted
    (hs.imp le_of_lt) ((List.mergeSort_perm l _).trans hp)

/-- Joining keeps the order of names. -/
theorem join_lt_join (Q : String) {a b : String} (ha : isAbs a = false) (hb : isAbs b = false)
    (h : a < b) : join Q a < join Q b := by
  unfold join
  simp only [ha, hb, Bool.false_eq_true, if_false]
  split
  · exact String.lt_iff_toList_lt.mpr (by
      simpa only [String.toList_append] using List.append_left_lt (String.lt_iff_toList_lt.mp h))
  · exact String.lt_iff_toList_lt.mpr (by
      simpa only [String.toList_append] using List.append_left_lt (String.lt_iff_toList_lt.mp h))

/-- The paths of some of a tidy directory's entries, in any order, sorted: the paths in the
directory's own order. -/
theorem sortPaths_join (order : ListingOrder) (Q : String) {E : List (String × Node)}
    (hE : EntriesTidy E) (keep : String × Node → Bool) :
    sortPaths (((order.arrange Q E).filter keep).map fun e ↦ join Q e.1) =
      (E.filter keep).map fun e ↦ join Q e.1 := by
  apply sortPaths_of_perm (((order.perm Q E).filter keep).map _)
  have hsorted : (E.filter keep).Pairwise fun e e' ↦ e.1 < e'.1 :=
    List.Pairwise.sublist List.filter_sublist (List.pairwise_map.mp hE.sorted)
  refine List.pairwise_map.mpr (hsorted.imp_of_mem fun {e e'} he he' hlt ↦ ?_)
  have hn := (hE.of_mem (List.mem_filter.mp he).1).1
  have hn' := (hE.of_mem (List.mem_filter.mp he').1).1
  exact join_lt_join Q hn.isAbs_eq_false hn'.isAbs_eq_false hlt

end Order

section Inside

variable {p : Pass} {v : Volume} {t : Trace}

/-- The volume of `t` is tidy and lies within `v`. -/
def Trace.Inside (v : Volume) (t : Trace) : Prop := t.volume.Tidy ∧ t.volume.Within v

theorem Trace.Inside.erase (h : t.Inside v) {t' : Trace} {L : Loc}
    (he : t.volume.erase L = some t'.volume) : t'.Inside v :=
  ⟨h.1.erase he, (Volume.Within.erase he).trans h.2⟩

theorem Trace.Inside.same (h : t.Inside v) {t' : Trace} (hv : t'.volume = t.volume) :
    t'.Inside v := by
  unfold Trace.Inside
  rw [hv]
  exact h

/-- Handling a file keeps the volume tidy and within `v`: at most it unlinks the file. -/
theorem handleFile_inside (h : t.Inside v) (path : String) : (p.handleFile t path).1.Inside v := by
  rcases handleFile_volume p t path with hsame | ⟨-, hu⟩
  · exact h.same hsame
  · obtain ⟨L, y, -, -, -, he⟩ := Volume.unlink_eq_ok hu
    exact h.erase he

/-- Removing a directory keeps the volume tidy and within `v`. -/
theorem removeDir_inside (h : t.Inside v) (path : String) : (p.removeDir t path).1.Inside v := by
  rcases removeDir_volume p t path with hsame | hr
  · exact h.same hsame
  · obtain ⟨L, -, -, he⟩ := Volume.rmdir_eq_ok hr
    exact h.erase he

theorem handleFiles_inside (Q : String) (es : List (String × Node)) (h : t.Inside v) :
    (p.handleFiles Q es t).1.Inside v :=
  handleFiles_invariant (Trace.Inside v) (fun _ path h ↦ handleFile_inside h path) Q es t h

/-- A pass, at any depth, keeps the volume tidy and within `v`: it only erases. -/
theorem visit_inside (depth : Nat) (top : Bool) (Q : String) (h : t.Inside v) :
    (p.visit depth top Q t).1.Inside v :=
  Pass.visit_invariant (Trace.Inside v) (fun _ _ _ h ↦ h.same rfl) (fun _ _ h ↦ h.same rfl)
    (fun _ _ _ _ h ↦ h.same rfl) (fun _ path h ↦ handleFile_inside h path)
    (fun _ path h ↦ removeDir_inside h path) depth top Q t h

end Inside

section Below

variable {p : Pass} {v : Volume} {base : Loc} {Q X : String} {ds : List String}

/-- The path `X` lies, below the root, under the names `ds`: its components are the root's, then
`ds`, then any more. -/
def Pass.Below (p : Pass) (ds : List String) (X : String) : Prop :=
  ∃ es, components (absolute "/" X) = components (absolute "/" p.root) ++ ds ++ es

theorem Pass.PathAt.below (hQ : p.PathAt v base Q ds) : p.Below ds Q :=
  ⟨[], by rw [hQ.parts, List.append_nil]⟩

/-- The path of an entry of the directory at `Q` lies under the entry's name. -/
theorem Pass.PathAt.below_join (hQ : p.PathAt v base Q ds) {n : String} (hn : ValidName n) :
    p.Below (ds ++ [n]) (join Q n) :=
  ⟨[], by rw [components_absolute_join hQ.abs hn, hQ.parts, List.append_nil, List.append_assoc]⟩

theorem Pass.Below.of_append {es : List String} (h : p.Below (ds ++ es) X) : p.Below ds X := by
  obtain ⟨fs, hfs⟩ := h
  exact ⟨es ++ fs, by simp only [hfs, List.append_assoc]⟩

/-- Nothing lies under two names of one directory. -/
theorem Pass.Below.name_eq {n m : String} (h : p.Below (ds ++ [n]) X) (h' : p.Below (ds ++ [m]) X) :
    n = m := by
  obtain ⟨es, hes⟩ := h
  obtain ⟨fs, hfs⟩ := h'
  rw [hes] at hfs
  simp only [List.append_assoc, List.append_cancel_left_eq, List.cons_append, List.nil_append,
    List.cons.injEq] at hfs
  exact hfs.1

/-- A directory does not lie under the name of one of its entries. -/
theorem Pass.PathAt.not_below_child (hQ : p.PathAt v base Q ds) (n : String) :
    ¬ p.Below (ds ++ [n]) Q := by
  rintro ⟨es, hes⟩
  have hlen := congrArg List.length hes
  rw [hQ.parts] at hlen
  simp only [List.length_append, List.length_singleton] at hlen
  omega

/-- Below the root, a path is not the root's. -/
theorem Pass.PathAt.ne_root (hQ : p.PathAt v base Q ds) (hne : ds ≠ []) : Q ≠ p.root := by
  rintro rfl
  have hlen := congrArg List.length hQ.parts
  simp only [List.length_append] at hlen
  exact hne (List.length_eq_zero_iff.mp (by omega))

end Below

section Turns

variable {p : Pass} {order : ListingOrder} {Q : String} {t : Trace}

/-- Handling files by their paths is handling the entries the paths join. -/
theorem Pass.handlePaths_join (p : Pass) (Q : String) :
    ∀ (es : List (String × Node)) (t : Trace),
      p.handlePaths (es.map fun e ↦ join Q e.1) t = p.handleFiles Q es t
  | [], _ => rfl
  | (n, x) :: es, t => by
    simp only [List.map_cons, Pass.handlePaths, Pass.handleFiles, Pass.handlePaths_join p Q es]

/-- Counting the paths not among `removed`: a path ahead of the rest counts exactly when it is not
removed, that is, when `gone` is false. -/
theorem countP_not_removed_cons {d : String} (ds : List String) {removed : List String}
    {gone : Bool} (hmem : d ∈ removed ↔ gone = true) :
    (d :: ds).countP (fun d ↦ !removed.contains d) =
      ds.countP (fun d ↦ !removed.contains d) + if gone then 0 else 1 := by
  rw [List.countP_cons]
  congr 1
  by_cases hg : gone = true
  · simp [hg, hmem.mpr hg]
  · have hX : d ∉ removed := fun hX ↦ hg (hmem.mp hX)
    simp [hg, hX]

/-- A popped frame is finalized. -/
theorem Pass.step_scanned (order : ListingOrder) {f : Frame} (rest : List Frame) (t : Trace)
    (removed : List String) (hs : f.scanned = true) :
    p.step order ⟨f :: rest, t, removed⟩ =
      ⟨rest, (p.finalize f t removed).1, (p.finalize f t removed).2⟩ := by
  simp [Pass.step, hs]

/-- A fresh frame whose directory is listed is scanned: the frames of its subdirectories go above
it, in the directory's order. -/
theorem Pass.step_listed (order : ListingOrder) (rest : List Frame) (removed : List String)
    {E : List (String × Node)}
    (hl : p.list t Q = .ok E) (hE : EntriesTidy E) :
    p.step order ⟨{ path := Q } :: rest, t, removed⟩ =
      ⟨((E.filter fun e ↦ e.2.isDir).map fun e ↦ ({ path := join Q e.1 } : Frame)) ++
        { path := Q, scanned := true, listed := true
          subdirs := (E.filter fun e ↦ e.2.isDir).map fun e ↦ join Q e.1
          files := (E.filter fun e ↦ !e.2.isDir).map fun e ↦ join Q e.1 } :: rest,
        t.made ⟨.list, Q, none⟩, removed⟩ := by
  simp only [Pass.step, Bool.not_false, if_true, Pass.scan, hl, sortPaths_join order Q hE,
    List.map_map]
  rfl

/-- A fresh frame whose directory cannot be listed takes two turns, and they do what the visit
does: record the failure, and keep the directory. -/
theorem walk_unlisted (order : ListingOrder) (depth : Nat) {top : Bool} (htop : (Q == p.root) = top)
    (rest : List Frame) (removed : List String) {e : Nat × String} (hl : p.list t Q = .error e) :
    p.Leads order ⟨{ path := Q } :: rest, t, removed⟩
        ⟨rest, (p.visit (depth + 1) top Q t).1, removed⟩ ∧
      (p.visit (depth + 1) top Q t).1.volume = t.volume ∧ (p.visit (depth + 1) top Q t).2 = false := by
  obtain ⟨n, msg⟩ := e
  refine ⟨⟨2, ?_⟩, ?_, ?_⟩ <;> cases top <;>
    simp [Pass.walk, Pass.step, Pass.scan, Pass.finalize, Pass.visit, Pass.handlePaths, hl, htop]

end Turns

section Visit

variable {p : Pass} {order : ListingOrder} {v : Volume} {base : Loc}

/-- The loop does the visit of `Q`, the directory the names `ds` lead to below the root: from a
walk with the fresh frame of `Q` on top of `rest`, over a volume tidy and within `v` and with no
path under `ds` removed yet, it reaches `rest` with the trace of the visit at `depth`. The paths
it removed on the way lie under `ds`, and `Q` is among them exactly when the visit removed it. -/
def Pass.Simulates (p : Pass) (order : ListingOrder) (v : Volume) (depth : Nat) (Q : String)
    (ds : List String) : Prop :=
  ∀ t removed rest, t.Inside v → (∀ X ∈ removed, ¬ p.Below ds X) →
    ∃ Δ, p.Leads order ⟨{ path := Q } :: rest, t, removed⟩
        ⟨rest, (p.visit depth false Q t).1, Δ ++ removed⟩ ∧
      (p.visit depth false Q t).1.Inside v ∧ (∀ X ∈ Δ, p.Below ds X) ∧
      (Q ∈ Δ ↔ (p.visit depth false Q t).2 = true)

/-- The frames of the subdirectories among `es`, on top of a frame `F`, do what the visits of the
subdirectories do, one after another, when each frame does its visit: the loop comes back to `F`
with the trace of the visits, and the paths of the subdirectories it has not removed are as many
as the subdirectories the visits left. -/
theorem walk_visitDirs {depth : Nat} {Q : String} {ds : List String}
    (hQ : p.PathAt v base Q ds) (F : Frame) (rest : List Frame) :
    ∀ (es : List (String × Node)), (names es).Nodup → (∀ e ∈ es, ValidName e.1) →
      (∀ e ∈ es, e.2.isDir = true → p.Simulates order v depth (join Q e.1) (ds ++ [e.1])) →
      ∀ t removed, t.Inside v →
        (∀ X ∈ removed, ∀ e ∈ es, e.2.isDir = true → ¬ p.Below (ds ++ [e.1]) X) →
        ∃ Δ, p.Leads order
            ⟨((es.filter fun e ↦ e.2.isDir).map fun e ↦ ({ path := join Q e.1 } : Frame)) ++
              F :: rest, t, removed⟩
            ⟨F :: rest, (visitDirs (fun n t ↦ p.visit depth false (join Q n) t) es t).1,
              Δ ++ removed⟩ ∧
          (visitDirs (fun n t ↦ p.visit depth false (join Q n) t) es t).1.Inside v ∧
          (∀ X ∈ Δ, ∃ e ∈ es, e.2.isDir = true ∧ p.Below (ds ++ [e.1]) X) ∧
          (visitDirs (fun n t ↦ p.visit depth false (join Q n) t) es t).2 =
            ((es.filter fun e ↦ e.2.isDir).map fun e ↦ join Q e.1).countP
              fun d ↦ !(Δ ++ removed).contains d
  | [], _, _, _, t, removed, ht, _ => ⟨[], Pass.Leads.refl _, ht, by simp, rfl⟩
  | (n, x) :: es, hnd, hvalid, hsim, t, removed, ht, hfresh => by
    have hn : n ∉ names es := (List.nodup_cons.mp hnd).1
    have hnd' : (names es).Nodup := (List.nodup_cons.mp hnd).2
    have hvalid' : ∀ e ∈ es, ValidName e.1 := fun e he ↦ hvalid e (List.mem_cons_of_mem _ he)
    have hsim' := fun e he ↦ hsim e (List.mem_cons_of_mem _ he)
    by_cases hd : x.isDir = true
    case neg =>
      -- not a subdirectory: no frame, no visit
      obtain ⟨Δ, hlead, hin, hbelow, hcount⟩ := walk_visitDirs hQ F rest es hnd' hvalid' hsim' t
        removed ht fun X hX e he ↦ hfresh X hX e (List.mem_cons_of_mem _ he)
      rw [visitDirs_cons_of_not_dir _ hd]
      refine ⟨Δ, ?_, hin, fun X hX ↦ ?_, ?_⟩
      · simpa [hd] using hlead
      · obtain ⟨e, he, hed, hb⟩ := hbelow X hX
        exact ⟨e, List.mem_cons_of_mem _ he, hed, hb⟩
      · simpa [hd] using hcount
    case pos =>
      -- the subdirectory's frame does its visit, then the rest go on from there
      obtain ⟨Δ₁, hlead₁, hin₁, hbelow₁, hgone⟩ := hsim (n, x) List.mem_cons_self hd t removed
        (((es.filter fun e ↦ e.2.isDir).map fun e ↦ ({ path := join Q e.1 } : Frame)) ++ F :: rest)
        ht (fun X hX ↦ hfresh X hX (n, x) List.mem_cons_self hd)
      have hfresh' : ∀ X ∈ Δ₁ ++ removed, ∀ e ∈ es, e.2.isDir = true →
          ¬ p.Below (ds ++ [e.1]) X := by
        intro X hX e he hed hb
        rcases List.mem_append.mp hX with hX | hX
        · have hne : e.1 ≠ n := fun heq ↦ hn (heq ▸ List.mem_map_of_mem he)
          exact hne ((hbelow₁ X hX).name_eq hb).symm
        · exact hfresh X hX e (List.mem_cons_of_mem _ he) hed hb
      obtain ⟨Δ₂, hlead₂, hin₂, hbelow₂, hcount⟩ := walk_visitDirs hQ F rest es hnd' hvalid' hsim'
        (p.visit depth false (join Q n) t).1 (Δ₁ ++ removed) hin₁ hfresh'
      -- the path of this subdirectory is removed only by its own frame
      have hnot₂ : join Q n ∉ Δ₂ := by
        intro hX
        obtain ⟨e, he, -, hb⟩ := hbelow₂ _ hX
        have hne : e.1 ≠ n := fun heq ↦ hn (heq ▸ List.mem_map_of_mem he)
        exact hne ((hQ.below_join (hvalid (n, x) List.mem_cons_self)).name_eq hb).symm
      have hnot : join Q n ∉ removed := fun hX ↦
        hfresh _ hX (n, x) List.mem_cons_self hd (hQ.below_join (hvalid (n, x) List.mem_cons_self))
      rw [visitDirs_cons_dir _ hd]
      refine ⟨Δ₂ ++ Δ₁, ?_, hin₂, fun X hX ↦ ?_, ?_⟩
      · simp only [List.filter_cons, hd, if_true, List.map_cons, List.cons_append,
          List.append_assoc]
        exact hlead₁.trans hlead₂
      · rcases List.mem_append.mp hX with hX | hX
        · obtain ⟨e, he, hed, hb⟩ := hbelow₂ X hX
          exact ⟨e, List.mem_cons_of_mem _ he, hed, hb⟩
        · exact ⟨(n, x), List.mem_cons_self, hd, hbelow₁ X hX⟩
      · have hmem : (join Q n ∈ Δ₂ ++ (Δ₁ ++ removed)) ↔
            (p.visit depth false (join Q n) t).2 = true := by
          simp only [List.mem_append, hnot₂, hnot, false_or, or_false]
          exact hgone
        simp only [List.filter_cons, hd, if_true, List.map_cons, List.append_assoc] at hcount ⊢
        rw [countP_not_removed_cons _ hmem, hcount]

/-- A fresh frame whose directory is listed does the visit of the directory, when the frames of
its subdirectories do theirs: the scan pushes them, they run, and popping the frame handles the
files and, below the root, removes the directory when nothing of it remains. -/
theorem walk_listed {depth : Nat} {top : Bool} {Q : String} {ds : List String}
    (hQ : p.PathAt v base Q ds) (htop : (Q == p.root) = top) {t : Trace}
    {E : List (String × Node)} (hl : p.list t Q = .ok E) (ht : t.Inside v)
    (hsim : ∀ e ∈ E, e.2.isDir = true → p.Simulates order v depth (join Q e.1) (ds ++ [e.1]))
    (removed : List String) (hfresh : ∀ X ∈ removed, ¬ p.Below ds X) (rest : List Frame) :
    ∃ Δ, p.Leads order ⟨{ path := Q } :: rest, t, removed⟩
        ⟨rest, (p.visit (depth + 1) top Q t).1, Δ ++ removed⟩ ∧
      (p.visit (depth + 1) top Q t).1.Inside v ∧ (∀ X ∈ Δ, p.Below ds X) ∧
      (Q ∈ Δ ↔ (p.visit (depth + 1) top Q t).2 = true) := by
  have hE : EntriesTidy E := ht.1.dir (hQ.listing ht.2 (Pass.listDir_of_list hl))
  have hnd : (names E).Nodup := nodup_of_sorted hE.sorted
  have hvalid : ∀ e ∈ E, ValidName e.1 := fun e he ↦ (hE.of_mem he).1
  -- the scan, then the frames of the subdirectories
  have hlead₀ := Pass.Leads.step (Pass.step_listed order rest removed hl hE)
  obtain ⟨Δ₁, hlead₁, hin₁, hbelow₁, hcount⟩ := walk_visitDirs hQ _ rest E hnd hvalid hsim
    (t.made ⟨.list, Q, none⟩) removed (ht.same rfl)
    (fun X hX e _ _ hb ↦ hfresh X hX hb.of_append)
  have hQΔ₁ : Q ∉ Δ₁ := fun hX ↦ by
    obtain ⟨e, -, -, hb⟩ := hbelow₁ Q hX
    exact hQ.not_below_child e.1 hb
  rcases hq : visitDirs (fun n t ↦ p.visit depth false (join Q n) t) E (t.made ⟨.list, Q, none⟩)
    with ⟨t₁, dirsLeft⟩
  rw [hq] at hlead₁ hin₁ hcount
  rcases hr : p.handleFiles Q (E.filter fun e ↦ !e.2.isDir) t₁ with ⟨t₂, filesLeft⟩
  have hin₂ : t₂.Inside v := by
    have h := handleFiles_inside (p := p) Q (E.filter fun e ↦ !e.2.isDir) hin₁
    rw [hr] at h
    exact h
  -- popping the frame: what the visit does past its subdirectories
  have hlead₂ := Pass.Leads.step (Pass.step_scanned (p := p) order
    (f := { path := Q, scanned := true, listed := true
            subdirs := (E.filter fun e ↦ e.2.isDir).map fun e ↦ join Q e.1
            files := (E.filter fun e ↦ !e.2.isDir).map fun e ↦ join Q e.1 })
    rest t₁ (Δ₁ ++ removed) rfl)
  simp only [Pass.finalize, Pass.handlePaths_join, hr, htop, Bool.not_true, Bool.false_or,
    ← hcount] at hlead₂
  have hlead := hlead₀.trans (hlead₁.trans hlead₂)
  simp only [Pass.visit, hl, hq, hr]
  cases top with
  | true =>
    simp only [if_true] at hlead ⊢
    exact ⟨Δ₁, hlead, hin₂, fun X hX ↦ (hbelow₁ X hX).elim fun e he ↦ he.2.2.of_append,
      by simp [hQΔ₁]⟩
  | false =>
    simp only [Bool.false_eq_true, if_false, Nat.add_comm filesLeft] at hlead ⊢
    by_cases h0 : 0 < dirsLeft + filesLeft
    · simp only [h0, if_true] at hlead ⊢
      exact ⟨Δ₁, hlead, hin₂.same rfl, fun X hX ↦ (hbelow₁ X hX).elim fun e he ↦ he.2.2.of_append,
        by simp [hQΔ₁]⟩
    · simp only [h0, if_false] at hlead ⊢
      have hin₃ := removeDir_inside (p := p) hin₂ Q
      rcases hd : p.removeDir t₂ Q with ⟨t₃, gone⟩
      rw [hd] at hlead hin₃
      refine ⟨(if gone then [Q] else []) ++ Δ₁, ?_, hin₃, fun X hX ↦ ?_, ?_⟩
      · cases gone <;> simpa using hlead
      · rcases List.mem_append.mp hX with hX | hX
        · cases gone <;> simp at hX
          rw [hX]
          exact hQ.below
        · exact (hbelow₁ X hX).elim fun e he ↦ he.2.2.of_append
      · cases gone <;> simp [hQΔ₁]

/-- A subdirectory listed at `Q`: its names lead to it below the root, and a bound on the height
of what stands at `Q` in `v` passes to it one lower, and leaves room for it. -/
theorem Pass.PathAt.subdir {Q : String} {ds : List String} (hQ : p.PathAt v base Q ds)
    {t : Trace} (ht : t.Inside v) {E : List (String × Node)} (hl : t.volume.listDir "/" Q = .ok E)
    {e : String × Node} (he : e ∈ E) (hd : e.2.isDir = true) {depth : Nat}
    (hH : ∀ y, v.node? (base ++ ds) = some y → y.height ≤ depth + 1) :
    p.PathAt v base (join Q e.1) (ds ++ [e.1]) ∧
      (∀ y, v.node? (base ++ (ds ++ [e.1])) = some y → y.height ≤ depth) ∧ 0 < depth := by
  obtain ⟨-, hz, -, hsub⟩ := hQ.entry ht.1 ht.2 hl he
  obtain ⟨E', hE'⟩ := ht.2.dir (hQ.listing ht.2 hl)
  obtain ⟨z', hz', hlike⟩ := ht.2.node? hz
  -- in `v`, the subdirectory is an entry of the directory at `Q`
  have hmem : (e.1, z') ∈ E' := mem_of_findEntry (by rw [← Volume.node?_append hE', hz'])
  have hd' : z'.isDir = true := hlike.isDir_eq ▸ hd
  obtain ⟨c', rfl⟩ : ∃ c', z' = .dir c' := by
    cases z' with
    | dir c' => exact ⟨c', rfl⟩
    | file _ _ => simp [Node.isDir] at hd'
    | link _ => simp [Node.isDir] at hd'
  have hlt := entriesHeight_lt_of_mem hmem
  have hle : entriesHeight E' + 1 ≤ depth + 1 := by simpa [Node.height] using hH _ hE'
  refine ⟨hsub hd, fun y hy ↦ ?_, by omega⟩
  rw [← List.append_assoc, hz'] at hy
  cases hy
  simp only [Node.height]
  omega

/-- Every visit below the root, with depth enough for what lies below it in `v`, is done by the
loop. The induction is on the depth, which every subdirectory lowers by one. -/
theorem walk_visit : ∀ (depth : Nat) {Q : String} {ds : List String}, p.PathAt v base Q ds →
    ds ≠ [] → (∀ y, v.node? (base ++ ds) = some y → y.height ≤ depth) → 0 < depth →
    p.Simulates order v depth Q ds
  | 0, _, _, _, _, _, hpos => absurd hpos (Nat.lt_irrefl 0)
  | depth + 1, Q, ds, hQ, hne, hH, _ => by
    intro t removed rest ht hfresh
    have htop : (Q == p.root) = false := beq_false_of_ne (hQ.ne_root hne)
    cases hl : p.list t Q with
    | error e =>
      obtain ⟨hlead, hvol, hgone⟩ := walk_unlisted order depth htop rest removed hl
      exact ⟨[], hlead, ht.same hvol, by simp, by simp [hgone]⟩
    | ok E =>
      have hchild : ∀ e ∈ E, e.2.isDir = true →
          p.Simulates order v depth (join Q e.1) (ds ++ [e.1]) := by
        intro e he hd
        obtain ⟨hQ', hH', hpos'⟩ := hQ.subdir ht (Pass.listDir_of_list hl) he hd hH
        exact walk_visit depth hQ' (by simp) hH' hpos'
      exact walk_listed hQ htop hl ht hchild removed hfresh rest

/-- Over a tidy volume, with depth enough for the tree below the root, the loop started at the
root ends, its stack empty, with the trace of the recursive visit of the root. -/
theorem walk_root (order : ListingOrder) (hv : v.Tidy) (habs : isAbs p.root = true) (depth : Nat)
    (hdepth : ∀ L es, v.stat "/" p.root = .ok (L, .dir es) → entriesHeight es ≤ depth) :
    ∃ removed, p.Leads order (p.start v)
      ⟨[], (p.visit (depth + 1) true p.root ⟨v, [], [], [], [], []⟩).1, removed⟩ := by
  have htop : (p.root == p.root) = true := beq_self_eq_true _
  cases hl : p.list ⟨v, [], [], [], [], []⟩ p.root with
  | error e => exact ⟨[], (walk_unlisted order depth htop [] [] hl).1⟩
  | ok E =>
    have hE := Pass.listDir_of_list hl
    obtain ⟨base, hs⟩ := Volume.stat_of_listDir hE
    obtain ⟨-, hroot, hnode⟩ := Volume.stat_eq_ok hs
    have hQ : p.PathAt v base p.root [] := Pass.PathAt.root habs hroot
    have ht : Trace.Inside v ⟨v, [], [], [], [], []⟩ := ⟨hv, Volume.Within.refl v⟩
    have hH : ∀ y, v.node? (base ++ []) = some y → y.height ≤ depth + 1 := by
      intro y hy
      rw [List.append_nil, hnode] at hy
      cases hy
      simpa [Node.height] using hdepth base E hs
    have hchild : ∀ e ∈ E, e.2.isDir = true →
        p.Simulates order v depth (join p.root e.1) ([] ++ [e.1]) := by
      intro e he hd
      obtain ⟨hQ', hH', hpos'⟩ := hQ.subdir ht hE he hd hH
      exact walk_visit depth hQ' (by simp) hH' hpos'
    obtain ⟨Δ, hlead, -⟩ := walk_listed hQ htop hl ht hchild [] (by simp) []
    exact ⟨Δ ++ [], hlead⟩

end Visit

/-- Past some number of turns, the loop started at the root has an empty stack and the trace of
the recursive visit of the root. -/
theorem walk_root_eventually {p : Pass} (order : ListingOrder) {v : Volume} (hv : v.Tidy)
    (habs : isAbs p.root = true) (depth : Nat)
    (hdepth : ∀ L es, v.stat "/" p.root = .ok (L, .dir es) → entriesHeight es ≤ depth) :
    ∃ k, ∀ n, k ≤ n → ∃ removed, p.walk order n (p.start v) =
      ⟨[], (p.visit (depth + 1) true p.root ⟨v, [], [], [], [], []⟩).1, removed⟩ := by
  obtain ⟨removed, k, hk⟩ := walk_root order hv habs depth hdepth
  refine ⟨k, fun n hn ↦ ⟨removed, ?_⟩⟩
  rw [show n = k + (n - k) by omega, Pass.walk_add, hk, Pass.walk_of_stack_nil rfl]

end TorrentPrune.Prune
