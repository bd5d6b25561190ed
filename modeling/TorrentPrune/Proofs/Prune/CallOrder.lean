import TorrentPrune.Proofs.Prune.StackLoop

/-!
# The calls of a pass keep their order

A pass lists each directory at most once, removes each path at most once, touches nothing
beneath a directory once it has removed it, and never removes its root (`CallsInOrder`). The
calls of a visit form a segment: the listing of the directory, then the segments of its
subdirectories one after another, then the removals of its files, then its own removal
(`Pass.Segment`). Every call of a segment lies under the directory's names, and calls under two
different names of one directory never meet, so every two calls of a segment are in order
(`InOrder`) once the parts are.

A pass from its root is such a segment under the root, so every call it makes is at the root or
beneath it (`reconcileTrace_calls_below`); with what the pass leaves, this is
`reconcile_follows_rule`. The loop over a stack of frames does what the recursive pass does
(`reconcile_loop_matches_recursion`), and so its calls are in order too.
-/

namespace TorrentPrune.Prune

open TorrentPrune.Fs TorrentPrune.Path

/-- The path `Y` lies strictly beneath the path `X`. -/
def Beneath (X Y : String) : Prop :=
  ∃ es, es ≠ [] ∧ components (absolute "/" Y) = components (absolute "/" X) ++ es

/-- Two calls, made in this order, keep the order of a pass: two listings, or two removals, are
not of one path, and after a directory is removed nothing beneath it is touched. -/
def InOrder (c c' : CallMade) : Prop :=
  ((c.call = .list ↔ c'.call = .list) → c.path ≠ c'.path) ∧
    (c.call = .removeDir → ¬ Beneath c.path c'.path)

/-- The calls of a pass over the root `root` keep their order: every two of them, in the order
made, are in order, and the root is never removed. -/
structure CallsInOrder (root : String) (cs : List CallMade) : Prop where
  pairwise : cs.Pairwise InOrder
  rootKept : ∀ c ∈ cs, c.call = .removeDir → c.path ≠ root

section Segments

variable {p : Pass} {v : Volume} {base : Loc} {Q X Y : String} {ds : List String}

/-- The calls of a visit of the directory that the names `ds` lead to below the root: all at paths
under `ds`, every two in order. -/
structure Pass.Segment (p : Pass) (ds : List String) (cs : List CallMade) : Prop where
  below : ∀ c ∈ cs, p.Below ds c.path
  pairwise : cs.Pairwise InOrder

/-- What lies beneath a path under `ds` lies under `ds`. -/
theorem Pass.Below.beneath (h : p.Below ds X) (hb : Beneath X Y) : p.Below ds Y := by
  obtain ⟨es, hes⟩ := h
  obtain ⟨fs, -, hfs⟩ := hb
  exact ⟨es ++ fs, by rw [hfs, hes, List.append_assoc]⟩

/-- Calls under two different names of one directory are in order, whichever comes first. -/
theorem inOrder_of_names {c c' : CallMade} {n m : String} (hc : p.Below (ds ++ [n]) c.path)
    (hc' : p.Below (ds ++ [m]) c'.path) (hne : n ≠ m) : InOrder c c' :=
  ⟨fun _ heq ↦ hne ((heq ▸ hc).name_eq hc'), fun _ hb ↦ hne ((hc.beneath hb).name_eq hc')⟩

/-- The listing of a directory comes before every other call of its visit: the other listings are
under the names of its entries. -/
theorem inOrder_listing (hQ : p.PathAt v base Q ds) {o : Option (Nat × String)} {c' : CallMade}
    (hc' : c'.call = .list → ∃ n, p.Below (ds ++ [n]) c'.path) :
    InOrder ⟨.list, Q, o⟩ c' := by
  refine ⟨fun hiff heq ↦ ?_, fun h ↦ (by cases h)⟩
  obtain ⟨n, hn⟩ := hc' (hiff.mp rfl)
  rw [← heq] at hn
  exact hQ.not_below_child n hn

/-- Every call under a name of a directory comes before the directory's removal. -/
theorem inOrder_removal (hQ : p.PathAt v base Q ds) {c : CallMade} {n : String}
    (hc : p.Below (ds ++ [n]) c.path) {o : Option (Nat × String)} :
    InOrder c ⟨.removeDir, Q, o⟩ :=
  ⟨fun _ heq ↦ hQ.not_below_child n (by simpa only [heq] using hc),
    fun _ hb ↦ hQ.not_below_child n (hc.beneath hb)⟩

/-- Two entries of a directory, a subdirectory and something else, have different names. -/
theorem name_ne_of_isDir {E : List (String × Node)} (hnd : (names E).Nodup)
    {e e' : String × Node} (he : e ∈ E) (he' : e' ∈ E) (hd : e.2.isDir = true)
    (hd' : e'.2.isDir = false) : e.1 ≠ e'.1 := by
  intro heq
  have h₁ := findEntry_of_mem hnd he
  have h₂ := findEntry_of_mem hnd he'
  rw [heq, h₂] at h₁
  rw [Option.some.inj h₁] at hd'
  rw [hd] at hd'
  cases hd'

end Segments

section Calls

/-- Handling a file makes no call, or one removal of the file. -/
theorem handleFile_calls (p : Pass) (t : Trace) (path : String) :
    (p.handleFile t path).1.calls = t.calls ∨
      ∃ o, (p.handleFile t path).1.calls = t.calls ++ [⟨.removeFile, path, o⟩] := by
  unfold Pass.handleFile
  by_cases hc : p.manifest.contains (p.rel path) = true
  · simp [hc]
  by_cases ha : p.manifest.isAncestor (p.rel path) = true
  · simp [hc, ha, Trace.note]
  simp only [hc, ha, Bool.false_eq_true, if_false]
  by_cases hd : p.dryRun = true
  · simp [hd]
  simp only [hd, Bool.false_eq_true, if_false]
  cases attempt (refusalOf p.refusals .removeFile path) (fun _ ↦ t.volume.unlink "/" path) with
  | ok w => exact .inr ⟨none, rfl⟩
  | error e => exact .inr ⟨some e, rfl⟩

/-- Removing a directory makes no call, or one removal of the directory. -/
theorem removeDir_calls (p : Pass) (t : Trace) (path : String) :
    (p.removeDir t path).1.calls = t.calls ∨
      ∃ o, (p.removeDir t path).1.calls = t.calls ++ [⟨.removeDir, path, o⟩] := by
  unfold Pass.removeDir
  by_cases hd : p.dryRun = true
  · simp [hd]
  simp only [hd, Bool.false_eq_true, if_false]
  cases attempt (refusalOf p.refusals .removeDir path) (fun _ ↦ t.volume.rmdir "/" path) with
  | ok w => exact .inr ⟨none, rfl⟩
  | error e =>
    obtain ⟨n, msg⟩ := e
    refine .inr ⟨some (n, msg), ?_⟩
    simp only
    split <;> rfl

end Calls

section Visit

variable {p : Pass} {v : Volume} {base : Loc} {Q : String} {ds : List String}

/-- Handling the files of the directory at `Q` removes each at most once, in order: the calls are
removals under the files' names. -/
theorem handleFiles_segment (hQ : p.PathAt v base Q ds) :
    ∀ (es : List (String × Node)) (t : Trace), (names es).Nodup → (∀ e ∈ es, ValidName e.1) →
      ∃ cs, (p.handleFiles Q es t).1.calls = t.calls ++ cs ∧ cs.Pairwise InOrder ∧
        ∀ c ∈ cs, c.call = .removeFile ∧ ∃ e ∈ es, p.Below (ds ++ [e.1]) c.path
  | [], t, _, _ => ⟨[], by simp [Pass.handleFiles], List.Pairwise.nil, by simp⟩
  | (n, x) :: es, t, hnd, hvalid => by
    have hn : n ∉ names es := (List.nodup_cons.mp hnd).1
    have hbn := hQ.below_join (hvalid (n, x) List.mem_cons_self)
    -- the first file's call, if any, then the others'
    obtain ⟨cs₁, hcs₁, hpw₁, hk₁⟩ : ∃ cs₁, (p.handleFile t (join Q n)).1.calls = t.calls ++ cs₁ ∧
        cs₁.Pairwise InOrder ∧ ∀ c ∈ cs₁, c.call = .removeFile ∧ c.path = join Q n := by
      rcases handleFile_calls p t (join Q n) with h | ⟨o, h⟩
      · exact ⟨[], by simp [h], List.Pairwise.nil, by simp⟩
      · exact ⟨[⟨.removeFile, join Q n, o⟩], h, List.pairwise_singleton _ _, by simp⟩
    obtain ⟨cs₂, hcs₂, hpw₂, hk₂⟩ := handleFiles_segment hQ es (p.handleFile t (join Q n)).1
      (List.nodup_cons.mp hnd).2 fun e he ↦ hvalid e (List.mem_cons_of_mem _ he)
    refine ⟨cs₁ ++ cs₂, ?_, ?_, fun c hc ↦ ?_⟩
    · simp only [Pass.handleFiles, hcs₂, hcs₁, List.append_assoc]
    · refine List.pairwise_append.mpr ⟨hpw₁, hpw₂, fun c hc c' hc' ↦ ?_⟩
      obtain ⟨e, he, hb⟩ := (hk₂ c' hc').2
      have hne : n ≠ e.1 := fun heq ↦ hn (heq ▸ List.mem_map_of_mem he)
      exact inOrder_of_names ((hk₁ c hc).2 ▸ hbn) hb hne
    · rcases List.mem_append.mp hc with hc | hc
      · exact ⟨(hk₁ c hc).1, (n, x), List.mem_cons_self, (hk₁ c hc).2 ▸ hbn⟩
      · obtain ⟨hcall, e, he, hb⟩ := hk₂ c hc
        exact ⟨hcall, e, List.mem_cons_of_mem _ he, hb⟩

/-- Visiting the subdirectories among `es` of the directory at `Q` makes the calls of their
visits one after another, when the calls of each visit form a segment under its name. -/
theorem visitDirs_segment {depth : Nat} (hQ : p.PathAt v base Q ds) :
    ∀ (es : List (String × Node)), (names es).Nodup →
      (∀ e ∈ es, e.2.isDir = true → ∀ t, t.Inside v → ∃ cs,
        (p.visit depth false (join Q e.1) t).1.calls = t.calls ++ cs ∧
          p.Segment (ds ++ [e.1]) cs) →
      ∀ t, t.Inside v → ∃ cs,
        (visitDirs (fun n t ↦ p.visit depth false (join Q n) t) es t).1.calls = t.calls ++ cs ∧
          cs.Pairwise InOrder ∧ ∀ c ∈ cs, ∃ e ∈ es, e.2.isDir = true ∧ p.Below (ds ++ [e.1]) c.path
  | [], _, _, t, _ => ⟨[], by simp [visitDirs], List.Pairwise.nil, by simp⟩
  | (n, x) :: es, hnd, hseg, t, ht => by
    have hn : n ∉ names es := (List.nodup_cons.mp hnd).1
    have hseg' := fun e he ↦ hseg e (List.mem_cons_of_mem _ he)
    by_cases hd : x.isDir = true
    · rw [visitDirs_cons_dir _ hd]
      obtain ⟨cs₁, hcs₁, hs₁⟩ := hseg (n, x) List.mem_cons_self hd t ht
      obtain ⟨cs₂, hcs₂, hpw₂, hk₂⟩ := visitDirs_segment hQ es (List.nodup_cons.mp hnd).2 hseg' _
        (visit_inside depth false (join Q n) ht)
      refine ⟨cs₁ ++ cs₂, by rw [hcs₂, hcs₁, List.append_assoc],
        List.pairwise_append.mpr ⟨hs₁.pairwise, hpw₂, fun c hc c' hc' ↦ ?_⟩, fun c hc ↦ ?_⟩
      · -- the later subdirectories have other names
        obtain ⟨e, he, -, hb⟩ := hk₂ c' hc'
        have hne : n ≠ e.1 := fun heq ↦ hn (heq ▸ List.mem_map_of_mem he)
        exact inOrder_of_names (hs₁.below c hc) hb hne
      · rcases List.mem_append.mp hc with hc | hc
        · exact ⟨(n, x), List.mem_cons_self, hd, hs₁.below c hc⟩
        · obtain ⟨e, he, hed, hb⟩ := hk₂ c hc
          exact ⟨e, List.mem_cons_of_mem _ he, hed, hb⟩
    · rw [visitDirs_cons_of_not_dir _ hd]
      obtain ⟨cs, hcs, hpw, hk⟩ := visitDirs_segment hQ es (List.nodup_cons.mp hnd).2 hseg' t ht
      refine ⟨cs, hcs, hpw, fun c hc ↦ ?_⟩
      obtain ⟨e, he, hed, hb⟩ := hk c hc
      exact ⟨e, List.mem_cons_of_mem _ he, hed, hb⟩

/-- Once the directory at `Q` is listed, its visit makes a segment when the visits of its
subdirectories do: the listing, the calls under the subdirectories, the removals of the files,
and last the directory's own removal, which the visit of the root never makes. -/
theorem listed_segment {depth : Nat} (top : Bool) (hQ : p.PathAt v base Q ds) {t : Trace}
    {E : List (String × Node)} (hl : p.list t Q = .ok E) (ht : t.Inside v)
    (hseg : ∀ e ∈ E, e.2.isDir = true → ∀ t, t.Inside v → ∃ cs,
      (p.visit depth false (join Q e.1) t).1.calls = t.calls ++ cs ∧ p.Segment (ds ++ [e.1]) cs) :
    ∃ cs, (p.visit (depth + 1) top Q t).1.calls = t.calls ++ cs ∧ p.Segment ds cs ∧
      (top = true → ∀ c ∈ cs, c.call = .removeDir → ∃ n, p.Below (ds ++ [n]) c.path) := by
  have hE : EntriesTidy E := ht.1.dir (hQ.listing ht.2 (Pass.listDir_of_list hl))
  have hnd : (names E).Nodup := nodup_of_sorted hE.sorted
  obtain ⟨cs₁, hcs₁, hpw₁, hk₁⟩ := visitDirs_segment hQ E hnd hseg (t.made ⟨.list, Q, none⟩)
    (ht.same rfl)
  rcases hq : visitDirs (fun n t ↦ p.visit depth false (join Q n) t) E (t.made ⟨.list, Q, none⟩)
    with ⟨t₁, dirsLeft⟩
  rw [hq] at hcs₁
  dsimp only at hcs₁
  have hndf : (names (E.filter fun e ↦ !e.2.isDir)).Nodup :=
    (List.filter_sublist.map Prod.fst).nodup hnd
  obtain ⟨cs₂, hcs₂, hpw₂, hk₂⟩ := handleFiles_segment hQ (E.filter fun e ↦ !e.2.isDir) t₁ hndf
    fun e he ↦ (hE.of_mem (List.mem_filter.mp he).1).1
  rcases hr : p.handleFiles Q (E.filter fun e ↦ !e.2.isDir) t₁ with ⟨t₂, filesLeft⟩
  rw [hr] at hcs₂
  dsimp only at hcs₂
  -- every call past the listing lies under the name of an entry
  have hunder : ∀ c ∈ cs₁ ++ cs₂, ∃ n, p.Below (ds ++ [n]) c.path := by
    intro c hc
    rcases List.mem_append.mp hc with hc | hc
    · obtain ⟨e, -, -, hb⟩ := hk₁ c hc
      exact ⟨e.1, hb⟩
    · obtain ⟨-, e, -, hb⟩ := hk₂ c hc
      exact ⟨e.1, hb⟩
  -- a subdirectory and a file have different names
  have hmid : (cs₁ ++ cs₂).Pairwise InOrder := by
    refine List.pairwise_append.mpr ⟨hpw₁, hpw₂, fun c hc c' hc' ↦ ?_⟩
    obtain ⟨e, he, hed, hb⟩ := hk₁ c hc
    obtain ⟨-, e', he', hb'⟩ := hk₂ c' hc'
    have hd' : e'.2.isDir = false := by simpa using (List.mem_filter.mp he').2
    exact inOrder_of_names hb hb' (name_ne_of_isDir hnd he (List.mem_filter.mp he').1 hed hd')
  have hlisted : (⟨.list, Q, none⟩ :: (cs₁ ++ cs₂)).Pairwise InOrder :=
    List.pairwise_cons.mpr ⟨fun c hc ↦ inOrder_listing hQ fun _ ↦ hunder c hc, hmid⟩
  have hbelow : ∀ c ∈ (⟨.list, Q, none⟩ :: (cs₁ ++ cs₂) : List CallMade), p.Below ds c.path := by
    intro c hc
    rcases List.mem_cons.mp hc with rfl | hc
    · exact hQ.below
    · obtain ⟨n, hb⟩ := hunder c hc
      exact hb.of_append
  have hcalls : t₂.calls = t.calls ++ (⟨.list, Q, none⟩ :: (cs₁ ++ cs₂)) := by
    simp [hcs₂, hcs₁, Trace.made]
  simp only [Pass.visit, hl, hq, hr]
  cases top with
  | true =>
    refine ⟨⟨.list, Q, none⟩ :: (cs₁ ++ cs₂), hcalls, ⟨hbelow, hlisted⟩, fun _ c hc hrm ↦ ?_⟩
    rcases List.mem_cons.mp hc with rfl | hc
    · cases hrm
    · exact hunder c hc
  | false =>
    simp only [Bool.false_eq_true, if_false]
    split
    · exact ⟨⟨.list, Q, none⟩ :: (cs₁ ++ cs₂), hcalls, ⟨hbelow, hlisted⟩, fun h ↦ h.elim⟩
    · -- the directory's removal comes last
      rcases removeDir_calls p t₂ Q with h | ⟨o, h⟩
      · exact ⟨⟨.list, Q, none⟩ :: (cs₁ ++ cs₂), h.trans hcalls, ⟨hbelow, hlisted⟩,
          fun h ↦ h.elim⟩
      refine ⟨(⟨.list, Q, none⟩ :: (cs₁ ++ cs₂)) ++ [⟨.removeDir, Q, o⟩],
        by rw [h, hcalls, List.append_assoc], ⟨fun c hc ↦ ?_, ?_⟩, fun h ↦ h.elim⟩
      · rcases List.mem_append.mp hc with hc | hc
        · exact hbelow c hc
        · rw [List.mem_singleton.mp hc]
          exact hQ.below
      · refine List.pairwise_append.mpr ⟨hlisted, List.pairwise_singleton _ _, fun c hc c' hc' ↦ ?_⟩
        rw [List.mem_singleton.mp hc']
        rcases List.mem_cons.mp hc with rfl | hc
        · exact ⟨fun hiff ↦ (by cases hiff.mp rfl), fun h ↦ (by cases h)⟩
        · obtain ⟨n, hb⟩ := hunder c hc
          exact inOrder_removal hQ hb

/-- Every visit below the root makes a segment of calls under its names. The induction is on the
depth. -/
theorem visit_segment : ∀ (depth : Nat) {Q : String} {ds : List String} {t : Trace},
    p.PathAt v base Q ds → t.Inside v →
    ∃ cs, (p.visit depth false Q t).1.calls = t.calls ++ cs ∧ p.Segment ds cs
  | 0, _, _, t, _, _ => ⟨[], by simp [Pass.visit], ⟨by simp, List.Pairwise.nil⟩⟩
  | depth + 1, Q, ds, t, hQ, ht => by
    cases hl : p.list t Q with
    | error e =>
      obtain ⟨n, msg⟩ := e
      refine ⟨[⟨.list, Q, some (n, msg)⟩], ?_, ⟨by simp [hQ.below], List.pairwise_singleton _ _⟩⟩
      simp [Pass.visit, hl, Trace.fail, Trace.note, Trace.made]
    | ok E =>
      obtain ⟨cs, hcs, hs, -⟩ := listed_segment false hQ hl ht fun e he hd t' ht' ↦
        visit_segment depth ((hQ.entry ht.1 ht.2 (Pass.listDir_of_list hl) he).2.2.2 hd) ht'
      exact ⟨cs, hcs, hs⟩

/-- The calls of a pass from its root form a segment under the root: each is at the root or
beneath it, every two are in order, and none removes the root. -/
theorem visit_root_segment (hv : v.Tidy) (habs : isAbs p.root = true) (depth : Nat) :
    p.Segment [] (p.visit (depth + 1) true p.root ⟨v, [], [], [], [], []⟩).1.calls ∧
      ∀ c ∈ (p.visit (depth + 1) true p.root ⟨v, [], [], [], [], []⟩).1.calls,
        c.call = .removeDir → c.path ≠ p.root := by
  cases hl : p.list ⟨v, [], [], [], [], []⟩ p.root with
  | error e =>
    obtain ⟨n, msg⟩ := e
    have hcalls : (p.visit (depth + 1) true p.root ⟨v, [], [], [], [], []⟩).1.calls =
        [⟨.list, p.root, some (n, msg)⟩] := by
      simp [Pass.visit, hl, Trace.fail, Trace.note, Trace.made]
    rw [hcalls]
    -- the one call is the refused listing of the root itself
    have hroot : p.Below [] p.root := ⟨[], by simp⟩
    exact ⟨⟨by simpa using hroot, List.pairwise_singleton _ _⟩, by simp⟩
  | ok E =>
    have ht : Trace.Inside v ⟨v, [], [], [], [], []⟩ := ⟨hv, Volume.Within.refl v⟩
    obtain ⟨base, hs⟩ := Volume.stat_of_listDir (Pass.listDir_of_list hl)
    obtain ⟨-, hroot, -⟩ := Volume.stat_eq_ok hs
    have hQ : p.PathAt v base p.root [] := Pass.PathAt.root habs hroot
    obtain ⟨cs, hcs, hseg, hkept⟩ := listed_segment true hQ hl ht fun e he hd t' ht' ↦
      visit_segment depth ((hQ.entry ht.1 ht.2 (Pass.listDir_of_list hl) he).2.2.2 hd) ht'
    rw [hcs, List.nil_append]
    refine ⟨hseg, fun c hc hrm heq ↦ ?_⟩
    -- a removed directory lies under a name below the root, so it is not the root
    obtain ⟨n, hb⟩ := hkept rfl c hc hrm
    rw [heq] at hb
    exact hQ.not_below_child n hb

/-- The calls of a pass from its root keep their order. -/
theorem visit_root_callsInOrder (hv : v.Tidy) (habs : isAbs p.root = true) (depth : Nat) :
    CallsInOrder p.root (p.visit (depth + 1) true p.root ⟨v, [], [], [], [], []⟩).1.calls :=
  have h := visit_root_segment hv habs depth
  ⟨h.1.pairwise, h.2⟩

end Visit

/-- Every call of a pass over a tidy volume, listing or removal, is at its root or beneath it. -/
theorem reconcileTrace_calls_below {v : Volume} {refusals : List Refusal} {manifest : Manifest}
    {root : String} {minDepth : Int} {dryRun : Bool} {t : Trace} (hv : v.Tidy)
    (ht : reconcileTrace v refusals manifest root minDepth dryRun = .ok t) :
    ∀ c ∈ t.calls, (⟨manifest, absolute "/" root, dryRun, refusals⟩ : Pass).Below [] c.path := by
  -- a pass that runs has passed its checks
  have hsafe : ensureSafe v "/" root minDepth = .ok () := by
    cases hs : ensureSafe v "/" root minDepth with
    | ok u => rfl
    | error g =>
      rw [reconcileTrace, hs] at ht
      cases ht
  have hdir : v.isDir "/" root = true := by
    cases hd : v.isDir "/" root with
    | true => rfl
    | false =>
      rw [reconcileTrace, hsafe, hd] at ht
      cases ht
  -- and its trace is the visit of the root, with a record added
  obtain ⟨depth, -, hrun⟩ := reconcileTrace_of_checks refusals manifest hsafe hdir
  obtain ⟨r, hr⟩ := hrun dryRun
  have hcalls : t.calls = ((⟨manifest, absolute "/" root, dryRun, refusals⟩ : Pass).visit
      (depth + 1) true (absolute "/" root) ⟨v, [], [], [], [], []⟩).1.calls := by
    rw [← Except.ok.inj (hr.symm.trans ht), Trace.calls_note]
  rw [hcalls]
  exact (visit_root_segment (p := ⟨manifest, absolute "/" root, dryRun, refusals⟩) hv
    (isAbs_absolute_slash root) depth).1.below

/-- A pass over a tidy volume whose root path is steady leaves exactly what the rule leaves,
whatever calls are refused, and every call it makes, listing or removal, is at the root or
beneath it: nothing outside the root is listed or touched. -/
theorem reconcile_follows_rule (v : Volume) (refusals : List Refusal) (manifest : Manifest)
    (root : String) (minDepth : Int) (hv : v.Tidy)
    (hsafe : ensureSafe v "/" root minDepth = .ok ()) (hdir : v.isDir "/" root = true)
    (hsteady : v.Steady (absolute "/" root)) :
    ∃ t, reconcileTrace v refusals manifest root minDepth false = .ok t ∧
      reconcile v refusals manifest root minDepth false =
        .ok ((⟨manifest, absolute "/" root, false, refusals⟩ : Pass).prunedVolume v, t.journal,
          t.report false) ∧
      ∀ c ∈ t.calls, (⟨manifest, absolute "/" root, false, refusals⟩ : Pass).Below [] c.path := by
  obtain ⟨journal, report, hrec⟩ :=
    reconcile_prunes_by_rule v refusals manifest root minDepth hv hsafe hdir hsteady
  cases ht : reconcileTrace v refusals manifest root minDepth false with
  | error e => simp [reconcile, ht, Except.map] at hrec
  | ok t =>
    -- the pass's volume is the rule's; its records and report are the trace's
    have hvol : t.volume = (⟨manifest, absolute "/" root, false, refusals⟩ : Pass).prunedVolume v := by
      simp only [reconcile, ht, Except.map, Except.ok.injEq, Prod.mk.injEq] at hrec
      exact hrec.1
    refine ⟨t, rfl, ?_, reconcileTrace_calls_below hv ht⟩
    simp only [reconcile, ht, Except.map, hvol]

/-- A directory `/a` holding one undeclared file, reached from `/` with no link on the way: the
pass leaves what the rule leaves, and calls nothing outside `/a`. -/
theorem reconcile_follows_rule_clearing_one_file :
    (⟨[("a", .dir [("f", .file 0 [])])], 1⟩ : Volume).Tidy ∧
      ensureSafe ⟨[("a", .dir [("f", .file 0 [])])], 1⟩ "/" "/a" 0 = .ok () ∧
      (⟨[("a", .dir [("f", .file 0 [])])], 1⟩ : Volume).isDir "/" "/a" = true ∧
      (⟨[("a", .dir [("f", .file 0 [])])], 1⟩ : Volume).Steady (absolute "/" "/a") ∧
      ∃ t, reconcileTrace ⟨[("a", .dir [("f", .file 0 [])])], 1⟩ [] ⟨[]⟩ "/a" 0 false = .ok t ∧
        reconcile ⟨[("a", .dir [("f", .file 0 [])])], 1⟩ [] ⟨[]⟩ "/a" 0 false =
          .ok ((⟨⟨[]⟩, absolute "/" "/a", false, []⟩ : Pass).prunedVolume
            ⟨[("a", .dir [("f", .file 0 [])])], 1⟩, t.journal, t.report false) ∧
        ∀ c ∈ t.calls, (⟨⟨[]⟩, absolute "/" "/a", false, []⟩ : Pass).Below [] c.path := by
  have hv : (⟨[("a", .dir [("f", .file 0 [])])], 1⟩ : Volume).Tidy := by decide
  have hsafe : ensureSafe ⟨[("a", .dir [("f", .file 0 [])])], 1⟩ "/" "/a" 0 = .ok () := rfl
  have hdir : (⟨[("a", .dir [("f", .file 0 [])])], 1⟩ : Volume).isDir "/" "/a" = true := by
    decide
  -- `/a` is `a` joined to `/`, a directory entry of the top
  have hsteady : (⟨[("a", .dir [("f", .file 0 [])])], 1⟩ : Volume).Steady (absolute "/" "/a") := by
    have h := ((Volume.reaches_slash ⟨[("a", .dir [("f", .file 0 [])])], 1⟩).child rfl
      (n := "a") rfl (by simp [ValidName]) (by decide)).steady
    have habs : absolute "/" "/a" = join "/" "a" := by decide
    rwa [habs]
  exact ⟨hv, hsafe, hdir, hsteady, reconcile_follows_rule _ _ _ _ _ hv hsafe hdir hsteady⟩

/-- The loop over a stack of frames, once the root passes the depth guard and is a directory,
empties its stack after some number of turns, and from then on what it has done is the
recursive pass's trace, the pass's summary record apart: the same calls in the same order, the
same deleted files and directories, the same failures and the same tree left, whatever the order
of the listings and the refused calls. Its calls keep their order. -/
theorem reconcile_loop_matches_recursion {v : Volume} {refusals : List Refusal}
    {manifest : Manifest} {root : String} {minDepth : Int} {dryRun : Bool} (order : ListingOrder)
    (hT : v.Tidy) (hsafe : ensureSafe v "/" root minDepth = .ok ())
    (hdir : v.isDir "/" root = true) :
    ∃ k, ∀ n, k ≤ n →
      ((⟨manifest, absolute "/" root, dryRun, refusals⟩ : Pass).walk order n
          (Pass.start ⟨manifest, absolute "/" root, dryRun, refusals⟩ v)).stack = [] ∧
        (∃ r, reconcileTrace v refusals manifest root minDepth dryRun =
          .ok (((⟨manifest, absolute "/" root, dryRun, refusals⟩ : Pass).walk order n
            (Pass.start ⟨manifest, absolute "/" root, dryRun, refusals⟩ v)).trace.note r)) ∧
        CallsInOrder (absolute "/" root)
          ((⟨manifest, absolute "/" root, dryRun, refusals⟩ : Pass).walk order n
            (Pass.start ⟨manifest, absolute "/" root, dryRun, refusals⟩ v)).trace.calls := by
  obtain ⟨depth, hdepth, hrun⟩ := reconcileTrace_of_checks refusals manifest hsafe hdir
  obtain ⟨r, hr⟩ := hrun dryRun
  obtain ⟨k, hk⟩ := walk_root_eventually (p := ⟨manifest, absolute "/" root, dryRun, refusals⟩)
    order hT (isAbs_absolute_slash root) depth hdepth
  refine ⟨k, fun n hn ↦ ?_⟩
  obtain ⟨removed, hwalk⟩ := hk n hn
  rw [hwalk]
  exact ⟨rfl, ⟨r, hr⟩,
    visit_root_callsInOrder (p := ⟨manifest, absolute "/" root, dryRun, refusals⟩) hT
      (isAbs_absolute_slash root) depth⟩

/-- A directory holding a subdirectory and a file, listed in reverse order. -/
theorem reconcile_loop_matches_recursion_reversed :
    (⟨[("a", .dir [("b", .dir []), ("f", .file 0 [])])], 1⟩ : Volume).Tidy ∧
      ensureSafe ⟨[("a", .dir [("b", .dir []), ("f", .file 0 [])])], 1⟩ "/" "/a" 0 = .ok () ∧
      (⟨[("a", .dir [("b", .dir []), ("f", .file 0 [])])], 1⟩ : Volume).isDir "/" "/a" = true ∧
      ∃ k, ∀ n, k ≤ n →
        ((⟨⟨[]⟩, absolute "/" "/a", false, []⟩ : Pass).walk
            ⟨fun _ es ↦ es.reverse, fun _ es ↦ List.reverse_perm es⟩ n
            (Pass.start ⟨⟨[]⟩, absolute "/" "/a", false, []⟩
              ⟨[("a", .dir [("b", .dir []), ("f", .file 0 [])])], 1⟩)).stack = [] ∧
          (∃ r, reconcileTrace ⟨[("a", .dir [("b", .dir []), ("f", .file 0 [])])], 1⟩ [] ⟨[]⟩
              "/a" 0 false =
            .ok (((⟨⟨[]⟩, absolute "/" "/a", false, []⟩ : Pass).walk
              ⟨fun _ es ↦ es.reverse, fun _ es ↦ List.reverse_perm es⟩ n
              (Pass.start ⟨⟨[]⟩, absolute "/" "/a", false, []⟩
                ⟨[("a", .dir [("b", .dir []), ("f", .file 0 [])])], 1⟩)).trace.note r)) ∧
          CallsInOrder (absolute "/" "/a")
            ((⟨⟨[]⟩, absolute "/" "/a", false, []⟩ : Pass).walk
              ⟨fun _ es ↦ es.reverse, fun _ es ↦ List.reverse_perm es⟩ n
              (Pass.start ⟨⟨[]⟩, absolute "/" "/a", false, []⟩
                ⟨[("a", .dir [("b", .dir []), ("f", .file 0 [])])], 1⟩)).trace.calls := by
  have hv : (⟨[("a", .dir [("b", .dir []), ("f", .file 0 [])])], 1⟩ : Volume).Tidy := by decide
  have hsafe : ensureSafe ⟨[("a", .dir [("b", .dir []), ("f", .file 0 [])])], 1⟩ "/" "/a" 0 =
      .ok () := rfl
  have hdir : (⟨[("a", .dir [("b", .dir []), ("f", .file 0 [])])], 1⟩ : Volume).isDir "/" "/a" =
      true := by decide
  exact ⟨hv, hsafe, hdir, reconcile_loop_matches_recursion
    ⟨fun _ es ↦ es.reverse, fun _ es ↦ List.reverse_perm es⟩ hv hsafe hdir⟩

end TorrentPrune.Prune
