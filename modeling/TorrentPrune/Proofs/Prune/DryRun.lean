import TorrentPrune.Proofs.Prune.Keeping

/-!
# A dry run against a real run

A dry run makes no call but listings, so it leaves the tree as it is. Set beside a real run of the
same pass over a tidy tree whose root path is steady, it reports what the real run would report
if every removal succeeded (`reconcile_dry_run_matches`): its failures are the real run's failed
listings, and its deleted files and directories hold the real run's in the same order, all of
them when no removal of the real run failed.

The two runs go in step. Both list the same directories and get the same answers: the real run
reaches each directory untouched (the volume facts of `Proofs.Prune.Outcome`), the dry run
reaches it in the tree as it was. Between listings, each handles the same entries, and
`DryMatches` is the relation between the two traces that every pair of steps keeps. The dry
run keeps no more entries of a directory than the real run, which can only fail where the dry run
succeeds, so a directory the real run empties is one the dry run empties as well.

Without a steady root path the real run can lose its root path and fail to list what the dry run
lists (`reconcile_dry_run_lists_more_through_own_link`).
-/

namespace TorrentPrune.Prune

open TorrentPrune.Fs TorrentPrune.Path

/-- The same pass, only reporting. -/
def Pass.dry (p : Pass) : Pass := { p with dryRun := true }

/-- A dry run lists as a real run does. -/
theorem Pass.dry_dryRun (p : Pass) : p.dry.dryRun = true := rfl

theorem Pass.dry_list (p : Pass) (t : Trace) (Q : String) : p.dry.list t Q = p.list t Q := rfl

/-- Listing is refused to a dry run where it is refused to a real run. -/
theorem Pass.dry_listRefused (p : Pass) (Q : String) : p.dry.listRefused Q = p.listRefused Q :=
  rfl

/-- A dry run reports a directory it removes, and touches nothing. -/
theorem Pass.dry_removeDir (p : Pass) (t : Trace) (Q : String) :
    p.dry.removeDir t Q = ({ t with deletedDirs := t.deletedDirs ++ [p.rel Q] }, true) := rfl

/-- The failure a listing leaves: a failed listing's path relative to the root, and the error
text. -/
def listFailureOf (root : String) (c : CallMade) : Option Failure :=
  match c.call, c.failure with
  | .list, some (_, msg) => some ⟨relative "/" c.path root, msg⟩
  | _, _ => none

/-- Every removal among the calls succeeded: each call is a listing or did not fail. -/
def RemovalsSucceed (cs : List CallMade) : Prop := ∀ c ∈ cs, c.call = .list ∨ c.failure = none

/-- A dry trace `td` beside a real trace `tr` of a pass over `root`: the dry run only listed, its
failures are the real run's failed listings, its deletions hold the real ones in order, and all
of them when every real removal succeeded. -/
structure DryMatches (root : String) (td tr : Trace) : Prop where
  listings : ∀ c ∈ td.calls, c.call = .list
  failures : td.failures = tr.calls.filterMap (listFailureOf root)
  files : tr.deletedFiles.Sublist td.deletedFiles
  dirs : tr.deletedDirs.Sublist td.deletedDirs
  exact : RemovalsSucceed tr.calls →
    tr.deletedFiles = td.deletedFiles ∧ tr.deletedDirs = td.deletedDirs

/-- A stretch of both runs, from `td` and `tr` to `td'` and `tr'`: the traces stay beside each
other, the dry run leaves the volume as it is, the real run only adds calls, and of the entries
at hand the dry run keeps `kd`, no more than the `kr` the real run keeps, and as many when every
real removal succeeded. -/
structure StepMatches (root : String) (td tr td' tr' : Trace) (kd kr : Nat) : Prop where
  along : DryMatches root td' tr'
  volume : td'.volume = td.volume
  calls : tr.calls <+: tr'.calls
  le : kd ≤ kr
  eq : RemovalsSucceed tr'.calls → kd = kr

section Calls

/-- Removals succeed in joined calls when they succeed in each part. -/
theorem removalsSucceed_append {cs cs' : List CallMade} :
    RemovalsSucceed (cs ++ cs') ↔ RemovalsSucceed cs ∧ RemovalsSucceed cs' := by
  simp only [RemovalsSucceed, List.mem_append, or_imp, forall_and]

/-- Removals succeed in the first calls when they succeed in all of them. -/
theorem RemovalsSucceed.of_prefix {cs cs' : List CallMade} (h : RemovalsSucceed cs')
    (hp : cs <+: cs') : RemovalsSucceed cs := by
  obtain ⟨rest, rfl⟩ := hp
  exact (removalsSucceed_append.mp h).1

/-- A removal that failed is a removal that did not succeed. -/
theorem not_removalsSucceed_append (cs : List CallMade) (call : Call) (path : String)
    (e : Nat × String) (hc : call ≠ .list) : ¬ RemovalsSucceed (cs ++ [⟨call, path, some e⟩]) := by
  intro h
  rcases (removalsSucceed_append.mp h).2 _ List.mem_cons_self with h | h
  · exact hc h
  · cases h

end Calls

section Steps

variable {root : String} {td tr td₁ tr₁ td₂ tr₂ : Trace}

/-- A stretch that ends beside a second one ends where the second ends, keeping the second's
counts. -/
theorem StepMatches.then {k₁ l₁ k₂ l₂ : Nat} (h₁ : StepMatches root td tr td₁ tr₁ k₁ l₁)
    (h₂ : StepMatches root td₁ tr₁ td₂ tr₂ k₂ l₂) : StepMatches root td tr td₂ tr₂ k₂ l₂ :=
  ⟨h₂.along, h₂.volume.trans h₁.volume, h₁.calls.trans h₂.calls, h₂.le, h₂.eq⟩

/-- Two stretches one after the other count what both keep. -/
theorem StepMatches.trans {k₁ l₁ k₂ l₂ : Nat} (h₁ : StepMatches root td tr td₁ tr₁ k₁ l₁)
    (h₂ : StepMatches root td₁ tr₁ td₂ tr₂ k₂ l₂) :
    StepMatches root td tr td₂ tr₂ (k₁ + k₂) (l₁ + l₂) := by
  refine ⟨h₂.along, h₂.volume.trans h₁.volume, h₁.calls.trans h₂.calls,
    Nat.add_le_add h₁.le h₂.le, fun hs ↦ ?_⟩
  rw [h₁.eq (hs.of_prefix h₂.calls), h₂.eq hs]

/-- Records in the journals keep the traces beside each other. -/
theorem DryMatches.note (h : DryMatches root td tr) (a b : Logging.LogRecord) :
    DryMatches root (td.note a) (tr.note b) :=
  ⟨h.listings, h.failures, h.files, h.dirs, h.exact⟩

/-- The same successful listing in both runs keeps the traces beside each other. -/
theorem DryMatches.listed (h : DryMatches root td tr) (Q : String) :
    DryMatches root (td.made ⟨.list, Q, none⟩) (tr.made ⟨.list, Q, none⟩) := by
  refine ⟨fun c hc ↦ ?_, ?_, h.files, h.dirs,
    fun hs ↦ h.exact (removalsSucceed_append.mp hs).1⟩
  · rcases List.mem_append.mp hc with hc | hc
    · exact h.listings c hc
    · rw [List.mem_singleton.mp hc]
  · simp [Trace.made, h.failures, listFailureOf]

/-- The same failed listing in both runs, recorded as a failure in both, keeps the traces
beside each other. -/
theorem DryMatches.unlisted (h : DryMatches root td tr) {Q : String} {e : Nat × String}
    (w w' : String) :
    DryMatches root ((td.made ⟨.list, Q, some e⟩).fail w (relative "/" Q root) e.2)
      ((tr.made ⟨.list, Q, some e⟩).fail w' (relative "/" Q root) e.2) := by
  refine ⟨fun c hc ↦ ?_, ?_, h.files, h.dirs,
    fun hs ↦ h.exact (removalsSucceed_append.mp hs).1⟩
  · rcases List.mem_append.mp hc with hc | hc
    · exact h.listings c hc
    · rw [List.mem_singleton.mp hc]
  · simp [Trace.fail, Trace.note, Trace.made, h.failures, listFailureOf]

/-- A stretch in which neither run does anything but record. -/
theorem StepMatches.quiet (h : DryMatches root td tr) (a b : Logging.LogRecord) (k : Nat) :
    StepMatches root td tr (td.note a) (tr.note b) k k :=
  ⟨h.note a b, rfl, List.prefix_refl _, Nat.le_refl k, fun _ ↦ rfl⟩

end Steps

section Pass

variable {p : Pass} {root : String} {td tr : Trace}

/-- Handling a file in both runs keeps them beside each other: both keep it when the manifest
does; otherwise the dry run reports it deleted, and the real run removes it or records why it
cannot. -/
theorem handleFile_dryMatches (hdry : p.dryRun = false) (hM : DryMatches root td tr)
    (path : String) :
    StepMatches root td tr (p.dry.handleFile td path).1 (p.handleFile tr path).1
      (if (p.dry.handleFile td path).2 then 1 else 0) (if (p.handleFile tr path).2 then 1 else 0) := by
  unfold Pass.handleFile
  simp only [Pass.dry, Pass.rel]
  by_cases hc : p.manifest.contains (relative "/" path p.root) = true
  · simp only [hc, if_true]
    exact ⟨hM, rfl, List.prefix_refl _, Nat.le_refl 1, fun _ ↦ rfl⟩
  by_cases ha : p.manifest.isAncestor (relative "/" path p.root) = true
  · simp only [hc, ha, if_true, Bool.false_eq_true, if_false]
    exact StepMatches.quiet hM _ _ 1
  simp only [hc, ha, hdry, Bool.false_eq_true, if_false, if_true]
  cases hat : attempt (refusalOf p.refusals .removeFile path)
      (fun _ ↦ tr.volume.unlink "/" path) with
  | ok w =>
    -- both report the file deleted
    refine ⟨⟨hM.listings, ?_, hM.files.append (List.Sublist.refl _), hM.dirs, fun hs ↦ ?_⟩, rfl,
      List.prefix_append _ _, Nat.le_refl 0, fun _ ↦ rfl⟩
    · simp [Trace.made, hM.failures, listFailureOf]
    · obtain ⟨hf, hd⟩ := hM.exact (removalsSucceed_append.mp hs).1
      exact ⟨by simp [hf], hd⟩
  | error e =>
    -- the real run keeps the file, and a removal failed
    obtain ⟨n, msg⟩ := e
    have hno := not_removalsSucceed_append tr.calls .removeFile path (n, msg)
      (fun h ↦ Call.noConfusion h)
    refine ⟨⟨hM.listings, ?_, hM.files.trans (List.sublist_append_left _ _), hM.dirs,
      fun hs ↦ absurd hs hno⟩, rfl, List.prefix_append _ _, Nat.zero_le 1, fun hs ↦ absurd hs hno⟩
    simp [Trace.fail, Trace.note, Trace.made, hM.failures, listFailureOf]

/-- Removing a directory in both runs keeps them beside each other: the dry run reports it
deleted, and the real run removes it or keeps it. -/
theorem removeDir_dryMatches (hdry : p.dryRun = false) (hM : DryMatches root td tr)
    (Q : String) :
    StepMatches root td tr (p.dry.removeDir td Q).1 (p.removeDir tr Q).1
      (if (p.dry.removeDir td Q).2 then 0 else 1) (if (p.removeDir tr Q).2 then 0 else 1) := by
  rw [Pass.dry_removeDir]
  unfold Pass.removeDir
  rw [hdry]
  simp only [Bool.false_eq_true, if_false, if_true]
  cases hat : attempt (refusalOf p.refusals .removeDir Q) (fun _ ↦ tr.volume.rmdir "/" Q) with
  | ok w =>
    -- both report the directory deleted
    refine ⟨⟨hM.listings, ?_, hM.files, hM.dirs.append (List.Sublist.refl _), fun hs ↦ ?_⟩, rfl,
      List.prefix_append _ _, Nat.le_refl 0, fun _ ↦ rfl⟩
    · simp [Trace.made, hM.failures, listFailureOf]
    · obtain ⟨hf, hd⟩ := hM.exact (removalsSucceed_append.mp hs).1
      exact ⟨hf, by simp [hd]⟩
  | error e =>
    -- the real run keeps the directory, and a removal failed
    obtain ⟨n, msg⟩ := e
    have hno := not_removalsSucceed_append tr.calls .removeDir Q (n, msg)
      (fun h ↦ Call.noConfusion h)
    have hdirs := hM.dirs.trans (List.sublist_append_left td.deletedDirs [p.rel Q])
    dsimp only
    split
    · refine ⟨⟨hM.listings, ?_, hM.files, hdirs, fun hs ↦ absurd hs hno⟩, rfl,
        List.prefix_append _ _, Nat.zero_le 1, fun hs ↦ absurd hs hno⟩
      simp [Trace.note, Trace.made, hM.failures, listFailureOf]
    · refine ⟨⟨hM.listings, ?_, hM.files, hdirs, fun hs ↦ absurd hs hno⟩, rfl,
        List.prefix_append _ _, Nat.zero_le 1, fun hs ↦ absurd hs hno⟩
      simp [Trace.fail, Trace.note, Trace.made, hM.failures, listFailureOf]

/-- Handling the files of a directory in both runs, in order, keeps them beside each other, and
the dry run keeps no more of them. -/
theorem handleFiles_dryMatches (hdry : p.dryRun = false) (Q : String) :
    ∀ (fs : List (String × Node)) (td tr : Trace), DryMatches root td tr →
      StepMatches root td tr (p.dry.handleFiles Q fs td).1 (p.handleFiles Q fs tr).1
        (p.dry.handleFiles Q fs td).2 (p.handleFiles Q fs tr).2
  | [], td, tr, hM => ⟨hM, rfl, List.prefix_refl _, Nat.le_refl 0, fun _ ↦ rfl⟩
  | (n, z) :: fs, td, tr, hM => by
    have h₁ := handleFile_dryMatches hdry hM (join Q n)
    rcases hq : p.dry.handleFile td (join Q n) with ⟨td₁, bd⟩
    rcases hr : p.handleFile tr (join Q n) with ⟨tr₁, br⟩
    rw [hq, hr] at h₁
    have h₂ := handleFiles_dryMatches hdry Q fs td₁ tr₁ h₁.along
    rcases hq₂ : p.dry.handleFiles Q fs td₁ with ⟨td₂, kd⟩
    rcases hr₂ : p.handleFiles Q fs tr₁ with ⟨tr₂, kr⟩
    rw [hq₂, hr₂] at h₂
    have h₃ := h₁.trans h₂
    rw [Nat.add_comm (if bd = true then 1 else 0), Nat.add_comm (if br = true then 1 else 0)]
      at h₃
    simpa only [Pass.handleFiles, hq, hr, hq₂, hr₂] using h₃

end Pass

/-- Past the subdirectories and files of a directory, both runs decide on the directory: the
dry run removes it when it keeps nothing in it, the real run when it keeps nothing in it; the
real run keeps at least as much, so it removes it only when the dry run does. -/
theorem decide_dryMatches {p : Pass} (hdry : p.dryRun = false) {td₀ tr₀ td tr : Trace}
    {kd kr : Nat} (h : StepMatches p.root td₀ tr₀ td tr kd kr) (Q : String)
    (a b : Logging.LogRecord) :
    StepMatches p.root td₀ tr₀
      (if 0 < kd then (td.note a, false) else p.dry.removeDir td Q).1
      (if 0 < kr then (tr.note b, false) else p.removeDir tr Q).1
      (if (if 0 < kd then (td.note a, false) else p.dry.removeDir td Q).2 then 0 else 1)
      (if (if 0 < kr then (tr.note b, false) else p.removeDir tr Q).2 then 0 else 1) := by
  by_cases hd : 0 < kd
  · have hr : 0 < kr := Nat.lt_of_lt_of_le hd h.le
    simp only [if_pos hd, if_pos hr]
    exact h.then (StepMatches.quiet h.along a b 1)
  by_cases hr : 0 < kr
  · -- the dry run emptied the directory and the real run did not: a removal failed before
    have hne : ¬ RemovalsSucceed tr.calls := fun hs ↦ by
      have := h.eq hs
      omega
    rw [if_neg hd, if_pos hr, Pass.dry_removeDir]
    refine ⟨⟨h.along.listings, h.along.failures, h.along.files,
      h.along.dirs.trans (List.sublist_append_left _ _), fun hs ↦ absurd hs hne⟩, h.volume,
      h.calls, Nat.zero_le 1, fun hs ↦ absurd hs hne⟩
  · simp only [if_neg hd, if_neg hr]
    exact h.then (removeDir_dryMatches hdry h.along Q)

section Level

variable {p : Pass} {v w₀ : Volume} {P : String} {loc : Loc} {es : List (String × Node)}

/-- Visiting the subdirectories among some entries of a listed directory in both runs, in
order, keeps them beside each other when each visit does, and the dry run leaves no more of
them. The real volume is followed as in `visitDirs_settles`. -/
theorem visitDirs_dryMatches {vd vr : String → Trace → Trace × Bool}
    (hvol : ∀ n c done t, (n, .dir c) ∈ es → n ∉ done →
      w₀.updateDir loc (fun _ ↦ settle (p.leftAt P) done es) = some t.volume →
      w₀.updateDir loc (fun _ ↦ settle (p.leftAt P) (n :: done) es) = some (vr n t).1.volume)
    (hstep : ∀ n c done td tr, (n, .dir c) ∈ es → n ∉ done →
      w₀.updateDir loc (fun _ ↦ settle (p.leftAt P) done es) = some tr.volume →
      td.volume = v → DryMatches p.root td tr →
      StepMatches p.root td tr (vd n td).1 (vr n tr).1 (if (vd n td).2 then 0 else 1)
        (if (vr n tr).2 then 0 else 1)) :
    ∀ (rest : List (String × Node)) (done : List String) (td tr : Trace),
      (∀ e ∈ rest, e ∈ es) → (names rest).Nodup → (∀ n ∈ names rest, n ∉ done) →
      w₀.updateDir loc (fun _ ↦ settle (p.leftAt P) done es) = some tr.volume →
      td.volume = v → DryMatches p.root td tr →
      StepMatches p.root td tr (visitDirs vd rest td).1 (visitDirs vr rest tr).1
        (visitDirs vd rest td).2 (visitDirs vr rest tr).2
  | [], _, _, _, _, _, _, _, _, hM => ⟨hM, rfl, List.prefix_refl _, Nat.le_refl 0, fun _ ↦ rfl⟩
  | (n, x) :: rest, done, td, tr, hsub, hnd, hdis, ht, htd, hM => by
    simp only [names_cons, List.nodup_cons] at hnd
    have hsub' : ∀ e ∈ rest, e ∈ es := fun e he ↦ hsub e (List.mem_cons_of_mem _ he)
    have hdis₀ : ∀ m ∈ names rest, m ∉ done := fun m hm' ↦ hdis m (List.mem_cons_of_mem _ hm')
    cases x with
    | dir c =>
      have hm := hsub (n, .dir c) List.mem_cons_self
      have hn : n ∉ done := hdis n List.mem_cons_self
      have h₁ := hstep n c done td tr hm hn ht htd hM
      have ht₁ := hvol n c done tr hm hn ht
      rcases hq : vd n td with ⟨td₁, gd⟩
      rcases hr : vr n tr with ⟨tr₁, gr⟩
      rw [hq, hr] at h₁
      rw [hr] at ht₁
      -- the subdirectory is done, the others follow with its name done
      have hdis' : ∀ m ∈ names rest, m ∉ n :: done := by
        intro m hm' hmem
        rcases List.mem_cons.mp hmem with rfl | hd
        · exact hnd.1 hm'
        · exact hdis₀ m hm' hd
      have h₂ := visitDirs_dryMatches hvol hstep rest (n :: done) td₁ tr₁ hsub' hnd.2 hdis' ht₁
        (h₁.volume.trans htd) h₁.along
      rcases hq₂ : visitDirs vd rest td₁ with ⟨td₂, kd⟩
      rcases hr₂ : visitDirs vr rest tr₁ with ⟨tr₂, kr⟩
      rw [hq₂, hr₂] at h₂
      have h₃ := h₁.trans h₂
      rw [Nat.add_comm (if gd = true then 0 else 1), Nat.add_comm (if gr = true then 0 else 1)]
        at h₃
      simpa only [visitDirs, Node.isDir, if_true, hq, hr, hq₂, hr₂] using h₃
    | file id content =>
      simpa only [visitDirs, Node.isDir, Bool.false_eq_true, if_false] using
        visitDirs_dryMatches hvol hstep rest done td tr hsub' hnd.2 hdis₀ ht htd hM
    | link target =>
      simpa only [visitDirs, Node.isDir, Bool.false_eq_true, if_false] using
        visitDirs_dryMatches hvol hstep rest done td tr hsub' hnd.2 hdis₀ ht htd hM

end Level

section Visit

variable {p : Pass} {v : Volume}

/-- Visiting a subdirectory of a listed directory in both runs, with depth to spare for the tree
below it, keeps them beside each other, and the real run removes it only when the dry run does.
Both runs list it and get the same answer: the real run reaches it untouched, the dry run in the
tree as it was. -/
theorem visit_dryMatches (hdry : p.dryRun = false) (depth : Nat) :
    ∀ (c : List (String × Node)) (w₀ : Volume) (P : String) (loc : Loc)
      (es : List (String × Node)) (done : List String) (n : String) (td tr : Trace),
      entriesHeight c < depth → w₀.Reaches P loc → EntriesTidy es → (n, .dir c) ∈ es →
      n ∉ done → w₀.updateDir loc (fun _ ↦ settle (p.leftAt P) done es) = some tr.volume →
      v.Reaches P loc → v.node? loc = some (.dir es) → td.volume = v →
      DryMatches p.root td tr →
      StepMatches p.root td tr (p.dry.visit depth false (join P n) td).1
        (p.visit depth false (join P n) tr).1
        (if (p.dry.visit depth false (join P n) td).2 then 0 else 1)
        (if (p.visit depth false (join P n) tr).2 then 0 else 1) := by
  -- each level of the tree takes one unit of depth
  induction depth with
  | zero => intro c _ _ _ _ _ _ _ _ hc; omega
  | succ depth ih =>
    intro c w₀ P loc es done n td tr hc hR hT hm hn ht hRv hLv htd hM
    obtain ⟨hRt, hL⟩ := reaches_of_settled hR ht
    have hfind : findEntry (settle (p.leftAt P) done es) n = some (.dir c) :=
      findEntry_settle_of_mem hT hm hn
    have hv : ValidName n := (hT.of_mem hm).1
    have hTc : EntriesTidy c := (hT.of_mem hm).2
    have hLc : tr.volume.node? (loc ++ [n]) = some (.dir c) := by
      rw [Volume.node?_append hL, hfind]
    -- the dry run finds the subdirectory in the tree as it was
    have hfindv : findEntry es n = some (.dir c) := findEntry_of_mem (nodup_of_sorted hT.sorted) hm
    have hLcv : v.node? (loc ++ [n]) = some (.dir c) := by
      rw [Volume.node?_append hLv, hfindv]
    simp only [Pass.visit, Pass.dry_list]
    cases hl : p.listRefused (join P n) with
    | true =>
      -- neither run can list it: both record the same failure
      obtain ⟨⟨_, _⟩, he⟩ := Pass.list_of_listRefused hl
      simp only [he, Bool.false_eq_true, if_false]
      exact ⟨(hM.unlisted _ _).note _ _, rfl, List.prefix_append _ _, Nat.le_refl 1, fun _ ↦ rfl⟩
    | false =>
      have hfit := (Pass.not_refused hl).2
      have hRc := hRt.child hL hfind hv hfit
      have hRcv : v.Reaches (join P n) (loc ++ [n]) := hRv.child hLv hfindv hv hfit
      have hld : p.list td (join P n) = .ok c := Pass.list_of_reaches (htd ▸ hRcv) (htd ▸ hLcv) hl
      simp only [Pass.list_of_reaches hRc hLc hl, hld, Bool.false_eq_true, if_false]
      -- one level down: the subdirectory's own entries, from the real volume as it is now
      have hself : tr.volume.updateDir (loc ++ [n])
          (fun _ ↦ settle (p.leftAt (join P n)) [] c) = some tr.volume := by
        simpa using child_self hT hm hn ht
      have hvol : ∀ m c' done' t', (m, .dir c') ∈ c → m ∉ done' →
          tr.volume.updateDir (loc ++ [n])
            (fun _ ↦ settle (p.leftAt (join P n)) done' c) = some t'.volume →
          tr.volume.updateDir (loc ++ [n])
            (fun _ ↦ settle (p.leftAt (join P n)) (m :: done') c) =
              some (p.visit depth false (join (join P n) m) t').1.volume :=
        fun m c' done' t' hm' hn' ht' ↦
          (visit_settles hdry depth c' _ _ _ c done' m t'
            (by have := entriesHeight_lt_of_mem hm'; omega) hRc hTc hm' hn' ht').1
      have hstep : ∀ m c' done' td' tr', (m, .dir c') ∈ c → m ∉ done' →
          tr.volume.updateDir (loc ++ [n])
            (fun _ ↦ settle (p.leftAt (join P n)) done' c) = some tr'.volume →
          td'.volume = v → DryMatches p.root td' tr' →
          StepMatches p.root td' tr' (p.dry.visit depth false (join (join P n) m) td').1
            (p.visit depth false (join (join P n) m) tr').1
            (if (p.dry.visit depth false (join (join P n) m) td').2 then 0 else 1)
            (if (p.visit depth false (join (join P n) m) tr').2 then 0 else 1) :=
        fun m c' done' td' tr' hm' hn' ht' htd' hM' ↦
          ih c' _ _ _ c done' m td' tr' (by have := entriesHeight_lt_of_mem hm'; omega) hRc hTc
            hm' hn' ht' hRcv hLcv htd' hM'
      -- the listing is recorded in both; then the subdirectories, then the files
      have h₀ : StepMatches p.root td tr (td.made ⟨.list, join P n, none⟩)
          (tr.made ⟨.list, join P n, none⟩) 0 0 :=
        ⟨hM.listed _, rfl, List.prefix_append _ _, Nat.le_refl 0, fun _ ↦ rfl⟩
      have h₁ := visitDirs_dryMatches (v := v) hvol hstep c [] (td.made ⟨.list, join P n, none⟩)
        (tr.made ⟨.list, join P n, none⟩) (fun _ h ↦ h) (nodup_of_sorted hTc.sorted) (by simp)
        hself htd h₀.along
      rcases hq : visitDirs (fun m t' ↦ p.dry.visit depth false (join (join P n) m) t') c
        (td.made ⟨.list, join P n, none⟩) with ⟨td₁, kd₁⟩
      rcases hr : visitDirs (fun m t' ↦ p.visit depth false (join (join P n) m) t') c
        (tr.made ⟨.list, join P n, none⟩) with ⟨tr₁, kr₁⟩
      rw [hq, hr] at h₁
      have h₂ := handleFiles_dryMatches hdry (join P n) (c.filter fun e ↦ !e.2.isDir) td₁ tr₁
        h₁.along
      rcases hq₂ : p.dry.handleFiles (join P n) (c.filter fun e ↦ !e.2.isDir) td₁ with
        ⟨td₂, kd₂⟩
      rcases hr₂ : p.handleFiles (join P n) (c.filter fun e ↦ !e.2.isDir) tr₁ with ⟨tr₂, kr₂⟩
      rw [hq₂, hr₂] at h₂
      simp only
      exact decide_dryMatches hdry (h₀.then (h₁.trans h₂)) (join P n) _ _

/-- Both runs over the root of a tidy volume whose root path is steady, with depth to spare for
the tree below it, end beside each other, the dry one with the volume as it was. -/
theorem visit_root_dryMatches (hdry : p.dryRun = false) (hv : v.Tidy)
    (hsteady : v.Steady p.root) (depth : Nat)
    (hdepth : ∀ L es, v.stat "/" p.root = .ok (L, .dir es) → entriesHeight es ≤ depth) :
    DryMatches p.root (p.dry.visit (depth + 1) true p.root ⟨v, [], [], [], [], []⟩).1
        (p.visit (depth + 1) true p.root ⟨v, [], [], [], [], []⟩).1 ∧
      (p.dry.visit (depth + 1) true p.root ⟨v, [], [], [], [], []⟩).1.volume = v := by
  have hstart : DryMatches p.root ⟨v, [], [], [], [], []⟩ ⟨v, [], [], [], [], []⟩ :=
    ⟨by simp, by simp, List.Sublist.refl _, List.Sublist.refl _, fun _ ↦ ⟨rfl, rfl⟩⟩
  simp only [Pass.visit, Pass.dry_list]
  cases hl : p.list ⟨v, [], [], [], [], []⟩ p.root with
  | error e =>
    -- both runs see the volume as it was: the same failure
    simp only [if_true]
    exact ⟨hstart.unlisted _ _, rfl⟩
  | ok es =>
    obtain ⟨L, hs⟩ := Volume.stat_of_listDir (Pass.listDir_of_list hl)
    obtain ⟨hR, hL⟩ := hsteady.reaches hs
    have hT := hv.dir hL
    have hself : v.updateDir L (fun _ ↦ settle (p.leftAt p.root) [] es) = some v := by
      simpa using Volume.updateDir_self hv hL
    have hvol : ∀ m c done t', (m, .dir c) ∈ es → m ∉ done →
        v.updateDir L (fun _ ↦ settle (p.leftAt p.root) done es) = some t'.volume →
        v.updateDir L (fun _ ↦ settle (p.leftAt p.root) (m :: done) es) =
            some (p.visit depth false (join p.root m) t').1.volume :=
      fun m c done t' hm hn ht' ↦
        (visit_settles hdry depth c _ _ _ es done m t'
          (by have := entriesHeight_lt_of_mem hm; have := hdepth L es hs; omega) hR hT hm hn
          ht').1
    have hstep : ∀ m c done td' tr', (m, .dir c) ∈ es → m ∉ done →
        v.updateDir L (fun _ ↦ settle (p.leftAt p.root) done es) = some tr'.volume →
        td'.volume = v → DryMatches p.root td' tr' →
        StepMatches p.root td' tr' (p.dry.visit depth false (join p.root m) td').1
          (p.visit depth false (join p.root m) tr').1
          (if (p.dry.visit depth false (join p.root m) td').2 then 0 else 1)
          (if (p.visit depth false (join p.root m) tr').2 then 0 else 1) :=
      fun m c done td' tr' hm hn ht' htd' hM' ↦
        visit_dryMatches hdry depth c _ _ _ es done m td' tr'
          (by have := entriesHeight_lt_of_mem hm; have := hdepth L es hs; omega) hR hT hm hn ht'
          hR hL htd' hM'
    have h₁ := visitDirs_dryMatches (v := v) hvol hstep es []
      ((⟨v, [], [], [], [], []⟩ : Trace).made ⟨.list, p.root, none⟩)
      ((⟨v, [], [], [], [], []⟩ : Trace).made ⟨.list, p.root, none⟩) (fun _ h ↦ h)
      (nodup_of_sorted hT.sorted) (by simp) hself rfl (hstart.listed _)
    rcases hq : visitDirs (fun m t' ↦ p.dry.visit depth false (join p.root m) t') es
      ((⟨v, [], [], [], [], []⟩ : Trace).made ⟨.list, p.root, none⟩) with ⟨td₁, kd₁⟩
    rcases hr : visitDirs (fun m t' ↦ p.visit depth false (join p.root m) t') es
      ((⟨v, [], [], [], [], []⟩ : Trace).made ⟨.list, p.root, none⟩) with ⟨tr₁, kr₁⟩
    rw [hq, hr] at h₁
    have h₂ := handleFiles_dryMatches hdry p.root (es.filter fun e ↦ !e.2.isDir) td₁ tr₁ h₁.along
    simp only [hq, hr, if_true]
    exact ⟨h₂.along, h₂.volume.trans h₁.volume⟩

end Visit

section Alone

variable {p : Pass}

/-- A stretch of a dry run: the volume is as it was, and every call added is a listing. -/
def DryStep (t t' : Trace) : Prop :=
  t'.volume = t.volume ∧ ∀ c ∈ t'.calls, c ∈ t.calls ∨ c.call = .list

theorem DryStep.refl (t : Trace) : DryStep t t := ⟨rfl, fun _ hc ↦ .inl hc⟩

theorem DryStep.trans {t₁ t₂ t₃ : Trace} (h₁ : DryStep t₁ t₂) (h₂ : DryStep t₂ t₃) :
    DryStep t₁ t₃ := by
  refine ⟨h₂.1.trans h₁.1, fun c hc ↦ ?_⟩
  rcases h₂.2 c hc with hc | hc
  · exact h₁.2 c hc
  · exact .inr hc

/-- A record in the journal is a dry step. -/
theorem DryStep.note (t : Trace) (r : Logging.LogRecord) : DryStep t (t.note r) :=
  DryStep.refl t

/-- A failure recorded, with its warning, is a dry step. -/
theorem DryStep.fail (t : Trace) (warning rel error : String) :
    DryStep t (t.fail warning rel error) :=
  DryStep.refl t

/-- A listing is a dry step. -/
theorem DryStep.list (t : Trace) (Q : String) (o : Option (Nat × String)) :
    DryStep t (t.made ⟨.list, Q, o⟩) := by
  refine ⟨rfl, fun c hc ↦ ?_⟩
  rcases List.mem_append.mp hc with hc | hc
  · exact .inl hc
  · rw [List.mem_singleton.mp hc]
    exact .inr rfl

/-- A dry run handles a file without a call. -/
theorem dryStep_handleFile (t : Trace) (path : String) : DryStep t (p.dry.handleFile t path).1 := by
  unfold Pass.handleFile
  simp only [Pass.dry_dryRun, if_true]
  split
  · exact DryStep.refl t
  · split
    · exact DryStep.note t _
    · exact ⟨rfl, fun _ hc ↦ .inl hc⟩

/-- A dry run removes a directory without a call. -/
theorem dryStep_removeDir (t : Trace) (path : String) : DryStep t (p.dry.removeDir t path).1 := by
  rw [Pass.dry_removeDir]
  exact ⟨rfl, fun _ hc ↦ .inl hc⟩

/-- A dry run, at any depth, leaves the volume as it is and makes no call but listings: each of
its steps does. -/
theorem dryStep_visit (depth : Nat) (top : Bool) (Q : String) (t : Trace) :
    DryStep t (p.dry.visit depth top Q t).1 :=
  Pass.visit_invariant (DryStep t) (fun t' Q o h ↦ h.trans (DryStep.list t' Q o))
    (fun t' r h ↦ h.trans (DryStep.note t' r))
    (fun t' warning rel error h ↦ h.trans (DryStep.fail t' warning rel error))
    (fun t' path h ↦ h.trans (dryStep_handleFile t' path))
    (fun t' path h ↦ h.trans (dryStep_removeDir t' path)) depth top Q t (DryStep.refl t)

end Alone

/-- A dry run of a pass that passes its checks finishes, makes no call but listings and leaves
the tree as it is. Over a tidy tree whose root path is steady it reports what the real run
reports but for the removals that fail: its failures are the real run's failed listings, and the
real run's deleted files and directories are its own, in order, or all of them when no removal
of the real run fails (`DryMatches`). -/
theorem reconcile_dry_run_matches {v : Volume} {refusals : List Refusal} {manifest : Manifest}
    {root : String} {minDepth : Int} (hT : v.Tidy)
    (hsafe : ensureSafe v "/" root minDepth = .ok ()) (hdir : v.isDir "/" root = true) :
    ∃ td, reconcileTrace v refusals manifest root minDepth true = .ok td ∧ td.volume = v ∧
      (∀ c ∈ td.calls, c.call = .list) ∧
      (v.Steady (absolute "/" root) →
        ∃ tr, reconcileTrace v refusals manifest root minDepth false = .ok tr ∧
          DryMatches (absolute "/" root) td tr) := by
  let p : Pass := ⟨manifest, absolute "/" root, false, refusals⟩
  obtain ⟨depth, hdepth, hrun⟩ := reconcileTrace_of_checks refusals manifest hsafe hdir
  obtain ⟨rd, hd⟩ := hrun true
  obtain ⟨rr, hr⟩ := hrun false
  have halone := dryStep_visit (p := p) (depth + 1) true p.root ⟨v, [], [], [], [], []⟩
  refine ⟨_, hd, halone.1, fun c hc ↦ ?_, fun hs ↦ ⟨_, hr, ?_⟩⟩
  · rcases halone.2 c hc with hc | hc
    · cases hc
    · exact hc
  · exact (visit_root_dryMatches (p := p) rfl hT hs depth hdepth).1.note _ _

/-- A directory `/a` holding one undeclared file, reached from `/` with no link on the way, so
with a steady root path. -/
theorem reconcile_dry_run_matches_one_file :
    (⟨[("a", .dir [("f", .file 0 [])])], 1⟩ : Volume).Tidy ∧
      ensureSafe ⟨[("a", .dir [("f", .file 0 [])])], 1⟩ "/" "/a" 0 = .ok () ∧
      (⟨[("a", .dir [("f", .file 0 [])])], 1⟩ : Volume).isDir "/" "/a" = true ∧
      (⟨[("a", .dir [("f", .file 0 [])])], 1⟩ : Volume).Steady (absolute "/" "/a") ∧
      ∃ td, reconcileTrace ⟨[("a", .dir [("f", .file 0 [])])], 1⟩ [] ⟨[]⟩ "/a" 0 true = .ok td ∧
        td.volume = ⟨[("a", .dir [("f", .file 0 [])])], 1⟩ ∧ (∀ c ∈ td.calls, c.call = .list) ∧
        ((⟨[("a", .dir [("f", .file 0 [])])], 1⟩ : Volume).Steady (absolute "/" "/a") →
          ∃ tr, reconcileTrace ⟨[("a", .dir [("f", .file 0 [])])], 1⟩ [] ⟨[]⟩ "/a" 0 false =
            .ok tr ∧ DryMatches (absolute "/" "/a") td tr) := by
  have hv : (⟨[("a", .dir [("f", .file 0 [])])], 1⟩ : Volume).Tidy := by decide
  have hsafe : ensureSafe ⟨[("a", .dir [("f", .file 0 [])])], 1⟩ "/" "/a" 0 = .ok () := rfl
  have hdir : (⟨[("a", .dir [("f", .file 0 [])])], 1⟩ : Volume).isDir "/" "/a" = true := by
    decide
  have hsteady : (⟨[("a", .dir [("f", .file 0 [])])], 1⟩ : Volume).Steady (absolute "/" "/a") := by
    have h := ((Volume.reaches_slash ⟨[("a", .dir [("f", .file 0 [])])], 1⟩).child rfl
      (n := "a") rfl (by simp [ValidName]) (by decide)).steady
    have habs : absolute "/" "/a" = join "/" "a" := by decide
    rwa [habs]
  exact ⟨hv, hsafe, hdir, hsteady, reconcile_dry_run_matches hv hsafe hdir⟩

/-- Without a steady root path the dry run lists more than the real run: with the root path
through a link inside the tree, the real run removes the link, loses its root path, and fails to
list a directory the dry run lists. -/
theorem reconcile_dry_run_lists_more_through_own_link :
    ∃ (v : Volume) (root : String), v.Tidy ∧ ensureSafe v "/" root 0 = .ok () ∧
      v.isDir "/" root = true ∧
      ∀ td tr, reconcileTrace v [] ⟨[]⟩ root 0 true = .ok td →
        reconcileTrace v [] ⟨[]⟩ root 0 false = .ok tr →
        td.failures ≠ tr.calls.filterMap (listFailureOf (absolute "/" root)) := by
  refine ⟨⟨[("r", .dir [("d", .dir [("a", .dir [("lnk", .link "/r/d")]),
    ("b", .dir [("f", .file 0 [])])])])], 1⟩, "/r/d/a/lnk", by decide, rfl, by decide, ?_⟩
  intro td tr hd hr h
  -- the dry run records no failure; the real run fails to list `b`
  have hd' := congrArg (fun r ↦ r.toOption.map fun t ↦ t.failures.length) hd
  have hr' := congrArg (fun r ↦ r.toOption.map fun t ↦
    (t.calls.filterMap (listFailureOf (absolute "/" "/r/d/a/lnk"))).length) hr
  simp only [Except.toOption, Option.map_some] at hd' hr'
  rw [h] at hd'
  have hcount := hd'.trans hr'.symm
  revert hcount
  decide

end TorrentPrune.Prune
