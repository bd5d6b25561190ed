import TorrentPrune.Proofs.Prune.Outcome
import TorrentPrune.Proofs.Fs.Within
import TorrentPrune.Proofs.Path.Relative

/-!
# What a pass keeps

A pass only ever removes: a file or link when the manifest does not keep its relative path, a
directory when it is empty. So an entry other than a directory whose path relative to the root
the manifest keeps is still in place after the pass, whatever the pass met on its way: links in
the tree, refused calls, paths that stopped resolving (`reconcile_keeps_kept_entries`).

The argument does not ask which removals succeed. Every call of the pass resolves a path built
from the root's path by appending listed names, in a volume that lies within the first one
(`Keeps`). There the path leads where it led at the start (`Volume.locate_of_within`), to the
location that its names spell below the root (`Pass.PathAt`). An unlink that hit the kept entry
would be one of a path whose relative text the manifest keeps, which the pass never unlinks; an
rmdir removes an empty directory, which the kept entry is not.
-/

namespace TorrentPrune.Prune

open TorrentPrune.Fs TorrentPrune.Path

/-- A volume met by a pass over `v` that keeps the node `x` of `v` at `P`: it is tidy, lies within
`v`, and still has `x` there; `x` is not a directory. -/
structure Keeps (v : Volume) (P : Loc) (x : Node) (w : Volume) : Prop where
  tidy : w.Tidy
  within : w.Within v
  kept : w.node? P = some x
  notDir : x.isDir = false

/-- The pass stands at the directory path `Q`: an absolute path whose absolute form is the root's
followed by the valid names `ds`, and which leads in `v` to the location `base ++ ds` when it is
short enough for the system to take. -/
structure Pass.PathAt (p : Pass) (v : Volume) (base : Loc) (Q : String) (ds : List String) :
    Prop where
  abs : isAbs Q = true
  parts : components (absolute "/" Q) = components (absolute "/" p.root) ++ ds
  leads : byteLength Q < pathMax → v.locate "/" Q true = .ok (base ++ ds)
  names : ∀ d ∈ ds, ValidName d

section Calls

/-- A call that is made and succeeds gives the call's volume. -/
theorem attempt_eq_ok {refused : Option OsError} {call : Unit → Except CallError Volume}
    {w : Volume} (h : attempt refused call = .ok w) : call () = .ok w := by
  unfold attempt at h
  split at h
  · cases h
  · split at h
    · next v hv =>
      cases h
      exact hv
    · cases h
    · cases h

/-- A listing the pass makes is a listing of the volume. -/
theorem Pass.listDir_of_list {p : Pass} {t : Trace} {path : String}
    {E : List (String × Node)} (h : p.list t path = .ok E) : t.volume.listDir "/" path = .ok E := by
  unfold Pass.list at h
  split at h
  · cases h
  · split at h
    · next E' hE =>
      cases h
      exact hE
    · cases h
    · cases h

/-- Handling a file leaves the volume as it is, or unlinks the file's path when the manifest does
not keep it. -/
theorem handleFile_volume (p : Pass) (t : Trace) (path : String) :
    (p.handleFile t path).1.volume = t.volume ∨
      (p.keeps path = false ∧ t.volume.unlink "/" path = .ok (p.handleFile t path).1.volume) := by
  unfold Pass.handleFile
  by_cases hc : p.manifest.contains (p.rel path) = true
  · simp [hc]
  by_cases ha : p.manifest.isAncestor (p.rel path) = true
  · simp [hc, ha]
  have hk : p.keeps path = false := by simp [Pass.keeps, hc, ha]
  simp only [hc, ha, Bool.false_eq_true, if_false]
  by_cases hd : p.dryRun = true
  · simp [hd]
  simp only [hd, Bool.false_eq_true, if_false]
  cases hat : attempt (refusalOf p.refusals .removeFile path) (fun _ ↦ t.volume.unlink "/" path)
    with
  | ok w => exact .inr ⟨hk, attempt_eq_ok hat⟩
  | error e => simp

/-- Removing a directory leaves the volume as it is, or removes the directory's path. -/
theorem removeDir_volume (p : Pass) (t : Trace) (path : String) :
    (p.removeDir t path).1.volume = t.volume ∨
      t.volume.rmdir "/" path = .ok (p.removeDir t path).1.volume := by
  unfold Pass.removeDir
  by_cases hd : p.dryRun = true
  · simp [hd]
  simp only [hd, Bool.false_eq_true, if_false]
  cases hat : attempt (refusalOf p.refusals .removeDir path) (fun _ ↦ t.volume.rmdir "/" path)
    with
  | ok w => exact .inr (attempt_eq_ok hat)
  | error e =>
    obtain ⟨n, msg⟩ := e
    left
    simp only
    split <;> rfl

end Calls

section Invariant

variable {p : Pass}

theorem visitDirs_cons_dir (f : String → Trace → Trace × Bool) {n : String} {x : Node}
    (hd : x.isDir = true) (es : List (String × Node)) (t : Trace) :
    visitDirs f ((n, x) :: es) t = ((visitDirs f es (f n t).1).1,
      (visitDirs f es (f n t).1).2 + if (f n t).2 then 0 else 1) := by
  simp [visitDirs, hd]

theorem visitDirs_cons_of_not_dir (f : String → Trace → Trace × Bool) {n : String} {x : Node}
    (hd : ¬ x.isDir = true) (es : List (String × Node)) (t : Trace) :
    visitDirs f ((n, x) :: es) t = visitDirs f es t := by
  simp [visitDirs, hd]

/-- A property of traces that handling a file keeps, handling files keeps. -/
theorem handleFiles_invariant (P : Trace → Prop) (hfile : ∀ t path, P t → P (p.handleFile t path).1)
    (Q : String) : ∀ (es : List (String × Node)) (t : Trace), P t → P (p.handleFiles Q es t).1
  | [], _, h => h
  | (n, _) :: es, t, h => by
    have h₁ := hfile t (join Q n) h
    rcases hq : p.handleFile t (join Q n) with ⟨t₁, b⟩
    rw [hq] at h₁
    have h₂ := handleFiles_invariant P hfile Q es t₁ h₁
    rcases hr : p.handleFiles Q es t₁ with ⟨t₂, k⟩
    rw [hr] at h₂
    simpa only [Pass.handleFiles, hq, hr] using h₂

/-- A property of traces that each visit of a subdirectory keeps, visiting subdirectories
keeps. -/
theorem visitDirs_invariant (P : Trace → Prop) {visitDir : String → Trace → Trace × Bool}
    (hvis : ∀ n t, P t → P (visitDir n t).1) :
    ∀ (es : List (String × Node)) (t : Trace), P t → P (visitDirs visitDir es t).1
  | [], _, h => h
  | (n, x) :: es, t, h => by
    by_cases hd : x.isDir = true
    · rw [visitDirs_cons_dir _ hd]
      exact visitDirs_invariant P hvis es _ (hvis n t h)
    · rw [visitDirs_cons_of_not_dir _ hd]
      exact visitDirs_invariant P hvis es t h

/-- A property of traces that each step of a pass keeps (recording a listing, with the failure it
met, a record in the journal, handling a file, removing a directory) every visit keeps, at any
depth. -/
theorem Pass.visit_invariant (P : Trace → Prop)
    (hlist : ∀ t Q o, P t → P (t.made ⟨.list, Q, o⟩))
    (hnote : ∀ t r, P t → P (t.note r))
    (hfail : ∀ t warning rel error, P t → P (t.fail warning rel error))
    (hfile : ∀ t path, P t → P (p.handleFile t path).1)
    (hdir : ∀ t path, P t → P (p.removeDir t path).1) :
    ∀ (depth : Nat) (top : Bool) (Q : String) (t : Trace), P t → P (p.visit depth top Q t).1
  | 0, _, _, _, h => h
  | depth + 1, top, Q, t, h => by
    simp only [Pass.visit]
    cases hl : p.list t Q with
    | error e =>
      obtain ⟨n, msg⟩ := e
      cases top
      · exact hnote _ _ (hfail _ _ _ _ (hlist t Q _ h))
      · exact hfail _ _ _ _ (hlist t Q _ h)
    | ok E =>
      simp only
      have h₁ := visitDirs_invariant P
        (fun n t' h' ↦ Pass.visit_invariant P hlist hnote hfail hfile hdir depth false (join Q n) t' h')
        E _ (hlist t Q none h)
      rcases hq : visitDirs (fun n t' ↦ p.visit depth false (join Q n) t') E
        (t.made ⟨.list, Q, none⟩) with ⟨t₁, d⟩
      rw [hq] at h₁
      have h₂ := handleFiles_invariant P hfile Q (E.filter fun e ↦ !e.2.isDir) t₁ h₁
      rcases hr : p.handleFiles Q (E.filter fun e ↦ !e.2.isDir) t₁ with ⟨t₂, f⟩
      rw [hr] at h₂
      split
      · exact h₂
      · split
        · exact hnote _ _ h₂
        · exact hdir t₂ Q h₂

end Invariant

section Kept

variable {v w w' : Volume} {P : Loc} {x : Node}

/-- A pass starts from a volume that keeps each of its nodes. -/
theorem Keeps.start (hT : v.Tidy) (hx : v.node? P = some x) (hxd : x.isDir = false) :
    Keeps v P x v :=
  ⟨hT, Volume.Within.refl v, hx, hxd⟩

/-- Erasing a leaf other than the kept node keeps it. -/
theorem Keeps.erase (h : Keeps v P x w) {L : Loc} {y : Node} (hL : w.node? L = some y)
    (hy : y.Leaf) (hne : P ≠ L) (he : w.erase L = some w') : Keeps v P x w' :=
  ⟨h.tidy.erase he, (Volume.Within.erase he).trans h.within,
    Volume.node?_erase_of_ne he hL hy h.kept h.notDir hne, h.notDir⟩

end Kept

section Paths

variable {p : Pass} {v w : Volume} {base P : Loc} {x : Node} {Q : String} {ds : List String}

/-- The pass starts at the root, which leads to `base`. -/
theorem Pass.PathAt.root (habs : isAbs p.root = true)
    (hroot : v.locate "/" p.root true = .ok base) : p.PathAt v base p.root [] :=
  ⟨habs, by simp, fun _ ↦ by simpa using hroot, by simp⟩

/-- Below the directory the pass stands at, an entry's relative path is the names leading to
it. -/
theorem Pass.PathAt.rel_join (h : p.PathAt v base Q ds) {f : String} (hf : ValidName f) :
    p.rel (join Q f) = "/".intercalate (ds ++ [f]) := by
  have hv : ∀ d ∈ ds ++ [f], ValidName d := by
    intro d hd
    rcases List.mem_append.mp hd with hd | hd
    · exact h.names d hd
    · rw [List.mem_singleton.mp hd]
      exact hf
  have hparts : components (absolute "/" (join Q f)) =
      components (absolute "/" p.root) ++ (ds ++ [f]) := by
    rw [components_absolute_join h.abs hf, h.parts, List.append_assoc]
  exact relative_eq_of_components hparts (by simp) hv

/-- A listing at the directory the pass stands at, from a tidy volume within `v`, is of the
directory at `base ++ ds`. -/
theorem Pass.PathAt.listing (hQ : p.PathAt v base Q ds) (hW : w.Within v)
    {E : List (String × Node)} (hl : w.listDir "/" Q = .ok E) :
    w.node? (base ++ ds) = some (.dir E) := by
  obtain ⟨L, hs⟩ := Volume.stat_of_listDir hl
  obtain ⟨-, hloc, hL⟩ := Volume.stat_eq_ok hs
  -- the listed directory is where the path led in `v`
  have hL' : L = base ++ ds :=
    Volume.locate_eq_of_within hW hloc (by simp [hL]) (hQ.leads (Volume.walk_of_locate hloc).2.1)
  rw [← hL']
  exact hL

/-- An entry listed at the directory the pass stands at, from a tidy volume within `v`: its name
is valid, it stands below `base ++ ds` under its name, its path leads in `v` to that location
when a last link is not followed and the path fits, and when it is a directory the pass stands at
it next. -/
theorem Pass.PathAt.entry (hQ : p.PathAt v base Q ds) (hT : w.Tidy) (hW : w.Within v)
    {E : List (String × Node)} (hl : w.listDir "/" Q = .ok E) {n : String} {z : Node}
    (hm : (n, z) ∈ E) :
    ValidName n ∧ w.node? (base ++ ds ++ [n]) = some z ∧
      (byteLength (join Q n) < pathMax →
        v.locate "/" (join Q n) false = .ok (base ++ ds ++ [n])) ∧
      (z.isDir = true → p.PathAt v base (join Q n) (ds ++ [n])) := by
  have hL := hQ.listing hW hl
  have hE := hT.dir hL
  have hn : ValidName n := (hE.of_mem hm).1
  have hz : w.node? (base ++ ds ++ [n]) = some z := by
    rw [Volume.node?_append hL, findEntry_of_mem (nodup_of_sorted hE.sorted) hm]
  obtain ⟨E', hE'⟩ := hW.dir hL
  obtain ⟨z', hz', hzz'⟩ := hW.node? hz
  have hfind : findEntry E' n = some z' := by rw [← Volume.node?_append hE', hz']
  -- the directory was listed, so its own path fits
  have hQfit : byteLength Q < pathMax := by
    obtain ⟨L, hs⟩ := Volume.stat_of_listDir hl
    exact (Volume.walk_of_locate (Volume.stat_eq_ok hs).2.1).2.1
  have hleads := hQ.leads hQfit
  refine ⟨hn, hz, fun hfit ↦ Volume.locate_join hleads hE' hfind hn hfit (.inr rfl), fun hd ↦ ?_⟩
  have hd' : z'.isDir = true := hzz'.isDir_eq ▸ hd
  refine ⟨isAbs_join hQ.abs n, ?_, fun hfit ↦ ?_, ?_⟩
  · rw [components_absolute_join hQ.abs hn, hQ.parts, List.append_assoc]
  · rw [← List.append_assoc]
    exact Volume.locate_join hleads hE' hfind hn hfit (.inl hd')
  · intro d hd
    rcases List.mem_append.mp hd with hd | hd
    · exact hQ.names d hd
    · rw [List.mem_singleton.mp hd]
      exact hn

/-- An entry listed at the directory the pass stands at, from a volume that keeps `x`: its name
is valid, its path leads in `v` to its location when a last link is not followed and the path
fits, and when it is a directory the pass stands at it next. -/
theorem Pass.PathAt.listed (hQ : p.PathAt v base Q ds) (hw : Keeps v P x w)
    {E : List (String × Node)} (hl : w.listDir "/" Q = .ok E) {n : String} {z : Node}
    (hm : (n, z) ∈ E) :
    ValidName n ∧
      (byteLength (join Q n) < pathMax → v.locate "/" (join Q n) false = .ok (base ++ ds ++ [n])) ∧
      (z.isDir = true → p.PathAt v base (join Q n) (ds ++ [n])) := by
  obtain ⟨hn, -, hloc, hsub⟩ := hQ.entry hw.tidy hw.within hl hm
  exact ⟨hn, hloc, hsub⟩

end Paths

section Steps

variable {p : Pass} {v : Volume} {base : Loc} {names : List String} {x : Node}

/-- Handling a file of the directory the pass stands at keeps the kept node: an unlink that hit
it would be of a path whose relative text the manifest keeps. -/
theorem handleFile_keeps
    (hkeep : p.manifest.contains ("/".intercalate names) = true ∨
      p.manifest.isAncestor ("/".intercalate names) = true)
    {Q : String} {ds : List String} (hQ : p.PathAt v base Q ds) {f : String} (hf : ValidName f)
    (hloc : byteLength (join Q f) < pathMax →
      v.locate "/" (join Q f) false = .ok (base ++ ds ++ [f])) {t : Trace}
    (ht : Keeps v (base ++ names) x t.volume) :
    Keeps v (base ++ names) x (p.handleFile t (join Q f)).1.volume := by
  rcases handleFile_volume p t (join Q f) with hsame | ⟨hk, hu⟩
  · rw [hsame]
    exact ht
  obtain ⟨L, y, hL, hy, hyd, he⟩ := Volume.unlink_eq_ok hu
  -- the unlink lands where the entry's path led in `v`, the path having fit to be unlinked
  have hL' : L = base ++ ds ++ [f] :=
    Volume.locate_eq_of_within ht.within hL (by simp [hy]) (hloc (Volume.walk_of_locate hL).2.1)
  subst hL'
  refine ht.erase hy (Node.leaf_of_not_dir hyd) (fun hPL ↦ ?_) he
  have hn : names = ds ++ [f] := by simpa using hPL
  simp only [Pass.keeps, hQ.rel_join hf, ← hn, Bool.or_eq_false_iff] at hk
  rcases hkeep with hc | ha
  · rw [hk.1] at hc
    cases hc
  · rw [hk.2] at ha
    cases ha

/-- Handling files of the directory the pass stands at, in order, keeps the kept node. -/
theorem handleFiles_keeps
    (hkeep : p.manifest.contains ("/".intercalate names) = true ∨
      p.manifest.isAncestor ("/".intercalate names) = true)
    {Q : String} {ds : List String} (hQ : p.PathAt v base Q ds) :
    ∀ (fs : List (String × Node)) (t : Trace),
      (∀ e ∈ fs, ValidName e.1 ∧ (byteLength (join Q e.1) < pathMax →
        v.locate "/" (join Q e.1) false = .ok (base ++ ds ++ [e.1]))) →
      Keeps v (base ++ names) x t.volume →
      Keeps v (base ++ names) x (p.handleFiles Q fs t).1.volume
  | [], t, _, ht => ht
  | (n, z) :: fs, t, hfs, ht => by
    have hfirst := hfs (n, z) List.mem_cons_self
    have h₁ := handleFile_keeps hkeep hQ hfirst.1 hfirst.2 ht
    rcases hq : p.handleFile t (join Q n) with ⟨t₁, b⟩
    rw [hq] at h₁
    have h₂ := handleFiles_keeps hkeep hQ fs t₁ (fun e he ↦ hfs e (List.mem_cons_of_mem _ he)) h₁
    rcases hr : p.handleFiles Q fs t₁ with ⟨t₂, k⟩
    rw [hr] at h₂
    simpa [Pass.handleFiles, hq, hr] using h₂

/-- Removing a directory keeps the kept node: an rmdir removes an empty directory, and the kept
node is not one. -/
theorem removeDir_keeps {t : Trace} (ht : Keeps v (base ++ names) x t.volume) (path : String) :
    Keeps v (base ++ names) x (p.removeDir t path).1.volume := by
  rcases removeDir_volume p t path with hsame | hr
  · rw [hsame]
    exact ht
  obtain ⟨L, -, hL, he⟩ := Volume.rmdir_eq_ok hr
  refine ht.erase hL Node.leaf_dir_nil (fun hPL ↦ ?_) he
  rw [← hPL] at hL
  have hx : x = .dir [] := Option.some.inj (ht.kept.symm.trans hL)
  have hxd := ht.notDir
  rw [hx] at hxd
  cases hxd

/-- Visiting subdirectories in order keeps the kept node when each visit does. -/
theorem visitDirs_keeps (visitDir : String → Trace → Trace × Bool) :
    ∀ (es : List (String × Node)) (t : Trace),
      (∀ e ∈ es, e.2.isDir = true → ∀ t : Trace, Keeps v (base ++ names) x t.volume →
        Keeps v (base ++ names) x (visitDir e.1 t).1.volume) →
      Keeps v (base ++ names) x t.volume →
      Keeps v (base ++ names) x (visitDirs visitDir es t).1.volume
  | [], t, _, ht => ht
  | (n, z) :: es, t, hvis, ht => by
    have hrest : ∀ e ∈ es, e.2.isDir = true → ∀ t : Trace, Keeps v (base ++ names) x t.volume →
        Keeps v (base ++ names) x (visitDir e.1 t).1.volume :=
      fun e he ↦ hvis e (List.mem_cons_of_mem _ he)
    by_cases hd : z.isDir = true
    · have h₁ := hvis (n, z) List.mem_cons_self hd t ht
      rcases hq : visitDir n t with ⟨t₁, gone⟩
      rw [hq] at h₁
      have h₂ := visitDirs_keeps visitDir es t₁ hrest h₁
      rcases hr : visitDirs visitDir es t₁ with ⟨t₂, k⟩
      rw [hr] at h₂
      simpa [visitDirs, hd, hq, hr] using h₂
    · simpa [visitDirs, hd] using visitDirs_keeps visitDir es t hrest ht

/-- A visit of a directory the pass stands at keeps the kept node, at any depth: the listed
entries are known in `v`, so each subdirectory is visited standing at it and each file is
handled with its path leading to it. -/
theorem visit_keeps
    (hkeep : p.manifest.contains ("/".intercalate names) = true ∨
      p.manifest.isAncestor ("/".intercalate names) = true) :
    ∀ (depth : Nat) (top : Bool) (Q : String) (ds : List String) (t : Trace),
      p.PathAt v base Q ds → Keeps v (base ++ names) x t.volume →
      Keeps v (base ++ names) x (p.visit depth top Q t).1.volume
  | 0, _, _, _, _, _, ht => ht
  | depth + 1, top, Q, ds, t, hQ, ht => by
    simp only [Pass.visit]
    cases hl : p.list t Q with
    | error msg =>
      cases top <;> simpa [hl] using ht
    | ok entries =>
      simp only
      have hE := Pass.listDir_of_list hl
      have hvis : ∀ e ∈ entries, e.2.isDir = true → ∀ t' : Trace,
          Keeps v (base ++ names) x t'.volume →
          Keeps v (base ++ names) x (p.visit depth false (join Q e.1) t').1.volume :=
        fun e he hd t' ht' ↦
          visit_keeps hkeep depth false (join Q e.1) (ds ++ [e.1]) t'
            ((hQ.listed ht hE he).2.2 hd) ht'
      -- the listing is recorded; the volume is as it was
      have h₁ := visitDirs_keeps (fun n t ↦ p.visit depth false (join Q n) t) entries
        (t.made ⟨.list, Q, none⟩) hvis ht
      rcases hq : visitDirs (fun n t ↦ p.visit depth false (join Q n) t) entries
        (t.made ⟨.list, Q, none⟩) with ⟨t₁, d⟩
      rw [hq] at h₁
      have hfiles : ∀ e ∈ entries.filter (fun e ↦ !e.2.isDir),
          ValidName e.1 ∧ (byteLength (join Q e.1) < pathMax →
            v.locate "/" (join Q e.1) false = .ok (base ++ ds ++ [e.1])) :=
        fun e he ↦
          let hl := hQ.listed ht hE (List.mem_filter.mp he).1
          ⟨hl.1, hl.2.1⟩
      have h₂ := handleFiles_keeps hkeep hQ _ t₁ hfiles h₁
      rcases hr : p.handleFiles Q (entries.filter fun e ↦ !e.2.isDir) t₁ with ⟨t₂, f⟩
      rw [hr] at h₂
      simp only
      split
      · exact h₂
      · split
        · simpa using h₂
        · exact removeDir_keeps h₂ Q

end Steps

/-- A pass over a tidy volume never removes an entry other than a directory whose path relative
to the root the manifest keeps, nor changes it: whatever links, refusals and failures the pass
meets, the entry is still there afterwards. -/
theorem reconcile_keeps_kept_entries {v w : Volume} {refusals : List Refusal}
    {manifest : Manifest} {root : String} {minDepth : Int} {dryRun : Bool}
    {journal : Logging.Journal} {report : Report} {base names : List String} {x : Node}
    (hT : v.Tidy) (hroot : v.locate "/" (absolute "/" root) true = .ok base)
    (hx : v.node? (base ++ names) = some x) (hxd : x.isDir = false)
    (hkeep : manifest.contains ("/".intercalate names) = true ∨
      manifest.isAncestor ("/".intercalate names) = true)
    (h : reconcile v refusals manifest root minDepth dryRun = .ok (w, journal, report)) :
    w.node? (base ++ names) = some x := by
  let p : Pass := ⟨manifest, absolute "/" root, dryRun, refusals⟩
  unfold reconcile reconcileTrace at h
  split at h
  · cases h
  · split at h
    · cases h
    · simp only [Except.map, Except.ok.injEq, Prod.mk.injEq] at h
      obtain ⟨hw, -⟩ := h
      rw [← hw]
      have hQ : p.PathAt v base p.root [] := Pass.PathAt.root (isAbs_absolute_slash root) hroot
      exact (visit_keeps (p := p) hkeep _ true p.root [] ⟨v, [], [], [], [], []⟩ hQ
        (Keeps.start hT hx hxd)).kept

end TorrentPrune.Prune
