import TorrentPrune.Proofs.Prune.Keeping

/-!
# What a report accounts for

A pass that removes for real records each removal and each failure as it goes. The record is
exact, whatever the tree, the manifest and the refused calls (`reconcile_reports_exactly`):

* an entry of the tree is gone afterwards exactly when its relative path is among the deleted
  files (anything but a directory) or the deleted directories;
* no relative path is recorded twice;
* every failed call leaves its entry in place, so every failure names an entry that still exists;
* the failures are, in call order, one for each failed call, except a directory removal refused
  because the directory is not empty or something exists there, which keeps it silently.

The argument is an invariant of the trace (`Ledger`) that each call of the pass keeps. Calls
resolve paths spelled from the root's path and listed names, which lead where they led at the
start (`Pass.PathAt`), so a removal that succeeds removes the entry its names spell. Distinct
names spell distinct relative paths, so a record is new as long as the pass has not yet reached
its entry: for the entries it has not reached (`O`), the invariant keeps that nothing is recorded
for them and that they stand, or not, as they stood.
-/

namespace TorrentPrune.Prune

open TorrentPrune.Fs TorrentPrune.Path

/-- The failure a call leaves in the report of a pass over `root`: one for each failed call,
except a directory removal refused because the directory is not empty or something exists
there. -/
def failureOf (root : String) (c : CallMade) : Option Failure :=
  match c.failure with
  | none => none
  | some (n, msg) =>
    if c.call == .removeDir && (n == ENOTEMPTY || n == EEXIST) then none
    else some ⟨relative "/" c.path root, msg⟩

/-- The deleted directories, or the deleted files. -/
def Trace.deleted (t : Trace) (dir : Bool) : List String :=
  if dir then t.deletedDirs else t.deletedFiles

/-- Every relative path a trace records: deleted files, deleted directories, failures. -/
def Trace.rels (t : Trace) : List String :=
  t.deletedFiles ++ t.deletedDirs ++ t.failures.map Failure.relPath

/-- Names that lead from the root to an entry below it. -/
def Inner (ds : List String) : Prop := ds ≠ [] ∧ ∀ d ∈ ds, ValidName d

/-- What a finished pass over `v` from the directory `root` reports, against what it did: the
entries gone from the tree are the ones reported deleted, under their kinds; no relative path is
reported twice; every failed call leaves its entry in place, so every failure names an entry that
still exists; and the failures are the failed calls, in order, but for the silent ones. The
entries below the root are those below the location its absolute path leads to. -/
structure ReportsExactly (v : Volume) (root : String) (t : Trace) : Prop where
  gone : ∀ L x, v.node? L = some x →
    (t.volume.node? L = none ↔ ∃ base ds, v.locate "/" (absolute "/" root) true = .ok base ∧
      ds ≠ [] ∧ L = base ++ ds ∧ "/".intercalate ds ∈ t.deleted x.isDir)
  deleted : ∀ b, ∀ r ∈ t.deleted b, ∃ base ds x,
    v.locate "/" (absolute "/" root) true = .ok base ∧ ds ≠ [] ∧ r = "/".intercalate ds ∧
      v.node? (base ++ ds) = some x ∧ x.isDir = b
  nodup : t.rels.Nodup
  stays : ∀ c ∈ t.calls, c.failure.isSome →
    (relative "/" c.path (absolute "/" root) = "." ∧ t.volume.isDir "/" root = true) ∨
      ∃ base ds, v.locate "/" (absolute "/" root) true = .ok base ∧ ds ≠ [] ∧
        relative "/" c.path (absolute "/" root) = "/".intercalate ds ∧
        (t.volume.node? (base ++ ds)).isSome
  failures : t.failures = t.calls.filterMap (failureOf (absolute "/" root))

section Records

variable {root : String} {c : CallMade} {f : Failure} {t : Trace}

/-- A call that did not fail leaves no failure. -/
theorem failureOf_of_none (h : c.failure = none) : failureOf root c = none := by
  simp [failureOf, h]

/-- A failure left by a call names the call's path relative to the root. -/
theorem failureOf_relPath (h : failureOf root c = some f) :
    c.failure.isSome ∧ f.relPath = relative "/" c.path root := by
  unfold failureOf at h
  cases hcf : c.failure with
  | none => simp [hcf] at h
  | some e =>
    obtain ⟨n, msg⟩ := e
    simp only [hcf] at h
    refine ⟨rfl, ?_⟩
    split at h
    · cases h
    · -- read the projection off by `dsimp`: unifying it would unfold `relative`
      have hf := Option.some.inj h
      subst hf
      dsimp only

/-- A recorded failure comes from a failed call, and names that call's path. -/
theorem exists_call_of_failure (h : t.failures = t.calls.filterMap (failureOf root))
    (hf : f ∈ t.failures) :
    ∃ c ∈ t.calls, c.failure.isSome ∧ f.relPath = relative "/" c.path root := by
  rw [h] at hf
  obtain ⟨c, hc, hcf⟩ := List.mem_filterMap.mp hf
  exact ⟨c, hc, failureOf_relPath hcf⟩

/-- The recorded relative paths, with the deleted ones by kind. -/
theorem Trace.rels_eq (t : Trace) :
    t.rels = t.deleted false ++ t.deleted true ++ t.failures.map Failure.relPath := rfl

end Records

section Names

/-- Names of entries that join to the same relative path are the same names. -/
theorem Inner.intercalate_inj {ds ds' : List String} (h : Inner ds) (h' : Inner ds')
    (heq : "/".intercalate ds = "/".intercalate ds') : ds = ds' :=
  Path.intercalate_inj (fun d hd ↦ ⟨(h.2 d hd).1, (h.2 d hd).2.2.2.1⟩)
    (fun d hd ↦ ⟨(h'.2 d hd).1, (h'.2 d hd).2.2.2.1⟩) h.1 h'.1 heq

/-- Valid names followed by one more lead to an entry below the root. -/
theorem Inner.snoc {ds : List String} (hds : ∀ d ∈ ds, ValidName d) {n : String}
    (hn : ValidName n) : Inner (ds ++ [n]) := by
  refine ⟨by simp, fun d hd ↦ ?_⟩
  rcases List.mem_append.mp hd with hd | hd
  · exact hds d hd
  · rw [List.mem_singleton.mp hd]
    exact hn

/-- The entry one name below a directory is not reached through a sibling of another name. -/
theorem not_prefix_sibling (ds : List String) {n n' : String} (h : n ≠ n') (m : List String) :
    ¬ (ds ++ [n]) <+: (ds ++ [n'] ++ m) := by
  simp [List.append_assoc, List.prefix_append_right_inj, h]

variable {p : Pass} {v : Volume} {base : Loc} {Q : String} {ds : List String}

/-- Below the root, the directory the pass stands at has the relative path its names spell. -/
theorem Pass.PathAt.rel_eq (hQ : p.PathAt v base Q ds) (hne : ds ≠ []) :
    p.rel Q = "/".intercalate ds :=
  relative_eq_of_components hQ.parts hne hQ.names

end Names

/-- What a pass over `v`, whose root leads to `base`, has accounted for so far. The entries gone
are recorded deleted under their kinds, each recorded deletion is of an entry gone, every failed
call left its entry in place, no relative path is recorded twice, and the failures are the failed
calls but for the silent ones. For the entries still open (`O`) nothing is recorded, no call on
them failed, and they stand, or not, as they stood. -/
structure Ledger (p : Pass) (v : Volume) (base : Loc) (O : List String → Prop) (t : Trace) :
    Prop where
  tidy : t.volume.Tidy
  within : t.volume.Within v
  gone : ∀ L x, v.node? L = some x → t.volume.node? L = none →
    ∃ ds, ds ≠ [] ∧ L = base ++ ds ∧ "/".intercalate ds ∈ t.deleted x.isDir
  deleted : ∀ b, ∀ r ∈ t.deleted b, ∃ ds x, Inner ds ∧ r = "/".intercalate ds ∧
    v.node? (base ++ ds) = some x ∧ x.isDir = b ∧ t.volume.node? (base ++ ds) = none
  stays : ∀ c ∈ t.calls, c.failure.isSome →
    ∃ ds, Inner ds ∧ p.rel c.path = "/".intercalate ds ∧ (t.volume.node? (base ++ ds)).isSome
  nodup : t.rels.Nodup
  calls : t.failures = t.calls.filterMap (failureOf p.root)
  fresh : ∀ ds, O ds → Inner ds →
    "/".intercalate ds ∉ t.rels ∧
      (∀ c ∈ t.calls, c.failure.isSome → p.rel c.path ≠ "/".intercalate ds) ∧
      (t.volume.node? (base ++ ds)).isSome = (v.node? (base ++ ds)).isSome

section Ledger

variable {p : Pass} {v : Volume} {base : Loc} {O : List String → Prop} {t : Trace}

/-- A pass starts with nothing recorded and every entry open. -/
theorem Ledger.start (hT : v.Tidy) : Ledger p v base (fun _ ↦ True) ⟨v, [], [], [], [], []⟩ where
  tidy := hT
  within := Volume.Within.refl v
  gone := fun _ _ hx hnone ↦ by simp [hx] at hnone
  deleted := fun b r hr ↦ by cases b <;> simp [Trace.deleted] at hr
  stays := fun _ hc ↦ by simp at hc
  nodup := by simp [Trace.rels]
  calls := rfl
  fresh := fun _ _ _ ↦ ⟨by simp [Trace.rels], by simp, rfl⟩

/-- Closing entries keeps the ledger. -/
theorem Ledger.mono (h : Ledger p v base O t) {O' : List String → Prop} (hO : ∀ e, O' e → O e) :
    Ledger p v base O' t :=
  { h with fresh := fun e he hi ↦ h.fresh e (hO e he) hi }

/-- A record in the journal keeps the ledger. -/
theorem Ledger.note (h : Ledger p v base O t) (r : Logging.LogRecord) :
    Ledger p v base O (t.note r) :=
  ⟨h.tidy, h.within, h.gone, h.deleted, h.stays, h.nodup, h.calls, h.fresh⟩

/-- A call that succeeds without changing the volume keeps the ledger. -/
theorem Ledger.made (h : Ledger p v base O t) {c : CallMade} (hc : c.failure = none) :
    Ledger p v base O (t.made c) where
  tidy := h.tidy
  within := h.within
  gone := h.gone
  deleted := h.deleted
  stays := fun c' hc' hf ↦ by
    rcases List.mem_append.mp hc' with hc' | hc'
    · exact h.stays c' hc' hf
    · rw [List.mem_singleton.mp hc', hc] at hf
      cases hf
  nodup := h.nodup
  calls := by
    simp only [Trace.made, List.filterMap_append, ← h.calls]
    simp [failureOf_of_none hc]
  fresh := fun e he hi ↦ by
    obtain ⟨h₁, h₂, h₃⟩ := h.fresh e he hi
    refine ⟨h₁, fun c' hc' hf ↦ ?_, h₃⟩
    rcases List.mem_append.mp hc' with hc' | hc'
    · exact h₂ c' hc' hf
    · rw [List.mem_singleton.mp hc', hc] at hf
      cases hf

/-- A failed call on an open entry that stands keeps the ledger, once the entry is closed:
the volume is as it was, and the failure it leaves, if any, is new. -/
theorem Ledger.failed (h : Ledger p v base O t) {ds : List String} (hds : Inner ds) (hO : O ds)
    (hx : (v.node? (base ++ ds)).isSome) {c : CallMade}
    (hrel : p.rel c.path = "/".intercalate ds) {t' : Trace} (hvol : t'.volume = t.volume)
    (hdel : ∀ b, t'.deleted b = t.deleted b)
    (hfail : t'.failures = t.failures ++ (failureOf p.root c).toList)
    (hcalls : t'.calls = t.calls ++ [c]) :
    Ledger p v base (fun e ↦ O e ∧ e ≠ ds) t' := by
  obtain ⟨hnew, -, hsome⟩ := h.fresh ds hO hds
  -- the failure left, if any, names the entry
  have hleft : ∀ r ∈ (failureOf p.root c).toList.map Failure.relPath, r = "/".intercalate ds := by
    intro r hr
    obtain ⟨f, hf, rfl⟩ := List.mem_map.mp hr
    rw [← hrel]
    exact (failureOf_relPath (Option.mem_toList.mp hf)).2
  have hrels : t'.rels = t.rels ++ (failureOf p.root c).toList.map Failure.relPath := by
    rw [Trace.rels_eq, Trace.rels_eq t, hdel, hdel, hfail, List.map_append]
    simp only [List.append_assoc]
  refine ⟨hvol ▸ h.tidy, hvol ▸ h.within, ?_, ?_, ?_, ?_, ?_, ?_⟩
  · intro L x hxL hnone
    rw [hvol] at hnone
    rw [hdel]
    exact h.gone L x hxL hnone
  · intro b r hr
    rw [hdel] at hr
    rw [hvol]
    exact h.deleted b r hr
  · intro c' hc' hf
    rw [hvol]
    rw [hcalls] at hc'
    rcases List.mem_append.mp hc' with hc' | hc'
    · exact h.stays c' hc' hf
    · rw [List.mem_singleton.mp hc']
      exact ⟨ds, hds, hrel, hsome ▸ hx⟩
  · rw [hrels, List.nodup_append]
    refine ⟨h.nodup, ?_, ?_⟩
    · cases failureOf p.root c <;> simp
    · intro a ha b hb hab
      rw [hleft b hb] at hab
      exact hnew (hab ▸ ha)
  · rw [hfail, hcalls, List.filterMap_append, ← h.calls]
    cases hf : failureOf p.root c <;> simp [hf]
  · rintro e ⟨hOe, hne⟩ he
    obtain ⟨h₁, h₂, h₃⟩ := h.fresh e hOe he
    have hdiff : "/".intercalate ds ≠ "/".intercalate e :=
      fun heq ↦ hne (Inner.intercalate_inj hds he heq).symm
    refine ⟨?_, ?_, hvol ▸ h₃⟩
    · rw [hrels]
      intro hmem
      rcases List.mem_append.mp hmem with hmem | hmem
      · exact h₁ hmem
      · exact hdiff (hleft _ hmem).symm
    · intro c' hc' hf
      rw [hcalls] at hc'
      rcases List.mem_append.mp hc' with hc' | hc'
      · exact h₂ c' hc' hf
      · rw [List.mem_singleton.mp hc', hrel]
        exact hdiff

/-- Recording one more deletion adds its relative path to the recorded ones. -/
theorem Trace.rels_perm_of_deleted {t t' : Trace} {k : Bool} {r : String}
    (hdel : ∀ b, t'.deleted b = t.deleted b ++ if b = k then [r] else [])
    (hfail : t'.failures = t.failures) : t'.rels.Perm (r :: t.rels) := by
  rw [Trace.rels_eq, Trace.rels_eq t, hdel, hdel, hfail]
  cases k
  · simp [List.perm_middle]
  · simpa using (List.perm_middle.append_left _).trans List.perm_middle

/-- Removing an open entry that is a leaf keeps the ledger, once everything at or below it is
closed: the entry is gone and recorded deleted under its kind, and every other location holds a
node or not as before. -/
theorem Ledger.erase (h : Ledger p v base O t) {ds : List String} (hds : Inner ds) (hO : O ds)
    {y : Node} (hy : t.volume.node? (base ++ ds) = some y) (hleaf : y.Leaf) {w : Volume}
    (he : t.volume.erase (base ++ ds) = some w) {c : CallMade} (hc : c.failure = none)
    {t' : Trace} (hvol : t'.volume = w)
    (hdel : ∀ b, t'.deleted b = t.deleted b ++ if b = y.isDir then ["/".intercalate ds] else [])
    (hfail : t'.failures = t.failures) (hcalls : t'.calls = t.calls ++ [c]) :
    Ledger p v base (fun e ↦ O e ∧ ¬ ds <+: e) t' := by
  obtain ⟨hnew, hcalled, -⟩ := h.fresh ds hO hds
  have hperm := Trace.rels_perm_of_deleted hdel hfail
  -- the node removed stood in `v` under the same kind
  obtain ⟨x, hx, hyx⟩ := h.within.node? hy
  have hkind : x.isDir = y.isDir := hyx.isDir_eq.symm
  subst hvol
  refine ⟨h.tidy.erase he, (Volume.Within.erase he).trans h.within, ?_, ?_, ?_, ?_, ?_, ?_⟩
  · intro L x' hxL hnone
    cases hL : t.volume.node? L with
    | none =>
      obtain ⟨ds', hne, rfl, hr⟩ := h.gone L x' hxL hL
      exact ⟨ds', hne, rfl, by rw [hdel]; exact List.mem_append_left _ hr⟩
    | some z =>
      -- only the erased location lost its node
      have hp : base ++ ds <+: L := by
        by_contra hp
        have hs := Volume.isSome_node?_erase he hp
        rw [hnone, hL] at hs
        cases hs
      have hLeq := Volume.eq_of_prefix_of_leaf hy hleaf hL hp
      subst hLeq
      rw [hx, Option.some.injEq] at hxL
      subst hxL
      exact ⟨ds, hds.1, rfl, by rw [hdel, hkind]; simp⟩
  · intro b r hr
    rw [hdel] at hr
    rcases List.mem_append.mp hr with hr | hr
    · obtain ⟨ds', x', hds', hr', hx', hb, hnone⟩ := h.deleted b r hr
      exact ⟨ds', x', hds', hr', hx', hb, (Volume.Within.erase he).node?_eq_none hnone⟩
    · by_cases hb : b = y.isDir
      · rw [if_pos hb, List.mem_singleton] at hr
        exact ⟨ds, x, hds, hr, hx, hkind.trans hb.symm, Volume.node?_erase_self he⟩
      · rw [if_neg hb] at hr
        cases hr
  · intro c' hc' hf
    rw [hcalls] at hc'
    rcases List.mem_append.mp hc' with hc' | hc'
    · obtain ⟨ds', hds', hrel', hsome⟩ := h.stays c' hc' hf
      refine ⟨ds', hds', hrel', ?_⟩
      by_cases hp : base ++ ds <+: base ++ ds'
      · -- a leaf has nothing below it, and no call on the removed entry had failed
        obtain ⟨z, hz⟩ := Option.isSome_iff_exists.mp hsome
        have hsame := List.append_cancel_left (Volume.eq_of_prefix_of_leaf hy hleaf hz hp)
        rw [hsame] at hcalled
        exact absurd hrel' (hcalled c' hc' hf)
      · rw [Volume.isSome_node?_erase he hp]
        exact hsome
    · rw [List.mem_singleton.mp hc', hc] at hf
      cases hf
  · rw [hperm.nodup_iff]
    exact List.nodup_cons.mpr ⟨hnew, h.nodup⟩
  · rw [hfail, hcalls, List.filterMap_append, ← h.calls]
    simp [failureOf_of_none hc]
  · rintro e ⟨hOe, hnp⟩ he'
    obtain ⟨h₁, h₂, h₃⟩ := h.fresh e hOe he'
    have hdiff : "/".intercalate ds ≠ "/".intercalate e := fun heq ↦
      hnp (Inner.intercalate_inj hds he' heq ▸ List.prefix_refl ds)
    refine ⟨?_, ?_, ?_⟩
    · rw [hperm.mem_iff, List.mem_cons]
      rintro (heq | hmem)
      · exact hdiff heq.symm
      · exact h₁ hmem
    · intro c' hc' hf
      rw [hcalls] at hc'
      rcases List.mem_append.mp hc' with hc' | hc'
      · exact h₂ c' hc' hf
      · rw [List.mem_singleton.mp hc', hc] at hf
        cases hf
    · rw [Volume.isSome_node?_erase he (by simpa [List.prefix_append_right_inj] using hnp)]
      exact h₃

end Ledger

section Prefixes

variable {ds e : List String}

/-- Whatever lies below an entry of a directory lies below the directory. -/
theorem not_prefix_child (h : ¬ ds <+: e) (n : String) : ¬ (ds ++ [n]) <+: e :=
  fun hp ↦ h ((List.prefix_append ds [n]).trans hp)

/-- An entry of a directory does not lie above the directory. -/
theorem not_child_prefix_self (n : String) : ¬ (ds ++ [n]) <+: ds := by
  intro hp
  have hlen := hp.length_le
  rw [List.length_append, List.length_singleton] at hlen
  omega

end Prefixes

section Steps

variable {p : Pass} {v : Volume} {base : Loc}

/-- Handling a file of the directory the pass stands at keeps the ledger, once the file is
closed: the file is kept, or removed and recorded deleted, or left in place with its failure. -/
theorem handleFile_ledger (hdry : p.dryRun = false) {Q : String} {ds : List String}
    (hQ : p.PathAt v base Q ds) {f : String} (hf : ValidName f)
    (hloc : byteLength (join Q f) < pathMax →
      v.locate "/" (join Q f) false = .ok (base ++ ds ++ [f]))
    (hx : (v.node? (base ++ ds ++ [f])).isSome) {O : List String → Prop} (hO : O (ds ++ [f]))
    {t : Trace} (h : Ledger p v base O t) :
    Ledger p v base (fun e ↦ O e ∧ ¬ (ds ++ [f]) <+: e) (p.handleFile t (join Q f)).1 := by
  have hin : Inner (ds ++ [f]) := Inner.snoc hQ.names hf
  have hrel : p.rel (join Q f) = "/".intercalate (ds ++ [f]) := hQ.rel_join hf
  rw [List.append_assoc] at hx hloc
  unfold Pass.handleFile
  by_cases hc : p.manifest.contains (p.rel (join Q f)) = true
  · rw [if_pos hc]
    exact h.mono fun e he ↦ he.1
  rw [if_neg hc]
  by_cases ha : p.manifest.isAncestor (p.rel (join Q f)) = true
  · rw [if_pos ha]
    exact (h.note _).mono fun e he ↦ he.1
  rw [if_neg ha, hdry]
  simp only [Bool.false_eq_true, if_false]
  cases hat : attempt (refusalOf p.refusals .removeFile (join Q f))
      (fun _ ↦ t.volume.unlink "/" (join Q f)) with
  | ok w =>
    obtain ⟨L, y, hL, hy, hyd, he⟩ := Volume.unlink_eq_ok (attempt_eq_ok hat)
    -- the unlink lands where the file's path led in `v`, the path having fit to be unlinked
    have hL' : L = base ++ (ds ++ [f]) :=
      Volume.locate_eq_of_within h.within hL (by simp [hy]) (hloc (Volume.walk_of_locate hL).2.1)
    subst hL'
    refine h.erase hin hO hy (Node.leaf_of_not_dir hyd) he (c := ⟨.removeFile, join Q f, none⟩)
      rfl rfl ?_ rfl rfl
    intro b
    cases b <;> simp [Trace.deleted, Trace.made, hyd, hrel]
  | error e =>
    obtain ⟨n, msg⟩ := e
    refine Ledger.mono (h.failed hin hO hx (c := ⟨.removeFile, join Q f, some (n, msg)⟩) hrel
      (by rfl) (fun _ ↦ by rfl) (by rfl) (by rfl)) ?_
    rintro e ⟨hOe, hnp⟩
    exact ⟨hOe, fun heq ↦ hnp (heq ▸ List.prefix_refl _)⟩

/-- Removing the directory the pass stands at keeps the ledger, once the directory is closed: it
is removed and recorded deleted, or left in place with its failure, or silently when it is not
empty. -/
theorem removeDir_ledger (hdry : p.dryRun = false) {Q : String} {ds : List String}
    (hQ : p.PathAt v base Q ds) (hne : ds ≠ [])
    (hloc : byteLength Q < pathMax → v.locate "/" Q false = .ok (base ++ ds))
    (hx : (v.node? (base ++ ds)).isSome) {O : List String → Prop} (hO : O ds) {t : Trace}
    (h : Ledger p v base O t) :
    Ledger p v base (fun e ↦ O e ∧ ¬ ds <+: e) (p.removeDir t Q).1 := by
  have hin : Inner ds := ⟨hne, hQ.names⟩
  have hrel := hQ.rel_eq hne
  have hclose : ∀ e, O e ∧ ¬ ds <+: e → O e ∧ e ≠ ds :=
    fun e he ↦ ⟨he.1, fun heq ↦ he.2 (heq ▸ List.prefix_refl _)⟩
  unfold Pass.removeDir
  rw [hdry]
  simp only [Bool.false_eq_true, if_false]
  cases hat : attempt (refusalOf p.refusals .removeDir Q) (fun _ ↦ t.volume.rmdir "/" Q) with
  | ok w =>
    obtain ⟨L, hL, hy, he⟩ := Volume.rmdir_eq_ok (attempt_eq_ok hat)
    have hL' : L = base ++ ds :=
      Volume.locate_eq_of_within h.within hL (by simp [hy]) (hloc (Volume.walk_of_locate hL).2.1)
    subst hL'
    refine h.erase hin hO hy Node.leaf_dir_nil he (c := ⟨.removeDir, Q, none⟩) rfl rfl ?_ rfl rfl
    intro b
    cases b <;> simp [Trace.deleted, Trace.made, Node.isDir, hrel]
  | error e =>
    obtain ⟨n, msg⟩ := e
    dsimp only
    split
    · next hsilent =>
      refine Ledger.mono (h.failed hin hO hx (c := ⟨.removeDir, Q, some (n, msg)⟩) hrel
        (by rfl) (fun _ ↦ by rfl) ?_ (by rfl)) hclose
      simp [Trace.note, Trace.made, failureOf, hsilent,
        show (Call.removeDir == Call.removeDir) = true from rfl]
    · next hloud =>
      refine Ledger.mono (h.failed hin hO hx (c := ⟨.removeDir, Q, some (n, msg)⟩) hrel
        (by rfl) (fun _ ↦ by rfl) ?_ (by rfl)) hclose
      simp [Trace.fail, Trace.note, Trace.made, failureOf, Pass.rel, hloud]

/-- Handling the files of the directory the pass stands at, in order, keeps the ledger, once
they are closed. -/
theorem handleFiles_ledger (hdry : p.dryRun = false) {Q : String} {ds : List String}
    (hQ : p.PathAt v base Q ds) :
    ∀ (fs : List (String × Node)) (O : List String → Prop) (t : Trace),
      (fs.map Prod.fst).Nodup →
      (∀ e ∈ fs, ValidName e.1 ∧ (byteLength (join Q e.1) < pathMax →
        v.locate "/" (join Q e.1) false = .ok (base ++ ds ++ [e.1])) ∧
        (v.node? (base ++ ds ++ [e.1])).isSome ∧ O (ds ++ [e.1])) →
      Ledger p v base O t →
      Ledger p v base (fun x ↦ O x ∧ ∀ e ∈ fs, ¬ (ds ++ [e.1]) <+: x) (p.handleFiles Q fs t).1
  | [], O, t, _, _, h => h.mono fun x hx ↦ hx.1
  | (n, z) :: fs, O, t, hnd, hfs, h => by
    obtain ⟨hn, hloc, hx, hO⟩ := hfs (n, z) List.mem_cons_self
    have hnd' := List.nodup_cons.mp hnd
    have h₁ := handleFile_ledger hdry hQ hn hloc hx hO h
    rcases hq : p.handleFile t (join Q n) with ⟨t₁, b⟩
    rw [hq] at h₁
    -- the later files are other entries, still open
    have hrest : ∀ e ∈ fs, ValidName e.1 ∧
        (byteLength (join Q e.1) < pathMax →
          v.locate "/" (join Q e.1) false = .ok (base ++ ds ++ [e.1])) ∧
        (v.node? (base ++ ds ++ [e.1])).isSome ∧ (O (ds ++ [e.1]) ∧ ¬ (ds ++ [n]) <+: (ds ++ [e.1])) := by
      intro e he
      obtain ⟨he₁, he₂, he₃, he₄⟩ := hfs e (List.mem_cons_of_mem _ he)
      have hne : n ≠ e.1 := by
        rintro rfl
        exact hnd'.1 (List.mem_map.mpr ⟨e, he, rfl⟩)
      exact ⟨he₁, he₂, he₃, he₄, by simpa using not_prefix_sibling ds hne []⟩
    have h₂ := handleFiles_ledger hdry hQ fs _ t₁ hnd'.2 hrest h₁
    rcases hr : p.handleFiles Q fs t₁ with ⟨t₂, k⟩
    rw [hr] at h₂
    simp only [Pass.handleFiles, hq, hr]
    exact h₂.mono fun x hx ↦
      ⟨⟨hx.1, hx.2 (n, z) List.mem_cons_self⟩, fun e he ↦ hx.2 e (List.mem_cons_of_mem _ he)⟩

/-- Visiting the subdirectories among listed entries, in order, keeps the ledger when each visit
does, once each visited subdirectory is closed with everything below it. -/
theorem visitDirs_ledger (ds : List String) (visitDir : String → Trace → Trace × Bool) :
    ∀ (es : List (String × Node)) (O : List String → Prop) (t : Trace),
      (es.map Prod.fst).Nodup →
      (∀ e ∈ es, e.2.isDir = true → ∀ (O' : List String → Prop) (t' : Trace),
        (∀ m, O' (ds ++ [e.1] ++ m)) → Ledger p v base O' t' →
        Ledger p v base (fun x ↦ O' x ∧ ¬ (ds ++ [e.1]) <+: x) (visitDir e.1 t').1) →
      (∀ e ∈ es, e.2.isDir = true → ∀ m, O (ds ++ [e.1] ++ m)) →
      Ledger p v base O t →
      Ledger p v base (fun x ↦ O x ∧ ∀ e ∈ es, e.2.isDir = true → ¬ (ds ++ [e.1]) <+: x)
        (visitDirs visitDir es t).1
  | [], O, t, _, _, _, h => h.mono fun x hx ↦ hx.1
  | (n, z) :: es, O, t, hnd, hvis, hO, h => by
    have hnd' := List.nodup_cons.mp hnd
    have hvis' : ∀ e ∈ es, e.2.isDir = true → ∀ (O' : List String → Prop) (t' : Trace),
        (∀ m, O' (ds ++ [e.1] ++ m)) → Ledger p v base O' t' →
        Ledger p v base (fun x ↦ O' x ∧ ¬ (ds ++ [e.1]) <+: x) (visitDir e.1 t').1 :=
      fun e he ↦ hvis e (List.mem_cons_of_mem _ he)
    by_cases hd : z.isDir = true
    · have h₁ := hvis (n, z) List.mem_cons_self hd O t (hO (n, z) List.mem_cons_self hd) h
      rcases hq : visitDir n t with ⟨t₁, gone⟩
      rw [hq] at h₁
      -- the later subdirectories are other entries, still open with everything below them
      have hO' : ∀ e ∈ es, e.2.isDir = true →
          ∀ m, O (ds ++ [e.1] ++ m) ∧ ¬ (ds ++ [n]) <+: (ds ++ [e.1] ++ m) := by
        intro e he hed m
        have hne : n ≠ e.1 := by
          rintro rfl
          exact hnd'.1 (List.mem_map.mpr ⟨e, he, rfl⟩)
        exact ⟨hO e (List.mem_cons_of_mem _ he) hed m, not_prefix_sibling ds hne m⟩
      have h₂ := visitDirs_ledger ds visitDir es _ t₁ hnd'.2 hvis' hO' h₁
      rcases hr : visitDirs visitDir es t₁ with ⟨t₂, k⟩
      rw [hr] at h₂
      simp only [visitDirs, hd, if_true, hq, hr]
      exact h₂.mono fun x hx ↦ ⟨⟨hx.1, hx.2 (n, z) List.mem_cons_self hd⟩,
        fun e he hed ↦ hx.2 e (List.mem_cons_of_mem _ he) hed⟩
    · have h₂ := visitDirs_ledger ds visitDir es O t hnd'.2 hvis'
        (fun e he ↦ hO e (List.mem_cons_of_mem _ he)) h
      simp only [visitDirs, hd, Bool.false_eq_true, if_false]
      exact h₂.mono fun x hx ↦ ⟨hx.1, fun e he hed ↦ hx.2 e (List.mem_cons_of_mem _ he) hed⟩

/-- Past a listing of the directory the pass stands at, visiting its subdirectories and handling
its files keeps the ledger when each visit of a subdirectory does, once everything strictly below
the directory is closed. -/
theorem listed_ledger (hdry : p.dryRun = false) {depth : Nat}
    (hvisit : ∀ (Q' : String) (ds' : List String) (O' : List String → Prop) (t' : Trace),
      p.PathAt v base Q' ds' → ds' ≠ [] →
      (byteLength Q' < pathMax → v.locate "/" Q' false = .ok (base ++ ds')) →
      (v.node? (base ++ ds')).isSome → (∀ m, O' (ds' ++ m)) → Ledger p v base O' t' →
      Ledger p v base (fun e ↦ O' e ∧ ¬ ds' <+: e) (p.visit depth false Q' t').1)
    {Q : String} {ds : List String} (hQ : p.PathAt v base Q ds) {O : List String → Prop}
    {t : Trace} {entries : List (String × Node)} (hE : t.volume.listDir "/" Q = .ok entries)
    (hO : ∀ m, O (ds ++ m)) (h : Ledger p v base O t) :
    Ledger p v base (fun x ↦ O x ∧ ∀ n, ¬ (ds ++ [n]) <+: x)
      (p.handleFiles Q (entries.filter fun e ↦ !e.2.isDir)
        (visitDirs (fun n t ↦ p.visit depth false (join Q n) t) entries t).1).1 := by
  have hE' := (h.tidy.dir (hQ.listing h.within hE))
  have hnd : (names entries).Nodup := nodup_of_sorted hE'.sorted
  -- what the listing says of each entry
  have hentry : ∀ e ∈ entries, ValidName e.1 ∧
      (byteLength (join Q e.1) < pathMax →
        v.locate "/" (join Q e.1) false = .ok (base ++ (ds ++ [e.1]))) ∧
      (v.node? (base ++ (ds ++ [e.1]))).isSome ∧
      (e.2.isDir = true → p.PathAt v base (join Q e.1) (ds ++ [e.1])) := by
    intro e he
    obtain ⟨hn, hz, hloc, hsub⟩ := hQ.entry h.tidy h.within hE he
    obtain ⟨x, hx, -⟩ := h.within.node? hz
    rw [List.append_assoc] at hx hloc
    exact ⟨hn, hloc, by simp [hx], hsub⟩
  have h₁ := visitDirs_ledger ds (fun n t ↦ p.visit depth false (join Q n) t) entries O t hnd
    (fun e he hd O' t' hO' h' ↦
      let ⟨_, hloc, hx, hsub⟩ := hentry e he
      hvisit (join Q e.1) (ds ++ [e.1]) O' t' (hsub hd) (by simp) hloc hx hO' h')
    (fun e _ _ m ↦ by simpa using hO ([e.1] ++ m)) h
  rcases hq : visitDirs (fun n t ↦ p.visit depth false (join Q n) t) entries t with ⟨t₁, d⟩
  rw [hq] at h₁
  -- a file is open: it is not a subdirectory, and names are not repeated
  have hfiles : ∀ e ∈ entries.filter (fun e ↦ !e.2.isDir), ValidName e.1 ∧
      (byteLength (join Q e.1) < pathMax →
        v.locate "/" (join Q e.1) false = .ok (base ++ ds ++ [e.1])) ∧
      (v.node? (base ++ ds ++ [e.1])).isSome ∧
      (O (ds ++ [e.1]) ∧ ∀ e' ∈ entries, e'.2.isDir = true → ¬ (ds ++ [e'.1]) <+: (ds ++ [e.1])) := by
    intro e he
    obtain ⟨hm, hnotdir⟩ := List.mem_filter.mp he
    obtain ⟨hn, hloc, hx, -⟩ := hentry e hm
    rw [← List.append_assoc] at hloc hx
    refine ⟨hn, hloc, hx, by simpa using hO [e.1], fun e' he' hd' ↦ ?_⟩
    have hne : e'.1 ≠ e.1 := by
      intro heq
      have hsame : e'.2 = e.2 := by
        have h₁ := findEntry_of_mem hnd he'
        have h₂ := findEntry_of_mem hnd hm
        rw [heq, h₂] at h₁
        exact (Option.some.inj h₁).symm
      rw [hsame] at hd'
      simp [hd'] at hnotdir
    simpa using not_prefix_sibling ds hne []
  have hnd' : ((entries.filter fun e ↦ !e.2.isDir).map Prod.fst).Nodup :=
    (List.filter_sublist.map Prod.fst).nodup hnd
  have h₂ := handleFiles_ledger hdry hQ _ _ t₁ hnd' hfiles h₁
  exact h₂.mono fun x hx ↦ ⟨⟨hx.1, fun e' _ _ ↦ hx.2 e'.1⟩, fun e _ ↦ hx.2 e.1⟩

/-- A visit of a directory below the root that the pass stands at keeps the ledger, once the
directory is closed with everything below it: its listing fails and is recorded, or it is
listed and its entries handled, and then it is removed when nothing remains in it. -/
theorem visit_ledger (hdry : p.dryRun = false) :
    ∀ (depth : Nat) (Q : String) (ds : List String) (O : List String → Prop) (t : Trace),
      p.PathAt v base Q ds → ds ≠ [] →
      (byteLength Q < pathMax → v.locate "/" Q false = .ok (base ++ ds)) →
      (v.node? (base ++ ds)).isSome → (∀ m, O (ds ++ m)) → Ledger p v base O t →
      Ledger p v base (fun e ↦ O e ∧ ¬ ds <+: e) (p.visit depth false Q t).1
  | 0, _, _, _, _, _, _, _, _, _, h => h.mono fun e he ↦ he.1
  | depth + 1, Q, ds, O, t, hQ, hne, hloc, hx, hO, h => by
    have hin : Inner ds := ⟨hne, hQ.names⟩
    have hrel := hQ.rel_eq hne
    have hopen : O ds := by simpa using hO []
    simp only [Pass.visit]
    cases hl : p.list t Q with
    | error e =>
      obtain ⟨n, msg⟩ := e
      simp only [Bool.false_eq_true, if_false]
      exact Ledger.mono (h.failed hin hopen hx (c := ⟨.list, Q, some (n, msg)⟩) hrel (by rfl)
        (fun _ ↦ by rfl) (by rfl) (by rfl))
        fun e he ↦ ⟨he.1, fun heq ↦ he.2 (heq ▸ List.prefix_refl _)⟩
    | ok entries =>
      simp only [Bool.false_eq_true, if_false]
      have hE : (t.made ⟨.list, Q, none⟩).volume.listDir "/" Q = .ok entries :=
        Pass.listDir_of_list hl
      have h₁ := listed_ledger hdry (visit_ledger hdry depth) hQ hE hO (h.made rfl)
      rcases hq : visitDirs (fun n t ↦ p.visit depth false (join Q n) t) entries
        (t.made ⟨.list, Q, none⟩) with ⟨t₁, dirsLeft⟩
      rw [hq] at h₁
      rcases hr : p.handleFiles Q (entries.filter fun e ↦ !e.2.isDir) t₁ with ⟨t₂, filesLeft⟩
      rw [hr] at h₁
      -- everything strictly below is closed; the directory itself is still open
      have hclose : ∀ e, O e ∧ ¬ ds <+: e → O e ∧ ∀ n, ¬ (ds ++ [n]) <+: e :=
        fun e he ↦ ⟨he.1, not_prefix_child he.2⟩
      simp only
      split
      · exact (h₁.note _).mono hclose
      · exact (removeDir_ledger hdry hQ hne hloc hx ⟨hopen, not_child_prefix_self⟩ h₁).mono
          fun e he ↦ ⟨hclose e he, he.2⟩

/-- The visit of the root, once its listing succeeds, keeps a ledger. -/
theorem visit_root_ledger (hdry : p.dryRun = false) (hT : v.Tidy)
    (hQ : p.PathAt v base p.root []) (depth : Nat) {entries : List (String × Node)}
    (hl : p.list ⟨v, [], [], [], [], []⟩ p.root = .ok entries) :
    ∃ O, Ledger p v base O (p.visit (depth + 1) true p.root ⟨v, [], [], [], [], []⟩).1 := by
  simp only [Pass.visit, hl, if_true]
  have hE : ((⟨v, [], [], [], [], []⟩ : Trace).made ⟨.list, p.root, none⟩).volume.listDir "/"
      p.root = .ok entries := Pass.listDir_of_list hl
  have h₁ := listed_ledger hdry (visit_ledger hdry depth) hQ hE (fun _ ↦ trivial)
    ((Ledger.start hT).made rfl)
  rcases hq : visitDirs (fun n t ↦ p.visit depth false (join p.root n) t) entries
    ((⟨v, [], [], [], [], []⟩ : Trace).made ⟨.list, p.root, none⟩) with ⟨t₁, dirsLeft⟩
  rw [hq] at h₁
  rcases hr : p.handleFiles p.root (entries.filter fun e ↦ !e.2.isDir) t₁ with ⟨t₂, filesLeft⟩
  rw [hr] at h₁
  exact ⟨_, h₁⟩

end Steps

section Report

/-- Every failure a report holds names an entry that still exists: the root, or an entry below
it. -/
theorem ReportsExactly.failed {v : Volume} {root : String} {t : Trace}
    (h : ReportsExactly v root t) :
    ∀ f ∈ t.failures, (f.relPath = "." ∧ t.volume.isDir "/" root = true) ∨
      ∃ base ds, v.locate "/" (absolute "/" root) true = .ok base ∧ ds ≠ [] ∧
        f.relPath = "/".intercalate ds ∧ (t.volume.node? (base ++ ds)).isSome := by
  intro f hf
  obtain ⟨c, hc, hfail, hrel⟩ := exists_call_of_failure h.failures hf
  rw [hrel]
  exact h.stays c hc hfail

/-- A record in the journal keeps an exact report exact. -/
theorem ReportsExactly.note {v : Volume} {root : String} {t : Trace} (h : ReportsExactly v root t)
    (r : Logging.LogRecord) : ReportsExactly v root (t.note r) :=
  ⟨h.gone, h.deleted, h.nodup, h.stays, h.failures⟩

variable {p : Pass} {v : Volume} {base : Loc} {O : List String → Prop} {t : Trace}

/-- The ledger of a finished pass whose root leads to `base` is an exact report. -/
theorem Ledger.reportsExactly {root : String} (h : Ledger p v base O t) (hT : v.Tidy)
    (hR : p.root = absolute "/" root) (hroot : v.locate "/" p.root true = .ok base) :
    ReportsExactly v root t := by
  rw [hR] at hroot
  refine ⟨fun L x hx ↦ ⟨fun hnone ↦ ?_, ?_⟩, fun b r hr ↦ ?_, h.nodup, fun c hc hf ↦ ?_, ?_⟩
  · obtain ⟨ds, hne, rfl, hr⟩ := h.gone L x hx hnone
    exact ⟨base, ds, hroot, hne, rfl, hr⟩
  · rintro ⟨base', ds, hb, hne, rfl, hr⟩
    rw [hroot] at hb
    cases hb
    -- the recorded path is of these names, the only ones that spell it
    obtain ⟨ds', x', hds', heq, -, -, hnone⟩ := h.deleted x.isDir _ hr
    have hds : Inner ds := ⟨hne, hT.valid_of_node? hx⟩
    rw [Inner.intercalate_inj hds hds' heq]
    exact hnone
  · obtain ⟨ds, x, hds, hr', hx, hb, -⟩ := h.deleted b r hr
    exact ⟨base, ds, x, hroot, hds.1, hr', hx, hb⟩
  · obtain ⟨ds, hds, hrel, hs⟩ := h.stays c hc hf
    refine .inr ⟨base, ds, hroot, hds.1, ?_, hs⟩
    rw [← hR]
    exact hrel
  · rw [← hR]
    exact h.calls

/-- When the root cannot be listed, the pass records that one failure, as `.`, and changes
nothing. -/
theorem reportsExactly_of_root_unlisted {root : String} (hdir : v.isDir "/" root = true)
    {n : Nat} {msg warning : String} :
    ReportsExactly v root (((⟨v, [], [], [], [], []⟩ : Trace).made
      ⟨.list, absolute "/" root, some (n, msg)⟩).fail warning
        (relative "/" (absolute "/" root) (absolute "/" root)) msg) := by
  refine ⟨fun L x hx ↦ ?_, fun b r hr ↦ ?_, ?_, fun c hc hf ↦ ?_, ?_⟩
  · simp [Trace.fail, Trace.note, Trace.made, Trace.deleted, hx]
  · cases b <;> simp [Trace.fail, Trace.note, Trace.made, Trace.deleted] at hr
  · simp [Trace.rels, Trace.fail, Trace.note, Trace.made]
  · simp only [Trace.fail, Trace.note, Trace.made, List.nil_append, List.mem_singleton] at hc
    subst hc
    exact .inl ⟨relative_self _, hdir⟩
  · rfl

end Report

/-- A pass that removes for real accounts exactly for what it did, whatever the tree, the
manifest and the refused calls: once the root passes its checks the pass finishes, and its
report is exact (`ReportsExactly`). -/
theorem reconcile_reports_exactly {v : Volume} {refusals : List Refusal} {manifest : Manifest}
    {root : String} {minDepth : Int} (hT : v.Tidy)
    (hsafe : ensureSafe v "/" root minDepth = .ok ()) (hdir : v.isDir "/" root = true) :
    ∃ t, reconcileTrace v refusals manifest root minDepth false = .ok t ∧
      ReportsExactly v root t := by
  let p : Pass := ⟨manifest, absolute "/" root, false, refusals⟩
  have hvisit : ∀ depth, ReportsExactly v root
      (p.visit (depth + 1) true p.root ⟨v, [], [], [], [], []⟩).1 := by
    intro depth
    cases hl : p.list ⟨v, [], [], [], [], []⟩ p.root with
    | error e =>
      obtain ⟨n, msg⟩ := e
      simp only [Pass.visit, hl, if_true]
      exact reportsExactly_of_root_unlisted hdir
    | ok entries =>
      -- the listing found the directory the root leads to
      obtain ⟨base, hs⟩ := Volume.stat_of_listDir (Pass.listDir_of_list hl)
      obtain ⟨-, hroot, -⟩ := Volume.stat_eq_ok hs
      have hQ : p.PathAt v base p.root [] := Pass.PathAt.root (isAbs_absolute_slash root) hroot
      obtain ⟨O, h⟩ := visit_root_ledger rfl hT hQ depth hl
      exact h.reportsExactly hT rfl hroot
  unfold reconcileTrace
  simp only [hsafe, hdir, Bool.not_true, Bool.false_eq_true, if_false]
  exact ⟨_, rfl, (hvisit _).note _⟩

/-- The first case: a tree with one directory holding one file, pruned against an empty
manifest. -/
theorem reconcile_reports_exactly_one_file :
    (⟨[("a", .dir [("f", .file 0 [])])], 1⟩ : Volume).Tidy ∧
      ensureSafe ⟨[("a", .dir [("f", .file 0 [])])], 1⟩ "/" "/a" 0 = .ok () ∧
      (⟨[("a", .dir [("f", .file 0 [])])], 1⟩ : Volume).isDir "/" "/a" = true ∧
      ∃ t, reconcileTrace ⟨[("a", .dir [("f", .file 0 [])])], 1⟩ [] ⟨[]⟩ "/a" 0 false = .ok t ∧
        ReportsExactly ⟨[("a", .dir [("f", .file 0 [])])], 1⟩ "/a" t := by
  have hv : (⟨[("a", .dir [("f", .file 0 [])])], 1⟩ : Volume).Tidy := by decide
  have hsafe : ensureSafe ⟨[("a", .dir [("f", .file 0 [])])], 1⟩ "/" "/a" 0 = .ok () := rfl
  have hdir : (⟨[("a", .dir [("f", .file 0 [])])], 1⟩ : Volume).isDir "/" "/a" = true := by
    decide
  exact ⟨hv, hsafe, hdir, reconcile_reports_exactly hv hsafe hdir⟩

end TorrentPrune.Prune
