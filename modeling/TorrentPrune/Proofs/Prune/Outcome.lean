import TorrentPrune.Proofs.Prune.Rule

/-!
# A pass leaves what the rule leaves

A pass over a tidy volume whose root path is steady removes exactly what `Pass.prunedVolume`
says, whatever calls are refused (`reconcile_prunes_by_rule`).

The proof follows the pass one directory at a time. While the pass works on the directory at
`loc`, whose path `P` reaches it and which held `es` when the pass got there as volume `w₀`, the
volume is `w₀` with that directory holding `settle (p.leftAt P) done es`: the entries named in
`done` have met their fate by the rule, the others are as they were. Each file handled and each
subdirectory visited adds its name to `done`; when all are done, the directory holds
`p.leftIn P es`. A subdirectory is the same argument one level down, and the change it makes is
one change of its entry in the parent.
-/

namespace TorrentPrune.Prune

open TorrentPrune.Fs TorrentPrune.Path TorrentPrune.Logging

/-- Emitting a record leaves the volume as it is. -/
@[simp] theorem Trace.volume_note (t : Trace) (r : LogRecord) : (t.note r).volume = t.volume :=
  rfl

/-- Emitting a record leaves the calls made as they are. -/
@[simp] theorem Trace.calls_note (t : Trace) (r : LogRecord) : (t.note r).calls = t.calls := rfl

/-- Recording a failure leaves the volume as it is. -/
@[simp] theorem Trace.volume_fail (t : Trace) (warning rel error : String) :
    (t.fail warning rel error).volume = t.volume := rfl

/-- Recording a call leaves the volume as it is. -/
@[simp] theorem Trace.volume_made (t : Trace) (c : CallMade) : (t.made c).volume = t.volume := rfl

/-- A call that is not refused is not set to be refused, and its path fits. -/
theorem Pass.not_refused {p : Pass} {c : Call} {path : String} (h : p.refused c path = false) :
    refusalOf p.refusals c path = none ∧ byteLength path < pathMax := by
  simpa [Pass.refused] using h

/-- A refused call fails, given that the call fails on a path too long for the system. -/
theorem attempt_of_refused {p : Pass} {c : Call} {path : String} (h : p.refused c path = true)
    (call : Unit → Except CallError Volume)
    (hcall : pathMax ≤ byteLength path → ∃ e, call () = .error e) :
    ∃ e, attempt (refusalOf p.refusals c path) call = .error e := by
  unfold attempt
  cases hr : refusalOf p.refusals c path with
  | some e => exact ⟨_, rfl⟩
  | none =>
    have hlong : pathMax ≤ byteLength path := by simpa [Pass.refused, hr] using h
    obtain ⟨e, he⟩ := hcall hlong
    simp only [he]
    cases e <;> exact ⟨_, rfl⟩

/-- A refused listing fails, with an error that does not depend on the volume. -/
theorem Pass.list_of_listRefused {p : Pass} {P : String} (h : p.listRefused P = true) :
    ∃ e, ∀ t, p.list t P = .error e := by
  unfold Pass.list
  cases hr : refusalOf p.refusals .list P with
  | some e => exact ⟨_, fun _ ↦ rfl⟩
  | none =>
    have hlong : pathMax ≤ byteLength P := by
      simpa [Pass.listRefused, Pass.refused, hr] using h
    obtain ⟨e, he⟩ := Volume.listDir_of_too_long hlong
    cases e with
    | os e => exact ⟨(e.errno, e.message), fun t ↦ by simp only [he t.volume]⟩
    | nulByte => exact ⟨(EINVAL, "embedded null byte"), fun t ↦ by simp only [he t.volume]⟩

/-- A pass lists a directory its path reaches, unless listing it is refused. -/
theorem Pass.list_of_reaches {p : Pass} {t : Trace} {P : String} {loc : Loc}
    {E : List (String × Node)} (h : t.volume.Reaches P loc) (hL : t.volume.node? loc = some (.dir E))
    (hr : p.listRefused P = false) : p.list t P = .ok E := by
  have hnone := (Pass.not_refused hr).1
  simp [Pass.list, hnone, h.listDir hL]

section Level

variable {p : Pass} {w₀ : Volume} {P : String} {loc : Loc} {es : List (String × Node)}
  {done : List String} {t : Trace}

/-- While a directory is worked on, its path still reaches it and it holds the settled
entries. -/
theorem reaches_of_settled (hR : w₀.Reaches P loc)
    (ht : w₀.updateDir loc (fun _ ↦ settle (p.leftAt P) done es) = some t.volume) :
    t.volume.Reaches P loc ∧ t.volume.node? loc = some (.dir (settle (p.leftAt P) done es)) := by
  obtain ⟨_, -, hL⟩ := Volume.node?_of_updateDir ht
  exact ⟨hR.updateDir ht, hL⟩

/-- An entry not yet handled is found as it was. -/
theorem findEntry_settle_of_mem (hT : EntriesTidy es) {n : String} {x : Node} (hm : (n, x) ∈ es)
    (hn : n ∉ done) : findEntry (settle (p.leftAt P) done es) n = some x := by
  rw [findEntry_settle_of_not_mem _ es hn]
  exact findEntry_of_mem (nodup_of_sorted hT.sorted) hm

/-- The settled entries carry distinct names in ascending order. -/
theorem settle_sorted (hT : EntriesTidy es) :
    (names (settle (p.leftAt P) done es)).Pairwise (· < ·) :=
  hT.sorted.sublist (names_settle_sublist _ done es)

/-- An entry that stays as it is settles without a change of the volume. -/
theorem settled_of_kept (hT : EntriesTidy es) {n : String} {x : Node} (hm : (n, x) ∈ es)
    (hn : n ∉ done) (hk : p.leftAt P (n, x) = some x)
    (ht : w₀.updateDir loc (fun _ ↦ settle (p.leftAt P) done es) = some t.volume) :
    w₀.updateDir loc (fun _ ↦ settle (p.leftAt P) (n :: done) es) = some t.volume := by
  rw [← setEntry_settle _ (nodup_of_sorted hT.sorted) hm hn, hk,
    setEntry_of_findEntry (nodup_of_sorted (settle_sorted hT)) (findEntry_settle_of_mem hT hm hn)]
  exact ht

/-- Handling one file of a listed directory settles it by the rule, and tells whether it
remains. -/
theorem handleFile_settles (hdry : p.dryRun = false) (hR : w₀.Reaches P loc)
    (hT : EntriesTidy es) {n : String} {x : Node} (hm : (n, x) ∈ es) (hx : x.isDir = false)
    (hn : n ∉ done) (ht : w₀.updateDir loc (fun _ ↦ settle (p.leftAt P) done es) = some t.volume) :
    w₀.updateDir loc (fun _ ↦ settle (p.leftAt P) (n :: done) es) =
        some (p.handleFile t (join P n)).1.volume ∧
      (p.handleFile t (join P n)).2 = (p.leftAt P (n, x)).isSome := by
  have hrule : p.leftAt P (n, x) = if p.keeps (join P n) ||
      p.refused .removeFile (join P n) then some x else none :=
    leftOf_of_not_dir p (join P n) hx
  -- a file that stays leaves the volume as it is
  have kept : p.leftAt P (n, x) = some x →
      w₀.updateDir loc (fun _ ↦ settle (p.leftAt P) (n :: done) es) = some t.volume :=
    fun hk ↦ settled_of_kept hT hm hn hk ht
  unfold Pass.handleFile
  by_cases hc : p.manifest.contains (p.rel (join P n)) = true
  · have hk : p.leftAt P (n, x) = some x := by simp [hrule, Pass.keeps, hc]
    simp only [hc, if_true]
    exact ⟨kept hk, by simp [hk]⟩
  by_cases ha : p.manifest.isAncestor (p.rel (join P n)) = true
  · have hk : p.leftAt P (n, x) = some x := by simp [hrule, Pass.keeps, ha]
    simp only [hc, ha, if_true, Bool.false_eq_true, if_false, Trace.volume_note]
    exact ⟨kept hk, by simp [hk]⟩
  simp only [hc, ha, hdry, Bool.false_eq_true, if_false]
  cases hr : p.refused .removeFile (join P n) with
  | true =>
    have hk : p.leftAt P (n, x) = some x := by simp [hrule, hr]
    obtain ⟨⟨_, _⟩, he⟩ := attempt_of_refused hr (fun _ ↦ t.volume.unlink "/" (join P n))
      fun hlong ↦ Volume.unlink_of_too_long hlong
    simp only [he, Trace.volume_fail]
    exact ⟨kept hk, by simp [hk]⟩
  | false =>
    -- the file goes: unlinking it drops its name from the directory
    obtain ⟨hnone, hfit⟩ := Pass.not_refused hr
    have hgone : p.leftAt P (n, x) = none := by simp [hrule, Pass.keeps, hc, ha, hr]
    obtain ⟨hRt, hL⟩ := reaches_of_settled hR ht
    have hv : ValidName n := (hT.of_mem hm).1
    obtain ⟨w', hu, hw'⟩ :=
      hRt.unlink_join hL (findEntry_settle_of_mem hT hm hn) hx hv hfit
    refine ⟨?_, by simp [attempt, hnone, hu, hgone]⟩
    rw [← setEntry_settle _ (nodup_of_sorted hT.sorted) hm hn, hgone,
      ← dropEntry_eq_setEntry n (nodup_of_sorted (settle_sorted hT))]
    simpa [attempt, hnone, hu] using Volume.updateDir_const_then ht hw'

/-- Handling the files of a listed directory, in order, settles each by the rule and counts
those that remain. -/
theorem handleFiles_settles (hdry : p.dryRun = false) (hR : w₀.Reaches P loc)
    (hT : EntriesTidy es) (fs : List (String × Node)) (hfs : ∀ e ∈ fs, e ∈ es ∧ e.2.isDir = false)
    (hnd : (names fs).Nodup) (hdis : ∀ n ∈ names fs, n ∉ done)
    (ht : w₀.updateDir loc (fun _ ↦ settle (p.leftAt P) done es) = some t.volume) :
    w₀.updateDir loc (fun _ ↦ settle (p.leftAt P) (names fs ++ done) es) =
        some (p.handleFiles P fs t).1.volume ∧
      (p.handleFiles P fs t).2 = fs.countP fun e ↦ (p.leftAt P e).isSome := by
  induction fs generalizing done t with
  | nil => simpa [Pass.handleFiles] using ht
  | cons e fs ih =>
    obtain ⟨n, x⟩ := e
    have hm := hfs (n, x) List.mem_cons_self
    simp only [names_cons, List.nodup_cons] at hnd
    have hn : n ∉ done := hdis n List.mem_cons_self
    obtain ⟨h₁, hb⟩ := handleFile_settles hdry hR hT hm.1 hm.2 hn ht
    -- the first file settled, the others follow with its name done
    have hdis' : ∀ m ∈ names fs, m ∉ n :: done := by
      intro m hm' hmem
      rcases List.mem_cons.mp hmem with rfl | hd
      · exact hnd.1 hm'
      · exact hdis m (List.mem_cons_of_mem _ hm') hd
    obtain ⟨h₂, hc⟩ := ih (fun e he ↦ hfs e (List.mem_cons_of_mem _ he)) hnd.2 hdis' h₁
    have hset : settle (p.leftAt P) (names ((n, x) :: fs) ++ done) es =
        settle (p.leftAt P) (names fs ++ n :: done) es :=
      settle_congr _ es fun m _ ↦ by simp [or_left_comm]
    rcases hq : p.handleFile t (join P n) with ⟨t₁, b₁⟩
    rcases hr : p.handleFiles P fs t₁ with ⟨t₂, k⟩
    rw [hq] at h₁ hb
    rw [hq] at h₂ hc
    rw [hr] at h₂ hc
    simp only [Pass.handleFiles, hq, hr, hset, List.countP_cons]
    refine ⟨h₂, ?_⟩
    simp only at hb hc
    subst hb hc
    cases p.leftAt P (n, x) <;> simp

/-- The names of the files of a directory are not names of its subdirectories. -/
theorem names_files_disjoint (hd : (names es).Nodup) :
    ∀ n ∈ names (es.filter fun e ↦ !e.2.isDir), n ∉ names (es.filter fun e ↦ e.2.isDir) := by
  intro n hf hdir
  simp only [names, List.mem_map, List.mem_filter] at hf hdir
  obtain ⟨⟨m, x⟩, ⟨hx, hxd⟩, rfl⟩ := hf
  obtain ⟨⟨m', y⟩, ⟨hy, hyd⟩, hmm⟩ := hdir
  simp only at hmm
  subst hmm
  have hxy : some x = some y := (findEntry_of_mem hd hx).symm.trans (findEntry_of_mem hd hy)
  simp only [Option.some.injEq] at hxy
  subst hxy
  simp_all

/-- What is left of a listed directory has one entry for each entry the rule keeps. -/
theorem length_leftIn (p : Pass) (P : String) (es : List (String × Node)) :
    (p.leftIn P es).length = es.countP fun e ↦ (p.leftAt P e).isSome := by
  rw [leftIn_eq_filterMap, List.length_filterMap_eq_countP]
  simp

/-- Once its subdirectories are settled, handling the files of a listed directory leaves in it
what the rule leaves, and the pass counts what is left. -/
theorem files_settle_rest (hdry : p.dryRun = false) (hR : w₀.Reaches P loc)
    (hT : EntriesTidy es)
    (h₁ : w₀.updateDir loc
      (fun _ ↦ settle (p.leftAt P) (names (es.filter fun e ↦ e.2.isDir)) es) = some t.volume) :
    w₀.updateDir loc (fun _ ↦ p.leftIn P es) =
        some (p.handleFiles P (es.filter fun e ↦ !e.2.isDir) t).1.volume ∧
      (es.filter fun e ↦ e.2.isDir).countP (fun e ↦ (p.leftAt P e).isSome) +
        (p.handleFiles P (es.filter fun e ↦ !e.2.isDir) t).2 = (p.leftIn P es).length := by
  have hnd := nodup_of_sorted hT.sorted
  obtain ⟨h₂, hc⟩ := handleFiles_settles hdry hR hT (es.filter fun e ↦ !e.2.isDir)
    (fun e he ↦ by simpa using List.mem_filter.mp he)
    (hnd.sublist (List.Sublist.map _ List.filter_sublist)) (names_files_disjoint hnd) h₁
  -- every name is done now, so the settled entries are what the rule leaves
  have hall : ∀ n ∈ names es,
      n ∈ names (es.filter fun e ↦ !e.2.isDir) ++ names (es.filter fun e ↦ e.2.isDir) := by
    intro n hn
    obtain ⟨⟨m, x⟩, hx, rfl⟩ := List.mem_map.mp hn
    rw [List.mem_append]
    cases hd : x.isDir
    · exact .inl (List.mem_map_of_mem (f := Prod.fst) (List.mem_filter.mpr ⟨hx, by simp [hd]⟩))
    · exact .inr (List.mem_map_of_mem (f := Prod.fst) (List.mem_filter.mpr ⟨hx, by simp [hd]⟩))
  refine ⟨?_, ?_⟩
  · rw [leftIn_eq_filterMap, ← settle_of_forall_mem (p.leftAt P) hall]
    exact h₂
  · rw [hc, length_leftIn, List.countP_eq_countP_filter_add es _ fun e ↦ e.2.isDir]

/-- A subdirectory not yet visited holds what it held: giving it those entries changes
nothing. -/
theorem child_self (hT : EntriesTidy es) {n : String} {c : List (String × Node)}
    (hm : (n, .dir c) ∈ es) (hn : n ∉ done)
    (ht : w₀.updateDir loc (fun _ ↦ settle (p.leftAt P) done es) = some t.volume) :
    t.volume.updateDir (loc ++ [n]) (fun _ ↦ c) = some t.volume := by
  obtain ⟨_, -, hL⟩ := Volume.node?_of_updateDir ht
  have hfind : findEntry (settle (p.leftAt P) done es) n = some (.dir c) :=
    findEntry_settle_of_mem hT hm hn
  rw [Volume.updateDir_append _ hL hfind]
  obtain ⟨W, hW⟩ := Volume.exists_updateDir (putEntry n (.dir c)) hL
  have hsame := Volume.updateDir_const_then ht hW
  rw [putEntry_eq_setEntry _ (settle_sorted hT) (List.mem_map_of_mem (mem_of_findEntry hfind)),
    setEntry_of_findEntry (nodup_of_sorted (settle_sorted hT)) hfind, ht] at hsame
  obtain rfl : t.volume = W := Option.some.inj hsame
  exact hW

/-- A change inside a subdirectory not yet settled that leaves it the entries the rule leaves it
settles its entry. -/
theorem settled_of_child (hT : EntriesTidy es) {n : String} {c c' : List (String × Node)}
    (hm : (n, .dir c) ∈ es) (hn : n ∉ done)
    (ht : w₀.updateDir loc (fun _ ↦ settle (p.leftAt P) done es) = some t.volume)
    (hk : p.leftAt P (n, .dir c) = some (.dir c')) {t' : Trace}
    (hc : t.volume.updateDir (loc ++ [n]) (fun _ ↦ c') = some t'.volume) :
    w₀.updateDir loc (fun _ ↦ settle (p.leftAt P) (n :: done) es) = some t'.volume := by
  obtain ⟨_, -, hL⟩ := Volume.node?_of_updateDir ht
  have hfind : findEntry (settle (p.leftAt P) done es) n = some (.dir c) :=
    findEntry_settle_of_mem hT hm hn
  rw [Volume.updateDir_append _ hL hfind] at hc
  rw [← setEntry_settle _ (nodup_of_sorted hT.sorted) hm hn, hk,
    ← putEntry_eq_setEntry _ (settle_sorted hT) (List.mem_map_of_mem (mem_of_findEntry hfind))]
  exact Volume.updateDir_const_then ht hc

/-- Removing a listed subdirectory that the pass emptied settles its entry: it goes, unless
removing it is refused. -/
theorem removeDir_settles (hdry : p.dryRun = false) (hR : w₀.Reaches P loc)
    (hT : EntriesTidy es) {n : String} {c : List (String × Node)} (hm : (n, .dir c) ∈ es)
    (hn : n ∉ done) (ht : w₀.updateDir loc (fun _ ↦ settle (p.leftAt P) done es) = some t.volume)
    (hl : p.listRefused (join P n) = false) (hempty : p.leftIn (join P n) c = []) {t₂ : Trace}
    (h₂ : t.volume.updateDir (loc ++ [n]) (fun _ ↦ []) = some t₂.volume) :
    w₀.updateDir loc (fun _ ↦ settle (p.leftAt P) (n :: done) es) =
        some (p.removeDir t₂ (join P n)).1.volume ∧
      (p.removeDir t₂ (join P n)).2 = (p.leftAt P (n, .dir c)).isNone := by
  have hrule : p.leftAt P (n, .dir c) =
      if !p.refused .removeDir (join P n) then none else some (.dir []) := by
    simp [Pass.leftAt, leftOf_dir_of_listed p (join P n) hl, hempty]
  unfold Pass.removeDir
  simp only [hdry, Bool.false_eq_true, if_false]
  cases hr : p.refused .removeDir (join P n) with
  | true =>
    -- removing it is refused: it stays, empty
    have hk : p.leftAt P (n, .dir c) = some (.dir []) := by simp [hrule, hr]
    have hset := settled_of_child hT hm hn ht hk h₂
    obtain ⟨⟨_, _⟩, he⟩ := attempt_of_refused hr (fun _ ↦ t₂.volume.rmdir "/" (join P n))
      fun hlong ↦ Volume.rmdir_of_too_long hlong
    simp only [he]
    split <;> simpa [hk] using hset
  | false =>
    obtain ⟨hnone, hfit⟩ := Pass.not_refused hr
    have hk : p.leftAt P (n, .dir c) = none := by simp [hrule, hr]
    obtain ⟨_, -, hL⟩ := Volume.node?_of_updateDir ht
    have hfind : findEntry (settle (p.leftAt P) done es) n = some (.dir c) :=
      findEntry_settle_of_mem hT hm hn
    have hmem := List.mem_map_of_mem (f := Prod.fst) (mem_of_findEntry hfind)
    rw [Volume.updateDir_append _ hL hfind] at h₂
    obtain ⟨_, -, hL₂⟩ := Volume.node?_of_updateDir h₂
    have hv : ValidName n := (hT.of_mem hm).1
    obtain ⟨w', hrm, hw'⟩ :=
      ((hR.updateDir ht).updateDir h₂).rmdir_join hL₂ (findEntry_putEntry_self n _ _) hv hfit
    have h₄ := Volume.updateDir_const_then (Volume.updateDir_const_then ht h₂) hw'
    -- emptied and then dropped is dropped
    have hsorted : (names (settle (p.leftAt P) done es)).Pairwise (· < ·) := settle_sorted hT
    rw [putEntry_eq_setEntry _ hsorted hmem, dropEntry_eq_setEntry n
      ((hsorted.sublist (names_setEntry_sublist _ _ _)).imp String.ne_of_lt),
      setEntry_setEntry_some] at h₄
    refine ⟨?_, by simp [attempt, hnone, hrm, hk]⟩
    rw [← setEntry_settle _ (nodup_of_sorted hT.sorted) hm hn, hk]
    simpa [attempt, hnone, hrm] using h₄

/-- Visiting the subdirectories among some entries of a listed directory, in order, settles each
and counts those that are left, when visiting one settles it by the rule. -/
theorem visitDirs_settles {visitDir : String → Trace → Trace × Bool}
    (hvis : ∀ n c done t, (n, .dir c) ∈ es → n ∉ done →
      w₀.updateDir loc (fun _ ↦ settle (p.leftAt P) done es) = some t.volume →
      w₀.updateDir loc (fun _ ↦ settle (p.leftAt P) (n :: done) es) =
          some (visitDir n t).1.volume ∧
        (visitDir n t).2 = (p.leftAt P (n, .dir c)).isNone)
    (rest : List (String × Node)) (hsub : ∀ e ∈ rest, e ∈ es) (hnd : (names rest).Nodup)
    (hdis : ∀ n ∈ names rest, n ∉ done)
    (ht : w₀.updateDir loc (fun _ ↦ settle (p.leftAt P) done es) = some t.volume) :
    w₀.updateDir loc
        (fun _ ↦ settle (p.leftAt P) (names (rest.filter fun e ↦ e.2.isDir) ++ done) es) =
        some (visitDirs visitDir rest t).1.volume ∧
      (visitDirs visitDir rest t).2 =
        (rest.filter fun e ↦ e.2.isDir).countP fun e ↦ (p.leftAt P e).isSome := by
  induction rest generalizing done t with
  | nil => simpa [visitDirs] using ht
  | cons e rest ih =>
    obtain ⟨n, x⟩ := e
    simp only [names_cons, List.nodup_cons] at hnd
    have hm := hsub (n, x) List.mem_cons_self
    have hsub' : ∀ e ∈ rest, e ∈ es := fun e he ↦ hsub e (List.mem_cons_of_mem _ he)
    cases x with
    | dir c =>
      have hn : n ∉ done := hdis n List.mem_cons_self
      obtain ⟨h₁, hg⟩ := hvis n c done t hm hn ht
      -- the subdirectory settled, the others follow with its name done
      have hdis' : ∀ m ∈ names rest, m ∉ n :: done := by
        intro m hm' hmem
        rcases List.mem_cons.mp hmem with rfl | hd
        · exact hnd.1 hm'
        · exact hdis m (List.mem_cons_of_mem _ hm') hd
      obtain ⟨h₂, hc⟩ := ih hsub' hnd.2 hdis' h₁
      have hset : settle (p.leftAt P)
          (names (((n, .dir c) :: rest).filter fun e ↦ e.2.isDir) ++ done) es =
          settle (p.leftAt P) (names (rest.filter fun e ↦ e.2.isDir) ++ n :: done) es :=
        settle_congr _ es fun m _ ↦ by simp [Node.isDir, or_left_comm]
      rcases hq : visitDir n t with ⟨t₁, gone⟩
      rcases hr : visitDirs visitDir rest t₁ with ⟨t₂, k⟩
      rw [hq] at h₁ hg
      rw [hq] at h₂ hc
      rw [hr] at h₂ hc
      simp only at hg hc
      rw [hset]
      simp only [visitDirs, Node.isDir, if_true, hq, hr]
      refine ⟨h₂, ?_⟩
      subst hg hc
      cases h : p.leftAt P (n, .dir c) <;> simp [Node.isDir, h]
    | file id content =>
      simpa [visitDirs, Node.isDir] using
        ih hsub' hnd.2 (fun m hm' ↦ hdis m (List.mem_cons_of_mem _ hm')) ht
    | link target =>
      simpa [visitDirs, Node.isDir] using
        ih hsub' hnd.2 (fun m hm' ↦ hdis m (List.mem_cons_of_mem _ hm')) ht

end Level

section Pass

variable {p : Pass}

/-- Visiting a subdirectory of a listed directory, with depth to spare for the tree below it,
settles its entry by the rule and tells whether it is gone. -/
theorem visit_settles (hdry : p.dryRun = false) (depth : Nat) :
    ∀ (c : List (String × Node)) (w₀ : Volume) (P : String) (loc : Loc)
      (es : List (String × Node)) (done : List String) (n : String) (t : Trace),
      entriesHeight c < depth → w₀.Reaches P loc → EntriesTidy es → (n, .dir c) ∈ es →
      n ∉ done → w₀.updateDir loc (fun _ ↦ settle (p.leftAt P) done es) = some t.volume →
      w₀.updateDir loc (fun _ ↦ settle (p.leftAt P) (n :: done) es) =
          some (p.visit depth false (join P n) t).1.volume ∧
        (p.visit depth false (join P n) t).2 = (p.leftAt P (n, .dir c)).isNone := by
  -- each level of the tree takes one unit of depth
  induction depth with
  | zero => intro c _ _ _ _ _ _ _ hc; omega
  | succ depth ih =>
    intro c w₀ P loc es done n t hc hR hT hm hn ht
    obtain ⟨hRt, hL⟩ := reaches_of_settled hR ht
    have hfind : findEntry (settle (p.leftAt P) done es) n = some (.dir c) :=
      findEntry_settle_of_mem hT hm hn
    have hv : ValidName n := (hT.of_mem hm).1
    have hTc : EntriesTidy c := (hT.of_mem hm).2
    have hLc : t.volume.node? (loc ++ [n]) = some (.dir c) := by
      rw [Volume.node?_append hL, hfind]
    simp only [Pass.visit]
    cases hl : p.listRefused (join P n) with
    | true =>
      -- the subdirectory cannot be listed, and stays as it is
      have hk : p.leftAt P (n, .dir c) = some (.dir c) :=
        leftOf_dir_of_listRefused p (join P n) hl
      obtain ⟨⟨_, _⟩, he⟩ := Pass.list_of_listRefused hl
      simp only [he, Bool.false_eq_true, if_false, Trace.volume_note, Trace.volume_fail,
        Trace.volume_made]
      exact ⟨settled_of_kept hT hm hn hk ht, by simp [hk]⟩
    | false =>
      have hRc := hRt.child hL hfind hv (Pass.not_refused hl).2
      simp only [Pass.list_of_reaches hRc hLc hl]
      -- one level down: the subdirectory's own entries, from the volume as it is now
      have hself : t.volume.updateDir (loc ++ [n])
          (fun _ ↦ settle (p.leftAt (join P n)) [] c) = some t.volume := by
        simpa using child_self hT hm hn ht
      have hvis : ∀ m c' done' t', (m, .dir c') ∈ c → m ∉ done' →
          t.volume.updateDir (loc ++ [n])
            (fun _ ↦ settle (p.leftAt (join P n)) done' c) = some t'.volume →
          t.volume.updateDir (loc ++ [n])
            (fun _ ↦ settle (p.leftAt (join P n)) (m :: done') c) =
              some (p.visit depth false (join (join P n) m) t').1.volume ∧
            (p.visit depth false (join (join P n) m) t').2 =
              (p.leftAt (join P n) (m, .dir c')).isNone :=
        fun m c' done' t' hm' hn' ht' ↦
          ih c' _ _ _ c done' m t' (by have := entriesHeight_lt_of_mem hm'; omega) hRc hTc hm'
            hn' ht'
      -- the listing is recorded; the volume is as it was
      obtain ⟨h₁, hc₁⟩ := visitDirs_settles (t := t.made ⟨.list, join P n, none⟩) hvis c
        (fun _ h ↦ h) (nodup_of_sorted hTc.sorted) (by simp) hself
      rcases hq : visitDirs (fun m t' ↦ p.visit depth false (join (join P n) m) t') c
        (t.made ⟨.list, join P n, none⟩) with ⟨t₁, d⟩
      rw [hq, List.append_nil] at h₁
      rw [hq] at hc₁
      obtain ⟨h₂, hc₂⟩ := files_settle_rest hdry hRc hTc h₁
      rcases hr : p.handleFiles (join P n) (c.filter fun e ↦ !e.2.isDir) t₁ with ⟨t₂, f⟩
      rw [hr] at h₂ hc₂
      simp only at hc₁ hc₂ h₂
      rw [← hc₁] at hc₂
      have hrule : p.leftOf (join P n) (.dir c) =
          if (p.leftIn (join P n) c).isEmpty && !p.refused .removeDir (join P n)
          then none else some (.dir (p.leftIn (join P n) c)) :=
        leftOf_dir_of_listed p (join P n) hl
      simp only [Bool.false_eq_true, if_false]
      split
      · -- something is left in it: it stays, holding what is left
        next hpos =>
        have hne : (p.leftIn (join P n) c).isEmpty = false := by
          rw [List.isEmpty_eq_false_iff, ← List.length_pos_iff, ← hc₂]
          exact hpos
        have hk : p.leftAt P (n, .dir c) = some (.dir (p.leftIn (join P n) c)) := by
          simp [Pass.leftAt, hrule, hne]
        exact ⟨by simpa using settled_of_child hT hm hn ht hk h₂, by simp [hk]⟩
      · next hzero =>
        have hempty : p.leftIn (join P n) c = [] := by
          rw [← List.length_eq_zero_iff, ← hc₂]
          omega
        rw [hempty] at h₂
        exact removeDir_settles hdry hR hT hm hn ht hl hempty h₂

/-- The pass over the root, with depth to spare for the tree below it, leaves in it what the rule
leaves, and changes nothing else. -/
theorem visit_root_settles (hdry : p.dryRun = false) {v : Volume} {L : Loc}
    {es : List (String × Node)} (hv : v.Tidy) (hR : v.Reaches p.root L)
    (hL : v.node? L = some (.dir es)) {depth : Nat} (hdepth : entriesHeight es ≤ depth)
    (t : Trace) (ht : t.volume = v) :
    v.updateDir L (fun _ ↦ p.rootLeft es) = some (p.visit (depth + 1) true p.root t).1.volume := by
  subst ht
  have hT := hv.dir hL
  simp only [Pass.visit]
  cases hl : p.listRefused p.root with
  | true =>
    -- the root cannot be listed: nothing changes
    obtain ⟨⟨_, _⟩, he⟩ := Pass.list_of_listRefused hl
    simpa [he, Pass.rootLeft, hl] using Volume.updateDir_self hv hL
  | false =>
    simp only [Pass.list_of_reaches hR hL hl]
    have hself : t.volume.updateDir L (fun _ ↦ settle (p.leftAt p.root) [] es) = some t.volume := by
      simpa using Volume.updateDir_self hv hL
    have hvis : ∀ m c done t', (m, .dir c) ∈ es → m ∉ done →
        t.volume.updateDir L (fun _ ↦ settle (p.leftAt p.root) done es) = some t'.volume →
        t.volume.updateDir L (fun _ ↦ settle (p.leftAt p.root) (m :: done) es) =
            some (p.visit depth false (join p.root m) t').1.volume ∧
          (p.visit depth false (join p.root m) t').2 = (p.leftAt p.root (m, .dir c)).isNone :=
      fun m c done t' hm hn ht' ↦
        visit_settles hdry depth c _ _ _ es done m t'
          (by have := entriesHeight_lt_of_mem hm; omega) hR hT hm hn ht'
    obtain ⟨h₁, -⟩ := visitDirs_settles (t := t.made ⟨.list, p.root, none⟩) hvis es
      (fun _ h ↦ h) (nodup_of_sorted hT.sorted) (by simp) hself
    rcases hq : visitDirs (fun m t' ↦ p.visit depth false (join p.root m) t') es
      (t.made ⟨.list, p.root, none⟩) with ⟨t₁, d⟩
    rw [hq, List.append_nil] at h₁
    obtain ⟨h₂, -⟩ := files_settle_rest hdry hR hT h₁
    rcases hr : p.handleFiles p.root (es.filter fun e ↦ !e.2.isDir) t₁ with ⟨t₂, f⟩
    rw [hr] at h₂
    simpa [hq, hr, Pass.rootLeft, hl] using h₂

/-- A root path that names no directory cannot be listed, and the pass leaves the volume as it
is. -/
theorem visit_root_of_not_dir {v : Volume} (hs : ∀ L es, v.stat "/" p.root ≠ .ok (L, .dir es))
    (depth : Nat) (t : Trace) (ht : t.volume = v) :
    (p.visit (depth + 1) true p.root t).1.volume = v := by
  subst ht
  have hlist : ∃ msg, p.list t p.root = .error msg := by
    unfold Pass.list
    cases hr : refusalOf p.refusals .list p.root with
    | some e => exact ⟨_, rfl⟩
    | none =>
      cases hd : t.volume.listDir "/" p.root with
      | ok E =>
        obtain ⟨L, hL⟩ := Volume.stat_of_listDir hd
        exact absurd hL (hs L E)
      | error e => cases e <;> exact ⟨_, rfl⟩
  obtain ⟨msg, hmsg⟩ := hlist
  simp [Pass.visit, hmsg]

end Pass

/-- A pass whose root passes its checks runs to its end, dry or not: its trace is that of the visit
of the root, at a depth that bounds the tree below the root, with a closing record in the
journal. -/
theorem reconcileTrace_of_checks {v : Volume} (refusals : List Refusal) (manifest : Manifest)
    {root : String} {minDepth : Int} (hsafe : ensureSafe v "/" root minDepth = .ok ())
    (hdir : v.isDir "/" root = true) :
    ∃ depth, (∀ L es, v.stat "/" (absolute "/" root) = .ok (L, .dir es) →
        entriesHeight es ≤ depth) ∧
      ∀ dryRun, ∃ r, reconcileTrace v refusals manifest root minDepth dryRun =
        .ok (((⟨manifest, absolute "/" root, dryRun, refusals⟩ : Pass).visit (depth + 1) true
          (absolute "/" root) ⟨v, [], [], [], [], []⟩).1.note r) := by
  cases hs : v.stat "/" (absolute "/" root) with
  | error e =>
    refine ⟨0, fun L es h ↦ (by cases h), fun dryRun ↦ ?_⟩
    simp only [reconcileTrace, hsafe, hdir, hs, Bool.not_true, Bool.false_eq_true, if_false]
    exact ⟨_, rfl⟩
  | ok a =>
    obtain ⟨L, node⟩ := a
    refine ⟨node.height, fun L' es h ↦ ?_, fun dryRun ↦ ?_⟩
    · cases h
      simp [Node.height]
    · simp only [reconcileTrace, hsafe, hdir, hs, Bool.not_true, Bool.false_eq_true, if_false]
      exact ⟨_, rfl⟩

/-- A pass over a tidy volume whose root path is steady leaves exactly what the rule leaves,
whatever calls are refused. -/
theorem reconcile_prunes_by_rule (v : Volume) (refusals : List Refusal) (manifest : Manifest)
    (root : String) (minDepth : Int) (hv : v.Tidy)
    (hsafe : ensureSafe v "/" root minDepth = .ok ()) (hdir : v.isDir "/" root = true)
    (hsteady : v.Steady (absolute "/" root)) :
    ∃ journal report, reconcile v refusals manifest root minDepth false =
      .ok ((⟨manifest, absolute "/" root, false, refusals⟩ : Pass).prunedVolume v, journal,
        report) := by
  let p : Pass := ⟨manifest, absolute "/" root, false, refusals⟩
  let t₀ : Trace := ⟨v, [], [], [], [], []⟩
  by_cases hd : ∃ L es, v.stat "/" (absolute "/" root) = .ok (L, .dir es)
  · obtain ⟨L, es, hs⟩ := hd
    obtain ⟨hR, hL⟩ := hsteady.reaches hs
    -- the root's height bounds the depth of the tree below it
    have hvis := visit_root_settles (p := p) rfl hv hR hL (Nat.le_succ (entriesHeight es)) t₀ rfl
    rcases hq : p.visit (entriesHeight es + 1 + 1) true p.root t₀ with ⟨t, b⟩
    rw [hq] at hvis
    have hpr : p.prunedVolume v = t.volume := by
      simp [Pass.prunedVolume, p, hs, hvis]
    simp only [reconcile, reconcileTrace, hsafe, hdir]
    simp only [p, t₀] at hq hpr
    simp [hs, Node.height, hq, hpr, Except.map]
  · have hs : ∀ L es, v.stat "/" p.root ≠ .ok (L, .dir es) := fun L es h ↦ hd ⟨L, es, h⟩
    have hvis := fun depth ↦ visit_root_of_not_dir hs depth t₀ rfl
    have hpr : p.prunedVolume v = v := by
      unfold Pass.prunedVolume
      split
      · next L es h => exact absurd h (hs L es)
      · rfl
    simp only [reconcile, reconcileTrace, hsafe, hdir]
    simp only [p, t₀] at hvis hpr
    simp only [hpr, Bool.not_true, Bool.false_eq_true, if_false, Except.map, Except.ok.injEq,
      Prod.mk.injEq, exists_and_left, exists_eq', and_true]
    simpa using hvis _

/-- Without a steady root path the rule can fail: a root path through a link inside the tree
it prunes stops naming the root once the pass removes that link, and the entries the pass
reaches after that stay. -/
theorem reconcile_strays_from_rule_through_own_link :
    ∃ (v : Volume) (root : String), v.Tidy ∧ ensureSafe v "/" root 0 = .ok () ∧
      v.isDir "/" root = true ∧
      ∀ journal report, reconcile v [] ⟨[]⟩ root 0 false ≠
        .ok ((⟨⟨[]⟩, absolute "/" root, false, []⟩ : Pass).prunedVolume v, journal, report) := by
  refine ⟨⟨[("r", .dir [("q", .dir [("q", .dir [("x", .dir [("back", .link "/r/q/q")]),
    ("y", .file 0 [])])])])], 1⟩, "/r/q/q/x/back", by decide, rfl, by decide, ?_⟩
  intro journal report h
  -- the rule removes `y`; the pass, its root path gone with the link, cannot
  have hy := congrArg (fun r ↦ r.toOption.map fun r ↦ (r.1.node? ["r", "q", "q", "y"]).isSome) h
  simp only [Except.toOption, Option.map_some] at hy
  revert hy
  decide

end TorrentPrune.Prune
