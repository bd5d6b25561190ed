import TorrentPrune.Proofs.Run.Checks

/-!
# What a release pass signals and reports

A release pass sends no signal when no file stands below the directory. Otherwise it asks to end
exactly the processes it finds (`ProcessTable.locking`): those, other than its own, whose open
files can be read and include one whose canonical path starts with the directory's canonical path
and a separator, so that a sibling whose name merely extends the directory's is never found. It
forces to end only processes it asked that outlived the grace period, and it accounts for every
process found exactly once, as ended or as a failure (`StopsEachOnce`); so the processes found are
the processes terminated and the failures together. An unlock run releases only a target that
passes the depth guard and is an existing directory
(`release_ends_exactly_the_locking_processes`).

The process table is arbitrary, with two assumptions of the process library: processes have
distinct numbers, and the wait for the grace period splits the processes it waits on
(`ProcessTable.WaitSplits`). The host's table meets both.
-/

namespace TorrentPrune.Unlock

open TorrentPrune.Fs TorrentPrune.Path TorrentPrune.Run

/-- The wait for the grace period splits the processes it waits on into those that ended and those
still alive. -/
def ProcessTable.WaitSplits (t : ProcessTable) : Prop :=
  ∀ ps, ((t.wait ps).1 ++ (t.wait ps).2).Perm ps

/-- The reason a signal was refused, if it was. -/
def SignalOutcome.refusal? : SignalOutcome → Option String
  | .denied reason => some reason
  | _ => none

/-- The refusal of a signal by a process, with the process's number. -/
def signalRefusal (outcome : Proc → SignalOutcome) (p : Proc) : Option (Nat × String) :=
  (outcome p).refusal?.map fun reason ↦ (p.pid, reason)

/-- The process a polite request to end went to. -/
def Signal.terminated? : Signal → Option Nat
  | .terminate pid => some pid
  | .kill _ => none

/-! ### Signalling each process -/

section SignalEach

variable (outcome : Proc → SignalOutcome)

/-- The processes a signal reached, or found gone, are those that did not refuse it, in order. -/
theorem signalEach_fst (ps : List Proc) :
    (signalEach outcome ps).1 = ps.filter fun p ↦ (outcome p).refusal?.isNone := by
  induction ps with
  | nil => rfl
  | cons p rest ih =>
    cases h : outcome p <;> simp [signalEach, h, SignalOutcome.refusal?, ih]

/-- The refusals, in order. -/
theorem signalEach_snd (ps : List Proc) :
    (signalEach outcome ps).2 = ps.filterMap (signalRefusal outcome) := by
  induction ps with
  | nil => rfl
  | cons p rest ih =>
    cases h : outcome p <;> simp [signalEach, h, signalRefusal, SignalOutcome.refusal?, ih]

/-- Every process signalled is reached or refuses, and not both. -/
theorem signalEach_perm (ps : List Proc) :
    ((signalEach outcome ps).1.map Proc.pid ++ (signalEach outcome ps).2.map Prod.fst).Perm
      (ps.map Proc.pid) := by
  induction ps with
  | nil => exact List.Perm.refl _
  | cons p rest ih =>
    cases h : outcome p with
    | denied reason =>
      simp only [signalEach, h, List.map_cons]
      exact List.perm_middle.trans (ih.cons p.pid)
    | delivered | gone | zombie =>
      simp only [signalEach, h, List.map_cons, List.cons_append]
      exact ih.cons p.pid

end SignalEach

/-- Collecting the numbers of processes with distinct numbers, none of them collected yet, adds
each once. -/
theorem foldl_insert_pids (ps : List Proc) (acc : List Nat) (hps : (ps.map Proc.pid).Nodup)
    (hacc : ∀ p ∈ ps, p.pid ∉ acc) :
    ps.foldl (fun pids p ↦ pids.insert p.pid) acc = (ps.map Proc.pid).reverse ++ acc := by
  induction ps generalizing acc with
  | nil => rfl
  | cons p rest ih =>
    simp only [List.map_cons, List.nodup_cons] at hps
    rw [List.foldl_cons, List.insert_of_not_mem (hacc p List.mem_cons_self)]
    rw [ih (p.pid :: acc) hps.2]
    · simp
    · intro q hq hmem
      rcases List.mem_cons.mp hmem with h | h
      · exact hps.1 (h ▸ List.mem_map_of_mem hq)
      · exact hacc q (List.mem_cons_of_mem _ hq) h

/-! ### Ending the processes found -/

section Stop

variable (t : ProcessTable) (found : List Proc)

@[simp] theorem ProcessTable.stop_signals :
    (t.stop found).signals = found.map (fun p ↦ .terminate p.pid) ++
      (t.wait (signalEach Proc.onTerminate found).1).2.map (fun p ↦ .kill p.pid) := rfl

@[simp] theorem ProcessTable.stop_terminated :
    (t.stop found).terminated =
      ((t.wait (signalEach Proc.onTerminate found).1).1 ++
        (signalEach Proc.onKill (t.wait (signalEach Proc.onTerminate found).1).2).1).foldl
          (fun pids p ↦ pids.insert p.pid) [] := rfl

@[simp] theorem ProcessTable.stop_failed :
    (t.stop found).failed = (signalEach Proc.onTerminate found).2 ++
      (signalEach Proc.onKill (t.wait (signalEach Proc.onTerminate found).1).2).2 := rfl

/-- Ending the processes found asks each of them to end, in order; forces to end only processes
asked that did not refuse and outlived the grace period; and accounts for each process found
once, as ended or as refusing, the refusals being those of the polite request and then those of
the forced one. -/
structure StopsEachOnce : Prop where
  terminate_calls : (t.stop found).signals.filterMap Signal.terminated? = found.map Proc.pid
  kill_calls : ∀ pid, Signal.kill pid ∈ (t.stop found).signals → ∃ p ∈ found, p.pid = pid ∧
    (p.onTerminate).refusal? = none ∧ p ∈ (t.wait (signalEach Proc.onTerminate found).1).2
  failed_eq : (t.stop found).failed = found.filterMap (signalRefusal Proc.onTerminate) ++
    (t.wait (signalEach Proc.onTerminate found).1).2.filterMap (signalRefusal Proc.onKill)
  each_once : ((t.stop found).terminated ++ (t.stop found).failed.map Prod.fst).Perm
    (found.map Proc.pid)
  terminated_nodup : (t.stop found).terminated.Nodup

variable {t found}

/-- Asked, waited on and forced, the processes found end or refuse, each once. -/
theorem stop_perm (hwait : t.WaitSplits) :
    (((t.wait (signalEach Proc.onTerminate found).1).1 ++
        (signalEach Proc.onKill (t.wait (signalEach Proc.onTerminate found).1).2).1).map Proc.pid ++
      (t.stop found).failed.map Prod.fst).Perm (found.map Proc.pid) := by
  -- asking splits the processes found, the wait splits those asked, forcing splits those alive
  have hterm := signalEach_perm Proc.onTerminate found
  have hsplit := (hwait (signalEach Proc.onTerminate found).1).map Proc.pid
  have hkill := signalEach_perm Proc.onKill (t.wait (signalEach Proc.onTerminate found).1).2
  refine List.Perm.trans ?_ hterm
  rw [List.map_append] at hsplit
  rw [ProcessTable.stop_failed, List.map_append, List.map_append]
  refine List.Perm.trans ?_ (hsplit.append_right _)
  refine List.perm_iff_count.mpr fun x ↦ ?_
  have hk := List.perm_iff_count.mp hkill x
  simp only [List.count_append] at hk ⊢
  omega

/-- The processes that ended are collected once each. -/
theorem stop_terminated_eq (hwait : t.WaitSplits) (hfound : (found.map Proc.pid).Nodup) :
    (t.stop found).terminated =
      (((t.wait (signalEach Proc.onTerminate found).1).1 ++
        (signalEach Proc.onKill (t.wait (signalEach Proc.onTerminate found).1).2).1).map
          Proc.pid).reverse := by
  have hnodup := ((stop_perm hwait).nodup_iff.mpr hfound)
  rw [ProcessTable.stop_terminated, foldl_insert_pids _ _ (List.nodup_append.mp hnodup).1
    (fun _ _ h ↦ List.not_mem_nil h), List.append_nil]

/-- A process still alive after the grace period was found and asked, and did not refuse. -/
theorem mem_of_mem_alive (hwait : t.WaitSplits) {p : Proc}
    (hp : p ∈ (t.wait (signalEach Proc.onTerminate found).1).2) :
    p ∈ found ∧ (p.onTerminate).refusal? = none := by
  have hasked : p ∈ (signalEach Proc.onTerminate found).1 :=
    (hwait _).subset (List.mem_append_right _ hp)
  rw [signalEach_fst, List.mem_filter] at hasked
  exact ⟨hasked.1, Option.isNone_iff_eq_none.mp hasked.2⟩

/-- Ending the processes found, with distinct numbers, under a wait that splits. -/
theorem stopsEachOnce (hwait : t.WaitSplits) (hfound : (found.map Proc.pid).Nodup) :
    StopsEachOnce t found where
  terminate_calls := by
    simp [List.filterMap_append, List.filterMap_map, Signal.terminated?, Function.comp_def]
  kill_calls := by
    intro pid hpid
    simp only [ProcessTable.stop_signals, List.mem_append, List.mem_map] at hpid
    rcases hpid with ⟨p, -, hp⟩ | ⟨p, hp, hpk⟩
    · cases hp
    · cases hpk
      obtain ⟨hfound, hasked⟩ := mem_of_mem_alive hwait hp
      exact ⟨p, hfound, rfl, hasked, hp⟩
  failed_eq := by
    rw [ProcessTable.stop_failed, signalEach_snd, signalEach_snd]
  each_once := by
    rw [stop_terminated_eq hwait hfound]
    exact ((List.reverse_perm _).append_right _).trans (stop_perm hwait)
  terminated_nodup := by
    rw [stop_terminated_eq hwait hfound, (List.reverse_perm _).nodup_iff]
    exact (List.nodup_append.mp ((stop_perm hwait).nodup_iff.mpr hfound)).1

end Stop

/-! ### The pass over a directory -/

section Release

variable {v : Volume} {refusals : List Refusal} {t : ProcessTable} {dir : String}

/-- Without a file below the directory, the pass sends no signal and reports nothing. -/
theorem release_of_no_files (h : countFiles v refusals dir = 0) :
    t.release v refusals dir = ([], .empty) := by
  simp [ProcessTable.release, h]

/-- Waiting on no process gives none. -/
theorem wait_nil (hwait : t.WaitSplits) : t.wait [] = ([], []) := by
  have h := List.perm_nil.mp (hwait [])
  rw [List.append_eq_nil_iff] at h
  exact Prod.ext h.1 h.2

/-- With files below the directory, the pass ends the processes found and reports the files, the
processes found, those that ended and the failures. -/
theorem release_of_files (hwait : t.WaitSplits) (h : countFiles v refusals dir ≠ 0) :
    t.release v refusals dir =
      ((t.stop (t.locking v (belowPrefix v dir))).signals,
        ⟨countFiles v refusals dir, (t.locking v (belowPrefix v dir)).length,
          (t.stop (t.locking v (belowPrefix v dir))).terminated.length,
          (t.stop (t.locking v (belowPrefix v dir))).failed.map failureLine⟩) := by
  unfold ProcessTable.release
  rw [if_neg (by simpa using h)]
  dsimp only
  split
  · next hnone =>
    -- nobody found: ending nobody sends nothing
    rw [List.isEmpty_iff.mp hnone]
    simp [ProcessTable.stop, signalEach, wait_nil hwait]
  · rfl

/-- The processes found are those of the table, other than the pass's own, whose open files can
be read and include one whose canonical path starts with the prefix. -/
theorem mem_locking {pathPrefix : String} {p : Proc} :
    p ∈ t.locking v pathPrefix ↔ p ∈ t.procs ∧ p.pid ≠ t.ownPid ∧
      ∃ files, p.openFiles = some files ∧
        ∃ f ∈ files, pathPrefix.toList <+: (canonicalPath v f).toList := by
  unfold ProcessTable.locking Proc.holdsBelow
  simp only [List.mem_filter, Bool.and_eq_true, bne_iff_ne, ne_eq]
  cases p.openFiles with
  | none => simp
  | some files => simp

/-- The numbers of the processes found are distinct when those of the table are. -/
theorem nodup_locking (pathPrefix : String) (hpids : (t.procs.map Proc.pid).Nodup) :
    ((t.locking v pathPrefix).map Proc.pid).Nodup :=
  hpids.sublist ((List.filter_sublist).map Proc.pid)

/-- A directory whose canonical path is not the root's has as prefix that path and a separator. -/
theorem belowPrefix_eq (hne : canonicalPath v dir ≠ "")
    (hlast : (canonicalPath v dir).toList.getLast? ≠ some '/') :
    belowPrefix v dir = canonicalPath v dir ++ "/" := by
  have hempty : (canonicalPath v dir).isEmpty = false := by simpa using hne
  simp [belowPrefix, join, isAbs, hempty, hlast]

/-- A path lies below such a directory exactly when it is the directory's canonical path, a
separator, and more: the directory itself and its siblings do not. -/
theorem prefix_belowPrefix_iff (hne : canonicalPath v dir ≠ "")
    (hlast : (canonicalPath v dir).toList.getLast? ≠ some '/') (path : String) :
    (belowPrefix v dir).toList <+: path.toList ↔ ∃ rest, path = canonicalPath v dir ++ "/" ++ rest := by
  rw [belowPrefix_eq hne hlast]
  constructor
  · rintro ⟨rest, hrest⟩
    refine ⟨String.ofList rest, ?_⟩
    rw [← String.toList_inj, String.toList_append, String.toList_ofList, ← hrest]
  · rintro ⟨rest, rfl⟩
    exact ⟨rest.toList, by simp⟩

end Release

/-! ### The host's table -/

/-- A wait that keeps apart the processes a test picks splits them. -/
theorem ProcessTable.waitSplits_of_partition {t : ProcessTable} (keep : Proc → Bool)
    (h : t.wait = List.partition keep) : t.WaitSplits := by
  intro ps
  rw [h, List.partition_eq_filter_filter]
  exact List.filter_append_perm keep ps

/-- The host numbers its processes by their place, from one. -/
theorem hostTable_pids (v : Volume) (holders : List Holder) :
    (hostTable v holders).procs.map Proc.pid = List.range' 1 holders.length := by
  have hplaces : (hostTable v holders).procs.map Proc.pid =
      (List.range' 0 holders.length).map (· + 1) := by
    simp only [hostTable, List.map_map, Function.comp_def]
    rw [← List.zipIdx_map_snd, List.map_map]
    rfl
  rw [hplaces]
  exact List.range'_succ_left.symm

/-- The host's table meets the process library's assumptions. -/
theorem hostTable_assumptions (v : Volume) (holders : List Holder) :
    (hostTable v holders).WaitSplits ∧ ((hostTable v holders).procs.map Proc.pid).Nodup :=
  ⟨ProcessTable.waitSplits_of_partition _ rfl, by rw [hostTable_pids]; exact List.nodup_range'⟩

/-- Every signal reaches a process of the host. -/
theorem outcomes_of_mem_hostTable {v : Volume} {holders : List Holder} {p : Proc}
    (hp : p ∈ (hostTable v holders).procs) : p.onTerminate = .delivered ∧ p.onKill = .delivered := by
  simp only [hostTable, List.mem_map] at hp
  obtain ⟨⟨_, _⟩, -, rfl⟩ := hp
  exact ⟨rfl, rfl⟩

/-- On the host every process found ends, politely or by force, and none is reported failing. -/
theorem releaseLocks_ends_every_process_found (v : Volume) (refusals : List Refusal)
    (holders : List Holder) (dir : String) :
    (releaseLocks v refusals holders dir).2.processesTerminated =
        (releaseLocks v refusals holders dir).2.processesFound ∧
      (releaseLocks v refusals holders dir).2.failures = [] := by
  obtain ⟨hwait, hpids⟩ := hostTable_assumptions v holders
  show ((hostTable v holders).release v refusals dir).2.processesTerminated =
      ((hostTable v holders).release v refusals dir).2.processesFound ∧
    ((hostTable v holders).release v refusals dir).2.failures = []
  by_cases hfiles : countFiles v refusals dir = 0
  · rw [release_of_no_files hfiles]
    exact ⟨rfl, rfl⟩
  · rw [release_of_files hwait hfiles]
    have hs := stopsEachOnce hwait
      (nodup_locking (v := v) (belowPrefix v dir) hpids)
    -- no process of the host refuses a signal, so nothing fails
    have hreached : ∀ p ∈ (hostTable v holders).locking v (belowPrefix v dir),
        p.onTerminate = .delivered ∧ p.onKill = .delivered := fun p hp ↦
      outcomes_of_mem_hostTable (List.mem_of_mem_filter hp)
    have hfailed : ((hostTable v holders).stop
        ((hostTable v holders).locking v (belowPrefix v dir))).failed = [] := by
      rw [hs.failed_eq, List.append_eq_nil_iff, List.filterMap_eq_nil_iff,
        List.filterMap_eq_nil_iff]
      constructor
      · intro p hp
        simp [signalRefusal, (hreached p hp).1, SignalOutcome.refusal?]
      · intro p hp
        simp [signalRefusal, (hreached p (mem_of_mem_alive hwait hp).1).2,
          SignalOutcome.refusal?]
    have hlen := hs.each_once.length_eq
    rw [hfailed, List.map_nil, List.append_nil, List.length_map] at hlen
    exact ⟨hlen, by rw [hfailed]; rfl⟩

/-! ### The unlock run -/

/-- An unlock run releases the locks below its target, with the host's table, exactly when the
target passes the depth guard and is an existing directory; otherwise the holders stay and no
report is made. -/
theorem runUnlock_releases_only_past_checks {h h' : Host} {target : String} {minDepth : Int}
    {res : UnlockResult} (hrun : runUnlock h target minDepth = .ok (h', res)) :
    (ensureSafe h.volume "/" target minDepth = .ok () ∧ h.volume.isDir "/" target = true ∧
        h'.holders = (releaseLocks h.volume h.refusals h.holders target).1 ∧
        res.report? = some (releaseLocks h.volume h.refusals h.holders target).2) ∨
      (¬(ensureSafe h.volume "/" target minDepth = .ok () ∧ h.volume.isDir "/" target = true) ∧
        h'.holders = h.holders ∧ res.report? = none) := by
  unfold runUnlock at hrun
  cases hsafe : ensureSafe h.volume "/" target minDepth with
  | error e =>
    rw [hsafe] at hrun
    cases e with
    | nulByte => cases hrun
    | shallow e =>
      obtain ⟨rfl, rfl⟩ := Prod.mk.inj (Except.ok.inj hrun)
      exact Or.inr ⟨by simp, rfl, rfl⟩
  | ok u =>
    rw [hsafe] at hrun
    cases hdir : h.volume.isDir "/" target with
    | false =>
      simp only [hdir, Bool.not_false, if_true] at hrun
      obtain ⟨rfl, rfl⟩ := Prod.mk.inj (Except.ok.inj hrun)
      exact Or.inr ⟨by simp, rfl, rfl⟩
    | true =>
      left
      simp only [hdir, Bool.not_true, Bool.false_eq_true, if_false] at hrun
      refine ⟨rfl, rfl, ?_⟩
      split at hrun <;> obtain ⟨rfl, rfl⟩ := Prod.mk.inj (Except.ok.inj hrun) <;>
        exact ⟨rfl, rfl⟩

/-! ### The release pass -/

/-- A release pass over a directory, against a process table whose processes have distinct numbers
and whose wait splits the processes it waits on, sends no signal when no file stands below the
directory. Otherwise it reports the files, the processes found and, of these, those that ended
and those that failed, which together are all of them; it finds exactly the processes, other than
its own, whose open files can be read and include one below the directory, strictly so; and it
ends them each once (`StopsEachOnce`). An unlock run releases only a target that passes the depth
guard and is an existing directory, with the host's table, and otherwise leaves the holders. -/
theorem release_ends_exactly_the_locking_processes (v : Volume) (refusals : List Refusal)
    (t : ProcessTable) (dir : String) (hwait : t.WaitSplits)
    (hpids : (t.procs.map Proc.pid).Nodup) :
    (countFiles v refusals dir = 0 → t.release v refusals dir = ([], .empty)) ∧
    (countFiles v refusals dir ≠ 0 →
      t.release v refusals dir =
          ((t.stop (t.locking v (belowPrefix v dir))).signals,
            ⟨countFiles v refusals dir, (t.locking v (belowPrefix v dir)).length,
              (t.stop (t.locking v (belowPrefix v dir))).terminated.length,
              (t.stop (t.locking v (belowPrefix v dir))).failed.map failureLine⟩) ∧
        (t.release v refusals dir).2.processesFound =
          (t.release v refusals dir).2.processesTerminated +
            (t.release v refusals dir).2.failures.length) ∧
    (∀ p, p ∈ t.locking v (belowPrefix v dir) ↔ p ∈ t.procs ∧ p.pid ≠ t.ownPid ∧
      ∃ files, p.openFiles = some files ∧
        ∃ f ∈ files, (belowPrefix v dir).toList <+: (canonicalPath v f).toList) ∧
    (canonicalPath v dir ≠ "" → (canonicalPath v dir).toList.getLast? ≠ some '/' →
      ∀ path : String, (belowPrefix v dir).toList <+: path.toList ↔
        ∃ rest, path = canonicalPath v dir ++ "/" ++ rest) ∧
    StopsEachOnce t (t.locking v (belowPrefix v dir)) ∧
    (∀ (h h' : Host) (target : String) (minDepth : Int) (res : UnlockResult),
      runUnlock h target minDepth = .ok (h', res) →
        (ensureSafe h.volume "/" target minDepth = .ok () ∧ h.volume.isDir "/" target = true ∧
            h'.holders = (releaseLocks h.volume h.refusals h.holders target).1 ∧
            res.report? = some ((hostTable h.volume h.holders).release h.volume h.refusals target).2) ∨
          (¬(ensureSafe h.volume "/" target minDepth = .ok () ∧
              h.volume.isDir "/" target = true) ∧
            h'.holders = h.holders ∧ res.report? = none)) := by
  have hstops := stopsEachOnce hwait (nodup_locking (v := v) (belowPrefix v dir) hpids)
  refine ⟨release_of_no_files, fun hfiles ↦ ⟨release_of_files hwait hfiles, ?_⟩,
    fun _ ↦ mem_locking, prefix_belowPrefix_iff, hstops,
    fun _ _ _ _ _ hrun ↦ runUnlock_releases_only_past_checks hrun⟩
  -- each process found ended or failed, and not both
  have hlen := hstops.each_once.length_eq
  simp only [List.length_append, List.length_map] at hlen
  rw [release_of_files hwait hfiles]
  simp only [List.length_map]
  omega

/-- Five processes: the pass's own, one whose open files cannot be read, one that refuses to be
asked to end, a zombie, and one that outlives the grace period and refuses to be forced. -/
def mixedTable : ProcessTable where
  procs := [⟨1, some ["/data/f"], .delivered, .delivered⟩, ⟨2, none, .delivered, .delivered⟩,
    ⟨3, some ["/data/f"], .denied "access denied", .delivered⟩,
    ⟨4, some ["/tmp/x", "/data/g"], .zombie, .delivered⟩,
    ⟨5, some ["/data/f"], .delivered, .denied "access denied"⟩]
  ownPid := 1
  wait := List.partition fun p ↦ p.pid != 5

/-- The table of mixed processes meets the assumptions, and a pass over `/data` ends its processes
each once. -/
theorem release_ends_exactly_the_locking_processes_mixed :
    mixedTable.WaitSplits ∧ (mixedTable.procs.map Proc.pid).Nodup ∧
      StopsEachOnce mixedTable (mixedTable.locking Fs.Volume.empty (belowPrefix Fs.Volume.empty "/data")) := by
  have hwait : mixedTable.WaitSplits := ProcessTable.waitSplits_of_partition _ rfl
  have hpids : (mixedTable.procs.map Proc.pid).Nodup := by decide
  exact ⟨hwait, hpids,
    (release_ends_exactly_the_locking_processes Fs.Volume.empty [] mixedTable "/data" hwait hpids).2.2.2.2.1⟩

end TorrentPrune.Unlock
