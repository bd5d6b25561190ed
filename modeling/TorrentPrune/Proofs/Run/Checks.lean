import TorrentPrune.Proofs.Run.Declared
import TorrentPrune.Proofs.Bencode.Failures

/-!
# The checks of a sync run, in order

A sync run decides its outcome check by check (`SyncDecision`): first the depth guard, then, for a
run from a file, reading the file, then the pause for the delay, then the manifest of the
metadata, and last whether the target is an existing directory. A run on metadata bytes pauses
before the guard. The first check that fails decides the run. Past all of them the run
prunes the target with the manifest, after releasing the locks below it when asked to and not in
a dry run.

Both runs follow their decision (`sync_runs_follow_their_checks`): a refused run reports the
refusal and leaves the volume and the processes holding files as they were; a pass reports the
manifest's size, the pass's report and the release, if one ran. Three failures are not the run's
to report and end the step instead: a path that holds a NUL character, number text in the
metadata beyond the digit limit (`syncPaused_long_integer_text`), and a pause the clock refuses.
-/

namespace TorrentPrune.Run

open TorrentPrune.Fs TorrentPrune.Prune TorrentPrune.Bencode TorrentPrune.Unlock TorrentPrune.Number

/-- What a sync run decides: a failure that no run handles, a run error that refuses the target,
or a pass with the manifest. -/
inductive SyncDecision where
  | escape (e : Escape)
  | refuse (e : RunError)
  | prune (m : Manifest)

namespace SyncDecision

/-- The depth guard comes first: a target that cannot be examined ends the step, one with fewer
segments than the minimum is refused, and any other goes on to `next`. -/
def guarded (v : Volume) (target : String) (minDepth : Int) (next : SyncDecision) :
    SyncDecision :=
  match countSegments v "/" target with
  | .error _ => .escape .nulByte
  | .ok n => if (n : Int) < minDepth then .refuse (.shallow ⟨target, n, minDepth⟩) else next

/-- Past the guard and the metadata's bytes: the manifest must be read, and then the target must
be an existing directory. -/
def ofManifest (v : Volume) (target : String) : Except ManifestError Manifest → SyncDecision
  | .error (.unreadable (.tooManyDigits n)) => .escape (.tooManyDigits n)
  | .error (.unreadable (.malformed e)) => .refuse (.decode e)
  | .error (.unusable e) => .refuse (.extract e)
  | .ok m => if v.isDir "/" target then .prune m else .refuse (.missing target)

/-- A sync run on metadata bytes pauses first: a pause the clock refuses ends the step, and any
other goes on to `next`. -/
def paused (h : Host) (delay : Seconds) (next : SyncDecision) : SyncDecision :=
  match pauseFor h delay with
  | .error f => .escape (.clock f)
  | .ok _ => next

/-- The decision of a sync run on metadata bytes: the pause, the guard, then the manifest. -/
def ofData (h : Host) (data : Bytes) (target : String) (o : SyncOptions) : SyncDecision :=
  paused h o.delay <|
    guarded h.volume target o.minDepth (ofManifest h.volume target (manifestOfBytes data))

/-- The decision of a sync run on a metadata file: after the guard, the file must be read, and
the run on its bytes pauses before the manifest. -/
def ofFile (h : Host) (torrentPath target : String) (o : SyncOptions) : SyncDecision :=
  guarded h.volume target o.minDepth <|
    match h.volume.readFile "/" torrentPath with
    | .error .nulByte => .escape .nulByte
    | .error (.os e) => .refuse (.unreadable e)
    | .ok data => paused h o.delay (ofManifest h.volume target (manifestOfBytes data))

end SyncDecision

/-- The release a sync run makes before its pass, only when asked to and not in a dry run: the
processes left holding files, and the report when it ran. -/
def releaseFirst (h : Host) (target : String) (o : SyncOptions) :
    List Holder × Option UnlockReport :=
  if o.unlockFirst && !o.dryRun then
    let (left, report) := releaseLocks h.volume h.refusals h.holders target
    (left, some report)
  else (h.holders, none)

/-- How a run from host `h` ends when it follows a decision. An escape ends the step. A refusal is
a failed result that leaves the volume and the holders as they were. A pass is a pruned result
with the manifest's size, the report of the pass over the volume, and the release of
`releaseFirst`; the volume is the pass's and the holders those the release left. -/
def SyncDecision.Ends (h : Host) (target torrentPath : String) (o : SyncOptions) :
    SyncDecision → Except Escape (Host × SyncResult) → Prop
  | .escape e, res => res = .error e
  | .refuse e, res => ∃ h', res = .ok (h', ⟨target, torrentPath, .failed e⟩) ∧
      h'.volume = h.volume ∧ h'.holders = h.holders
  | .prune m, res => ∃ h' report journal,
      res = .ok (h', ⟨target, torrentPath, .pruned m.size report (releaseFirst h target o).2⟩) ∧
      reconcile h.volume h.refusals m target o.minDepth o.dryRun = .ok (h'.volume, journal, report) ∧
      h'.holders = (releaseFirst h target o).1

/-- How a run ends depends on its host only through the volume, the refused calls and the
holders: a host that agrees on them ends its runs the same way. -/
theorem SyncDecision.Ends.of_frame {h h₀ : Host} {target torrentPath : String} {o : SyncOptions}
    {d : SyncDecision} {res : Except Escape (Host × SyncResult)} (hv : h₀.volume = h.volume)
    (hr : h₀.refusals = h.refusals) (hh : h₀.holders = h.holders)
    (hd : d.Ends h₀ target torrentPath o res) : d.Ends h target torrentPath o res := by
  have hrel : releaseFirst h₀ target o = releaseFirst h target o := by
    simp only [releaseFirst, hv, hr, hh]
  cases d with
  | escape e => exact hd
  | refuse e =>
    obtain ⟨h', hres, hvol, hhold⟩ := hd
    exact ⟨h', hres, hvol.trans hv, hhold.trans hh⟩
  | prune m =>
    obtain ⟨h', report, journal, hres, hrec, hhold⟩ := hd
    rw [hrel] at hres hhold
    rw [hv, hr] at hrec
    exact ⟨h', report, journal, hres, hrec, hhold⟩

/-! ### What the steps of a run leave -/

/-- Emitting a record leaves the holders as they are. -/
@[simp] theorem Host.holders_note (h : Host) (r : Logging.LogRecord) :
    (h.note r).holders = h.holders := rfl

/-- Emitting records leaves the volume as it is. -/
@[simp] theorem Host.volume_noteAll (h : Host) (rs : Logging.Journal) :
    (h.noteAll rs).volume = h.volume := rfl

/-- Emitting records leaves the holders as they are. -/
@[simp] theorem Host.holders_noteAll (h : Host) (rs : Logging.Journal) :
    (h.noteAll rs).holders = h.holders := rfl

/-- The pass refuses a target that passes the guard but is no directory. -/
theorem reconcile_missing {v : Volume} {refusals : List Refusal} {m : Manifest} {root : String}
    {minDepth : Int} {dryRun : Bool} (hsafe : ensureSafe v "/" root minDepth = .ok ())
    (hdir : v.isDir "/" root = false) :
    reconcile v refusals m root minDepth dryRun = .error (.run (.missing root)) := by
  simp [reconcile, reconcileTrace, hsafe, hdir, Except.map]

/-- The pass runs over a target that passes the guard and is a directory. -/
theorem reconcile_ok_of_checks {v : Volume} (refusals : List Refusal) (m : Manifest)
    {root : String} {minDepth : Int} (dryRun : Bool)
    (hsafe : ensureSafe v "/" root minDepth = .ok ()) (hdir : v.isDir "/" root = true) :
    ∃ res, reconcile v refusals m root minDepth dryRun = .ok res := by
  obtain ⟨depth, -, hrun⟩ := reconcileTrace_of_checks refusals m hsafe hdir
  obtain ⟨r, hr⟩ := hrun dryRun
  exact ⟨_, by rw [reconcile, hr]; rfl⟩

/-- The guard lets a target through exactly when its segments reach the minimum. -/
theorem ensureSafe_of_count {v : Volume} {target : String} {n : Nat} {minDepth : Int}
    (hc : countSegments v "/" target = .ok n) (hn : ¬(n : Int) < minDepth) :
    ensureSafe v "/" target minDepth = .ok () := by
  simp only [ensureSafe, hc]
  rw [if_pos (by omega)]

/-- The guard refuses a target whose segments fall short of the minimum. -/
theorem ensureSafe_of_shallow {v : Volume} {target : String} {n : Nat} {minDepth : Int}
    (hc : countSegments v "/" target = .ok n) (hn : (n : Int) < minDepth) :
    ensureSafe v "/" target minDepth = .error (.shallow ⟨target, n, minDepth⟩) := by
  simp only [ensureSafe, hc]
  rw [if_neg (by omega)]

/-! ### A run follows its decision -/

section Follows

variable (h : Host) (target torrentPath : String) (o : SyncOptions)

/-- Past its pause and the guard, a sync run on metadata bytes follows the manifest and the
directory check.
The checks the pass makes again agree with those already made: the guard passes as before, and
the release before the pass changes no file, so only a missing directory can still refuse. -/
theorem syncPaused_past_guard (data : Bytes) (hsafe : ensureSafe h.volume "/" target o.minDepth = .ok ()) :
    (SyncDecision.ofManifest h.volume target (manifestOfBytes data)).Ends h target torrentPath o
      (syncPaused h data target o torrentPath) := by
  cases hp : parse data with
  | error f =>
    cases f with
    | tooManyDigits k =>
      simp [SyncDecision.ofManifest, manifestOfBytes, hp, SyncDecision.Ends, syncPaused, syncSteps,
        hsafe, bind, Except.bind]
    | malformed e =>
      simp [SyncDecision.ofManifest, manifestOfBytes, hp, SyncDecision.Ends, syncPaused, syncSteps,
        hsafe, bind, Except.bind, pure, Except.pure, failSync]
  | ok vr =>
    obtain ⟨v, rest⟩ := vr
    cases hx : extractManifest (Metadata.ofValue v) with
    | error e =>
      simp [SyncDecision.ofManifest, manifestOfBytes, hp, hx, SyncDecision.Ends, syncPaused, syncSteps,
        hsafe, bind, Except.bind, pure, Except.pure, failSync, apply_ite Host.volume,
        apply_ite Host.holders]
    | ok m =>
      cases hdir : h.volume.isDir "/" target
      · -- no directory: nothing is released, and the pass refuses
        simp [SyncDecision.ofManifest, manifestOfBytes, hp, hx, hdir, SyncDecision.Ends, syncPaused,
          syncSteps, hsafe, bind, Except.bind, pure, Except.pure, failSync, apply_ite Host.volume,
          apply_ite Host.holders, reconcile_missing hsafe hdir]
      · obtain ⟨⟨w, journal, report⟩, hrec⟩ :=
          reconcile_ok_of_checks h.refusals m o.dryRun hsafe hdir
        -- the release runs first exactly when it is asked for outside a dry run
        by_cases hrel : o.unlockFirst = true ∧ o.dryRun = false
        · obtain ⟨hu, hd⟩ := hrel
          rw [hd] at hrec
          simp [SyncDecision.ofManifest, manifestOfBytes, hp, hx, hdir, SyncDecision.Ends, syncPaused,
            syncSteps, hsafe, bind, Except.bind, pure, Except.pure, apply_ite Host.volume,
            apply_ite Host.holders, apply_ite Host.refusals, hrec, releaseFirst, hu, hd]
        · have hoff : (o.unlockFirst && !o.dryRun) = false := by
            cases hu : o.unlockFirst <;> cases hd : o.dryRun <;> simp_all
          simp [SyncDecision.ofManifest, manifestOfBytes, hp, hx, hdir, SyncDecision.Ends, syncPaused,
            syncSteps, hsafe, bind, Except.bind, pure, Except.pure, apply_ite Host.volume,
            apply_ite Host.holders, apply_ite Host.refusals, hrec, releaseFirst, hoff]

/-- Past its pause, a sync run on metadata bytes follows the guard and then its manifest. -/
theorem syncPaused_follows (data : Bytes) :
    (SyncDecision.guarded h.volume target o.minDepth
        (SyncDecision.ofManifest h.volume target (manifestOfBytes data))).Ends h target torrentPath o
      (syncPaused h data target o torrentPath) := by
  cases hc : countSegments h.volume "/" target with
  | error c =>
    -- a target the guard cannot examine ends the step
    simp [SyncDecision.guarded, hc, SyncDecision.Ends, syncPaused, syncSteps,
      ensureSafe, bind, Except.bind]
  | ok n =>
    by_cases hn : (n : Int) < o.minDepth
    · -- too shallow: the run stops before anything else
      have hsafe := ensureSafe_of_shallow hc hn
      simp [SyncDecision.guarded, hc, hn, SyncDecision.Ends, syncPaused,
        syncSteps, hsafe, bind, Except.bind, pure, Except.pure, failSync]
    · rw [SyncDecision.guarded, hc]
      simp only [if_neg hn]
      exact syncPaused_past_guard h target torrentPath o data (ensureSafe_of_count hc hn)

/-- A run that pauses first follows `paused`: a refused pause ends the step, and after a pause
the clock takes, the run goes on from a host with the same volume, refused calls and holders. -/
theorem runSync_of_paused (data : Bytes) {d : SyncDecision}
    (hd : ∀ h₀ : Host, h₀.volume = h.volume → h₀.refusals = h.refusals →
      h₀.holders = h.holders → d.Ends h₀ target torrentPath o (syncPaused h₀ data target o torrentPath)) :
    (SyncDecision.paused h o.delay d).Ends h target torrentPath o
      (runSync h data target o torrentPath) := by
  unfold SyncDecision.paused runSync
  cases hp : pauseFor h o.delay with
  | error f => rfl
  | ok h₀ =>
    obtain ⟨hv, hr, hh⟩ := pauseFor_frame hp
    exact (hd h₀ hv hr hh).of_frame hv hr hh

/-- A sync run on metadata bytes follows its decision. -/
theorem runSync_follows (data : Bytes) :
    (SyncDecision.ofData h data target o).Ends h target torrentPath o
      (runSync h data target o torrentPath) := by
  refine runSync_of_paused h target torrentPath o data fun h₀ hv _ _ ↦ ?_
  rw [← hv]
  exact syncPaused_follows h₀ target torrentPath o data

/-- A sync run on a metadata file follows its decision. The guard comes before the file is read,
so a refused target is reported whatever the file holds. -/
theorem runSyncFile_follows :
    (SyncDecision.ofFile h torrentPath target o).Ends h target torrentPath o
      (runSyncFile h torrentPath target o) := by
  cases hc : countSegments h.volume "/" target with
  | error c =>
    simp [SyncDecision.ofFile, SyncDecision.guarded, hc, SyncDecision.Ends, runSyncFile,
      ensureSafe]
  | ok n =>
    by_cases hn : (n : Int) < o.minDepth
    · have hsafe := ensureSafe_of_shallow hc hn
      simp [SyncDecision.ofFile, SyncDecision.guarded, hc, hn, SyncDecision.Ends, runSyncFile,
        hsafe, failSync]
    · have hsafe := ensureSafe_of_count hc hn
      rw [SyncDecision.ofFile, SyncDecision.guarded, hc]
      simp only [if_neg hn]
      -- the file is read next; its bytes go to the run on metadata bytes
      cases hr : h.volume.readFile "/" torrentPath with
      | error err =>
        cases err with
        | nulByte =>
          simp [SyncDecision.Ends, runSyncFile, hsafe, readMetadata, hr]
        | os e =>
          simp [SyncDecision.Ends, runSyncFile, hsafe, readMetadata, hr, failSync]
      | ok data =>
        simp only [runSyncFile, hsafe, readMetadata, hr]
        -- the run on the bytes pauses, and then passes the guard again on the same volume
        refine runSync_of_paused h target torrentPath o data fun h₀ hv _ _ ↦ ?_
        rw [← hv]
        exact syncPaused_past_guard h₀ target torrentPath o data (hv ▸ hsafe)

end Follows

/-- Both sync runs follow their checks in order: the depth guard; for a run from a file, reading
the file; the pause for the delay (before the guard in a run on metadata bytes); the manifest of
the metadata; and the target being an existing directory. The first check that fails decides the
run. A refused run reports its run error, under its kind, and has removed nothing and released no
lock. A run past all checks reports the manifest's size, duplicates counted, and the report of the
pass over the target, and it released the locks below the target first exactly when asked to and
not in a dry run. A target that cannot be examined, a metadata file path that cannot be opened,
number text beyond the digit limit, and a pause the clock refuses end the step with a failure no
run handles. -/
theorem sync_runs_follow_their_checks (h : Host) (data : Bytes) (target torrentPath : String)
    (o : SyncOptions) :
    (SyncDecision.ofData h data target o).Ends h target torrentPath o
        (runSync h data target o torrentPath) ∧
      (SyncDecision.ofFile h torrentPath target o).Ends h target torrentPath o
        (runSyncFile h torrentPath target o) :=
  ⟨runSync_follows h target torrentPath o data, runSyncFile_follows h target torrentPath o⟩

/-! ### Number text beyond the digit limit -/

/-- Once its pause is over, a sync run whose target passes the guard ends the step, without a
result, when the metadata holds integer text of more digits than the limit. -/
theorem syncPaused_long_integer_text {h : Host} {target torrentPath : String} {o : SyncOptions}
    (hsafe : ensureSafe h.volume "/" target o.minDepth = .ok ()) {digits : Bytes}
    (hnat : isNaturalText digits = true) (hlong : digitLimit < digits.length) (rest : Bytes) :
    syncPaused h (leadInt :: (digits ++ leadEnd :: rest)) target o torrentPath =
      .error (.tooManyDigits digits.length) := by
  have hm : manifestOfBytes (leadInt :: (digits ++ leadEnd :: rest)) =
      .error (.unreadable (.tooManyDigits digits.length)) := by
    simp [manifestOfBytes, parse_long_integer_text _ hnat hlong rest]
  have hends := syncPaused_past_guard h target torrentPath o (leadInt :: (digits ++ leadEnd :: rest))
    hsafe
  rw [hm] at hends
  exact hends

/-- A sync of the directory `/root` with the minimum depth zero, on integer text of 4301 ones,
ends the step with the digit limit and gives no result. -/
theorem runSync_refuses_integer_of_4301_digits :
    runSync (Host.ofVolume ⟨[("root", .dir [])], 0⟩)
        (leadInt :: (List.replicate (4300 + 1) 49 ++ [leadEnd])) "/root"
        ⟨false, 0, .whole 0, false⟩ "" =
      .error (.tooManyDigits 4301) := by
  have hsafe : ensureSafe (Host.ofVolume ⟨[("root", .dir [])], 0⟩).volume "/" "/root" 0 = .ok () := by
    have hb : (ensureSafe (Host.ofVolume ⟨[("root", .dir [])], 0⟩).volume "/" "/root" 0).toBool =
        true := by decide +kernel
    revert hb
    cases ensureSafe (Host.ofVolume ⟨[("root", .dir [])], 0⟩).volume "/" "/root" 0 with
    | ok u => exact fun _ ↦ rfl
    | error e => exact fun hb ↦ by cases hb
  have hlong : digitLimit < (List.replicate (4300 + 1) (49 : UInt8)).length := by
    rw [List.length_replicate]
    decide
  -- a delay of zero seconds takes no pause
  have hrun : syncPaused (Host.ofVolume ⟨[("root", .dir [])], 0⟩)
      (leadInt :: (List.replicate (4300 + 1) 49 ++ [leadEnd])) "/root" ⟨false, 0, .whole 0, false⟩
      "" = .error (.tooManyDigits (List.replicate (4300 + 1) (49 : UInt8)).length) :=
    syncPaused_long_integer_text hsafe (isNaturalText_replicate_one 4300) hlong []
  rw [List.length_replicate] at hrun
  exact hrun

/-! ### A pause the clock refuses -/

/-- Whole seconds convert to nanoseconds exactly when they are at most 9223372036 seconds; more
overflow the signed 64-bit count. -/
theorem Seconds.nanos_whole (n : Int) :
    (Seconds.whole n).nanos =
      if 9223372036 < n then .error .tooLarge else .ok (n.toNat * 1000000000) := by
  have hlimit : clockLimit = 9223372036854775808 := rfl
  simp only [Seconds.nanos, hlimit]
  by_cases hn : 9223372036 < n
  · rw [if_pos hn, if_pos (by omega)]
  · rw [if_neg hn, if_neg (by omega)]

/-- Infinitely many seconds are out of the clock's range. -/
theorem Seconds.nanos_infinity : (Seconds.real (Binary64.infinity false)).nanos = .error .outOfRange :=
  rfl

/-- On a monotonic clock, a sync run with an infinite delay ends the step before any check: the
clock refuses the pause. -/
theorem runSync_infinite_delay {h : Host} {now : Nat} (hc : h.clock = .monotonic now)
    (data : Bytes) (target torrentPath : String) {o : SyncOptions}
    (hd : o.delay = .real (Binary64.infinity false)) :
    runSync h data target o torrentPath = .error (.clock .outOfRange) := by
  have hpos : (Seconds.real (Binary64.infinity false)).positive = true := rfl
  -- the record of the pause is noted first; it leaves the clock as it is
  have hsleep : ∀ h' : Host, h'.clock = .monotonic now →
      h'.sleep (.real (Binary64.infinity false)) = .error .outOfRange := by
    intro h' hc'
    unfold Host.sleep
    simp only [hc', Seconds.nanos_infinity]
  unfold runSync pauseFor
  rw [hd, if_pos hpos, hsleep (h.note _) hc]

end TorrentPrune.Run
