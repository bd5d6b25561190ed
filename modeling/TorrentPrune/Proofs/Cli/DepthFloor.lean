import TorrentPrune.Cli.App
import TorrentPrune.Proofs.Config.Layering
import TorrentPrune.Proofs.Run.Checks

/-!
# The depth floor of the command line

The minimum depth a command line runs with is never below the floor `minSafeDepth`. An option
given is raised to the floor. Otherwise the last `min_depth` of the stored settings is read
leniently: an integer, or integer text, raised to the floor, and the floor for anything else,
for a stored document that is missing, unreadable or no object, and under `--use-defaults`.

Every run a command line starts checks its target against that minimum before anything else, so
a target with fewer path segments than the floor is refused: nothing is removed and no process
is signalled.
-/

namespace TorrentPrune.Cli

open TorrentPrune.Json TorrentPrune.Config TorrentPrune.Run TorrentPrune.Fs TorrentPrune.Unlock

/-- The `min_depth` of the stored settings: the last member of that name in the stored object. -/
def storedMinDepth (v : Volume) (home : String) : Option Value :=
  (storedMembers v home).bind (lookup ·.reverse "min_depth")

/-- The minimum depth of a command line, from the option given and the stored value. -/
def effectiveMinDepth (given : Option Int) (stored : Option Value) : Int :=
  match given with
  | some n => max n minSafeDepth
  | none => lenientDepth stored

/-- The options given override `min_depth` exactly when a minimum depth was given. -/
theorem lookup_overrides_minDepth (inv : Invocation) :
    lookup inv.overrides "min_depth" = inv.minDepth.map Value.int := by
  -- the other options are named apart from `min_depth`, whichever of them are given
  cases h : inv.minDepth <;> cases ht : inv.unlockTimeout <;> cases hd : inv.delay <;>
    cases hl : inv.logFile <;>
    simp [Invocation.overrides, lookup_append, h, ht, hd, hl, apply_ite (lookup · "min_depth")]

/-- Merging the options given: a minimum depth given stands, else the base's last one. -/
theorem lookup_reverse_mergeKnown_minDepth (base : List (String × Value)) (inv : Invocation) :
    lookup (mergeKnown base inv.overrides).reverse "min_depth" =
      (inv.minDepth.map Value.int).or (lookup base.reverse "min_depth") := by
  rw [get_mergeKnown (lookup ·.reverse "min_depth") "min_depth"
    (fun acc n v ↦ lookup_reverse_setMember acc n v _) (by decide)]
  unfold overrideMember
  rw [lookup_overrides_minDepth]
  cases inv.minDepth with
  | none => rfl
  | some n => simp [lookup_reverse_setMember]

/-- The settings a command line resolves are checked from the options given laid over the
defaults under `--use-defaults`, and over the loaded settings otherwise. -/
theorem resolveSettings_snd (s : Session) (inv : Invocation) :
    (s.resolveSettings inv).2 =
      Settings.validate (.object (mergeKnown
        (if inv.useDefaults then Settings.defaults.toMembers
          else (loadConfig s.host.volume s.env.home).2.1) inv.overrides)) false := by
  by_cases hdef : inv.useDefaults <;> simp [Session.resolveSettings, hdef]

theorem resolveSettings_minDepth {s : Session} {inv : Invocation} {conf : Settings}
    {notices : List Notice} (h : (s.resolveSettings inv).2 = .ok (conf, notices)) :
    conf.minDepth = effectiveMinDepth inv.minDepth
      (if inv.useDefaults then none else storedMinDepth s.host.volume s.env.home) := by
  rw [resolveSettings_snd] at h
  rw [minDepth_of_validate h, lookup_reverse_mergeKnown_minDepth]
  cases hgiven : inv.minDepth with
  | some n => rfl
  | none =>
    by_cases hdef : inv.useDefaults
    · simp only [hdef, if_true, Option.map_none, Option.none_or]
      rfl
    · simp only [hdef, Bool.false_eq_true, if_false, Option.map_none, Option.none_or]
      rw [lookup_reverse_loadConfig, lenientDepth_or_floor]
      rfl

theorem effectiveMinDepth_floor (given : Option Int) (stored : Option Value) :
    (minSafeDepth : Int) ≤ effectiveMinDepth given stored := by
  cases given with
  | some n => exact Int.le_max_right n minSafeDepth
  | none => exact lenientDepth_floor stored

/-- A run whose target has fewer segments than the minimum is refused before it touches
anything: the volume and the processes holding files are as they were. -/
theorem execute_refuses_shallow (s : Session) (inv : Invocation) (conf : Settings)
    {target : String} {n : Nat} (hc : countSegments s.host.volume "/" target = .ok n)
    (hn : (n : Int) < conf.minDepth) :
    ∃ h o, s.execute inv conf target = .ok (h, o) ∧ h.volume = s.host.volume ∧
      h.holders = s.host.holders ∧ o.ok = false := by
  have hguard := ensureSafe_of_shallow hc hn
  unfold Session.execute
  cases inv.command with
  -- either run stops at the guard with a note and a failed result
  | sync =>
    simp only [runSyncFile, hguard, failSync, Functor.map, Except.map, Except.ok.injEq,
      Prod.mk.injEq]
    exact ⟨_, _, ⟨rfl, rfl⟩, rfl, rfl, rfl⟩
  | unlock =>
    simp only [runUnlock, hguard, Functor.map, Except.map, Except.ok.injEq, Prod.mk.injEq]
    exact ⟨_, _, ⟨rfl, rfl⟩, rfl, rfl, rfl⟩

/-- The minimum depth a command line runs with is the option given raised to the floor, or
else the stored `min_depth` read leniently; it is never below the floor, so every run it starts
refuses a target with fewer segments than the floor, with nothing removed and no process
signalled. -/
theorem runs_keep_depth_floor (s : Session) (inv : Invocation) (conf : Settings)
    (notices : List Notice) (h : (s.resolveSettings inv).2 = .ok (conf, notices)) :
    conf.minDepth = effectiveMinDepth inv.minDepth
        (if inv.useDefaults then none else storedMinDepth s.host.volume s.env.home) ∧
      (minSafeDepth : Int) ≤ conf.minDepth ∧
      ∀ (s' : Session) (target : String) (n : Nat),
        countSegments s'.host.volume "/" target = .ok n → (n : Int) < minSafeDepth →
          ∃ h o, s'.execute inv conf target = .ok (h, o) ∧ h.volume = s'.host.volume ∧
            h.holders = s'.host.holders ∧ o.ok = false := by
  have hdepth := resolveSettings_minDepth h
  have hfloor : (minSafeDepth : Int) ≤ conf.minDepth := hdepth ▸ effectiveMinDepth_floor _ _
  refine ⟨hdepth, hfloor, ?_⟩
  intro s' target n hc hn
  exact execute_refuses_shallow s' inv conf hc (by omega)

/-- A minimum depth of one given under `--use-defaults` runs at the floor, and an empty target
is refused. -/
theorem depth_one_given_runs_at_floor :
    ((default : Session).resolveSettings
        { (default : Invocation) with minDepth := some 1, useDefaults := true }).2 =
      .ok ({ Settings.defaults with minDepth := 3 }, [.replaced (.belowFloor 1)]) ∧
    ({ Settings.defaults with minDepth := 3 } : Settings).minDepth = effectiveMinDepth (some 1) none ∧
    ∃ h o, (default : Session).execute
        { (default : Invocation) with minDepth := some 1, useDefaults := true }
        { Settings.defaults with minDepth := 3 } "" = .ok (h, o) ∧
      h.volume = (default : Session).host.volume ∧ h.holders = (default : Session).host.holders ∧
      o.ok = false := by
  have hres : ((default : Session).resolveSettings
      { (default : Invocation) with minDepth := some 1, useDefaults := true }).2 =
      .ok ({ Settings.defaults with minDepth := 3 }, [.replaced (.belowFloor 1)]) := rfl
  obtain ⟨hdepth, -, hrun⟩ := runs_keep_depth_floor _ _ _ _ hres
  exact ⟨hres, hdepth, hrun default "" 0 rfl (by decide)⟩

end TorrentPrune.Cli
