import TorrentPrune.Proofs.Config.Lenient

/-!
# Strict and lenient checking

Strict checking refuses what lenient checking converts or replaces, and lenient checking reports
every replacement and every conversion but one: it reads integer text as a minimum depth without
a notice, while strict checking refuses text there. So strict checking accepts raw settings
exactly when lenient checking accepts them with nothing to report and their minimum depth is not
given as text; both then give the same settings, and strict checking has nothing to report
either (`Settings.validate_strict_iff_quiet`). A depth of integer text at the floor or above is
the case where the two part (`Settings.validate_quiet_depth_text_refused`).
-/

namespace TorrentPrune.Config

open TorrentPrune.Json TorrentPrune.Number TorrentPrune.Text

/-- A strict run matches a lenient run when it passes, with a value and notices, exactly when the
notices are empty and the lenient run passes with that value and nothing to report. -/
def StrictMatches {α : Type} (strictRun lenientRun : Checked α) : Prop :=
  ∀ a ns, strictRun = .ok (a, ns) ↔ ns = [] ∧ lenientRun = .ok (a, [])

/-- A value passed through without notices matches itself. -/
theorem strictMatches_quiet {α : Type} (x : α) : StrictMatches (.ok (x, [])) (.ok (x, [])) := by
  intro a ns
  constructor
  · intro h
    obtain ⟨rfl, rfl⟩ := Prod.mk.inj (Except.ok.inj h)
    exact ⟨rfl, rfl⟩
  · rintro ⟨rfl, h⟩
    exact h

/-- A fault refused strictly matches the same fault replaced leniently. -/
theorem reject_strictMatches {α : Type} (fault : Fault) (fallback : α) :
    StrictMatches (reject true fault fallback) (reject false fault fallback) := by
  intro a ns
  simp [reject]

/-- A flag is checked strictly as it is leniently, or refused where lenient checking reports. -/
theorem checkFlag_strictMatches (field : String) (fallback : Bool) (v : Value) :
    StrictMatches (checkFlag true field fallback v) (checkFlag false field fallback v) := by
  unfold checkFlag
  split
  · exact strictMatches_quiet _
  · exact strictMatches_quiet _
  · intro a ns
    simp only [Bool.false_eq_true, if_false, if_true]
    split
    · simp [reject]
    · exact reject_strictMatches _ _ a ns

/-- A text is checked strictly as it is leniently, or refused where lenient checking reports. -/
theorem checkText_strictMatches (field fallback : String) (v : Value) :
    StrictMatches (checkText true field fallback v) (checkText false field fallback v) := by
  unfold checkText
  split
  · exact strictMatches_quiet _
  · exact strictMatches_quiet _
  · exact reject_strictMatches _ _

/-- A duration is checked strictly as it is leniently, or refused where lenient checking
reports; an integer beyond the float range stops both. -/
theorem checkDuration_strictMatches (field : String) (fallback : Binary64) (v : Value) :
    StrictMatches (checkDuration true field fallback v) (checkDuration false field fallback v) := by
  intro a ns
  cases v with
  | null => exact strictMatches_quiet _ a ns
  | int n =>
    cases hx : Binary64.ofInt? n with
    | none => simp [checkDuration, durationReading, hx]
    | some x =>
      by_cases hneg : x.nonnegative = true <;>
        simp [checkDuration, durationReading, hx, hneg, reject, Except.map, and_comm]
  | float x =>
    by_cases hneg : x.nonnegative = true <;>
      simp [checkDuration, durationReading, hneg, reject, Except.map, and_comm]
  | str s =>
    -- strictly text is no number; leniently it is reported as read, or replaced
    cases hr : readFloatText (trim s) with
    | none => simp [checkDuration, durationReading, hr, reject, Except.map]
    | some x =>
      by_cases hneg : x.nonnegative = true <;>
        simp [checkDuration, durationReading, hr, hneg, reject, Except.map]
  | bool b => simp [checkDuration, durationReading, reject, Except.map]
  | array items => simp [checkDuration, durationReading, reject, Except.map]
  | object members => simp [checkDuration, durationReading, reject, Except.map]

/-- A minimum depth that is not text is checked strictly as it is leniently, or refused where
lenient checking reports. -/
theorem checkMinDepth_strictMatches {v : Value} (hv : ∀ s, v ≠ .str s) :
    StrictMatches (checkMinDepth true v) (checkMinDepth false v) := by
  intro a ns
  cases v with
  | null => exact strictMatches_quiet _ a ns
  | int n =>
    by_cases hn : n < minSafeDepth <;>
      simp [checkMinDepth, depthReading?, hn, reject, and_comm]
  | str s => exact absurd rfl (hv s)
  | bool b => simp [checkMinDepth, depthReading?, reject]
  | float x => simp [checkMinDepth, depthReading?, reject]
  | array items => simp [checkMinDepth, depthReading?, reject]
  | object members => simp [checkMinDepth, depthReading?, reject]

/-- Strictly, a minimum depth given as text is refused. -/
theorem checkMinDepth_strict_text (s : String) :
    checkMinDepth true (.str s) = .error (.refused (.wrongType "min_depth" "int" "str")) := rfl

/-! ### Checking an object -/

/-- Checking an object passes exactly when each check passes on the member of its name laid over
the defaults; the settings hold what the checks gave, and the notices are theirs, in order. -/
theorem validate_object_eq_ok_iff {members : List (String × Value)} {strict : Bool}
    {conf : Settings} {notices : List Notice} :
    Settings.validate (.object members) strict = .ok (conf, notices) ↔
      ∃ n1 n2 n3 t n4 n5 n6 n7 n8,
        checkFlag strict "dry_run" Settings.defaults.dryRun
          (memberValue (overDefaults members) "dry_run") = .ok (conf.dryRun, n1) ∧
        checkFlag strict "unlock_before_sync" Settings.defaults.unlockBeforeSync
          (memberValue (overDefaults members) "unlock_before_sync") =
            .ok (conf.unlockBeforeSync, n2) ∧
        checkFlag strict "log_to_file" Settings.defaults.logToFile
          (memberValue (overDefaults members) "log_to_file") = .ok (conf.logToFile, n3) ∧
        checkText strict "log_level" Settings.defaults.logLevel
          (memberValue (overDefaults members) "log_level") = .ok (t, n4) ∧
        conf.logLevel = upper t ∧
        checkText strict "log_file" Settings.defaults.logFile
          (memberValue (overDefaults members) "log_file") = .ok (conf.logFile, n5) ∧
        checkDuration strict "delay_seconds" Settings.defaults.delaySeconds
          (memberValue (overDefaults members) "delay_seconds") = .ok (conf.delaySeconds, n6) ∧
        checkDuration strict "unlock_timeout" Settings.defaults.unlockTimeout
          (memberValue (overDefaults members) "unlock_timeout") = .ok (conf.unlockTimeout, n7) ∧
        checkMinDepth strict (memberValue (overDefaults members) "min_depth") =
          .ok (conf.minDepth, n8) ∧
        conf.extras = (overDefaults members).filter (fun m ↦ !isKnown m.1) ∧
        notices = n1 ++ n2 ++ n3 ++ n4 ++ n5 ++ n6 ++ n7 ++ n8 := by
  constructor
  · intro h
    simp only [Settings.validate] at h
    obtain ⟨⟨_, n1⟩, h1, h⟩ := exists_of_bind_eq_ok h
    obtain ⟨⟨_, n2⟩, h2, h⟩ := exists_of_bind_eq_ok h
    obtain ⟨⟨_, n3⟩, h3, h⟩ := exists_of_bind_eq_ok h
    obtain ⟨⟨t, n4⟩, h4, h⟩ := exists_of_bind_eq_ok h
    obtain ⟨⟨_, n5⟩, h5, h⟩ := exists_of_bind_eq_ok h
    obtain ⟨⟨_, n6⟩, h6, h⟩ := exists_of_bind_eq_ok h
    obtain ⟨⟨_, n7⟩, h7, h⟩ := exists_of_bind_eq_ok h
    obtain ⟨⟨_, n8⟩, h8, h⟩ := exists_of_bind_eq_ok h
    cases h
    exact ⟨n1, n2, n3, t, n4, n5, n6, n7, n8, h1, h2, h3, h4, rfl, h5, h6, h7, h8, rfl, rfl⟩
  · rintro ⟨n1, n2, n3, t, n4, n5, n6, n7, n8, h1, h2, h3, h4, hlevel, h5, h6, h7, h8, hextras,
      rfl⟩
    obtain ⟨minDepth, dryRun, delay, unlockFirst, timeout, logLevel, logToFile, logFile, extras⟩ :=
      conf
    dsimp only at hlevel hextras h1 h2 h3 h5 h6 h7 h8
    subst hlevel hextras
    simp only [Settings.validate, h1, h2, h3, h4, h5, h6, h7, h8]
    rfl

/-- Whether raw settings give their minimum depth, the last one they hold, as text. -/
def depthGivenAsText (raw : Value) : Bool :=
  match rawMember raw "min_depth" with
  | some (.str _) => true
  | _ => false

/-- The minimum depth laid over the defaults is the last one given, or the floor. -/
theorem memberValue_minDepth (members : List (String × Value)) :
    memberValue (overDefaults members) "min_depth" =
      (rawMember (.object members) "min_depth").getD (.int minSafeDepth) := by
  rw [memberValue, lookup_overDefaults, rawMember]
  cases lookup members.reverse "min_depth" with
  | none => rfl
  | some v => rfl

/-- An object gives its minimum depth as text exactly when the member laid over the defaults is
text. -/
theorem depthGivenAsText_eq_false_iff (members : List (String × Value)) :
    depthGivenAsText (.object members) = false ↔
      ∀ s, memberValue (overDefaults members) "min_depth" ≠ .str s := by
  rw [memberValue_minDepth]
  unfold depthGivenAsText
  cases rawMember (.object members) "min_depth" with
  | none => simp
  | some v => cases v <;> simp

/-- Strict checking accepts raw settings exactly when lenient checking accepts them with nothing
to report and their minimum depth is not given as text; both give the same settings, and strict
checking reports nothing either. -/
theorem Settings.validate_strict_iff_quiet (raw : Value) (conf : Settings) (ns : List Notice) :
    Settings.validate raw true = .ok (conf, ns) ↔
      ns = [] ∧ Settings.validate raw false = .ok (conf, []) ∧ depthGivenAsText raw = false := by
  cases raw with
  | object members =>
    rw [validate_object_eq_ok_iff, validate_object_eq_ok_iff, depthGivenAsText_eq_false_iff]
    constructor
    · rintro ⟨n1, n2, n3, t, n4, n5, n6, n7, n8, h1, h2, h3, h4, hlevel, h5, h6, h7, h8, hextras,
        rfl⟩
      -- a depth that passed strictly was not text
      have hv : ∀ s, memberValue (overDefaults members) "min_depth" ≠ .str s := by
        intro s hs
        rw [hs, checkMinDepth_strict_text] at h8
        cases h8
      obtain ⟨rfl, l1⟩ := (checkFlag_strictMatches _ _ _ _ _).mp h1
      obtain ⟨rfl, l2⟩ := (checkFlag_strictMatches _ _ _ _ _).mp h2
      obtain ⟨rfl, l3⟩ := (checkFlag_strictMatches _ _ _ _ _).mp h3
      obtain ⟨rfl, l4⟩ := (checkText_strictMatches _ _ _ _ _).mp h4
      obtain ⟨rfl, l5⟩ := (checkText_strictMatches _ _ _ _ _).mp h5
      obtain ⟨rfl, l6⟩ := (checkDuration_strictMatches _ _ _ _ _).mp h6
      obtain ⟨rfl, l7⟩ := (checkDuration_strictMatches _ _ _ _ _).mp h7
      obtain ⟨rfl, l8⟩ := (checkMinDepth_strictMatches hv _ _).mp h8
      exact ⟨rfl, ⟨[], [], [], t, [], [], [], [], [], l1, l2, l3, l4, hlevel, l5, l6, l7, l8,
        hextras, rfl⟩, hv⟩
    · rintro ⟨rfl, ⟨n1, n2, n3, t, n4, n5, n6, n7, n8, l1, l2, l3, l4, hlevel, l5, l6, l7, l8,
        hextras, hnil⟩, hv⟩
      -- nothing reported overall means nothing reported by any check
      simp only [List.nil_eq, List.append_eq_nil_iff, and_assoc] at hnil
      obtain ⟨rfl, rfl, rfl, rfl, rfl, rfl, rfl, rfl⟩ := hnil
      exact ⟨[], [], [], t, [], [], [], [], [],
        (checkFlag_strictMatches _ _ _ _ _).mpr ⟨rfl, l1⟩,
        (checkFlag_strictMatches _ _ _ _ _).mpr ⟨rfl, l2⟩,
        (checkFlag_strictMatches _ _ _ _ _).mpr ⟨rfl, l3⟩,
        (checkText_strictMatches _ _ _ _ _).mpr ⟨rfl, l4⟩, hlevel,
        (checkText_strictMatches _ _ _ _ _).mpr ⟨rfl, l5⟩,
        (checkDuration_strictMatches _ _ _ _ _).mpr ⟨rfl, l6⟩,
        (checkDuration_strictMatches _ _ _ _ _).mpr ⟨rfl, l7⟩,
        (checkMinDepth_strictMatches hv _ _).mpr ⟨rfl, l8⟩, hextras, rfl⟩
  | _ => simp [Settings.validate, reject]

/-- Text for a minimum depth at the floor or above is accepted leniently with nothing to report,
and refused strictly. -/
theorem Settings.validate_quiet_depth_text_refused :
    Settings.validate (.object [("min_depth", .str "5")]) false =
        .ok ({ Settings.defaults with minDepth := 5 }, []) ∧
      Settings.validate (.object [("min_depth", .str "5")]) true =
        .error (.refused (.wrongType "min_depth" "int" "str")) :=
  ⟨rfl, rfl⟩

end TorrentPrune.Config
