import TorrentPrune.Proofs.Config.Settled

/-!
# Lenient checking

Lenient checking converts or replaces what it cannot use, so it gives settings for any raw value
but one kind: an integer duration beyond the float range stops it (`validate_lenient_ok`,
`validate_lenient_stops`). The settings it gives are settled, hold the last log level given,
trimmed and upper-cased (or `INFO`), and keep every member that is not a known setting as it was
last given (`Settings.validate_lenient_settles`). A duration is only promised to be at least
zero: the text `inf` reads as an infinite one.
-/

namespace TorrentPrune.Config

open TorrentPrune.Json TorrentPrune.Number TorrentPrune.Text

/-- Whether a duration value can be read: anything but an integer beyond the float range. -/
def fitsFloat : Value → Bool
  | .int n => (Binary64.ofInt? n).isSome
  | _ => true

/-- The member raw settings give a name: the last one of that name in an object, none for
anything else. -/
def rawMember (raw : Value) (name : String) : Option Value :=
  match raw with
  | .object members => lookup members.reverse name
  | _ => none

/-- Whether the durations of raw settings can be read. -/
def durationsFit (raw : Value) : Bool :=
  ["delay_seconds", "unlock_timeout"].all fun name ↦ (rawMember raw name).all fitsFloat

/-! ### Lenient checking goes through -/

/-- A step that succeeds followed by one that always succeeds succeeds. -/
theorem exists_bind_eq_ok {ε α β : Type} {x : Except ε α} {f : α → Except ε β}
    (hx : ∃ a, x = .ok a) (hf : ∀ a, ∃ b, f a = .ok b) : ∃ b, x >>= f = .ok b := by
  obtain ⟨a, rfl⟩ := hx
  exact hf a

/-- Leniently, a flag check always passes. -/
theorem checkFlag_lenient (field : String) (fallback : Bool) (v : Value) :
    ∃ r, checkFlag false field fallback v = .ok r := by
  unfold checkFlag
  split
  · exact ⟨_, rfl⟩
  · exact ⟨_, rfl⟩
  · split
    · exact ⟨_, rfl⟩
    · exact ⟨_, rfl⟩

/-- Leniently, a text check always passes. -/
theorem checkText_lenient (field fallback : String) (v : Value) :
    ∃ r, checkText false field fallback v = .ok r := by
  unfold checkText
  split
  · exact ⟨_, rfl⟩
  · exact ⟨_, rfl⟩
  · exact ⟨_, rfl⟩

/-- Only an integer beyond the float range stops the reading of a duration. -/
theorem durationReading_ne_error {strict : Bool} {field : String} {v : Value}
    (hv : fitsFloat v = true) (e : ConfigError) : durationReading strict field v ≠ .error e := by
  cases v with
  | int n =>
    obtain ⟨x, hx⟩ := Option.isSome_iff_exists.mp hv
    simp [durationReading, hx]
  | str s =>
    simp only [durationReading]
    split
    · simp
    · split <;> simp
  | _ => simp [durationReading]

/-- Leniently, a duration check passes on a value that can be read. -/
theorem checkDuration_lenient (field : String) (fallback : Binary64) {v : Value}
    (hv : fitsFloat v = true) : ∃ r, checkDuration false field fallback v = .ok r := by
  unfold checkDuration
  split
  · exact ⟨_, rfl⟩
  · cases hr : durationReading false field v with
    | error e => exact absurd hr (durationReading_ne_error hv e)
    | ok r =>
      obtain ⟨_ | x, ns⟩ := r
      · exact ⟨_, rfl⟩
      · dsimp only
        split
        · exact ⟨_, rfl⟩
        · exact ⟨_, rfl⟩

/-- A duration laid over a default that can be read can be read as the last one given. -/
theorem fitsFloat_memberValue (members : List (String × Value)) {name : String}
    (hdefault : (lookup Settings.defaults.toMembers name).all fitsFloat = true) :
    fitsFloat (memberValue (overDefaults members) name) =
      (lookup members.reverse name).all fitsFloat := by
  rw [memberValue, lookup_overDefaults]
  cases lookup members.reverse name with
  | some v => rfl
  | none =>
    cases hd : lookup Settings.defaults.toMembers name with
    | some v => simpa [hd] using hdefault
    | none => rfl

/-- The durations of an object can be read when the members laid over the defaults can. -/
theorem durationsFit_object (members : List (String × Value)) :
    durationsFit (.object members) =
      (fitsFloat (memberValue (overDefaults members) "delay_seconds") &&
        fitsFloat (memberValue (overDefaults members) "unlock_timeout")) := by
  rw [fitsFloat_memberValue members (by decide), fitsFloat_memberValue members (by decide)]
  simp [durationsFit, rawMember]

/-- Lenient checking gives settings for any raw value whose durations can be read. -/
theorem validate_lenient_ok {raw : Value} (hfit : durationsFit raw = true) :
    ∃ r, Settings.validate raw false = .ok r := by
  cases raw with
  | object members =>
    rw [durationsFit_object, Bool.and_eq_true] at hfit
    obtain ⟨hdelay, htimeout⟩ := hfit
    simp only [Settings.validate]
    refine exists_bind_eq_ok (checkFlag_lenient _ _ _) fun _ ↦ ?_
    refine exists_bind_eq_ok (checkFlag_lenient _ _ _) fun _ ↦ ?_
    refine exists_bind_eq_ok (checkFlag_lenient _ _ _) fun _ ↦ ?_
    refine exists_bind_eq_ok (checkText_lenient _ _ _) fun _ ↦ ?_
    refine exists_bind_eq_ok (checkText_lenient _ _ _) fun _ ↦ ?_
    refine exists_bind_eq_ok (checkDuration_lenient _ _ hdelay) fun _ ↦ ?_
    refine exists_bind_eq_ok (checkDuration_lenient _ _ htimeout) fun _ ↦ ?_
    obtain ⟨_, hdepth⟩ := checkMinDepth_lenient (memberValue (overDefaults members) "min_depth")
    refine exists_bind_eq_ok ⟨_, hdepth⟩ fun _ ↦ ?_
    exact ⟨_, rfl⟩
  | _ => exact ⟨_, rfl⟩

/-- A step that succeeds followed by one that always stops stops. -/
theorem bind_eq_error_of {ε α β : Type} {x : Except ε α} {f : α → Except ε β} {e : ε}
    (hx : ∃ a, x = .ok a) (hf : ∀ a, f a = .error e) : x >>= f = .error e := by
  obtain ⟨a, rfl⟩ := hx
  exact hf a

/-- A duration that cannot be read is an integer beyond the float range, and stops the check. -/
theorem checkDuration_of_fitsFloat_eq_false {strict : Bool} {field : String}
    {fallback : Binary64} {v : Value} (hv : fitsFloat v = false) :
    checkDuration strict field fallback v = .error .tooLargeForFloat := by
  cases v with
  | int n =>
    have hn : Binary64.ofInt? n = none := by simpa [fitsFloat] using hv
    simp [checkDuration, durationReading, hn]
  | _ => cases hv

/-- Lenient checking stops exactly at a duration that cannot be read. -/
theorem validate_lenient_stops {raw : Value} (hfit : durationsFit raw = false) :
    Settings.validate raw false = .error .tooLargeForFloat := by
  cases raw with
  | object members =>
    rw [durationsFit_object] at hfit
    simp only [Settings.validate]
    refine bind_eq_error_of (checkFlag_lenient _ _ _) fun _ ↦ ?_
    refine bind_eq_error_of (checkFlag_lenient _ _ _) fun _ ↦ ?_
    refine bind_eq_error_of (checkFlag_lenient _ _ _) fun _ ↦ ?_
    refine bind_eq_error_of (checkText_lenient _ _ _) fun _ ↦ ?_
    refine bind_eq_error_of (checkText_lenient _ _ _) fun _ ↦ ?_
    -- the delay is checked first: either it stops there or the timeout stops
    cases hdelay : fitsFloat (memberValue (overDefaults members) "delay_seconds") with
    | false =>
      rw [checkDuration_of_fitsFloat_eq_false hdelay]
      rfl
    | true =>
      rw [hdelay, Bool.true_and] at hfit
      refine bind_eq_error_of (checkDuration_lenient _ _ hdelay) fun _ ↦ ?_
      rw [checkDuration_of_fitsFloat_eq_false hfit]
      rfl
  | _ => cases hfit

/-! ### What lenient checking gives -/

/-- A log level laid over the default reads as it would alone, and its absence as the default. -/
theorem textSetting_memberValue (members : List (String × Value)) :
    textSetting "INFO" (some (memberValue (overDefaults members) "log_level")) =
      textSetting "INFO" (lookup members.reverse "log_level") := by
  rw [memberValue, lookup_overDefaults]
  cases lookup members.reverse "log_level" with
  | some v => rfl
  | none => decide

/-- The log level of checked settings is the last one given, trimmed and upper-cased, or `INFO`
when it is absent, empty or not text. -/
theorem logLevel_of_validate {raw : Value} {strict : Bool} {conf : Settings}
    {notices : List Notice} (h : Settings.validate raw strict = .ok (conf, notices)) :
    conf.logLevel = upper (textSetting "INFO" (rawMember raw "log_level")) := by
  cases raw with
  | object members =>
    obtain ⟨-, -, -, ⟨t, _, h4, hlevel⟩, -⟩ := validate_object_eq_ok h
    rw [hlevel, checkText_eq_ok h4]
    exact congrArg upper (textSetting_memberValue members)
  | _ =>
    rw [eq_fallback_of_reject h]
    show "INFO" = upper (textSetting "INFO" none)
    decide

/-- The known members of any settings give an unknown name nothing. -/
theorem lookup_knownMembers_of_unknown (s : Settings) {k : String} (hk : isKnown k = false) :
    lookup s.knownMembers k = none :=
  lookup_eq_none_of_not_mem (not_mem_knownNames hk)

/-- Checked settings keep every member that is not a known setting as it was last given. -/
theorem lookup_unknown_of_validate {raw : Value} {strict : Bool} {conf : Settings}
    {notices : List Notice} (h : Settings.validate raw strict = .ok (conf, notices))
    {k : String} (hk : isKnown k = false) : lookup conf.toMembers k = rawMember raw k := by
  have hkept : (!isKnown k) = true := by simp [hk]
  cases raw with
  | object members =>
    obtain ⟨-, -, -, -, -, -, -, -, hextras⟩ := validate_object_eq_ok h
    have hdefault : lookup Settings.defaults.toMembers k = none :=
      lookup_eq_none_of_not_mem (not_mem_knownNames hk)
    rw [Settings.toMembers, lookup_append, lookup_knownMembers_of_unknown _ hk, Option.none_or,
      hextras, lookup_filter_of (p := fun n ↦ !isKnown n) hkept, lookup_overDefaults, hdefault,
      Option.or_none]
    rfl
  | _ =>
    rw [eq_fallback_of_reject h, Settings.toMembers, lookup_append,
      lookup_knownMembers_of_unknown _ hk]
    rfl

/-- What lenient checking promises of the settings it makes of `raw`: beside the known members,
which every stored form lists first, the other members have names of their own, each once; the
log file is trimmed; the log level is the last one given, trimmed and upper-cased, or `INFO`; the
durations are at least zero, infinity included; the minimum depth is at the floor or above; and
every member that is not a known setting is kept as it was last given. -/
structure Settings.LenientFrom (raw : Value) (conf : Settings) : Prop where
  nodup_names : (conf.toMembers.map Prod.fst).Nodup
  logFile_trim : trim conf.logFile = conf.logFile
  logLevel : conf.logLevel = upper (textSetting "INFO" (rawMember raw "log_level"))
  delay_nonnegative : conf.delaySeconds.nonnegative = true
  timeout_nonnegative : conf.unlockTimeout.nonnegative = true
  minDepth_floor : (minSafeDepth : Int) ≤ conf.minDepth
  unknown_kept : ∀ k, isKnown k = false → lookup conf.toMembers k = rawMember raw k

/-- Lenient checking gives settings for any raw settings whose durations can be read, with all
that `Settings.LenientFrom` promises; it stops at an integer duration beyond the float range. -/
theorem Settings.validate_lenient_settles (raw : Value) :
    (durationsFit raw = true → ∃ conf notices,
      Settings.validate raw false = .ok (conf, notices) ∧ Settings.LenientFrom raw conf) ∧
    (durationsFit raw = false → Settings.validate raw false = .error .tooLargeForFloat) := by
  refine ⟨fun hfit ↦ ?_, validate_lenient_stops⟩
  obtain ⟨⟨conf, notices⟩, h⟩ := validate_lenient_ok hfit
  have hs := Settings.settled_of_validate h
  exact ⟨conf, notices, h, {
    nodup_names := hs.nodup_names
    logFile_trim := hs.logFile_trim
    logLevel := logLevel_of_validate h
    delay_nonnegative := hs.delay_nonnegative
    timeout_nonnegative := hs.timeout_nonnegative
    minDepth_floor := hs.minDepth_floor
    unknown_kept := fun _ hk ↦ lookup_unknown_of_validate h hk }⟩

/-- Raw settings with text to trim and upper-case, text for a depth, an integer delay, a negative
timeout and a member of its own are checked; a timeout of 2^1024 stops the checking. -/
theorem Settings.validate_lenient_settles_mixed :
    (durationsFit (.object [("log_level", .str " straße "),
        ("delay_seconds", .int 7), ("unlock_timeout", .str "-1"), ("min_depth", .str "+6"),
        ("plugin", .bool true)]) = true ∧
      ∃ conf notices, Settings.validate (.object [("log_level", .str " straße "),
        ("delay_seconds", .int 7), ("unlock_timeout", .str "-1"), ("min_depth", .str "+6"),
        ("plugin", .bool true)]) false = .ok (conf, notices) ∧
        Settings.LenientFrom (.object [("log_level", .str " straße "),
        ("delay_seconds", .int 7), ("unlock_timeout", .str "-1"), ("min_depth", .str "+6"),
        ("plugin", .bool true)]) conf) ∧
    (durationsFit (.object [("unlock_timeout", .int (Nat.pow 2 1024))]) = false ∧
      Settings.validate (.object [("unlock_timeout", .int (Nat.pow 2 1024))]) false =
        .error .tooLargeForFloat) :=
  ⟨⟨by decide, (Settings.validate_lenient_settles _).1 (by decide)⟩,
    ⟨by decide +kernel, (Settings.validate_lenient_settles _).2 (by decide +kernel)⟩⟩

/-- Leniently, the text `inf` is an infinite delay, and an integer delay beyond the float range
stops the checking. -/
theorem Settings.validate_lenient_infinite_or_stopped :
    (∃ conf notices, Settings.validate (.object [("delay_seconds", .str "inf")]) false =
        .ok (conf, notices) ∧ conf.delaySeconds.isFinite = false) ∧
      Settings.validate (.object [("delay_seconds", .int (Nat.pow 2 1024))]) false =
        .error .tooLargeForFloat := by
  have hinf : (Settings.validate (.object [("delay_seconds", .str "inf")]) false).toOption.map
      (fun r ↦ r.1.delaySeconds.isFinite) = some false := by decide +kernel
  obtain ⟨⟨conf, notices⟩, hv, hfinite⟩ := exists_of_toOption_map_eq_some hinf
  exact ⟨⟨conf, notices, hv, hfinite⟩, validate_lenient_stops (by decide +kernel)⟩

end TorrentPrune.Config
