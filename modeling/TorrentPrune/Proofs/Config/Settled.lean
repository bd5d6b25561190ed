import TorrentPrune.Proofs.Config.Layering
import TorrentPrune.Proofs.Text.Case

/-!
# Settled settings

Checking makes settings of raw settings, and what it makes is settled: checking their stored form
again, leniently or strictly, gives the same settings back with nothing to report
(`Settings.validate_output_is_fixed_point`). One property of the result carries this,
`Settings.Settled`: a minimum depth at the floor or above, durations at least zero, a log level
that is trimmed, upper case and not empty, a trimmed log file, and other members named apart.
Every accepted check gives a value of that kind (`Settings.settled_of_validate`), since trimming
and upper-casing settle in one pass; and every check takes such a value back silently
(`Settings.validate_settled`).

Setting a member replaces it in place or appends it when its name is missing, so member names stay
distinct, and the stored form laid over the defaults once more comes back as it was.
-/

namespace TorrentPrune.Json

/-- Setting a member keeps the names there and appends the name set when it was missing. -/
theorem names_setMember (ms : List (String × Value)) (n : String) (v : Value) :
    (setMember ms n v).map Prod.fst =
      if ms.any (fun m ↦ m.1 == n) then ms.map Prod.fst else ms.map Prod.fst ++ [n] := by
  unfold setMember
  split
  · rw [List.map_map]
    apply List.map_congr_left
    intro m _
    by_cases h : m.1 = n <;> simp [h]
  · simp

/-- Setting a member keeps member names distinct. -/
theorem nodup_names_setMember {ms : List (String × Value)} (h : (ms.map Prod.fst).Nodup)
    (n : String) (v : Value) : ((setMember ms n v).map Prod.fst).Nodup := by
  rw [names_setMember]
  split
  · exact h
  · next hany =>
    rw [List.nodup_append]
    refine ⟨h, by simp, ?_⟩
    simp only [Bool.not_eq_true, List.any_eq_false, beq_iff_eq] at hany
    simp only [List.mem_map, List.mem_singleton]
    rintro _ ⟨m, hm, rfl⟩ _ rfl hname
    exact hany m hm hname

/-- A name that no member has is matched by none of them. -/
theorem any_name_eq_false {ms : List (String × Value)} {n : String} (h : n ∉ ms.map Prod.fst) :
    ms.any (fun m ↦ m.1 == n) = false := by
  simp only [List.any_eq_false, beq_iff_eq]
  intro m hm hn
  exact h (List.mem_map.mpr ⟨m, hm, hn⟩)

/-- Setting a member of a name not there appends it. -/
theorem setMember_of_not_mem {ms : List (String × Value)} {n : String}
    (h : n ∉ ms.map Prod.fst) (v : Value) : setMember ms n v = ms ++ [(n, v)] := by
  simp [setMember, any_name_eq_false h]

/-- Members of names not there, and distinct among themselves, are appended in order. -/
theorem foldl_setMember_fresh (ms acc : List (String × Value))
    (hfresh : ∀ m ∈ ms, m.1 ∉ acc.map Prod.fst) (hnd : (ms.map Prod.fst).Nodup) :
    ms.foldl (fun acc m ↦ setMember acc m.1 m.2) acc = acc ++ ms := by
  induction ms generalizing acc with
  | nil => simp
  | cons m ms ih =>
    rw [List.map_cons, List.nodup_cons] at hnd
    rw [List.foldl_cons, setMember_of_not_mem (hfresh m List.mem_cons_self)]
    rw [ih]
    · simp
    · intro m' hm' hmem
      rw [List.map_append, List.mem_append] at hmem
      rcases hmem with hacc | hlast
      · exact hfresh m' (List.mem_cons_of_mem _ hm') hacc
      · rw [List.map_singleton, List.mem_singleton] at hlast
        exact hnd.1 (hlast ▸ List.mem_map_of_mem hm')
    · exact hnd.2

/-- A name that no member has reads as nothing. -/
theorem lookup_eq_none_of_not_mem {ms : List (String × Value)} {k : String}
    (h : k ∉ ms.map Prod.fst) : lookup ms k = none :=
  lookup_eq_none_of_any ms k (any_name_eq_false h)

/-- Keeping members by their name keeps what a kept name reads. -/
theorem lookup_filter_of {ms : List (String × Value)} {p : String → Bool} {k : String}
    (hk : p k = true) : lookup (ms.filter fun m ↦ p m.1) k = lookup ms k := by
  induction ms with
  | nil => rfl
  | cons m ms ih =>
    by_cases hm : m.1 = k
    · simp [hm, hk]
    · by_cases hp : p m.1 <;> simp [hp, hm, ih]

end TorrentPrune.Json

namespace TorrentPrune.Config

open TorrentPrune.Json TorrentPrune.Number TorrentPrune.Text

/-! ### What each check gives -/

/-- The value a text setting settles on: the trimmed text, or the fallback for an empty text and
for anything that is not text. -/
def textSetting (fallback : String) : Option Value → String
  | some (.str s) => if (trim s).isEmpty then fallback else trim s
  | _ => fallback

example : textSetting "INFO" (some (.str " debug\n")) = "debug" ∧
    textSetting "INFO" (some (.str "\t")) = "INFO" ∧ textSetting "INFO" (some (.int 10)) = "INFO" := by
  decide

/-- What a rejection lets through is the fallback. -/
theorem eq_fallback_of_reject {α : Type} {strict : Bool} {fault : Fault} {fallback x : α}
    {ns : List Notice} (h : reject strict fault fallback = .ok (x, ns)) : x = fallback := by
  unfold reject at h
  split at h
  · cases h
  · cases h
    rfl

/-- What a rejection lets through after earlier notices is the fallback. -/
theorem eq_fallback_of_reject_map {α : Type} {strict : Bool} {fault : Fault} {fallback x : α}
    {pre ns : List Notice}
    (h : (reject strict fault fallback).map (fun r ↦ (r.1, pre ++ r.2)) = .ok (x, ns)) :
    x = fallback := by
  unfold reject at h
  split at h
  · cases h
  · cases h
    rfl

/-- An accepted text setting is the trimmed text, or the fallback. -/
theorem checkText_eq_ok {strict : Bool} {field fallback t : String} {v : Value}
    {ns : List Notice} (h : checkText strict field fallback v = .ok (t, ns)) :
    t = textSetting fallback (some v) := by
  unfold checkText at h
  split at h
  · cases h
    rfl
  · -- `cases h` would unfold `trim` to compare both sides
    obtain ⟨ht, -⟩ := Prod.mk.inj (Except.ok.inj h)
    exact ht.symm
  · next hnull hstr =>
    rw [eq_fallback_of_reject h]
    cases v with
    | str s => exact absurd rfl (hstr s)
    | _ => rfl

/-- A text setting with a trimmed fallback is trimmed. -/
theorem trim_textSetting {fallback : String} (hfb : trim fallback = fallback)
    (x : Option Value) : trim (textSetting fallback x) = textSetting fallback x := by
  unfold textSetting
  split
  · split
    · exact hfb
    · exact trim_trim _
  · exact hfb

/-- A text setting with a fallback that is not empty is not empty. -/
theorem isEmpty_textSetting {fallback : String} (hfb : fallback.isEmpty = false)
    (x : Option Value) : (textSetting fallback x).isEmpty = false := by
  unfold textSetting
  split
  · split
    · exact hfb
    · next hne => exact Bool.eq_false_iff.mpr hne
  · exact hfb

/-- An accepted duration with a fallback at least zero is at least zero. -/
theorem checkDuration_nonnegative {strict : Bool} {field : String} {fallback x : Binary64}
    {v : Value} {ns : List Notice} (hfb : fallback.nonnegative = true)
    (h : checkDuration strict field fallback v = .ok (x, ns)) : x.nonnegative = true := by
  unfold checkDuration at h
  split at h
  · cases h
    exact hfb
  · split at h
    · cases h
    · split at h
      · cases h
        assumption
      · exact (eq_fallback_of_reject_map h) ▸ hfb
    · exact (eq_fallback_of_reject_map h) ▸ hfb

/-- An accepted minimum depth is at the floor or above. -/
theorem checkMinDepth_floor {strict : Bool} {v : Value} {d : Int} {ns : List Notice}
    (h : checkMinDepth strict v = .ok (d, ns)) : (minSafeDepth : Int) ≤ d := by
  unfold checkMinDepth at h
  split at h
  · cases h
    exact Int.le_refl _
  · split at h
    · exact (eq_fallback_of_reject h).symm ▸ Int.le_refl _
    · split at h
      · exact (eq_fallback_of_reject h).symm ▸ Int.le_refl _
      · cases h
        omega

/-! ### Settled settings -/

/-- A name that is not known is none of the known names. -/
theorem not_mem_knownNames {k : String} (h : isKnown k = false) : k ∉ knownNames := by
  simpa [isKnown] using h

/-- Members set one after another over members of distinct names keep the names distinct. -/
theorem nodup_names_foldl_setMember (ms acc : List (String × Value))
    (h : (acc.map Prod.fst).Nodup) :
    ((ms.foldl (fun acc m ↦ setMember acc m.1 m.2) acc).map Prod.fst).Nodup := by
  induction ms generalizing acc with
  | nil => exact h
  | cons m ms ih => exact ih _ (nodup_names_setMember h _ _)

/-- The members that are not known settings, as checking keeps them: named apart, each once. -/
theorem unknownMembers_settled (members : List (String × Value)) :
    (∀ m ∈ (overDefaults members).filter (fun m ↦ !isKnown m.1), isKnown m.1 = false) ∧
      (((overDefaults members).filter fun m ↦ !isKnown m.1).map Prod.fst).Nodup := by
  have hnd : ((overDefaults members).map Prod.fst).Nodup :=
    nodup_names_foldl_setMember members _ (by decide)
  constructor
  · intro m hm
    simpa using (List.mem_filter.mp hm).2
  · exact hnd.sublist ((List.filter_sublist).map _)

/-- Settings that checking gives back as they are, with nothing to report: a depth at the floor
or above, durations at least zero, a log level that is upper case, trimmed and not empty, a
trimmed log file, and other members named apart, each once. -/
structure Settings.Settled (conf : Settings) : Prop where
  minDepth_floor : (minSafeDepth : Int) ≤ conf.minDepth
  delay_nonnegative : conf.delaySeconds.nonnegative = true
  timeout_nonnegative : conf.unlockTimeout.nonnegative = true
  logLevel_trim : trim conf.logLevel = conf.logLevel
  logLevel_upper : upper conf.logLevel = conf.logLevel
  logLevel_isEmpty : conf.logLevel.isEmpty = false
  logFile_trim : trim conf.logFile = conf.logFile
  extras_unknown : ∀ m ∈ conf.extras, isKnown m.1 = false
  extras_nodup : (conf.extras.map Prod.fst).Nodup

/-- The defaults are settled. -/
theorem Settings.defaults_settled : Settings.defaults.Settled where
  minDepth_floor := by decide
  delay_nonnegative := by decide
  timeout_nonnegative := by decide
  logLevel_trim := by decide
  logLevel_upper := by decide
  logLevel_isEmpty := by decide
  logFile_trim := by decide
  extras_unknown := by simp [Settings.defaults]
  extras_nodup := by simp [Settings.defaults]

/-- Whatever checking accepts, strictly or leniently, it gives back settled. -/
theorem Settings.settled_of_validate {raw : Value} {strict : Bool} {conf : Settings}
    {notices : List Notice} (h : Settings.validate raw strict = .ok (conf, notices)) :
    conf.Settled := by
  cases raw with
  | object members =>
    obtain ⟨-, -, -, ⟨t, _, h4, hlevel⟩, ⟨_, h5⟩, ⟨_, h6⟩, ⟨_, h7⟩, ⟨_, h8⟩, hextras⟩ :=
      validate_object_eq_ok h
    have ht := checkText_eq_ok h4
    have htrim : trim t = t := ht ▸ trim_textSetting (by decide) _
    have hne : t.isEmpty = false := ht ▸ isEmpty_textSetting (by decide) _
    obtain ⟨hunknown, hnodup⟩ := unknownMembers_settled members
    exact {
      minDepth_floor := checkMinDepth_floor h8
      delay_nonnegative := checkDuration_nonnegative (by decide) h6
      timeout_nonnegative := checkDuration_nonnegative (by decide) h7
      logLevel_trim := hlevel ▸ trim_upper_of_trim htrim
      logLevel_upper := hlevel ▸ upper_upper t
      logLevel_isEmpty := hlevel ▸ (isEmpty_upper t).trans hne
      logFile_trim := checkText_eq_ok h5 ▸ trim_textSetting (by decide) _
      extras_unknown := hextras ▸ hunknown
      extras_nodup := hextras ▸ hnodup }
  | _ => exact (eq_fallback_of_reject h) ▸ Settings.defaults_settled

/-- The members of settled settings have distinct names. -/
theorem Settings.Settled.nodup_names {conf : Settings} (hs : conf.Settled) :
    (conf.toMembers.map Prod.fst).Nodup := by
  have hknown : (conf.knownMembers.map Prod.fst) = knownNames := rfl
  rw [Settings.toMembers, List.map_append, hknown, List.nodup_append]
  refine ⟨by decide, hs.extras_nodup, ?_⟩
  intro a ha b hb hab
  obtain ⟨m, hm, rfl⟩ := List.mem_map.mp hb
  exact not_mem_knownNames (hs.extras_unknown m hm) (hab ▸ ha)

/-! ### Settled settings check back as they are -/

/-- The known members of any settings, laid over the defaults, replace them one for one. -/
theorem foldl_setMember_knownMembers (conf : Settings) :
    conf.knownMembers.foldl (fun acc m ↦ setMember acc m.1 m.2) Settings.defaults.toMembers =
      conf.knownMembers := by
  simp [Settings.knownMembers, Settings.defaults, Settings.toMembers, setMember]

/-- Settled settings laid over the defaults come back as they are. -/
theorem overDefaults_toMembers {conf : Settings} (hs : conf.Settled) :
    overDefaults conf.toMembers = conf.toMembers := by
  unfold overDefaults
  rw [show conf.toMembers = conf.knownMembers ++ conf.extras from rfl, List.foldl_append,
    foldl_setMember_knownMembers]
  refine foldl_setMember_fresh _ _ (fun m hm ↦ ?_) hs.extras_nodup
  exact not_mem_knownNames (hs.extras_unknown m hm)

/-- Keeping the members that are not known settings keeps the others of settled settings. -/
theorem filter_toMembers {conf : Settings} (hs : conf.Settled) :
    conf.toMembers.filter (fun m ↦ !isKnown m.1) = conf.extras := by
  have hknown : conf.knownMembers.filter (fun m ↦ !isKnown m.1) = [] := by
    simp [Settings.knownMembers, isKnown, knownNames]
  have hextras : conf.extras.filter (fun m ↦ !isKnown m.1) = conf.extras :=
    List.filter_eq_self.mpr fun m hm ↦ by simp [hs.extras_unknown m hm]
  rw [Settings.toMembers, List.filter_append, hknown, hextras, List.nil_append]

/-- A known setting reads as its own member, whatever other members follow. -/
theorem memberValue_toMembers {conf : Settings} {k : String} {v : Value}
    (h : lookup conf.knownMembers k = some v) : memberValue conf.toMembers k = v := by
  simp [memberValue, Settings.toMembers, lookup_append, h]

/-- A trimmed text that is not empty, or is the fallback, passes as it is. -/
theorem checkText_of_trim {strict : Bool} {field fallback t : String} (ht : trim t = t)
    (he : t.isEmpty = false ∨ t = fallback) :
    checkText strict field fallback (.str t) = .ok (t, []) := by
  simp only [checkText, ht]
  rcases he with he | he <;> simp [he]

/-- A float at least zero passes as it is. -/
theorem checkDuration_of_nonnegative {strict : Bool} {field : String} {fallback x : Binary64}
    (hx : x.nonnegative = true) : checkDuration strict field fallback (.float x) = .ok (x, []) := by
  simp [checkDuration, durationReading, hx]

/-- An integer at the floor or above passes as it is. -/
theorem checkMinDepth_of_floor {strict : Bool} {d : Int} (hd : (minSafeDepth : Int) ≤ d) :
    checkMinDepth strict (.int d) = .ok (d, []) := by
  have hlt : ¬ d < minSafeDepth := by omega
  simp [checkMinDepth, depthReading?, hlt]

/-- Checking settled settings, strictly or leniently, gives them back with nothing to report. -/
theorem Settings.validate_settled {conf : Settings} (hs : conf.Settled) (strict : Bool) :
    Settings.validate conf.toValue strict = .ok (conf, []) := by
  have hfile : conf.logFile.isEmpty = false ∨ conf.logFile = Settings.defaults.logFile := by
    cases he : conf.logFile.isEmpty with
    | false => exact Or.inl rfl
    | true => exact Or.inr (String.isEmpty_iff.mp he)
  simp only [Settings.validate, Settings.toValue, overDefaults_toMembers hs, filter_toMembers hs,
    memberValue_toMembers (k := "dry_run") rfl, memberValue_toMembers (k := "log_file") rfl,
    memberValue_toMembers (k := "unlock_before_sync") rfl,
    memberValue_toMembers (k := "log_to_file") rfl, memberValue_toMembers (k := "log_level") rfl,
    memberValue_toMembers (k := "delay_seconds") rfl,
    memberValue_toMembers (k := "unlock_timeout") rfl, memberValue_toMembers (k := "min_depth") rfl]
  rw [checkText_of_trim hs.logLevel_trim (Or.inl hs.logLevel_isEmpty),
    checkText_of_trim hs.logFile_trim hfile, checkDuration_of_nonnegative hs.delay_nonnegative,
    checkDuration_of_nonnegative hs.timeout_nonnegative, checkMinDepth_of_floor hs.minDepth_floor]
  simp only [checkFlag, bind, Except.bind, pure, Except.pure, hs.logLevel_upper, List.append_nil]

/-- A run whose result is known through a projection was accepted, with that projection. -/
theorem exists_of_toOption_map_eq_some {ε α β : Type} {x : Except ε α} {f : α → β} {b : β}
    (h : x.toOption.map f = some b) : ∃ a, x = .ok a ∧ f a = b := by
  cases x with
  | error e => cases h
  | ok a => exact ⟨a, rfl, Option.some.inj h⟩

/-- What lenient checking gives is settled: checking it again, leniently or strictly, gives it
back with nothing to report. -/
theorem Settings.validate_output_is_fixed_point {raw : Value} {conf : Settings}
    {notices : List Notice} (h : Settings.validate raw false = .ok (conf, notices)) :
    Settings.validate conf.toValue false = .ok (conf, []) ∧
      Settings.validate conf.toValue true = .ok (conf, []) := by
  have hs := Settings.settled_of_validate h
  exact ⟨Settings.validate_settled hs false, Settings.validate_settled hs true⟩

/-- Settings checked from text to trim and upper-case, text for a depth and for a flag, an integer
delay and a null member of its own check back as they are. -/
theorem Settings.validate_output_is_fixed_point_mixed :
    ∃ conf notices, Settings.validate (.object [("log_level", .str " straße "),
        ("min_depth", .str "+6"), ("dry_run", .str "yes"), ("delay_seconds", .int 7),
        ("plugin", .null)]) false = .ok (conf, notices) ∧
      conf.logLevel = "STRASSE" ∧ conf.minDepth = 6 ∧
      Settings.validate conf.toValue false = .ok (conf, []) ∧
      Settings.validate conf.toValue true = .ok (conf, []) := by
  have hval : (Settings.validate (.object [("log_level", .str " straße "),
      ("min_depth", .str "+6"), ("dry_run", .str "yes"), ("delay_seconds", .int 7),
      ("plugin", .null)]) false).toOption.map
      (fun r ↦ (r.1.logLevel, r.1.minDepth)) = some ("STRASSE", 6) := by decide +kernel
  obtain ⟨⟨conf, notices⟩, hv, hproj⟩ := exists_of_toOption_map_eq_some hval
  simp only [Prod.mk.injEq] at hproj
  exact ⟨conf, notices, hv, hproj.1, hproj.2, Settings.validate_output_is_fixed_point hv⟩

end TorrentPrune.Config
