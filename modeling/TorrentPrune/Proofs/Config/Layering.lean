import TorrentPrune.Config.Store
import TorrentPrune.Config.Validation

/-!
# Layered settings

Settings are member lists laid one over another: the stored members over the defaults, the
options given over the stored members, and everything once more over the defaults when it is
checked. A name is read by `lookup`, the first member of that name; where a list may hold a name
twice it is read from the reversed list, the last member of that name, which is what a JSON
object means by it. Setting a member answers both readings the same way, so each layering is
described by what it gives one name, whichever way that name is read.

The main statement is `minDepth_of_validate`: the depth guard's minimum that lenient checking
settles on is the last `min_depth` laid over the defaults, raised to the floor, integer text read
as its integer, and anything else replaced by the floor.
-/

namespace TorrentPrune.Json

@[simp] theorem lookup_nil (k : String) : lookup [] k = none := rfl

@[simp] theorem lookup_cons (m : String × Value) (ms : List (String × Value)) (k : String) :
    lookup (m :: ms) k = if m.1 = k then some m.2 else lookup ms k := by
  by_cases h : m.1 = k <;> simp [lookup, h]

theorem lookup_append (xs ys : List (String × Value)) (k : String) :
    lookup (xs ++ ys) k = (lookup xs k).or (lookup ys k) := by
  induction xs with
  | nil => rfl
  | cons m xs ih => by_cases h : m.1 = k <;> simp [h, ih]

theorem lookup_eq_none_of_any (ms : List (String × Value)) (k : String)
    (h : ms.any (fun m ↦ m.1 == k) = false) : lookup ms k = none := by
  induction ms with
  | nil => rfl
  | cons m ms ih =>
    simp only [List.any_cons, Bool.or_eq_false_iff, beq_eq_false_iff_ne] at h
    simp [h.1, ih h.2]

/-- Replacing every member named `n` by `(n, v)` gives `n` the value `v` when it was there and
leaves every other name as it was. -/
theorem lookup_replaceAll (ms : List (String × Value)) (n k : String) (v : Value) :
    lookup (ms.map fun m ↦ if m.1 == n then (n, v) else m) k =
      if n = k ∧ ms.any (fun m ↦ m.1 == n) = true then some v else lookup ms k := by
  induction ms with
  | nil => simp
  | cons m ms ih =>
    rw [List.map_cons, lookup_cons, ih, lookup_cons]
    by_cases hm : m.1 = n <;> by_cases hk : n = k
    · simp [hm, hk]
    · simp [hm, hk]
    · have hne : (m.1 == n) = false := beq_eq_false_iff_ne.mpr hm
      subst hk
      rw [List.any_cons, hne, Bool.false_or]
      simp [hm]
    · simp [hm, hk]

/-- After `setMember`, the first member of the name set is the value set. -/
theorem lookup_setMember (ms : List (String × Value)) (n : String) (v : Value) (k : String) :
    lookup (setMember ms n v) k = if n = k then some v else lookup ms k := by
  unfold setMember
  split
  case isTrue hany =>
    rw [lookup_replaceAll]
    by_cases hk : n = k
    · rw [if_pos ⟨hk, hany⟩, if_pos hk]
    · simp [hk]
  case isFalse hany =>
    rw [lookup_append]
    by_cases hk : n = k
    · subst hk
      simp [lookup_eq_none_of_any ms n ((Bool.not_eq_true _).mp hany)]
    · simp [hk]

/-- After `setMember`, the last member of the name set is the value set. -/
theorem lookup_reverse_setMember (ms : List (String × Value)) (n : String) (v : Value)
    (k : String) :
    lookup (setMember ms n v).reverse k = if n = k then some v else lookup ms.reverse k := by
  unfold setMember
  split
  case isTrue hany =>
    rw [← List.map_reverse, lookup_replaceAll, List.any_reverse]
    by_cases hk : n = k
    · rw [if_pos ⟨hk, hany⟩, if_pos hk]
    · simp [hk]
  case isFalse hany =>
    simp

theorem lookup_removeMember (ms : List (String × Value)) {n k : String} (h : n ≠ k) :
    lookup (removeMember ms n) k = lookup ms k := by
  induction ms with
  | nil => rfl
  | cons m ms ih =>
    by_cases hm : m.1 = n
    · simp [removeMember, hm, h] at ih ⊢
      exact ih
    · simp [removeMember, hm] at ih ⊢
      rw [ih]

theorem reverse_removeMember (ms : List (String × Value)) (n : String) :
    (removeMember ms n).reverse = removeMember ms.reverse n :=
  List.filter_reverse.symm

end TorrentPrune.Json

namespace TorrentPrune.Config

open TorrentPrune.Json TorrentPrune.Number TorrentPrune.Text TorrentPrune.Fs

section View

/-! ### One name, read either way

A reading of the name `k` that `setMember` answers as `lookup` does: `lookup · k` and
`lookup ·.reverse k`. -/

variable (get : List (String × Value) → Option Value) (k : String)
  (hget : ∀ acc n v, get (setMember acc n v) = if n = k then some v else get acc)

include hget in
/-- Members laid one after another over a base: the last member named `k`, if any, else what
the base gave. -/
theorem get_foldl_setMember (ms base : List (String × Value)) :
    get (ms.foldl (fun acc m ↦ setMember acc m.1 m.2) base) = (lookup ms.reverse k).or (get base) := by
  induction ms generalizing base with
  | nil => simp
  | cons m ms ih =>
    rw [List.foldl_cons, ih, hget, List.reverse_cons, lookup_append]
    by_cases hk : m.1 = k <;> simp [hk]

include hget in
/-- Laying an override of another name leaves `k` as it was. -/
theorem get_overrideMember_of_ne (overrides acc : List (String × Value)) {name : String}
    (hne : name ≠ k) : get (overrideMember overrides acc name) = get acc := by
  unfold overrideMember
  split
  · rfl
  · rfl
  · rw [hget, if_neg hne]

include hget in
/-- An override of `k` is laid over what the members gave `k`, and nothing else of them counts. -/
theorem get_overrideMember_congr (overrides : List (String × Value)) {xs ys : List (String × Value)}
    (h : get xs = get ys) : get (overrideMember overrides xs k) = get (overrideMember overrides ys k) := by
  unfold overrideMember
  split
  · exact h
  · exact h
  · rw [hget, hget, if_pos rfl, if_pos rfl]

include hget in
theorem get_foldl_overrideMember_of_not_mem (overrides : List (String × Value)) {names : List String}
    (hk : k ∉ names) (acc : List (String × Value)) :
    get (names.foldl (overrideMember overrides) acc) = get acc := by
  induction names generalizing acc with
  | nil => rfl
  | cons name names ih =>
    rw [List.mem_cons, not_or] at hk
    rw [List.foldl_cons, ih hk.2, get_overrideMember_of_ne get k hget _ _ (Ne.symm hk.1)]

include hget in
/-- Merging reads a known name as that one override laid over the base: the known names are
distinct, so no other step of the merge touches it. -/
theorem get_mergeKnown (hk : k ∈ knownNames) (base overrides : List (String × Value)) :
    get (mergeKnown base overrides) = get (overrideMember overrides base k) := by
  obtain ⟨pre, post, hsplit⟩ := List.append_of_mem hk
  have hnd : (pre ++ k :: post).Nodup := hsplit ▸ (by decide : knownNames.Nodup)
  have hout : k ∉ pre ∧ k ∉ post := by
    rw [List.nodup_append, List.nodup_cons] at hnd
    exact ⟨fun hpre ↦ hnd.2.2 k hpre k List.mem_cons_self rfl, hnd.2.1.1⟩
  unfold mergeKnown
  rw [hsplit, List.foldl_append, List.foldl_cons,
    get_foldl_overrideMember_of_not_mem get k hget _ hout.2]
  exact get_overrideMember_congr get k hget _
    (get_foldl_overrideMember_of_not_mem get k hget _ hout.1 base)

end View

theorem lookup_overDefaults (members : List (String × Value)) (k : String) :
    lookup (overDefaults members) k =
      (lookup members.reverse k).or (lookup Settings.defaults.toMembers k) :=
  get_foldl_setMember (lookup · k) k (fun acc n v ↦ lookup_setMember acc n v k) members _

theorem lookup_reverse_overDefaults (members : List (String × Value)) (k : String) :
    lookup (overDefaults members).reverse k =
      (lookup members.reverse k).or (lookup Settings.defaults.toMembers.reverse k) :=
  get_foldl_setMember (lookup ·.reverse k) k (fun acc n v ↦ lookup_reverse_setMember acc n v k)
    members _

/-! ### The minimum depth that checking settles on -/

/-- The minimum depth lenient checking makes of a `min_depth` value: an integer, or integer text
read after trimming, raised to the floor; the floor for anything else, absence included. -/
def lenientDepth : Option Value → Int
  | some (.int n) => max n minSafeDepth
  | some (.str t) =>
    match readIntText (trim t) with
    | .ok n => max n minSafeDepth
    | .error _ => minSafeDepth
  | _ => minSafeDepth

/-- Lenient checking never refuses a minimum depth, and the depth it gives is `lenientDepth`. -/
theorem checkMinDepth_lenient (v : Value) :
    ∃ notices, checkMinDepth false v = .ok (lenientDepth (some v), notices) := by
  cases v with
  | null => exact ⟨[], rfl⟩
  | int n =>
    by_cases hn : n < minSafeDepth
    · have hmax : max n minSafeDepth = minSafeDepth := by omega
      exact ⟨[.replaced (.belowFloor n)], by simp [checkMinDepth, depthReading?, reject,
        lenientDepth, hn, hmax]⟩
    · have hmax : max n minSafeDepth = n := by omega
      exact ⟨[], by simp [checkMinDepth, depthReading?, lenientDepth, hn, hmax]⟩
  | str t =>
    cases hread : readIntText (trim t) with
    | error e =>
      exact ⟨[.replaced (.wrongType "min_depth" "int" "str")], by
        simp [checkMinDepth, depthReading?, reject, lenientDepth, hread, Value.typeName]⟩
    | ok n =>
      by_cases hn : n < minSafeDepth
      · have hmax : max n minSafeDepth = minSafeDepth := by omega
        exact ⟨[.replaced (.belowFloor n)], by simp [checkMinDepth, depthReading?, reject,
          lenientDepth, hread, hn, hmax]⟩
      · have hmax : max n minSafeDepth = n := by omega
        exact ⟨[], by simp [checkMinDepth, depthReading?, lenientDepth, hread, hn, hmax]⟩
  | bool b => exact ⟨_, rfl⟩
  | float x => exact ⟨_, rfl⟩
  | array items => exact ⟨_, rfl⟩
  | object members => exact ⟨_, rfl⟩

theorem lenientDepth_floor (x : Option Value) : (minSafeDepth : Int) ≤ lenientDepth x := by
  unfold lenientDepth
  repeat' split
  all_goals omega

/-- A `min_depth` that is absent and one that is null come to the same. -/
theorem lenientDepth_getD_null (x : Option Value) :
    lenientDepth (some (x.getD .null)) = lenientDepth x := by
  cases x with
  | none => rfl
  | some v => rfl

/-- A `min_depth` that is absent and one at the floor come to the same. -/
theorem lenientDepth_or_floor (x : Option Value) :
    lenientDepth (x.or (some (.int minSafeDepth))) = lenientDepth x := by
  cases x with
  | none => simp [lenientDepth]
  | some v => rfl

theorem exists_of_bind_eq_ok {ε α β : Type} {x : Except ε α} {f : α → Except ε β} {b : β}
    (h : x >>= f = .ok b) : ∃ a, x = .ok a ∧ f a = .ok b := by
  cases x with
  | error e => cases h
  | ok a => exact ⟨a, rfl, h⟩

/-- What checking an object did: each check passed on the member of its name laid over the
defaults, and the settings hold what the checks gave. -/
theorem validate_object_eq_ok {members : List (String × Value)} {strict : Bool}
    {conf : Settings} {notices : List Notice}
    (h : Settings.validate (.object members) strict = .ok (conf, notices)) :
    (∃ ns, checkFlag strict "dry_run" Settings.defaults.dryRun
      (memberValue (overDefaults members) "dry_run") = .ok (conf.dryRun, ns)) ∧
    (∃ ns, checkFlag strict "unlock_before_sync" Settings.defaults.unlockBeforeSync
      (memberValue (overDefaults members) "unlock_before_sync") = .ok (conf.unlockBeforeSync, ns)) ∧
    (∃ ns, checkFlag strict "log_to_file" Settings.defaults.logToFile
      (memberValue (overDefaults members) "log_to_file") = .ok (conf.logToFile, ns)) ∧
    (∃ t ns, checkText strict "log_level" Settings.defaults.logLevel
      (memberValue (overDefaults members) "log_level") = .ok (t, ns) ∧ conf.logLevel = upper t) ∧
    (∃ ns, checkText strict "log_file" Settings.defaults.logFile
      (memberValue (overDefaults members) "log_file") = .ok (conf.logFile, ns)) ∧
    (∃ ns, checkDuration strict "delay_seconds" Settings.defaults.delaySeconds
      (memberValue (overDefaults members) "delay_seconds") = .ok (conf.delaySeconds, ns)) ∧
    (∃ ns, checkDuration strict "unlock_timeout" Settings.defaults.unlockTimeout
      (memberValue (overDefaults members) "unlock_timeout") = .ok (conf.unlockTimeout, ns)) ∧
    (∃ ns, checkMinDepth strict (memberValue (overDefaults members) "min_depth") =
      .ok (conf.minDepth, ns)) ∧
    conf.extras = (overDefaults members).filter fun m ↦ !isKnown m.1 := by
  simp only [Settings.validate] at h
  obtain ⟨⟨_, n1⟩, h1, h⟩ := exists_of_bind_eq_ok h
  obtain ⟨⟨_, n2⟩, h2, h⟩ := exists_of_bind_eq_ok h
  obtain ⟨⟨_, n3⟩, h3, h⟩ := exists_of_bind_eq_ok h
  obtain ⟨⟨_, n4⟩, h4, h⟩ := exists_of_bind_eq_ok h
  obtain ⟨⟨_, n5⟩, h5, h⟩ := exists_of_bind_eq_ok h
  obtain ⟨⟨_, n6⟩, h6, h⟩ := exists_of_bind_eq_ok h
  obtain ⟨⟨_, n7⟩, h7, h⟩ := exists_of_bind_eq_ok h
  obtain ⟨⟨_, n8⟩, h8, h⟩ := exists_of_bind_eq_ok h
  cases h
  exact ⟨⟨n1, h1⟩, ⟨n2, h2⟩, ⟨n3, h3⟩, ⟨_, n4, h4, rfl⟩, ⟨n5, h5⟩, ⟨n6, h6⟩, ⟨n7, h7⟩,
    ⟨n8, h8⟩, rfl⟩

/-- Checking an object leniently gives the depth guard the last `min_depth` the object holds,
read by `lenientDepth`. The checks before it may stop the settings, but never change it. -/
theorem minDepth_of_validate {members : List (String × Value)} {conf : Settings}
    {notices : List Notice} (h : Settings.validate (.object members) false = .ok (conf, notices)) :
    conf.minDepth = lenientDepth (lookup members.reverse "min_depth") := by
  obtain ⟨-, -, -, -, -, -, -, ⟨_, hdepth⟩, -⟩ := validate_object_eq_ok h
  obtain ⟨_, hlenient⟩ := checkMinDepth_lenient (memberValue (overDefaults members) "min_depth")
  rw [hlenient] at hdepth
  have hd := (Prod.mk.inj (Except.ok.inj hdepth)).1
  have hdefault : lookup Settings.defaults.toMembers "min_depth" = some (.int minSafeDepth) := by
    rfl
  rw [← hd, memberValue, lenientDepth_getD_null, lookup_overDefaults, hdefault,
    lenientDepth_or_floor]

/-! ### The stored settings -/

/-- The members of the stored settings document: present when the settings file exists, reads
as text, parses and holds an object. -/
def storedMembers (v : Volume) (home : String) : Option (List (String × Value)) :=
  let (v, path) := configPath v home
  if v.exists "/" path then
    match readText v path >>= parseText with
    | .ok (.object members) => some members
    | _ => none
  else none

/-- Loaded settings hold the last stored `min_depth`, or the default when none is stored. -/
theorem lookup_reverse_loadConfig (v : Volume) (home : String) :
    lookup (loadConfig v home).2.1.reverse "min_depth" =
      ((storedMembers v home).bind (lookup ·.reverse "min_depth")).or
        (some (.int minSafeDepth)) := by
  have hdefault : lookup Settings.defaults.toMembers.reverse "min_depth" =
      some (.int minSafeDepth) := by
    rfl
  unfold loadConfig storedMembers
  obtain ⟨v', path⟩ := configPath v home
  by_cases hex : v'.exists "/" path
  · simp only [hex, Bool.not_true, Bool.false_eq_true, if_false, if_true]
    cases hdoc : (readText v' path >>= parseText) with
    | error msg => simp [hdefault]
    | ok doc =>
      cases doc with
      | object members =>
        simp only [Option.bind_some]
        rw [lookup_reverse_overDefaults, hdefault, reverse_removeMember,
          lookup_removeMember _ (by decide)]
      | _ => simp [hdefault]
  · simp [hex, hdefault]

end TorrentPrune.Config
