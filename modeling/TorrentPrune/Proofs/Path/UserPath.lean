import TorrentPrune.Path.User
import TorrentPrune.Proofs.Manifest.Extraction

/-!
# The normal form of a user's path

Normalising an absolute path leaves one or two leading separators followed by safe components
(neither empty, `.` nor `..`, and without a separator) joined by separators, and normalising such
a path gives it back. So a path a user gives comes out empty or in this normal form, whatever the
variables and home directories, as long as the working directory is absolute.

Reading the result once more as a user's path gives it back exactly when the two steps that come
before normalisation leave it alone: trimming takes nothing off its end, and expanding variables
changes nothing. Neither is automatic. `/a /.` comes out as `/a `, which trims to `/a`; and in
`/x/${a/../$HOME}` the unset variable `a/../$HOME` hides `$HOME` from expansion, but normalising
drops `${a/..` and leaves `/x/$HOME}`, whose `$HOME` the second reading expands.
-/

namespace TorrentPrune.Path

open TorrentPrune.Text

/-- A path in normal absolute form: one or two leading separators, then safe components joined by
separators. -/
def NormalAbsolute (q : String) : Prop :=
  ∃ k, (k = 1 ∨ k = 2) ∧ ∃ comps : List String, (∀ c ∈ comps, SafeComponent c) ∧
    q = String.ofList (List.replicate k '/') ++ "/".intercalate comps

/-! ### Normalisation ends in the normal form -/

/-- Normalisation keeps at most two leading separators. -/
theorem leadingOf_le_two (cs : List Char) : leadingOf cs ≤ 2 := by
  unfold leadingOf
  split
  · exact Nat.le_refl 2
  · split <;> omega

/-- Below the root, normalisation keeps only safe components: `..` is never kept, since it is kept
only after another `..`. -/
theorem safe_of_mem_foldl : ∀ (comps acc : List String),
    (∀ c ∈ comps, '/' ∉ c.toList) → (∀ c ∈ acc, SafeComponent c) →
    ∀ c ∈ comps.foldl (normStep 1) acc, SafeComponent c
  | [], _, _, hacc => hacc
  | comp :: comps, acc, hcomps, hacc => by
    refine safe_of_mem_foldl comps _ (fun c hc ↦ hcomps c (List.mem_cons_of_mem _ hc)) ?_
    have hhead : acc.head? ≠ some ".." := fun h ↦ (hacc _ (List.mem_of_head? h)).2.2.1 rfl
    unfold normStep
    split
    · exact hacc
    · rename_i hskip
      simp only [Bool.or_eq_true, beq_iff_eq, not_or] at hskip
      split
      · rename_i hkeep
        have hdots : comp ≠ ".." := by simpa [hhead] using hkeep
        intro c hc
        rcases List.mem_cons.mp hc with rfl | hc
        · exact ⟨hskip.1, hskip.2, hdots, hcomps c List.mem_cons_self⟩
        · exact hacc c hc
      · exact fun c hc ↦ hacc c (List.mem_of_mem_drop hc)

/-- An absolute path normalises to the normal form. -/
theorem normalize_normalAbsolute {p : String} (hp : isAbs p = true) :
    NormalAbsolute (normalize p) := by
  have hhead := isAbs_iff.mp hp
  have hne : p.isEmpty = false := by
    cases h : p.isEmpty
    · rfl
    · simp [String.isEmpty_iff.mp h] at hhead
  have hpos := leadingOf_pos hhead
  have hle := leadingOf_le_two p.toList
  have hsafe : ∀ c ∈ ((pieces p).foldl (normStep 1) []).reverse, SafeComponent c :=
    fun c hc ↦ safe_of_mem_foldl _ [] (fun c hc ↦ sep_not_mem_of_mem_pieces hc) (by simp) c
      (List.mem_reverse.mp hc)
  rw [normalize_eq hne]
  simp only [normStep_of_pos hpos]
  have htext : (String.ofList (List.replicate (leadingOf p.toList) '/') ++
      "/".intercalate ((pieces p).foldl (normStep 1) []).reverse).isEmpty = false := by
    obtain ⟨k, hk⟩ : ∃ k, leadingOf p.toList = k + 1 := ⟨leadingOf p.toList - 1, by omega⟩
    simp [hk, ← String.toList_inj]
  simp only [htext]
  exact ⟨leadingOf p.toList, by omega, _, hsafe, rfl⟩

/-! ### The normal form is kept -/

/-- Normalisation reads empty pieces as nothing. -/
theorem foldl_normStep_blank (k n : Nat) (acc : List String) :
    (List.replicate n "").foldl (normStep k) acc = acc := by
  induction n with
  | zero => rfl
  | succ n ih => simpa [List.replicate_succ, normStep] using ih

/-- One or two separators in front of a text that does not start with one are all kept. -/
theorem leadingOf_slashes {k : Nat} (hk : k = 1 ∨ k = 2) {cs : List Char}
    (hcs : cs.head? ≠ some '/') : leadingOf (List.replicate k '/' ++ cs) = k := by
  cases cs with
  | nil => rcases hk with rfl | rfl <;> rfl
  | cons c rest =>
    have hc : '/' ≠ c := fun h ↦ hcs (by simp [← h])
    rcases hk with rfl | rfl <;> simp [leadingOf, List.isPrefixOf, hc]

/-- Safe components joined by separators do not start with one. -/
theorem head?_intercalate_safe_ne_sep {comps : List String}
    (hsafe : ∀ c ∈ comps, SafeComponent c) :
    ("/".intercalate comps).toList.head? ≠ some '/' := by
  cases comps with
  | nil => simp
  | cons c rest => exact head?_intercalate_ne_sep (List.cons_ne_nil _ _) hsafe

/-- The pieces of separators followed by safe components joined by separators: one empty piece
for each separator, then the components (or one more empty piece when there are none). -/
theorem foldl_pieces_normal {k : Nat} (hk : k = 1 ∨ k = 2) {comps : List String}
    (hsafe : ∀ c ∈ comps, SafeComponent c) :
    (pieces (String.ofList (List.replicate k '/') ++ "/".intercalate comps)).foldl
      (normStep k) [] = comps.reverse := by
  obtain ⟨j, rfl⟩ : ∃ j, k = j + 1 := ⟨k - 1, by omega⟩
  rw [pieces_slashes, List.foldl_append, foldl_normStep_blank]
  cases comps with
  | nil => rfl
  | cons first rest =>
    have hproper : ∀ c ∈ first :: rest, Proper c := fun c hc ↦ (hsafe c hc).proper
    rw [pieces_intercalate hproper (List.cons_ne_nil _ _), foldl_normStep_of_safe _ _ _ hsafe]
    simp

/-- A path in normal form normalises to itself. -/
theorem normalize_of_normalAbsolute {q : String} (hq : NormalAbsolute q) : normalize q = q := by
  obtain ⟨k, hk, comps, hsafe, rfl⟩ := hq
  have hlead : leadingOf (String.ofList (List.replicate k '/') ++ "/".intercalate comps).toList
      = k := by
    simpa using leadingOf_slashes hk (head?_intercalate_safe_ne_sep hsafe)
  have htext : (String.ofList (List.replicate k '/') ++ "/".intercalate comps).isEmpty = false := by
    rcases hk with rfl | rfl <;> simp [← String.toList_inj]
  rw [normalize_eq htext]
  simp only [hlead, foldl_pieces_normal hk hsafe, List.reverse_reverse, htext]
  rfl

/-- A path in normal form is absolute. -/
theorem NormalAbsolute.isAbs {q : String} (hq : NormalAbsolute q) : isAbs q = true := by
  obtain ⟨k, hk, comps, -, rfl⟩ := hq
  rcases hk with rfl | rfl <;> simp [Path.isAbs, List.replicate_succ]

/-- Making a path in normal form absolute gives it back, whatever the working directory. -/
theorem absolute_of_normalAbsolute {q : String} (hq : NormalAbsolute q) (cwd : String) :
    absolute cwd q = q := by
  simp [absolute, hq.isAbs, normalize_of_normalAbsolute hq]

/-- Against an absolute working directory, every path is made absolute in normal form. -/
theorem absolute_normalAbsolute {cwd : String} (hcwd : isAbs cwd = true) (p : String) :
    NormalAbsolute (absolute cwd p) := by
  refine normalize_normalAbsolute ?_
  split
  · assumption
  · exact isAbs_join hcwd p

/-! ### A user's path -/

/-- A `~` can only stand at the front, so an absolute path has none to expand. -/
theorem expandUser_of_isAbs {p : String} (hp : isAbs p = true) (home : String)
    (users : List (String × String)) : expandUser home users p = p := by
  have hhead := isAbs_iff.mp hp
  have hstart : p.startsWith "~" = false := by
    rw [String.startsWith_string_eq_false_iff]
    rintro ⟨t, ht⟩
    have : p.toList.head? = some '~' := by simp [← ht]
    simp [hhead] at this
  simp [expandUser, hstart]

/-- Expanding variables leaves a text without `$` as it is. -/
theorem expandVars_go_of_dollar_not_mem (env : List (String × String)) :
    ∀ (cs out : List Char) (fuel : Nat), '$' ∉ cs →
      expandVars.go env cs out fuel = String.ofList (out.reverse ++ cs)
  | cs, out, 0, _ => by simp [expandVars.go]
  | [], out, fuel + 1, _ => by simp [expandVars.go]
  | c :: rest, out, fuel + 1, hcs => by
    have hc : c ≠ '$' := fun h ↦ hcs (h ▸ List.mem_cons_self)
    have hrest : '$' ∉ rest := fun h ↦ hcs (List.mem_cons_of_mem _ h)
    rw [expandVars.go.eq_5 env out fuel c rest hc,
      expandVars_go_of_dollar_not_mem env rest (c :: out) fuel hrest]
    simp

/-- Expanding variables leaves a path without `$` as it is. -/
theorem expandVars_of_dollar_not_mem (env : List (String × String)) {p : String}
    (hp : '$' ∉ p.toList) : expandVars env p = p := by
  simp [expandVars, expandVars_go_of_dollar_not_mem env _ [] _ hp]

/-- With an absolute working directory, a user's path comes out empty or in normal form. -/
theorem normalizeUserPath_normal (env : Environment) (hcwd : isAbs env.cwd = true)
    (path : Option String) (fallback : String) :
    env.normalizeUserPath path fallback = "" ∨
      NormalAbsolute (env.normalizeUserPath path fallback) := by
  unfold Environment.normalizeUserPath
  dsimp only
  -- only the path chosen between the trimmed one and the fallback matters
  generalize (if (trim (path.getD "")).isEmpty = true then fallback else trim (path.getD "")) = p
  split
  · exact .inl rfl
  · exact .inr (absolute_normalAbsolute hcwd _)

/-- The empty path, with no fallback, reads as itself. -/
theorem normalizeUserPath_empty (env : Environment) : env.normalizeUserPath (some "") "" = "" :=
  rfl

/-- A path in normal form reads as itself, as long as trimming takes nothing off its end and
expanding variables leaves it alone; a `~` cannot stand in front of it. -/
theorem normalizeUserPath_of_normalAbsolute (env : Environment) {q : String}
    (hq : NormalAbsolute q) (htrim : trim q = q) (hvars : expandVars env.vars q = q)
    (fallback : String) : env.normalizeUserPath (some q) fallback = q := by
  have hne : q.isEmpty = false := by
    have hhead := isAbs_iff.mp hq.isAbs
    cases h : q.isEmpty
    · rfl
    · simp [String.isEmpty_iff.mp h] at hhead
  have hexpand : env.expand q = q := by
    rw [Environment.expand, expandUser_of_isAbs hq.isAbs, hvars]
  simp [Environment.normalizeUserPath, htrim, hne, hexpand, absolute_of_normalAbsolute hq]

/-- With an absolute working directory, a user's path comes out empty or with one or two leading
separators and then safe components; and reading the result once more as a user's path gives it
back, as long as trimming takes nothing off its end and expanding variables leaves it alone. -/
theorem normalizeUserPath_normal_and_stable (env : Environment) (hcwd : isAbs env.cwd = true)
    (path : Option String) (fallback : String) :
    let q := env.normalizeUserPath path fallback
    (q = "" ∨ NormalAbsolute q) ∧
      (trim q = q → expandVars env.vars q = q → env.normalizeUserPath (some q) "" = q) := by
  intro q
  have hnormal : q = "" ∨ NormalAbsolute q := normalizeUserPath_normal env hcwd path fallback
  refine ⟨hnormal, fun htrim hvars ↦ ?_⟩
  rcases hnormal with hempty | hq
  · rw [hempty]
    exact normalizeUserPath_empty env
  · exact normalizeUserPath_of_normalAbsolute env hq htrim hvars ""

/-- A home-relative path with `..` read against the root, where the result is stable. -/
theorem normalizeUserPath_normal_and_stable_home :
    isAbs "/" = true ∧
      let env : Environment := ⟨"/", [("HOME", "/nonexistent-oracle-home")], [], "/root"⟩
      let q := env.normalizeUserPath (some "~/notes/../logs/") ""
      (q = "" ∨ NormalAbsolute q) ∧
        (trim q = q → expandVars env.vars q = q → env.normalizeUserPath (some q) "" = q) :=
  ⟨rfl, normalizeUserPath_normal_and_stable
    ⟨"/", [("HOME", "/nonexistent-oracle-home")], [], "/root"⟩ rfl
    (some "~/notes/../logs/") ""⟩

/-- Reading a user's path twice need not give the first result back: `/a /.` comes out ending in
a blank, which the second reading trims off; and in `/x/${a/../$HOME}` the unset variable
`a/../$HOME` hides `$HOME`, which normalising uncovers and the second reading expands. -/
theorem normalizeUserPath_twice_differs :
    let env : Environment := ⟨"/", [("HOME", "/nonexistent-oracle-home")], [], "/root"⟩
    env.normalizeUserPath (some "/a /.") "" = "/a " ∧
      env.normalizeUserPath (some "/a ") "" = "/a" ∧
      env.normalizeUserPath (some "/x/$\x7ba/../$HOME\x7d") "" = "/x/$HOME\x7d" ∧
      env.normalizeUserPath (some "/x/$HOME\x7d") "" = "/x/nonexistent-oracle-home\x7d" := by
  decide +kernel

end TorrentPrune.Path
