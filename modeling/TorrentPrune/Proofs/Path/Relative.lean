import TorrentPrune.Proofs.Fs.Resolution

/-!
# Paths below a directory

Normalising an absolute path keeps its leading separators and the components that `.` and `..`
leave; `components` reads those components back. Joining a name to an absolute path adds the
name to the components of its normal form, so a path built from a directory's path by joining
names one at a time lies, relative to that directory, at the names joined by separators.

Splitting proper components joined by separators takes off the last one, which is how the
directories on the way to a declared path are found.
-/

namespace TorrentPrune.Path

open TorrentPrune.Fs

/-- The nonempty components of a path. -/
def components (p : String) : List String := (pieces p).filter (· != "")

/-- How many leading separators normalisation keeps. -/
def leadingOf (cs : List Char) : Nat :=
  if List.isPrefixOf ['/', '/'] cs && !List.isPrefixOf ['/', '/', '/'] cs then 2
  else if List.isPrefixOf ['/'] cs then 1 else 0

/-- One component read by normalisation: what is kept so far, newest first. -/
def normStep (leading : Nat) (acc : List String) (comp : String) : List String :=
  if comp == "" || comp == "." then acc
  else if comp != ".." || (leading == 0 && acc.isEmpty) || acc.head? == some ".." then comp :: acc
  else acc.drop 1

/-- The components that normalisation keeps of an absolute path, newest first. -/
def keptOf (p : String) : List String := (pieces p).foldl (normStep 1) []

/-- Normalisation spelled out with `leadingOf` and `normStep`. -/
theorem normalize_eq {p : String} (hp : p.isEmpty = false) :
    normalize p =
      let text := String.ofList (List.replicate (leadingOf p.toList) '/') ++
        "/".intercalate ((pieces p).foldl (normStep (leadingOf p.toList)) []).reverse
      if text.isEmpty then "." else text := by
  simp only [normalize, hp]
  rfl

/-- Below the root, `..` never stays: with a leading separator, normalisation reads components
the same way whatever their number. -/
theorem normStep_of_pos {k : Nat} (hk : 0 < k) : normStep k = normStep 1 := by
  funext acc comp
  have hk' : (k == 0) = false := by simp; omega
  simp [normStep, hk']

/-- A path that starts with a separator keeps at least one. -/
theorem leadingOf_pos {cs : List Char} (h : cs.head? = some '/') : 0 < leadingOf cs := by
  cases cs with
  | nil => simp at h
  | cons c rest =>
    simp only [List.head?_cons, Option.some.injEq] at h
    subst h
    unfold leadingOf
    split
    · omega
    · simp [List.isPrefixOf]

/-- An absolute path starts with a separator. -/
theorem isAbs_iff {p : String} : isAbs p = true ↔ p.toList.head? = some '/' := by
  simp [isAbs]

/-- A leading separator splits off an empty piece. -/
theorem pieces_sep_cons (body : String) : pieces ("/" ++ body) = "" :: pieces body := by
  have h : ("/" ++ body).toList = [] ++ '/' :: body.toList := by simp
  rw [pieces, h, List.splitOn_append_cons_self]
  simp [pieces]

/-- A run of separators splits into empty pieces before what follows it. -/
theorem pieces_slashes (k : Nat) (body : String) :
    pieces (String.ofList (List.replicate (k + 1) '/') ++ body) =
      List.replicate (k + 1) "" ++ pieces body := by
  induction k with
  | zero => simpa using pieces_sep_cons body
  | succ k ih =>
    have h : String.ofList (List.replicate (k + 1 + 1) '/') ++ body =
        "/" ++ (String.ofList (List.replicate (k + 1) '/') ++ body) := by
      simp [List.replicate_succ, String.append_assoc]
    rw [h, pieces_sep_cons, ih]
    rfl

/-- No piece of a split holds the separator. -/
theorem sep_not_mem_of_mem_splitOn {sep : Char} :
    ∀ {xs l : List Char}, l ∈ xs.splitOn sep → sep ∉ l
  | [], l, h => by
    simp only [List.splitOn_nil, List.mem_singleton] at h
    simp [h]
  | x :: xs, l, h => by
    rw [List.splitOn_cons_eq_if_modifyHead] at h
    split at h
    · rcases List.mem_cons.mp h with rfl | h
      · simp
      · exact sep_not_mem_of_mem_splitOn h
    · rename_i hx
      cases hs : xs.splitOn sep with
      | nil => exact absurd hs (List.splitOn_ne_nil _ _)
      | cons first rest =>
        rw [hs] at h
        simp only [List.modifyHead_cons, List.mem_cons] at h
        rcases h with rfl | h
        · have hfirst := sep_not_mem_of_mem_splitOn (hs ▸ List.mem_cons_self : first ∈ xs.splitOn sep)
          simp only [beq_iff_eq] at hx
          simp [hfirst, Ne.symm hx]
        · exact sep_not_mem_of_mem_splitOn (hs ▸ List.mem_cons_of_mem _ h)

/-- No piece of a path holds a separator. -/
theorem sep_not_mem_of_mem_pieces {p x : String} (hx : x ∈ pieces p) : '/' ∉ x.toList := by
  simp only [pieces, List.mem_map] at hx
  obtain ⟨l, hl, rfl⟩ := hx
  simpa using sep_not_mem_of_mem_splitOn hl

/-- A proper component: nonempty and without a separator. -/
def Proper (c : String) : Prop := c ≠ "" ∧ '/' ∉ c.toList

/-- Normalisation keeps only proper components. -/
theorem proper_of_mem_foldl {k : Nat} : ∀ (comps acc : List String),
    (∀ c ∈ comps, '/' ∉ c.toList) → (∀ c ∈ acc, Proper c) →
    ∀ c ∈ comps.foldl (normStep k) acc, Proper c
  | [], acc, _, hacc => hacc
  | comp :: comps, acc, hcomps, hacc => by
    refine proper_of_mem_foldl comps _ (fun c hc ↦ hcomps c (List.mem_cons_of_mem _ hc)) ?_
    unfold normStep
    split
    · exact hacc
    · rename_i hempty
      split
      · intro c hc
        rcases List.mem_cons.mp hc with rfl | hc
        · simp only [Bool.or_eq_true, beq_iff_eq, not_or] at hempty
          exact ⟨hempty.1, hcomps c List.mem_cons_self⟩
        · exact hacc c hc
      · exact fun c hc ↦ hacc c (List.mem_of_mem_drop hc)

/-- The pieces of proper components joined by separators are those components. -/
theorem pieces_intercalate {ks : List String} (hks : ∀ c ∈ ks, Proper c) (hne : ks ≠ []) :
    pieces ("/".intercalate ks) = ks := by
  have hsep : ∀ l ∈ ks.map String.toList, '/' ∉ l := by
    simp only [List.mem_map]
    rintro l ⟨c, hc, rfl⟩
    exact (hks c hc).2
  have hslash : "/".toList = ['/'] := rfl
  simp only [pieces, String.toList_intercalate, hslash]
  rw [List.splitOn_intercalate '/' hsep (by simpa using hne)]
  simp

/-- The components of separators followed by proper components joined by separators. -/
theorem components_text (k : Nat) {ks : List String} (hks : ∀ c ∈ ks, Proper c) :
    components (String.ofList (List.replicate (k + 1) '/') ++ "/".intercalate ks) = ks := by
  unfold components
  rw [pieces_slashes]
  cases ks with
  | nil => simp [pieces]
  | cons c cs =>
    rw [pieces_intercalate hks (List.cons_ne_nil _ _), List.filter_append]
    have hfilter : (c :: cs).filter (· != "") = c :: cs :=
      List.filter_eq_self.mpr fun x hx ↦ by simpa using (hks x hx).1
    rw [hfilter]
    simp

/-- The components of an absolute path once normalised are those normalisation keeps. -/
theorem components_normalize {p : String} (hp : isAbs p = true) :
    components (normalize p) = (keptOf p).reverse := by
  have hhead := isAbs_iff.mp hp
  have hne : p.isEmpty = false := by
    cases h : p.isEmpty
    · rfl
    · simp [String.isEmpty_iff.mp h] at hhead
  obtain ⟨k, hk⟩ : ∃ k, leadingOf p.toList = k + 1 :=
    ⟨leadingOf p.toList - 1, by have := leadingOf_pos hhead; omega⟩
  have hproper : ∀ c ∈ (keptOf p).reverse, Proper c := by
    intro c hc
    exact proper_of_mem_foldl _ [] (fun c hc ↦ sep_not_mem_of_mem_pieces hc) (by simp) c
      (List.mem_reverse.mp hc)
  rw [normalize_eq hne]
  simp only [hk, normStep_of_pos (Nat.succ_pos k)]
  have htext : (String.ofList (List.replicate (k + 1) '/') ++
      "/".intercalate ((pieces p).foldl (normStep 1) []).reverse).isEmpty = false := by
    simp [← String.toList_inj]
  simp only [htext]
  exact components_text k hproper

/-- A normalised absolute path is absolute. -/
theorem isAbs_normalize {p : String} (hp : isAbs p = true) : isAbs (normalize p) = true := by
  have hhead := isAbs_iff.mp hp
  have hne : p.isEmpty = false := by
    cases h : p.isEmpty
    · rfl
    · simp [String.isEmpty_iff.mp h] at hhead
  obtain ⟨k, hk⟩ : ∃ k, leadingOf p.toList = k + 1 :=
    ⟨leadingOf p.toList - 1, by have := leadingOf_pos hhead; omega⟩
  rw [normalize_eq hne]
  simp only [hk]
  have htext : (String.ofList (List.replicate (k + 1) '/') ++
      "/".intercalate ((pieces p).foldl (normStep (k + 1)) []).reverse).isEmpty = false := by
    simp [← String.toList_inj]
  simp only [htext]
  simp [isAbs, List.replicate_succ]

/-- A path joined after an absolute path is absolute. -/
theorem isAbs_join {q : String} (hq : isAbs q = true) (f : String) : isAbs (join q f) = true := by
  have hhead := isAbs_iff.mp hq
  unfold join
  split
  · assumption
  · split <;> simp [isAbs, hhead, List.head?_append]

/-- Normalisation reads a name joined to a path as one more component. -/
theorem keptOf_join (q : String) {f : String} (hf : ValidName f) :
    keptOf (join q f) = f :: keptOf q := by
  rw [join_eq_of_not_abs (ValidName.isAbs_eq_false hf)]
  obtain ⟨hne, hdot, hdots, hsep, -⟩ := hf
  have hstep : ∀ acc, normStep 1 acc f = f :: acc := by
    intro acc
    simp [normStep, hne, hdot, hdots]
  split
  · rename_i h
    by_cases hq : q.toList.getLast? = some '/'
    · obtain ⟨ps, hq1, hq2⟩ := pieces_of_sep_end hq f hsep
      simp only [keptOf, hq1, hq2, List.foldl_append, List.foldl_cons, List.foldl_nil, hstep]
      simp [normStep]
    · have hq' : q = "" := by simpa [hq] using h
      subst hq'
      rw [String.empty_append, keptOf, keptOf, pieces_of_not_mem hsep]
      simp [pieces, normStep, hne, hdot, hdots]
  · simp only [keptOf, pieces_append_sep, pieces_of_not_mem hsep, List.foldl_append,
      List.foldl_cons, List.foldl_nil, hstep]

/-- The components of an absolute path with a name joined are its components and the name. -/
theorem components_absolute_join {q : String} (hq : isAbs q = true) {f : String}
    (hf : ValidName f) :
    components (absolute "/" (join q f)) = components (absolute "/" q) ++ [f] := by
  simp only [absolute, isAbs_join hq f, hq, if_true]
  rw [components_normalize (isAbs_join hq f), components_normalize hq, keptOf_join q hf]
  simp

/-- Names joined one after another onto a component are all of them joined by separators. -/
theorem foldl_join_eq : ∀ (ds : List String) {a : String}, a ≠ "" →
    a.toList.getLast? ≠ some '/' → (∀ d ∈ ds, ValidName d) →
    ds.foldl join a = "/".intercalate (a :: ds)
  | [], a, _, _, _ => by simp
  | d :: ds, a, ha, hlast, hv => by
    have hd := hv d List.mem_cons_self
    have hjoin : join a d = a ++ "/" ++ d := by
      rw [join_eq_of_not_abs (ValidName.isAbs_eq_false hd)]
      simp [String.isEmpty_eq_false_iff.mpr ha, hlast]
    have hlast' : (a ++ "/" ++ d).toList.getLast? ≠ some '/' := by
      obtain ⟨hne, -, -, hsep, -⟩ := hd
      have hd' : d.toList ≠ [] := fun h ↦ hne (String.toList_eq_nil_iff.mp h)
      rw [String.toList_append, List.getLast?_append_of_ne_nil _ hd']
      intro h
      exact hsep (List.mem_of_getLast? h)
    have hne' : a ++ "/" ++ d ≠ "" := fun h ↦ by simpa using congrArg String.length h
    rw [List.foldl_cons, hjoin, foldl_join_eq ds hne' hlast'
      (fun d' h' ↦ hv d' (List.mem_cons_of_mem _ h')), String.intercalate_cons_append,
      String.intercalate_cons_cons]

/-- Pairs of a list with an extension of itself agree as far as the list goes. -/
theorem length_takeWhile_zip_self {p : String × String → Bool} (hp : ∀ a, p (a, a) = true) :
    ∀ (S ds : List String), ((S.zip (S ++ ds)).takeWhile p).length = S.length
  | [], _ => by simp
  | a :: S, ds => by
    simp [List.zip_cons_cons, hp a, length_takeWhile_zip_self hp S ds]

/-- Pairs of a list with itself agree all the way. -/
theorem length_takeWhile_zip_same {p : String × String → Bool} (hp : ∀ a, p (a, a) = true)
    (S : List String) : ((S.zip S).takeWhile p).length = S.length := by
  simpa using length_takeWhile_zip_self hp S []

/-- A path relative to itself is `.`. -/
theorem relative_self (p : String) : relative "/" p p = "." := by
  unfold relative
  simp only [show ∀ x, (pieces (absolute "/" x)).filter (· != "") = components (absolute "/" x)
    from fun _ ↦ rfl]
  rw [length_takeWhile_zip_same (by simp), Nat.sub_self, List.replicate_zero, List.nil_append,
    List.drop_length]
  rfl

/-- The path of a descendant relative to a directory: the names below the directory's
components, joined by separators. -/
theorem relative_eq_of_components {p start : String} {ds : List String}
    (h : components (absolute "/" p) = components (absolute "/" start) ++ ds) (hne : ds ≠ [])
    (hv : ∀ d ∈ ds, ValidName d) : relative "/" p start = "/".intercalate ds := by
  unfold relative
  simp only [show ∀ x, (pieces (absolute "/" x)).filter (· != "") = components (absolute "/" x)
    from fun _ ↦ rfl, h]
  rw [length_takeWhile_zip_self (by simp), Nat.sub_self, List.replicate_zero, List.nil_append,
    List.drop_left]
  obtain ⟨d, ds', rfl⟩ := List.exists_cons_of_ne_nil hne
  have hd := hv d List.mem_cons_self
  obtain ⟨hdne, -, -, hsep, -⟩ := hd
  have hlast : d.toList.getLast? ≠ some '/' := fun h ↦ hsep (List.mem_of_getLast? h)
  simp only [List.isEmpty_cons, Bool.false_eq_true, if_false, joinAll]
  exact foldl_join_eq ds' hdne hlast (fun d' h' ↦ hv d' (List.mem_cons_of_mem _ h'))

/-- An absolute form is absolute. -/
theorem isAbs_absolute_slash (p : String) : isAbs (absolute "/" p) = true := by
  unfold absolute
  split
  · exact isAbs_normalize (by assumption)
  · exact isAbs_normalize (isAbs_join rfl p)

/-- A proper component holds a character other than the separator and does not end in one. -/
theorem Proper.ends {d : String} (hd : Proper d) :
    (∃ c ∈ d.toList, c ≠ '/') ∧ d.toList.getLast? ≠ some '/' := by
  obtain ⟨hne, hsep⟩ := hd
  obtain ⟨c, cs, hc⟩ := List.exists_cons_of_ne_nil fun h ↦ hne (String.toList_eq_nil_iff.mp h)
  refine ⟨⟨c, by simp [hc], fun h ↦ hsep (by simp [hc, h])⟩, fun h ↦ hsep ?_⟩
  exact List.mem_of_getLast? h

/-- Proper components joined by separators hold a character other than the separator and do not
end in one. -/
theorem intercalate_ends : ∀ {ns : List String}, ns ≠ [] → (∀ d ∈ ns, Proper d) →
    (∃ c ∈ ("/".intercalate ns).toList, c ≠ '/') ∧
      ("/".intercalate ns).toList.getLast? ≠ some '/'
  | [], h, _ => absurd rfl h
  | [d], _, hv => by simpa using Proper.ends (hv d List.mem_cons_self)
  | d :: d' :: ds, _, hv => by
    obtain ⟨⟨c, hc, hcne⟩, -⟩ := Proper.ends (hv d List.mem_cons_self)
    obtain ⟨⟨c', hc', -⟩, hlast⟩ := intercalate_ends (List.cons_ne_nil d' ds)
      (fun x hx ↦ hv x (List.mem_cons_of_mem _ hx))
    have hrest : ("/".intercalate (d' :: ds)).toList ≠ [] := List.ne_nil_of_mem hc'
    refine ⟨⟨c, by simp [String.intercalate_cons_cons, hc], hcne⟩, ?_⟩
    rw [String.intercalate_cons_cons, String.toList_append,
      List.getLast?_append_of_ne_nil _ hrest]
    exact hlast

/-- Splitting a path at its last separator, when the part before it does not end in one. -/
theorem split_of_sep {A n : String} (hA : ∃ c ∈ A.toList, c ≠ '/')
    (hlast : A.toList.getLast? ≠ some '/') (hn : '/' ∉ n.toList) :
    split (A ++ "/" ++ n) = (A, n) := by
  have hall : ∀ c ∈ n.toList.reverse, (c != '/') = true := by
    intro c hc
    have hne : c ≠ '/' := fun h ↦ hn (h ▸ List.mem_reverse.mp hc)
    simpa using hne
  have htail : (A ++ "/" ++ n).toList.reverse.takeWhile (· != '/') = n.toList.reverse := by
    have hrev : (A ++ "/" ++ n).toList.reverse = n.toList.reverse ++ '/' :: A.toList.reverse := by
      simp
    rw [hrev, List.takeWhile_append_of_pos hall]
    simp
  have hhead : (A ++ "/" ++ n).toList.take
      ((A ++ "/" ++ n).toList.length - n.toList.reverse.length) = A.toList ++ ['/'] := by
    have hlen : (A ++ "/" ++ n).toList.length - n.toList.reverse.length = (A.toList ++ ['/']).length := by
      simp
      omega
    rw [hlen, show (A ++ "/" ++ n).toList = (A.toList ++ ['/']) ++ n.toList by simp,
      List.take_left]
  have hnotall : (A.toList ++ ['/']).all (· == '/') = false := by
    obtain ⟨c, hc, hcne⟩ := hA
    simpa using ⟨c, hc, hcne⟩
  have hdrop : (A.toList ++ ['/']).reverse.dropWhile (· == '/') = A.toList.reverse := by
    cases hr : A.toList.reverse with
    | nil => simp_all
    | cons c cs =>
      have hc : c ≠ '/' := by
        intro h
        apply hlast
        rw [← List.head?_reverse, hr, h]
        rfl
      simp [hr, hc]
  simp only [split, htail, hhead, hnotall, hdrop, List.reverse_reverse, Bool.false_eq_true,
    if_false, String.ofList_toList]

/-- Proper components joined by separators determine them. -/
theorem intercalate_inj {ks ks' : List String} (hks : ∀ c ∈ ks, Proper c)
    (hks' : ∀ c ∈ ks', Proper c) (hne : ks ≠ []) (hne' : ks' ≠ [])
    (h : "/".intercalate ks = "/".intercalate ks') : ks = ks' := by
  rw [← pieces_intercalate hks hne, ← pieces_intercalate hks' hne', h]

/-- Splitting proper components joined by separators takes off the last one. -/
theorem split_intercalate {ns : List String} (hns : ns ≠ []) {n : String}
    (hv : ∀ d ∈ ns, Proper d) (hn : '/' ∉ n.toList) :
    split ("/".intercalate (ns ++ [n])) = ("/".intercalate ns, n) := by
  obtain ⟨hA, hlast⟩ := intercalate_ends hns hv
  rw [String.intercalate_append_of_ne_nil hns (List.cons_ne_nil _ _), String.intercalate_singleton]
  exact split_of_sep hA hlast hn

end TorrentPrune.Path
