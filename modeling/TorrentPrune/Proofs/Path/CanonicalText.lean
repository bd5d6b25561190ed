import TorrentPrune.Proofs.Path.UserPath
import TorrentPrune.Safety

/-!
# The texts of canonical paths

The canonical path is built as text. It starts at `/`, or at the empty text for a relative path,
and grows by joining one name at a time or by taking the parent of what it has. Every text it
builds has one of two forms (`textOf`): a separator followed by names joined by separators, or a
run of `..` followed by names, all joined by separators.

This module shows how joining a name and taking the parent move between these forms. It also shows
what each form names once made absolute against a working directory of the first form, and that
the absolute form counts one POSIX segment per name.
-/

namespace TorrentPrune.Path

open TorrentPrune.Fs

/-- Parts joined by separators, after a leading separator when `abs`. -/
def textOf (abs : Bool) (parts : List String) : String :=
  (if abs then "/" else "") ++ "/".intercalate parts

/-- Every name is a safe component. -/
theorem ValidName.safe {n : String} (h : ValidName n) : SafeComponent n :=
  ⟨h.1, h.2.1, h.2.2.1, h.2.2.2.1⟩

/-- Every name is a proper part. -/
theorem ValidName.proper {n : String} (h : ValidName n) : Proper n := ⟨h.1, h.2.2.2.1⟩

/-- `..` is a proper part. -/
theorem proper_dots : Proper ".." := ⟨by decide, by decide⟩

/-- A run of `..` followed by names is made of proper parts. -/
theorem proper_dots_append (k : Nat) {ns : List String} (hns : ∀ c ∈ ns, ValidName c) :
    ∀ c ∈ List.replicate k ".." ++ ns, Proper c := by
  intro c hc
  rcases List.mem_append.mp hc with hc | hc
  · rw [List.eq_of_mem_replicate hc]
    exact proper_dots
  · exact ValidName.proper (hns c hc)

/-- The characters of a relative text appear in it once joined after another. -/
theorem mem_join_of_mem {p n : String} (hn : isAbs n = false) {c : Char} (hc : c ∈ n.toList) :
    c ∈ (join p n).toList := by
  rw [join_eq_of_not_abs hn]
  split <;> simp [hc]

section Forms

variable {abs : Bool} {parts : List String}

/-- Proper parts joined by separators do not start with a separator. -/
theorem intercalate_head?_ne_sep : ∀ {parts : List String}, (∀ c ∈ parts, Proper c) →
    ("/".intercalate parts).toList.head? ≠ some '/'
  | [], _ => by simp
  | c :: cs, hp => by
    obtain ⟨hne, hsep⟩ := hp c List.mem_cons_self
    obtain ⟨d, ds, hd⟩ := List.exists_cons_of_ne_nil fun h ↦ hne (String.toList_eq_nil_iff.mp h)
    have hd' : d ≠ '/' := fun h ↦ hsep (by simp [hd, h])
    cases cs with
    | nil => simpa [hd] using hd'
    | cons c' cs => simpa [String.intercalate_cons_cons, hd] using hd'

/-- The leading separator alone decides whether the text is absolute. -/
@[simp] theorem isAbs_textOf (hp : ∀ c ∈ parts, Proper c) : isAbs (textOf abs parts) = abs := by
  cases abs with
  | true => simp [textOf, isAbs]
  | false => simpa [textOf, isAbs] using intercalate_head?_ne_sep hp

/-- A proper part is not absolute. -/
theorem Proper.isAbs_eq_false {n : String} (h : Proper n) : isAbs n = false := by
  have hp : ∀ c ∈ [n], Proper c := by simpa using h
  simpa [textOf] using @isAbs_textOf false [n] hp

/-- A text of the first form with some parts holds a character other than the separator and does
not end in one. -/
theorem textOf_ends (abs : Bool) (hp : ∀ c ∈ parts, Proper c) (hne : parts ≠ []) :
    (∃ c ∈ (textOf abs parts).toList, c ≠ '/') ∧ (textOf abs parts).toList.getLast? ≠ some '/' := by
  obtain ⟨⟨c, hc, hcne⟩, hlast⟩ := intercalate_ends hne hp
  have hrest : ("/".intercalate parts).toList ≠ [] := List.ne_nil_of_mem hc
  refine ⟨⟨c, ?_, hcne⟩, ?_⟩
  · rw [textOf, String.toList_append]
    exact List.mem_append_right _ hc
  · rw [textOf, String.toList_append, List.getLast?_append_of_ne_nil _ hrest]
    exact hlast

/-- A text holding a character is not empty. -/
theorem isEmpty_of_mem_toList {s : String} {c : Char} (h : c ∈ s.toList) : s.isEmpty = false := by
  rw [Bool.eq_false_iff, ne_eq, String.isEmpty_iff]
  rintro rfl
  simp at h

/-- Joining proper parts joined by separators appends them to the parts. -/
theorem join_textOf_intercalate (abs : Bool) (hp : ∀ c ∈ parts, Proper c) {xs : List String}
    (hxs : ∀ c ∈ xs, Proper c) (hne : xs ≠ []) :
    join (textOf abs parts) ("/".intercalate xs) = textOf abs (parts ++ xs) := by
  have hrel : isAbs ("/".intercalate xs) = false := by
    simpa [isAbs] using intercalate_head?_ne_sep hxs
  rw [join_eq_of_not_abs hrel]
  by_cases hparts : parts = []
  · subst hparts
    cases abs <;> simp [textOf]
  · obtain ⟨⟨c, hc, -⟩, hlast⟩ := textOf_ends abs hp hparts
    have hcond : ((textOf abs parts).isEmpty || (textOf abs parts).toList.getLast? == some '/') =
        false := by
      simpa [isEmpty_of_mem_toList hc] using hlast
    rw [hcond, if_neg Bool.false_ne_true]
    simp only [textOf, String.intercalate_append_of_ne_nil hparts hne, String.append_assoc]

/-- Joining a proper part appends it to the parts. -/
theorem join_textOf (hp : ∀ c ∈ parts, Proper c) {n : String} (hn : Proper n) :
    join (textOf abs parts) n = textOf abs (parts ++ [n]) := by
  have hn' : ∀ c ∈ [n], Proper c := by simpa using hn
  simpa using join_textOf_intercalate abs hp hn' (List.cons_ne_nil _ _)

/-- The pieces of a text of the first form with parts: an empty piece for the leading separator,
then the parts. -/
theorem pieces_textOf (hp : ∀ c ∈ parts, Proper c) (hne : parts ≠ []) :
    pieces (textOf abs parts) = (if abs then [""] else []) ++ parts := by
  cases abs with
  | true =>
    show pieces ("/" ++ "/".intercalate parts) = _
    rw [pieces_sep_cons, pieces_intercalate hp hne]
    rfl
  | false =>
    show pieces ("" ++ "/".intercalate parts) = _
    rw [String.empty_append, pieces_intercalate hp hne]
    rfl

/-- The root's text is the separator. -/
@[simp] theorem textOf_root_nil : textOf true [] = "/" := by
  simp [textOf]

/-- A part after others follows a separator. -/
theorem textOf_snoc (hparts : parts ≠ []) (n : String) :
    textOf abs (parts ++ [n]) = textOf abs parts ++ "/" ++ n := by
  simp only [textOf, String.intercalate_append_of_ne_nil hparts (List.cons_ne_nil _ _),
    String.intercalate_singleton, String.append_assoc]

/-- Separators only, then text without one, split into the two. -/
theorem split_seps_append {S n : String} (hS : ∀ c ∈ S.toList, c = '/') (hn : '/' ∉ n.toList) :
    split (S ++ n) = (S, n) := by
  have hall : ∀ c ∈ n.toList.reverse, (c != '/') = true := by
    intro c hc
    have hne : c ≠ '/' := fun h ↦ hn (h ▸ List.mem_reverse.mp hc)
    simpa using hne
  have hstop : S.toList.reverse.takeWhile (· != '/') = [] := by
    cases hr : S.toList.reverse with
    | nil => rfl
    | cons c cs =>
      have hc : c = '/' := hS c (List.mem_reverse.mp (hr ▸ List.mem_cons_self))
      simp [hc]
  have htail : (S ++ n).toList.reverse.takeWhile (· != '/') = n.toList.reverse := by
    rw [String.toList_append, List.reverse_append, List.takeWhile_append_of_pos hall, hstop,
      List.append_nil]
  have hhead : (S ++ n).toList.take ((S ++ n).toList.length - n.toList.reverse.length) =
      S.toList := by
    simp
  have hallS : S.toList.all (· == '/') = true := by simpa using hS
  simp only [split, htail, hhead, hallS, if_true, List.reverse_reverse, String.ofList_toList]

/-- Splitting a text of the first form takes off its last part. -/
theorem split_textOf (hp : ∀ c ∈ parts, Proper c) {n : String} (hn : Proper n) :
    split (textOf abs (parts ++ [n])) = (textOf abs parts, n) := by
  by_cases hparts : parts = []
  · subst hparts
    have hlead : ∀ c ∈ (if abs then "/" else "").toList, c = '/' := by cases abs <;> simp
    simpa [textOf] using split_seps_append hlead hn.2
  · obtain ⟨hA, hlast⟩ := textOf_ends abs hp hparts
    rw [textOf_snoc hparts]
    exact split_of_sep hA hlast hn.2

/-- The parent of a text that ends in a name drops the name. -/
theorem parentText_textOf (hp : ∀ c ∈ parts, Proper c) {n : String} (hn : Proper n)
    (hdots : n ≠ "..") : parentText (textOf abs (parts ++ [n])) = textOf abs parts := by
  have hp' : ∀ c ∈ parts ++ [n], Proper c := by
    intro c hc
    rcases List.mem_append.mp hc with hc | hc
    · exact hp c hc
    · rw [List.mem_singleton.mp hc]
      exact hn
  obtain ⟨⟨c, hc, -⟩, -⟩ := textOf_ends abs hp' (by simp)
  simp [parentText, isEmpty_of_mem_toList hc, split_textOf hp hn, hdots]

/-- The parent of a run of `..` is one more `..`. -/
theorem parentText_dots (k : Nat) :
    parentText (textOf false (List.replicate k "..")) = textOf false (List.replicate (k + 1) "..") := by
  have hdots : ∀ c ∈ List.replicate k "..", Proper c := by
    intro c hc
    rw [List.eq_of_mem_replicate hc]
    exact proper_dots
  cases k with
  | zero => simp [parentText, textOf]
  | succ k =>
    have hk : ∀ c ∈ List.replicate k "..", Proper c := fun c hc ↦
      hdots c (List.mem_replicate.mpr ⟨by omega, (List.mem_replicate.mp hc).2⟩)
    have hk' : ∀ c ∈ List.replicate k ".." ++ [".."], Proper c := by
      simpa [← List.replicate_succ'] using hdots
    rw [List.replicate_succ']
    obtain ⟨⟨c, hc, -⟩, -⟩ := textOf_ends false hk' (by simp)
    simp only [parentText, isEmpty_of_mem_toList hc, Bool.false_eq_true, if_false,
      split_textOf hk proper_dots, beq_self_eq_true, if_true]
    rw [join_textOf hk proper_dots, join_textOf hk' proper_dots]
    simp [List.replicate_succ']

/-- The root is its own parent. -/
theorem parentText_root : parentText (textOf true []) = textOf true [] := by
  decide

end Forms

section Absolute

/-- Reading `..` a number of times drops that many kept components. -/
theorem foldl_normStep_dots (k : Nat) :
    ∀ (acc : List String), ".." ∉ acc →
    (List.replicate k "..").foldl (normStep 1) acc = acc.drop k := by
  induction k with
  | zero => intro acc _; rfl
  | succ k ih =>
    intro acc hacc
    have hhead : (acc.head? == some "..") = false := by
      cases acc with
      | nil => rfl
      | cons a as =>
        have ha : a ≠ ".." := fun h ↦ hacc (h ▸ List.mem_cons_self)
        simp [ha]
    have hstep : normStep 1 acc ".." = acc.drop 1 := by simp [normStep, hhead]
    rw [List.replicate_succ, List.foldl_cons, hstep,
      ih _ fun h ↦ hacc (List.mem_of_mem_drop h), List.drop_drop]
    rw [Nat.add_comm]

/-- Normalising a separator followed by text that does not start with one reads the pieces of the
text with one leading separator. -/
theorem normalize_sep_append {s : String} (hs : s.toList.head? ≠ some '/') :
    normalize ("/" ++ s) = "/" ++ "/".intercalate ((pieces s).foldl (normStep 1) []).reverse := by
  have hne : ("/" ++ s).isEmpty = false := by simp [← String.toList_inj]
  have hlead : leadingOf ("/" ++ s).toList = 1 := by
    simpa using leadingOf_slashes (k := 1) (Or.inl rfl) hs
  have hstart : normStep 1 [] "" = [] := rfl
  rw [normalize_eq hne]
  simp only [hlead, pieces_sep_cons, List.foldl_cons, hstart]
  have htext : (String.ofList (List.replicate 1 '/') ++
      "/".intercalate ((pieces s).foldl (normStep 1) []).reverse).isEmpty = false := by
    simp [← String.toList_inj]
  simp only [htext, Bool.false_eq_true, if_false]
  rfl

variable {C ns xs : List String}

/-- The pieces of proper parts joined by separators: the parts, or one empty piece when there
are none. -/
theorem pieces_intercalate_or_empty (hp : ∀ c ∈ ns, Proper c) :
    pieces ("/".intercalate ns) = ns ∨ (ns = [] ∧ pieces ("/".intercalate ns) = [""]) := by
  by_cases hne : ns = []
  · subst hne
    exact Or.inr ⟨rfl, rfl⟩
  · exact Or.inl (pieces_intercalate hp hne)

/-- Normalising a text of the first form reads its parts one by one. -/
theorem normalize_textOf (hp : ∀ c ∈ xs, Proper c) :
    normalize (textOf true xs) = textOf true (xs.foldl (normStep 1) []).reverse := by
  show normalize ("/" ++ "/".intercalate xs) = "/" ++ "/".intercalate _
  rw [normalize_sep_append (intercalate_head?_ne_sep hp)]
  rcases pieces_intercalate_or_empty hp with h | ⟨rfl, h⟩
  · rw [h]
  · rw [h]
    rfl

/-- A separator after a text of the first form with parts is dropped by normalisation. -/
theorem normalize_textOf_sep (hp : ∀ c ∈ xs, Proper c) (hne : xs ≠ []) :
    normalize (textOf true xs ++ "/") = normalize (textOf true xs) := by
  obtain ⟨⟨c, hc, -⟩, -⟩ := intercalate_ends hne hp
  have hhead : ("/".intercalate xs ++ "/").toList.head? ≠ some '/' := by
    rw [String.toList_append, List.head?_append_of_ne_nil _ (List.ne_nil_of_mem hc)]
    exact intercalate_head?_ne_sep hp
  have hend : "/".intercalate xs ++ "/" = "/".intercalate xs ++ "/" ++ "" := by simp
  have hlast : ∀ acc, (pieces "").foldl (normStep 1) acc = acc := fun _ ↦ rfl
  show normalize ("/" ++ "/".intercalate xs ++ "/") = normalize ("/" ++ "/".intercalate xs)
  rw [String.append_assoc, normalize_sep_append hhead,
    normalize_sep_append (intercalate_head?_ne_sep hp), hend, pieces_append_sep,
    List.foldl_append, hlast]

/-- A text of the first form made absolute is itself. -/
theorem absolute_textOf_root (cwd : String) (hns : ∀ c ∈ ns, ValidName c) :
    absolute cwd (textOf true ns) = textOf true ns := by
  have hp : ∀ c ∈ ns, Proper c := fun c hc ↦ ValidName.proper (hns c hc)
  rw [absolute, if_pos (isAbs_textOf hp), normalize_textOf hp,
    foldl_normStep_of_safe 1 ns [] fun c hc ↦ ValidName.safe (hns c hc)]
  simp

/-- A working directory of the first form joined with the empty text, once normalised. -/
theorem normalize_join_empty (hC : ∀ c ∈ C, ValidName c) :
    normalize (join (textOf true C) "") = textOf true C := by
  have hpC : ∀ c ∈ C, Proper c := fun c hc ↦ ValidName.proper (hC c hc)
  have hself : normalize (textOf true C) = textOf true C := by
    rw [normalize_textOf hpC, foldl_normStep_of_safe 1 C [] fun c hc ↦ ValidName.safe (hC c hc)]
    simp
  rw [join_eq_of_not_abs rfl]
  by_cases hCnil : C = []
  · subst hCnil
    decide
  · -- a directory with names gets a separator after it
    obtain ⟨⟨c, hc, -⟩, hlast⟩ := textOf_ends true hpC hCnil
    have hcond : ((textOf true C).isEmpty || (textOf true C).toList.getLast? == some '/') =
        false := by
      simpa [isEmpty_of_mem_toList hc] using hlast
    rw [hcond, if_neg Bool.false_ne_true, String.append_empty, normalize_textOf_sep hpC hCnil,
      hself]

/-- A text of the second form made absolute against a working directory of the first form: the
directory less one name for each `..`, then the names. -/
theorem absolute_textOf_up (hC : ∀ c ∈ C, ValidName c) (k : Nat) (hns : ∀ c ∈ ns, ValidName c) :
    absolute (textOf true C) (textOf false (List.replicate k ".." ++ ns)) =
      textOf true (C.take (C.length - k) ++ ns) := by
  have hpC : ∀ c ∈ C, Proper c := fun c hc ↦ ValidName.proper (hC c hc)
  have hxs := proper_dots_append k hns
  rw [absolute, if_neg (by simp [isAbs_textOf hxs])]
  by_cases hne : List.replicate k ".." ++ ns = []
  · obtain ⟨hk, rfl⟩ := List.append_eq_nil_iff.mp hne
    obtain rfl : k = 0 := by simpa using hk
    simpa [textOf] using normalize_join_empty hC
  · have hall : ∀ c ∈ C ++ (List.replicate k ".." ++ ns), Proper c := by
      intro c hc
      rcases List.mem_append.mp hc with hc | hc
      · exact hpC c hc
      · exact hxs c hc
    -- the kept components: the directory's names, less one for each `..`, then the names
    have hCdots : ".." ∉ C.reverse := fun h ↦ (hC _ (List.mem_reverse.mp h)).2.2.1 rfl
    have hkept : (C ++ (List.replicate k ".." ++ ns)).foldl (normStep 1) [] =
        ns.reverse ++ (C.take (C.length - k)).reverse := by
      rw [List.foldl_append, List.foldl_append,
        foldl_normStep_of_safe 1 C [] fun c hc ↦ ValidName.safe (hC c hc), List.append_nil,
        foldl_normStep_dots k _ hCdots,
        foldl_normStep_of_safe 1 ns _ fun c hc ↦ ValidName.safe (hns c hc), List.drop_reverse]
    have htext : textOf false (List.replicate k ".." ++ ns) =
        "/".intercalate (List.replicate k ".." ++ ns) := by
      simp [textOf]
    rw [htext, join_textOf_intercalate true hpC hxs hne, normalize_textOf hall, hkept]
    simp

/-- The text of a location with proper names determines the location. -/
theorem textOf_root_inj {L L' : List String} (hL : ∀ c ∈ L, Proper c) (hL' : ∀ c ∈ L', Proper c)
    (h : textOf true L = textOf true L') : L = L' := by
  have hsep : String.ofList (List.replicate (0 + 1) '/') = "/" := by decide
  have hc := components_text 0 hL
  have hc' := components_text 0 hL'
  rw [hsep] at hc hc'
  have h' : "/" ++ "/".intercalate L = "/" ++ "/".intercalate L' := h
  rw [← hc, ← hc', h']

end Absolute

section Counting

/-- The POSIX segments of a text of the first form: one for each name. -/
theorem segments_textOf {Q : List String} (hQ : ∀ c ∈ Q, ValidName c) :
    (parsePosix (textOf true Q)).segments = Q.length := by
  have hp : ∀ c ∈ Q, Proper c := fun c hc ↦ ValidName.proper (hQ c hc)
  have hhead := intercalate_head?_ne_sep hp
  have hstrip : ("/".intercalate Q).toList.dropWhile (· == '/') = ("/".intercalate Q).toList := by
    cases h : ("/".intercalate Q).toList with
    | nil => rfl
    | cons c cs =>
      have hc : c ≠ '/' := fun hc ↦ hhead (by simp [h, hc])
      simp [hc]
  have hparts : relParts '/' ("/".intercalate Q).toList = Q := by
    unfold relParts
    rcases pieces_intercalate_or_empty hp with h | ⟨rfl, -⟩
    · have h' : (("/".intercalate Q).toList.splitOn '/').map String.ofList = Q := h
      rw [h']
      exact List.filter_eq_self.mpr fun c hc ↦ by
        obtain ⟨hne, hdot, -⟩ := hQ c hc
        simp [hne, hdot]
    · rfl
  have hcount : (Q.filter fun part ↦ part != "/" && part != "." && part != "..").length =
      Q.length := by
    rw [List.filter_eq_self.mpr]
    intro c hc
    obtain ⟨-, hdot, hdots, hsep, -⟩ := hQ c hc
    have hslash : c ≠ "/" := fun h ↦ hsep (by simp [h])
    simp [hslash, hdot, hdots]
  have htl : (textOf true Q).toList = '/' :: ("/".intercalate Q).toList := by simp [textOf]
  unfold parsePosix
  simp only [htl, List.dropWhile_cons, beq_self_eq_true, if_true, hstrip, List.length_cons,
    Nat.add_sub_cancel_left]
  have hroot : (if (1 == 2) = true then "//" else "/") = "/" := rfl
  simp only [hroot, hparts, Parsed.segments, Parsed.anchor]
  simpa using hcount

end Counting

/-- The location of a working directory written in the first form is its names. -/
theorem locOf_textOf {C : List String} (hC : ∀ c ∈ C, ValidName c) : locOf (textOf true C) = C := by
  have hp : ∀ c ∈ C, Proper c := fun c hc ↦ ValidName.proper (hC c hc)
  unfold locOf
  simp only [textOf, if_true, pieces_sep_cons]
  rcases pieces_intercalate_or_empty hp with h | ⟨rfl, h⟩
  · rw [h]
    simp only [List.filter_cons, bne_self_eq_false, Bool.false_eq_true, if_false]
    exact List.filter_eq_self.mpr fun c hc ↦ by simpa using (hC c hc).1
  · rw [h]
    rfl

end TorrentPrune.Path
