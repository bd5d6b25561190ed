import TorrentPrune.Proofs.Path.Relative
import TorrentPrune.Safety

/-!
# Counting path segments

A path that is written Windows style, or that does not resolve, is counted as written: its drive,
when there is one, is one segment, and every part after the anchor is one, except `..` and except
a part that repeats the anchor. Parts never hold a separator and are never empty, so a part can
repeat the anchor only when the anchor is a bare drive such as `C:`, with no root: `C:a\C:` has
the parts `a` and `C:` after its anchor `C:`, and counts two segments, not three
(`countSegments_counts_parts_after_anchor`). Under POSIX rules the anchor is empty, `/` or `//`,
which no part repeats. For the same reason, a plain component appended after a separator to a
Windows path whose drive it leaves as it is adds one segment, unless it repeats the anchor.
-/

namespace TorrentPrune.Path

/-- The count that takes the drive as one segment and every part after the anchor as one, except
`.` and `..`. -/
def Parsed.plainCount (p : Parsed) : Nat :=
  (if p.drive.isEmpty then 0 else 1) +
    (p.parts.filter fun part ↦ part != "." && part != "..").length

/-! ### Parts -/

section Parts

variable (sep : Char)

/-- A part is a nonempty text other than `.`, without the separator. -/
theorem mem_relParts {rel : List Char} {x : String} (h : x ∈ relParts sep rel) :
    x ≠ "" ∧ x ≠ "." ∧ sep ∉ x.toList := by
  simp only [relParts, List.mem_filter, List.mem_map, Bool.and_eq_true, bne_iff_ne, ne_eq] at h
  obtain ⟨⟨l, hl, rfl⟩, hempty, hdot⟩ := h
  exact ⟨hempty, hdot, by simpa using sep_not_mem_of_mem_splitOn hl⟩

/-- Text after a separator adds its own parts. -/
theorem relParts_append_sep (rel c : List Char) :
    relParts sep (rel ++ sep :: c) = relParts sep rel ++ relParts sep c := by
  simp [relParts, List.splitOn_append_cons_self]

@[simp] theorem relParts_nil : relParts sep [] = [] := rfl

/-- Leading separators add no part. -/
theorem relParts_dropWhile_sep (rel : List Char) :
    relParts sep (rel.dropWhile (· == sep)) = relParts sep rel := by
  induction rel with
  | nil => rfl
  | cons x rest ih =>
    by_cases hx : x = sep
    · subst hx
      have hsplit := relParts_append_sep x [] rest
      simp only [List.nil_append, relParts_nil] at hsplit
      simp [ih, hsplit]
    · simp [hx]

/-- A text without the separator is one part, unless it is empty or `.`. -/
theorem relParts_of_sep_not_mem {c : List Char} (hc : sep ∉ c) (hne : c ≠ []) (hdot : c ≠ ['.']) :
    relParts sep c = [String.ofList c] := by
  have hstr : String.ofList c ≠ "" := by simpa using hne
  have hstrdot : String.ofList c ≠ "." := by
    intro h
    exact hdot (by simpa using congrArg String.toList h)
  simp [relParts, List.splitOn_eq_singleton hc, hstr, hstrdot]

end Parts

/-! ### The anchor -/

/-- The extended-length prefix split off a Windows path is empty or holds a backslash. -/
theorem splitExtended_fst (cs : List Char) :
    (splitExtended cs).1 = [] ∨ '\\' ∈ (splitExtended cs).1 := by
  unfold splitExtended
  split
  · next h =>
    right
    have h4 : cs.take 4 = ['\\', '\\', '?', '\\'] := by simpa using h
    dsimp only
    split <;> simp [h4]
  · left; rfl


/-- A share's drive starts with the prefix before it. -/
theorem shareDrive_extends (pre cs : List Char) (stop : Nat) : pre <+: shareDrive pre cs stop := by
  unfold shareDrive
  cases hpre : pre.isEmpty with
  | true => simp [List.isEmpty_iff.mp hpre]
  | false => simp

/-- A share found at the front has a drive starting with the prefix, and a root. -/
theorem exists_of_splitShare_eq_some {pre cs d r rel : List Char}
    (h : splitShare pre cs = some (d, r, rel)) : pre <+: d ∧ r = ['\\'] := by
  unfold splitShare at h
  split at h
  · split at h
    · cases h
    · dsimp only at h
      split at h
      · cases h
      · have h' := Option.some.inj h
        simp only [Prod.mk.injEq] at h'
        obtain ⟨rfl, rfl, -⟩ := h'
        exact ⟨shareDrive_extends _ _ _, rfl⟩
  · cases h

/-- A drive letter split off is a letter and a colon, or nothing. -/
theorem splitDriveLetter_fst (cs : List Char) :
    (splitDriveLetter cs).1 = [] ∨ ∃ x, isDriveLetter x = true ∧ (splitDriveLetter cs).1 = [x, ':'] := by
  unfold splitDriveLetter
  split
  · split
    · next x _ hx => exact Or.inr ⟨x, hx, rfl⟩
    · exact Or.inl rfl
  · exact Or.inl rfl

/-- A root split off is one separator, or nothing. -/
theorem splitRootRun_fst (rest : List Char) :
    (splitRootRun rest).1 = [] ∨ (splitRootRun rest).1 = ['\\'] := by
  unfold splitRootRun
  split
  · exact Or.inr rfl
  · exact Or.inl rfl

/-- The prefix split off a Windows path is empty or holds a backslash. -/
theorem splitPrefix_fst (part : List Char) :
    (splitPrefix part).1 = [] ∨ '\\' ∈ (splitPrefix part).1 := by
  unfold splitPrefix
  split
  · exact splitExtended_fst part
  · exact Or.inl rfl

/-- The anchor of a Windows path holds a backslash, is empty, or is a bare drive letter without a
root. -/
theorem windowsSplitRoot_anchor (part : List Char) :
    '\\' ∈ (windowsSplitRoot part).1 ++ (windowsSplitRoot part).2.1 ∨
      (windowsSplitRoot part).1 ++ (windowsSplitRoot part).2.1 = [] ∨
      ((windowsSplitRoot part).2.1 = [] ∧
        ∃ x, isDriveLetter x = true ∧ (windowsSplitRoot part).1 = [x, ':']) := by
  have hpre := splitPrefix_fst part
  unfold windowsSplitRoot
  generalize splitPrefix part = pc at hpre ⊢
  obtain ⟨pre, cs⟩ := pc
  dsimp only at hpre ⊢
  cases hs : splitShare pre cs with
  | some result =>
    obtain ⟨d, r, rel⟩ := result
    simp [(exists_of_splitShare_eq_some hs).2]
  | none =>
    dsimp only
    rcases hpre with hp | hp
    · subst hp
      rcases splitDriveLetter_fst cs with hd | ⟨x, hx, hd⟩
      · rcases splitRootRun_fst (splitDriveLetter cs).2 with hr | hr <;> simp [hd, hr]
      · rcases splitRootRun_fst (splitDriveLetter cs).2 with hr | hr <;> simp [hd, hr, hx]
    · left
      simp [hp]

/-! ### Counting -/

/-- Of the parts that are neither `.` nor `..`, those that repeat the anchor go uncounted. -/
theorem Parsed.segments_add_count_anchor (p : Parsed) (hdot : p.anchor ≠ ".")
    (hdots : p.anchor ≠ "..") : p.segments + p.parts.count p.anchor = p.plainCount := by
  have hparts : ∀ l : List String,
      (l.filter fun part ↦ part != p.anchor && part != "." && part != "..").length +
        l.count p.anchor = (l.filter fun part ↦ part != "." && part != "..").length := by
    intro l
    induction l with
    | nil => rfl
    | cons x l ih =>
      by_cases hx : x = p.anchor
      · subst hx
        simp [hdot, hdots]
        omega
      · by_cases hplain : x = "." ∨ x = ".."
        · rcases hplain with rfl | rfl <;> simp_all
        · simp only [not_or] at hplain
          simp [hx, hplain]
          omega
  unfold Parsed.segments Parsed.plainCount
  have := hparts p.parts
  omega

/-- A part never holds a separator and is never empty, so it repeats an anchor of one of the
three Windows shapes only when that anchor is a bare drive letter. -/
theorem bare_drive_of_anchor_mem {d r rel : List Char}
    (hshape : '\\' ∈ d ++ r ∨ d ++ r = [] ∨ (r = [] ∧ ∃ x, isDriveLetter x = true ∧ d = [x, ':']))
    (h : String.ofList (d ++ r) ∈ relParts '\\' rel) :
    r = [] ∧ ∃ x, isDriveLetter x = true ∧ d = [x, ':'] := by
  obtain ⟨hempty, -, hsep⟩ := mem_relParts '\\' h
  rw [String.toList_ofList] at hsep
  rcases hshape with hin | hnil | hbare
  · exact absurd hin hsep
  · exact absurd (by rw [hnil]) hempty
  · exact hbare

/-- A path read under Windows rules, through the split of its characters. -/
theorem parseWindows_eq (raw : String) :
    parseWindows raw = ⟨String.ofList (windowsSplitRoot (windowsChars raw)).1,
      String.ofList (windowsSplitRoot (windowsChars raw)).2.1,
      relParts '\\' (windowsSplitRoot (windowsChars raw)).2.2⟩ := rfl

/-- A part that repeats the anchor of a path read under Windows rules stands after a bare drive
letter without a root. -/
theorem parseWindows_anchor_mem_parts {raw : String}
    (h : (parseWindows raw).anchor ∈ (parseWindows raw).parts) :
    (parseWindows raw).root = "" ∧
      ∃ x, isDriveLetter x = true ∧ (parseWindows raw).drive = String.ofList [x, ':'] := by
  rw [parseWindows_eq] at h ⊢
  simp only [Parsed.anchor, ← String.ofList_append] at h
  obtain ⟨hroot, x, hx, hdrive⟩ := bare_drive_of_anchor_mem (windowsSplitRoot_anchor _) h
  exact ⟨by rw [hroot], x, hx, by rw [hdrive]⟩

/-! ### Appending a component -/

section Appending

/-- A separator found in a list is found at the same place whatever is appended. -/
theorem findBackslash_append_of_some {cs : List Char} {start i : Nat} (ys : List Char)
    (h : findBackslash cs start = some i) : findBackslash (cs ++ ys) start = some i := by
  have hle : start ≤ cs.length := by
    by_contra hlt
    simp [findBackslash, List.drop_eq_nil_of_le (Nat.le_of_not_le hlt)] at h
  unfold findBackslash at h ⊢
  rw [List.drop_append_of_le_length hle, List.findIdx?_append]
  obtain ⟨j, hj, rfl⟩ := Option.map_eq_some_iff.mp h
  simp [hj]

/-- After a list without a separator, an appended separator is the one found. -/
theorem findBackslash_append_sep_of_none {cs : List Char} {start : Nat}
    (hle : start ≤ cs.length) (h : findBackslash cs start = none) (c : List Char) :
    findBackslash (cs ++ '\\' :: c) start = some cs.length := by
  unfold findBackslash at h ⊢
  rw [List.drop_append_of_le_length hle, List.findIdx?_append]
  have hnone : (cs.drop start).findIdx? (· == '\\') = none := by simpa using h
  simp only [hnone, List.findIdx?_cons, beq_self_eq_true, if_true, Option.none_or, Option.map_some,
    List.length_drop]
  congr 1
  omega

/-- Past the end of a list, a text without a separator finds none. -/
theorem findBackslash_append_of_le {cs c : List Char} {start : Nat} (hc : '\\' ∉ c)
    (hle : cs.length ≤ start) : findBackslash (cs ++ c) start = none := by
  unfold findBackslash
  have hdrop : (cs ++ c).drop start = c.drop (start - cs.length) := by
    rw [List.drop_append, List.drop_eq_nil_of_le hle, List.nil_append]
  rw [hdrop]
  have hnone : (c.drop (start - cs.length)).findIdx? (· == '\\') = none :=
    List.findIdx?_eq_none_iff.mpr fun x hx ↦ by
      have : x ≠ '\\' := fun h ↦ hc (h ▸ List.mem_of_mem_drop hx)
      simpa using this
  simp [hnone]

/-- A separator is found within the list, at or after the start. -/
theorem lt_length_of_findBackslash {cs : List Char} {start i : Nat}
    (h : findBackslash cs start = some i) : start ≤ i ∧ i < cs.length := by
  unfold findBackslash at h
  obtain ⟨j, hj, rfl⟩ := Option.map_eq_some_iff.mp h
  obtain ⟨hlt, -⟩ := List.findIdx?_eq_some_iff_getElem.mp hj
  rw [List.length_drop] at hlt
  omega

/-- Before the start, nothing is found. -/
theorem findBackslash_of_length_le {cs : List Char} {start : Nat} (hle : cs.length ≤ start) :
    findBackslash cs start = none := by
  simpa using findBackslash_append_of_le (c := []) List.not_mem_nil hle

/-! #### The share -/

/-- The drive of a share that runs at least two characters is more than the prefix before it. -/
theorem shareDrive_ne (pre cs : List Char) {stop : Nat} (h2 : 2 ≤ stop) (hstop : stop ≤ cs.length) :
    shareDrive pre cs stop ≠ pre := by
  unfold shareDrive
  cases hpre : pre.isEmpty with
  | true =>
    rw [if_pos rfl, List.isEmpty_iff.mp hpre]
    intro h
    have hlen : (cs.take stop).length = 0 := by rw [h]; rfl
    rw [List.length_take] at hlen
    omega
  | false =>
    rw [if_neg Bool.false_ne_true]
    intro h
    have hlen : (pre ++ (cs.take stop).drop 1).length = pre.length := by rw [h]
    simp only [List.length_append, List.length_drop, List.length_take] at hlen
    omega

/-- A share's drive reads only the characters before its stop. -/
theorem shareDrive_append (pre cs ys : List Char) {stop : Nat} (h : stop ≤ cs.length) :
    shareDrive pre (cs ++ ys) stop = shareDrive pre cs stop := by
  simp only [shareDrive, List.take_append_of_le_length h]

/-- The guard of a share reads the first three characters only. -/
theorem startsShare_append {cs : List Char} (ys : List Char) (h : 3 ≤ cs.length) :
    startsShare (cs ++ ys) = startsShare cs := by
  simp only [startsShare, List.take_append_of_le_length (by omega : 2 ≤ cs.length),
    List.getElem?_append_left (by omega : 2 < cs.length)]

/-- A share starts with a separator. -/
theorem head?_of_startsShare {cs : List Char} (h : startsShare cs = true) :
    cs.head? = some '\\' := by
  rcases cs with _ | ⟨a, _ | ⟨b, rest⟩⟩ <;> simp_all [startsShare]

/-- No share stands where the guard fails. -/
theorem splitShare_of_not_startsShare (pre : List Char) {cs : List Char}
    (h : startsShare cs = false) : splitShare pre cs = none := by
  simp [splitShare, h]

/-- No share stands without a separator after the server. -/
theorem splitShare_of_findBackslash_none (pre : List Char) {cs : List Char}
    (h : findBackslash cs 2 = none) : splitShare pre cs = none := by
  simp [splitShare, h]

/-- No share stands where the separator after the server is doubled. -/
theorem splitShare_of_doubled (pre : List Char) {cs : List Char} {i : Nat}
    (hi : findBackslash cs 2 = some i) (hi2 : findBackslash cs (i + 1) = some (i + 1)) :
    splitShare pre cs = none := by
  simp [splitShare, hi, hi2]

/-- Otherwise a share stands, up to the next separator or the end. -/
theorem splitShare_of_stop (pre : List Char) {cs : List Char} {i : Nat}
    (hg : startsShare cs = true) (hi : findBackslash cs 2 = some i)
    (hi2 : findBackslash cs (i + 1) ≠ some (i + 1)) :
    splitShare pre cs = some (shareDrive pre cs ((findBackslash cs (i + 1)).getD cs.length),
      ['\\'], cs.drop ((findBackslash cs (i + 1)).getD cs.length + 1)) := by
  simp [splitShare, hg, hi, hi2]

/-- Below three characters no share stands, before or after a separator and a component are
appended. -/
theorem splitShare_short (pre : List Char) {cs c : List Char} (hc : '\\' ∉ c)
    (hlen : cs.length < 3) :
    splitShare pre cs = none ∧ splitShare pre (cs ++ '\\' :: c) = none := by
  refine ⟨splitShare_of_findBackslash_none pre (findBackslash_of_length_le (by omega)), ?_⟩
  by_cases h2 : cs.length = 2
  · -- the appended separator is the third character, which the guard refuses
    apply splitShare_of_not_startsShare
    simp [startsShare, h2]
  · apply splitShare_of_findBackslash_none
    rw [show cs ++ '\\' :: c = (cs ++ ['\\']) ++ c by simp]
    exact findBackslash_append_of_le hc (by simp; omega)

/-- How appending a separator and a component changes the share at the front: the share stays with
the component after it, a share that ran to the end gains the component as its rest, no share
stays none; or, after two leading separators, the share comes or goes and the drive changes. -/
theorem splitShare_append (pre cs : List Char) {c : List Char} (hc : '\\' ∉ c) :
    (∃ d rel, splitShare pre cs = some (d, ['\\'], rel) ∧
      splitShare pre (cs ++ '\\' :: c) = some (d, ['\\'], rel ++ '\\' :: c)) ∨
    (∃ d, splitShare pre cs = some (d, ['\\'], []) ∧
      splitShare pre (cs ++ '\\' :: c) = some (d, ['\\'], c)) ∨
    (splitShare pre cs = none ∧ splitShare pre (cs ++ '\\' :: c) = none) ∨
    (cs.head? = some '\\' ∧ ∃ d, splitShare pre cs = some (d, ['\\'], []) ∧ d ≠ pre ∧
      splitShare pre (cs ++ '\\' :: c) = none) ∨
    (cs.head? = some '\\' ∧ splitShare pre cs = none ∧ ∃ d r rel,
      splitShare pre (cs ++ '\\' :: c) = some (d, r, rel) ∧ d ≠ pre) := by
  by_cases hlen : cs.length < 3
  · exact Or.inr (Or.inr (Or.inl (splitShare_short pre hc hlen)))
  have hlen3 : 3 ≤ cs.length := by omega
  have hg' := startsShare_append ('\\' :: c) hlen3
  cases hg : startsShare cs with
  | false =>
    rw [hg] at hg'
    exact Or.inr (Or.inr (Or.inl
      ⟨splitShare_of_not_startsShare pre hg, splitShare_of_not_startsShare pre hg'⟩))
  | true =>
    rw [hg] at hg'
    have hhead := head?_of_startsShare hg
    cases hi : findBackslash cs 2 with
    | none =>
      -- the appended separator ends the server, and the component is the share
      have hi' := findBackslash_append_sep_of_none (by omega) hi c
      have hi2' : findBackslash (cs ++ '\\' :: c) (cs.length + 1) = none := by
        rw [show cs ++ '\\' :: c = (cs ++ ['\\']) ++ c by simp]
        exact findBackslash_append_of_le hc (by simp)
      refine Or.inr (Or.inr (Or.inr (Or.inr ⟨hhead, splitShare_of_findBackslash_none pre hi,
        _, _, _, splitShare_of_stop pre hg' hi' (by simp [hi2']), ?_⟩)))
      rw [hi2', Option.getD_none]
      exact shareDrive_ne pre _ (by simp; omega) (Nat.le_refl _)
    | some i =>
      have hi' := findBackslash_append_of_some ('\\' :: c) hi
      have hilt := (lt_length_of_findBackslash hi).2
      cases hi2 : findBackslash cs (i + 1) with
      | none =>
        have hi2' := findBackslash_append_sep_of_none (by omega) hi2 c
        have hshare := splitShare_of_stop pre hg hi (by simp [hi2])
        rw [hi2, Option.getD_none, List.drop_eq_nil_of_le (by omega)] at hshare
        by_cases hend : cs.length = i + 1
        · -- the server's separator ended the list: the appended one doubles it
          rw [hend] at hi2'
          exact Or.inr (Or.inr (Or.inr (Or.inl ⟨hhead, _, hshare,
            shareDrive_ne pre cs (by omega) (Nat.le_refl _), splitShare_of_doubled pre hi' hi2'⟩)))
        · -- the share ran to the end: the component becomes its rest
          refine Or.inr (Or.inl ⟨_, hshare, ?_⟩)
          rw [splitShare_of_stop pre hg' hi' (by simp [hi2']; omega), hi2', Option.getD_some,
            shareDrive_append _ _ _ (Nat.le_refl _)]
          simp
      | some j =>
        have hi2' := findBackslash_append_of_some ('\\' :: c) hi2
        by_cases hdouble : j = i + 1
        · subst hdouble
          exact Or.inr (Or.inr (Or.inl
            ⟨splitShare_of_doubled pre hi hi2, splitShare_of_doubled pre hi' hi2'⟩))
        · -- the share stops before the end: the component joins its rest
          have hjlt := (lt_length_of_findBackslash hi2).2
          have hshare := splitShare_of_stop pre hg hi (by simp [hi2, hdouble])
          rw [hi2, Option.getD_some] at hshare
          refine Or.inl ⟨_, _, hshare, ?_⟩
          rw [splitShare_of_stop pre hg' hi' (by simp [hi2', hdouble]), hi2', Option.getD_some,
            shareDrive_append _ _ _ (Nat.le_of_lt hjlt), List.drop_append_of_le_length (by omega)]

/-! #### The prefix -/

/-- A text that begins with the word `w` once a separator and a component are appended, while it
is shorter than `w`, is `w` less its last character, when that is a separator: the component holds
no separator. -/
theorem append_sep_eq_of_take {l c w : List Char} (hc : '\\' ∉ c) (hw : w.getLast? = some '\\')
    (hlen : l.length < w.length) (h : (l ++ '\\' :: c).take w.length = w) : l ++ ['\\'] = w := by
  have hk : w = l ++ '\\' :: c.take (w.length - l.length - 1) := calc
    w = (l ++ '\\' :: c).take w.length := h.symm
    _ = l ++ '\\' :: c.take (w.length - l.length - 1) := by
      rw [List.take_append, List.take_of_length_le (by omega),
        show w.length - l.length = w.length - l.length - 1 + 1 by omega, List.take_succ_cons,
        Nat.add_sub_cancel]
  -- the last separator of `w` cannot come from the component
  rcases ht : c.take (w.length - l.length - 1) with _ | ⟨x, t⟩
  · rw [hk, ht]
  · rw [hk, ht] at hw
    have hlast : (x :: t).getLast? = some '\\' := by simpa [List.getLast?_append] using hw
    have hmem : '\\' ∈ c.take (w.length - l.length - 1) := by
      rw [ht]
      exact List.mem_of_getLast? hlast
    exact absurd (List.mem_of_mem_take hmem) hc

/-- Appending a separator and a component leaves the extended-length prefix as it is, except
after `\\?`, which becomes the prefix, and after `\\?\UNC`, which becomes the prefix of a share. -/
theorem splitExtended_append (part : List Char) {c : List Char} (hc : '\\' ∉ c) :
    splitExtended (part ++ '\\' :: c) =
        ((splitExtended part).1, (splitExtended part).2 ++ '\\' :: c) ∨
      part = ['\\', '\\', '?'] ∨ part = ['\\', '\\', '?', '\\', 'U', 'N', 'C'] := by
  by_cases h4 : 4 ≤ part.length
  · have ht : (part ++ '\\' :: c).take 4 = part.take 4 := List.take_append_of_le_length h4
    have hd : (part ++ '\\' :: c).drop 4 = part.drop 4 ++ '\\' :: c :=
      List.drop_append_of_le_length h4
    by_cases hx : part.take 4 = ['\\', '\\', '?', '\\']
    · by_cases h8 : 4 ≤ (part.drop 4).length
      · -- the `UNC` check reads inside the text
        left
        simp [splitExtended, ht, hd, hx, List.take_append_of_le_length h8,
          List.take_append_of_le_length (by omega : 3 ≤ (part.drop 4).length),
          List.drop_append_of_le_length (by omega : 3 ≤ (part.drop 4).length)]
        split <;> simp
      · have hu : ((part.drop 4).take 4 == ['U', 'N', 'C', '\\']) = false := by
          rw [List.take_of_length_le (by omega), beq_eq_false_iff_ne]
          intro h
          have := congrArg List.length h
          simp only [List.length_cons, List.length_nil] at this
          omega
        by_cases hu' : (part.drop 4 ++ '\\' :: c).take 4 = ['U', 'N', 'C', '\\']
        · -- the appended separator completes `UNC\`
          right; right
          have hunc := append_sep_eq_of_take (w := ['U', 'N', 'C', '\\']) hc rfl
            (by simp only [List.length_drop, List.length_cons, List.length_nil] at h8 ⊢; omega) hu'
          have hrest : part.drop 4 = ['U', 'N', 'C'] :=
            List.append_cancel_right (hunc.trans (by rfl : ['U', 'N', 'C', '\\'] = ['U', 'N', 'C'] ++ ['\\']))
          rw [← List.take_append_drop 4 part, hx, hrest]
          rfl
        · left
          simp [splitExtended, ht, hd, hx, hu, hu']
    · left
      simp [splitExtended, ht, hx]
  · -- shorter than the prefix: no prefix before, and after only `\\?` becomes one
    have hx : part.take 4 ≠ ['\\', '\\', '?', '\\'] := by
      rw [List.take_of_length_le (by omega)]
      intro h
      have := congrArg List.length h
      simp only [List.length_cons, List.length_nil] at this
      omega
    by_cases hx' : (part ++ '\\' :: c).take 4 = ['\\', '\\', '?', '\\']
    · right; left
      have hpre := append_sep_eq_of_take (w := ['\\', '\\', '?', '\\']) hc rfl (by simp; omega) hx'
      exact List.append_cancel_right
        (hpre.trans (by rfl : ['\\', '\\', '?', '\\'] = ['\\', '\\', '?'] ++ ['\\']))
    · left
      simp [splitExtended, hx, hx']

/-- Appending a separator and a component to a text of two characters or more leaves its prefix
stage as it is, except after `\\?` and after `\\?\UNC`. -/
theorem splitPrefix_append (part : List Char) {c : List Char} (h2 : 2 ≤ part.length)
    (hc : '\\' ∉ c) :
    splitPrefix (part ++ '\\' :: c) = ((splitPrefix part).1, (splitPrefix part).2 ++ '\\' :: c) ∨
      part = ['\\', '\\', '?'] ∨ part = ['\\', '\\', '?', '\\', 'U', 'N', 'C'] := by
  unfold splitPrefix
  rw [List.take_append_of_le_length h2]
  split
  · exact splitExtended_append part hc
  · exact Or.inl rfl

/-- The drive of a Windows path starts with its prefix. -/
theorem windowsSplitRoot_drive_extends (part : List Char) :
    (splitPrefix part).1 <+: (windowsSplitRoot part).1 := by
  unfold windowsSplitRoot
  generalize splitPrefix part = pc
  obtain ⟨pre, cs⟩ := pc
  dsimp only
  cases hs : splitShare pre cs with
  | some result =>
    obtain ⟨d, r, rel⟩ := result
    exact (exists_of_splitShare_eq_some hs).1
  | none => exact List.prefix_append _ _

/-! #### The drive letter and the root -/

/-- A drive letter reads the first two characters only, and a separator is no drive letter. -/
theorem splitDriveLetter_append (cs c : List Char) :
    splitDriveLetter (cs ++ '\\' :: c) =
      ((splitDriveLetter cs).1, (splitDriveLetter cs).2 ++ '\\' :: c) := by
  rcases cs with _ | ⟨a, _ | ⟨b, rest⟩⟩
  · unfold splitDriveLetter
    split
    · next h =>
      simp only [List.nil_append, List.cons.injEq] at h
      obtain ⟨rfl, -⟩ := h
      rfl
    · rfl
  · simp [splitDriveLetter]
  · by_cases hb : b = ':'
    · subst hb
      by_cases hd : isDriveLetter a = true <;> simp [splitDriveLetter, hd]
    · simp [splitDriveLetter, hb]

/-- After a separator, no drive letter stands. -/
theorem splitDriveLetter_of_head {cs : List Char} (h : cs.head? = some '\\') :
    (splitDriveLetter cs).1 = [] := by
  rcases cs with _ | ⟨a, _ | ⟨b, rest⟩⟩
  · rfl
  · rfl
  · simp only [List.head?_cons, Option.some.injEq] at h
    subst h
    by_cases hb : b = ':'
    · subst hb
      have hsep : isDriveLetter '\\' = false := by decide
      simp [splitDriveLetter, hsep]
    · simp [splitDriveLetter, hb]

/-- A root run keeps its root, or gains one where nothing followed the drive, and its parts gain
the component's. -/
theorem splitRootRun_append (rest c : List Char) :
    ((splitRootRun (rest ++ '\\' :: c)).1 = (splitRootRun rest).1 ∨
        relParts '\\' (splitRootRun rest).2 = []) ∧
      relParts '\\' (splitRootRun (rest ++ '\\' :: c)).2 =
        relParts '\\' (splitRootRun rest).2 ++ relParts '\\' c := by
  rcases rest with _ | ⟨y, rest⟩
  · refine ⟨Or.inr rfl, ?_⟩
    simp [splitRootRun, relParts_dropWhile_sep]
  · by_cases hy : y = '\\'
    · subst hy
      refine ⟨Or.inl rfl, ?_⟩
      simp only [splitRootRun, List.cons_append, relParts_dropWhile_sep]
      exact relParts_append_sep '\\' ('\\' :: rest) c
    · refine ⟨Or.inl (by simp [splitRootRun, hy]), ?_⟩
      have hafter : (splitRootRun (y :: rest ++ '\\' :: c)).2 = y :: rest ++ '\\' :: c := by
        simp [splitRootRun, hy]
      have hbefore : (splitRootRun (y :: rest)).2 = y :: rest := by simp [splitRootRun, hy]
      rw [hafter, hbefore]
      exact relParts_append_sep '\\' (y :: rest) c

/-! #### The whole split -/

/-- How the split of a Windows path changes when a separator and the component `c` are appended:
the drive changes, or the parts gain those of `c`, and the root stays unless there were no
parts. -/
def SplitGrows (c : List Char) (before after : List Char × List Char × List Char) : Prop :=
  after.1 ≠ before.1 ∨
    ((after.2.1 = before.2.1 ∨ relParts '\\' before.2.2 = []) ∧
      relParts '\\' after.2.2 = relParts '\\' before.2.2 ++ relParts '\\' c)

/-- A drive that the append lengthens past its old length changes. -/
theorem splitGrows_of_prefix {c pre : List Char} {before after : List Char × List Char × List Char}
    (hpre : pre <+: after.1) (hlen : before.1.length < pre.length) : SplitGrows c before after := by
  left
  intro h
  have := hpre.length_le
  rw [h] at this
  omega

/-- Appending a separator and a component to a Windows path of two characters or more grows its
split. -/
theorem windowsSplitRoot_append (part : List Char) {c : List Char} (h2 : 2 ≤ part.length)
    (hc : '\\' ∉ c) : SplitGrows c (windowsSplitRoot part) (windowsSplitRoot (part ++ '\\' :: c)) := by
  rcases splitPrefix_append part h2 hc with hpre | rfl | rfl
  · unfold windowsSplitRoot
    rw [hpre]
    generalize splitPrefix part = pc
    obtain ⟨pre, cs⟩ := pc
    dsimp only
    rcases splitShare_append pre cs hc with ⟨d, rel, h, h'⟩ | ⟨d, h, h'⟩ | ⟨h, h'⟩ |
        ⟨hhead, d, h, hd, h'⟩ | ⟨hhead, h, d, r, rel, h', hd⟩
    · -- the share stays
      rw [h, h']
      exact Or.inr ⟨Or.inl rfl, relParts_append_sep '\\' rel c⟩
    · -- the share gains its rest
      rw [h, h']
      exact Or.inr ⟨Or.inl rfl, by simp⟩
    · -- no share: the drive letter stays, and the root run decides
      rw [h, h', splitDriveLetter_append]
      exact Or.inr (splitRootRun_append _ c)
    · -- the share is lost
      rw [h, h']
      left
      simp [splitDriveLetter_append, splitDriveLetter_of_head hhead]
      exact Ne.symm hd
    · -- a share comes
      rw [h, h']
      left
      simp [splitDriveLetter_of_head hhead, hd]
  · -- `\\?` gains the prefix `\\?\`
    refine splitGrows_of_prefix (windowsSplitRoot_drive_extends _) ?_
    have hext : ¬(c.take 4 = ['U', 'N', 'C', '\\']) := by
      intro h
      have hmem : '\\' ∈ c.take 4 := by rw [h]; simp
      exact hc (List.mem_of_mem_take hmem)
    simp [splitPrefix, splitExtended, hext]
    decide
  · -- `\\?\UNC` gains the prefix `\\?\UNC`
    refine splitGrows_of_prefix (windowsSplitRoot_drive_extends _) ?_
    simp [splitPrefix, splitExtended]
    decide

end Appending

/-! ### Paths read as written -/

/-- A plain component: not empty, without a separator of either kind, and neither `.` nor `..`. -/
structure PlainComponent (comp : String) : Prop where
  ne_empty : comp ≠ ""
  no_slash : '/' ∉ comp.toList
  no_backslash : '\\' ∉ comp.toList
  ne_dot : comp ≠ "."
  ne_dots : comp ≠ ".."

/-- A plain component is one part. -/
theorem PlainComponent.relParts_eq {comp : String} (h : PlainComponent comp) :
    relParts '\\' comp.toList = [comp] := by
  have hne : comp.toList ≠ [] := by simpa using h.ne_empty
  have hdot : comp.toList ≠ ['.'] := by
    intro hd
    exact h.ne_dot (by rw [← String.ofList_toList (s := comp), hd])
  rw [relParts_of_sep_not_mem '\\' h.no_backslash hne hdot, String.ofList_toList]

/-- A Windows-style path begins with a drive letter and a colon, or with two backslashes. -/
theorem isWindowsStyle_iff {raw : String} :
    isWindowsStyle raw = true ↔ ∃ a b rest, raw.toList = a :: b :: rest ∧
      ((isDriveLetter a = true ∧ b = ':') ∨ (a = '\\' ∧ b = '\\')) := by
  unfold isWindowsStyle
  generalize raw.toList = l
  rcases l with _ | ⟨a, _ | ⟨b, rest⟩⟩
  · simp
  · simp
  · by_cases hb : b = ':'
    · subst hb
      simp
    · by_cases ha : a = '\\' ∧ b = '\\'
      · obtain ⟨rfl, rfl⟩ := ha
        simp
      · split <;> simp_all

/-- A Windows-style path has two characters at least. -/
theorem two_le_length_of_isWindowsStyle {raw : String} (h : isWindowsStyle raw = true) :
    2 ≤ raw.toList.length := by
  obtain ⟨a, b, rest, hl, -⟩ := isWindowsStyle_iff.mp h
  simp [hl]

/-- Whatever follows a Windows-style start keeps it Windows style. -/
theorem isWindowsStyle_append {raw : String} (h : isWindowsStyle raw = true) (s : String) :
    isWindowsStyle (raw ++ s) = true := by
  obtain ⟨a, b, rest, hl, hab⟩ := isWindowsStyle_iff.mp h
  exact isWindowsStyle_iff.mpr ⟨a, b, rest ++ s.toList, by simp [hl], hab⟩

/-- Appending a separator of either kind and a component without `/` appends a backslash and the
component to the characters read under Windows rules. -/
theorem windowsChars_append (raw : String) {sep : Char} (hsep : sep = '/' ∨ sep = '\\')
    {comp : String} (hslash : '/' ∉ comp.toList) :
    windowsChars (raw ++ String.singleton sep ++ comp) = windowsChars raw ++ '\\' :: comp.toList := by
  have hid : ∀ x ∈ comp.toList, (if x == '/' then '\\' else x) = id x := by
    intro x hx
    have hx' : x ≠ '/' := fun h ↦ hslash (h ▸ hx)
    simp [hx']
  unfold windowsChars
  rw [String.toList_append, String.toList_append, String.toList_singleton, List.map_append,
    List.map_append, List.map_congr_left hid, List.map_id]
  rcases hsep with rfl | rfl <;> simp

/-- Appending a separator and a plain component to a Windows-style path changes its drive, or adds
the component to its parts and keeps its root unless there were no parts. -/
theorem parseWindows_append {raw comp : String} {sep : Char} (hw : isWindowsStyle raw = true)
    (hsep : sep = '/' ∨ sep = '\\') (hcomp : PlainComponent comp) :
    (parseWindows (raw ++ String.singleton sep ++ comp)).drive ≠ (parseWindows raw).drive ∨
      (((parseWindows (raw ++ String.singleton sep ++ comp)).root = (parseWindows raw).root ∨
          (parseWindows raw).parts = []) ∧
        (parseWindows (raw ++ String.singleton sep ++ comp)).parts =
          (parseWindows raw).parts ++ [comp]) := by
  have h2 : 2 ≤ (windowsChars raw).length := by
    simpa [windowsChars] using two_le_length_of_isWindowsStyle hw
  rw [parseWindows_eq, parseWindows_eq, windowsChars_append raw hsep hcomp.no_slash]
  rcases windowsSplitRoot_append (windowsChars raw) h2 hcomp.no_backslash with hd | ⟨hr, hp⟩
  · exact Or.inl fun h ↦ hd (String.ofList_inj.mp h)
  · refine Or.inr ⟨hr.imp (congrArg String.ofList) id, ?_⟩
    dsimp only
    rw [hp, hcomp.relParts_eq]

/-- A part appended after the parts, with the drive kept and the root kept unless there were no
parts, counts one segment unless it repeats the anchor. -/
theorem Parsed.segments_append_part {p q : Parsed} {comp : String} (hdrive : q.drive = p.drive)
    (hroot : q.root = p.root ∨ p.parts = []) (hparts : q.parts = p.parts ++ [comp])
    (hdot : comp ≠ ".") (hdots : comp ≠ "..") :
    q.segments = p.segments + if comp = q.anchor then 0 else 1 := by
  -- the parts before count alike: the anchor is the same, or there are none
  have hkeep : p.parts.filter (fun part ↦ part != q.anchor && part != "." && part != "..") =
      p.parts.filter (fun part ↦ part != p.anchor && part != "." && part != "..") := by
    rcases hroot with hroot | hnil
    · simp [Parsed.anchor, hdrive, hroot]
    · simp [hnil]
  unfold Parsed.segments
  rw [hparts, List.filter_append, List.length_append, hkeep, hdrive]
  by_cases hc : comp = q.anchor
  · simp [hc]
  · simp [hc, hdot, hdots]
    omega

/-- Where no part repeats the anchor, every part but `.` and `..` counts. -/
theorem Parsed.segments_of_anchor_not_mem {p : Parsed} (h : p.anchor ∉ p.parts) :
    p.segments = p.plainCount := by
  have hfilter : p.parts.filter (fun part ↦ part != p.anchor && part != "." && part != "..") =
      p.parts.filter (fun part ↦ part != "." && part != "..") := by
    apply List.filter_congr
    intro x hx
    have hne : (x != p.anchor) = true := bne_iff_ne.mpr fun hx' ↦ h (hx' ▸ hx)
    rw [hne, Bool.true_and]
  unfold Parsed.segments Parsed.plainCount
  rw [hfilter]

/-- Under POSIX rules no part repeats the anchor: the anchor is empty or holds a separator. -/
theorem parsePosix_anchor_not_mem (raw : String) :
    (parsePosix raw).anchor ∉ (parsePosix raw).parts := by
  unfold parsePosix
  dsimp only
  split
  · intro h
    obtain ⟨-, -, hsep⟩ := mem_relParts '/' h
    apply hsep
    simp only [Parsed.anchor]
    split <;> simp
  · intro h
    exact (mem_relParts '/' h).1 (by simp [Parsed.anchor])

/-- The anchor of a path read under Windows rules is neither `.` nor `..`. -/
theorem parseWindows_anchor_not_dot (raw : String) :
    (parseWindows raw).anchor ≠ "." ∧ (parseWindows raw).anchor ≠ ".." := by
  have hshape := windowsSplitRoot_anchor (windowsChars raw)
  rw [parseWindows_eq]
  simp only [Parsed.anchor, ← String.ofList_append]
  generalize windowsSplitRoot (windowsChars raw) = s at hshape
  obtain ⟨d, r, rel⟩ := s
  dsimp only at hshape ⊢
  -- neither `.` nor `..` holds a backslash, is empty, or is a letter and a colon
  have hne : ∀ t : String, t.toList = ['.'] ∨ t.toList = ['.', '.'] → String.ofList (d ++ r) ≠ t := by
    rintro t ht h
    have hl : d ++ r = t.toList := by rw [← h, String.toList_ofList]
    rcases hshape with hin | hnil | ⟨rfl, x, -, rfl⟩
    · rw [hl] at hin
      rcases ht with ht | ht <;> simp [ht] at hin
    · rw [hl] at hnil
      rcases ht with ht | ht <;> simp [ht] at hnil
    · rcases ht with ht | ht <;> simp [ht] at hl
  exact ⟨hne "." (Or.inl (by simp)), hne ".." (Or.inr (by simp))⟩

/-- A Windows-style path is counted as written, under Windows rules. -/
theorem countSegments_windows (v : Fs.Volume) (cwd : String) {raw : String}
    (hw : isWindowsStyle raw = true) : countSegments v cwd raw = .ok (parseWindows raw).segments := by
  have hne : raw.isEmpty = false := by
    cases he : raw.isEmpty with
    | false => rfl
    | true =>
      rw [String.isEmpty_iff.mp he] at hw
      cases hw
  simp [countSegments, hne, hw]

/-- Any other path that does not resolve is counted as written, under POSIX rules. -/
theorem countSegments_posix (v : Fs.Volume) (cwd : String) {raw : String} {e : Fs.OsError}
    (hw : isWindowsStyle raw = false) (hr : v.realPath cwd raw true = .error (.os e)) :
    countSegments v cwd raw = .ok (parsePosix raw).segments := by
  unfold countSegments
  cases he : raw.isEmpty with
  | true =>
    rw [String.isEmpty_iff.mp he]
    rfl
  | false => simp [hw, hr]

/-- A path counted as written counts its drive as one segment and every part after the anchor as
one, except `.` and `..` and except the parts that repeat the anchor; those stand only after a bare
drive letter without a root, and under POSIX rules there are none. A separator and a plain
component appended to a Windows-style path whose drive they leave as it is add one segment, unless
the component repeats the anchor. -/
theorem countSegments_counts_parts_after_anchor (v : Fs.Volume) (cwd : String) :
    (∀ raw n, isWindowsStyle raw = true →
      (countSegments v cwd raw = .ok n ↔
        n + (parseWindows raw).parts.count (parseWindows raw).anchor =
          (parseWindows raw).plainCount) ∧
      ((parseWindows raw).anchor ∈ (parseWindows raw).parts →
        (parseWindows raw).root = "" ∧
          ∃ x, isDriveLetter x = true ∧ (parseWindows raw).drive = String.ofList [x, ':'])) ∧
    (∀ raw e, isWindowsStyle raw = false → v.realPath cwd raw true = .error (.os e) →
      countSegments v cwd raw = .ok (parsePosix raw).plainCount) ∧
    (∀ raw sep comp, isWindowsStyle raw = true → (sep = '/' ∨ sep = '\\') → PlainComponent comp →
      (parseWindows (raw ++ String.singleton sep ++ comp)).drive = (parseWindows raw).drive →
      countSegments v cwd (raw ++ String.singleton sep ++ comp) =
        (countSegments v cwd raw).map fun n ↦
          n + if comp = (parseWindows (raw ++ String.singleton sep ++ comp)).anchor then 0 else 1) := by
  refine ⟨fun raw n hw ↦ ⟨?_, parseWindows_anchor_mem_parts⟩, fun raw e hw hr ↦ ?_,
    fun raw sep comp hw hsep hcomp hdrive ↦ ?_⟩
  · obtain ⟨hdot, hdots⟩ := parseWindows_anchor_not_dot raw
    rw [countSegments_windows v cwd hw, ← (parseWindows raw).segments_add_count_anchor hdot hdots]
    constructor
    · intro h
      rw [Except.ok.inj h]
    · intro h
      rw [Nat.add_right_cancel h]
  · rw [countSegments_posix v cwd hw hr,
      Parsed.segments_of_anchor_not_mem (parsePosix_anchor_not_mem raw)]
  · rw [countSegments_windows v cwd (isWindowsStyle_append (isWindowsStyle_append hw _) _),
      countSegments_windows v cwd hw]
    rcases parseWindows_append hw hsep hcomp with hd | ⟨hroot, hparts⟩
    · exact absurd hdrive hd
    · exact congrArg Except.ok
        (Parsed.segments_append_part hdrive hroot hparts hcomp.ne_dot hcomp.ne_dots)

/-- A component appended, with a forward slash, after an extended-length share adds one
segment. -/
theorem countSegments_component_after_extended_share :
    isWindowsStyle "\\\\?\\UNC\\srv\\share" = true ∧ PlainComponent "a" ∧
      (parseWindows ("\\\\?\\UNC\\srv\\share" ++ String.singleton '/' ++ "a")).drive =
        (parseWindows "\\\\?\\UNC\\srv\\share").drive ∧
      countSegments Fs.Volume.empty "/" ("\\\\?\\UNC\\srv\\share" ++ String.singleton '/' ++ "a") =
        (countSegments Fs.Volume.empty "/" "\\\\?\\UNC\\srv\\share").map fun n ↦
          n + if "a" = (parseWindows ("\\\\?\\UNC\\srv\\share" ++ String.singleton '/' ++ "a")).anchor
            then 0 else 1 := by
  have hplain : PlainComponent "a" := ⟨by decide, by decide, by decide, by decide, by decide⟩
  have hdrive : (parseWindows ("\\\\?\\UNC\\srv\\share" ++ String.singleton '/' ++ "a")).drive =
      (parseWindows "\\\\?\\UNC\\srv\\share").drive := rfl
  exact ⟨rfl, hplain, hdrive, (countSegments_counts_parts_after_anchor Fs.Volume.empty "/").2.2
    "\\\\?\\UNC\\srv\\share" '/' "a" rfl (Or.inl rfl) hplain hdrive⟩

/-- A part that repeats a bare drive goes uncounted: `C:a\C:` has three parts after its drive
letter that are neither `.` nor `..` (counting the drive), but counts two segments, as `C:a`
does. -/
theorem countSegments_skips_part_repeating_drive :
    (parseWindows "C:a\\C:").plainCount = 3 ∧
      countSegments Fs.Volume.empty "/" "C:a\\C:" = .ok 2 ∧
      countSegments Fs.Volume.empty "/" "C:a" = .ok 2 := ⟨rfl, rfl, rfl⟩

end TorrentPrune.Path
