import Mathlib.Data.List.TakeWhile
import Mathlib.Logic.Function.Iterate
import TorrentPrune.Manifest.Basic
import TorrentPrune.Proofs.Path.Relative

/-!
# The ancestors of declared paths

The ancestors of a manifest are gathered by one loop over its paths, each climb stopping at the
first directory part already found. They are nevertheless all the nonempty directory parts of
the declared paths, taken once or more (`Manifest.isAncestor_iff`): the found set stays closed
under taking directory parts, but for the part the climb is at (`ClosedExcept`), so a climb that
stops early has nothing left to add.

For proper components joined by separators, taking the directory part drops the last component,
so the ancestors of such a path are its proper leading parts (`iterate_dirname_intercalate_iff`).
-/

namespace TorrentPrune.Manifest

open TorrentPrune.Path

/-- The directory part of the empty path is empty. -/
@[simp] theorem dirname_empty : dirname "" = "" := rfl

@[simp] theorem iterate_dirname_empty (k : Nat) : dirname^[k] "" = "" :=
  Function.iterate_fixed dirname_empty k

/-! ### The found set -/

/-- Found paths are nonempty, and the directory part of a found path, when nonempty, is found too
or is `pending`, the part a climb has yet to add. -/
def ClosedExcept (pending : String) (found : List String) : Prop :=
  ∀ r ∈ found, r ≠ "" ∧ (dirname r ≠ "" → dirname r ∈ found ∨ dirname r = pending)

/-- A closed set is closed but for any part. -/
theorem ClosedExcept.of_closed {found : List String} (h : ClosedExcept "" found) (q : String) :
    ClosedExcept q found := by
  intro r hr
  obtain ⟨hne, hdir⟩ := h r hr
  exact ⟨hne, fun hd ↦ .inl ((hdir hd).resolve_right hd)⟩

/-- Once the pending part is found, or empty, the set is closed. -/
theorem ClosedExcept.closed {q : String} {found : List String} (h : ClosedExcept q found)
    (hq : q = "" ∨ q ∈ found) : ClosedExcept "" found := by
  intro r hr
  obtain ⟨hne, hdir⟩ := h r hr
  refine ⟨hne, fun hd ↦ .inl ?_⟩
  rcases hdir hd with h | rfl
  · exact h
  · exact hq.resolve_left hd

/-- In a closed set, every nonempty directory part of a found path, taken any number of times,
is found. -/
theorem ClosedExcept.iterate_mem {found : List String} (h : ClosedExcept "" found) {q : String}
    (hq : q ∈ found) : ∀ k, dirname^[k] q ≠ "" → dirname^[k] q ∈ found
  | 0, _ => hq
  | k + 1, hne => by
    rw [Function.iterate_succ_apply'] at hne ⊢
    -- the part before is nonempty too, since the empty path is its own directory part
    have hprev : dirname^[k] q ≠ "" := fun he ↦ hne (by rw [he, dirname_empty])
    obtain ⟨-, hdir⟩ := h _ (h.iterate_mem hq k hprev)
    exact (hdir hne).resolve_right hne

/-- Adding the pending part moves the mark to its directory part. -/
theorem ClosedExcept.cons {q : String} {found : List String} (h : ClosedExcept q found)
    (hq : q ≠ "") : ClosedExcept (dirname q) (q :: found) := by
  intro r hr
  rcases List.mem_cons.mp hr with rfl | hr
  · exact ⟨hq, fun _ ↦ .inr rfl⟩
  · obtain ⟨hne, hdir⟩ := h r hr
    refine ⟨hne, fun hd ↦ .inl ?_⟩
    rcases hdir hd with h | h
    · exact List.mem_cons_of_mem _ h
    · exact h ▸ List.mem_cons_self

/-! ### Climbs and the loop -/

/-- A step of a climb uses up what it needs: the next part is shorter, or it is the part just
found. The need of a climb from `q` is two steps per character of `q`, and one more while `q` is
not found. -/
theorem need_after_step {found : List String} {q : String} {fuel : Nat}
    (hfuel : 2 * q.length + 1 < fuel + 1) :
    2 * (dirname q).length + (if dirname q ∈ q :: found then 0 else 1) < fuel := by
  by_cases hfix : dirname q = q
  · rw [hfix, if_pos List.mem_cons_self]
    omega
  · have hshort := length_dirname_lt hfix
    split <;> omega

/-- A climb from `q` given the steps it needs adds exactly the nonempty directory parts of `q`,
`q` itself included, and leaves the set closed. -/
theorem climbFor_spec : ∀ (fuel : Nat) {found : List String} {q : String},
    2 * q.length + (if q ∈ found then 0 else 1) < fuel → ClosedExcept q found →
    ClosedExcept "" (climbFor found q fuel) ∧
      ∀ r, r ∈ climbFor found q fuel ↔ r ∈ found ∨ (r ≠ "" ∧ ∃ k, dirname^[k] q = r)
  | 0, _, _, hfuel, _ => absurd hfuel (Nat.not_lt_zero _)
  | fuel + 1, found, q, hfuel, h => by
    rw [climbFor]
    split
    case isTrue hstop =>
      -- stopping at a found part loses nothing: the parts above it are found already
      simp only [Bool.or_eq_true, String.isEmpty_iff, List.contains_iff_mem] at hstop
      have hclosed := h.closed hstop
      refine ⟨hclosed, fun r ↦ ⟨.inl, ?_⟩⟩
      rintro (hr | ⟨hne, k, rfl⟩)
      · exact hr
      · rcases hstop with rfl | hq
        · simp at hne
        · exact hclosed.iterate_mem hq k hne
    case isFalse hgo =>
      simp only [Bool.or_eq_true, String.isEmpty_iff, List.contains_iff_mem, not_or] at hgo
      rw [if_neg hgo.2] at hfuel
      obtain ⟨hclosed, hmem⟩ := climbFor_spec fuel (need_after_step hfuel) (h.cons hgo.1)
      refine ⟨hclosed, fun r ↦ ?_⟩
      rw [hmem, List.mem_cons]
      constructor
      · rintro ((rfl | hr) | ⟨hne, k, rfl⟩)
        · exact .inr ⟨hgo.1, 0, rfl⟩
        · exact .inl hr
        · exact .inr ⟨hne, k + 1, rfl⟩
      · rintro (hr | ⟨hne, k, rfl⟩)
        · exact .inl (.inr hr)
        · cases k with
          | zero => exact .inl (.inl rfl)
          | succ k => exact .inr ⟨hne, k, rfl⟩

/-- A climb given the steps it needs has stopped by its own test: more steps change nothing. -/
theorem climbFor_stable : ∀ (n m : Nat) {found : List String} {q : String},
    2 * q.length + (if q ∈ found then 0 else 1) < n →
    2 * q.length + (if q ∈ found then 0 else 1) < m → climbFor found q n = climbFor found q m
  | 0, _, _, _, hn, _ => absurd hn (Nat.not_lt_zero _)
  | _, 0, _, _, _, hm => absurd hm (Nat.not_lt_zero _)
  | n + 1, m + 1, found, q, hn, hm => by
    rw [climbFor, climbFor]
    split
    · rfl
    · rename_i hgo
      simp only [Bool.or_eq_true, String.isEmpty_iff, List.contains_iff_mem, not_or] at hgo
      rw [if_neg hgo.2] at hn hm
      exact climbFor_stable n m (need_after_step hn) (need_after_step hm)

/-- A climb ends within its bound of steps. -/
theorem climbFor_eq_climb {found : List String} {q : String} {n : Nat}
    (hn : 2 * q.length + 2 ≤ n) : climbFor found q n = climb found q := by
  apply climbFor_stable
  · split <;> omega
  · split <;> omega

/-- A climb from `q` adds exactly the nonempty directory parts of `q`, `q` itself included, and
leaves the set closed. -/
theorem climb_spec {found : List String} {q : String} (h : ClosedExcept q found) :
    ClosedExcept "" (climb found q) ∧
      ∀ r, r ∈ climb found q ↔ r ∈ found ∨ (r ≠ "" ∧ ∃ k, dirname^[k] q = r) :=
  climbFor_spec _ (by split <;> omega) h

/-- The loop over declared paths keeps the found set closed and adds, for each path, its nonempty
directory parts taken once or more. -/
theorem foldl_climb_spec (paths : List String) {found : List String}
    (h : ClosedExcept "" found) :
    ∀ r, r ∈ paths.foldl (fun found p ↦ climb found (dirname p)) found ↔
      r ∈ found ∨ (r ≠ "" ∧ ∃ p ∈ paths, ∃ k, 1 ≤ k ∧ dirname^[k] p = r) := by
  induction paths generalizing found with
  | nil => simp
  | cons p ps ih =>
    obtain ⟨hclosed, hmem⟩ := climb_spec (h.of_closed (dirname p))
    intro r
    rw [List.foldl_cons, ih hclosed, hmem]
    constructor
    · rintro ((hr | ⟨hne, k, rfl⟩) | ⟨hne, q, hq, k, hk, rfl⟩)
      · exact .inl hr
      · exact .inr ⟨hne, p, List.mem_cons_self, k + 1, by omega, rfl⟩
      · exact .inr ⟨hne, q, List.mem_cons_of_mem _ hq, k, hk, rfl⟩
    · rintro (hr | ⟨hne, q, hq, k, hk, rfl⟩)
      · exact .inl (.inl hr)
      · rcases List.mem_cons.mp hq with rfl | hq
        · obtain ⟨j, rfl⟩ := Nat.exists_eq_add_of_le' hk
          exact .inl (.inr ⟨hne, j, rfl⟩)
        · exact .inr ⟨hne, q, hq, k, hk, rfl⟩

/-- The gathered ancestors are the nonempty directory parts of the declared paths, taken once or
more. -/
theorem mem_ancestorDirs (paths : List String) (r : String) :
    r ∈ ancestorDirs paths ↔
      r ≠ "" ∧ ∃ p ∈ paths, ∃ k, 1 ≤ k ∧ dirname^[k] p = r := by
  have hnil : ClosedExcept "" [] := fun r hr ↦ absurd hr List.not_mem_nil
  rw [ancestorDirs, foldl_climb_spec paths hnil]
  simp

/-- An ancestor of a manifest is a nonempty directory part of a declared path, taken once or
more. -/
theorem isAncestor_iff (m : Manifest) (r : String) :
    m.isAncestor r = true ↔
      r ≠ "" ∧ ∃ p ∈ m.paths, ∃ k, 1 ≤ k ∧ dirname^[k] p = r := by
  rw [isAncestor, List.contains_iff_mem, mem_ancestorDirs]

-- the climb from `/x` adds `/`, which is its own directory part, and stops the step after
example : (⟨["/x", "//"]⟩ : Manifest).isAncestor "/" = true := by decide
example : (⟨["/x", "//"]⟩ : Manifest).isAncestor "//" = true := by decide

/-! ### Directory parts of joined components -/

/-- A path without a separator has an empty directory part. -/
theorem dirname_of_sep_not_mem {c : String} (h : '/' ∉ c.toList) : dirname c = "" := by
  have htail : c.toList.reverse.takeWhile (· != '/') = c.toList.reverse :=
    List.takeWhile_eq_self_iff.mpr fun x hx ↦ by
      have hx' : x ≠ '/' := fun he ↦ h (he ▸ List.mem_reverse.mp hx)
      simpa using hx'
  simp [dirname, split, htail]

/-- The directory part of proper components joined is all of them but the last, joined. -/
theorem dirname_intercalate {ns : List String} (hv : ∀ c ∈ ns, Proper c) :
    dirname ("/".intercalate ns) = "/".intercalate ns.dropLast := by
  rcases List.eq_nil_or_concat' ns with rfl | ⟨front, n, rfl⟩
  · rfl
  · have hn : Proper n := hv n (by simp)
    rw [List.dropLast_concat]
    rcases List.eq_nil_or_concat' front with rfl | ⟨front', n', rfl⟩
    · simpa using dirname_of_sep_not_mem hn.2
    · have hfront : ∀ c ∈ front' ++ [n'], Proper c :=
        fun c hc ↦ hv c (by simp at hc ⊢; tauto)
      unfold dirname
      rw [split_intercalate (by simp) hfront hn.2]

/-- Taking the directory part `k` times drops the last `k` of proper components joined. -/
theorem iterate_dirname_intercalate {ns : List String} (hv : ∀ c ∈ ns, Proper c) :
    ∀ k, dirname^[k] ("/".intercalate ns) = "/".intercalate (ns.take (ns.length - k))
  | 0 => by simp
  | k + 1 => by
    have htake : ∀ c ∈ ns.take (ns.length - k), Proper c :=
      fun c hc ↦ hv c (List.mem_of_mem_take hc)
    rw [Function.iterate_succ_apply', iterate_dirname_intercalate hv k, dirname_intercalate htake,
      List.dropLast_eq_take, List.take_take, List.length_take]
    congr 2
    omega

/-- Proper components joined by separators are empty only when there are none. -/
theorem intercalate_eq_empty_iff {ns : List String} (hv : ∀ c ∈ ns, Proper c) :
    "/".intercalate ns = "" ↔ ns = [] := by
  constructor
  · intro h
    cases ns with
    | nil => rfl
    | cons c cs =>
      obtain ⟨⟨x, hx, -⟩, -⟩ := intercalate_ends (List.cons_ne_nil c cs) hv
      simp [h] at hx
  · rintro rfl
    rfl

/-- The nonempty directory parts of proper components joined, taken once or more, are their
proper leading parts joined. -/
theorem iterate_dirname_intercalate_iff {ns : List String} (hv : ∀ c ∈ ns, Proper c)
    (r : String) :
    (r ≠ "" ∧ ∃ k, 1 ≤ k ∧ dirname^[k] ("/".intercalate ns) = r) ↔
      ∃ j, 1 ≤ j ∧ j < ns.length ∧ r = "/".intercalate (ns.take j) := by
  constructor
  · rintro ⟨hne, k, hk, rfl⟩
    rw [iterate_dirname_intercalate hv] at hne ⊢
    have htake : ns.take (ns.length - k) ≠ [] :=
      fun h ↦ hne ((intercalate_eq_empty_iff fun c hc ↦ hv c (List.mem_of_mem_take hc)).mpr h)
    have hlen : 1 ≤ ns.length - k := by
      rcases Nat.eq_zero_or_pos (ns.length - k) with h | h
      · simp [h] at htake
      · exact h
    exact ⟨ns.length - k, hlen, by omega, rfl⟩
  · rintro ⟨j, hj, hjlen, rfl⟩
    have htake : ∀ c ∈ ns.take j, Proper c := fun c hc ↦ hv c (List.mem_of_mem_take hc)
    refine ⟨fun h ↦ ?_, ns.length - j, by omega, ?_⟩
    · -- a leading part with at least one component is not empty
      rcases List.take_eq_nil_iff.mp ((intercalate_eq_empty_iff htake).mp h) with h | h
      · omega
      · simp [h] at hjlen
    · rw [iterate_dirname_intercalate hv]
      congr 2
      omega

end TorrentPrune.Manifest
