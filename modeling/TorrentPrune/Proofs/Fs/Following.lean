import TorrentPrune.Proofs.Fs.Resolution

/-!
# Following links

What a path names once every symbolic link on it is followed, as a relation (`Resolves`).
Components are read from a location:

* `.` and empty components stay where they are;
* `..` goes to the parent location;
* a name must stand in the volume;
* a link is replaced by where its target leads, read from the link's directory or from the root.

The relation is deterministic, so two procedures that both implement it agree on the location
they reach. The walk of a call that follows every link implements it (`walk_resolves`).
-/

namespace TorrentPrune.Fs

open TorrentPrune.Path

/-- Reading the components from the location `cur` with every link followed ends at `L`. -/
inductive Resolves (v : Volume) : Loc → List String → Loc → Prop
  /-- Nothing is left to read. -/
  | nil (cur : Loc) : Resolves v cur [] cur
  /-- An empty component or `.` stays where it is. -/
  | stay {cur L : Loc} {c : String} {rest : List String} :
      (c = "" ∨ c = ".") → Resolves v cur rest L → Resolves v cur (c :: rest) L
  /-- `..` goes to the parent location; the root is its own parent. -/
  | up {cur L : Loc} {rest : List String} :
      Resolves v cur.dropLast rest L → Resolves v cur (".." :: rest) L
  /-- A name that stands and is no link is entered. -/
  | name {cur L : Loc} {c : String} {rest : List String} {x : Node} :
      c ≠ "" → c ≠ "." → c ≠ ".." → v.node? (cur ++ [c]) = some x → x.isLink = false →
      Resolves v (cur ++ [c]) rest L → Resolves v cur (c :: rest) L
  /-- A link is replaced by where its target leads, from the root or from the link's
  directory. -/
  | link {cur M L : Loc} {c t : String} {rest : List String} :
      c ≠ "" → c ≠ "." → c ≠ ".." → v.node? (cur ++ [c]) = some (.link t) →
      Resolves v (if isAbs t then [] else cur) (pieces t) M → Resolves v M rest L →
      Resolves v cur (c :: rest) L

namespace Resolves

variable {v : Volume}

/-- Following links leads to one location only. -/
theorem det {cur L L' : Loc} {cs : List String} (h : Resolves v cur cs L)
    (h' : Resolves v cur cs L') : L = L' := by
  induction h generalizing L' with
  | nil => cases h'; rfl
  | stay hc _ ih =>
    cases h' with
    | stay _ h' => exact ih h'
    | up _ => simp at hc
    | name hne hdot _ _ _ _ => rcases hc with rfl | rfl <;> contradiction
    | link hne hdot _ _ _ _ => rcases hc with rfl | rfl <;> contradiction
  | up _ ih =>
    cases h' with
    | stay hc _ => simp at hc
    | up h' => exact ih h'
    | name _ _ hdots _ _ _ => exact absurd rfl hdots
    | link _ _ hdots _ _ _ => exact absurd rfl hdots
  | name hne hdot hdots hx hlink _ ih =>
    cases h' with
    | stay hc _ => rcases hc with rfl | rfl <;> contradiction
    | up _ => exact absurd rfl hdots
    | name _ _ _ _ _ h' => exact ih h'
    | link _ _ _ hl _ _ =>
      -- the same location holds a link and a node that is none
      rw [hx, Option.some.injEq] at hl
      simp [hl, Node.isLink] at hlink
  | link hne hdot hdots hl _ _ ihT ih =>
    cases h' with
    | stay hc _ => rcases hc with rfl | rfl <;> contradiction
    | up _ => exact absurd rfl hdots
    | name _ _ _ hx hlink _ =>
      rw [hl, Option.some.injEq] at hx
      simp [← hx, Node.isLink] at hlink
    | link _ _ _ hl' hT' h' =>
      -- one link, one target: the target leads to one place, and the rest from there
      rw [hl, Option.some.injEq, Node.link.injEq] at hl'
      subst hl'
      obtain rfl := ihT hT'
      exact ih h'

/-- Reading two lists of components in a row passes through a location between them. -/
theorem of_append {ys : List String} :
    ∀ {cur L : Loc} {xs : List String}, Resolves v cur (xs ++ ys) L →
      ∃ M, Resolves v cur xs M ∧ Resolves v M ys L
  | cur, _, [], h => ⟨cur, .nil cur, h⟩
  | _, _, c :: xs, h => by
    cases h with
    | stay hc h =>
      obtain ⟨M, h₁, h₂⟩ := of_append h
      exact ⟨M, .stay hc h₁, h₂⟩
    | up h =>
      obtain ⟨M, h₁, h₂⟩ := of_append h
      exact ⟨M, .up h₁, h₂⟩
    | name hne hdot hdots hx hlink h =>
      obtain ⟨M, h₁, h₂⟩ := of_append h
      exact ⟨M, .name hne hdot hdots hx hlink h₁, h₂⟩
    | link hne hdot hdots hl hT h =>
      obtain ⟨M, h₁, h₂⟩ := of_append h
      exact ⟨M, .link hne hdot hdots hl hT h₁, h₂⟩

end Resolves

/-- A walk that follows every link and ends where a node stands reads its components as following
links does. The induction is on the fuel; a link's target is read in front of the rest, which
`Resolves.of_append` takes apart again. -/
theorem walk_resolves {v : Volume} {F links : Nat} {cur L : Loc} {cs : List String}
    (h : walk v true F links cur cs = .ok L) (hL : (v.node? L).isSome) : Resolves v cur cs L := by
  induction F generalizing links cur cs with
  | zero =>
    cases cs with
    | nil =>
      simp only [walk, Except.ok.injEq] at h
      subst h
      exact .nil cur
    | cons c rest => simp [walk] at h
  | succ F ih =>
    cases cs with
    | nil =>
      simp only [walk, Except.ok.injEq] at h
      subst h
      exact .nil cur
    | cons c rest =>
      simp only [walk] at h
      by_cases h₁ : c = "" ∨ c = "."
      · rw [if_pos (by simpa using h₁)] at h
        exact .stay h₁ (ih h)
      rw [if_neg (by simpa using h₁)] at h
      obtain ⟨hne, hdot⟩ := not_or.mp h₁
      by_cases hdots : c = ".."
      · subst hdots
        exact .up (ih h)
      rw [if_neg (by simpa using hdots)] at h
      cases hn : v.node? (cur ++ [c]) with
      | none =>
        -- only a last component may be missing, and then no node stands where the walk ends
        simp only [hn] at h
        split at h
        · cases h
          simp [hn] at hL
        · cases h
      | some x =>
        cases x with
        | dir es =>
          simp only [hn] at h
          exact .name hne hdot hdots hn rfl (ih h)
        | file id content =>
          simp only [hn] at h
          split at h
          · rename_i hrest
            cases h
            rw [List.isEmpty_iff.mp hrest]
            exact .name hne hdot hdots hn rfl (.nil _)
          · cases h
        | link t =>
          simp only [hn, Bool.not_true, Bool.and_false, Bool.false_eq_true, if_false] at h
          split at h
          · cases h
          · obtain ⟨M, hT, hrest⟩ := (ih h).of_append
            exact .link hne hdot hdots hn hT hrest

end TorrentPrune.Fs
