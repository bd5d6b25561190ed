import TorrentPrune.Prune.Pass
import TorrentPrune.Proofs.Fs.Resolution

/-!
# The pruning rule

What a pass over a directory removes, said over the tree as it stands before the pass and the
calls that are refused, without the order in which the pass works. A call is refused when the
volume is set to refuse it, or when its path is too long for the system to take (`pathMax`
bytes or more): either way it fails before it reaches what the path names.

* a directory is listed when listing it is not refused, and only entries of listed directories
  are looked at;
* a file or a link is removed unless the manifest keeps its relative path (it is declared, or
  declared files lie below it), or removing it is refused;
* a directory below the root is removed when it is listed, everything in it is removed, and
  removing it is not refused;
* the root is never removed, and nothing outside it changes.

`Pass.leftOf` is what is left of one node, `Pass.leftIn` what is left of the entries of a listed
directory, and `Pass.prunedVolume` the volume the rule leaves.
-/

namespace TorrentPrune.Prune

open TorrentPrune.Fs TorrentPrune.Path

/-- Whether a call on `path` is refused: the volume is set to refuse it, or the path is too long
for the system. -/
def Pass.refused (p : Pass) (c : Call) (path : String) : Bool :=
  (refusalOf p.refusals c path).isSome || decide (pathMax ≤ byteLength path)

/-- Whether listing the directory at `path` is refused. -/
def Pass.listRefused (p : Pass) (path : String) : Bool := p.refused .list path

/-- Whether the manifest keeps a file or link at `path`: its relative path is declared, or
declared files lie below it. -/
def Pass.keeps (p : Pass) (path : String) : Bool :=
  p.manifest.contains (p.rel path) || p.manifest.isAncestor (p.rel path)

mutual

/-- What is left of the node at `path` once its parent has been pruned: `none` when it is
removed. -/
def Pass.leftOf (p : Pass) (path : String) : Node → Option Node
  | .dir es =>
    if p.listRefused path then some (.dir es)
    else
      let rest := p.leftIn path es
      if rest.isEmpty && !p.refused .removeDir path then none
      else some (.dir rest)
  | .file id content =>
    if p.keeps path || p.refused .removeFile path then some (.file id content)
    else none
  | .link target =>
    if p.keeps path || p.refused .removeFile path then some (.link target)
    else none

/-- What is left of the entries of a listed directory at `path`, in their order. -/
def Pass.leftIn (p : Pass) (path : String) : List (String × Node) → List (String × Node)
  | [] => []
  | (n, x) :: rest =>
    match p.leftOf (join path n) x with
    | some y => (n, y) :: p.leftIn path rest
    | none => p.leftIn path rest

end

/-- What is left of an entry of the directory at `path`. -/
def Pass.leftAt (p : Pass) (path : String) (e : String × Node) : Option Node :=
  p.leftOf (join path e.1) e.2

/-- What is left of the entries of the root: all of them when it cannot be listed. -/
def Pass.rootLeft (p : Pass) (es : List (String × Node)) : List (String × Node) :=
  if p.listRefused p.root then es else p.leftIn p.root es

/-- The volume the rule leaves: the directory that the root's path names holds what is left of its
entries; a root path that names no directory leaves the volume as it is. -/
def Pass.prunedVolume (p : Pass) (v : Volume) : Volume :=
  match v.stat "/" p.root with
  | .ok (loc, .dir es) => (v.updateDir loc fun _ ↦ p.rootLeft es).getD v
  | _ => v

section Rule

variable (p : Pass) (path : String)

/-- What is left of listed entries is what is left of each, in order. -/
theorem leftIn_eq_filterMap (es : List (String × Node)) :
    p.leftIn path es = es.filterMap fun e ↦ (p.leftAt path e).map (e.1, ·) := by
  induction es with
  | nil => simp [Pass.leftIn]
  | cons e rest ih =>
    obtain ⟨n, x⟩ := e
    cases h : p.leftOf (join path n) x <;> simp [Pass.leftIn, Pass.leftAt, h, ih]

/-- A directory whose listing is refused stays as it is. -/
theorem leftOf_dir_of_listRefused {es : List (String × Node)} (h : p.listRefused path = true) :
    p.leftOf path (.dir es) = some (.dir es) := by
  simp [Pass.leftOf, h]

/-- A listed directory keeps what is left of its entries, and goes when nothing is left and
removing it is not refused. -/
theorem leftOf_dir_of_listed {es : List (String × Node)} (h : p.listRefused path = false) :
    p.leftOf path (.dir es) =
      if (p.leftIn path es).isEmpty && !p.refused .removeDir path then none
      else some (.dir (p.leftIn path es)) := by
  simp [Pass.leftOf, h]

/-- A file or a link stays when the manifest keeps it or removing it is refused, and goes
otherwise. -/
theorem leftOf_of_not_dir {x : Node} (hx : x.isDir = false) :
    p.leftOf path x =
      if p.keeps path || p.refused .removeFile path then some x else none := by
  cases x with
  | dir es => simp [Node.isDir] at hx
  | file id content => simp [Pass.leftOf]
  | link target => simp [Pass.leftOf]

end Rule

end TorrentPrune.Prune
