import TorrentPrune.Path.Posix

/-!
# Manifests

A manifest is the list of relative file paths that a torrent declares, in metadata order,
duplicates kept. A path is declared when it is one of them. A path is an ancestor when it is a
directory on the way to a declared path: the directory part of a declared path, the directory part
of that, and so on, while it is not empty.

The ancestors are gathered once over all declared paths. From each path the climb goes up through
its directory parts and stops at the first one already found, whose own parts were found with it.
A directory part is a prefix of its path, and only a path that is its own directory part (such as
`/`) is not shorter; that one is found by the time the climb would repeat it, so a climb ends
within twice the length of the path it starts from, and one step more.

Source: `src/src/dircomp/domain/manifest.py:16–56`.
-/

namespace TorrentPrune

open TorrentPrune.Path

/-- The relative paths a torrent declares, in metadata order. -/
structure Manifest where
  paths : List String
  deriving Inhabited

namespace Manifest

/-- The number of declared paths, duplicates counted. -/
def size (m : Manifest) : Nat := m.paths.length

/-- Whether a path is declared. -/
def contains (m : Manifest) (p : String) : Bool := m.paths.contains p

/-- Climb from `parent` through its directory parts, adding each to `found`, until the part is
empty or already found; at most `fuel` steps. -/
def climbFor (found : List String) (parent : String) : Nat → List String
  | 0 => found
  | fuel + 1 =>
    if parent.isEmpty || found.contains parent then found
    else climbFor (parent :: found) (dirname parent) fuel

/-- A climb from `parent`, given the steps it can take: each step shortens the part, or adds a
part that is its own directory part and so stops the step after. -/
def climb (found : List String) (parent : String) : List String :=
  climbFor found parent (2 * parent.length + 2)

/-- The ancestors of the declared paths: the climbs from their directory parts, one path after
another, sharing what they found. -/
def ancestorDirs (paths : List String) : List String :=
  paths.foldl (fun found p ↦ climb found (dirname p)) []

/-- Whether a path is a directory on the way to a declared path. -/
def isAncestor (m : Manifest) (p : String) : Bool := (ancestorDirs m.paths).contains p

end Manifest

end TorrentPrune
