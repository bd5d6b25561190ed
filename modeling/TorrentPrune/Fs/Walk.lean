import TorrentPrune.Fs.Volume
import TorrentPrune.Fs.Errno
import TorrentPrune.Path.Posix

/-!
# Resolving paths

How a system call finds the node a path names. The path is read component by component from the
root, for an absolute path, or from the working directory. `.` and empty components stay, `..`
goes to the parent directory (the root is its own parent), and a name must be found in the
current directory. A symbolic link met before the last component is replaced by its target, read
from the link's directory or from the root; the last component's link is followed only when the
call asks for it. Every component but the last must lead to a directory; a trailing separator
makes the last one a directory too. More than `linkLimit` links in one resolution is a loop. A path
of `pathMax` bytes or more is refused whole, before any of it is read; the bytes are those the
system receives, one for each character that holds a byte.

`realPath` computes a canonical path the way the path library does: symbolic links are expanded
one component at a time, `..` is applied to the text already resolved, and a link that is met
again while its own expansion is in progress is a loop.

Source: `src/src/dircomp/core/safety.py:39–66`, `src/src/dircomp/core/services/reconciler.py:39–108`.
-/

namespace TorrentPrune.Fs

open TorrentPrune.Path TorrentPrune.Text

/-- Links followed in one resolution before it is taken for a loop. -/
def linkLimit : Nat := 40

/-- The bytes from which a path handed to a call is too long. -/
def pathMax : Nat := 4096

/-- The length of a path in bytes as a call receives it: a character that holds a byte is that
byte, any other its UTF-8 bytes. -/
def byteLength (path : String) : Nat :=
  path.toList.foldr (fun c n ↦ (if (byteHeld? c).isSome then 1 else (encodeChar c).length) + n) 0

/-- Resolve `comps` from the directory location `cur`: the location named, which may be absent
when only its last component is missing. Fails with an error number. -/
def walk (v : Volume) (followLast : Bool) : Nat → Nat → Loc → List String → Except Nat Loc
  | _, _, cur, [] => .ok cur
  | 0, _, _, _ :: _ => .error ELOOP
  | fuel + 1, links, cur, c :: rest =>
    if c == "" || c == "." then walk v followLast fuel links cur rest
    else if c == ".." then walk v followLast fuel links cur.dropLast rest
    else
      let here := cur ++ [c]
      match v.node? here with
      | none => if rest.isEmpty then .ok here else .error ENOENT
      | some (.dir _) => walk v followLast fuel links here rest
      | some (.file _ _) => if rest.isEmpty then .ok here else .error ENOTDIR
      | some (.link target) =>
        if rest.isEmpty && !followLast then .ok here
        else if linkLimit ≤ links then .error ELOOP
        else
          let start := if isAbs target then [] else cur
          walk v followLast fuel (links + 1) start (pieces target ++ rest)

/-- The location of a working directory given as an absolute path without links. -/
def locOf (dir : String) : Loc := (pieces dir).filter (· != "")

/-- Resolve a path from the working directory `cwd`; the empty path names nothing, and a path of
`pathMax` bytes or more is too long. -/
def Volume.locate (v : Volume) (cwd path : String) (followLast : Bool) : Except Nat Loc :=
  if path.isEmpty then .error ENOENT
  else if pathMax ≤ byteLength path then .error ENAMETOOLONG
  else
    let start := if isAbs path then [] else locOf cwd
    walk v followLast (4096 + 8 * path.length) 0 start (pieces path)

/-- The location and node a path names, following a link in its last component when
`followLast`. -/
def Volume.statWith (v : Volume) (cwd path : String) (followLast : Bool) :
    Except CallError (Loc × Node) :=
  if path.toList.contains (Char.ofNat 0) then .error .nulByte
  else
    match v.locate cwd path followLast with
    | .error n => .error (.os (OsError.ofErrno n path))
    | .ok loc =>
      match v.node? loc with
      | some node => .ok (loc, node)
      | none => .error (.os (OsError.ofErrno ENOENT path))

/-- The node a path names, a link in the last component followed. -/
def Volume.stat (v : Volume) (cwd path : String) : Except CallError (Loc × Node) :=
  v.statWith cwd path true

/-- The node a path names, a link in the last component not followed. -/
def Volume.lstat (v : Volume) (cwd path : String) : Except CallError (Loc × Node) :=
  v.statWith cwd path false

/-- Whether the path names a directory, links followed. -/
def Volume.isDir (v : Volume) (cwd path : String) : Bool :=
  match v.stat cwd path with
  | .ok (_, .dir _) => true
  | _ => false

/-- Whether the path names a regular file, links followed. -/
def Volume.isFile (v : Volume) (cwd path : String) : Bool :=
  match v.stat cwd path with
  | .ok (_, .file _ _) => true
  | _ => false

/-- Whether the path names anything, links followed. -/
def Volume.exists (v : Volume) (cwd path : String) : Bool :=
  match v.stat cwd path with
  | .ok _ => true
  | _ => false

/-- The path after `..` is applied to already resolved text. -/
def parentText (path : String) : String :=
  if path.isEmpty then ".."
  else
    let (head, tail) := split path
    if tail == ".." then join (join head "..") ".." else head

/-- Links whose expansion is finished (with its result) or in progress (`none`). -/
abbrev Seen := List (String × Option String)

/-- Record the expansion of a link. -/
def Seen.set (seen : Seen) (link : String) (result : Option String) : Seen :=
  (link, result) :: seen.filter fun e ↦ e.1 != link

/-- Resolve the components `rest` onto the resolved text `path`. Gives the resolved text and
whether the resolution finished (a loop met outside strict mode stops it early). In strict mode
every component must exist. Running out of steps counts as a loop. -/
def realPathFrom (v : Volume) (cwd : String) (strict : Bool) :
    Nat → Seen → String → List String → Except CallError (String × Bool × Seen)
  | _, seen, path, [] => .ok (path, true, seen)
  | 0, _, path, _ :: _ => .error (.os (OsError.ofErrno ELOOP path))
  | fuel + 1, seen, path, name :: rest =>
    if name == "" || name == "." then realPathFrom v cwd strict fuel seen path rest
    else if name == ".." then realPathFrom v cwd strict fuel seen (parentText path) rest
    else
      let next := join path name
      match v.lstat cwd next with
      | .error .nulByte => .error .nulByte
      | .error (.os e) =>
        if strict then .error (.os e) else realPathFrom v cwd strict fuel seen next rest
      | .ok (_, .link target) =>
        match seen.lookup next with
        | some (some done) => realPathFrom v cwd strict fuel seen done rest
        | some none =>
          if strict then .error (.os (OsError.ofErrno ELOOP next))
          else .ok (join next ("/".intercalate rest), false, seen)
        | none =>
          let (base, parts) := if isAbs target then ("/", pieces target) else (path, pieces target)
          match realPathFrom v cwd strict fuel (seen.set next none) base parts with
          | .error e => .error e
          | .ok (p, false, seen₂) => .ok (join p ("/".intercalate rest), false, seen₂)
          | .ok (p, true, seen₂) => realPathFrom v cwd strict fuel (seen₂.set next (some p)) p rest
      | .ok _ => realPathFrom v cwd strict fuel seen next rest

/-- The canonical absolute path of `path`: links expanded, `.` and `..` applied. In strict mode a
missing component or a loop is an error. -/
def Volume.realPath (v : Volume) (cwd path : String) (strict : Bool) : Except CallError String :=
  let (base, parts) := if isAbs path then ("/", pieces path) else ("", pieces path)
  match realPathFrom v cwd strict (4096 + 8 * path.length) [] base parts with
  | .error e => .error e
  | .ok (p, _, _) => .ok (absolute cwd p)

end TorrentPrune.Fs
