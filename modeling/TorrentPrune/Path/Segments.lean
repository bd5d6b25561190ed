/-!
# Path segments

How many meaningful segments a path has, read as text under POSIX or under Windows rules. A
path splits into a drive, a root and its parts. A drive, when there is one, is one segment; the
root is none; every other part is one, except `..`, and except a part that repeats the anchor
(drive and root together). Empty parts and `.` parts are dropped when the path is read.

POSIX rules: the separator is `/`; exactly two leading separators form the root `//`, one or more
than two the root `/`; there is no drive.

Windows rules: `/` reads as `\`. A drive is a letter and a colon, or a share `\\server\share`
(the share part needs a separator after the server and no doubled separator there), possibly
behind the prefix `\\?\` (or `\\?\UNC\` for a share). A separator after the drive, or at the
start, is the root.

Source: `src/src/dircomp/core/safety.py:39–109`.
-/

namespace TorrentPrune.Path

/-- A path read as drive, root and parts. -/
structure Parsed where
  drive : String
  root : String
  parts : List String
  deriving Inhabited

/-- The drive and root together. -/
def Parsed.anchor (p : Parsed) : String := p.drive ++ p.root

/-- The number of meaningful segments. -/
def Parsed.segments (p : Parsed) : Nat :=
  (if p.drive.isEmpty then 0 else 1) +
    (p.parts.filter fun part ↦ part != p.anchor && part != "." && part != "..").length

/-- The parts of the text after the anchor: split at `sep`, empty and `.` parts dropped. -/
def relParts (sep : Char) (rel : List Char) : List String :=
  ((rel.splitOn sep).map String.ofList).filter fun x ↦ x != "" && x != "."

/-- Read a path under POSIX rules. -/
def parsePosix (raw : String) : Parsed :=
  let cs := raw.toList
  match cs with
  | '/' :: _ =>
    let stripped := cs.dropWhile (· == '/')
    let root := if cs.length - stripped.length == 2 then "//" else "/"
    ⟨"", root, relParts '/' stripped⟩
  | _ => ⟨"", "", relParts '/' cs⟩

/-- An ASCII letter, as a drive letter must be. -/
def isDriveLetter (c : Char) : Bool := c.toNat < 128 && c.isAlpha

/-- The index of the first `\` at or after `start`. -/
def findBackslash (cs : List Char) (start : Nat) : Option Nat :=
  ((cs.drop start).findIdx? (· == '\\')).map (· + start)

/-- Split off the extended-length prefix `\\?\`, and `UNC` after it, of a Windows path. -/
def splitExtended (cs : List Char) : List Char × List Char :=
  if cs.take 4 == ['\\', '\\', '?', '\\'] then
    let rest := cs.drop 4
    if rest.take 4 == ['U', 'N', 'C', '\\'] then
      (cs.take 4 ++ rest.take 3, '\\' :: rest.drop 3)
    else (cs.take 4, rest)
  else ([], cs)

/-- Split off the extended-length prefix of a Windows path (separators already `\`), when it
starts with two separators. -/
def splitPrefix (part : List Char) : List Char × List Char :=
  if part.take 2 == ['\\', '\\'] then splitExtended part else ([], part)

/-- Whether a share can stand at the front of a Windows path (separators already `\`): two
separators, and no third. -/
def startsShare (cs : List Char) : Bool := cs.take 2 == ['\\', '\\'] && cs[2]? != some '\\'

/-- The drive of a share that ends at `stop`; a prefix before the share takes the place of the
share's first separator. -/
def shareDrive (pre cs : List Char) (stop : Nat) : List Char :=
  if pre.isEmpty then cs.take stop else pre ++ (cs.take stop).drop 1

/-- Split off the share `\\server\share` at the front of a Windows path (separators already `\`)
that follows the prefix `pre`: the drive, the root and the rest, or `none` when no share stands
there (the share part needs a separator after the server and no doubled separator there). -/
def splitShare (pre cs : List Char) : Option (List Char × List Char × List Char) :=
  if startsShare cs then
    match findBackslash cs 2 with
    | none => none
    | some index =>
      let index2 := findBackslash cs (index + 1)
      if index2 == some (index + 1) then none
      else
        let stop := index2.getD cs.length
        some (shareDrive pre cs stop, ['\\'], cs.drop (stop + 1))
  else none

/-- Split a drive letter and its colon off the front of a Windows path. -/
def splitDriveLetter (cs : List Char) : List Char × List Char :=
  match cs with
  | c :: ':' :: more => if isDriveLetter c then ([c, ':'], more) else ([], cs)
  | _ => ([], cs)

/-- Split the root, a run of separators, off what follows the drive. -/
def splitRootRun (rest : List Char) : List Char × List Char :=
  match rest with
  | '\\' :: _ => (['\\'], rest.dropWhile (· == '\\'))
  | _ => ([], rest)

/-- Split a Windows path (separators already `\`) into drive, root and the rest. -/
def windowsSplitRoot (part : List Char) : List Char × List Char × List Char :=
  let (pre, cs) := splitPrefix part
  match splitShare pre cs with
  | some result => result
  | none =>
    let (drive, rest) := splitDriveLetter cs
    let (root, rel) := splitRootRun rest
    (pre ++ drive, root, rel)

/-- The characters of a Windows path, each `/` read as `\`. -/
def windowsChars (raw : String) : List Char := raw.toList.map fun c ↦ if c == '/' then '\\' else c

/-- Read a path under Windows rules. -/
def parseWindows (raw : String) : Parsed :=
  let (drive, root, rel) := windowsSplitRoot (windowsChars raw)
  ⟨String.ofList drive, String.ofList root, relParts '\\' rel⟩

/-- Whether a path is written Windows style: a drive letter and a colon, or two backslashes, at
its start. -/
def isWindowsStyle (raw : String) : Bool :=
  match raw.toList with
  | c :: ':' :: _ => isDriveLetter c
  | '\\' :: '\\' :: _ => true
  | _ => false

/-- The segments of a path read as written: Windows rules for a Windows-style path, POSIX rules
for any other. -/
def textSegments (raw : String) : Nat :=
  if isWindowsStyle raw then (parseWindows raw).segments else (parsePosix raw).segments

end TorrentPrune.Path
