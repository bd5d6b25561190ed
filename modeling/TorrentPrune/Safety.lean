import TorrentPrune.Path.Segments
import TorrentPrune.Fs.Walk

/-!
# The depth guard

Nothing is listed, deleted or signalled under a directory with fewer than the required number
of path segments, so that a drive root or a shared first-level folder is never cleaned. A
Windows-style path is counted as written. Any other path is first made canonical on the volume
(links expanded, `.` and `..` applied, made absolute); when that fails because a component is
missing, a link loops or the text grows past the length limit, the path is counted as written,
under POSIX rules. A path holding a NUL
character cannot be made canonical and is refused.

Source: `src/src/dircomp/core/safety.py:39–90`.
-/

namespace TorrentPrune

open TorrentPrune.Path TorrentPrune.Fs

/-- The minimum depth that no configuration can lower. -/
def minSafeDepth : Nat := 3

/-- The number of segments of `raw`, canonicalised on the volume when it resolves. -/
def countSegments (v : Volume) (cwd raw : String) : Except CallError Nat :=
  if raw.isEmpty then .ok 0
  else if isWindowsStyle raw then .ok (parseWindows raw).segments
  else
    match v.realPath cwd raw true with
    | .ok canonical => .ok (parsePosix canonical).segments
    | .error .nulByte => .error .nulByte
    | .error (.os _) => .ok (parsePosix raw).segments

/-- A target refused for being too shallow. -/
structure SafetyError where
  path : String
  depth : Nat
  minDepth : Int
  deriving Inhabited

/-- The message of a refused target. -/
def SafetyError.message (e : SafetyError) : String :=
  let path := e.path
  let depth := e.depth
  let need := e.minDepth
  s!"Path '{path}' is too shallow ({depth} segments, at least {need} required)"

/-- Why the guard stopped: the path is too shallow, or it cannot be examined. -/
inductive GuardError where
  | shallow (e : SafetyError)
  | nulByte
  deriving Inhabited

/-- Whether the path has at least `minDepth` segments. -/
def isSafe (v : Volume) (cwd path : String) (minDepth : Int) : Except CallError Bool :=
  (countSegments v cwd path).map fun n ↦ decide (minDepth ≤ n)

/-- Let a destructive operation go on only under a path of at least `minDepth` segments. -/
def ensureSafe (v : Volume) (cwd path : String) (minDepth : Int) : Except GuardError Unit :=
  match countSegments v cwd path with
  | .error _ => .error .nulByte
  | .ok n => if minDepth ≤ n then .ok () else .error (.shallow ⟨path, n, minDepth⟩)

end TorrentPrune
