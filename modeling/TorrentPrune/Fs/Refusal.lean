import TorrentPrune.Fs.Errno
import TorrentPrune.Path.Posix

/-!
# Refused calls

A volume can be told to refuse some calls: listing a directory, removing a file, or removing a
directory, each at one path, with an error number. A refused call fails before it looks at the
volume, with the text `injected <call> failure` and no path. Paths are compared after lexical
normalisation.

Refusals let a pass over a directory meet the failures that a live file system produces now and
then (a busy file, a directory without permission), at exactly the places chosen.

Source: `src/src/dircomp/core/services/reconciler.py:131–214`.
-/

namespace TorrentPrune.Fs

open TorrentPrune.Path

/-- The calls that can be refused. -/
inductive Call where
  | list
  | removeFile
  | removeDir
  deriving Inhabited, BEq

/-- The name of a call in a refusal's text. -/
def Call.name : Call → String
  | .list => "scandir"
  | .removeFile => "remove"
  | .removeDir => "rmdir"

/-- One refused call: which call, at which absolute path, with which error number. -/
structure Refusal where
  call : Call
  path : String
  errno : Nat
  deriving Inhabited

/-- The error of a refused call. -/
def Refusal.error (r : Refusal) : OsError :=
  ⟨r.errno, "injected " ++ r.call.name ++ " failure", []⟩

/-- The refusal, if any, of a call at an absolute path. -/
def refusalOf (rs : List Refusal) (call : Call) (path : String) : Option OsError :=
  (rs.find? fun r ↦ r.call == call && Path.normalize r.path == Path.normalize path).map Refusal.error

end TorrentPrune.Fs
