import TorrentPrune.Path.Posix
import TorrentPrune.Text.Blank

/-!
# Paths a user gives

A path a user gives is trimmed; an empty one is replaced by a fallback, and when both are empty
there is no path. Otherwise a leading `~` or `~name` is expanded to a home directory, then
`$NAME` and `${NAME}` to the values of variables, and the result is made absolute against the
working directory and normalised.

Source: `src/src/dircomp/infra/fs.py:59–78`.
-/

namespace TorrentPrune.Path

/-- What the expansion of a user's path depends on. -/
structure Environment where
  /-- The working directory, absolute. -/
  cwd : String
  /-- The variables and their values. -/
  vars : List (String × String)
  /-- The home directory of each known user. -/
  users : List (String × String)
  /-- The home directory of the current user, used when `HOME` is not set. -/
  ownHome : String
  deriving Inhabited

/-- The home directory `~` stands for: `HOME`, else the current user's. -/
def Environment.home (env : Environment) : String :=
  (env.vars.lookup "HOME").getD env.ownHome

/-- Expand `~` and variables in a path. -/
def Environment.expand (env : Environment) (p : String) : String :=
  expandVars env.vars (expandUser env.home env.users p)

/-- The absolute path a user's path stands for, or the empty text when it and the fallback are
both empty. -/
def Environment.normalizeUserPath (env : Environment) (path : Option String)
    (fallback : String) : String :=
  let trimmed := Text.trim (path.getD "")
  let p := if trimmed.isEmpty then fallback else trimmed
  if p.isEmpty then "" else absolute env.cwd (env.expand p)

end TorrentPrune.Path
