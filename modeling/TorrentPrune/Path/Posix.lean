/-!
# POSIX path text

Operations on path text alone, with `/` as the separator: joining, splitting at the last
separator, lexical normalisation, making a path absolute against a working directory, relative
paths, and the expansion of `~` and of `$NAME` or `${NAME}`. None of them looks at a file
system.

Normalisation drops empty and `.` components and lets `..` cancel the component before it; at the
root `..` stays at the root, and in a relative path a leading `..` is kept. One or two leading
slashes are kept as they are, three or more become one.

Source: `src/src/dircomp/infra/fs.py:59–78`.
-/

namespace TorrentPrune.Path

/-- Whether the path is absolute, that is starts with `/`. -/
def isAbs (p : String) : Bool := p.toList.head? == some '/'

/-- Join two paths: an absolute second path replaces the first, otherwise a separator is put
between them unless the first is empty or already ends with one. -/
def join (a b : String) : String :=
  if isAbs b then b
  else if a.isEmpty || a.toList.getLast? == some '/' then a ++ b
  else a ++ "/" ++ b

/-- Join a list of paths from left to right. -/
def joinAll : List String → String
  | [] => ""
  | p :: ps => ps.foldl join p

/-- Split at the last separator: the head (trailing separators removed, unless it consists of
separators only) and the tail after it. -/
def split (p : String) : String × String :=
  let cs := p.toList
  let tailRev := cs.reverse.takeWhile (· != '/')
  let headCs := cs.take (cs.length - tailRev.length)
  let head :=
    if headCs.all (· == '/') then headCs
    else (headCs.reverse.dropWhile (· == '/')).reverse
  (String.ofList head, String.ofList tailRev.reverse)

/-- The directory part of a path: everything before its last component. -/
def dirname (p : String) : String := (split p).1

/-- The last component of a path. -/
def basename (p : String) : String := (split p).2

/-- The directory part of a path is a prefix of it. -/
theorem dirname_toList_prefix (p : String) : (dirname p).toList <+: p.toList := by
  simp only [dirname, split, String.toList_ofList]
  have htake : p.toList.take (p.toList.length - (p.toList.reverse.takeWhile (· != '/')).length) <+:
      p.toList := List.take_prefix _ _
  split
  · exact htake
  · -- trailing separators come off the end of the head
    refine List.IsPrefix.trans ?_ htake
    have hsuf := List.reverse_prefix.mpr (List.dropWhile_suffix (fun c ↦ c == '/')
      (l := (p.toList.take (p.toList.length - (p.toList.reverse.takeWhile (· != '/')).length)).reverse))
    simpa using hsuf

/-- Taking the directory part shortens a path, unless the path is its own directory part (as `/`
and `//` are). -/
theorem length_dirname_lt {p : String} (h : dirname p ≠ p) : (dirname p).length < p.length := by
  have hpre := dirname_toList_prefix p
  rcases Nat.lt_or_eq_of_le hpre.length_le with hlt | heq
  · rw [← String.length_toList, ← String.length_toList]
    exact hlt
  · exact absurd (String.toList_inj.mp (hpre.eq_of_length heq)) h

/-- The components of a path split at every separator; empty components included. -/
def pieces (p : String) : List String := (p.toList.splitOn '/').map String.ofList

/-- Lexical normalisation of a path; the empty path becomes `.`. -/
def normalize (p : String) : String :=
  if p.isEmpty then "."
  else
    let cs := p.toList
    let leading : Nat :=
      if List.isPrefixOf ['/', '/'] cs && !List.isPrefixOf ['/', '/', '/'] cs then 2
      else if List.isPrefixOf ['/'] cs then 1 else 0
    let kept := (pieces p).foldl (fun (acc : List String) comp ↦
      if comp == "" || comp == "." then acc
      else if comp != ".." || (leading == 0 && acc.isEmpty) || acc.head? == some ".." then
        comp :: acc
      else acc.drop 1) []
    let body := "/".intercalate kept.reverse
    let text := String.ofList (List.replicate leading '/') ++ body
    if text.isEmpty then "." else text

/-- The absolute form of a path against the working directory `cwd`, normalised. -/
def absolute (cwd p : String) : String :=
  normalize (if isAbs p then p else join cwd p)

/-- The path of `p` relative to `start`, both made absolute against `cwd`: `..` for each
component of `start` beyond their common prefix, then the rest of `p`; `.` when they are the
same. -/
def relative (cwd p start : String) : String :=
  let startParts := (pieces (absolute cwd start)).filter (· != "")
  let pathParts := (pieces (absolute cwd p)).filter (· != "")
  let common := ((startParts.zip pathParts).takeWhile fun (a, b) ↦ a == b).length
  let parts := List.replicate (startParts.length - common) ".." ++ pathParts.drop common
  if parts.isEmpty then "." else joinAll parts

/-- Expand a leading `~` (alone or before a separator) to `home`, and `~name` to the home of a
known user; anything else, and an unknown user, stays as it is. -/
def expandUser (home : String) (users : List (String × String)) (p : String) : String :=
  if !p.startsWith "~" then p
  else
    let cs := p.toList
    let nameCs := (cs.drop 1).takeWhile (· != '/')
    let rest := String.ofList (cs.drop (nameCs.length + 1))
    let base := if nameCs.isEmpty then some home
      else (users.find? fun u ↦ u.1 == String.ofList nameCs).map Prod.snd
    match base with
    | none => p
    | some dir =>
      let trimmed := String.ofList (dir.toList.reverse.dropWhile (· == '/')).reverse
      (if trimmed.isEmpty then "/" else trimmed) ++ rest

/-- A character of a variable name: an ASCII letter, digit or underscore. -/
def isNameChar (c : Char) : Bool := c.isAlphanum && c.toNat < 128 || c == '_'

/-- Expand `$NAME` and `${NAME}` with the values in `env`; a variable that is not set stays
as it is. Reading goes from left to right and never rereads an inserted value. -/
def expandVars (env : List (String × String)) (p : String) : String :=
  go p.toList [] p.length
where
  /-- Expand from `cs`, with the output so far reversed in `out`. -/
  go (cs : List Char) (out : List Char) : Nat → String
    | 0 => String.ofList (out.reverse ++ cs)
    | fuel + 1 =>
      match cs with
      | [] => String.ofList out.reverse
      | '$' :: rest =>
        let plain := rest.takeWhile isNameChar
        let (name, used) : Option String × Nat :=
          if !plain.isEmpty then (some (String.ofList plain), plain.length)
          else match rest with
            | '\x7b' :: more =>
              let inner := more.takeWhile (· != '\x7d')
              if inner.length < more.length then (some (String.ofList inner), inner.length + 2)
              else (none, 0)
            | _ => (none, 0)
        match name with
        | none => go rest ('$' :: out) fuel
        | some n =>
          let after := rest.drop used
          match (env.find? fun e ↦ e.1 == n).map Prod.snd with
          | some value => go after (value.toList.reverse ++ out) fuel
          | none => go after ((('$' :: rest.take used)).reverse ++ out) fuel
      | c :: rest => go rest (c :: out) fuel

end TorrentPrune.Path
