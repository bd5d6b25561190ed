import TorrentPrune.Fs.Walk

/-!
# System calls

The calls a program makes on a volume, each with the error numbers of Linux. A path is resolved
from the working directory; a path holding a NUL character is refused before anything else.

* Reading a file follows links and fails on a directory (`EISDIR`).
* Writing or appending creates a missing file in an existing directory and fails on a directory.
* Making a directory fails when anything stands at the path (`EEXIST`); making directories makes
  the missing parents first, and may be told that an existing directory is fine.
* Unlinking removes anything but a directory (`EISDIR`); removing a directory needs it empty
  (`ENOTEMPTY`).
* Renaming moves a node; a file may replace a file, a directory an empty directory.
* Listing a directory gives its entries in name order.

Source: `src/src/dircomp/core/services/reconciler.py:131–214`, `src/src/dircomp/domain/config.py:94–115`.
-/

namespace TorrentPrune.Fs

open TorrentPrune.Path

namespace Volume

/-- The location a path leads to, refused with the path's error. -/
def resolve (v : Volume) (cwd path : String) (followLast : Bool) : Except CallError Loc :=
  if path.toList.contains (Char.ofNat 0) then .error .nulByte
  else
    match v.locate cwd path followLast with
    | .ok loc => .ok loc
    | .error n => .error (.os (OsError.ofErrno n path))

/-- The error of a call on `path` with error number `n`. -/
def failWith {α : Type} (n : Nat) (path : String) : Except CallError α :=
  .error (.os (OsError.ofErrno n path))

/-- The bytes of a file, links followed. -/
def readFile (v : Volume) (cwd path : String) : Except CallError (List UInt8) := do
  let loc ← v.resolve cwd path true
  match v.node? loc with
  | some (.file _ content) => pure content
  | some (.dir _) => failWith EISDIR path
  | _ => failWith ENOENT path

/-- Replace the bytes of the file at a location, keeping its identity, or create it. -/
def setContent (v : Volume) (loc : Loc) (path : String) (f : List UInt8 → List UInt8) :
    Except CallError Volume :=
  match v.node? loc with
  | some (.file id content) =>
    match v.put loc (.file id (f content)) with
    | some w => .ok w
    | none => failWith ENOENT path
  | some (.dir _) => failWith EISDIR path
  | _ =>
    match v.putNewFile loc (f []) with
    | some w => .ok w
    | none => failWith ENOENT path

/-- Write a file from scratch, creating it when missing. -/
def writeFile (v : Volume) (cwd path : String) (bytes : List UInt8) : Except CallError Volume := do
  let loc ← v.resolve cwd path true
  v.setContent loc path fun _ ↦ bytes

/-- Open a file for appending, creating it when missing: the location of the file. -/
def openAppend (v : Volume) (cwd path : String) : Except CallError (Volume × Loc) := do
  let loc ← v.resolve cwd path true
  let w ← v.setContent loc path id
  pure (w, loc)

/-- Append bytes to the file at a location. -/
def appendAt (v : Volume) (loc : Loc) (path : String) (bytes : List UInt8) :
    Except CallError Volume :=
  v.setContent loc path (· ++ bytes)

/-- The path without trailing separators, unless it consists of separators only. -/
def dropTrailingSlashes (path : String) : String :=
  let cs := path.toList
  if cs.all (· == '/') then path else String.ofList (cs.reverse.dropWhile (· == '/')).reverse

/-- Make a directory; trailing separators are allowed. -/
def mkdir (v : Volume) (cwd path : String) : Except CallError Volume := do
  let loc ← match v.resolve cwd (dropTrailingSlashes path) false with
    | .ok l => pure l
    | .error .nulByte => throw .nulByte
    | .error (.os e) => throw (.os { e with paths := [path] })
  match v.node? loc with
  | some _ => failWith EEXIST path
  | none =>
    match v.put loc (.dir []) with
    | some w => pure w
    | none => failWith ENOENT path

/-- Make a directory and its missing parents, each parent made the same way; a parent made
meanwhile is fine, and `existOk` accepts an existing directory at the path itself. -/
def makedirs (v : Volume) (cwd path : String) (existOk : Bool) : Except CallError Volume :=
  go (path.length + 1) v path
where
  /-- `fuel` bounds the depth of parents by the length of the path. -/
  go : Nat → Volume → String → Except CallError Volume
    | 0, v, p => v.mkdir cwd p
    | fuel + 1, v, p => do
      let (head, tail) := split p
      let (head, tail) := if tail.isEmpty then split head else (head, tail)
      let parentMissing := !head.isEmpty && !tail.isEmpty && !v.exists cwd head
      let v ← if parentMissing then
          match go fuel v head with
          | .error (.os e) => if e.errno == EEXIST then pure v else .error (.os e)
          | r => r
        else pure v
      if parentMissing && tail == "." then pure v
      else
        match v.mkdir cwd p with
        | .ok w => pure w
        | .error e => if existOk && v.isDir cwd p then pure v else .error e

/-- Remove anything but a directory. -/
def unlink (v : Volume) (cwd path : String) : Except CallError Volume := do
  let loc ← v.resolve cwd path false
  match v.node? loc with
  | none => failWith ENOENT path
  | some (.dir _) => failWith EISDIR path
  | some _ =>
    match v.erase loc with
    | some w => pure w
    | none => failWith ENOENT path

/-- Remove an empty directory. -/
def rmdir (v : Volume) (cwd path : String) : Except CallError Volume := do
  let loc ← v.resolve cwd path false
  match v.node? loc with
  | none => failWith ENOENT path
  | some (.dir []) =>
    match v.erase loc with
    | some w => pure w
    | none => failWith EBUSY path
  | some (.dir _) => failWith ENOTEMPTY path
  | some _ => failWith ENOTDIR path

/-- The error of a call on two paths. -/
def failWith2 {α : Type} (n : Nat) (src dst : String) : Except CallError α :=
  .error (.os ⟨n, describeErrno n, [src, dst]⟩)

/-- Move a node to another path, replacing a file there or an empty directory. -/
def rename (v : Volume) (cwd src dst : String) : Except CallError Volume := do
  if src.toList.contains (Char.ofNat 0) || dst.toList.contains (Char.ofNat 0) then
    throw .nulByte
  let srcLoc ← match v.locate cwd src false with
    | .ok l => pure l
    | .error n => failWith2 n src dst
  let dstLoc ← match v.locate cwd dst false with
    | .ok l => pure l
    | .error n => failWith2 n src dst
  match v.node? srcLoc with
  | none => failWith2 ENOENT src dst
  | some node =>
    if srcLoc == dstLoc then pure v
    else
      match node, v.node? dstLoc with
      | .dir _, some (.dir (_ :: _)) => failWith2 ENOTEMPTY src dst
      | .dir _, some (.file ..) | .dir _, some (.link _) => failWith2 ENOTDIR src dst
      | .file .., some (.dir _) | .link _, some (.dir _) => failWith2 EISDIR src dst
      | _, _ =>
        if srcLoc.isPrefixOf dstLoc then failWith2 EINVAL src dst
        else
          match v.erase srcLoc with
          | none => failWith2 ENOENT src dst
          | some w =>
            match w.put dstLoc node with
            | some w' => pure w'
            | none => failWith2 ENOENT src dst

/-- The entries of a directory, links followed, in name order. -/
def listDir (v : Volume) (cwd path : String) : Except CallError (List (String × Node)) := do
  let loc ← v.resolve cwd path true
  match v.node? loc with
  | some (.dir entries) => pure entries
  | some _ => failWith ENOTDIR path
  | none => failWith ENOENT path

end Volume

end TorrentPrune.Fs
