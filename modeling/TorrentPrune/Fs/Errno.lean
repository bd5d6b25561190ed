import TorrentPrune.Text.Quoted

/-!
# System errors

A failed file system call reports an error number, a description and the path or paths it was
given. Its text is `[Errno N] description: 'path'`, with the path quoted, or
`'path' -> 'other'` for a call on two paths, or no path at all. The descriptions are those of
Linux; the error numbers that occur have names below.

Source: `src/src/dircomp/core/services/reconciler.py:153–214`.
-/

namespace TorrentPrune.Fs

open TorrentPrune.Text

/-- No such file or directory. -/
def ENOENT : Nat := 2
/-- Permission denied. -/
def EACCES : Nat := 13
/-- Device or resource busy. -/
def EBUSY : Nat := 16
/-- File exists. -/
def EEXIST : Nat := 17
/-- Not a directory. -/
def ENOTDIR : Nat := 20
/-- Is a directory. -/
def EISDIR : Nat := 21
/-- Invalid argument. -/
def EINVAL : Nat := 22
/-- File name too long. -/
def ENAMETOOLONG : Nat := 36
/-- Directory not empty. -/
def ENOTEMPTY : Nat := 39
/-- Too many levels of symbolic links. -/
def ELOOP : Nat := 40

/-- The Linux description of an error number. -/
def describeErrno (n : Nat) : String :=
  match n with
  | 1 => "Operation not permitted"
  | 2 => "No such file or directory"
  | 3 => "No such process"
  | 4 => "Interrupted system call"
  | 5 => "Input/output error"
  | 9 => "Bad file descriptor"
  | 11 => "Resource temporarily unavailable"
  | 12 => "Cannot allocate memory"
  | 13 => "Permission denied"
  | 16 => "Device or resource busy"
  | 17 => "File exists"
  | 18 => "Invalid cross-device link"
  | 20 => "Not a directory"
  | 21 => "Is a directory"
  | 22 => "Invalid argument"
  | 24 => "Too many open files"
  | 28 => "No space left on device"
  | 30 => "Read-only file system"
  | 36 => "File name too long"
  | 39 => "Directory not empty"
  | 40 => "Too many levels of symbolic links"
  | _ => s!"Unknown error {n}"

/-- A failed system call. -/
structure OsError where
  errno : Nat
  description : String
  paths : List String
  deriving Inhabited

/-- The error of a call on `path` that failed with `errno`. -/
def OsError.ofErrno (errno : Nat) (path : String) : OsError :=
  ⟨errno, describeErrno errno, [path]⟩

/-- The text of a system error. -/
def OsError.message (e : OsError) : String :=
  let head := s!"[Errno {e.errno}] {e.description}"
  match e.paths with
  | [] => head
  | [p] => head ++ ": " ++ quote p
  | p :: q :: _ => head ++ ": " ++ quote p ++ " -> " ++ quote q

/-- The kind of a system error by its number, as error reports name it. -/
def OsError.kind (e : OsError) : String :=
  match e.errno with
  | 1 | 13 => "PermissionError"
  | 2 => "FileNotFoundError"
  | 3 => "ProcessLookupError"
  | 4 => "InterruptedError"
  | 11 => "BlockingIOError"
  | 17 => "FileExistsError"
  | 20 => "NotADirectoryError"
  | 21 => "IsADirectoryError"
  | _ => "OSError"

/-- Why a call on a path failed: a system error, or a path that holds a NUL character, which no
call accepts. -/
inductive CallError where
  | os (e : OsError)
  | nulByte
  deriving Inhabited

/-- The text of a failed call. -/
def CallError.message : CallError → String
  | .os e => e.message
  | .nulByte => "embedded null byte"

end TorrentPrune.Fs
