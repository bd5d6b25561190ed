import TorrentPrune.Manifest.Basic
import TorrentPrune.Manifest.Metadata
import TorrentPrune.Bencode.Reader
import TorrentPrune.Text.Utf8

/-!
# Reading the manifest of a torrent

The declared paths come from the `info` dictionary of the metadata. When it has a `files` entry
(one that is present and not absent), each file's `path` list of byte strings gives one path, its
components decoded as UTF-8 (ill-formed bytes replaced) and joined by `/`; otherwise the `name`
byte string is the single path. A component may be neither empty, `.` nor `..`, and may not hold
a `/`; anything else, a backslash or a NUL included, is allowed. Files are read in order and the
first defect is the error.

Source: `src/src/dircomp/core/bencode/manifest.py:38–133`.
-/

namespace TorrentPrune

open TorrentPrune.Bencode TorrentPrune.Text

/-- Where a path component comes from: a file entry by index, or the `name` field. -/
inductive Place where
  | entry (index : Nat)
  | name
  deriving Inhabited

/-- How the place is written in messages. -/
def Place.describe : Place → String
  | .entry i => s!"File entry {i}"
  | .name => "'name'"

/-- Why metadata has no usable manifest. -/
inductive ExtractError where
  | noInfo
  | filesNotList
  | missingPath (index : Nat)
  | componentNotBytes (index : Nat)
  | invalidComponent (place : Place) (component : String)
  | separatorInComponent (place : Place) (component : String)
  | noFilesOrName
  deriving Inhabited

/-- The message of an extraction error. -/
def ExtractError.message : ExtractError → String
  | .noInfo => "Missing 'info' dictionary"
  | .filesNotList => "'files' is not a list"
  | .missingPath i => s!"File entry {i} missing 'path' list"
  | .componentNotBytes i => s!"File entry {i}: path component is not a string"
  | .invalidComponent place c =>
    let shown := quote c
    let origin := place.describe
    s!"{origin}: invalid path component {shown}"
  | .separatorInComponent place c =>
    let shown := quote c
    let origin := place.describe
    s!"{origin}: path component {shown} contains a separator"
  | .noFilesOrName => "No 'files' or 'name' found in torrent info"

/-- Key `info`. -/
def keyInfo : Bytes := encodeUtf8 "info"
/-- Key `files`. -/
def keyFiles : Bytes := encodeUtf8 "files"
/-- Key `path`. -/
def keyPath : Bytes := encodeUtf8 "path"
/-- Key `name`. -/
def keyName : Bytes := encodeUtf8 "name"

/-- Check one decoded component. -/
def checkComponent (place : Place) (c : String) : Except ExtractError Unit :=
  if c == "" || c == "." || c == ".." then .error (.invalidComponent place c)
  else if c.toList.contains '/' then .error (.separatorInComponent place c)
  else .ok ()

/-- The path of file entry `index`: its components decoded, checked and joined. -/
def entryPath (index : Nat) (entry : Metadata) : Except ExtractError String := do
  let components ← match Metadata.asList (entry.field keyPath) with
    | some (c :: cs) => pure (c :: cs)
    | _ => throw (.missingPath index)
  let names ← components.mapM fun c ↦ do
    let name ← match Metadata.asBytes (some c) with
      | some b => pure (decodeLossyText b)
      | none => throw (.componentNotBytes index)
    checkComponent (.entry index) name
    pure name
  pure ("/".intercalate names)

/-- The manifest that metadata declares. -/
def extractManifest (root : Metadata) : Except ExtractError Manifest := do
  let info ← match Metadata.asDict (root.field keyInfo) with
    | some d => pure d
    | none => throw .noInfo
  let files := info.field keyFiles
  if Metadata.isPresent files then
    match Metadata.asList files with
    | none => throw .filesNotList
    | some entries =>
      let paths ← (entries.zipIdx).mapM fun (e, i) ↦ entryPath i e
      pure ⟨paths⟩
  else
    match Metadata.asBytes (info.field keyName) with
    | some b =>
      let name := decodeLossyText b
      checkComponent .name name
      pure ⟨[name]⟩
    | none => throw .noFilesOrName

/-- Why torrent bytes have no manifest: they do not read as bencode, or their metadata has no
usable manifest. -/
inductive ManifestError where
  | unreadable (f : ReadFailure)
  | unusable (e : ExtractError)
  deriving Inhabited

/-- The manifest of torrent bytes: one value read from their front (bytes after it ignored). -/
def manifestOfBytes (data : Bytes) : Except ManifestError Manifest :=
  match parse data with
  | .error f => .error (.unreadable f)
  | .ok (v, _) =>
    match extractManifest (Metadata.ofValue v) with
    | .error e => .error (.unusable e)
    | .ok m => .ok m

end TorrentPrune
