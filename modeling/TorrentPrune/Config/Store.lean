import TorrentPrune.Config.Settings
import TorrentPrune.Fs.Entry
import TorrentPrune.Json.Reader
import TorrentPrune.Json.Writer
import TorrentPrune.Logging.Record
import TorrentPrune.Text.Utf8

/-!
# Stored settings

The settings of the tool are kept as a JSON object in `config.json`, in the data directory
`.dircomp` under the user's home directory; the data directory is made whenever its path is
asked for, and a failure to make it is ignored.

Loading starts from the defaults. A missing file leaves them; a file that cannot be read, is not
UTF-8 or is not JSON is reported and leaves them; a document that is not an object is reported
as corrupted and leaves them. Otherwise the stored members are laid over the defaults, all but
the `version` member. Text is read as text files are: line ends `\r\n` and `\r` become `\n`.

Saving writes the settings with the current `version` member, indented by four spaces and with
characters beyond ASCII kept, after making the data directory; a failure to make the directory or
open the file is reported and nothing is saved. The text is encoded strictly, piece by piece as it
is written: a character that holds a byte stops saving with the file holding what came before.

Source: `src/src/dircomp/domain/config.py:29–115`.
-/

namespace TorrentPrune.Config

open TorrentPrune.Fs TorrentPrune.Path TorrentPrune.Json TorrentPrune.Logging

/-- The logger of stored settings. -/
def storeLogger : String := "dircomp.domain.config"

/-- The name of the data directory under the home directory. -/
def dataDirName : String := ".dircomp"

/-- The name of the settings file in the data directory. -/
def configFileName : String := "config.json"

/-- The version written with saved settings. -/
def configVersion : String := "1.0.0"

/-- The data directory under a home directory, made when missing. -/
def userDataDir (v : Volume) (home : String) : Volume × String :=
  let path := join home dataDirName
  ((v.makedirs "/" path true).toOption.getD v, absolute "/" path)

/-- The path of the settings file, its directory made when missing. -/
def configPath (v : Volume) (home : String) : Volume × String :=
  let (v, dir) := userDataDir v home
  (v, join dir configFileName)

/-- Line ends as a text file shows them: `\r\n` and `\r` become `\n`. -/
def newlinesTranslated : List Char → List Char
  | [] => []
  | '\r' :: '\n' :: rest => '\n' :: newlinesTranslated rest
  | '\r' :: rest => '\n' :: newlinesTranslated rest
  | c :: rest => c :: newlinesTranslated rest

/-- The text of a file read in text mode, or the error's message. -/
def readText (v : Volume) (path : String) : Except String String :=
  match v.readFile "/" path with
  | .error e => .error e.message
  | .ok bytes =>
    match Text.decodeStrict bytes with
    | .error f => .error f.message
    | .ok s => .ok (String.ofList (newlinesTranslated s.toList))

/-- Load the stored settings over the defaults: the volume (the data directory made), the
members and the records emitted. -/
def loadConfig (v : Volume) (home : String) : Volume × List (String × Value) × Journal :=
  let defaults := Settings.defaults.toMembers
  let (v, path) := configPath v home
  if !v.exists "/" path then
    (v, defaults, [.debug storeLogger "Config file not found. Returning defaults."])
  else
    let parsed : Except String Value := readText v path >>= parseText
    match parsed with
    | .error msg =>
      (v, defaults, [.error storeLogger s!"Failed to load config: {msg}. Using defaults."])
    | .ok (.object members) =>
      (v, overDefaults (removeMember members "version"), [])
    | .ok _ =>
      (v, defaults, [.warning storeLogger "Corrupted config file. Resetting to defaults."])

/-- The document of saved settings: the members with the current `version`. -/
def savedDocument (members : List (String × Value)) : Value :=
  .object (setMember members "version" (.str configVersion))

/-- The pieces in which saved settings reach the file. -/
def savedPieces (members : List (String × Value)) : List String :=
  (savedDocument members).piecesAt 4 0

/-- Save settings: the volume, and whether they were saved with the records emitted, or the
failure to encode that stops saving. The file is opened, and so emptied, before anything is
written to it; a piece that fails to encode leaves it holding the pieces before that one. -/
def saveConfig (v : Volume) (home : String) (members : List (String × Value)) :
    Volume × Except Text.EncodeFailure (Bool × Journal) :=
  let (v, path) := configPath v home
  let (bytes, failure) := Text.encodePieces (savedPieces members)
  let written : Except CallError Volume := do
    let v ← v.makedirs "/" (dirname path) true
    v.writeFile "/" path bytes
  match written with
  | .error e =>
    let msg := e.message
    (v, .ok (false, [.error storeLogger s!"Failed to save configuration: {msg}"]))
  | .ok v =>
    match failure with
    | none => (v, .ok (true, [.debug storeLogger s!"Configuration saved to {path}"]))
    | some f => (v, .error f)

/-- The text of the settings file as a text file shows it, when a regular file stands there;
bytes that are not UTF-8 show as replacement characters. -/
def storedText (v : Volume) (home : String) : Option String :=
  let path := join (join home dataDirName) configFileName
  if !v.isFile "/" path then none
  else
    match v.readFile "/" path with
    | .ok bytes => some (String.ofList (newlinesTranslated (Text.decodeLossyText bytes).toList))
    | .error _ => none

end TorrentPrune.Config
