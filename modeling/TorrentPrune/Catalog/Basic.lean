import TorrentPrune.Catalog.English
import TorrentPrune.Fs.Walk
import TorrentPrune.Template.Markup

/-!
# Message catalogs

A catalog maps dotted keys to message templates. Looking a key up follows its parts through the
tree of objects; a key that does not end at a text finds nothing. Translating a key gives its
template, else the given default, else the key itself; when values are given the text is filled
from them, and a template that cannot be filled because of a fault in the template itself is
shown unformatted.

A catalog for a locale is read from the file `<locale>.json` in the locale directory of the
installed package, the locale taken as a path relative to that directory. Only the English file
is installed, so a locale loads exactly when its path leads to that file through existing
directories; otherwise the catalog is empty.

Source: `src/src/dircomp/utils/i18n.py:29–111`.
-/

namespace TorrentPrune.Catalog

open TorrentPrune.Json TorrentPrune.Fs TorrentPrune.Template

/-- A message catalog and whether it was loaded from a file. -/
structure Translations where
  messages : Value
  loaded : Bool
  deriving Inhabited

/-- The English catalog. -/
def Translations.english : Translations := ⟨englishMessages, true⟩

/-- The catalog that holds nothing. -/
def Translations.empty : Translations := ⟨.object [], false⟩

/-- Follow the parts of a key through a tree of objects. -/
def descend : Option Value → List String → Option Value
  | v, [] => v
  | some (.object members), k :: rest => descend (lookup members k) rest
  | _, _ :: _ => none

/-- The template under a dotted key, if the key ends at a text. -/
def Translations.lookup (c : Translations) (key : String) : Option String :=
  match descend (some c.messages) (key.splitOn ".") with
  | some (.str s) => some s
  | _ => none

/-- The text under a key, or the key itself when there is none. -/
def Translations.text (c : Translations) (key : String) : String := (c.lookup key).getD key

/-- The text for a key: its template, else the default, else the key, filled from the values
when any are given. A fault in the template leaves it unformatted; a fault in a value leaves no
message. -/
def Translations.render (c : Translations) (key : String) (default : Option String)
    (args : List (String × Value)) : Except FormatError String :=
  let template := (c.lookup key).orElse fun _ ↦ default
  match template with
  | none => .ok key
  | some t =>
    if args.isEmpty then .ok t
    else
      match fill args t with
      | .ok text => .ok text
      | .error e => if e.inTemplate then .ok t else .error e

/-- A directory node. -/
def dirNode (entries : List (String × Node)) : Node := .dir entries

/-- A directory of compiled modules, as each module directory holds. -/
def moduleCache : String × Node := ("__pycache__", dirNode [])

/-- The installed package: its directories, and the English catalog file. -/
def packageVolume : Volume :=
  ⟨[("src", dirNode [("dircomp", dirNode [
      ("core", dirNode [moduleCache,
        ("bencode", dirNode [moduleCache]),
        ("pipeline", dirNode [moduleCache]),
        ("services", dirNode [moduleCache])]),
      ("domain", dirNode [moduleCache]),
      ("infra", dirNode [moduleCache, ("logging", dirNode [moduleCache])]),
      ("interface", dirNode [
        ("cli", dirNode [moduleCache]),
        ("locales", dirNode [("en.json", .file 0 [])])]),
      ("utils", dirNode [moduleCache])])])], 1⟩

/-- The directory locale files are read from. -/
def localeDirectory : String := "/src/dircomp/interface/locales"

/-- The catalog for a locale: English when `<locale>.json` leads to the installed file, else
empty. -/
def Translations.forLocale (locale : String) : Translations :=
  let path := Path.join localeDirectory (locale ++ ".json")
  if path.toList.contains (Char.ofNat 0) then Translations.empty
  else if packageVolume.exists "/" path then Translations.english
  else Translations.empty

end TorrentPrune.Catalog
