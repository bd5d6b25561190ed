import TorrentPrune.Json.Value
import TorrentPrune.Number.Shortest
import TorrentPrune.Text.Quoted

/-!
# Values written as literals

Messages about settings show an offending value as a literal of the configuration language:
`None`, `True` and `False`; an integer in decimal; a float by its shortest text (`inf`, `nan`); a
string quoted by `Text.quote`; a list in brackets and an object in braces, items separated by
`, ` and a member written `'name': value`. The plain text of a value is its literal, except that
a string stands for itself.

Source: `src/src/dircomp/domain/config.py:64–115`.
-/

namespace TorrentPrune.Json

open TorrentPrune.Number

mutual

/-- The literal text of a value. -/
def Value.literal : Value → String
  | .null => "None"
  | .bool b => if b then "True" else "False"
  | .int n => toString n
  | .float x => x.shortest
  | .str s => Text.quote s
  | .array items => "[" ++ ", ".intercalate (literalItems items) ++ "]"
  | .object members => "\x7b" ++ ", ".intercalate (literalMembers members) ++ "\x7d"

/-- The literals of list items. -/
def literalItems : List Value → List String
  | [] => []
  | v :: vs => v.literal :: literalItems vs

/-- The literals of object members, each `'name': value`. -/
def literalMembers : List (String × Value) → List String
  | [] => []
  | (name, v) :: ms => (Text.quote name ++ ": " ++ v.literal) :: literalMembers ms

end

/-- The plain text of a value: a string itself, any other value its literal. -/
def Value.plainText : Value → String
  | .str s => s
  | v => v.literal

/-- The truth of a value: false for null, `false`, zero, NaN excepted, and empty text, lists and
objects; true otherwise. -/
def Value.truthy : Value → Bool
  | .null => false
  | .bool b => b
  | .int n => n != 0
  | .float x => !x.isZero
  | .str s => !s.isEmpty
  | .array items => !items.isEmpty
  | .object members => !members.isEmpty

end TorrentPrune.Json
