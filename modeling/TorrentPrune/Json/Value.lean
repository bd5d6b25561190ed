import TorrentPrune.Number.Binary64

/-!
# JSON documents

The values a JSON document holds, with the distinctions a reader of configuration files keeps:
an integer (any size) is not a float, and a float is a binary64 number, non-finite ones
included. An object keeps its members in first-appearance order, one per name; a name that
appears again replaces the value in place.

Source: `src/src/dircomp/domain/config.py:64–115`, `src/src/dircomp/core/pipeline/validator.py:24–81`.
-/

namespace TorrentPrune.Json

open TorrentPrune.Number

/-- A JSON value. -/
inductive Value where
  | null
  | bool (b : Bool)
  | int (n : Int)
  | float (x : Binary64)
  | str (s : String)
  | array (items : List Value)
  | object (members : List (String × Value))
  deriving Inhabited

/-- The value under `name` in a member list, if any. -/
def lookup (members : List (String × Value)) (name : String) : Option Value :=
  (members.find? fun m ↦ m.1 == name).map Prod.snd

/-- Set the member `name`: its value is replaced in place when present, else it is appended. -/
def setMember (members : List (String × Value)) (name : String) (v : Value) :
    List (String × Value) :=
  if members.any (fun m ↦ m.1 == name) then
    members.map fun m ↦ if m.1 == name then (name, v) else m
  else members ++ [(name, v)]

/-- Remove the member `name`, if present. -/
def removeMember (members : List (String × Value)) (name : String) : List (String × Value) :=
  members.filter fun m ↦ m.1 != name

/-- The type name of a value in the configuration's terms: `NoneType`, `bool`, `int`, `float`,
`str`, `list` or `dict`. -/
def Value.typeName : Value → String
  | .null => "NoneType"
  | .bool _ => "bool"
  | .int _ => "int"
  | .float _ => "float"
  | .str _ => "str"
  | .array _ => "list"
  | .object _ => "dict"

end TorrentPrune.Json
