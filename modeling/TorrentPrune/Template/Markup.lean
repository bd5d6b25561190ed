import TorrentPrune.Template.Render

/-!
# Filling a template

A template is text with replacement fields in braces; a doubled brace stands for itself. A field
is `{name[!conversion][:spec]}`: the name selects a value by its key, and may go on with
attributes (`.real`) and subscripts (`[0]`, `[key]`); the conversion `r`, `s` or `a` replaces the
value by its literal, its plain text or its literal with every character beyond ASCII escaped;
the specification, which may itself hold fields (one level deep), says how the value is written.
The template is filled from left to right, and the first fault stops it.

Values are given by name only, so a field with an empty or numeric name, which asks for a
positional value, has none.

Source: `src/src/dircomp/utils/i18n.py:75–111`.
-/

namespace TorrentPrune.Template

open TorrentPrune.Json

/-- How deep fields may nest: a field's specification may hold fields, theirs may not. -/
def nestingLimit : Nat := 2

/-- A field as written: its name, conversion and specification, and whether the specification
holds fields of its own. -/
structure Field where
  name : List Char
  conversion : Option Char
  spec : List Char
  specHasFields : Bool
  deriving Inhabited

/-- Read the specification after `:` up to its closing brace, counting nested braces: the
specification, whether it holds braces, and the text after the field. -/
def readSpec (cs : List Char) : Except FormatError (List Char × Bool × List Char) :=
  go cs 1 [] false
where
  /-- `depth` counts the braces still open, `acc` the specification reversed. -/
  go : List Char → Nat → List Char → Bool → Except FormatError (List Char × Bool × List Char)
    | [], _, _, _ => .error (.malformed "unmatched '\x7b' in format spec")
    | c :: rest, depth, acc, nested =>
      if c == '\x7b' then go rest (depth + 1) (c :: acc) true
      else if c == '\x7d' then
        if depth == 1 then .ok (acc.reverse, nested, rest)
        else go rest (depth - 1) (c :: acc) nested
      else go rest depth (c :: acc) nested

/-- Skip to the next `]`, which stays: the skipped characters and the rest. -/
def skipToBracket (cs : List Char) : List Char × List Char :=
  (cs.takeWhile (· != ']'), cs.dropWhile (· != ']'))

/-- The terminator of a field name and the text after it. -/
inductive NameEnd where
  | close
  | conversion
  | spec
  | endOfText

/-- Read a field name: up to `}`, `!` or `:`, where a subscript in brackets may hold any of them. -/
def readName (cs : List Char) : Except FormatError (List Char × NameEnd × List Char) :=
  go cs [] (cs.length + 1)
where
  /-- `acc` is the name reversed; `fuel` bounds the steps by the length of the text. -/
  go : List Char → List Char → Nat → Except FormatError (List Char × NameEnd × List Char)
    | [], acc, _ => .ok (acc.reverse, .endOfText, [])
    | _, acc, 0 => .ok (acc.reverse, .endOfText, [])
    | c :: rest, acc, fuel + 1 =>
      if c == '\x7b' then .error (.malformed "unexpected '\x7b' in field name")
      else if c == '[' then
        let (inside, after) := skipToBracket rest
        go after ((inside.reverse) ++ c :: acc) fuel
      else if c == '\x7d' then .ok (acc.reverse, .close, rest)
      else if c == '!' then .ok (acc.reverse, .conversion, rest)
      else if c == ':' then .ok (acc.reverse, .spec, rest)
      else go rest (c :: acc) fuel

/-- Read a field after its opening brace: the field and the text after it. -/
def readField (cs : List Char) : Except FormatError (Field × List Char) := do
  let (name, stop, rest) ← readName cs
  match stop with
  | .close => pure (⟨name, none, [], false⟩, rest)
  | .endOfText => throw (.malformed "expected '\x7d' before end of string")
  | .spec =>
    let (spec, nested, after) ← readSpec rest
    pure (⟨name, none, spec, nested⟩, after)
  | .conversion =>
    match rest with
    | [] => throw (.malformed "end of string while looking for conversion specifier")
    | conv :: more =>
      match more with
      | [] =>
        let (spec, nested, after) ← readSpec []
        pure (⟨name, some conv, spec, nested⟩, after)
      | c :: after =>
        if c == '\x7d' then pure (⟨name, some conv, [], false⟩, after)
        else if c == ':' then
          let (spec, nested, after') ← readSpec after
          pure (⟨name, some conv, spec, nested⟩, after')
        else throw (.malformed "expected ':' after conversion specifier")

/-- A run of decimal digits of any script as a number; `none` for an empty run or one with
another character. -/
def indexOf? (cs : List Char) : Option Nat :=
  if cs.isEmpty then none
  else cs.foldl (fun acc c ↦ acc.bind fun a ↦ (Text.decimalValue? c).map (a * 10 + ·)) (some 0)

/-- An attribute of a value: the parts of a number (`real`, `imag`, `numerator`,
`denominator`); any other name is missing. -/
def attributeOf (v : Value) (name : String) : Except FormatError Value :=
  match v, name with
  | .int n, "real" | .int n, "numerator" => .ok (.int n)
  | .int _, "imag" => .ok (.int 0)
  | .int _, "denominator" => .ok (.int 1)
  | .bool b, "real" | .bool b, "numerator" => .ok (.int (if b then 1 else 0))
  | .bool _, "imag" => .ok (.int 0)
  | .bool _, "denominator" => .ok (.int 1)
  | .float x, "real" => .ok (.float x)
  | .float _, "imag" => .ok (.float (Number.Binary64.zero false))
  | v, name => .error (.noAttribute v.typeName name)

/-- A subscript of a value: a number indexes a list or a string, a key selects an object
member. -/
def subscript (v : Value) (key : List Char) : Except FormatError Value :=
  match indexOf? key with
  | some i =>
    match v with
    | .array items =>
      match items[i]? with
      | some item => .ok item
      | none => .error (.indexOutOfRange "list")
    | .str s =>
      match s.toList[i]? with
      | some c => .ok (.str c.toString)
      | none => .error (.indexOutOfRange "str")
    | .object _ => .error (.missingKey (toString i))
    | v => .error (.notSubscriptable v.typeName)
  | none =>
    let k := String.ofList key
    match v with
    | .object members =>
      match lookup members k with
      | some item => .ok item
      | none => .error (.missingKey (Text.quote k))
    | .array _ => .error (.badSubscript "list indices must be integers or slices, not str")
    | .str _ => .error (.badSubscript "string indices must be integers, not 'str'")
    | v => .error (.notSubscriptable v.typeName)

/-- Apply the attributes and subscripts after a field's first name, from left to right. -/
def followPath (v : Value) (cs : List Char) : Except FormatError Value :=
  go v cs (cs.length + 1)
where
  /-- `fuel` bounds the steps by the length of the path. -/
  go : Value → List Char → Nat → Except FormatError Value
    | v, [], _ => .ok v
    | v, _, 0 => .ok v
    | v, '.' :: rest, fuel + 1 => do
      let name := rest.takeWhile fun c ↦ c != '.' && c != '['
      if name.isEmpty then throw (.malformed "Empty attribute in format string")
      let w ← attributeOf v (String.ofList name)
      go w (rest.drop name.length) fuel
    | v, '[' :: rest, fuel + 1 => do
      let key := rest.takeWhile (· != ']')
      let after := rest.drop key.length
      match after with
      | [] => throw (.malformed "Missing ']' in format string")
      | _ :: after' =>
        if key.isEmpty then throw (.malformed "Empty attribute in format string")
        let w ← subscript v key
        go w after' fuel
    | _, _, _ + 1 => .error (.malformed "Only '.' or '[' may follow ']' in format field specifier")

/-- The value a field name selects among named values. -/
def selectValue (args : List (String × Value)) (name : List Char) : Except FormatError Value := do
  let first := name.takeWhile fun c ↦ c != '.' && c != '['
  let path := name.drop first.length
  if first.isEmpty then throw (.positional 0)
  match indexOf? first with
  | some i => throw (.positional i)
  | none =>
    let key := String.ofList first
    match lookup args key with
    | none => throw (.missingName (Text.quote key))
    | some v => followPath v path

/-- Escape every character beyond ASCII as `\x`, `\u` or `\U` with its hexadecimal code. -/
def escapeBeyondAscii (s : String) : String :=
  String.join (s.toList.map fun c ↦
    let n := c.toNat
    if n < 0x80 then c.toString
    else if n < 0x100 then "\\x" ++ Text.hexPadded 2 n
    else if n < 0x10000 then "\\u" ++ Text.hexPadded 4 n
    else "\\U" ++ Text.hexPadded 8 n)

/-- Apply a conversion to a value. -/
def convert (v : Value) : Char → Except FormatError Value
  | 'r' => .ok (.str v.literal)
  | 's' => (plainTextOf v).map .str
  | 'a' => .ok (.str (escapeBeyondAscii v.literal))
  | _ => .error (.malformed "Unknown conversion specifier")

/-- The text of one field; `nested` fills a specification that holds fields. -/
def fillField (args : List (String × Value)) (nested : List Char → Except FormatError String)
    (field : Field) : Except FormatError String := do
  let v ← selectValue args field.name
  let v ← match field.conversion with
    | some c => convert v c
    | none => pure v
  let spec ← if field.specHasFields then (nested field.spec).map String.toList else pure field.spec
  formatValue v spec

/-- Fill one level of a template from named values; `nested` fills the specifications that hold
fields. -/
def fillLevel (args : List (String × Value)) (nested : List Char → Except FormatError String)
    (cs : List Char) : Except FormatError String :=
  go cs "" (cs.length + 1)
where
  /-- Fill the text `cs` after the output `acc`; `fuel` bounds the pieces by the text's length. -/
  go (cs : List Char) (acc : String) : Nat → Except FormatError String
    | 0 => .ok acc
    | fuel + 1 =>
      let literal := cs.takeWhile fun c ↦ c != '\x7b' && c != '\x7d'
      let acc := acc ++ String.ofList literal
      match cs.drop literal.length with
      | [] => .ok acc
      | '\x7d' :: '\x7d' :: rest => go rest (acc ++ "\x7d") fuel
      | '\x7d' :: _ => .error (.malformed "Single '\x7d' encountered in format string")
      | '\x7b' :: '\x7b' :: rest => go rest (acc ++ "\x7b") fuel
      | ['\x7b'] => .error (.malformed "Single '\x7b' encountered in format string")
      | _ :: rest =>
        match readField rest with
        | .error e => .error e
        | .ok (field, after) =>
          match fillField args nested field with
          | .error e => .error e
          | .ok text => go after (acc ++ text) fuel

/-- Fill a template from named values, allowing `depth` levels of fields. -/
def fillFrom (args : List (String × Value)) : Nat → List Char → Except FormatError String
  | 0, _ => .error (.malformed "Max string recursion exceeded")
  | depth + 1, cs => fillLevel args (fillFrom args depth) cs

/-- Fill a template from named values. -/
def fill (args : List (String × Value)) (template : String) : Except FormatError String :=
  fillFrom args nestingLimit template.toList

end TorrentPrune.Template
