import TorrentPrune.Number.FloatText
import TorrentPrune.Template.Markup

/-!
# Record layouts

A record layout is text with directives `%(key)` followed by flags (`-` left, `+` and space for
the sign, `#` alternate, `0` zero fill), a width, a precision after a point, an ignored length
letter (`h`, `l`, `L`) and a conversion: `s`, `r`, `a` (plain text, literal, ASCII literal), `d`,
`i`, `u` (decimal), `o`, `x`, `X` (octal, hexadecimal), `e`, `E`, `f`, `F`, `g`, `G` (float),
`c` (character). `%%` is a percent sign. The key names a field of the record; a missing field, a
conversion the field's value does not take, or a malformed directive makes the layout fail.

A layout is accepted only if it holds at least one well-formed directive, its conversion letter
matched in any case.

Source: `src/src/dircomp/infra/logging/handlers.py:31–75`, `src/src/dircomp/infra/logging/core.py:51–136`.
-/

namespace TorrentPrune.Logging

open TorrentPrune.Number TorrentPrune.Number.Binary64

/-- A value a layout can show. -/
inductive FieldValue where
  | text (s : String)
  | int (n : Int)
  | nothing
  deriving Inhabited

/-- Why a layout could not be filled. -/
structure LayoutError where
  what : String
  deriving Inhabited

/-- Whether a character may stand in a directive's key, as the acceptance check reads it: a
letter, a digit or `_`. -/
def isKeyChar (c : Char) : Bool :=
  c.isAlphanum || c == '_' || (Text.decimalValue? c).isSome

/-- The conversion letters, matched in any case; the dotted and dotless `i` and the long `s`
match `i` and `s`. -/
def isConversionLetter (c : Char) : Bool :=
  "diouxefgcrsa%".toList.contains c.toLower ||
    c.toNat == 0x130 || c.toNat == 0x131 || c.toNat == 0x17F

/-- Whether a well-formed directive starts at the front of `cs` (just after its `%`). -/
def directiveAt (cs : List Char) : Bool :=
  match cs with
  | '(' :: rest =>
    let key := rest.takeWhile isKeyChar
    match rest.drop key.length with
    | ')' :: after =>
      if key.isEmpty then false
      else
        let after := after.dropWhile fun c ↦ "#0+ -".toList.contains c
        let digit (c : Char) : Bool := (Text.decimalValue? c).isSome
        let after := match after with
          | '*' :: r => r
          | r => r.dropWhile digit
        let after := match after with
          | '.' :: '*' :: r => r
          | '.' :: d :: r => if digit d then r.dropWhile digit else '.' :: d :: r
          | r => r
        match after with
        | c :: _ => isConversionLetter c
        | [] => false
    | _ => false
  | _ => false

/-- Whether a layout holds at least one well-formed directive. -/
def acceptsLayout (fmt : String) : Bool :=
  go fmt.toList (fmt.length + 1)
where
  /-- `fuel` bounds the steps by the length of the layout. -/
  go : List Char → Nat → Bool
    | [], _ => false
    | _, 0 => false
    | c :: rest, fuel + 1 => (c == '%' && directiveAt rest) || go rest fuel

/-- The parsed part of a directive after its key. -/
structure Directive where
  leftAlign : Bool
  plusSign : Bool
  blankSign : Bool
  alternate : Bool
  zeroFill : Bool
  width : Option Nat
  precision : Option Nat
  conversion : Char
  deriving Inhabited

/-- Read the digits at the front of `cs`. -/
def asciiNumber (cs : List Char) : Option Nat × List Char :=
  let ds := cs.takeWhile Char.isDigit
  if ds.isEmpty then (none, cs)
  else (some (ds.foldl (fun acc d ↦ acc * 10 + (d.toNat - 48)) 0), cs.drop ds.length)

/-- Parse flags, width, precision, length letter and conversion. -/
def readDirective (cs : List Char) : Except LayoutError (Directive × List Char) := do
  let flags := cs.takeWhile fun c ↦ "-+ #0".toList.contains c
  let cs := cs.drop flags.length
  if cs.head? == some '*' then throw ⟨"not enough arguments for format string"⟩
  let (width, cs) := asciiNumber cs
  let (precision, cs) ← match cs with
    | '.' :: rest =>
      if rest.head? == some '*' then throw ⟨"not enough arguments for format string"⟩
      else
        let (p, rest') := asciiNumber rest
        pure (some (p.getD 0), rest')
    | _ => pure (none, cs)
  let cs := match cs with
    | c :: rest => if c == 'h' || c == 'l' || c == 'L' then rest else cs
    | [] => []
  match cs with
  | [] => throw ⟨"incomplete format"⟩
  | conv :: rest =>
    pure (⟨flags.contains '-', flags.contains '+', flags.contains ' ', flags.contains '#',
      flags.contains '0', width, precision, conv⟩, rest)

/-- Digits of a natural number in a base, lower case. -/
def digitsIn (base n : Nat) : List Char := Nat.toDigits base n

/-- The text of an integer conversion: sign, prefix in the alternate form, digits zero-padded to
the precision. -/
def integerText (n : Int) (d : Directive) : List Char :=
  let (base, mark) : Nat × List Char := match d.conversion with
    | 'o' => (8, ['0', 'o'])
    | 'x' => (16, ['0', 'x'])
    | 'X' => (16, ['0', 'X'])
    | _ => (10, [])
  let ds := digitsIn base n.natAbs
  let ds := List.replicate (d.precision.getD 0 - ds.length) '0' ++ ds
  let ds := if d.conversion == 'X' then ds.map Char.toUpper else ds
  (if n < 0 then ['-'] else []) ++ (if d.alternate then mark else []) ++ ds

/-- The text of a float conversion of an integer. -/
def floatText (n : Int) (d : Directive) : Except LayoutError (List Char) :=
  match Binary64.ofInt? n with
  | none => .error ⟨"int too large to convert to float"⟩
  | some x =>
    let c := d.conversion
    let style : FloatStyle :=
      if c == 'e' || c == 'E' then .exponent
      else if c == 'f' || c == 'F' then .fixed
      else .general
    let upper := c == 'E' || c == 'F' || c == 'G'
    .ok (render x ⟨style, d.precision.getD 6, upper, d.alternate, false, false⟩).toList

/-- Whether a conversion writes a number, so that the sign flags and zero fill apply. -/
def isNumericConversion (c : Char) : Bool :=
  "diuoxXeEfFgG".toList.contains c

/-- The converted text of a value. -/
def convertValue (v : FieldValue) (d : Directive) : Except LayoutError (List Char) :=
  let c := d.conversion
  let plain : String := match v with
    | .text s => s
    | .int n => toString n
    | .nothing => "None"
  let literal : String := match v with
    | .text s => Text.quote s
    | .int n => toString n
    | .nothing => "None"
  if c == 's' then .ok plain.toList
  else if c == 'r' then .ok literal.toList
  else if c == 'a' then .ok (Template.escapeBeyondAscii literal).toList
  else if c == 'c' then
    match v with
    | .int n =>
      if n < 0 || 0x10FFFF < n then .error ⟨"%c arg not in range(0x110000)"⟩
      else .ok [Char.ofNat n.toNat]
    | .text s => if s.length == 1 then .ok s.toList else .error ⟨"%c requires int or char"⟩
    | .nothing => .error ⟨"%c requires int or char"⟩
  else if isNumericConversion c then
    match v with
    | .int n =>
      if c == 'd' || c == 'i' || c == 'u' || c == 'o' || c == 'x' || c == 'X' then
        .ok (integerText n d)
      else floatText n d
    | _ => .error ⟨"a real number is required"⟩
  else .error ⟨"unsupported format character"⟩

/-- Place converted text by width, flags and precision. -/
def placeText (str : List Char) (d : Directive) : List Char :=
  let c := d.conversion
  let numeric := isNumericConversion c
  let fill := if numeric && d.zeroFill then '0' else ' '
  let len := str.length
  let fits := d.width.all (· ≤ len) && d.precision.all (len ≤ ·)
  if fits && !d.plusSign && !d.blankSign then str
  else
    let str := if (c == 's' || c == 'r' || c == 'a') then
        match d.precision with
        | some p => str.take p
        | none => str
      else str
    let (signChar, body) : Option Char × List Char :=
      if numeric then
        match str with
        | '-' :: r => (some '-', r)
        | '+' :: r => (some '+', r)
        | r => (if d.plusSign then some '+' else if d.blankSign then some ' ' else none, r)
      else (none, str)
    let width := max (d.width.getD 0) (body.length + (if signChar.isSome then 1 else 0))
    let hasPrefix := d.alternate && (c == 'x' || c == 'X' || c == 'o')
    let (prefixText, digits) := if hasPrefix then (body.take 2, body.drop 2) else ([], body)
    let signText := signChar.toList
    let used := signText.length + prefixText.length + digits.length
    let pad := width - used
    if d.leftAlign then signText ++ prefixText ++ digits ++ List.replicate pad ' '
    else if fill == '0' then signText ++ prefixText ++ List.replicate pad '0' ++ digits
    else List.replicate pad ' ' ++ signText ++ prefixText ++ digits

/-- Fill a layout from the fields of a record. -/
def fillLayout (fields : String → Option FieldValue) (fmt : String) : Except LayoutError String :=
  go fmt.toList "" (fmt.length + 1)
where
  /-- Fill the text `cs` after the output `acc`; `fuel` bounds the steps by the layout's
  length. -/
  go (cs : List Char) (acc : String) : Nat → Except LayoutError String
    | 0 => .ok acc
    | fuel + 1 =>
      let literal := cs.takeWhile (· != '%')
      let acc := acc ++ String.ofList literal
      match cs.drop literal.length with
      | [] => .ok acc
      | _ :: '%' :: rest => go rest (acc ++ "%") fuel
      | _ :: '(' :: rest =>
        match readKey rest 1 [] with
        | none => .error ⟨"incomplete format key"⟩
        | some (key, after) =>
          match fields (String.ofList key) with
          | none => .error ⟨"missing field"⟩
          | some v =>
            match readDirective after with
            | .error e => .error e
            | .ok (d, rest') =>
              match convertValue v d with
              | .error e => .error e
              | .ok text => go rest' (acc ++ String.ofList (placeText text d)) fuel
      | [_] => .error ⟨"incomplete format"⟩
      | _ :: _ => .error ⟨"not enough arguments for format string"⟩
  /-- Read a key up to its balancing `)`: the key and the rest. -/
  readKey : List Char → Nat → List Char → Option (List Char × List Char)
    | [], _, _ => none
    | c :: rest, depth, acc =>
      if c == ')' then
        if depth == 1 then some (acc.reverse, rest) else readKey rest (depth - 1) (c :: acc)
      else if c == '(' then readKey rest (depth + 1) (c :: acc)
      else readKey rest depth (c :: acc)

end TorrentPrune.Logging
