import TorrentPrune.Json.Literal
import TorrentPrune.Number.DigitLimit
import TorrentPrune.Number.FloatText
import TorrentPrune.Template.Error
import TorrentPrune.Template.Spec

/-!
# Writing one value by a specification

Text aligns left by default, numbers right. A number is laid out as padding, sign, base prefix,
padding after the sign, grouped digits, decimal point, the rest (fraction, exponent, percent
sign) and padding. With zero fill after the sign, the zeros join the digit groups, separators
included, so that the number fills the width.

An integer takes the types `b`, `o`, `x`, `X`, `c` (a character), `d` and `n` (decimal, the
default), or a float type, for which it is converted to a float. A float takes `e`, `f`, `g`
(each also in capitals), `n`, `%` and none, which writes the shortest digits or, with a
precision, general digits that keep a point. A flag is an integer, except that without a
specification it is written `True` or `False`. Any other value takes no specification.

Source: `src/src/dircomp/utils/i18n.py:75–111`.
-/

namespace TorrentPrune.Template

open TorrentPrune.Json TorrentPrune.Number TorrentPrune.Number.Binary64

/-- Padding around text of `len` characters up to `width`: left and right counts. -/
def padCounts (len : Nat) (width : Option Nat) (align : Align) : Nat × Nat :=
  let total := max len (width.getD 0)
  let free := total - len
  match align with
  | .right => (free, 0)
  | .center => (free / 2, free - free / 2)
  | .left | .afterSign => (0, free)

/-- Text within the width, padded by `fill`. -/
def padText (text : List Char) (width : Option Nat) (align : Align) (fill : Char) : List Char :=
  let (l, r) := padCounts text.length width align
  List.replicate l fill ++ text ++ List.replicate r fill

/-- Write text by a specification: only type `s`, no sign, no `z`, no `#`, no padding after a
sign; a precision cuts the text. -/
def formatText (s : String) (specText : List Char) : Except FormatError String := do
  let spec ← (Spec.parse specText (some 's')).mapError fun e ↦ .malformed e.what
  match spec.type with
  | none | some 's' => pure ()
  | some _ => throw (.malformed "Unknown format code for object of type 'str'")
  if spec.sign.isSome then throw (.malformed "Sign not allowed in string format specifier")
  if spec.positiveZero then throw (.malformed "Negative zero coercion (z) not allowed")
  if spec.alternate then throw (.malformed "Alternate form (#) not allowed in string format specifier")
  let align := spec.alignment .left
  if align == .afterSign then throw (.malformed "'=' alignment not allowed in string format specifier")
  let cs := match spec.precision with
    | some p => s.toList.take p
    | none => s.toList
  pure (String.ofList (padText cs spec.width align spec.fillChar))

/-- A number cut into the pieces that layout places. -/
structure NumberParts where
  negative : Bool
  /-- A base prefix such as `0x`. -/
  prefixText : List Char
  /-- The digits before the point, to be grouped. -/
  digits : List Char
  /-- Whether a decimal point follows the digits. -/
  point : Bool
  /-- The fraction, exponent or percent sign after the point. -/
  rest : List Char
  deriving Inhabited

/-- Group `ds` from the right in groups of `size` separated by `sep`, first padding with zeros so
that the result has at least `minWidth` characters; separators fall among the zeros too. -/
def groupDigits (ds : List Char) (minWidth : Int) (size : Nat) (sep : Char) : List Char :=
  let rec go (fuel : Nat) (left : List Char) (minWidth : Int) (groups : List (List Char)) :
      List (List Char) :=
    match fuel with
    | 0 => left :: groups
    | fuel + 1 =>
      let remaining : Int := left.length
      let l : Int := min (size : Int) (max (max remaining minWidth) 1)
      let zeros := (l - remaining).toNat
      let chars := (min remaining l).toNat
      let keep := left.length - chars
      let group := List.replicate zeros '0' ++ left.drop keep
      let left' := left.take keep
      let minWidth' := minWidth - l
      if left'.isEmpty && minWidth' ≤ 0 then group :: groups
      else go fuel left' (minWidth' - 1) (group :: groups)
  (sep.toString.intercalate ((go (ds.length + minWidth.toNat + 1) ds minWidth []).map
    String.ofList)).toList

/-- Zero-pad `ds` to at least `minWidth` characters, without grouping. -/
def zeroPadDigits (ds : List Char) (minWidth : Int) : List Char :=
  List.replicate (minWidth - ds.length).toNat '0' ++ ds

/-- Lay a number out by a specification; `grouping` is the group size and separator, if any. -/
def layoutNumber (p : NumberParts) (spec : Spec) (grouping : Option (Nat × Char)) : List Char :=
  let sign : List Char := match spec.signMode with
    | .always => [if p.negative then '-' else '+']
    | .space => [if p.negative then '-' else ' ']
    | .negativeOnly => if p.negative then ['-'] else []
  let fill := spec.fillChar
  let align := spec.alignment .right
  let width : Int := match spec.width with
    | some w => w
    | none => -1
  let fixedCount : Int := sign.length + p.prefixText.length + (if p.point then 1 else 0) + p.rest.length
  let minWidth := if fill == '0' && align == .afterSign then width - fixedCount else 0
  let grouped :=
    if p.digits.isEmpty then []
    else match grouping with
      | some (size, sep) => groupDigits p.digits minWidth size sep
      | none => zeroPadDigits p.digits minWidth
  let padding := (width - (fixedCount + grouped.length)).toNat
  let (lpad, spad, rpad) := match align with
    | .left => (0, 0, padding)
    | .center => (padding / 2, 0, padding - padding / 2)
    | .afterSign => (0, padding, 0)
    | .right => (padding, 0, 0)
  List.replicate lpad fill ++ sign ++ p.prefixText ++ List.replicate spad fill ++ grouped ++
    (if p.point then ['.'] else []) ++ p.rest ++ List.replicate rpad fill

/-- The digit groups a grouping asks for: threes, or fours with `_` in a power-of-two base. -/
def groupingFor (g : Grouping) (powerOfTwoBase : Bool) : Option (Nat × Char) :=
  match g with
  | .none => none
  | .comma => some (3, ',')
  | .underscore => some (if powerOfTwoBase then 4 else 3, '_')

/-- Decimal text of an integer, refused beyond the digit limit. -/
def decimalText (n : Int) : Except FormatError String :=
  let s := toString n.natAbs
  if digitLimit < s.length then .error .tooManyDigits
  else .ok ((if n < 0 then "-" else "") ++ s)

/-- Cut float text (sign already removed) into digits, point and rest. -/
def floatParts (negative : Bool) (cs : List Char) : NumberParts :=
  let ds := cs.takeWhile Char.isDigit
  match cs.drop ds.length with
  | '.' :: rest => ⟨negative, [], ds, true, rest⟩
  | rest => ⟨negative, [], ds, false, rest⟩

/-- Write a float by a parsed specification. -/
def formatFloatBy (x : Binary64) (spec : Spec) : Except FormatError String := do
  if spec.precision.any (Nat.pow 2 31 ≤ ·) then throw (.malformed "precision too big")
  let t := spec.type
  let upper := t == some 'E' || t == some 'F' || t == some 'G'
  let (layout, value, percent) : FloatLayout × Binary64 × Bool := match t with
    | none =>
      match spec.precision with
      | none => (⟨.shortest, 0, false, spec.alternate, true, spec.positiveZero⟩, x, false)
      | some p => (⟨.general, p, false, spec.alternate, true, spec.positiveZero⟩, x, false)
    | some 'e' | some 'E' =>
      (⟨.exponent, spec.precision.getD 6, upper, spec.alternate, false, spec.positiveZero⟩, x, false)
    | some 'f' | some 'F' =>
      (⟨.fixed, spec.precision.getD 6, upper, spec.alternate, false, spec.positiveZero⟩, x, false)
    | some '%' =>
      (⟨.fixed, spec.precision.getD 6, false, spec.alternate, false, spec.positiveZero⟩,
        x.timesHundred, true)
    | _ =>
      (⟨.general, spec.precision.getD 6, upper, spec.alternate, false, spec.positiveZero⟩, x, false)
  let text := (render value layout).toList
  let text := if percent then text ++ ['%'] else text
  let (negative, body) := match text with
    | '-' :: rest => (true, rest)
    | _ => (false, text)
  let grouping := if t == some 'n' then none else groupingFor spec.grouping false
  pure (String.ofList (layoutNumber (floatParts negative body) spec grouping))

/-- Whether a type character is a float type. -/
def isFloatType (t : Char) : Bool :=
  t == 'e' || t == 'E' || t == 'f' || t == 'F' || t == 'g' || t == 'G' || t == '%'

/-- Write a float by a specification text. -/
def formatFloat (x : Binary64) (specText : List Char) : Except FormatError String := do
  let spec ← (Spec.parse specText none).mapError fun e ↦ .malformed e.what
  match spec.type with
  | none => formatFloatBy x spec
  | some t =>
    if isFloatType t || t == 'n' then formatFloatBy x spec
    else throw (.malformed "Unknown format code for object of type 'float'")

/-- Digits of a natural number in a base up to sixteen, lower case. -/
def baseDigits (base : Nat) (n : Nat) : List Char :=
  (Nat.toDigits base n)

/-- Write an integer by a parsed specification of an integer type. -/
def formatIntBy (n : Int) (spec : Spec) (t : Char) : Except FormatError String := do
  if spec.precision.isSome then
    throw (.malformed "Precision not allowed in integer format specifier")
  if spec.positiveZero then
    throw (.malformed "Negative zero coercion (z) not allowed in integer format specifier")
  if t == 'c' then
    if spec.sign.isSome then throw (.malformed "Sign not allowed with integer format specifier 'c'")
    if spec.alternate then
      throw (.malformed "Alternate form (#) not allowed with integer format specifier 'c'")
    if n < -(Nat.pow 2 63) || Nat.pow 2 63 ≤ n then throw .wordOverflow
    if n < 0 || 0x10FFFF < n then throw .charOutOfRange
    let parts : NumberParts := ⟨false, [], [], false, [Char.ofNat n.toNat]⟩
    return String.ofList (layoutNumber parts spec none)
  let (base, mark) : Nat × List Char := match t with
    | 'b' => (2, ['0', 'b'])
    | 'o' => (8, ['0', 'o'])
    | 'x' => (16, ['0', 'x'])
    | 'X' => (16, ['0', 'X'])
    | _ => (10, [])
  let digits := baseDigits base n.natAbs
  if base == 10 && digitLimit < digits.length then throw .tooManyDigits
  let digits := if t == 'X' then digits.map Char.toUpper else digits
  let parts : NumberParts := ⟨n < 0, if spec.alternate then mark else [], digits, false, []⟩
  let grouping := if t == 'n' then none else groupingFor spec.grouping (base != 10)
  return String.ofList (layoutNumber parts spec grouping)

/-- Write an integer by a specification text. -/
def formatInt (n : Int) (specText : List Char) : Except FormatError String := do
  let spec ← (Spec.parse specText (some 'd')).mapError fun e ↦ .malformed e.what
  let t := spec.type.getD 'd'
  if t == 'b' || t == 'c' || t == 'd' || t == 'o' || t == 'x' || t == 'X' || t == 'n' then
    formatIntBy n spec t
  else if isFloatType t then
    match Binary64.ofInt? n with
    | some x => formatFloatBy x spec
    | none => throw .tooLargeForFloat
  else throw (.malformed "Unknown format code for object of type 'int'")

/-- The plain text of a value, refused for an integer beyond the digit limit. -/
def plainTextOf (v : Value) : Except FormatError String :=
  match v with
  | .int n => decimalText n
  | _ => .ok v.plainText

/-- Write a value by a specification text; an empty specification writes its plain text. -/
def formatValue (v : Value) (specText : List Char) : Except FormatError String :=
  if specText.isEmpty then plainTextOf v
  else
    match v with
    | .str s => formatText s specText
    | .int n => formatInt n specText
    | .bool b => formatInt (if b then 1 else 0) specText
    | .float x => formatFloat x specText
    | v => .error (.specNotSupported v.typeName)

end TorrentPrune.Template
