import TorrentPrune.Text.Digits

/-!
# Format specifications

A format specification says how one value is written into a template:
`[[fill]align][sign][z][#][0][width][grouping][.precision][type]`.

* `align` is `<` (left), `>` (right), `^` (centre) or `=` (padding between sign and digits);
  a fill character before it may be any character.
* `sign` is `+` (always), `-` (negatives only) or a space (a space for non-negatives).
* `z` drops the minus of a float that rounds to zero; `#` asks for the alternate form.
* `0` without a fill asks for zero fill and, for numbers without an explicit alignment,
  padding after the sign.
* `width` and `precision` are decimal numbers in any script's digits; a point must be followed
  by a precision.
* `grouping` is `,` or `_`, not both; digits are grouped by threes, or by fours with `_` in the
  binary, octal and hexadecimal types.
* `type` is a single character; what is allowed depends on the kind of value.

A specification that breaks these rules is malformed.

Source: `src/src/dircomp/utils/i18n.py:75–111`.
-/

namespace TorrentPrune.Template

/-- Where padding goes. -/
inductive Align where
  | left
  | right
  | center
  | afterSign
  deriving BEq, Inhabited

/-- When a sign is written. -/
inductive SignMode where
  | negativeOnly
  | always
  | space
  deriving BEq, Inhabited

/-- How digits are grouped. -/
inductive Grouping where
  | none
  | comma
  | underscore
  deriving BEq, Inhabited

/-- A parsed specification, before the kind of value settles its defaults. -/
structure Spec where
  /-- The fill, when one is written before the alignment. -/
  fill : Option Char
  align : Option Align
  /-- The sign character as written. -/
  sign : Option Char
  positiveZero : Bool
  alternate : Bool
  /-- A `0` before the width, without a written fill. -/
  zeroPad : Bool
  width : Option Nat
  grouping : Grouping
  precision : Option Nat
  /-- The type character as written. -/
  type : Option Char
  deriving Inhabited

/-- The alignment an alignment character stands for. -/
def alignOf? : Char → Option Align
  | '<' => some .left
  | '>' => some .right
  | '^' => some .center
  | '=' => some .afterSign
  | _ => none

/-- Read a run of decimal digits of any script: its value and the rest, `none` when there is no
digit. -/
def readNumber (cs : List Char) : Option Nat × List Char :=
  let ds := cs.takeWhile fun c ↦ (Text.decimalValue? c).isSome
  if ds.isEmpty then (none, cs)
  else (some (ds.foldl (fun acc c ↦ acc * 10 + (Text.decimalValue? c).getD 0) 0), cs.drop ds.length)

/-- Widths and precisions must stay below this bound, that of a signed machine word. -/
def wordLimit : Nat := Nat.pow 2 63

/-- The text of a specification is malformed; the field says what is wrong. -/
structure SpecError where
  what : String
  deriving Inhabited

/-- Parse a specification; `defaultType` is the type a value of this kind takes when none is
written, used to check the grouping. -/
def Spec.parse (cs : List Char) (defaultType : Option Char) : Except SpecError Spec := do
  let (fill, align, cs) := match cs with
    | f :: a :: rest =>
      match alignOf? a with
      | some al => (some f, some al, rest)
      | none =>
        match alignOf? f with
        | some al => (none, some al, a :: rest)
        | none => (none, none, cs)
    | [a] =>
      match alignOf? a with
      | some al => (none, some al, [])
      | none => (none, none, cs)
    | [] => (none, none, [])
  let (sign, cs) := match cs with
    | c :: rest => if c == '+' || c == '-' || c == ' ' then (some c, rest) else (none, cs)
    | [] => (none, [])
  let (positiveZero, cs) := match cs with
    | 'z' :: rest => (true, rest)
    | _ => (false, cs)
  let (alternate, cs) := match cs with
    | '#' :: rest => (true, rest)
    | _ => (false, cs)
  let (zeroPad, cs) := match fill, cs with
    | none, '0' :: rest => (true, rest)
    | _, _ => (false, cs)
  let (width, cs) := readNumber cs
  if width.any (wordLimit ≤ ·) then throw ⟨"Too many decimal digits in format string"⟩
  let (grouping, cs) ← match cs with
    | ',' :: '_' :: _ => .error ⟨"Cannot specify both ',' and '_'."⟩
    | ',' :: rest => pure (Grouping.comma, rest)
    | '_' :: ',' :: _ => .error ⟨"Cannot specify both ',' and '_'."⟩
    | '_' :: rest => pure (Grouping.underscore, rest)
    | _ => pure (Grouping.none, cs)
  let (precision, cs) ← match cs with
    | '.' :: rest =>
      match readNumber rest with
      | (none, _) => .error ⟨"Format specifier missing precision"⟩
      | (some p, rest') =>
        if wordLimit ≤ p then .error ⟨"Too many decimal digits in format string"⟩
        else pure (some p, rest')
    | _ => pure (none, cs)
  let type ← match cs with
    | [] => pure none
    | [t] => pure (some t)
    | _ => .error ⟨"Invalid format specifier"⟩
  let effective := type.orElse fun _ ↦ defaultType
  if grouping != .none then
    match effective with
    | some 'd' | some 'e' | some 'f' | some 'g' | some 'E' | some 'G' | some '%' | some 'F'
    | none => pure ()
    | some 'b' | some 'o' | some 'x' | some 'X' =>
      if grouping == .underscore then pure () else .error ⟨"Cannot specify ',' with this type."⟩
    | _ => .error ⟨"Cannot specify a grouping with this type."⟩
  pure { fill, align, sign, positiveZero, alternate, zeroPad, width, grouping, precision, type }

/-- The fill character: the written one, else `0` for zero fill, else a space. -/
def Spec.fillChar (s : Spec) : Char :=
  match s.fill with
  | some c => c
  | none => if s.zeroPad then '0' else ' '

/-- The alignment, given the default of the kind of value: zero fill without a written alignment
pads after the sign for kinds that align right. -/
def Spec.alignment (s : Spec) (default : Align) : Align :=
  match s.align with
  | some a => a
  | none => if s.zeroPad && s.fill.isNone && default == .right then .afterSign else default

/-- The sign mode. -/
def Spec.signMode (s : Spec) : SignMode :=
  match s.sign with
  | some '+' => .always
  | some ' ' => .space
  | _ => .negativeOnly

end TorrentPrune.Template
