import TorrentPrune.Number.Shortest

/-!
# Float text at a chosen precision

A finite number is first turned into decimal digits and the place of its decimal point, so that
its value is `0.d₁d₂… · 10^point`, in one of three ways: the shortest digits that read back,
rounding to a count of significant digits, or rounding to a decimal place. Rounding is exact and
sends a tie to the even neighbour; trailing zeros are dropped. Zero is the digit `0` with the
point after it, and a nonzero number that rounds to nothing at a decimal place has no digits and
its point at that place.

The digits are then laid out in one of four styles (`FloatStyle`): with an exponent, fixed, general
(fixed for moderate exponents, else with an exponent) and shortest. The layout pads with zeros up
to the precision, writes an exponent with a sign and at least two digits, and drops a bare
trailing point unless the alternate form keeps it.

Source: `src/src/dircomp/core/pipeline/engine.py:80–82`, `src/src/dircomp/utils/i18n.py:75–111`.
-/

namespace TorrentPrune.Number

namespace Binary64

/-- A digit string and the place of the decimal point: the value is `0.digits · 10^point`. -/
structure DecimalDigits where
  digits : List Char
  point : Int
  deriving Inhabited

/-- Drop trailing zero digits. -/
def dropTrailingZeros (ds : List Char) : List Char :=
  (ds.reverse.dropWhile (· == '0')).reverse

/-- The digits of a positive `m · 2^q` rounded, ties to even, to a multiple of `10^place`. -/
def digitsAtPlace (m : Nat) (q : Int) (place : Int) : DecimalDigits :=
  let num := m * Nat.pow 2 q.toNat * Nat.pow 10 (-place).toNat
  let den := Nat.pow 2 (-q).toNat * Nat.pow 10 place.toNat
  let n := roundHalfEven num den
  if n = 0 then ⟨[], place⟩
  else
    let ds := (toString n).toList
    ⟨dropTrailingZeros ds, place + ds.length⟩

/-- The digits of a finite number's magnitude rounded to `places` decimal places. -/
def fixedDigits (x : Binary64) (places : Nat) : DecimalDigits :=
  if x.isZero then ⟨['0'], 1⟩
  else
    let (m, q) := x.toParts
    digitsAtPlace m q (-(places : Int))

/-- The digits of a finite number's magnitude rounded to `count` significant digits (at least
one). -/
def significantDigits (x : Binary64) (count : Nat) : DecimalDigits :=
  if x.isZero then ⟨['0'], 1⟩
  else
    let (m, q) := x.toParts
    digitsAtPlace m q (floorLog10 m q - (max count 1 : Nat) + 1)

/-- The shortest digits that read back as a finite number's magnitude. -/
def shortestDecimal (x : Binary64) : DecimalDigits :=
  if x.isZero then ⟨['0'], 1⟩
  else
    let (m, q) := x.toParts
    let halved := x.fraction == 0 && 1 < x.exponentField
    let (d, e) := shortestDigits m q halved
    let ds := (toString d).toList
    ⟨ds, e + ds.length⟩

/-- How a float is laid out. -/
inductive FloatStyle where
  /-- One digit before the point, `precision` after it, and an exponent. -/
  | exponent
  /-- `precision` digits after the point. -/
  | fixed
  /-- `precision` significant digits, with an exponent only when the point is far away. -/
  | general
  /-- The shortest digits, with an exponent from `10^16` up and below `10^-4`. -/
  | shortest
  deriving BEq, Inhabited

/-- The choices of a float layout. -/
structure FloatLayout where
  style : FloatStyle
  precision : Nat
  /-- Write `E`, `INF` and `NAN` in capitals. -/
  upper : Bool
  /-- Keep a trailing point, and in the general style the trailing zeros. -/
  alternate : Bool
  /-- Give an integral value without exponent a `.0`. -/
  pointZero : Bool
  /-- Drop the minus of a value that rounds to zero. -/
  positiveZero : Bool
  deriving Inhabited

/-- A run of zeros. -/
def zeros (n : Int) : List Char := List.replicate n.toNat '0'

/-- The exponent suffix: the mark, a sign and at least two digits. -/
def exponentText (mark : Char) (e : Int) : List Char :=
  let digits := (toString e.natAbs).toList
  mark :: (if e < 0 then '-' else '+') :: (if digits.length < 2 then '0' :: digits else digits)

/-- Lay out rounded digits; `precision` is the layout's, already adjusted for the style. -/
def layoutDigits (d : DecimalDigits) (l : FloatLayout) (precision : Int) : List Char :=
  let len : Int := d.digits.length
  let (useExp, wanted) : Bool × Int := match l.style with
    | .exponent => (true, precision)
    | .fixed => (false, d.point + precision)
    | .general =>
      (d.point ≤ -4 || decide (d.point > (if l.pointZero then precision - 1 else precision)),
        if l.alternate then precision else len)
    | .shortest => (d.point ≤ -4 || decide (d.point > 16), len)
  let exp := d.point - 1
  let point := if useExp then 1 else d.point
  let start : Int := if point ≤ 0 then point - 1 else 0
  let stop : Int := if !useExp && l.pointZero then max wanted (point + 1) else max wanted point
  let lead : List Char := if point ≤ 0 then zeros (point - start) ++ '.' :: zeros (-point) else []
  let body : List Char :=
    if 0 < point && point ≤ len then
      d.digits.take point.toNat ++ '.' :: d.digits.drop point.toNat
    else d.digits
  let tail : List Char :=
    if len < point then zeros (point - len) ++ '.' :: zeros (stop - point) else zeros (stop - len)
  let text := lead ++ body ++ tail
  let text := if text.getLast? == some '.' && !l.alternate then text.dropLast else text
  if useExp then text ++ exponentText (if l.upper then 'E' else 'e') exp else text

/-- The text of a number under a layout, its sign included. -/
def render (x : Binary64) (l : FloatLayout) : String :=
  if x.isNaN then if l.upper then "NAN" else "nan"
  else if x.isInfinite then
    (if x.negative then "-" else "") ++ (if l.upper then "INF" else "inf")
  else
    let (d, precision) : DecimalDigits × Int := match l.style with
      | .exponent => (x.significantDigits (l.precision + 1), l.precision + 1)
      | .fixed => (x.fixedDigits l.precision, l.precision)
      | .general => (x.significantDigits (max l.precision 1), max l.precision 1)
      | .shortest => (x.shortestDecimal, 0)
    let roundsToZero := d.digits.all (· == '0')
    let minus := x.negative && !(l.positiveZero && roundsToZero)
    String.ofList ((if minus then ['-'] else []) ++ layoutDigits d l precision)

/-- The number times one hundred, rounded to nearest. -/
def timesHundred (x : Binary64) : Binary64 :=
  if !x.isFinite || x.isZero then x
  else
    let (m, q) := x.toParts
    ofRatio x.negative (100 * m * Nat.pow 2 q.toNat) (Nat.pow 2 (-q).toNat)

end Binary64

end TorrentPrune.Number
