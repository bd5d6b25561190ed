/-!
# Binary64 numbers

A double-precision number is kept as its IEEE 754 bit pattern: a sign bit, an 11-bit exponent
field and a 52-bit fraction. A finite number is `(-1)^sign · significand · 2^exponent` with an
integer significand below 2^53 (`toParts`). Reading an exact rational rounds to the nearest
number, a tie going to the even significand, and a magnitude of 2^1024 or more after rounding
becomes infinity (`ofRatio`) or is refused (`ofInt?`).

Source: `src/src/dircomp/core/pipeline/validator.py:124–155`.
-/

namespace TorrentPrune.Number

/-- An IEEE 754 binary64 number, as its bit pattern. Two patterns are equal as values of this
type exactly when their bits are, so zero and negative zero differ and a NaN equals itself. -/
structure Binary64 where
  bits : UInt64
  deriving BEq, Inhabited

namespace Binary64

/-- 2^52, the weight of the hidden significand bit. -/
def hiddenBit : Nat := Nat.pow 2 52

/-- The sign bit. -/
def negative (x : Binary64) : Bool := x.bits >>> 63 == 1

/-- The 11-bit exponent field. -/
def exponentField (x : Binary64) : Nat := ((x.bits >>> 52) &&& 0x7FF).toNat

/-- The 52-bit fraction field. -/
def fraction (x : Binary64) : Nat := (x.bits &&& 0xFFFFFFFFFFFFF).toNat

/-- Not a number: the exponent field is full and the fraction is not zero. -/
def isNaN (x : Binary64) : Bool := x.exponentField == 0x7FF && x.fraction != 0

/-- An infinity of either sign. -/
def isInfinite (x : Binary64) : Bool := x.exponentField == 0x7FF && x.fraction == 0

/-- Neither infinite nor NaN. -/
def isFinite (x : Binary64) : Bool := x.exponentField != 0x7FF

/-- Zero of either sign. -/
def isZero (x : Binary64) : Bool := x.exponentField == 0 && x.fraction == 0

/-- Significand and binary exponent of a finite number's magnitude: it equals
`significand · 2^exponent`. -/
def toParts (x : Binary64) : Nat × Int :=
  if x.exponentField == 0 then (x.fraction, -1074)
  else (x.fraction + hiddenBit, (x.exponentField : Int) - 1075)

/-- The number with the given sign, exponent field and fraction. -/
def ofFields (neg : Bool) (field frac : Nat) : Binary64 :=
  ⟨((if neg then 1 else 0 : UInt64) <<< 63) ||| ((field.toUInt64 &&& 0x7FF) <<< 52) |||
    (frac.toUInt64 &&& 0xFFFFFFFFFFFFF)⟩

/-- Zero with the given sign. -/
def zero (neg : Bool) : Binary64 := ofFields neg 0 0

/-- Infinity with the given sign. -/
def infinity (neg : Bool) : Binary64 := ofFields neg 0x7FF 0

/-- The quiet NaN. -/
def nan : Binary64 := ofFields false 0x7FF (Nat.pow 2 51)

/-- Opposite sign, same magnitude. -/
def neg (x : Binary64) : Binary64 := ⟨x.bits ^^^ 0x8000000000000000⟩

/-- `a / b` rounded to the nearest integer, a tie going to the even one. -/
def roundHalfEven (a b : Nat) : Nat :=
  let q := a / b
  let r := a % b
  if 2 * r < b then q
  else if b < 2 * r then q + 1
  else if q % 2 == 0 then q else q + 1

/-- Whether `num / den ≥ 2^e`. -/
def atLeastPow2 (num den : Nat) (e : Int) : Bool :=
  if 0 ≤ e then den * Nat.pow 2 e.toNat ≤ num else den ≤ num * Nat.pow 2 (-e).toNat

/-- The exponent `e` with `2^e ≤ num / den < 2^(e+1)`, for positive `num` and `den`. -/
def floorLog2 (num den : Nat) : Int :=
  let guess : Int := (Nat.log2 num : Int) - Nat.log2 den
  -- the ratio lies in [2^(guess-1), 2^(guess+1))
  if atLeastPow2 num den guess then guess else guess - 1

/-- The significand and exponent of the nearest number to `num / den` (positive), before any
check for overflow: the exponent is at least -1074 and, above the subnormal range, the
significand has 53 bits. -/
def roundRatio (num den : Nat) : Nat × Int :=
  let q := max (floorLog2 num den - 52) (-1074)
  let m := if 0 ≤ q then roundHalfEven num (den * Nat.pow 2 q.toNat)
    else roundHalfEven (num * Nat.pow 2 (-q).toNat) den
  -- rounding up may carry into a 54th bit
  if m = Nat.pow 2 53 then (Nat.pow 2 52, q + 1) else (m, q)

/-- The nearest number to `num / den` with the given sign: infinity beyond the largest finite
number, zero of that sign for a zero numerator. -/
def ofRatio (neg : Bool) (num den : Nat) : Binary64 :=
  if num = 0 then zero neg
  else
    let (m, q) := roundRatio num den
    if 971 < q then infinity neg
    else if m < hiddenBit then ofFields neg 0 m
    else ofFields neg (q + 1075).toNat (m - hiddenBit)

/-- The nearest number to an integer, or `none` when its magnitude rounds to 2^1024 or more. -/
def ofInt? (n : Int) : Option Binary64 :=
  let x := ofRatio (n < 0) n.natAbs 1
  if x.isInfinite then none else some x

/-- The number times a natural number `k`, rounded to nearest: the binary64 product with a factor
that is exact. -/
def timesNat (k : Nat) (x : Binary64) : Binary64 :=
  if !x.isFinite || x.isZero then x
  else
    let (m, q) := x.toParts
    ofRatio x.negative (k * m * Nat.pow 2 q.toNat) (Nat.pow 2 (-q).toNat)

/-- The least natural number at or above a finite number's magnitude. -/
def ceilNat (x : Binary64) : Nat :=
  let (m, q) := x.toParts
  if 0 ≤ q then m * Nat.pow 2 q.toNat
  else (m + Nat.pow 2 (-q).toNat - 1) / Nat.pow 2 (-q).toNat

/-- The nearest number to `digits · 10^exp10`, with the given sign. Magnitudes far outside the
finite range are settled without computing their powers of ten. -/
def ofDecimal (neg : Bool) (digits : Nat) (exp10 : Int) : Binary64 :=
  if digits = 0 then zero neg
  else
    let scale := exp10 + (Nat.toDigits 10 digits).length
    if 400 < scale then infinity neg
    else if scale < -400 then zero neg
    else if 0 ≤ exp10 then ofRatio neg (digits * Nat.pow 10 exp10.toNat) 1
    else ofRatio neg digits (Nat.pow 10 (-exp10).toNat)

/-- Whether the number is greater than or equal to zero: false for NaN, true for both zeros. -/
def nonnegative (x : Binary64) : Bool := !x.isNaN && (!x.negative || x.isZero)

/-- Whether the number is greater than zero: false for NaN and for both zeros. -/
def positive (x : Binary64) : Bool := !x.isNaN && !x.negative && !x.isZero

/-- Numeric equality with a natural number: false for NaN and infinities, and both zeros equal
`0`. -/
def eqNat (x : Binary64) (n : Nat) : Bool :=
  if !x.isFinite then false
  else if x.isZero then n == 0
  else
    let (m, q) := x.toParts
    !x.negative && (if 0 ≤ q then m * Nat.pow 2 q.toNat == n else m == n * Nat.pow 2 (-q).toNat)

end Binary64

end TorrentPrune.Number
