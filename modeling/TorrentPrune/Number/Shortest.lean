import TorrentPrune.Number.Binary64

/-!
# Shortest decimal text of a binary64 number

A finite nonzero number `m · 2^q` is the rounding of every real in an interval around it: half
way to each neighbour, both ends included when `m` is even. Its shortest text is the decimal with
the fewest significant digits in that interval; of two such decimals the nearer one wins, an exact
tie going to the even last digit. For each count of digits, only the two grid points on either
side of the number can lie in the interval, so the search tests at most two candidates per count.

The text places the decimal point positionally when the point falls between 4 places before the
first digit and 16 places after it, and otherwise writes one digit, the rest after a point, and
a signed exponent of at least two digits. An integral value keeps a trailing `.0`.

Source: `src/src/dircomp/core/pipeline/validator.py:124–155`, `src/src/dircomp/domain/config.py:94–115`.
-/

namespace TorrentPrune.Number

namespace Binary64

/-- Compare `c · 10^e` with `y · 2^b`, exactly. -/
def compareScaled (c : Nat) (e : Int) (y : Nat) (b : Int) : Ordering :=
  let lhs := c * Nat.pow 10 e.toNat * Nat.pow 2 (-b).toNat
  let rhs := y * Nat.pow 2 b.toNat * Nat.pow 10 (-e).toNat
  compare lhs rhs

/-- The exponent `t` with `10^t ≤ y · 2^b < 10^(t+1)`, for positive `y`. -/
def floorLog10 (y : Nat) (b : Int) : Int :=
  -- log10 2 lies between 0.30102 and 0.30103: the estimate is off by at most one either way
  let est : Int := (((Nat.log2 y : Int) + b) * 30103).fdiv 100000
  let fix (t : Int) : Int :=
    if compareScaled 1 t y b == .gt then t - 1
    else if compareScaled 1 (t + 1) y b != .gt then t + 1
    else t
  fix (fix est)

/-- Whether `c · 10^e` lies in the interval of reals that round to `m · 2^q`. -/
def inRoundingInterval (m : Nat) (q : Int) (lowerGapHalved : Bool) (c : Nat) (e : Int) : Bool :=
  -- everything is measured in units of 2^(q-2): the number is 4m
  let low := if lowerGapHalved then 4 * m - 1 else 4 * m - 2
  let high := 4 * m + 2
  let closed := m % 2 == 0
  let aboveLow := match compareScaled c e low (q - 2) with
    | .gt => true
    | .eq => closed
    | .lt => false
  let belowHigh := match compareScaled c e high (q - 2) with
    | .lt => true
    | .eq => closed
    | .gt => false
  aboveLow && belowHigh

/-- Shortest digits of a positive number `m · 2^q`: a digit string without trailing zeros and the
exponent of its last digit. -/
def shortestDigits (m : Nat) (q : Int) (lowerGapHalved : Bool) : Nat × Int :=
  let t := floorLog10 m q
  let rec search (n : Nat) (fuel : Nat) : Nat × Int :=
    match fuel with
    | 0 => (m, q)
    | fuel + 1 =>
      let e := t - n + 1
      -- the grid point at or below the number, and the one above it
      let below := if 0 ≤ e then (m * Nat.pow 2 q.toNat) / (Nat.pow 10 e.toNat * Nat.pow 2 (-q).toNat)
        else (m * Nat.pow 2 q.toNat * Nat.pow 10 (-e).toNat) / Nat.pow 2 (-q).toNat
      let above := below + 1
      let okBelow := below != 0 && inRoundingInterval m q lowerGapHalved below e
      let okAbove := inRoundingInterval m q lowerGapHalved above e
      if okBelow && okAbove then
        -- nearer wins: compare the number with the midpoint (2·below + 1) · 10^e / 2
        match compareScaled (2 * below + 1) e (4 * m) (q - 1) with
        | .gt => (below, e)
        | .lt => (above, e)
        | .eq => if below % 2 == 0 then (below, e) else (above, e)
      else if okBelow then (below, e)
      else if okAbove then (above, e)
      else search (n + 1) fuel
  let (d, e) := search 1 17
  stripZeros d e 20
where
  /-- Remove trailing zero digits, raising the exponent. -/
  stripZeros (d : Nat) (e : Int) : Nat → Nat × Int
    | 0 => (d, e)
    | fuel + 1 => if d != 0 && d % 10 == 0 then stripZeros (d / 10) (e + 1) fuel else (d, e)

/-- Decimal text of a digit string `ds` (no trailing zero) with the point `point` places after
its first digit's position, that is with value `0.ds · 10^point`. -/
def placeDigits (ds : String) (point : Int) : String :=
  let n : Int := ds.length
  if -4 < point ∧ point ≤ 16 then
    if point ≤ 0 then "0." ++ String.ofList (List.replicate (-point).toNat '0') ++ ds
    else if n ≤ point then ds ++ String.ofList (List.replicate (point - n).toNat '0') ++ ".0"
    else
      let cs := ds.toList
      String.ofList (cs.take point.toNat) ++ "." ++ String.ofList (cs.drop point.toNat)
  else
    let cs := ds.toList
    let mantissa := match cs with
      | [] => ""
      | [c] => c.toString
      | c :: rest => c.toString ++ "." ++ String.ofList rest
    let exponent := point - 1
    let sign := if exponent < 0 then "-" else "+"
    let digits := toString exponent.natAbs
    let padded := if digits.length < 2 then "0" ++ digits else digits
    mantissa ++ "e" ++ sign ++ padded

/-- The shortest text that reads back as this number: `inf`, `-inf` and `nan` for the
non-finite ones, `0.0` and `-0.0` for the zeros. -/
def shortest (x : Binary64) : String :=
  if x.isNaN then "nan"
  else
    let sign := if x.negative then "-" else ""
    if x.isInfinite then sign ++ "inf"
    else if x.isZero then sign ++ "0.0"
    else
      let (m, q) := x.toParts
      -- at a power of two the gap below is half the gap above
      let halved := x.fraction == 0 && 1 < x.exponentField
      let (d, e) := shortestDigits m q halved
      let ds := toString d
      sign ++ placeDigits ds (e + ds.length)

end Binary64

end TorrentPrune.Number
