import TorrentPrune.Number.Binary64
import TorrentPrune.Number.DigitLimit
import TorrentPrune.Text.Blank
import TorrentPrune.Text.Digits

/-!
# Reading numbers from text

Number text may write its digits in any script's decimal digits, may group digits with single
underscores (each between two digits), and may have ASCII white space at either end.

An integer is an optional sign and one or more digits. A float is an optional sign and either a
decimal (digits with an optional point, or a point and digits, then an optional exponent `e` or
`E` with an optional sign and digits) or, in any case, `inf`, `infinity` or `nan`. A decimal is
rounded to the nearest binary64 number, so that a huge one reads as infinity and a tiny one as
zero of its sign.

Source: `src/src/dircomp/core/pipeline/validator.py:124–182`.
-/

namespace TorrentPrune.Number

open TorrentPrune.Text

/-- Replace decimal digits of other scripts by ASCII digits and other blanks by spaces; any other
character beyond ASCII becomes `?`, which no number holds. -/
def asciiForm (cs : List Char) : List Char :=
  cs.map fun c ↦
    if c.toNat < 128 then c
    else if isBlank c then ' '
    else match decimalValue? c with
      | some d => Char.ofNat (48 + d)
      | none => '?'

/-- An ASCII decimal digit. -/
def isAsciiDigit (c : Char) : Bool := '0' ≤ c && c ≤ '9'

/-- Remove digit-grouping underscores, each of which must stand between two digits. -/
def dropGrouping (cs : List Char) : Option (List Char) :=
  go cs '\x00' []
where
  /-- `prev` is the character before `cs`, `out` the kept characters reversed. -/
  go : List Char → Char → List Char → Option (List Char)
    | [], prev, out => if prev == '_' then none else some out.reverse
    | c :: rest, prev, out =>
      if c == '_' then (if isAsciiDigit prev then go rest c out else none)
      else if prev == '_' && !isAsciiDigit c then none
      else go rest c (c :: out)

/-- The number written by ASCII digits. -/
def asciiDigitsValue (ds : List Char) : Nat :=
  ds.foldl (fun acc d ↦ acc * 10 + (d.toNat - 48)) 0

/-- Why integer text does not read. -/
inductive IntTextError where
  | invalid
  | tooManyDigits (count : Nat)

/-- Read integer text. -/
def readIntText (s : String) : Except IntTextError Int :=
  match dropGrouping (asciiForm s.toList) with
  | none => .error .invalid
  | some cs =>
    let body := trimAsciiSpace cs
    let (negative, digits) := match body with
      | '-' :: r => (true, r)
      | '+' :: r => (false, r)
      | r => (false, r)
    if digits.isEmpty || !digits.all isAsciiDigit then .error .invalid
    else if digitLimit < digits.length then .error (.tooManyDigits digits.length)
    else
      let n : Int := asciiDigitsValue digits
      .ok (if negative then -n else n)

/-- Whether `cs` spells `word` in any case. -/
def spellsIgnoringCase (cs : List Char) (word : String) : Bool :=
  cs.map Char.toLower == word.toList

/-- Read a decimal without sign: digits, an optional fraction, an optional exponent. -/
def readDecimal (neg : Bool) (cs : List Char) : Option Binary64 :=
  let intDigits := cs.takeWhile isAsciiDigit
  let afterInt := cs.drop intDigits.length
  let (fracDigits, afterFrac) := match afterInt with
    | '.' :: r => (r.takeWhile isAsciiDigit, r.drop (r.takeWhile isAsciiDigit).length)
    | r => ([], r)
  if intDigits.isEmpty && fracDigits.isEmpty then none
  else
    let exponent : Option Int := match afterFrac with
      | [] => some 0
      | e :: r =>
        if e == 'e' || e == 'E' then
          let (expNeg, ds) := match r with
            | '-' :: d => (true, d)
            | '+' :: d => (false, d)
            | d => (false, d)
          if !ds.isEmpty && ds.all isAsciiDigit then
            let v : Int := asciiDigitsValue ds
            some (if expNeg then -v else v)
          else none
        else none
    -- a point must be followed by the end, digits or an exponent
    exponent.map fun e ↦
      Binary64.ofDecimal neg (asciiDigitsValue (intDigits ++ fracDigits)) (e - fracDigits.length)

/-- Read float text. -/
def readFloatText (s : String) : Option Binary64 :=
  match dropGrouping (asciiForm s.toList) with
  | none => none
  | some cs =>
    let body := trimAsciiSpace cs
    let (neg, rest) := match body with
      | '-' :: r => (true, r)
      | '+' :: r => (false, r)
      | r => (false, r)
    if spellsIgnoringCase rest "inf" || spellsIgnoringCase rest "infinity" then
      some (Binary64.infinity neg)
    else if spellsIgnoringCase rest "nan" then
      some (if neg then Binary64.nan.neg else Binary64.nan)
    else readDecimal neg rest

end TorrentPrune.Number
