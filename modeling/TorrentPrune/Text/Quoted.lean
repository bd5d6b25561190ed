import TorrentPrune.Text.Printable
import TorrentPrune.Text.Utf8

/-!
# Quoted text

Text is quoted between apostrophes, or between double quotes when it holds an apostrophe and no
double quote. Inside the quotes the backslash and the chosen quote are escaped by a backslash;
tab, line feed and carriage return are written as the escapes t, n and r; every other character
that is not printable is written by its code point in lower-case hexadecimal, with two digits up
to U+00FF, four up to U+FFFF and eight beyond. Printable characters stand for themselves. A
character that holds a byte is written as the lone surrogate U+DC80 to U+DCFF of that byte.

Source: `src/src/dircomp/core/pipeline/validator.py:24–81`.
-/

namespace TorrentPrune.Text

/-- Lower-case hexadecimal digits of `n`, padded with zeros on the left to `width` digits. -/
def hexPadded (width n : Nat) : String :=
  let ds := Nat.toDigits 16 n
  String.ofList (List.replicate (width - ds.length) '0' ++ ds)

/-- The apostrophe, the default quote. -/
def apostrophe : Char := Char.ofNat 39

/-- How one character is written between the quotes `quote`. -/
def escapeChar (quote c : Char) : String :=
  if c = quote ∨ c = '\\' then String.ofList ['\\', c]
  else if c = '\t' then "\\t"
  else if c = '\n' then "\\n"
  else if c = '\r' then "\\r"
  else if c.toNat < 0x20 ∨ c.toNat = 0x7F then "\\x" ++ hexPadded 2 c.toNat
  else if let some b := byteHeld? c then "\\u" ++ hexPadded 4 (0xDC00 + b.toNat)
  else if c.toNat < 0x7F ∨ isPrintable c then c.toString
  else if c.toNat ≤ 0xFF then "\\x" ++ hexPadded 2 c.toNat
  else if c.toNat ≤ 0xFFFF then "\\u" ++ hexPadded 4 c.toNat
  else "\\U" ++ hexPadded 8 c.toNat

/-- The quote that encloses `s`: a double quote exactly when `s` holds an apostrophe and no
double quote. -/
def quoteFor (s : String) : Char :=
  if s.toList.contains apostrophe && !s.toList.contains '"' then '"' else apostrophe

/-- The quoted form of `s`. -/
def quote (s : String) : String :=
  let q := quoteFor s
  q.toString ++ String.join (s.toList.map (escapeChar q)) ++ q.toString

end TorrentPrune.Text
