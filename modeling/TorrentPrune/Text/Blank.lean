/-!
# Blank characters

The characters that trimming removes: the ASCII tab, line feed, vertical tab, form feed and
carriage return, the information separators U+001C to U+001F, the space, and the Unicode spaces
and line and paragraph separators (Unicode 14.0, bidirectional class WS, B or S, or category Zs).

Source: `src/src/dircomp/core/pipeline/validator.py:82–96`.
-/

namespace TorrentPrune.Text

/-- The blank code points, ascending. -/
def blankCodes : List Nat := [0x9, 0xA, 0xB, 0xC, 0xD, 0x1C, 0x1D, 0x1E, 0x1F, 0x20, 0x85, 0xA0, 0x1680, 0x2000, 0x2001, 0x2002, 0x2003, 0x2004, 0x2005, 0x2006, 0x2007, 0x2008, 0x2009, 0x200A, 0x2028, 0x2029, 0x202F, 0x205F, 0x3000]

/-- Whether a character is blank. -/
def isBlank (c : Char) : Bool := blankCodes.contains c.toNat

/-- The text without blank characters at either end. -/
def trim (s : String) : String :=
  String.ofList ((s.toList.dropWhile isBlank).reverse.dropWhile isBlank).reverse

/-- Whether a character is ASCII white space: space, tab, line feed, vertical tab, form feed or
carriage return. -/
def isAsciiSpace (c : Char) : Bool :=
  c == ' ' || c == '\t' || c == '\n' || c.toNat == 11 || c.toNat == 12 || c == '\r'

/-- The characters without ASCII white space at either end. -/
def trimAsciiSpace (cs : List Char) : List Char :=
  ((cs.dropWhile isAsciiSpace).reverse.dropWhile isAsciiSpace).reverse

end TorrentPrune.Text
