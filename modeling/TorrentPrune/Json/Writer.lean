import TorrentPrune.Json.Value
import TorrentPrune.Number.Shortest
import TorrentPrune.Text.Quoted

/-!
# Writing JSON text

A value is written with its members in their order. Strings escape the quote, the backslash and
the control characters (named escapes for backspace, form feed, line feed, carriage return and
tab, four hex digits for the rest); with `asciiOnly`, every character beyond ASCII is escaped as
well, by one or two UTF-16 units, and a character that holds a byte by the lone surrogate
U+DC80 to U+DCFF of that byte. Floats take their shortest text, and the non-finite ones are
written `NaN`, `Infinity` and `-Infinity`.

Without an indent, items are separated by a comma and a space and a name from its value by a
colon and a space, all on one line. With an indent of `n`, each item and member stands on a line
of its own, indented by `n` spaces per level, and separators lose their trailing space; an empty
array or object stays `[]` or the empty braces. An indented document can also be written in the
pieces a streaming encoder hands to its destination.

Source: `src/src/dircomp/domain/config.py:94–115`.
-/

namespace TorrentPrune.Json

open TorrentPrune.Number TorrentPrune.Text

/-- How a document is laid out. -/
structure Layout where
  /-- Spaces per nesting level, or one line when `none`. -/
  indent : Option Nat
  /-- Escape every character beyond ASCII. -/
  asciiOnly : Bool

/-- One line, spaces after separators, characters beyond ASCII kept. -/
def Layout.line : Layout := ⟨none, false⟩

/-- A `\u` escape of one UTF-16 unit. -/
def unitEscape (n : Nat) : String := "\\u" ++ hexPadded 4 n

/-- How one character is written inside a JSON string. -/
def escapeChar (asciiOnly : Bool) (c : Char) : String :=
  if c == '"' then "\\\""
  else if c == '\\' then "\\\\"
  else if c == '\n' then "\\n"
  else if c == '\r' then "\\r"
  else if c == '\t' then "\\t"
  else if c.toNat == 8 then "\\b"
  else if c.toNat == 12 then "\\f"
  else if c.toNat < 0x20 then unitEscape c.toNat
  else if asciiOnly && 0x7F < c.toNat then
    if let some b := byteHeld? c then unitEscape (0xDC00 + b.toNat)
    else if c.toNat < 0x10000 then unitEscape c.toNat
    else
      let v := c.toNat - 0x10000
      unitEscape (0xD800 + v / 0x400) ++ unitEscape (0xDC00 + v % 0x400)
  else c.toString

/-- A string in JSON quotes. -/
def writeString (asciiOnly : Bool) (s : String) : String :=
  "\"" ++ String.join (s.toList.map (escapeChar asciiOnly)) ++ "\""

/-- The text of a float: its shortest text, or the name of a non-finite number. -/
def writeFloat (x : Binary64) : String :=
  if x.isNaN then "NaN"
  else if x.isInfinite then (if x.negative then "-Infinity" else "Infinity")
  else x.shortest

/-- Join already written parts inside brackets, following the layout at nesting `level`. -/
def enclose (layout : Layout) (level : Nat) (openB closeB : String) (parts : List String) :
    String :=
  match parts with
  | [] => openB ++ closeB
  | _ =>
    match layout.indent with
    | none => openB ++ ", ".intercalate parts ++ closeB
    | some n =>
      let pad (k : Nat) := String.ofList (List.replicate (n * k) ' ')
      let inner := "\n" ++ pad (level + 1)
      openB ++ inner ++ ("," ++ inner).intercalate parts ++ "\n" ++ pad level ++ closeB

mutual
/-- The text of a value at nesting `level`. -/
def Value.writeAt (layout : Layout) (level : Nat) : Value → String
  | .null => "null"
  | .bool b => if b then "true" else "false"
  | .int n => toString n
  | .float x => writeFloat x
  | .str s => writeString layout.asciiOnly s
  | .array items => enclose layout level "[" "]" (writeItems layout level items)
  | .object members => enclose layout level "\x7b" "\x7d" (writeMembers layout level members)

/-- The texts of array items. -/
def writeItems (layout : Layout) (level : Nat) : List Value → List String
  | [] => []
  | v :: vs => v.writeAt layout (level + 1) :: writeItems layout level vs

/-- The texts of object members, each a quoted name, a colon and the value. -/
def writeMembers (layout : Layout) (level : Nat) : List (String × Value) → List String
  | [] => []
  | (k, v) :: ms =>
    (writeString layout.asciiOnly k ++ ": " ++ v.writeAt layout (level + 1)) ::
      writeMembers layout level ms
end

/-- The text of a document. -/
def Value.write (layout : Layout) (v : Value) : String := v.writeAt layout 0

/-! ### Writing in pieces

With an indent, a document reaches a stream in pieces, cut where a streaming encoder cuts it. A
scalar item of an array comes in one piece with the bracket or separator and line break before
it; a nested container comes after that lead as pieces of its own. In an object the opening
brace, the first line break, each separator with its line break, each name, each colon and each
scalar value are pieces of their own. The closing line break and bracket end every nonempty
container. Joined, the pieces are the document's text. -/

/-- A line break and the indent of nesting `level`, `n` spaces a level. -/
def lineBreak (n level : Nat) : String := "\n" ++ String.ofList (List.replicate (n * level) ' ')

/-- Whether a value is an array or an object. -/
def Value.isContainer : Value → Bool
  | .array _ | .object _ => true
  | _ => false

mutual
/-- The pieces of a value at nesting `level`, indented by `n` spaces a level. -/
def Value.piecesAt (n level : Nat) : Value → List String
  | .array [] => ["[]"]
  | .array (v :: vs) =>
    itemPieces n level ("[" ++ lineBreak n (level + 1)) (v :: vs) ++ [lineBreak n level, "]"]
  | .object [] => ["\x7b\x7d"]
  | .object (m :: ms) =>
    ["\x7b", lineBreak n (level + 1)] ++ memberPieces n level true (m :: ms) ++
      [lineBreak n level, "\x7d"]
  | v => [v.writeAt ⟨some n, false⟩ level]

/-- The pieces of array items, the first led by `lead`, each later one by a separator. -/
def itemPieces (n level : Nat) (lead : String) : List Value → List String
  | [] => []
  | v :: vs =>
    (if v.isContainer then lead :: v.piecesAt n (level + 1)
      else [lead ++ v.writeAt ⟨some n, false⟩ (level + 1)]) ++
      itemPieces n level ("," ++ lineBreak n (level + 1)) vs

/-- The pieces of object members, each but the `first` after a separator of its own. -/
def memberPieces (n level : Nat) (first : Bool) : List (String × Value) → List String
  | [] => []
  | (k, v) :: ms =>
    (if first then [] else ["," ++ lineBreak n (level + 1)]) ++ [writeString false k, ": "] ++
      (if v.isContainer then v.piecesAt n (level + 1)
        else [v.writeAt ⟨some n, false⟩ (level + 1)]) ++
      memberPieces n level false ms
end

end TorrentPrune.Json
