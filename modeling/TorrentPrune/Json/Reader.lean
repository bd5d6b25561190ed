import TorrentPrune.Json.Value
import TorrentPrune.Number.DigitLimit
import TorrentPrune.Text.Utf8

/-!
# Reading JSON text

A strict JSON reader that also accepts the constants `NaN`, `Infinity` and `-Infinity`. Numbers
with a fraction or an exponent are floats, rounded to the nearest binary64 number; all others are
integers of any size (up to the digit limit). A member name that appears twice keeps its first
place and its last value. A `\u` escape of a surrogate without its partner reads as the byte it
holds for the escapes U+DC80 to U+DCFF, and as U+FFFD otherwise.

Errors name what was expected or found, with its character offset and the line and column there.
Containers are kept on an explicit stack, so each step consumes at least one character and
reading ends on every input.

Source: `src/src/dircomp/domain/config.py:64–93`.
-/

namespace TorrentPrune.Json

open TorrentPrune.Number

/-- JSON whitespace: space, tab, line feed and carriage return. -/
def isBlank (c : Char) : Bool := c == ' ' || c == '\t' || c == '\n' || c == '\r'

/-- An ASCII decimal digit. -/
def isDigitChar (c : Char) : Bool := '0' ≤ c && c ≤ '9'

/-- Why reading stopped: a syntax error at a character offset, or integer text beyond the digit
limit. -/
inductive Fault where
  | syntaxError (what : String) (pos : Nat)
  | tooManyDigits (count : Nat)
  deriving Inhabited

/-- The line and the column (both counted from 1) of the character at offset `pos`. -/
def lineColumn (doc : List Char) (pos : Nat) : Nat × Nat :=
  let before := doc.take pos
  let line := before.count '\n' + 1
  let column := match before.reverse.findIdx? (· == '\n') with
    | none => pos + 1
    | some i => i + 1
  (line, column)

/-- The message of a fault met while reading `doc`. -/
def Fault.message (doc : List Char) : Fault → String
  | .syntaxError what pos =>
    let (line, column) := lineColumn doc pos
    s!"{what}: line {line} column {column} (char {pos})"
  | .tooManyDigits count => digitLimitMessage count

/-- The value of a hexadecimal digit. -/
def hexValue (c : Char) : Option Nat :=
  if '0' ≤ c && c ≤ '9' then some (c.toNat - 48)
  else if 'a' ≤ c && c ≤ 'f' then some (c.toNat - 87)
  else if 'A' ≤ c && c ≤ 'F' then some (c.toNat - 55)
  else none

/-- The number written by four hexadecimal digits. -/
def hex4 (cs : List Char) : Option Nat :=
  if cs.length = 4 then
    cs.foldl (fun acc c ↦ acc.bind fun n ↦ (hexValue c).map fun d ↦ 16 * n + d) (some 0)
  else none

/-- The character of an escape that names one: quote, backslash, slash, b, f, n, r, t. -/
def simpleEscape (c : Char) : Option Char :=
  if c == '"' then some '"'
  else if c == '\\' then some '\\'
  else if c == '/' then some '/'
  else if c == 'b' then some (Char.ofNat 8)
  else if c == 'f' then some (Char.ofNat 12)
  else if c == 'n' then some '\n'
  else if c == 'r' then some '\r'
  else if c == 't' then some '\t'
  else none

/-- The replacement character, which stands for a surrogate that has no partner. -/
def replacementChar : Char := Char.ofNat 0xFFFD

/-- The character read for a surrogate that has no partner: the escapes U+DC80 to U+DCFF hold the
bytes 0x80 to 0xFF, the others are replaced. -/
def loneSurrogateChar (code : Nat) : Char :=
  if 0xDC80 ≤ code && code ≤ 0xDCFF then TorrentPrune.Text.heldByte (code - 0xDC00).toUInt8
  else replacementChar

/-- A code unit in the high-surrogate range. -/
def isHighSurrogate (n : Nat) : Bool := 0xD800 ≤ n && n ≤ 0xDBFF

/-- A code unit in the low-surrogate range. -/
def isLowSurrogate (n : Nat) : Bool := 0xDC00 ≤ n && n ≤ 0xDFFF

/-- Read the rest of a string whose opening quote stands at `start`; `pos` is the offset of the
next character and `used` counts the characters taken so far. Gives the text and the number of
characters taken after the opening quote, the closing quote included. -/
def scanString (start pos used : Nat) (acc : List Char) :
    List Char → Except Fault (String × Nat)
  | [] => .error (.syntaxError "Unterminated string starting at" start)
  | c :: rest =>
    if c == '"' then .ok (String.ofList acc.reverse, used + 1)
    else if c == '\\' then
      match rest with
      | [] => .error (.syntaxError "Unterminated string starting at" start)
      | e :: after =>
        if e == 'u' then
          if after.length ≤ 4 then .error (.syntaxError "Invalid \\uXXXX escape" (pos + 1))
          else
            match hex4 (after.take 4) with
            | none => .error (.syntaxError "Invalid \\uXXXX escape" (pos + 1))
            | some code =>
              let tail := after.drop 4
              if isHighSurrogate code && 6 < tail.length && tail.take 2 == ['\\', 'u'] then
                match hex4 ((tail.drop 2).take 4) with
                | none => .error (.syntaxError "Invalid \\uXXXX escape" (pos + 7))
                | some low =>
                  if isLowSurrogate low then
                    let joined := Char.ofNat (0x10000 + (code - 0xD800) * 0x400 + (low - 0xDC00))
                    scanString start (pos + 12) (used + 12) (joined :: acc) (tail.drop 6)
                  else scanString start (pos + 6) (used + 6) (loneSurrogateChar code :: acc) tail
              else
                let ch := if isHighSurrogate code || isLowSurrogate code then loneSurrogateChar code
                  else Char.ofNat code
                scanString start (pos + 6) (used + 6) (ch :: acc) tail
        else
          match simpleEscape e with
          | some d => scanString start (pos + 2) (used + 2) (d :: acc) after
          | none => .error (.syntaxError "Invalid \\escape" pos)
    else if c.toNat < 0x20 then .error (.syntaxError "Invalid control character at" pos)
    else scanString start (pos + 1) (used + 1) (c :: acc) rest
termination_by cs => cs.length
decreasing_by all_goals simp_all only [List.length_drop, List.length_cons]; omega

/-- The number written by ASCII decimal digits. -/
def digitsNat (ds : List Char) : Nat :=
  ds.foldl (fun acc d ↦ acc * 10 + (d.toNat - 48)) 0

/-- Split off the longest prefix of decimal digits. -/
def spanDigits (cs : List Char) : List Char × List Char :=
  (cs.takeWhile isDigitChar, cs.dropWhile isDigitChar)

/-- Split off a leading minus sign. -/
def splitSign : List Char → Bool × List Char
  | '-' :: r => (true, r)
  | r => (false, r)

/-- The integer digits that start with the digit `d`, followed by `r`: `0` alone, or `d` and the
digits after it. -/
def intPart (d : Char) (r : List Char) : List Char × List Char :=
  if d == '0' then (['0'], r) else let (ds, rest) := spanDigits r; (d :: ds, rest)

/-- A fraction: a point and at least one digit; nothing when the point has no digit after it. -/
def fractionPart (cs : List Char) : List Char × List Char :=
  match cs with
  | '.' :: f :: r2 =>
    if isDigitChar f then let (ds, rest) := spanDigits r2; (f :: ds, rest)
    else ([], cs)
  | _ => ([], cs)

/-- An exponent: `e` or `E`, an optional sign and at least one digit; its sign, its digits and the
rest, or nothing when it is incomplete. -/
def exponentPart (cs : List Char) : Option (Bool × List Char × List Char) :=
  match cs with
  | e :: r3 =>
    if (e == 'e' || e == 'E') && !r3.isEmpty then
      let (expNegative, r4) := match r3 with
        | s :: r5 => if (s == '-' || s == '+') && !r5.isEmpty then (s == '-', r5)
          else (false, r3)
        | [] => (false, r3)
      let (expDigits, afterExp) := spanDigits r4
      if expDigits.isEmpty then none else some (expNegative, expDigits, afterExp)
    else none
  | [] => none

/-- Read a number at the front of `input`, which starts at `start`: an optional minus, `0` or a
digit string without leading zero, then a fraction (a point and at least one digit) and an
exponent (`e` or `E`, an optional sign, at least one digit), each taken only when complete.
Gives the value and the number of characters taken. -/
def scanNumber (start : Nat) (input : List Char) : Except Fault (Value × Nat) :=
  let expecting : Except Fault (Value × Nat) := .error (.syntaxError "Expecting value" start)
  let (negative, body) := splitSign input
  match body with
  | [] => expecting
  | d :: r =>
    if !isDigitChar d then expecting
    else
      let (intDigits, afterInt) := intPart d r
      let (fracDigits, afterFrac) := fractionPart afterInt
      let exponent := exponentPart afterFrac
      let rest := match exponent with
        | some (_, _, afterExp) => afterExp
        | none => afterFrac
      let used := input.length - rest.length
      match exponent, fracDigits with
      | none, [] =>
        if digitLimit < intDigits.length then .error (.tooManyDigits intDigits.length)
        else
          let magnitude : Int := digitsNat intDigits
          .ok (.int (if negative then -magnitude else magnitude), used)
      | _, _ =>
        let shift : Int := match exponent with
          | some (expNegative, expDigits, _) =>
            if expNegative then -(digitsNat expDigits : Int) else digitsNat expDigits
          | none => 0
        let exp10 := shift - fracDigits.length
        .ok (.float (Binary64.ofDecimal negative (digitsNat (intDigits ++ fracDigits)) exp10), used)

/-- The start of a value: a complete scalar with the number of characters it takes after its
first one, or an opening bracket. -/
inductive Start where
  | scalar (v : Value) (used : Nat)
  | openArray
  | openObject

/-- Whether `word` stands at the front of `cs`. -/
def startsWith (cs word : List Char) : Bool := cs.take word.length == word

/-- Begin a value at the character `c`, offset `pos`, followed by `cs`. -/
def startValue (pos : Nat) (c : Char) (cs : List Char) : Except Fault Start :=
  let input := c :: cs
  if c == '[' then .ok .openArray
  else if c == '{' then .ok .openObject
  else if c == '"' then (scanString pos (pos + 1) 0 [] cs).map fun (s, k) ↦ .scalar (.str s) k
  else if startsWith input "null".toList then .ok (.scalar .null 3)
  else if startsWith input "true".toList then .ok (.scalar (.bool true) 3)
  else if startsWith input "false".toList then .ok (.scalar (.bool false) 4)
  else if startsWith input "NaN".toList then .ok (.scalar (.float Binary64.nan) 2)
  else if startsWith input "Infinity".toList then .ok (.scalar (.float (Binary64.infinity false)) 7)
  else if startsWith input "-Infinity".toList then
    .ok (.scalar (.float (Binary64.infinity true)) 8)
  else (scanNumber pos input).map fun (v, k) ↦ .scalar v (k - 1)

/-- An open container while reading. -/
inductive Open where
  /-- An array and its items so far, the latest first. -/
  | array (items : List Value)
  /-- An object, its members so far, and the name whose value is being read. -/
  | object (members : List (String × Value)) (pending : Option String)

/-- What the reader expects next. -/
inductive Expect where
  /-- A value. -/
  | value
  /-- Just after `[`: a closing bracket or a first value. -/
  | itemOrClose
  /-- Just after the opening brace: a closing brace or a first member name. -/
  | nameOrClose
  /-- A member name, after a comma. -/
  | name
  /-- After a value inside a container: a comma or the closing bracket. -/
  | commaOrClose

/-- How reading goes on after a step. -/
inductive Next where
  | done (v : Value)
  | more (stack : List Open) (expect : Expect)

/-- Hand a finished value to the container on top of the stack. -/
def deliver (v : Value) : List Open → Next
  | [] => .done v
  | .array items :: rest => .more (.array (v :: items) :: rest) .commaOrClose
  | .object members (some n) :: rest => .more (.object (setMember members n v) none :: rest) .commaOrClose
  | .object members none :: rest => .more (.object members none :: rest) .commaOrClose

/-- Close the container on top of the stack. -/
def closeTop : List Open → Next
  | [] => .done .null
  | .array items :: rest => deliver (.array items.reverse) rest
  | .object members _ :: rest => deliver (.object members) rest

/-- Begin a value at `c`: the next state and the characters of `cs` taken. -/
def beginValue (stack : List Open) (pos : Nat) (c : Char) (cs : List Char) :
    Except Fault (Next × Nat) :=
  match startValue pos c cs with
  | .error e => .error e
  | .ok .openArray => .ok (.more (.array [] :: stack) .itemOrClose, 0)
  | .ok .openObject => .ok (.more (.object [] none :: stack) .nameOrClose, 0)
  | .ok (.scalar v k) => .ok (deliver v stack, k)

/-- Begin a member at `c`: its quoted name, blanks, and the colon. -/
def beginMember (stack : List Open) (pos : Nat) (c : Char) (cs : List Char) :
    Except Fault (Next × Nat) :=
  if c != '"' then
    .error (.syntaxError "Expecting property name enclosed in double quotes" pos)
  else
    match scanString pos (pos + 1) 0 [] cs with
    | .error e => .error e
    | .ok (name, k) =>
      let afterName := cs.drop k
      let rest := afterName.dropWhile isBlank
      let colonPos := pos + 1 + k + (afterName.length - rest.length)
      match rest with
      | ':' :: _ =>
        let stack := match stack with
          | .object members _ :: below => .object members (some name) :: below
          | other => other
        .ok (.more stack .value, cs.length - rest.length + 1)
      | _ => .error (.syntaxError "Expecting ':' delimiter" colonPos)

/-- One step at the character `c`, offset `pos`, followed by `cs`. -/
def stepAt (stack : List Open) (expect : Expect) (pos : Nat) (c : Char) (cs : List Char) :
    Except Fault (Next × Nat) :=
  match expect with
  | .value => beginValue stack pos c cs
  | .itemOrClose => if c == ']' then .ok (closeTop stack, 0) else beginValue stack pos c cs
  | .nameOrClose => if c == '}' then .ok (closeTop stack, 0) else beginMember stack pos c cs
  | .name => beginMember stack pos c cs
  | .commaOrClose =>
    match stack with
    | .array _ :: _ =>
      if c == ']' then .ok (closeTop stack, 0)
      else if c == ',' then .ok (.more stack .value, 0)
      else .error (.syntaxError "Expecting ',' delimiter" pos)
    | _ =>
      if c == '}' then .ok (closeTop stack, 0)
      else if c == ',' then .ok (.more stack .name, 0)
      else .error (.syntaxError "Expecting ',' delimiter" pos)

/-- What the end of the input means when `expect` is awaited. -/
def Expect.atEnd : Expect → String
  | .value | .itemOrClose => "Expecting value"
  | .nameOrClose | .name => "Expecting property name enclosed in double quotes"
  | .commaOrClose => "Expecting ',' delimiter"

/-- Dropping a prefix never lengthens a list. -/
theorem length_dropWhile_le {α : Type} (p : α → Bool) : ∀ l : List α, (l.dropWhile p).length ≤ l.length
  | [] => by simp
  | a :: l => by
    rw [List.dropWhile_cons]
    split
    · exact Nat.le_succ_of_le (length_dropWhile_le p l)
    · exact Nat.le_refl _

/-- Read from `input`, at offset `pos`: the value, the offset after it and the rest. -/
def readFrom (stack : List Open) (expect : Expect) (pos : Nat) (input : List Char) :
    Except Fault (Value × Nat × List Char) :=
  match h : input.dropWhile isBlank with
  | [] => .error (.syntaxError expect.atEnd (pos + input.length))
  | c :: cs =>
    let here := pos + (input.length - (cs.length + 1))
    match stepAt stack expect here c cs with
    | .error e => .error e
    | .ok (.done v, k) => .ok (v, here + 1 + k, cs.drop k)
    | .ok (.more st ex, k) => readFrom st ex (here + 1 + k) (cs.drop k)
termination_by input.length
decreasing_by
  have hle := length_dropWhile_le isBlank input
  rw [h] at hle
  simp only [List.length_drop, List.length_cons] at hle ⊢
  omega

/-- Read a whole document: one value with only blanks around it. A leading byte-order mark is
refused. -/
def parse (text : String) : Except Fault Value :=
  let doc := text.toList
  match doc with
  | c :: _ =>
    if c == Char.ofNat 0xFEFF then
      .error (.syntaxError "Unexpected UTF-8 BOM (decode using utf-8-sig)" 0)
    else finish doc
  | [] => finish doc
where
  /-- Read the value and require that only blanks follow it. -/
  finish (doc : List Char) : Except Fault Value :=
    match readFrom [] .value 0 doc with
    | .error e => .error e
    | .ok (v, pos, rest) =>
      let trimmed := rest.dropWhile isBlank
      if trimmed.isEmpty then .ok v
      else .error (.syntaxError "Extra data" (pos + (rest.length - trimmed.length)))

/-- Read a whole document, with the fault's message on failure. -/
def parseText (text : String) : Except String Value :=
  match parse text with
  | .ok v => .ok v
  | .error f => .error (f.message text.toList)

end TorrentPrune.Json
