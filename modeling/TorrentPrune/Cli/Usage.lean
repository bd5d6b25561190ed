import TorrentPrune.Cli.Grammar

/-!
# Usage and help texts

Both texts are laid out for a line of 78 columns. The usage line names the program, then each
option in brackets (`[--delay DELAY_SECONDS]`) and each operand by its placeholder; a command
operand is followed by `...`. When it does not fit, the parts are packed greedily into lines
indented under the first part after the program's name, options and operands on separate lines.

The help text is the usage, the description filled to the line, and two sections, `positional
arguments:` and `options:`, each item indented by two columns: its name, and its help starting in
a column common to all items (two past the longest name, at most column 24), or on the next line
when the name reaches that column. A command operand lists its choices below it, two columns
further in. Help is filled by words; no word of a grammar's help is longer than a line.

Source: `src/src/dircomp/interface/cli/args.py:20–127`.
-/

namespace TorrentPrune.Cli

/-- The width of a usage or help line. -/
def lineWidth : Nat := 78

/-- The column where help starts at the latest. -/
def helpColumnLimit : Nat := 24

/-- The text that opens a usage line. -/
def usagePrefix : String := "usage: "

/-- Spaces. -/
def spaces (n : Nat) : String := String.ofList (List.replicate n ' ')

/-- An option in a usage line: its first name, its placeholder if it takes a value, in
brackets. -/
def OptionSpec.usagePart (o : OptionSpec) : String :=
  let name := o.names.headD ""
  "[" ++ name ++ (if o.takesValue then " " ++ o.metavar else "") ++ "]"

/-- An operand in a usage line: its placeholder, followed by `...` for a command. -/
def OperandSpec.usageParts (a : OperandSpec) : List String :=
  match a.kind with
  | .single => [a.metavar]
  | .command _ => [a.metavar, "..."]

/-- Pack parts greedily into lines of at most `lineWidth` columns: each line but the first starts
`indent` columns in, and the first has `start` columns used before its first part. A part that
does not fit starts a new line, unless the line is still empty. -/
def packParts (indent start : Nat) (parts : List String) : List (List String) :=
  let step (acc : List (List String) × List String × Nat) (part : String) :=
    let (lines, line, used) := acc
    if lineWidth < used + 1 + part.length && !line.isEmpty then
      (lines ++ [line], [part], indent - 1 + part.length + 1)
    else (lines, line ++ [part], used + part.length + 1)
  let (lines, line, _) := parts.foldl step ([], [], start - 1)
  if line.isEmpty then lines else lines ++ [line]

/-- The usage text after its prefix, as lines. -/
def Grammar.usageLines (g : Grammar) : List String :=
  let optParts := g.options.map OptionSpec.usagePart
  let posParts := g.operands.flatMap OperandSpec.usageParts
  let whole := " ".intercalate (g.prog :: optParts ++ posParts)
  let joined (lines : List (List String)) : List String := lines.map (" ".intercalate ·)
  if usagePrefix.length + whole.length ≤ lineWidth then [whole]
  else if 4 * (usagePrefix.length + g.prog.length) ≤ 3 * lineWidth then
    let indent := usagePrefix.length + g.prog.length + 1
    let pad := spaces indent
    let padRest (ls : List String) : List String :=
      match ls with
      | first :: rest => first :: rest.map (pad ++ ·)
      | [] => []
    if !optParts.isEmpty then
      padRest (joined (packParts indent usagePrefix.length (g.prog :: optParts))) ++
        (joined (packParts indent indent posParts)).map (pad ++ ·)
    else if !posParts.isEmpty then
      padRest (joined (packParts indent usagePrefix.length (g.prog :: posParts)))
    else [g.prog]
  else
    let indent := usagePrefix.length
    let pad := spaces indent
    let packed (ps : List String) : List String :=
      (joined (packParts indent indent ps)).map (pad ++ ·)
    let together := packed (optParts ++ posParts)
    g.prog :: (if together.length ≤ 1 then together else packed optParts ++ packed posParts)

/-- The usage text, ending with a newline. -/
def Grammar.usage (g : Grammar) : String :=
  usagePrefix ++ "\n".intercalate g.usageLines ++ "\n"

/-- The words of a text, split at blanks. -/
def words (s : String) : List String :=
  let step (acc : List String × List Char) (c : Char) :=
    let (ws, cur) := acc
    if c == ' ' || c == '\n' || c == '\t' then
      (if cur.isEmpty then ws else ws ++ [String.ofList cur.reverse], [])
    else (ws, c :: cur)
  let (ws, cur) := s.toList.foldl step ([], [])
  if cur.isEmpty then ws else ws ++ [String.ofList cur.reverse]

/-- Fill a text into lines of at most `width` columns, word by word. -/
def fillWords (width : Nat) (text : String) : List String :=
  let step (acc : List String × Option String) (w : String) :=
    match acc with
    | (lines, none) => (lines, some w)
    | (lines, some line) =>
      if line.length + 1 + w.length ≤ width then (lines, some (line ++ " " ++ w))
      else (lines ++ [line], some w)
  match (words text).foldl step ([], none) with
  | (lines, some line) => lines ++ [line]
  | (lines, none) => lines

/-- How an option is named in help: each name, with the placeholder when it takes a value. -/
def OptionSpec.invocation (o : OptionSpec) : String :=
  ", ".intercalate (o.names.map fun n ↦ if o.takesValue then n ++ " " ++ o.metavar else n)

/-- The choices of a command operand, with their help. -/
def OperandSpec.choices (a : OperandSpec) : List (String × String) :=
  match a.kind with
  | .single => []
  | .command cs => cs

/-- The widest item of a grammar's help, with its indent. -/
def Grammar.widestItem (g : Grammar) : Nat :=
  let optionWidths := g.options.map fun o ↦ o.invocation.length + 2
  let operandWidths := g.operands.map fun a ↦
    ((a.choices.map fun c ↦ c.1.length).foldl max a.metavar.length) + 2
  (optionWidths ++ operandWidths).foldl max 0

/-- One item of help, `indent` columns in, with its help from column `column`. -/
def helpItem (column indent : Nat) (name help : String) : String :=
  let nameWidth := column - indent - 2
  let lines := fillWords (max (lineWidth - column) 11) help
  if help.isEmpty then spaces indent ++ name ++ "\n"
  else
    let (header, firstIndent) :=
      if name.length ≤ nameWidth then
        (spaces indent ++ name ++ spaces (nameWidth - name.length) ++ "  ", 0)
      else (spaces indent ++ name ++ "\n", column)
    match lines with
    | [] => header ++ "\n"
    | first :: rest =>
      header ++ spaces firstIndent ++ first ++ "\n" ++
        String.join (rest.map fun l ↦ spaces column ++ l ++ "\n")

/-- The help of an operand, with its choices below it. -/
def OperandSpec.helpText (column : Nat) (a : OperandSpec) : String :=
  helpItem column 2 a.metavar a.help ++
    String.join (a.choices.map fun c ↦ helpItem column 4 c.1 c.2)

/-- The help text, ending with a newline. -/
def Grammar.help (g : Grammar) : String :=
  let column := min (g.widestItem + 2) helpColumnLimit
  let description := match g.description with
    | some d => "\n".intercalate (fillWords lineWidth d) ++ "\n\n"
    | none => ""
  let operands :=
    if g.operands.isEmpty then ""
    else
      "positional arguments:\n" ++ String.join (g.operands.map (OperandSpec.helpText column)) ++
        "\n"
  let options :=
    if g.options.isEmpty then ""
    else "options:\n" ++
      String.join (g.options.map fun o ↦ helpItem column 2 o.invocation o.help)
  usagePrefix ++ "\n".intercalate g.usageLines ++ "\n\n" ++ description ++ operands ++ options

end TorrentPrune.Cli
