import TorrentPrune.Json.Value
import TorrentPrune.Number.Reading
import TorrentPrune.Text.Upper

/-!
# Command-line grammars

A grammar names a program, describes it, and lists its options and its operands. An option has
one or more names (`-h`, `--help`) and an effect: show the help, set a flag, or store a value read
from one argument. An operand is either a single argument or a command: a name chosen from a list,
after which every remaining argument belongs to that command's own grammar.

What a grammar collects is a list of destinations with their values, each destination starting at
its default: `False` for a flag and `None` for a value or an operand.

Source: `src/src/dircomp/interface/cli/args.py:20–127`.
-/

namespace TorrentPrune.Cli

open TorrentPrune.Json TorrentPrune.Number

/-- How an argument's text becomes a value. -/
inductive Reading where
  | text
  | integer
  | decimal
  deriving Inhabited, BEq

/-- The name of a reading, as a refused argument's message gives it. -/
def Reading.name : Reading → String
  | .text => "str"
  | .integer => "int"
  | .decimal => "float"

/-- Read an argument: text as it is, an integer as integer text, a decimal as float text. -/
def Reading.read : Reading → String → Option Value
  | .text, s => some (.str s)
  | .integer, s =>
    match readIntText s with
    | .ok n => some (.int n)
    | .error _ => none
  | .decimal, s => (readFloatText s).map .float

/-- What giving an option does. -/
inductive Effect where
  | showHelp
  | setFlag (dest : String)
  | store (dest : String) (reading : Reading)
  deriving Inhabited

/-- An option: its names, in order, what it does, and its line of help. -/
structure OptionSpec where
  names : List String
  effect : Effect
  help : String
  deriving Inhabited

/-- Whether an option takes one argument. -/
def OptionSpec.takesValue (o : OptionSpec) : Bool :=
  match o.effect with
  | .store _ _ => true
  | _ => false

/-- The destination an option sets, if any. -/
def OptionSpec.dest? (o : OptionSpec) : Option String :=
  match o.effect with
  | .showHelp => none
  | .setFlag d => some d
  | .store d _ => some d

/-- The placeholder shown for an option's argument: its destination in upper case. -/
def OptionSpec.metavar (o : OptionSpec) : String :=
  Text.upper (o.dest?.getD "")

/-- An option's name in messages: its names joined by `/`. -/
def OptionSpec.title (o : OptionSpec) : String := "/".intercalate o.names

/-- What an operand takes. -/
inductive OperandKind where
  | single
  /-- A command name from `choices` (each with its line of help), then all that follows. -/
  | command (choices : List (String × String))
  deriving Inhabited

/-- An operand: its destination, the placeholder that stands for it, what it takes, and its line
of help (empty for none). -/
structure OperandSpec where
  dest : String
  metavar : String
  kind : OperandKind
  help : String
  deriving Inhabited

/-- A grammar: the program's name as usage shows it, its description, its options and its
operands. -/
structure Grammar where
  prog : String
  description : Option String
  options : List OptionSpec
  operands : List OperandSpec
  deriving Inhabited

/-- The option strings of a grammar, each with its option, in the order they were declared. -/
def Grammar.optionNames (g : Grammar) : List (String × OptionSpec) :=
  g.options.flatMap fun o ↦ o.names.map fun n ↦ (n, o)

/-- The option a name denotes exactly. -/
def Grammar.findOption (g : Grammar) (name : String) : Option OptionSpec :=
  (g.optionNames.find? fun e ↦ e.1 == name).map Prod.snd

/-- Collected values, by destination. -/
abbrev Collected := List (String × Value)

/-- The starting values of a grammar: `False` for flags, `None` for values and operands. -/
def Grammar.defaults (g : Grammar) : Collected :=
  (g.options.filterMap fun o ↦
    match o.effect with
    | .showHelp => none
    | .setFlag d => some (d, .bool false)
    | .store d _ => some (d, .null)) ++
  g.operands.map fun a ↦ (a.dest, .null)

end TorrentPrune.Cli
