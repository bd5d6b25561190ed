import TorrentPrune.Cli.Usage
import TorrentPrune.Text.Digits
import TorrentPrune.Text.Quoted

/-!
# Reading a command line

Each argument is first classified. `--` ends the options: it is a marker and everything after it
is plain. An argument that starts with `-` is an option when it is one of the grammar's names, a
name followed by `=value`, or an abbreviation: the start of exactly one long name (`--min-d`), or
a one-letter name with its value run on (`-hx`). An abbreviation of several names is an error. A
negative number, a text with a blank, or a lone `-` is plain; any other dash text is an unknown
option, which is set aside as unrecognized.

Then the arguments are consumed from left to right: plain runs fill as many operands as they can
(a single operand takes one argument, a command all the rest), each option takes its value, and
options act in order, so that help, or the first value that does not read, stops the parse.
Operands left unfilled at the end are an error, and so are arguments nothing took.

Source: `src/src/dircomp/interface/cli/args.py:20–164`.
-/

namespace TorrentPrune.Cli

open TorrentPrune.Json

/-- Why a parse stopped: help was asked for, or the arguments were wrong. Either way, the
grammar that stopped speaks. -/
inductive Stop where
  | help (g : Grammar)
  | usage (g : Grammar) (message : String)
  deriving Inhabited

/-- A value written in the same argument as its option: after `=`, or run on after a one-letter
name. -/
structure Attached where
  viaEquals : Bool
  text : String
  deriving Inhabited

/-- How one argument reads. -/
inductive Token where
  | plain
  | marker
  | option (found : Option OptionSpec) (name : String) (attached : Option Attached)
  deriving Inhabited

/-- Whether a token is a plain argument. -/
def Token.isPlain : Token → Bool
  | .plain => true
  | _ => false

/-- Whether a token is the end-of-options marker. -/
def Token.isMarker : Token → Bool
  | .marker => true
  | _ => false

/-- Whether a token is an option. -/
def Token.isOption : Token → Bool
  | .option _ _ _ => true
  | _ => false

/-- Whether a text is a negative number: `-` and digits, possibly with a fraction, possibly
before one final newline. Digits of any script count. -/
def looksNegative (s : String) : Bool :=
  match s.toList with
  | '-' :: rest =>
    let rest := if rest.getLast? == some '\n' then rest.dropLast else rest
    let isDigit (c : Char) : Bool := (Text.decimalValue? c).isSome
    let whole := rest.takeWhile isDigit
    (!rest.isEmpty && rest.all isDigit) ||
      match rest.drop whole.length with
      | '.' :: fraction => !fraction.isEmpty && fraction.all isDigit
      | _ => false
  | _ => false

/-- Split a text at its first `c`: the part before, and the part after if there is one. -/
def partitionAt (c : Char) (s : String) : String × Option String :=
  let cs := s.toList
  let before := cs.takeWhile (· != c)
  match cs.drop before.length with
  | [] => (s, none)
  | _ :: after => (String.ofList before, some (String.ofList after))

/-- Whether some name of the grammar is itself a negative number. -/
def Grammar.hasNegativeNames (g : Grammar) : Bool :=
  g.optionNames.any fun e ↦ looksNegative e.1

/-- The options an argument may abbreviate: a long argument (`--x`, `--x=v`) abbreviates each name
it starts; a short one (`-xv`) is the one-letter name `-x` with `v` run on, or abbreviates each
name it starts. -/
def Grammar.abbreviated (g : Grammar) (arg : String) :
    List (OptionSpec × String × Option Attached) :=
  match arg.toList with
  | '-' :: '-' :: _ =>
    let (stem, value) := partitionAt '=' arg
    let attached := value.map fun v ↦ (⟨true, v⟩ : Attached)
    g.optionNames.filterMap fun (n, o) ↦
      if n.startsWith stem then some (o, n, attached) else none
  | '-' :: c :: rest =>
    let short := String.ofList ['-', c]
    g.optionNames.filterMap fun (n, o) ↦
      if n == short then some (o, n, some ⟨false, String.ofList rest⟩)
      else if n.startsWith arg then some (o, n, none)
      else none
  | _ => []

/-- The message for an argument that abbreviates several options. -/
def ambiguityMessage (arg : String) (names : List String) : String :=
  let listed := ", ".intercalate names
  s!"ambiguous option: {arg} could match {listed}"

/-- Classify one argument that is not `--`. -/
def Grammar.classify (g : Grammar) (arg : String) : Except Stop Token :=
  match arg.toList with
  | [] => .ok .plain
  | c :: rest =>
    if c != '-' then .ok .plain
    else match g.findOption arg with
    | some o => .ok (.option (some o) arg none)
    | none =>
      if rest.isEmpty then .ok .plain
      else
        let (stem, value) := partitionAt '=' arg
        match value, g.findOption stem with
        | some v, some o => .ok (.option (some o) stem (some ⟨true, v⟩))
        | _, _ =>
          match g.abbreviated arg with
          | [(o, n, attached)] => .ok (.option (some o) n attached)
          | [] =>
            if looksNegative arg && !g.hasNegativeNames then .ok .plain
            else if arg.contains ' ' then .ok .plain
            else .ok (.option none arg none)
          | found => .error (.usage g (ambiguityMessage arg (found.map fun f ↦ f.2.1)))

/-- Classify the arguments, in order; the first `--` is a marker and all after it is plain. -/
def Grammar.tokenize (g : Grammar) : List String → Except Stop (List Token)
  | [] => .ok []
  | a :: rest =>
    if a == "--" then .ok (.marker :: rest.map fun _ ↦ .plain)
    else do
      let t ← g.classify a
      let ts ← g.tokenize rest
      pure (t :: ts)

/-- One element of the pattern an operand matches: one token, or a run of tokens, of a kind. -/
inductive Element where
  | one (fits : Token → Bool)
  | many (fits : Token → Bool)

/-- The pattern of an operand: a single operand is one plain argument with markers around it; a
command is a plain argument and everything after it. -/
def OperandSpec.pattern (a : OperandSpec) : List Element :=
  match a.kind with
  | .single => [.many Token.isMarker, .one Token.isPlain, .many Token.isMarker]
  | .command _ => [.many Token.isMarker, .one Token.isPlain, .many fun _ ↦ true]

/-- Match elements at the front of `ts`, runs taking as much as they can and giving back as
needed, and pass what is left to `k`. -/
def matchElements (k : List Token → Option (List Nat)) : List Element → List Token → Option (List Nat)
  | [], ts => k ts
  | .one fits :: es, t :: ts => if fits t then matchElements k es ts else none
  | .one _ :: _, [] => none
  | .many fits :: es, ts =>
    let longest := (ts.takeWhile fits).length
    (List.range (longest + 1)).reverse.findSome? fun j ↦ matchElements k es (ts.drop j)

/-- Match patterns one after another at the front of `ts`: how many tokens each takes. -/
def matchPatterns : List (List Element) → List Token → Option (List Nat)
  | [], _ => some []
  | p :: ps, ts =>
    matchElements (fun rest ↦ (matchPatterns ps rest).map ((ts.length - rest.length) :: ·)) p ts

/-- How many tokens each of the first operands takes: as many operands as can match, in
order. -/
def matchOperands (operands : List OperandSpec) (ts : List Token) : List Nat :=
  ((List.range operands.length).reverse.findSome? fun i ↦
    matchPatterns ((operands.take (i + 1)).map OperandSpec.pattern) ts).getD []

/-- The state of a parse: values so far, operands still to fill, arguments nothing took, and
arguments a command did not recognize. -/
structure Progress where
  collected : Collected
  pending : List OperandSpec
  extras : List String
  unrecognized : List String
  deriving Inhabited

/-- Set a destination. -/
def Progress.set (p : Progress) (dest : String) (v : Value) : Progress :=
  { p with collected := setMember p.collected dest v }

/-- A command's own parse: its values and what it did not recognize. -/
abbrev CommandParse := String → List String → Except Stop (Collected × List String)

/-- The error about one option. -/
def Grammar.optionError (g : Grammar) (o : OptionSpec) (message : String) : Stop :=
  .usage g s!"argument {o.title}: {message}"

/-- The error about one operand. -/
def Grammar.operandError (g : Grammar) (a : OperandSpec) (message : String) : Stop :=
  .usage g s!"argument {a.metavar}: {message}"

/-- Act on an option with its arguments. -/
def Grammar.applyOption (g : Grammar) (p : Progress) (o : OptionSpec) (args : List String) :
    Except Stop Progress :=
  match o.effect with
  | .showHelp => .error (.help g)
  | .setFlag d => .ok (p.set d (.bool true))
  | .store d reading =>
    match args with
    | [a] =>
      match reading.read a with
      | some v => .ok (p.set d v)
      | none =>
        let shown := Text.quote a
        .error (g.optionError o s!"invalid {reading.name} value: {shown}")
    | _ => .ok (p.set d (.array (args.map .str)))

/-- Fill an operand with its arguments; a command runs its own parse on the rest. -/
def Grammar.applyOperand (g : Grammar) (sub : CommandParse) (p : Progress) (a : OperandSpec)
    (args : List String) : Except Stop Progress :=
  match a.kind with
  | .single =>
    let args := args.erase "--"
    .ok (p.set a.dest (match args with
      | [x] => .str x
      | xs => .array (xs.map .str)))
  | .command choices =>
    match args with
    | [] => .ok p
    | name :: rest =>
      if choices.any (·.1 == name) then do
        let p := p.set a.dest (.str name)
        let (values, unknown) ← sub name rest
        let p := values.foldl (fun p (d, v) ↦ p.set d v) p
        pure { p with unrecognized := p.unrecognized ++ unknown }
      else
        let shown := Text.quote name
        let listed := ", ".intercalate (choices.map fun c ↦ Text.quote c.1)
        .error (g.operandError a s!"invalid choice: {shown} (choose from {listed})")

/-- Fill as many pending operands as the tokens from `start` allow; the index after them. -/
def Grammar.consumeOperands (g : Grammar) (sub : CommandParse) (args : List String)
    (tokens : List Token) (start : Nat) (p : Progress) : Except Stop (Progress × Nat) := do
  let counts := matchOperands p.pending (tokens.drop start)
  let filled := p.pending.zip counts
  let p := { p with pending := p.pending.drop counts.length }
  filled.foldlM (fun (acc : Progress × Nat) (a, n) ↦ do
      let (p, pos) := acc
      let p ← g.applyOperand sub p a ((args.drop pos).take n)
      pure (p, pos + n))
    (p, start)

/-- The actions an option at `index` calls for, arguments nothing took, and the index after it.
Run-on text after a one-letter flag names further one-letter options. -/
def Grammar.optionActions (g : Grammar) (args : List String) (tokens : List Token) (index : Nat) :
    Nat → OptionSpec → String → Option Attached →
      Except Stop (List (OptionSpec × List String) × List String × Nat)
  | 0, _, _, _ => .ok ([], [], index + 1)
  | fuel + 1, o, name, some att =>
    let shown := Text.quote att.text
    let ignored : Stop := g.optionError o s!"ignored explicit argument {shown}"
    if !o.takesValue && name.toList[1]? != some '-' && !att.text.isEmpty then
      if att.viaEquals || att.text.front == '-' then .error ignored
      else
        let next := String.ofList ['-', att.text.front]
        match g.findOption next with
        | some o' =>
          let rest := (att.text.drop 1).toString
          let att' : Option Attached :=
            if rest.isEmpty then none
            else if rest.front == '=' then some ⟨true, (rest.drop 1).toString⟩
            else some ⟨false, rest⟩
          match g.optionActions args tokens index fuel o' next att' with
          | .ok (acts, unknown, stop) => .ok ((o, []) :: acts, unknown, stop)
          | .error e => .error e
        | none => .ok ([(o, [])], ["-" ++ att.text], index + 1)
    else if o.takesValue then .ok ([(o, [att.text])], [], index + 1)
    else .error ignored
  | _ + 1, o, _, none =>
    if o.takesValue then
      match tokens[index + 1]?, args[index + 1]? with
      | some .plain, some a => .ok ([(o, [a])], [], index + 2)
      | _, _ => .error (g.optionError o "expected one argument")
    else .ok ([(o, [])], [], index + 1)

/-- Consume the option at `index`: an unknown option is set aside; a known one takes its value
and acts. -/
def Grammar.consumeOption (g : Grammar) (args : List String) (tokens : List Token) (index : Nat)
    (p : Progress) : Except Stop (Progress × Nat) := do
  match tokens[index]?, args[index]? with
  | some (.option (some o) name attached), _ =>
    let fuel := (attached.map fun a ↦ a.text.length).getD 0 + 1
    let (actions, unknown, stop) ← g.optionActions args tokens index fuel o name attached
    let p := { p with extras := p.extras ++ unknown }
    let p ← actions.foldlM (fun p (o, vals) ↦ g.applyOption p o vals) p
    pure (p, stop)
  | _, some a => pure ({ p with extras := p.extras ++ [a] }, index + 1)
  | _, none => pure (p, index + 1)

/-- The index of the first option at or after `start`. -/
def nextOption (tokens : List Token) (start : Nat) : Option Nat :=
  ((tokens.drop start).findIdx? Token.isOption).map (start + ·)

/-- Consume operands and options alternately from `start`; `fuel` bounds the steps by the
number of arguments. -/
def Grammar.consumeFrom (g : Grammar) (sub : CommandParse) (args : List String)
    (tokens : List Token) : Nat → Nat → Progress → Except Stop Progress
  | 0, _, p => .ok p
  | fuel + 1, start, p =>
    match nextOption tokens start with
    | none => do
      let (p, stop) ← g.consumeOperands sub args tokens start p
      pure { p with extras := p.extras ++ args.drop stop }
    | some next => do
      if start != next then
        let (p, stop) ← g.consumeOperands sub args tokens start p
        if start < stop then g.consumeFrom sub args tokens fuel stop p
        else
          -- a plain run that no operand takes
          let p := { p with extras := p.extras ++ (args.drop start).take (next - start) }
          let (p, stop) ← g.consumeOption args tokens next p
          g.consumeFrom sub args tokens fuel stop p
      else
        let (p, stop) ← g.consumeOption args tokens next p
        g.consumeFrom sub args tokens fuel stop p

/-- The message for operands left unfilled. -/
def requiredMessage (missing : List OperandSpec) : String :=
  "the following arguments are required: " ++ ", ".intercalate (missing.map (·.metavar))

/-- Parse, keeping what was not recognized: the values and the unrecognized arguments. -/
def Grammar.parseKnown (g : Grammar) (sub : CommandParse) (args : List String) :
    Except Stop (Collected × List String) := do
  let tokens ← g.tokenize args
  let p ← g.consumeFrom sub args tokens (args.length + 1) 0 ⟨g.defaults, g.operands, [], []⟩
  if !p.pending.isEmpty then throw (.usage g (requiredMessage p.pending))
  pure (p.collected, p.extras ++ p.unrecognized)

/-- Parse; arguments nothing recognized are an error. -/
def Grammar.parse (g : Grammar) (sub : CommandParse) (args : List String) :
    Except Stop Collected := do
  let (values, unknown) ← g.parseKnown sub args
  if !unknown.isEmpty then
    throw (.usage g ("unrecognized arguments: " ++ " ".intercalate unknown))
  pure values

/-- A program: a main grammar whose command operand picks one of the command grammars. -/
structure Program where
  main : Grammar
  commands : List (String × Grammar)
  deriving Inhabited

/-- Parse a command line of a program. -/
def Program.parse (prog : Program) (args : List String) : Except Stop Collected :=
  prog.main.parse (fun name rest ↦
    match prog.commands.lookup name with
    | some g => g.parseKnown (fun _ _ ↦ .ok ([], [])) rest
    | none =>
      let shown := Text.quote name
      let listed := ", ".intercalate (prog.commands.map (·.1))
      let title := (prog.main.operands.headD default).metavar
      .error (.usage prog.main s!"argument {title}: unknown parser {shown} (choices: {listed})"))
    args

/-- What a stopped parse prints, on standard output and on standard error, and its exit
status. -/
def Stop.report : Stop → String × String × Nat
  | .help g => (g.help, "", 0)
  | .usage g message => ("", g.usage ++ g.prog ++ ": error: " ++ message ++ "\n", 2)

end TorrentPrune.Cli
