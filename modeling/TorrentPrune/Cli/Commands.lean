import TorrentPrune.Cli.Parse
import TorrentPrune.Catalog.Basic

/-!
# The pruning tool's command line

Two commands: `sync TORRENT DIRECTORY` prunes a directory against a torrent's file list, and
`unlock DIRECTORY` ends the processes that hold files open under a directory. Both take the
shared options: the depth guard's minimum (`--min-depth`), the time locking processes get
(`--timeout`), whether to start from the defaults or save the settings, the run log
(`--log-file`, `--no-log-file`), `--debug` and `--json`. `sync` adds `--dry-run`, `--delay` and
`--unlock` (release locks first).

An invocation turns into settings overrides: only what was given overrides a setting, so that
saved settings hold for everything else. `--debug` sets the log level, and an empty log file
overrides nothing.

Source: `src/src/dircomp/interface/cli/args.py:20–127`.
-/

namespace TorrentPrune.Cli

open TorrentPrune.Json TorrentPrune.Number TorrentPrune.Catalog

/-- The name of the tool. -/
def toolName : String := "dircomp"

/-- A line of help from the English catalog. -/
def helpLine (key : String) : String := Catalog.Translations.english.text key

/-- The help option every grammar has. -/
def helpOption : OptionSpec :=
  ⟨["-h", "--help"], .showHelp, "show this help message and exit"⟩

/-- The options both commands take. -/
def sharedOptions : List OptionSpec := [
  ⟨["--min-depth"], .store "min_depth" .integer, helpLine "cli.args.min_depth"⟩,
  ⟨["--timeout"], .store "unlock_timeout" .decimal, helpLine "cli.args.timeout"⟩,
  ⟨["--use-defaults"], .setFlag "use_defaults", helpLine "cli.args.defaults"⟩,
  ⟨["--save-config"], .setFlag "save_config", helpLine "cli.args.save_config"⟩,
  ⟨["--log-file"], .store "log_file" .text, helpLine "cli.args.log_file"⟩,
  ⟨["--no-log-file"], .setFlag "no_log_file", helpLine "cli.args.no_log_file"⟩,
  ⟨["--debug"], .setFlag "debug", helpLine "cli.args.debug"⟩,
  ⟨["--json"], .setFlag "json_output", helpLine "cli.args.json"⟩]

/-- The directory operand. -/
def directoryOperand : OperandSpec :=
  ⟨"directory", "directory", .single, helpLine "cli.args.directory"⟩

/-- The grammar of `sync`. -/
def syncGrammar : Grammar where
  prog := toolName ++ " sync"
  description := none
  options := helpOption :: sharedOptions ++ [
    ⟨["--dry-run"], .setFlag "dry_run", helpLine "cli.args.dry_run"⟩,
    ⟨["--delay"], .store "delay_seconds" .decimal, helpLine "cli.args.delay"⟩,
    ⟨["--unlock"], .setFlag "unlock_first", helpLine "cli.args.unlock_first"⟩]
  operands := [⟨"torrent_file", "torrent_file", .single, helpLine "cli.args.torrent"⟩,
    directoryOperand]

/-- The grammar of `unlock`. -/
def unlockGrammar : Grammar where
  prog := toolName ++ " unlock"
  description := none
  options := helpOption :: sharedOptions
  operands := [directoryOperand]

/-- The tool's grammar: a command, then that command's arguments. -/
def toolGrammar : Grammar where
  prog := toolName
  description := some (helpLine "app.description")
  options := [helpOption]
  operands := [⟨"command", "{sync,unlock}",
    .command [("sync", helpLine "cli.args.sync"), ("unlock", helpLine "cli.args.unlock")], ""⟩]

/-- The tool's command line. -/
def tool : Program := ⟨toolGrammar, [("sync", syncGrammar), ("unlock", unlockGrammar)]⟩

/-- The two commands. -/
inductive CommandName where
  | sync
  | unlock
  deriving Inhabited, BEq

/-- The name of a command. -/
def CommandName.name : CommandName → String
  | .sync => "sync"
  | .unlock => "unlock"

/-- A parsed command line. -/
structure Invocation where
  command : CommandName
  torrentFile : Option String
  directory : String
  minDepth : Option Int
  unlockTimeout : Option Binary64
  dryRun : Bool
  delay : Option Binary64
  unlockFirst : Bool
  useDefaults : Bool
  saveConfig : Bool
  logFile : Option String
  noLogFile : Bool
  debug : Bool
  json : Bool
  deriving Inhabited

/-- Read an invocation from the values a parse collected. -/
def Invocation.ofCollected (c : Collected) : Invocation :=
  let text (d : String) : Option String :=
    match lookup c d with
    | some (.str s) => some s
    | _ => none
  let flag (d : String) : Bool :=
    match lookup c d with
    | some (.bool b) => b
    | _ => false
  let decimal (d : String) : Option Binary64 :=
    match lookup c d with
    | some (.float x) => some x
    | _ => none
  { command := if text "command" == some "unlock" then .unlock else .sync
    torrentFile := text "torrent_file"
    directory := (text "directory").getD ""
    minDepth := match lookup c "min_depth" with
      | some (.int n) => some n
      | _ => none
    unlockTimeout := decimal "unlock_timeout"
    dryRun := flag "dry_run"
    delay := decimal "delay_seconds"
    unlockFirst := flag "unlock_first"
    useDefaults := flag "use_defaults"
    saveConfig := flag "save_config"
    logFile := text "log_file"
    noLogFile := flag "no_log_file"
    debug := flag "debug"
    json := flag "json_output" }

/-- Parse the tool's command line. -/
def parseCommandLine (args : List String) : Except Stop Invocation :=
  Invocation.ofCollected <$> tool.parse args

/-- The settings an invocation overrides, in the order they are checked. -/
def Invocation.overrides (i : Invocation) : List (String × Value) :=
  (i.minDepth.map fun n ↦ ("min_depth", Value.int n)).toList ++
  (i.unlockTimeout.map fun x ↦ ("unlock_timeout", Value.float x)).toList ++
  (if i.dryRun then [("dry_run", .bool true)] else []) ++
  (i.delay.map fun x ↦ ("delay_seconds", Value.float x)).toList ++
  (if i.unlockFirst then [("unlock_before_sync", .bool true)] else []) ++
  (if i.debug then [("log_level", .str "DEBUG")] else []) ++
  (match i.logFile with
    | some f => if f.isEmpty then [] else [("log_file", .str f)]
    | none => []) ++
  (if i.noLogFile then [("log_to_file", .bool false)] else [])

end TorrentPrune.Cli
