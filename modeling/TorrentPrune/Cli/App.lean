import TorrentPrune.Catalog.Basic
import TorrentPrune.Cli.Commands
import TorrentPrune.Config.Store
import TorrentPrune.Config.Validation
import TorrentPrune.Logging.System
import TorrentPrune.Path.User
import TorrentPrune.Run.Engine

/-!
# The command-line tool

A command line is parsed first; help or a usage error ends it there. Then the settings are
resolved: the stored settings (or the defaults, when asked), overridden by the options given and
checked leniently, every notice of the check becoming a warning. Logging is configured from the
settings, the settings are saved when asked, and the run the command names goes against the
directory given: a sync run from a metadata file, or an unlock run.

A run's result is shown as JSON, indented by two spaces with characters beyond ASCII kept, or as
a short summary; an error goes to standard error under its kind. The exit status is 0 after a
successful run and 1 otherwise. A failure no run handles is logged as critical, reported on
standard error, and ends the command with status 1.

Source: `src/src/dircomp/interface/cli/app.py:46–207`.
-/

namespace TorrentPrune.Cli

open TorrentPrune.Json TorrentPrune.Fs TorrentPrune.Path TorrentPrune.Logging
open TorrentPrune.Config TorrentPrune.Run TorrentPrune.Prune TorrentPrune.Unlock

/-- The logger of the command-line tool. -/
def appLogger : String := "dircomp.interface.cli.app"

/-- The name of the run log in the data directory's `logs` folder. -/
def defaultLogName : String := "dircomp.log"

/-- The text of a message of the tool, filled from the values given. -/
def say (key : String) (args : List (String × Value)) : String :=
  (Catalog.Translations.english.render key none args).toOption.getD key

/-- What a command line acts on and shows: the host of its runs, the logging system (which also
holds what standard error shows), the environment paths are read in, and standard output. The
host's volume is the one the command acts on; the logging system's is only lent to it while it
writes a record. -/
structure Session where
  host : Host
  log : LogSystem
  env : Environment
  out : String
  deriving Inhabited

/-- How a command line ends: with an exit status, with settings that checking could not handle
at all, or with settings that saving could not encode; nothing in the tool catches the last
two. -/
inductive Ending where
  | exit (code : Nat)
  | unhandled (e : ConfigError)
  | unencodable (f : Text.EncodeFailure)
  deriving Inhabited

/-- Put a new volume in place. -/
def Session.withVolume (s : Session) (v : Volume) : Session := { s with host.volume := v }

/-- Log a record. -/
def Session.emit (s : Session) (r : LogRecord) : Session :=
  let log := { s.log with volume := s.host.volume }.emit r
  { s with log, host.volume := log.volume }

/-- Log records in order. -/
def Session.emitAll (s : Session) (rs : Journal) : Session := rs.foldl Session.emit s

/-- Log what the host's runs noted, and clear the host's journal. -/
def Session.settle (s : Session) : Session :=
  let pending := s.host.journal
  ({ s with host.journal := [] }).emitAll pending

/-- Write a line to standard output. -/
def Session.print (s : Session) (line : String) : Session := { s with out := s.out ++ line ++ "\n" }

/-- Write a line to standard error. -/
def Session.printErr (s : Session) (line : String) : Session :=
  { s with log := s.log.toErr (line ++ "\n") }

/-- The log settings of a run at a level: the console at that level and the run log, when there
is one, recording debug records when the level is `DEBUG` and informational ones otherwise. -/
def runLogConfig (level : String) (logFile : Option String) : LogConfig :=
  { level, console := true, logFile,
    fileLevel := some (if level == "DEBUG" then "DEBUG" else "INFO") }

/-- Configure logging from the settings: the console at the settings' level and, when the run
log is on, the run log at the given file (or the default one in the data directory). -/
def Session.configureLogging (s : Session) (conf : Settings) : Session :=
  let (s, logFile) : Session × Option String :=
    if conf.logToFile then
      let given := s.env.normalizeUserPath (some conf.logFile) ""
      if !given.isEmpty then (s, some given)
      else
        let (v, dir) := userDataDir s.host.volume s.env.home
        (s.withVolume v, some (join (join dir "logs") defaultLogName))
    else (s, none)
  let log := { s.log with volume := s.host.volume }.configure (runLogConfig conf.logLevel logFile)
    false
  { s with log, host.volume := log.volume }

/-- Report a run error under its kind on standard error. -/
def Session.printError (s : Session) (e : RunError) : Session :=
  let msg := say ("cli.errors." ++ e.kind) [("error", .str e.message)]
  s.printErr s!"ERROR: {msg}"

/-- Show a sync result as a summary. -/
def Session.printSync (s : Session) (r : SyncResult) : Session :=
  match r.outcome with
  | .failed e => s.printError e
  | .pruned _ report _ =>
    let key := if report.dryRun then "cli.status.dry_run"
      else if report.isClean then "cli.status.clean" else "cli.status.synced"
    let s := s.print (say key [("path", .str r.targetDir), ("files", .int report.filesDeleted),
      ("dirs", .int report.dirsDeleted)])
    let s := if report.dryRun then
        (report.deletedFiles ++ report.deletedDirs).foldl (fun s rel ↦ s.print s!"  - {rel}") s
      else s
    if report.failures.isEmpty then s
    else
      let s := s.print (say "cli.status.failures" [("count", .int report.failures.length)])
      report.failures.foldl (fun s f ↦
        let rel := f.relPath
        let err := f.error
        s.print s!"  - {rel}: {err}") s

/-- Show an unlock result as a summary. -/
def Session.printUnlock (s : Session) (r : UnlockResult) : Session :=
  match r.outcome with
  | .failed e => s.printError e
  | .released report =>
    s.print (say "cli.status.unlocked" [("path", .str r.targetDir),
      ("terminated", .int report.processesTerminated), ("found", .int report.processesFound)])
  | _ => s.print (say "cli.status.unlock_skipped" [("path", .str r.targetDir),
      ("reason", .str r.skipped)])

/-- The result of a run: its record, whether it succeeded, and how a summary shows it. -/
inductive Outcome where
  | sync (r : SyncResult)
  | unlock (r : UnlockResult)
  deriving Inhabited

/-- Whether the run succeeded. -/
def Outcome.ok : Outcome → Bool
  | .sync r => r.ok
  | .unlock r => r.ok

/-- The result as a record. -/
def Outcome.toValue : Outcome → Value
  | .sync r => r.toValue false
  | .unlock r => r.toValue

/-- Show a result, as JSON or as a summary. -/
def Session.show (s : Session) (json : Bool) (o : Outcome) : Session :=
  if json then s.print (o.toValue.write ⟨some 2, false⟩)
  else
    match o with
    | .sync r => s.printSync r
    | .unlock r => s.printUnlock r

/-- Run the command an invocation names, with the checked settings. -/
def Session.execute (s : Session) (inv : Invocation) (conf : Settings) (target : String) :
    Except Escape (Host × Outcome) :=
  match inv.command with
  | .sync =>
    let torrentPath := s.env.normalizeUserPath inv.torrentFile ""
    let o : SyncOptions := ⟨conf.dryRun, conf.minDepth, .real conf.delaySeconds,
      conf.unlockBeforeSync⟩
    (fun (h, r) ↦ (h, .sync r)) <$> runSyncFile s.host torrentPath target o
  | .unlock => (fun (h, r) ↦ (h, .unlock r)) <$> runUnlock s.host target conf.minDepth

/-- Save the checked settings, and say so when they were saved; or stop at the failure to encode
them, with the volume as saving left it. -/
def Session.save (s : Session) (conf : Settings) : Session × Option Text.EncodeFailure :=
  let (v, result) := saveConfig s.host.volume s.env.home conf.toMembers
  match result with
  | .error f => (s.withVolume v, some f)
  | .ok (saved, journal) =>
    let s := (s.withVolume v).emitAll journal
    if saved then
      let (v, path) := configPath s.host.volume s.env.home
      ((s.withVolume v).emit (.info appLogger (say "cli.status.config_saved" [("path", .str path)])),
        none)
    else (s, none)

/-- The settings a parsed command line runs with: the stored settings (or the defaults, when
asked), overridden by the options given and checked leniently. The session afterwards holds what
loading the stored settings logged. -/
def Session.resolveSettings (s : Session) (inv : Invocation) :
    Session × Except ConfigError (Settings × List Notice) :=
  let (s, base) :=
    if inv.useDefaults then (s, Settings.defaults.toMembers)
    else
      let (v, members, journal) := loadConfig s.host.volume s.env.home
      ((s.withVolume v).emitAll journal, members)
  (s, Settings.validate (.object (mergeKnown base inv.overrides)) false)

/-- Carry out a parsed command line. -/
def Session.perform (s : Session) (inv : Invocation) : Session × Ending :=
  let (s, resolved) := s.resolveSettings inv
  match resolved with
  | .error e => (s, .unhandled e)
  | .ok (conf, notices) =>
    let s := s.configureLogging conf
    let s := notices.foldl (fun s n ↦
      let shown := n.message
      s.emit (.warning appLogger s!"Configuration Constraint: {shown}")) s
    let (s, failure) := if inv.saveConfig then s.save conf else (s, none)
    match failure with
    | some f => (s, .unencodable f)
    | none =>
      let target := s.env.normalizeUserPath (some inv.directory) ""
      match s.execute inv conf target with
      | .error e =>
        let msg := say "cli.errors.unexpected" [("error", .str e.message)]
        let s := (s.emit (.critical appLogger msg)).printErr s!"ERROR: {msg}"
        (s, .exit 1)
      | .ok (h, o) =>
        let s := ({ s with host := h }).settle.show inv.json o
        (s, .exit (if o.ok then 0 else 1))

/-- Run the tool on a command line. -/
def Session.runTool (s : Session) (args : List String) : Session × Ending :=
  match parseCommandLine args with
  | .error stop =>
    let (out, err, code) := stop.report
    ({ s with out := s.out ++ out, log := s.log.toErr err }, .exit code)
  | .ok inv => s.perform inv

end TorrentPrune.Cli
