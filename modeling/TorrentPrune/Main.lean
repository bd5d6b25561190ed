import TorrentPrune.Cli.App

/-!
# The command line

The outer layer of the tool. It reads the command line and the environment, and loads into a
volume the files a run reads by name: the stored settings and the metadata file. It runs the tool
on that volume, prints what the run wrote to standard output and standard error, writes back the
files the run changed in the data directory, and ends with the run's exit status.

This layer reads files by name only and lists no directory, so the volume holds no target
directory: help, usage errors, the settings and the checks before a run behave as they do on any
volume, and a run reports its target as missing.

Source: `src/src/dircomp/main.py:33–74`.
-/

namespace TorrentPrune.Main

open TorrentPrune.Fs TorrentPrune.Path TorrentPrune.Cli TorrentPrune.Run TorrentPrune.Logging

/-- Place the file at an absolute path in the volume, when it can be read. -/
def loadFile (v : Volume) (path : String) : IO Volume := do
  if path.isEmpty then return v
  try
    let bytes ← IO.FS.readBinFile path
    return (v.place "/" (.file path bytes.toList)).toOption.getD v
  catch _ =>
    return v

/-- Write a file of the volume back, making its directory first. -/
def storeFile (path : String) (bytes : List UInt8) : IO Unit := do
  try
    IO.FS.createDirAll (dirname path)
    IO.FS.writeBinFile path (ByteArray.mk bytes.toArray)
  catch e =>
    IO.eprintln s!"Cannot write '{path}': {e}"

/-- The regular files below a directory of a volume, with their absolute paths. -/
def filesBelow (v : Volume) (dir : String) : List (String × List UInt8) :=
  (v.inventory "/" dir).filterMap fun (rel, node) ↦
    match node with
    | .file _ bytes => some (join dir rel, bytes)
    | _ => none

/-- Run the tool on the command line. -/
def run (args : List String) : IO UInt32 := do
  let home := (← IO.getEnv "HOME").getD "/"
  let cwd := (← IO.getEnv "PWD").getD "/"
  let env : Environment := ⟨cwd, [("HOME", home)], [], home⟩
  let dataDir := join home Config.dataDirName
  let torrentPath := match parseCommandLine args with
    | .ok inv => env.normalizeUserPath inv.torrentFile ""
    | .error _ => ""
  let v ← loadFile Volume.empty (join dataDir Config.configFileName)
  let v ← loadFile v torrentPath
  let before := filesBelow v dataDir
  let now ← IO.monoNanosNow
  let host := { Host.ofVolume v with clock := .monotonic now }
  let session : Session := ⟨host, LogSystem.fresh v "", env, ""⟩
  let (s, ending) := session.runTool args
  IO.print s.out
  IO.eprint s.log.errText
  for (path, bytes) in filesBelow s.host.volume dataDir do
    if before.lookup path != some bytes then storeFile path bytes
  match ending with
  | .exit code => return code.toUInt32
  | .unhandled e =>
    let msg := e.message
    IO.eprintln s!"ERROR: {msg}"
    return 1
  | .unencodable f =>
    let msg := f.message
    IO.eprintln s!"UnicodeEncodeError: {msg}"
    return 1

end TorrentPrune.Main

/-- The entry point of the tool. -/
def main (args : List String) : IO UInt32 := TorrentPrune.Main.run args
