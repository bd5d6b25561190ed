import TorrentPrune.Json.Value

/-!
# English messages

The message catalog in English: a tree of objects whose leaves are message templates, found by a
dotted key such as `cli.errors.safety`. Templates name their values in braces.

Source: `src/src/dircomp/interface/locales/en.json`.
-/

namespace TorrentPrune.Catalog

open TorrentPrune.Json

/-- The English message tree. -/
def englishMessages : Value :=
  .object [
    ("app", .object [
      ("description", .str "Torrent directory comparison and cleanup tool. Removes files that the torrent does not declare.")]),
    ("cli", .object [
      ("args", .object [
        ("sync", .str "Delete files and empty directories not declared by the torrent."),
        ("unlock", .str "Terminate processes holding files open under a directory."),
        ("torrent", .str "Path to the .torrent metadata file."),
        ("directory", .str "Directory holding the torrent's downloaded content."),
        ("dry_run", .str "Report what would be deleted without deleting anything."),
        ("delay", .str "Seconds to wait before touching the directory."),
        ("min_depth", .str "Minimum number of path segments the directory must have."),
        ("unlock_first", .str "Release file locks under the directory before syncing."),
        ("timeout", .str "Seconds locking processes get to exit before being killed."),
        ("json", .str "Print the run result as JSON."),
        ("debug", .str "Elevate logging verbosity to DEBUG."),
        ("log_file", .str "Write the run log to this file."),
        ("no_log_file", .str "Do not write a run log file."),
        ("defaults", .str "Ignore the saved configuration and use defaults."),
        ("save_config", .str "Store the resolved settings as the saved configuration.")]),
      ("errors", .object [
        ("safety", .str "Refusing to operate on a shallow path. \x7berror\x7d"),
        ("decode", .str "Torrent metadata is malformed. \x7berror\x7d"),
        ("extract", .str "Torrent metadata has no usable file list. \x7berror\x7d"),
        ("read", .str "Torrent metadata could not be read. \x7berror\x7d"),
        ("precondition", .str "Target directory is missing. \x7berror\x7d"),
        ("unexpected", .str "Run failed: \x7berror\x7d")]),
      ("status", .object [
        ("clean", .str "Clean: nothing to remove in \x7bpath\x7d"),
        ("synced", .str "Synced \x7bpath\x7d: deleted \x7bfiles\x7d files, \x7bdirs\x7d empty directories"),
        ("dry_run", .str "Dry run for \x7bpath\x7d: would delete \x7bfiles\x7d files, \x7bdirs\x7d empty directories"),
        ("failures", .str "\x7bcount\x7d entries could not be removed:"),
        ("unlocked", .str "Unlocked \x7bpath\x7d: terminated \x7bterminated\x7d of \x7bfound\x7d processes"),
        ("unlock_skipped", .str "Nothing to unlock in \x7bpath\x7d: \x7breason\x7d"),
        ("interrupted", .str "Operation interrupted by user."),
        ("config_saved", .str "Configuration saved to \x7bpath\x7d")])])]

end TorrentPrune.Catalog
