import TorrentPrune.Bencode.Error
import TorrentPrune.Bencode.Reader
import TorrentPrune.Bencode.Value
import TorrentPrune.Catalog.Basic
import TorrentPrune.Catalog.English
import TorrentPrune.Cli.App
import TorrentPrune.Cli.Commands
import TorrentPrune.Cli.Grammar
import TorrentPrune.Cli.Parse
import TorrentPrune.Cli.Usage
import TorrentPrune.Config.Settings
import TorrentPrune.Config.Store
import TorrentPrune.Config.Validation
import TorrentPrune.Fs.Calls
import TorrentPrune.Fs.Entry
import TorrentPrune.Fs.Errno
import TorrentPrune.Fs.Refusal
import TorrentPrune.Fs.Volume
import TorrentPrune.Fs.Walk
import TorrentPrune.Json.Literal
import TorrentPrune.Json.Reader
import TorrentPrune.Json.Value
import TorrentPrune.Json.Writer
import TorrentPrune.Logging.Config
import TorrentPrune.Logging.Layout
import TorrentPrune.Logging.Level
import TorrentPrune.Logging.Record
import TorrentPrune.Logging.System
import TorrentPrune.Main
import TorrentPrune.Manifest.Basic
import TorrentPrune.Manifest.Extract
import TorrentPrune.Manifest.Metadata
import TorrentPrune.Number.Binary64
import TorrentPrune.Number.DigitLimit
import TorrentPrune.Number.FloatText
import TorrentPrune.Number.Reading
import TorrentPrune.Number.Shortest
import TorrentPrune.Path.Posix
import TorrentPrune.Path.Segments
import TorrentPrune.Path.User
import TorrentPrune.Prune.Pass
import TorrentPrune.Prune.Report
import TorrentPrune.Run.Engine
import TorrentPrune.Run.Error
import TorrentPrune.Run.Host
import TorrentPrune.Run.Result
import TorrentPrune.Safety
import TorrentPrune.Template.Error
import TorrentPrune.Template.Markup
import TorrentPrune.Template.Render
import TorrentPrune.Template.Spec
import TorrentPrune.Text.Blank
import TorrentPrune.Text.Digits
import TorrentPrune.Text.Printable
import TorrentPrune.Text.Quoted
import TorrentPrune.Text.Upper
import TorrentPrune.Text.Utf8
import TorrentPrune.Unlock.Release
import TorrentPrune.Proofs.Fs.Entries
import TorrentPrune.Proofs.Fs.Locations
import TorrentPrune.Proofs.Fs.Resolution
import TorrentPrune.Proofs.Prune.Rule
import TorrentPrune.Proofs.Prune.Outcome
import TorrentPrune.Proofs.Bencode.Numerals
import TorrentPrune.Proofs.Bencode.Grammar
import TorrentPrune.Proofs.Bencode.Reading
import TorrentPrune.Proofs.Bencode.Canonical
import TorrentPrune.Proofs.Bencode.Failures
import TorrentPrune.Proofs.Path.Relative
import TorrentPrune.Proofs.Path.Segments
import TorrentPrune.Proofs.Fs.Within
import TorrentPrune.Proofs.Text.Names
import TorrentPrune.Proofs.Text.Case
import TorrentPrune.Proofs.Manifest.Ancestors
import TorrentPrune.Proofs.Manifest.Extraction
import TorrentPrune.Proofs.Manifest.Declared
import TorrentPrune.Proofs.Prune.Keeping
import TorrentPrune.Proofs.Run.Declared
import TorrentPrune.Proofs.Prune.Accounting
import TorrentPrune.Proofs.Prune.DryRun
import TorrentPrune.Proofs.Prune.StackLoop
import TorrentPrune.Proofs.Prune.CallOrder
import TorrentPrune.Proofs.Run.Checks
import TorrentPrune.Proofs.Config.Layering
import TorrentPrune.Proofs.Config.Settled
import TorrentPrune.Proofs.Config.Lenient
import TorrentPrune.Proofs.Config.Strictness
import TorrentPrune.Proofs.Cli.DepthFloor
import TorrentPrune.Proofs.Unlock.Signals
import TorrentPrune.Proofs.Number.Rounding
import TorrentPrune.Proofs.Number.ShortestDigits
import TorrentPrune.Proofs.Text.Encoding
import TorrentPrune.Proofs.Json.NumberText
import TorrentPrune.Proofs.Json.StringText
import TorrentPrune.Proofs.Path.UserPath
import TorrentPrune.Proofs.Catalog.Translation
import TorrentPrune.Proofs.Logging.Sinks
import TorrentPrune.Proofs.Json.Document
import TorrentPrune.Proofs.Json.WrittenText
import TorrentPrune.Proofs.Fs.Growth
import TorrentPrune.Proofs.Config.Saving
import TorrentPrune.Proofs.Fs.Canonical
