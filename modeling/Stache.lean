import Stache.Command.Grammar
import Stache.Command.Help
import Stache.Command.Line
import Stache.Command.Reading
import Stache.Command.Run
import Stache.Config
import Stache.Decimal.Shortest
import Stache.Digest.Sha256
import Stache.Files.IoError
import Stache.Files.Path
import Stache.Files.Tree
import Stache.Files.Write
import Stache.Job.Emission
import Stache.Job.Load
import Stache.Job.ModuleStore
import Stache.Job.Settling
import Stache.Journal
import Stache.Json.Reading
import Stache.Json.Value
import Stache.Json.Writing
import Stache.Main
import Stache.Options.Basic
import Stache.Options.Expansion
import Stache.Options.Fault
import Stache.Options.Query
import Stache.Pattern.Basic
import Stache.Pattern.Reading
import Stache.Position
import Stache.Proofs.Command.Outputs
import Stache.Proofs.Command.Turns
import Stache.Proofs.Files.Ancestors
import Stache.Proofs.Files.Changed
import Stache.Proofs.Files.Clock
import Stache.Proofs.Files.Enclosing
import Stache.Proofs.Files.Normalized
import Stache.Proofs.Files.Places
import Stache.Proofs.Files.Resolved
import Stache.Proofs.Files.Stamped
import Stache.Proofs.Files.Straight
import Stache.Proofs.Job.Account
import Stache.Proofs.Job.Again
import Stache.Proofs.Job.Calls
import Stache.Proofs.Job.Compiling
import Stache.Proofs.Job.Entries
import Stache.Proofs.Job.Excluded
import Stache.Proofs.Job.Fresh
import Stache.Proofs.Job.Hits
import Stache.Proofs.Job.Identifier
import Stache.Proofs.Job.Interleaved
import Stache.Proofs.Job.Listed
import Stache.Proofs.Job.Literals
import Stache.Proofs.Job.Loading
import Stache.Proofs.Job.Loads
import Stache.Proofs.Job.Missing
import Stache.Proofs.Job.Modules
import Stache.Proofs.Job.Named
import Stache.Proofs.Job.Once
import Stache.Proofs.Job.Partials
import Stache.Proofs.Job.Revision
import Stache.Proofs.Job.Round
import Stache.Proofs.Job.Run
import Stache.Proofs.Job.Searching
import Stache.Proofs.Job.Served
import Stache.Proofs.Job.Settled
import Stache.Proofs.Job.Stable
import Stache.Proofs.Job.Stages
import Stache.Proofs.Job.Steady
import Stache.Proofs.Job.Store
import Stache.Proofs.Job.Template
import Stache.Proofs.Job.Unstored
import Stache.Proofs.Json.Fields
import Stache.Proofs.Options.Escapes
import Stache.Proofs.Options.Pairs
import Stache.Proofs.Outcome
import Stache.Proofs.Search.HelperFiles
import Stache.Proofs.Search.Journal
import Stache.Proofs.Search.Module
import Stache.Proofs.Search.Order
import Stache.Proofs.Search.Schedule
import Stache.Proofs.Search.Spelling
import Stache.Proofs.Search.Suggested
import Stache.Proofs.Search.Symbol
import Stache.Proofs.Spec.Announced
import Stache.Proofs.Spec.Binding
import Stache.Proofs.Spec.Calls
import Stache.Proofs.Spec.Contents
import Stache.Proofs.Spec.Dialogue
import Stache.Proofs.Spec.Faults
import Stache.Proofs.Spec.Filled
import Stache.Proofs.Spec.Form
import Stache.Proofs.Spec.Generation
import Stache.Proofs.Spec.Guarded
import Stache.Proofs.Spec.Holes
import Stache.Proofs.Spec.KnownHelpers
import Stache.Proofs.Spec.Lookups
import Stache.Proofs.Spec.Mentioned
import Stache.Proofs.Spec.Numbering
import Stache.Proofs.Spec.Outline
import Stache.Proofs.Spec.PartialNames
import Stache.Proofs.Spec.Paths
import Stache.Proofs.Spec.Plain
import Stache.Proofs.Spec.Reading
import Stache.Proofs.Spec.Sections
import Stache.Proofs.Spec.Sites
import Stache.Proofs.Spec.Standing
import Stache.Proofs.Symbol.Chunk
import Stache.Proofs.Symbol.Dependencies
import Stache.Proofs.Symbol.Naming
import Stache.Proofs.Symbol.Registry
import Stache.Proofs.Symbol.Steps
import Stache.Proofs.Symbol.Table
import Stache.Proofs.Template.Decimals
import Stache.Proofs.Template.Grammar
import Stache.Proofs.Template.Layout
import Stache.Proofs.Template.Lexemes
import Stache.Proofs.Template.Numbers
import Stache.Proofs.Template.Places
import Stache.Proofs.Template.Quotes
import Stache.Proofs.Template.RoundTrip
import Stache.Proofs.Template.Spelling
import Stache.Proofs.Template.Tilde
import Stache.Proofs.Template.Words
import Stache.Proofs.Template.Written
import Stache.Proofs.Text.Bytes
import Stache.Proofs.Text.Called
import Stache.Proofs.Text.Compacted
import Stache.Proofs.Text.Decoded
import Stache.Proofs.Text.Delimited
import Stache.Proofs.Text.Erased
import Stache.Proofs.Text.Marks
import Stache.Proofs.Text.Mentions
import Stache.Proofs.Text.Normal
import Stache.Proofs.Text.Parts
import Stache.Proofs.Text.Runs
import Stache.Proofs.Text.Scan
import Stache.Proofs.Text.Tidy
import Stache.Report.Failure
import Stache.Report.LoadError
import Stache.Search.HelperScan
import Stache.Search.Module
import Stache.Search.Probe
import Stache.Search.Suggestion
import Stache.Search.Symbol
import Stache.Spec.Code
import Stache.Spec.Compilation
import Stache.Spec.Dialogue
import Stache.Spec.OfTemplate
import Stache.Spec.Reference
import Stache.Spec.Tree
import Stache.Symbol.Naming
import Stache.Symbol.Registry
import Stache.Symbol.Request
import Stache.Symbol.Table
import Stache.Template.Blocks
import Stache.Template.Expression
import Stache.Template.Fault
import Stache.Template.Piece
import Stache.Template.Segment
import Stache.Template.Token.Basic
import Stache.Template.Token.Reading
import Stache.Template.Tree
import Stache.Text.Alphanumeric
import Stache.Text.Blank
import Stache.Text.Compact
import Stache.Text.Cut
import Stache.Text.Digit
import Stache.Text.Distance
import Stache.Text.Quoted
import Stache.Text.Ranges
import Stache.Text.Shown
import Stache.Text.Size
import Stache.Text.Visible
import Stache.Toml.Reading
