import Backlog.Cache.Entry
import Backlog.Cache.GraphCache
import Backlog.Cache.Key
import Backlog.Cache.Sample
import Backlog.Cache.Store
import Backlog.Calendar
import Backlog.Command.Arguments
import Backlog.Command.Request
import Backlog.Command.Run
import Backlog.Command.Selecting
import Backlog.Config
import Backlog.Console.Markup
import Backlog.Console.Table
import Backlog.Console.Width
import Backlog.Console.Wrap
import Backlog.Data
import Backlog.Digest.Sha256
import Backlog.Files.Change
import Backlog.Files.Path
import Backlog.Files.Tree
import Backlog.Glob.Brace
import Backlog.Glob.CharClass
import Backlog.Glob.GlobSet
import Backlog.Glob.Pattern
import Backlog.Graph.Basic
import Backlog.Graph.Build
import Backlog.Graph.Codec
import Backlog.Graph.Reach
import Backlog.Import.Analysis
import Backlog.Import.Basic
import Backlog.Import.Discovery
import Backlog.Import.Extraction
import Backlog.Import.Parsers
import Backlog.Import.Python.Statement
import Backlog.Import.Python.Token
import Backlog.Import.Resolution
import Backlog.Import.Script.Phrase
import Backlog.Import.Script.Token
import Backlog.Import.Source
import Backlog.Import.Syntax
import Backlog.Json.Canonical
import Backlog.Json.Parser
import Backlog.Json.Printer
import Backlog.Ledger.Apply
import Backlog.Ledger.Basic
import Backlog.Ledger.Codec
import Backlog.Load
import Backlog.Main
import Backlog.Number.Binary64
import Backlog.Number.Numeral
import Backlog.OrderedMap
import Backlog.Rules
import Backlog.Selection.Candidate
import Backlog.Selection.Choice
import Backlog.Selection.Eligibility
import Backlog.Setting
import Backlog.Text.Digit
import Backlog.Text.Letter
import Backlog.Text.Printable
import Backlog.Text.Quoted
import Backlog.Text.Similar
import Backlog.Text.Sorted
import Backlog.Text.Utf8
import Backlog.Yaml.Cursor
import Backlog.Yaml.Node
import Backlog.Yaml.Tag
import Backlog.Yaml.Text
import Backlog.Yaml.Token
import Backlog.Yaml.Value
import Backlog.Proofs.Ledger.Entries
import Backlog.Proofs.Text.Distinct
import Backlog.Proofs.Ledger.ByRule
import Backlog.Proofs.Outcome
import Backlog.Proofs.Selection.Admission
import Backlog.Proofs.Selection.Candidate
import Backlog.Proofs.Selection.Choice
import Backlog.Proofs.Selection.Policy
import Backlog.Proofs.Selection.Removal
import Backlog.Proofs.Selection.Run
import Backlog.Proofs.Selection.WholeRun
import Backlog.Proofs.Selection.SliceRun
import Backlog.Proofs.Selection.Reordering
import Backlog.Proofs.Selection.Limits
import Backlog.Proofs.Selection.Optimum
import Backlog.Proofs.Selection.Aggregation
import Backlog.Proofs.Selection.Reapplying
import Backlog.Proofs.Selection.Sifting
import Backlog.Proofs.Graph.Layers
import Backlog.Proofs.Graph.Depth
import Backlog.Proofs.Graph.Reach
import Backlog.Proofs.Json.Scalars
import Backlog.Proofs.Json.RoundTrip
import Backlog.Proofs.Ledger.Dump
import Backlog.Proofs.Files.Nodes
import Backlog.Proofs.Files.Paths
import Backlog.Proofs.Files.Ways
import Backlog.Proofs.Files.Places
import Backlog.Proofs.Files.Folders
import Backlog.Proofs.Files.Edits
import Backlog.Proofs.Cache.Slots
import Backlog.Proofs.Cache.Entries
import Backlog.Proofs.Cache.Run
import Backlog.Proofs.Cache.Keys
import Backlog.Proofs.Cache.Answers
import Backlog.Proofs.Json.Reading
import Backlog.Proofs.Number.Rounding
import Backlog.Proofs.Number.Shortest
import Backlog.Proofs.Json.Floats
import Backlog.Proofs.Graph.Document
import Backlog.Proofs.Graph.Building
import Backlog.Proofs.Graph.Links
import Backlog.Proofs.Graph.Reversal
import Backlog.Proofs.Graph.RoundTrip
import Backlog.Proofs.Ledger.Loading
import Backlog.Proofs.Ledger.Reading
import Backlog.Proofs.Config.Documents
import Backlog.Proofs.Glob.Escaping
import Backlog.Proofs.Files.Relisting
import Backlog.Proofs.Files.Sound
import Backlog.Proofs.Files.Growth
import Backlog.Proofs.Files.Outlines
import Backlog.Proofs.Files.RealPaths
import Backlog.Proofs.Cache.Sampling
import Backlog.Proofs.Cache.Writing
import Backlog.Proofs.Cache.Graphs
import Backlog.Proofs.Cache.Holdings
import Backlog.Proofs.Cache.Recall
import Backlog.Proofs.Cache.Interleaving
import Backlog.Proofs.Cache.Transparency
import Backlog.Proofs.Command.Requests
import Backlog.Proofs.Command.Failures
import Backlog.Proofs.Command.Status
import Backlog.Proofs.Command.Applying
import Backlog.Proofs.Files.Existence
import Backlog.Proofs.Import.Candidates
import Backlog.Proofs.Import.SourceFiles
import Backlog.Proofs.Import.Discovery
import Backlog.Proofs.Import.Obstacles
import Backlog.Proofs.Cache.Coverage
import Backlog.Proofs.Import.Whereabouts
import Backlog.Proofs.Import.Answers
import Backlog.Proofs.Import.Calls
import Backlog.Proofs.Text.Letter
import Backlog.Proofs.Import.Python.PlainText
import Backlog.Proofs.Import.Python.RoundTrip
import Backlog.Proofs.Config.Overriding
import Backlog.Proofs.Files.Collapsing
import Backlog.Proofs.Files.RealNames
import Backlog.Proofs.Files.Relative
import Backlog.Proofs.Import.RealSources
import Backlog.Proofs.Selection.SameFile
import Backlog.Proofs.Selection.Spellings
import Backlog.Proofs.Command.Settings
import Backlog.Proofs.Command.Listing
import Backlog.Proofs.Command.GraphRun
