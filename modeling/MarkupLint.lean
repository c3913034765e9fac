import MarkupLint.Batch.Hook
import MarkupLint.Batch.Report
import MarkupLint.Batch.Run
import MarkupLint.Body.Block
import MarkupLint.Body.Line
import MarkupLint.Body.Pattern
import MarkupLint.Body.Reader
import MarkupLint.Cache.Backend
import MarkupLint.Cache.Database
import MarkupLint.Cache.Directory
import MarkupLint.Cache.Entry
import MarkupLint.Cache.Key
import MarkupLint.Cache.Memory
import MarkupLint.Cache.Store
import MarkupLint.Calendar.Date
import MarkupLint.Calendar.Duration
import MarkupLint.Calendar.Format
import MarkupLint.Calendar.Shown
import MarkupLint.Command.Complete
import MarkupLint.Command.Flag
import MarkupLint.Command.Options
import MarkupLint.Command.Run
import MarkupLint.Config.Load
import MarkupLint.Config.Number
import MarkupLint.Config.Plan
import MarkupLint.Config.Setting
import MarkupLint.Config.Toml
import MarkupLint.Config.Yaml
import MarkupLint.Construct.Catalog
import MarkupLint.Construct.Directive
import MarkupLint.Construct.Invocation
import MarkupLint.Construct.Namespace
import MarkupLint.Construct.Option
import MarkupLint.Construct.Role
import MarkupLint.Conventions
import MarkupLint.Data.Bytes
import MarkupLint.Data.Csv
import MarkupLint.Data.Digest
import MarkupLint.Data.Heap
import MarkupLint.Data.Shortest
import MarkupLint.Data.Table
import MarkupLint.Data.Value
import MarkupLint.Diagnostic.Format
import MarkupLint.Diagnostic.Level
import MarkupLint.Diagnostic.Record
import MarkupLint.Diagnostic.Report
import MarkupLint.Directive.Box
import MarkupLint.Directive.Call
import MarkupLint.Directive.External
import MarkupLint.Directive.Image
import MarkupLint.Directive.Literal
import MarkupLint.Directive.Run
import MarkupLint.Directive.Setting
import MarkupLint.Directive.Substitute
import MarkupLint.Directive.Table
import MarkupLint.Document.Audience
import MarkupLint.Document.Basic
import MarkupLint.Document.Message
import MarkupLint.Document.Names
import MarkupLint.Files.Glob
import MarkupLint.Files.Path
import MarkupLint.Files.Resolver
import MarkupLint.Files.Tree
import MarkupLint.Inline.Piece
import MarkupLint.Inline.Token
import MarkupLint.Inline.Uri
import MarkupLint.Lint
import MarkupLint.Log.Entry
import MarkupLint.Main
import MarkupLint.Parse.Body
import MarkupLint.Parse.Explicit
import MarkupLint.Parse.Inline
import MarkupLint.Parse.State
import MarkupLint.Pass.Catalog
import MarkupLint.Pass.Outline
import MarkupLint.Pass.Reference
import MarkupLint.Pass.Schedule
import MarkupLint.Pass.Structure
import MarkupLint.Proofs.Account
import MarkupLint.Proofs.Accounting
import MarkupLint.Proofs.Agreement
import MarkupLint.Proofs.Applying
import MarkupLint.Proofs.Arguments
import MarkupLint.Proofs.Attribution
import MarkupLint.Proofs.Backlog
import MarkupLint.Proofs.Building
import MarkupLint.Proofs.Bullets
import MarkupLint.Proofs.Chasing
import MarkupLint.Proofs.Clearing
import MarkupLint.Proofs.Collecting
import MarkupLint.Proofs.Content
import MarkupLint.Proofs.Contract
import MarkupLint.Proofs.Copying
import MarkupLint.Proofs.Dangling
import MarkupLint.Proofs.Dependency
import MarkupLint.Proofs.Depth
import MarkupLint.Proofs.Dimensions
import MarkupLint.Proofs.Directives
import MarkupLint.Proofs.Discharge
import MarkupLint.Proofs.Extracting
import MarkupLint.Proofs.Filing
import MarkupLint.Proofs.Fingerprint
import MarkupLint.Proofs.Frame
import MarkupLint.Proofs.Growth
import MarkupLint.Proofs.Halting
import MarkupLint.Proofs.Hanging
import MarkupLint.Proofs.Heap
import MarkupLint.Proofs.History
import MarkupLint.Proofs.Ignoring
import MarkupLint.Proofs.Inclusion
import MarkupLint.Proofs.Independence
import MarkupLint.Proofs.Indirection
import MarkupLint.Proofs.Inline
import MarkupLint.Proofs.Inserting
import MarkupLint.Proofs.Keeping
import MarkupLint.Proofs.Lines
import MarkupLint.Proofs.Linking
import MarkupLint.Proofs.Listing
import MarkupLint.Proofs.MarkedWords
import MarkupLint.Proofs.Marking
import MarkupLint.Proofs.Message
import MarkupLint.Proofs.Namespace
import MarkupLint.Proofs.Naming
import MarkupLint.Proofs.Notice
import MarkupLint.Proofs.Numbering
import MarkupLint.Proofs.Ordering
import MarkupLint.Proofs.Pairing
import MarkupLint.Proofs.Paragraphs
import MarkupLint.Proofs.Partition
import MarkupLint.Proofs.Phrasing
import MarkupLint.Proofs.Placement
import MarkupLint.Proofs.Plain
import MarkupLint.Proofs.Promotion
import MarkupLint.Proofs.Prose
import MarkupLint.Proofs.Quoted
import MarkupLint.Proofs.Rearranging
import MarkupLint.Proofs.Regime
import MarkupLint.Proofs.Rendering
import MarkupLint.Proofs.Reproducing
import MarkupLint.Proofs.Resilience
import MarkupLint.Proofs.Resolving
import MarkupLint.Proofs.Roles
import MarkupLint.Proofs.Running
import MarkupLint.Proofs.Schedule
import MarkupLint.Proofs.Scope
import MarkupLint.Proofs.Sectioning
import MarkupLint.Proofs.Shapes
import MarkupLint.Proofs.Silence
import MarkupLint.Proofs.Spans
import MarkupLint.Proofs.Splitting
import MarkupLint.Proofs.Stacking
import MarkupLint.Proofs.Storing
import MarkupLint.Proofs.Substituting
import MarkupLint.Proofs.Tables
import MarkupLint.Proofs.Tabs
import MarkupLint.Proofs.Tabulating
import MarkupLint.Proofs.Titles
import MarkupLint.Proofs.Transitions
import MarkupLint.Proofs.Transparency
import MarkupLint.Proofs.Upkeep
import MarkupLint.Proofs.Verbatim
import MarkupLint.Proofs.Walking
import MarkupLint.Proofs.Wellformed
import MarkupLint.Proofs.Words
import MarkupLint.Text.Blank
import MarkupLint.Text.Case
import MarkupLint.Text.Choice
import MarkupLint.Text.Encoding
import MarkupLint.Text.Integer
import MarkupLint.Text.Letter
import MarkupLint.Text.Printable
import MarkupLint.Text.Punctuation
import MarkupLint.Text.Quoted
import MarkupLint.Text.Ranges
import MarkupLint.Text.Search
import MarkupLint.Text.Width
import MarkupLint.Tree.Forest
import MarkupLint.Tree.Node
