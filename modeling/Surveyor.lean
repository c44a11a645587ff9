import Surveyor.Catalog.Names
import Surveyor.Catalog.Obfuscation
import Surveyor.Catalog.Survey
import Surveyor.Catalog.Timestamp
import Surveyor.Command.Analyze
import Surveyor.Command.Listing
import Surveyor.Command.Options
import Surveyor.Command.Request
import Surveyor.FileTree.Basic
import Surveyor.FileTree.Write
import Surveyor.Inspection.Builtin
import Surveyor.Inspection.Cataloguing
import Surveyor.Inspection.Quality
import Surveyor.Inspection.Snapshot
import Surveyor.Inspection.StackProfile
import Surveyor.Inspection.Structure
import Surveyor.Json.Reader
import Surveyor.Json.Relaxed
import Surveyor.Json.Writer
import Surveyor.Location.Basic
import Surveyor.Main
import Surveyor.Number.Binary64
import Surveyor.Number.Numeral
import Surveyor.Number.Shortest
import Surveyor.Pattern.Basic
import Surveyor.Pattern.Search
import Surveyor.Pattern.Vocabulary
import Surveyor.Pipeline.Discovery
import Surveyor.Pipeline.Engine
import Surveyor.Pipeline.Journal
import Surveyor.Pipeline.Order
import Surveyor.Pipeline.Record
import Surveyor.Pipeline.Session
import Surveyor.Pipeline.Stage
import Surveyor.Project
import Surveyor.Proofs.Json.Relaxed
import Surveyor.Proofs.Json.RoundTrip
import Surveyor.Proofs.Pattern.Edges
import Surveyor.Proofs.Pattern.Preferred
import Surveyor.Proofs.Pattern.Search
import Surveyor.Proofs.Pattern.Spelling
import Surveyor.Proofs.Pattern.Shift
import Surveyor.Proofs.Pattern.Stretch
import Surveyor.Proofs.Pattern.Vocabulary
import Surveyor.Proofs.Pattern.Ways
import Surveyor.Proofs.Pipeline.Session
import Surveyor.Proofs.Pipeline.StageFold
import Surveyor.Proofs.Quality.Calls
import Surveyor.Proofs.Quality.DeadCode
import Surveyor.Proofs.Quality.Declared
import Surveyor.Proofs.Quality.Mentions
import Surveyor.Proofs.Quality.Pieces
import Surveyor.Proofs.Quality.Published
import Surveyor.Proofs.Quality.Reported
import Surveyor.Proofs.Quality.Unused
import Surveyor.Proofs.Source.Braces
import Surveyor.Proofs.Source.PhpSites
import Surveyor.Proofs.Source.StandaloneFunctions
import Surveyor.Proofs.Value.Fault
import Surveyor.Proofs.Value.Frozen
import Surveyor.Proofs.Value.Merge
import Surveyor.Quality.CommentRuns
import Surveyor.Quality.Complexity
import Surveyor.Quality.Contents
import Surveyor.Quality.Declarations
import Surveyor.Quality.Dependencies
import Surveyor.Quality.FunctionSize
import Surveyor.Quality.Issue
import Surveyor.Quality.References
import Surveyor.Quality.Unused
import Surveyor.Report.Format
import Surveyor.Report.Markdown
import Surveyor.Score.Scale
import Surveyor.Score.Scorecard
import Surveyor.Service.Description
import Surveyor.Service.Request
import Surveyor.Service.Respond
import Surveyor.Settings.Basic
import Surveyor.Settings.Load
import Surveyor.Source.Braces
import Surveyor.Source.Comments
import Surveyor.Source.Language
import Surveyor.Source.Lines
import Surveyor.Source.Numbering
import Surveyor.Source.Outline
import Surveyor.Source.Parameters
import Surveyor.Source.Php
import Surveyor.Source.Script.Declarations
import Surveyor.Source.Script.Imports
import Surveyor.Stack.Frameworks
import Surveyor.Stack.LanguageLevel
import Surveyor.Stack.Languages
import Surveyor.Text.Alphanumeric
import Surveyor.Text.Basic
import Surveyor.Text.CaseContext
import Surveyor.Text.CodePoint
import Surveyor.Text.Encoding
import Surveyor.Text.LowerCase
import Surveyor.Text.Quoted
import Surveyor.Text.Utf8
import Surveyor.Value.Access
import Surveyor.Value.Basic
import Surveyor.Value.Display
import Surveyor.Value.Merge
import Surveyor.Value.Order
import Surveyor.Value.Quantity
import Surveyor.Value.Sorting
import Surveyor.Yaml.Cursor
import Surveyor.Yaml.Document
import Surveyor.Yaml.Graph
import Surveyor.Yaml.Number
import Surveyor.Yaml.Octets
import Surveyor.Yaml.Scalar
import Surveyor.Yaml.Tag
import Surveyor.Yaml.Timestamp
import Surveyor.Yaml.Token
import Surveyor.Proofs.Pipeline.Returned
import Surveyor.Proofs.Pipeline.Publication
import Surveyor.Proofs.Pipeline.RecordDamage
import Surveyor.Proofs.Pipeline.Listeners
import Surveyor.Proofs.Pipeline.Cancellation
import Surveyor.Proofs.Catalog.Paths
import Surveyor.Proofs.Catalog.Survey
import Surveyor.Proofs.Quality.Consistency
import Surveyor.Proofs.Pipeline.Dataflow
import Surveyor.Proofs.Source.DeclarationLines
import Surveyor.Proofs.Quality.BodyLines
import Surveyor.Proofs.Catalog.Records
import Surveyor.Proofs.Inspection.Stages
import Surveyor.Proofs.Quality.CommentRuns
import Surveyor.Proofs.Value.Plain
import Surveyor.Proofs.Inspection.Forms
import Surveyor.Proofs.Stack.PlainProfile
import Surveyor.Proofs.Inspection.Shown
import Surveyor.Proofs.Inspection.Sites
import Surveyor.Proofs.Inspection.ReportedSites
import Surveyor.Proofs.Inspection.Projects
import Surveyor.Proofs.Inspection.ReportedParts
import Surveyor.Proofs.Text.Remainder
import Surveyor.Proofs.Text.Sorted
import Surveyor.Proofs.Text.Words
import Surveyor.Proofs.Value.Agreement
import Surveyor.Proofs.Value.Sorting
import Surveyor.Proofs.Inspection.Readings
import Surveyor.Proofs.Quality.Footprint
import Surveyor.Proofs.Inspection.Reordering
import Surveyor.Proofs.Quality.Shielding
import Surveyor.Proofs.Quality.Growth
import Surveyor.Proofs.Quality.MemberCalls
import Surveyor.Proofs.Quality.PackageUse
import Surveyor.Proofs.Quality.ImportUse
import Surveyor.Proofs.Source.ImportNames
import Surveyor.Proofs.Source.LocalNames
import Surveyor.Proofs.Catalog.Holdings
import Surveyor.Proofs.Catalog.TreeLines
import Surveyor.Proofs.Catalog.Inventory
import Surveyor.Proofs.Settings.Readable
import Surveyor.Proofs.FileTree.Canonical
import Surveyor.Proofs.Inspection.Completing
import Surveyor.Proofs.Number.Whole
import Surveyor.Proofs.Score.Counting
import Surveyor.Proofs.Pipeline.Layers
import Surveyor.Proofs.Settings.Described
import Surveyor.Proofs.Inspection.Standard
import Surveyor.Proofs.Inspection.Completion
import Surveyor.Proofs.Inspection.ProjectType
import Surveyor.Proofs.Catalog.Excluding
import Surveyor.Proofs.Command.Reserved
import Surveyor.Proofs.Pipeline.Order
import Surveyor.Proofs.Source.MethodSites
import Surveyor.Proofs.Source.FirstLine
import Surveyor.Proofs.Value.Store
import Surveyor.Proofs.Stack.LanguageLevel
import Surveyor.Proofs.Quality.ComplexityTable
import Surveyor.Proofs.Source.Parameters
import Surveyor.Proofs.Source.CommentSpans
import Surveyor.Proofs.Score.Exact
import Surveyor.Proofs.Pipeline.Discovery
import Surveyor.Proofs.Stack.Frameworks
import Surveyor.Proofs.Inspection.Accounting
import Surveyor.Proofs.Inspection.ScanProgress
import Surveyor.Proofs.Report.Rows
import Surveyor.Proofs.Source.Nesting
import Surveyor.Proofs.Quality.DeclarationOrder
