import Phrasebook.Calendar.Date
import Phrasebook.Calendar.Moment
import Phrasebook.Calendar.Timestamp
import Phrasebook.Catalog.Basic
import Phrasebook.Catalog.Document
import Phrasebook.Catalog.Json
import Phrasebook.Catalog.Location
import Phrasebook.Catalog.Merge
import Phrasebook.Catalog.Po
import Phrasebook.Command.Arguments
import Phrasebook.Command.Audit
import Phrasebook.Command.Batches
import Phrasebook.Command.Extract
import Phrasebook.Command.Failure
import Phrasebook.Command.Host
import Phrasebook.Command.Input
import Phrasebook.Command.Locale
import Phrasebook.Command.Phrase
import Phrasebook.Command.Request
import Phrasebook.Command.Run
import Phrasebook.Config.Example
import Phrasebook.Config.Reading
import Phrasebook.Config.Settings
import Phrasebook.Config.Validation
import Phrasebook.Decimal.Binary64
import Phrasebook.Decimal.Shortest
import Phrasebook.Files.Failure
import Phrasebook.Files.Path
import Phrasebook.Files.Tree
import Phrasebook.Json.Decode
import Phrasebook.Json.Number
import Phrasebook.Json.Printer
import Phrasebook.Json.Reader
import Phrasebook.Json.Token
import Phrasebook.Json.Value
import Phrasebook.Main
import Phrasebook.Markup.Element
import Phrasebook.Markup.Json
import Phrasebook.Message.Extraction
import Phrasebook.Message.Identity
import Phrasebook.Proofs.Catalog.Delivery
import Phrasebook.Proofs.Catalog.Entries
import Phrasebook.Proofs.Catalog.Merging
import Phrasebook.Proofs.Message.Content
import Phrasebook.Proofs.Message.Edges
import Phrasebook.Proofs.Message.Rebuilding
import Phrasebook.Proofs.Message.Shape
import Phrasebook.Proofs.Message.Walk
import Phrasebook.Proofs.Message.Writing
import Phrasebook.Proofs.Scan.Findings
import Phrasebook.Proofs.Scan.References
import Phrasebook.Proofs.Scan.Reports
import Phrasebook.Proofs.Template.Building
import Phrasebook.Proofs.Template.Grammar
import Phrasebook.Proofs.Template.Lexing
import Phrasebook.Proofs.Template.Reference
import Phrasebook.Proofs.Text.Blank
import Phrasebook.Proofs.Text.Numeral
import Phrasebook.Scan.Options
import Phrasebook.Scan.Unit
import Phrasebook.Template.Error
import Phrasebook.Template.Escape
import Phrasebook.Template.Fill
import Phrasebook.Template.Json
import Phrasebook.Template.Parse
import Phrasebook.Template.Placeholder
import Phrasebook.Template.Token
import Phrasebook.Template.Tree
import Phrasebook.Text.Blank
import Phrasebook.Text.Lines
import Phrasebook.Text.Numeral
import Phrasebook.Toml.Decode
import Phrasebook.Toml.Document
import Phrasebook.Toml.Lexeme
import Phrasebook.Toml.Scalar
import Phrasebook.Toml.Table
import Phrasebook.Toml.Value
import Phrasebook.Proofs.Catalog.Reachable
import Phrasebook.Proofs.Catalog.Comments
import Phrasebook.Proofs.Po.Line
import Phrasebook.Proofs.Po.Layout
import Phrasebook.Proofs.Po.Reader
import Phrasebook.Proofs.Catalog.Collecting
import Phrasebook.Proofs.Catalog.Encoding
import Phrasebook.Proofs.Json.Building
import Phrasebook.Proofs.Json.Decoding
import Phrasebook.Proofs.Json.Lexing
import Phrasebook.Proofs.Json.Nesting
import Phrasebook.Proofs.Json.Number
import Phrasebook.Proofs.Json.Printing
import Phrasebook.Proofs.Json.RoundTrip
import Phrasebook.Proofs.Markup.Encoding
import Phrasebook.Proofs.Template.Encoding
import Phrasebook.Proofs.Template.Filling
import Phrasebook.Proofs.Template.Tiling
import Phrasebook.Proofs.Template.Blame
import Phrasebook.Proofs.Template.Segments
import Phrasebook.Proofs.Template.Values
import Phrasebook.Proofs.Message.Collapsing
import Phrasebook.Proofs.Message.Outcome
import Phrasebook.Proofs.Message.Fixpoint
import Phrasebook.Proofs.Scan.Comments
import Phrasebook.Proofs.Config.Checks
import Phrasebook.Proofs.Lists.Sorting
import Phrasebook.Proofs.Files.Order
import Phrasebook.Proofs.Files.View
import Phrasebook.Proofs.Command.InputOrder
import Phrasebook.Proofs.Command.Recording
import Phrasebook.Proofs.Command.Extracting
import Phrasebook.Proofs.Text.Words
import Phrasebook.Proofs.Message.Identity
import Phrasebook.Proofs.Catalog.Records
import Phrasebook.Proofs.Message.Plain
import Phrasebook.Proofs.Catalog.Accumulating
import Phrasebook.Proofs.Scan.Declarations
import Phrasebook.Proofs.Command.Substitution
import Phrasebook.Proofs.Config.Faults
import Phrasebook.Proofs.Calendar.Days
import Phrasebook.Proofs.Text.Padding
import Phrasebook.Proofs.Calendar.CreationDate
import Phrasebook.Proofs.Template.Escaping
import Phrasebook.Proofs.Message.Capture
import Phrasebook.Proofs.Command.Batching
import Phrasebook.Proofs.Command.Workshop
