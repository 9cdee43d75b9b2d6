import SvgWorkbench.Batch
import SvgWorkbench.Bench.Argument
import SvgWorkbench.Bench.Basic
import SvgWorkbench.Bench.Call
import SvgWorkbench.Component.Basic
import SvgWorkbench.Component.Lookup
import SvgWorkbench.Component.Outline
import SvgWorkbench.Config.Basic
import SvgWorkbench.Config.Format
import SvgWorkbench.Config.FromJson
import SvgWorkbench.Config.FromYaml
import SvgWorkbench.Decimal.Reading
import SvgWorkbench.Decimal.Shortest
import SvgWorkbench.Document.Basic
import SvgWorkbench.Document.Direction
import SvgWorkbench.Drawing
import SvgWorkbench.Edit.Basic
import SvgWorkbench.Edit.Group
import SvgWorkbench.Edit.Highlight
import SvgWorkbench.Edit.Property
import SvgWorkbench.Edit.Structure
import SvgWorkbench.Gate.Check
import SvgWorkbench.Gate.Content
import SvgWorkbench.Gate.Fault
import SvgWorkbench.Gate.Lexeme
import SvgWorkbench.Gate.Namespace
import SvgWorkbench.Gate.Prolog
import SvgWorkbench.Gate.Reference
import SvgWorkbench.Gate.Tag
import SvgWorkbench.History
import SvgWorkbench.Json.Number
import SvgWorkbench.Json.Reader
import SvgWorkbench.Json.Value
import SvgWorkbench.Markup.Content
import SvgWorkbench.Markup.Fault
import SvgWorkbench.Markup.Reader
import SvgWorkbench.Markup.Reference
import SvgWorkbench.Markup.Token
import SvgWorkbench.Markup.Writer
import SvgWorkbench.Naming
import SvgWorkbench.Proofs.Bench.Thrown
import SvgWorkbench.Proofs.Bench.Work
import SvgWorkbench.Proofs.Component.Linked
import SvgWorkbench.Proofs.Component.Lookup
import SvgWorkbench.Proofs.Component.Nesting
import SvgWorkbench.Proofs.Component.Outline
import SvgWorkbench.Proofs.Component.Place
import SvgWorkbench.Proofs.Component.Spares
import SvgWorkbench.Proofs.Component.Tour
import SvgWorkbench.Proofs.Document.Added
import SvgWorkbench.Proofs.Document.Arena
import SvgWorkbench.Proofs.Document.Change
import SvgWorkbench.Proofs.Document.Context
import SvgWorkbench.Proofs.Document.Forest
import SvgWorkbench.Proofs.Document.Handle
import SvgWorkbench.Proofs.Document.Held
import SvgWorkbench.Proofs.Document.Insert
import SvgWorkbench.Proofs.Document.Neighbour
import SvgWorkbench.Proofs.Document.Place
import SvgWorkbench.Proofs.Document.RoundTrip
import SvgWorkbench.Proofs.Document.Stored
import SvgWorkbench.Proofs.Document.TakenOut
import SvgWorkbench.Proofs.Drawing.Altered
import SvgWorkbench.Proofs.Drawing.Context
import SvgWorkbench.Proofs.Drawing.Expanded
import SvgWorkbench.Proofs.Drawing.Heading
import SvgWorkbench.Proofs.Drawing.Identify
import SvgWorkbench.Proofs.Drawing.Image
import SvgWorkbench.Proofs.Drawing.Normal
import SvgWorkbench.Proofs.Drawing.OfDocument
import SvgWorkbench.Proofs.Drawing.Ordinary
import SvgWorkbench.Proofs.Drawing.Outline
import SvgWorkbench.Proofs.Drawing.Place
import SvgWorkbench.Proofs.Drawing.Positional
import SvgWorkbench.Proofs.Drawing.Reparse
import SvgWorkbench.Proofs.Drawing.Restored
import SvgWorkbench.Proofs.Drawing.Retouched
import SvgWorkbench.Proofs.Drawing.Rewritten
import SvgWorkbench.Proofs.Drawing.Serialized
import SvgWorkbench.Proofs.Drawing.Settled
import SvgWorkbench.Proofs.Drawing.Shape
import SvgWorkbench.Proofs.Drawing.Site
import SvgWorkbench.Proofs.Drawing.Sound
import SvgWorkbench.Proofs.Drawing.Spared
import SvgWorkbench.Proofs.Drawing.Stage
import SvgWorkbench.Proofs.Drawing.Start
import SvgWorkbench.Proofs.Drawing.Unique
import SvgWorkbench.Proofs.Drawing.View
import SvgWorkbench.Proofs.Edit.Added
import SvgWorkbench.Proofs.Edit.Adjusted
import SvgWorkbench.Proofs.Edit.Attribute
import SvgWorkbench.Proofs.Edit.Clipboard
import SvgWorkbench.Proofs.Edit.Copied
import SvgWorkbench.Proofs.Edit.CutOut
import SvgWorkbench.Proofs.Edit.Declaration
import SvgWorkbench.Proofs.Edit.Exchanged
import SvgWorkbench.Proofs.Edit.Inserted
import SvgWorkbench.Proofs.Edit.Located
import SvgWorkbench.Proofs.Edit.Name
import SvgWorkbench.Proofs.Edit.Normal
import SvgWorkbench.Proofs.Edit.Outlined
import SvgWorkbench.Proofs.Edit.Removed
import SvgWorkbench.Proofs.Edit.Shared
import SvgWorkbench.Proofs.Edit.Spared
import SvgWorkbench.Proofs.Edit.Success
import SvgWorkbench.Proofs.Edit.Tag
import SvgWorkbench.Proofs.Edit.Unique
import SvgWorkbench.Proofs.Edit.Written
import SvgWorkbench.Proofs.Gate.Declaration
import SvgWorkbench.Proofs.Gate.Doctype
import SvgWorkbench.Proofs.Gate.Follow
import SvgWorkbench.Proofs.Gate.FollowDocument
import SvgWorkbench.Proofs.Gate.Front
import SvgWorkbench.Proofs.Gate.Kept
import SvgWorkbench.Proofs.Gate.Lexeme
import SvgWorkbench.Proofs.Gate.Namespace
import SvgWorkbench.Proofs.Gate.Piece
import SvgWorkbench.Proofs.Gate.Pieces
import SvgWorkbench.Proofs.Gate.Reference
import SvgWorkbench.Proofs.Gate.Shown
import SvgWorkbench.Proofs.Gate.Step
import SvgWorkbench.Proofs.Gate.Tag
import SvgWorkbench.Proofs.Gate.Written
import SvgWorkbench.Proofs.Gate.WrittenDoctype
import SvgWorkbench.Proofs.Gate.WrittenDocument
import SvgWorkbench.Proofs.Gate.WrittenTag
import SvgWorkbench.Proofs.History
import SvgWorkbench.Proofs.History.Timeline
import SvgWorkbench.Proofs.IdReading
import SvgWorkbench.Proofs.IdReading.Listing
import SvgWorkbench.Proofs.Markup.Attribute
import SvgWorkbench.Proofs.Markup.Contents
import SvgWorkbench.Proofs.Markup.Cut
import SvgWorkbench.Proofs.Markup.Declared
import SvgWorkbench.Proofs.Markup.Element
import SvgWorkbench.Proofs.Markup.Escape
import SvgWorkbench.Proofs.Markup.Expand
import SvgWorkbench.Proofs.Markup.Found
import SvgWorkbench.Proofs.Markup.Kind
import SvgWorkbench.Proofs.Markup.Name
import SvgWorkbench.Proofs.Markup.RoundTrip
import SvgWorkbench.Proofs.Markup.Run
import SvgWorkbench.Proofs.Markup.Settled
import SvgWorkbench.Proofs.Markup.Tag
import SvgWorkbench.Proofs.Naming
import SvgWorkbench.Proofs.Naming.Search
import SvgWorkbench.Proofs.Quantity
import SvgWorkbench.Proofs.Session.Added
import SvgWorkbench.Proofs.Session.Coherent
import SvgWorkbench.Proofs.Session.Confined
import SvgWorkbench.Proofs.Session.Drawn
import SvgWorkbench.Proofs.Session.Live
import SvgWorkbench.Proofs.Session.Outcome
import SvgWorkbench.Proofs.Session.Recorded
import SvgWorkbench.Proofs.Session.Refusal
import SvgWorkbench.Proofs.Session.Reversal
import SvgWorkbench.Proofs.Session.Step
import SvgWorkbench.Proofs.SortedMap
import SvgWorkbench.Proofs.Store
import SvgWorkbench.Proofs.Store.Log
import SvgWorkbench.Proofs.Style
import SvgWorkbench.Proofs.Style.RoundTrip
import SvgWorkbench.Proofs.Text.Split
import SvgWorkbench.Proofs.Transcript
import SvgWorkbench.Proofs.Tree.Context
import SvgWorkbench.Proofs.Tree.Rel
import SvgWorkbench.Proofs.Tree.Subtrees
import SvgWorkbench.Proofs.Tree.Tour
import SvgWorkbench.Proofs.Tree.Walk
import SvgWorkbench.Quantity
import SvgWorkbench.Selection
import SvgWorkbench.Session.Action
import SvgWorkbench.Session.Basic
import SvgWorkbench.SortedMap
import SvgWorkbench.Store
import SvgWorkbench.Style
import SvgWorkbench.TagName
import SvgWorkbench.Text.AsciiCase
import SvgWorkbench.Text.Blank
import SvgWorkbench.Text.LowerCase
import SvgWorkbench.Text.Numeral
import SvgWorkbench.Text.Octets
import SvgWorkbench.Text.Quoted
import SvgWorkbench.Text.Split
import SvgWorkbench.Text.Table.CaseContext
import SvgWorkbench.Text.Table.DecimalDigit
import SvgWorkbench.Text.Table.LowerCase
import SvgWorkbench.Text.Table.Range
import SvgWorkbench.Text.Table.Unprintable
import SvgWorkbench.Tree
import SvgWorkbench.Tree.Walk
import SvgWorkbench.Xml.Character
import SvgWorkbench.Xml.Mark
import SvgWorkbench.Yaml.Layout
import SvgWorkbench.Yaml.Reader
import SvgWorkbench.Yaml.Scalar
import SvgWorkbench.Yaml.Value
