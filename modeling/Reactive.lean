import Reactive.CommandLine.Arguments
import Reactive.CommandLine.Files
import Reactive.CommandLine.Run
import Reactive.Compile
import Reactive.Component.Basic
import Reactive.Component.Codec
import Reactive.Emit.Listing
import Reactive.Emit.Markup
import Reactive.Emit.Program
import Reactive.Emit.Step
import Reactive.Error
import Reactive.Facts.Analyze
import Reactive.Facts.Basic
import Reactive.Facts.Codec
import Reactive.Facts.Effects
import Reactive.Facts.Mutation
import Reactive.Json.Quoted
import Reactive.Json.Reader
import Reactive.Json.Value
import Reactive.Json.Writer
import Reactive.Main
import Reactive.Markup.Arena
import Reactive.Markup.Builder.Body
import Reactive.Markup.Builder.Document
import Reactive.Markup.Builder.Formatting
import Reactive.Markup.Builder.Head
import Reactive.Markup.Builder.Select
import Reactive.Markup.Builder.State
import Reactive.Markup.Builder.Table
import Reactive.Markup.Doctype
import Reactive.Markup.Dom
import Reactive.Markup.Entity
import Reactive.Markup.Foreign
import Reactive.Markup.Name
import Reactive.Markup.Parse
import Reactive.Markup.Reference
import Reactive.Markup.Token
import Reactive.Markup.Tokenizer
import Reactive.Notify
import Reactive.Options
import Reactive.Proofs.Document.Attach
import Reactive.Proofs.Document.Basic
import Reactive.Proofs.Document.Forest
import Reactive.Proofs.Document.Teardown
import Reactive.Proofs.Emit.Expressions
import Reactive.Proofs.Emit.Forest
import Reactive.Proofs.Emit.Walk
import Reactive.Proofs.Facts.Consistency
import Reactive.Proofs.Facts.Layers
import Reactive.Proofs.Facts.Progress
import Reactive.Proofs.Notify.Announce
import Reactive.Proofs.Notify.Insertions
import Reactive.Proofs.Notify.Meaning
import Reactive.Proofs.Notify.Sites
import Reactive.Proofs.Refresh.Cascade
import Reactive.Proofs.Refresh.Current
import Reactive.Proofs.Refresh.Firing
import Reactive.Proofs.Refresh.Guards
import Reactive.Proofs.Script.Address
import Reactive.Proofs.Script.Lookup
import Reactive.Script.Lexer
import Reactive.Script.Names
import Reactive.Script.Number
import Reactive.Script.Operator
import Reactive.Script.Parse
import Reactive.Script.Parser.Class
import Reactive.Script.Parser.Expression
import Reactive.Script.Parser.Module
import Reactive.Script.Parser.Pattern
import Reactive.Script.Parser.State
import Reactive.Script.Parser.Statement
import Reactive.Script.Parser.Target
import Reactive.Script.Print
import Reactive.Script.Printer.Comment
import Reactive.Script.Printer.Expression
import Reactive.Script.Printer.Function
import Reactive.Script.Printer.Literal
import Reactive.Script.Printer.Module
import Reactive.Script.Printer.Page
import Reactive.Script.Printer.Part
import Reactive.Script.Printer.Pattern
import Reactive.Script.Printer.Statement
import Reactive.Script.Scope.Basic
import Reactive.Script.Scope.Build
import Reactive.Script.Scope.Cursor
import Reactive.Script.Snippet
import Reactive.Script.Token
import Reactive.Script.Tree
import Reactive.Source.Block
import Reactive.Source.Brace
import Reactive.Source.Build
import Reactive.Source.Fragment
import Reactive.Source.Placeholder
import Reactive.Source.Template
import Reactive.Text.Blank
import Reactive.Text.Letters
import Reactive.Text.Lines
import Reactive.Text.Search
import Reactive.Proofs.Script.Outline
import Reactive.Proofs.Script.Replay
import Reactive.Proofs.Script.Enclosing
import Reactive.Proofs.Script.Spans.Statement
import Reactive.Proofs.Facts.Writes
import Reactive.Proofs.Script.Binder
import Reactive.Proofs.Emit.Function
import Reactive.Proofs.Notify.Binders
import Reactive.Proofs.Emit.Hygiene
import Reactive.Proofs.Source.Region
import Reactive.Proofs.Source.Cut
import Reactive.Proofs.Source.Placeholder
import Reactive.Proofs.Source.Fragment
import Reactive.Proofs.Notify.Startup
import Reactive.Proofs.Emit.Validity
import Reactive.Proofs.Source.Table
import Reactive.Proofs.Script.Free
import Reactive.Proofs.Json.Reading
import Reactive.Proofs.Component.RoundTrip
import Reactive.Proofs.Text.Lines
import Reactive.Proofs.Script.Scanning
import Reactive.Proofs.Script.Relaid
import Reactive.Proofs.Script.Readers
import Reactive.Proofs.Emit.Rendering
import Reactive.Proofs.Facts.Dependencies
import Reactive.Proofs.Script.Declarations
import Reactive.Proofs.Facts.Reads
import Reactive.Proofs.Script.Moved
import Reactive.Proofs.Facts.Commute
import Reactive.Proofs.Source.Padding
import Reactive.Proofs.Source.Splitting
import Reactive.Proofs.Source.Value
import Reactive.Proofs.Emit.Decoding
import Reactive.Proofs.Script.Literal
import Reactive.Proofs.Script.Spelling
import Reactive.Proofs.Script.Printing
import Reactive.Proofs.Script.Surroundings
import Reactive.Proofs.Script.Grouping
import Reactive.Proofs.Script.Chains
import Reactive.Proofs.Script.Operators
import Reactive.Proofs.Script.Rereading
import Reactive.Proofs.Script.Splicing
import Reactive.Proofs.CommandLine.Arguments
import Reactive.Proofs.CommandLine.Delivery
import Reactive.Proofs.Emit.Handles
import Reactive.Proofs.Script.Ancestry
import Reactive.Proofs.Source.Grammar
import Reactive.Proofs.Facts.Targets
import Reactive.Proofs.Facts.Leaves
