import SkeletonWeave.Bridge.Binding
import SkeletonWeave.Bridge.Call
import SkeletonWeave.Bridge.Failure
import SkeletonWeave.Bridge.Inventory
import SkeletonWeave.Bridge.Json
import SkeletonWeave.Bridge.Overload
import SkeletonWeave.Bridge.Plan
import SkeletonWeave.Bridge.Stub
import SkeletonWeave.Code.Fragment
import SkeletonWeave.Command.Check
import SkeletonWeave.Command.Generate
import SkeletonWeave.Command.Help
import SkeletonWeave.Command.Job
import SkeletonWeave.Command.Line
import SkeletonWeave.Command.Needs
import SkeletonWeave.Command.Report
import SkeletonWeave.Command.Run
import SkeletonWeave.Condition.Expression
import SkeletonWeave.Condition.Macros
import SkeletonWeave.Condition.Reader
import SkeletonWeave.Condition.Value
import SkeletonWeave.Configuration.Basic
import SkeletonWeave.Configuration.Check
import SkeletonWeave.Configuration.Decode
import SkeletonWeave.Configuration.Error
import SkeletonWeave.Configuration.File
import SkeletonWeave.Configuration.Json
import SkeletonWeave.Declaration.Basic
import SkeletonWeave.Declaration.Batch
import SkeletonWeave.Declaration.Declarator
import SkeletonWeave.Declaration.Extent
import SkeletonWeave.Declaration.Json
import SkeletonWeave.Declaration.Reader
import SkeletonWeave.Declaration.Table
import SkeletonWeave.Declaration.TypeExpr
import SkeletonWeave.Declaration.TypeReader
import SkeletonWeave.Declaration.Words
import SkeletonWeave.Edit.Basic
import SkeletonWeave.FileSystem.Basic
import SkeletonWeave.FileSystem.Path
import SkeletonWeave.FileSystem.Write
import SkeletonWeave.Generation.Basic
import SkeletonWeave.Generation.Coverage
import SkeletonWeave.Generation.Diagnostic
import SkeletonWeave.Generation.Failure
import SkeletonWeave.Generation.Resolution
import SkeletonWeave.Generation.Server
import SkeletonWeave.Generation.Snapshot
import SkeletonWeave.Generation.Stage
import SkeletonWeave.Generation.Symbols
import SkeletonWeave.Json.Value
import SkeletonWeave.Main
import SkeletonWeave.Pattern.Basic
import SkeletonWeave.Pattern.CharSet
import SkeletonWeave.Pattern.Reader
import SkeletonWeave.Preprocess.Basic
import SkeletonWeave.Preprocess.Directive
import SkeletonWeave.Source.Error
import SkeletonWeave.Source.Place
import SkeletonWeave.Text.Blank
import SkeletonWeave.Text.Case
import SkeletonWeave.Text.Lines
import SkeletonWeave.Text.Position
import SkeletonWeave.Text.Search
import SkeletonWeave.Text.Unicode.CasedRanges
import SkeletonWeave.Text.Unicode.DigitRanges
import SkeletonWeave.Text.Unicode.FoldRuns
import SkeletonWeave.Text.Unicode.IgnorableRanges
import SkeletonWeave.Text.Unicode.LowerRuns
import SkeletonWeave.Text.Unicode.Ranges
import SkeletonWeave.Text.Unicode.WordRanges
import SkeletonWeave.Token.Basic
import SkeletonWeave.Token.Lexeme
import SkeletonWeave.Token.Lexer
import SkeletonWeave.Toml.Document
import SkeletonWeave.Toml.Scalar
import SkeletonWeave.Toml.Value
import SkeletonWeave.Proofs.Edit.Overlap
import SkeletonWeave.Proofs.Edit.Splice
import SkeletonWeave.Proofs.Text.Lines
import SkeletonWeave.Proofs.Token.Lexemes
import SkeletonWeave.Proofs.Token.Place
import SkeletonWeave.Proofs.Preprocess.Stream
import SkeletonWeave.Proofs.Preprocess.Calls
import SkeletonWeave.Proofs.Preprocess.Blocks
import SkeletonWeave.Proofs.Preprocess.Termination
import SkeletonWeave.Proofs.Declaration.Extent
import SkeletonWeave.Proofs.Declaration.Layout
import SkeletonWeave.Proofs.Declaration.Forms
import SkeletonWeave.Proofs.Declaration.Outline
import SkeletonWeave.Proofs.Declaration.Reading
import SkeletonWeave.Proofs.Token.Lead
import SkeletonWeave.Proofs.Token.Spacing
import SkeletonWeave.Proofs.Declaration.Grammar
import SkeletonWeave.Proofs.Declaration.Angles
import SkeletonWeave.Proofs.Declaration.Types
import SkeletonWeave.Proofs.Declaration.TypeReading
import SkeletonWeave.Proofs.Generation.Stages
import SkeletonWeave.Proofs.Generation.Handler
import SkeletonWeave.Proofs.Generation.Server
import SkeletonWeave.Proofs.Command.Agreement
import SkeletonWeave.Proofs.Declaration.Declarators
import SkeletonWeave.Proofs.Declaration.Written
import SkeletonWeave.Proofs.Declaration.RoundTrip
import SkeletonWeave.Proofs.Declaration.Nesting
import SkeletonWeave.Proofs.Declaration.Acceptance
import SkeletonWeave.Proofs.Generation.Lookup
import SkeletonWeave.Proofs.Declaration.Definition
import SkeletonWeave.Proofs.Generation.Bodies
import SkeletonWeave.Proofs.FirstOccurrences
import SkeletonWeave.Proofs.Bridge.Binding
import SkeletonWeave.Proofs.Bridge.Callbacks
import SkeletonWeave.Proofs.Generation.Resolution
import SkeletonWeave.Proofs.Generation.Callbacks
import SkeletonWeave.Proofs.Generation.Coverage
import SkeletonWeave.Proofs.Declaration.Places
import SkeletonWeave.Proofs.Declaration.Rewriting
import SkeletonWeave.Proofs.Declaration.Rereading
import SkeletonWeave.Proofs.Declaration.Redeclared
import SkeletonWeave.Proofs.Declaration.RewrittenClasses
import SkeletonWeave.Proofs.Declaration.Inserting
import SkeletonWeave.Proofs.Declaration.Progress
import SkeletonWeave.Proofs.Declaration.Grouped
import SkeletonWeave.Proofs.Declaration.Taking
import SkeletonWeave.Proofs.Declaration.RewrittenMembers
import SkeletonWeave.Proofs.Declaration.RewrittenScopes
import SkeletonWeave.Proofs.Token.Relexing
import SkeletonWeave.Proofs.Token.Retiling
import SkeletonWeave.Proofs.Token.Replacing
import SkeletonWeave.Proofs.Token.Respacing
import SkeletonWeave.Proofs.Token.Flaws
import SkeletonWeave.Proofs.Preprocess.Failures
import SkeletonWeave.Proofs.Preprocess.Including
import SkeletonWeave.Proofs.Preprocess.Rewritten
import SkeletonWeave.Proofs.FileSystem.Exchange
import SkeletonWeave.Proofs.Preprocess.Exchanged
import SkeletonWeave.Proofs.Token.Commenting
import SkeletonWeave.Proofs.Token.Bracing
import SkeletonWeave.Proofs.Token.Filling
import SkeletonWeave.Proofs.Generation.Rewriting
import SkeletonWeave.Proofs.Generation.Replacing
import SkeletonWeave.Proofs.Generation.Rereading
import SkeletonWeave.Proofs.Declaration.Deciding
import SkeletonWeave.Proofs.Generation.Readable
import SkeletonWeave.Proofs.Declaration.Spans
import SkeletonWeave.Proofs.Generation.Attempts
import SkeletonWeave.Proofs.Generation.Signatures
import SkeletonWeave.Proofs.Token.ByteReader
import SkeletonWeave.Proofs.Token.Partition
import SkeletonWeave.Proofs.Token.DirectiveLines
import SkeletonWeave.Proofs.Declaration.SharedBase
import SkeletonWeave.Proofs.Declaration.Heads
import SkeletonWeave.Proofs.Declaration.Defaults
import SkeletonWeave.Proofs.Declaration.Alike
import SkeletonWeave.Proofs.Declaration.Templates
import SkeletonWeave.Proofs.Condition.Precedence
import SkeletonWeave.Proofs.Condition.Evaluation
import SkeletonWeave.Proofs.Edit.Bounds
import SkeletonWeave.Proofs.Bridge.Overload
import SkeletonWeave.Proofs.Bridge.Result
import SkeletonWeave.Proofs.Token.Adjoining
import SkeletonWeave.Proofs.Declaration.Spelling
import SkeletonWeave.Proofs.Declaration.Pointers
import SkeletonWeave.Proofs.Bridge.Address
import SkeletonWeave.Proofs.Token.LineStarts
import SkeletonWeave.Proofs.Generation.Placing
import SkeletonWeave.Proofs.Declaration.TypeNames
import SkeletonWeave.Proofs.Declaration.ElementSize
import SkeletonWeave.Proofs.Bridge.SizeMismatch
import SkeletonWeave.Proofs.Declaration.Aliases
import SkeletonWeave.Proofs.Declaration.FunctionHeads
import SkeletonWeave.Proofs.Declaration.Initializers
import SkeletonWeave.Proofs.Text.LineIndexes
import SkeletonWeave.Proofs.Text.Splitting
import SkeletonWeave.Proofs.Configuration.Names
import SkeletonWeave.Proofs.Configuration.Rules
import SkeletonWeave.Proofs.Bridge.BodyLines
