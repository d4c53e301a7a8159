import Montage.CommandLine
import Montage.Decimal.Binary
import Montage.Decimal.Format
import Montage.Decimal.Numeral
import Montage.Decimal.Shortest
import Montage.Diagnostic
import Montage.Failure
import Montage.Json.Basic
import Montage.Json.Decode
import Montage.Json.Printer
import Montage.Json.Reader
import Montage.Json.Source
import Montage.Main
import Montage.Merge
import Montage.Noted
import Montage.Pass
import Montage.Preset.Artifact
import Montage.Preset.Function
import Montage.Preset.Registry
import Montage.Project.Basic
import Montage.Project.Reader
import Montage.Proofs.Decimal.Canonical
import Montage.Proofs.Decimal.Comparison
import Montage.Proofs.Decimal.Finite
import Montage.Proofs.Decimal.Ordered
import Montage.Proofs.Decimal.Parts
import Montage.Proofs.Decimal.Reading
import Montage.Proofs.Decimal.Rounding
import Montage.Proofs.Decimal.Shortest
import Montage.Proofs.Decimal.Text
import Montage.Proofs.Except
import Montage.Proofs.Json.Fields
import Montage.Proofs.Json.Parts
import Montage.Proofs.Json.WellFormed
import Montage.Proofs.Json.Writing
import Montage.Proofs.Merge.Atomic
import Montage.Proofs.Merge.Commuting
import Montage.Proofs.Merge.Contexts
import Montage.Proofs.Merge.Data
import Montage.Proofs.Merge.Growth
import Montage.Proofs.Merge.Outcomes
import Montage.Proofs.Merge.Repeated
import Montage.Proofs.Merge.Settings
import Montage.Proofs.Merge.Target
import Montage.Proofs.Merge.Valid
import Montage.Proofs.Pass.Isolation
import Montage.Proofs.Pass.Roots
import Montage.Proofs.Pass.Run
import Montage.Proofs.Pass.Strict
import Montage.Proofs.Pass.Valid
import Montage.Proofs.Pass.Wire
import Montage.Proofs.Project.Missing
import Montage.Proofs.Reference.Concatenation
import Montage.Proofs.Reference.Dependence
import Montage.Proofs.Reference.Flexible
import Montage.Proofs.Reference.Indices
import Montage.Proofs.Reference.Missing
import Montage.Proofs.Reference.Notes
import Montage.Proofs.Reference.Occurrence
import Montage.Proofs.Reference.Ranges
import Montage.Proofs.Reference.Slices
import Montage.Proofs.Reference.Times
import Montage.Proofs.Scene.Build
import Montage.Proofs.Scene.Content
import Montage.Proofs.Scene.Growth
import Montage.Proofs.Scene.Matches
import Montage.Proofs.Scene.Position
import Montage.Proofs.Scene.Replacement
import Montage.Proofs.Scene.Result
import Montage.Proofs.Scene.Settings
import Montage.Proofs.Scene.Valid
import Montage.Proofs.Scene.Wire
import Montage.Proofs.Script.Binding
import Montage.Proofs.Script.Bytes.Faithful
import Montage.Proofs.Script.Bytes.Reads
import Montage.Proofs.Script.Bytes.Signs
import Montage.Proofs.Script.Bytes.Tokens
import Montage.Proofs.Script.Bytes.Walk
import Montage.Proofs.Script.Chains
import Montage.Proofs.Script.Closed
import Montage.Proofs.Script.Cursor.Basic
import Montage.Proofs.Script.Cursor.Expressions
import Montage.Proofs.Script.Cursor.Header
import Montage.Proofs.Script.Cursor.Steps
import Montage.Proofs.Script.Cursor.Termination
import Montage.Proofs.Script.Cutting
import Montage.Proofs.Script.Elements
import Montage.Proofs.Script.Equality
import Montage.Proofs.Script.Grammar.Basic
import Montage.Proofs.Script.Grammar.Complete
import Montage.Proofs.Script.Grammar.Sound
import Montage.Proofs.Script.Grammar.Tokens
import Montage.Proofs.Script.Isolated
import Montage.Proofs.Script.JsonText.Embedding
import Montage.Proofs.Script.JsonText.Tokens
import Montage.Proofs.Script.Lexical
import Montage.Proofs.Script.Numbers
import Montage.Proofs.Script.Operations
import Montage.Proofs.Script.Pieces
import Montage.Proofs.Script.Safe
import Montage.Proofs.Script.Simulation
import Montage.Proofs.Script.Splitting
import Montage.Proofs.Script.Texts
import Montage.Proofs.Script.WellFormed
import Montage.Proofs.Script.Words
import Montage.Proofs.Stateful
import Montage.Reference.Missing
import Montage.Reference.Pool
import Montage.Reference.Range
import Montage.Reference.Resolve
import Montage.Reference.Slice
import Montage.Reference.Token
import Montage.Scene.Build
import Montage.Scene.Context
import Montage.Scene.Contribution
import Montage.Scene.Document
import Montage.Scene.Effect
import Montage.Scene.Forest
import Montage.Scene.Node
import Montage.Scene.Template
import Montage.Script.Binder
import Montage.Script.Builtin
import Montage.Script.Code
import Montage.Script.Compile
import Montage.Script.Eval
import Montage.Script.Expr
import Montage.Script.Fetcher
import Montage.Script.Lexer
import Montage.Script.Parser
import Montage.Script.SyntaxError
import Montage.Script.Token
import Montage.Script.Value
import Montage.Text.Blank
import Montage.Text.Digit
import Montage.Text.Hidden
import Montage.Text.Octets
import Montage.Text.Quoted
