import Chronicle.CommandLine.Options
import Chronicle.CommandLine.Session
import Chronicle.Error
import Chronicle.Evaluation.Expression
import Chronicle.Evaluation.Property
import Chronicle.Failure
import Chronicle.Fault
import Chronicle.Function
import Chronicle.Grammar.Character
import Chronicle.Grammar.Cursor
import Chronicle.Grammar.Function
import Chronicle.Grammar.Lexeme
import Chronicle.Grammar.Literal
import Chronicle.Grammar.Markup
import Chronicle.Grammar.Member
import Chronicle.Grammar.Operand
import Chronicle.Grammar.Operation
import Chronicle.Grammar.Parser
import Chronicle.Grammar.Pattern
import Chronicle.Grammar.Program
import Chronicle.Grammar.Rule
import Chronicle.Grammar.Statement
import Chronicle.Grammar.StatementEnd
import Chronicle.Language
import Chronicle.Locate
import Chronicle.Location
import Chronicle.Log
import Chronicle.Main
import Chronicle.Method.Argument
import Chronicle.Method.Call
import Chronicle.Method.Global
import Chronicle.Method.Number
import Chronicle.Method.Sequence
import Chronicle.Method.Text
import Chronicle.Node
import Chronicle.Node.Children
import Chronicle.Number.Arithmetic
import Chronicle.Number.Basic
import Chronicle.Number.Binary64
import Chronicle.Number.Bits
import Chronicle.Number.Radix
import Chronicle.Number.Reading
import Chronicle.Number.Shortest
import Chronicle.Number.Writing
import Chronicle.Operator.Binary
import Chronicle.Operator.Unary
import Chronicle.Parameter
import Chronicle.ParameterDoc.Basic
import Chronicle.ParameterDoc.Builder
import Chronicle.ParameterDoc.Comment
import Chronicle.ParameterDoc.Line
import Chronicle.ParameterDoc.Path
import Chronicle.ParameterDoc.Values
import Chronicle.Proofs.Abreast
import Chronicle.Proofs.Evaluation.Above
import Chronicle.Proofs.Evaluation.Accounted
import Chronicle.Proofs.Evaluation.Appended
import Chronicle.Proofs.Evaluation.Calm
import Chronicle.Proofs.Evaluation.Contained
import Chronicle.Proofs.Evaluation.Expansion
import Chronicle.Proofs.Evaluation.Faults
import Chronicle.Proofs.Evaluation.Lasting
import Chronicle.Proofs.Evaluation.Normal
import Chronicle.Proofs.Evaluation.NormalSteps
import Chronicle.Proofs.Evaluation.Parallel
import Chronicle.Proofs.Evaluation.Parts
import Chronicle.Proofs.Evaluation.Pure
import Chronicle.Proofs.Evaluation.Replaced
import Chronicle.Proofs.Evaluation.Slots
import Chronicle.Proofs.Evaluation.Throughout
import Chronicle.Proofs.Evaluation.Watched
import Chronicle.Proofs.Locate
import Chronicle.Proofs.Locate.Exact
import Chronicle.Proofs.Locate.Extract
import Chronicle.Proofs.Method.Call
import Chronicle.Proofs.Method.Search
import Chronicle.Proofs.Method.Slice
import Chronicle.Proofs.Method.Split
import Chronicle.Proofs.Method.Stores
import Chronicle.Proofs.Node.Everywhere
import Chronicle.Proofs.Node.Position
import Chronicle.Proofs.Number.Bits
import Chronicle.Proofs.Number.Literal
import Chronicle.Proofs.Number.Moderate
import Chronicle.Proofs.Number.Radix
import Chronicle.Proofs.Number.Word
import Chronicle.Proofs.Operator.Class
import Chronicle.Proofs.Operator.Integer
import Chronicle.Proofs.Operator.Order
import Chronicle.Proofs.Operator.Total
import Chronicle.Proofs.Outcome
import Chronicle.Proofs.ParameterDoc.Accepted
import Chronicle.Proofs.ParameterDoc.Failures
import Chronicle.Proofs.ParameterDoc.Layout
import Chronicle.Proofs.ParameterDoc.Line
import Chronicle.Proofs.ParameterDoc.Nested
import Chronicle.Proofs.ParameterDoc.Normal
import Chronicle.Proofs.ParameterDoc.ObjectLines
import Chronicle.Proofs.ParameterDoc.Path
import Chronicle.Proofs.Reading.Array
import Chronicle.Proofs.Reading.Forms
import Chronicle.Proofs.Reading.Regular
import Chronicle.Proofs.Reading.Stripped
import Chronicle.Proofs.Reading.Template
import Chronicle.Proofs.Reading.Unescaped
import Chronicle.Proofs.Run.Classified
import Chronicle.Proofs.Run.ControlFlow
import Chronicle.Proofs.Run.Course
import Chronicle.Proofs.Run.Fidelity
import Chronicle.Proofs.Run.Frame
import Chronicle.Proofs.Run.Independent
import Chronicle.Proofs.Run.Lasting
import Chronicle.Proofs.Run.Limit
import Chronicle.Proofs.Run.Normal
import Chronicle.Proofs.Run.Parallel
import Chronicle.Proofs.Run.Parameters
import Chronicle.Proofs.Run.Replaced
import Chronicle.Proofs.Run.Roles
import Chronicle.Proofs.Run.Stamps
import Chronicle.Proofs.Run.Statement
import Chronicle.Proofs.Run.Throughout
import Chronicle.Proofs.Run.Transparent
import Chronicle.Proofs.Run.Watched
import Chronicle.Proofs.Store.History
import Chronicle.Proofs.Store.Operations
import Chronicle.Proofs.Store.Overlay
import Chronicle.Proofs.Store.Resolution
import Chronicle.Proofs.Store.Scopes
import Chronicle.Proofs.Store.World
import Chronicle.Proofs.Text.Bracketed
import Chronicle.Proofs.Text.Escape
import Chronicle.Proofs.Text.EscapePattern
import Chronicle.Proofs.Text.Numeral
import Chronicle.Proofs.Text.Pattern
import Chronicle.Proofs.Text.Search
import Chronicle.Proofs.Text.Trim
import Chronicle.Proofs.Text.Utf8
import Chronicle.Proofs.Tree.Comments
import Chronicle.Proofs.Tree.FirstError
import Chronicle.Proofs.Tree.Preorder
import Chronicle.Proofs.Triple
import Chronicle.Proofs.Value.Above
import Chronicle.Proofs.Value.Cycles
import Chronicle.Proofs.Value.Equality
import Chronicle.Proofs.Value.Faults
import Chronicle.Proofs.Value.Fields
import Chronicle.Proofs.Value.Format
import Chronicle.Proofs.Value.Nesting
import Chronicle.Proofs.Value.Normal
import Chronicle.Proofs.Value.NormalResults
import Chronicle.Proofs.Value.Same
import Chronicle.Proofs.Value.Separate
import Chronicle.Proofs.Value.Spared
import Chronicle.Proofs.Value.Stores
import Chronicle.Proofs.Value.Unshared
import Chronicle.Reading.Basic
import Chronicle.Reading.Expression
import Chronicle.Reading.Function
import Chronicle.Reading.Literal
import Chronicle.Reading.Program
import Chronicle.Reading.Statement
import Chronicle.Report.Json
import Chronicle.Report.Record
import Chronicle.Report.Statistics
import Chronicle.Report.Table
import Chronicle.Run.Execute
import Chronicle.Run.Parameters
import Chronicle.Run.Statement
import Chronicle.Run.Trace
import Chronicle.Source
import Chronicle.Store.Binding
import Chronicle.Store.Scope
import Chronicle.Store.World
import Chronicle.Text.Blank
import Chronicle.Text.Case
import Chronicle.Text.CaseTable
import Chronicle.Text.Digits
import Chronicle.Text.Escape
import Chronicle.Text.Printable
import Chronicle.Text.Quoted
import Chronicle.Text.Search
import Chronicle.Text.Utf8
import Chronicle.Tracing
import Chronicle.Tree
import Chronicle.Tree.Comments
import Chronicle.Tree.FirstError
import Chronicle.Tree.Function
import Chronicle.Value.Basic
import Chronicle.Value.Coercion
import Chronicle.Value.Equality
import Chronicle.Value.Heap
