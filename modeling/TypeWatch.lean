import TypeWatch.Config.Reading
import TypeWatch.Main
import TypeWatch.Monitor.Step
import TypeWatch.Proofs.Basic
import TypeWatch.Proofs.File.Path
import TypeWatch.Proofs.Monitor.History
import TypeWatch.Proofs.Monitor.Subscription
import TypeWatch.Proofs.Monitor.Recording
import TypeWatch.Proofs.Monitor.Isolation
import TypeWatch.Proofs.Monitor.Ownership
import TypeWatch.Proofs.Lexeme.Extent
import TypeWatch.Proofs.Reading.Cursor
import TypeWatch.Proofs.Reading.Display
import TypeWatch.Proofs.Reading.Expr
import TypeWatch.Proofs.Reading.SimpleStmt
import TypeWatch.Proofs.Reading.Suite
import TypeWatch.Proofs.Scope.Growth
import TypeWatch.Proofs.Scope.Latest
import TypeWatch.Proofs.Scope.Table
import TypeWatch.Proofs.Scope.Declared
import TypeWatch.Proofs.Lexeme.Boundary
import TypeWatch.Proofs.Lexeme.Numeral
import TypeWatch.Proofs.Reading.Bracketed
import TypeWatch.Proofs.Reading.Loops
import TypeWatch.Proofs.Reading.Operands
import TypeWatch.Proofs.Reading.PlainText
import TypeWatch.Proofs.Reading.Progress
import TypeWatch.Proofs.Syntax.Node
import TypeWatch.Proofs.Reading.Nested
import TypeWatch.Proofs.Reading.NestedExpr
import TypeWatch.Proofs.Reading.NestedStmt
import TypeWatch.Proofs.Reading.Shape
import TypeWatch.Proofs.Reading.Spelled
import TypeWatch.Proofs.Typing.Resolution
import TypeWatch.Proofs.Syntax.Grouped
import TypeWatch.Proofs.Reading.Grouped
import TypeWatch.Proofs.Token.Pieces
import TypeWatch.Proofs.Token.Tiling
import TypeWatch.Proofs.Token.Lines
import TypeWatch.Proofs.Value.Escaped
import TypeWatch.Proofs.Value.Integer
import TypeWatch.Proofs.Value.Tree
import TypeWatch.Proofs.Value.RoundTrip
import TypeWatch.Proofs.Lexeme.Joined
import TypeWatch.Proofs.Syntax.Moved
import TypeWatch.Proofs.Reading.Beside
import TypeWatch.Proofs.Reading.Matched
import TypeWatch.Proofs.Reading.Lockstep
import TypeWatch.Proofs.Reading.LockstepExpr
import TypeWatch.Proofs.Reading.Seam
import TypeWatch.Proofs.Reading.Level
import TypeWatch.Proofs.Token.InLine
import TypeWatch.Proofs.Reading.Lone
import TypeWatch.Proofs.Reading.OneLine
import TypeWatch.Proofs.Reading.Context
import TypeWatch.Proofs.Reading.Unpacked
import TypeWatch.Proofs.Reading.BesideStmt
import TypeWatch.Proofs.Reading.BesideSuite
import TypeWatch.Proofs.Token.Joined
import TypeWatch.Proofs.Reading.Joined
import TypeWatch.Proofs.Scope.MovedRegion
import TypeWatch.Proofs.Scope.Appended
import TypeWatch.Proofs.Syntax.Fixed
import TypeWatch.Proofs.Token.Gathered
import TypeWatch.Proofs.Lexeme.Shorter
import TypeWatch.Proofs.Reading.Gathered
import TypeWatch.Proofs.Typing.Grounded
import TypeWatch.Proofs.Typing.Forward
import TypeWatch.Proofs.Typing.Visible
import TypeWatch.Proofs.Lexeme.Returns
import TypeWatch.Proofs.Token.Returns
import TypeWatch.Proofs.Scope.Returns
import TypeWatch.Proofs.Value.Subclass
import TypeWatch.Proofs.Typing.Arity
import TypeWatch.Proofs.Typing.Subsumption
import TypeWatch.Proofs.Typing.Replacement
import TypeWatch.Proofs.Typing.Shown
import TypeWatch.Proofs.Scope.Filling
import TypeWatch.Proofs.Value.Nearest
import TypeWatch.Proofs.Value.Content
import TypeWatch.Proofs.Value.Equivalence
import TypeWatch.Proofs.Value.Distinct
import TypeWatch.Proofs.Value.SetOrder
import TypeWatch.Proofs.Value.FirstKept
import TypeWatch.Proofs.Value.Evaluated
import TypeWatch.Proofs.Value.Built
import TypeWatch.Proofs.Lexeme.Radix
import TypeWatch.Proofs.Value.IntegerLiteral
import TypeWatch.Proofs.Source.Line
import TypeWatch.Proofs.Source.Caret
import TypeWatch.Proofs.Reading.Children
import TypeWatch.Proofs.Reading.Blame
import TypeWatch.Proofs.Reading.BlameStmt
import TypeWatch.Proofs.Token.Cut
import TypeWatch.Proofs.Reading.Rejected
import TypeWatch.Proofs.Reading.OpenTuple
import TypeWatch.Proofs.Reading.Single
import TypeWatch.Proofs.Reading.Parameter
import TypeWatch.Proofs.Reading.ParameterText
import TypeWatch.Proofs.Reading.Signature
import TypeWatch.Proofs.Monitor.NameOrder
