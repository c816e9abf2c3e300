import Scriptlet.Cursor
import Scriptlet.Main
import Scriptlet.Proofs.Window.Balance
import Scriptlet.Proofs.Window.Cut
import Scriptlet.Proofs.Window.Closing
import Scriptlet.Proofs.Conditional.Shape
import Scriptlet.Proofs.Machine.Step
import Scriptlet.Proofs.Machine.Session
import Scriptlet.Proofs.Expression.Grammar
import Scriptlet.Proofs.Expression.Tree
import Scriptlet.Proofs.Expression.Shapes
import Scriptlet.Proofs.Structured.Semantics
import Scriptlet.Proofs.Structured.Refinement
import Scriptlet.Proofs.Source.Lexeme
import Scriptlet.Proofs.Source.Lossless
import Scriptlet.Proofs.Conditional.Derivation
import Scriptlet.Proofs.Machine.Run
import Scriptlet.Proofs.Machine.Reentry
import Scriptlet.Proofs.Expression.Calculator
import Scriptlet.Proofs.Machine.Ladder
import Scriptlet.Proofs.Machine.Simulation
import Scriptlet.Proofs.Conditional.Levels
import Scriptlet.Proofs.Machine.Depth
import Scriptlet.Proofs.Machine.Trace
import Scriptlet.Proofs.Machine.Truncation
import Scriptlet.Proofs.Machine.Abort
import Scriptlet.Proofs.Expression.Invariant
import Scriptlet.Proofs.Expression.Names
import Scriptlet.Proofs.Machine.Names
import Scriptlet.Proofs.Source.Piecewise
import Scriptlet.Proofs.Source.Layout
import Scriptlet.Proofs.Source.Joined
import Scriptlet.Proofs.Window.Relabel
import Scriptlet.Proofs.Statement.Relabel
import Scriptlet.Proofs.Expression.Relabel
import Scriptlet.Proofs.Machine.Relabel
import Scriptlet.Proofs.Machine.Rename
import Scriptlet.Proofs.Token.Encoding
import Scriptlet.Proofs.Number.Notation
import Scriptlet.Proofs.Command.Print
import Scriptlet.Proofs.Expression.Height
import Scriptlet.Proofs.Expression.Typing
import Scriptlet.Proofs.Machine.Output
import Scriptlet.Proofs.Command.Exit
import Scriptlet.Proofs.Expression.Cost
import Scriptlet.Proofs.Decimal.Leading
import Scriptlet.Proofs.Number.ReadBack
import Scriptlet.Proofs.Number.Exponent
import Scriptlet.Proofs.Command.Report
import Scriptlet.Proofs.Binary.Rounding
import Scriptlet.Proofs.Token.Literal
import Scriptlet.Proofs.Expression.Readable
import Scriptlet.Proofs.Machine.Descent
import Scriptlet.Proofs.Machine.Progress
import Scriptlet.Proofs.Cursor.Operation
import Scriptlet.Proofs.Cursor.Indexed
import Scriptlet.Proofs.Source.ByteScanner.Calls
