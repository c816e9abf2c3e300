import Scriptlet.Token.Kind
import Scriptlet.Value

/-!
# Operators

Two operators take one operand, twelve take two.  Equality is defined on all pairs of values; the
other operators are defined on operands of the sorts they are for and yield nil on any other.

## Main definitions

* `UnaryOp`, `BinaryOp` — the operators, with their symbols and the kinds that stand for them.
* `UnaryOp.apply`, `BinaryOp.apply` — what they compute.
-/

namespace Scriptlet

/-- The operators that stand before one operand. -/
inductive UnaryOp
  | negate | not
  deriving DecidableEq, Repr

namespace UnaryOp

/-- The operator that a kind of token stands for. -/
def ofKind? : Kind → Option UnaryOp
  | .minus => some negate
  | .bang => some not
  | _ => none

/-- The symbol of an operator in a rendered expression. -/
def symbol : UnaryOp → String
  | negate => "-"
  | not => "!"

/-- Numbers can be negated and truth values inverted. -/
def apply : UnaryOp → Value → Value
  | negate, .number x => .number x.neg
  | not, .bool b => .bool !b
  | _, _ => .nil

@[simp] theorem apply_nil (op : UnaryOp) : op.apply .nil = .nil := by
  cases op <;> rfl

@[simp] theorem apply_string (op : UnaryOp) (text : String) : op.apply (.string text) = .nil := by
  cases op <;> rfl

end UnaryOp

/-- The operators that stand between two operands. -/
inductive BinaryOp
  | add | subtract | multiply | divide
  | equal | notEqual | less | lessEqual | greater | greaterEqual
  | and | or
  deriving DecidableEq, Repr

namespace BinaryOp

/-- The operator that a kind of token stands for. -/
def ofKind? : Kind → Option BinaryOp
  | .plus => some add
  | .minus => some subtract
  | .star => some multiply
  | .slash => some divide
  | .equalEqual => some equal
  | .bangEqual => some notEqual
  | .less => some less
  | .lessEqual => some lessEqual
  | .greater => some greater
  | .greaterEqual => some greaterEqual
  | .andWord => some and
  | .orWord => some or
  | _ => none

/-- The symbol of an operator in a rendered expression. -/
def symbol : BinaryOp → String
  | add => "+"
  | subtract => "-"
  | multiply => "*"
  | divide => "/"
  | equal => "=="
  | notEqual => "!="
  | less => "<"
  | lessEqual => "<="
  | greater => ">"
  | greaterEqual => ">="
  | and => "and"
  | or => "or"

/-- Texts can be joined, numbers reckoned with and compared, truth values combined; any two values
can be equal. -/
def apply : BinaryOp → Value → Value → Value
  | equal, l, r => .bool (l.equals r)
  | notEqual, l, r => .bool !l.equals r
  | add, .number x, .number y => .number (x.add y)
  | add, .string s, .string t => .string (s ++ t)
  | subtract, .number x, .number y => .number (x.sub y)
  | multiply, .number x, .number y => .number (x.mul y)
  | divide, .number x, .number y => .number (x.div y)
  | less, .number x, .number y => .bool (x.lt y)
  | lessEqual, .number x, .number y => .bool (x.le y)
  | greater, .number x, .number y => .bool (y.lt x)
  | greaterEqual, .number x, .number y => .bool (y.le x)
  | and, .bool a, .bool b => .bool (a && b)
  | or, .bool a, .bool b => .bool (a || b)
  | _, _, _ => .nil

end BinaryOp

end Scriptlet
