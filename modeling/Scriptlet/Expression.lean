import Scriptlet.Expression.Operator
import Scriptlet.Store

/-!
# Expressions

An expression is a tree of literals, variables and operators.  It has a value in a store, and a
text in which every operator stands in front of its operands in parentheses.

## Main definitions

* `Expression` — the trees.
* `Expression.eval` — the value of a tree in a store.
* `Expression.render` — the text of a tree.
-/

namespace Scriptlet

/-- A tree of literals, variables and operators. -/
inductive Expression
  | number (x : Number)
  | string (text : String)
  | bool (b : Bool)
  | nil
  | named (name : String)
  | unary (op : UnaryOp) (operand : Expression)
  | binary (op : BinaryOp) (left right : Expression)
  deriving DecidableEq

namespace Expression

instance : Inhabited Expression := ⟨nil⟩

/-- The tree is the literal nil. -/
def isNil : Expression → Bool
  | nil => true
  | _ => false

/-- The value of an expression.  An unbound variable is nil, and both operands of an operator are
always evaluated. -/
def eval (store : Store) : Expression → Value
  | number x => .number x
  | string text => .string text
  | bool b => .bool b
  | nil => .nil
  | named name => store.value name
  | unary op e => op.apply (e.eval store)
  | binary op l r => op.apply (l.eval store) (r.eval store)

/-- The text of an expression.  The text of a string is the string itself, without quotes. -/
def render : Expression → String
  | number x => x.bare
  | string text => text
  | bool b => if b then "true" else "false"
  | nil => "nil"
  | named name => name
  | unary op e => "(" ++ op.symbol ++ " " ++ e.render ++ ")"
  | binary op l r => "(" ++ op.symbol ++ " " ++ l.render ++ " " ++ r.render ++ ")"

end Expression

end Scriptlet
