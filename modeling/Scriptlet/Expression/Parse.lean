import Scriptlet.Expression
import Scriptlet.Expression.Chain

/-!
# From tokens to expressions

A chain becomes a tree by folding its operators to the left, whatever they are: no operator binds
closer than another.  A group becomes a string, its rendered inside behind the word `group`; so a
tree never holds a group as such.  A window that is no chain becomes nil.

Trees are built within a limit on their nesting.  A chain needs one level for each of its
operators, an operand one for each of its signs, and a group one more for its inside; what does
not fit becomes nil.  A sign whose operand is nil in the store becomes nil with it.

## Main definitions

* `Expression.parse` — the expression that a window stands for.
* `Window.eval` — the value of that expression.
-/

namespace Scriptlet

namespace Expression

/-- The literal or the variable that a single token stands for. -/
def ofAtom (t : Token) : Expression :=
  match t.kind with
  | .number => (t.number? .single).elim nil number
  | .string => string t.quoted
  | .trueWord => bool true
  | .falseWord => bool false
  | .identifier => named t.lexeme
  | _ => nil

/-- A sign in front of an operand.  An operand that is nil, that has no value in the store or that
reads `nil` makes the whole nil. -/
def signed (store : Store) (sign : UnaryOp) (operand : Expression) : Expression :=
  if operand.render = "nil" ∨ operand.eval store = .nil then nil else unary sign operand

/-- The text that a group stands for, given the tree of its inside. -/
def grouped (inner : Expression) : Expression :=
  string ("(group " ++ inner.render ++ ")")

end Expression

/-- The tree of an operand whose signs may take up to `room` levels.  The function `nested` gives
the tree of the inside of a group in front of which stand so many signs. -/
def Operand.tree (store : Store) (room : Nat) (nested : Nat → Window → Expression) (o : Operand) :
    Expression :=
  if o.signs.length ≤ room then
    o.signs.foldr (Expression.signed store) <|
      match o.primary with
      | .atom t => Expression.ofAtom t
      | .group inner => Expression.grouped (nested o.signs.length inner)
  else .nil

/-- The tree of a chain, folded to the left, given the trees of its operands. -/
def Chain.tree (operand : Operand → Expression) (c : Chain) : Expression :=
  c.rest.foldl (fun left step => .binary step.1 left (operand step.2)) (operand c.first)

namespace Expression

/-- The expression that a window stands for in so many levels.  A single operand stands on the
level of its window, and the operands of a longer chain one level below. -/
def parseWithin (store : Store) (levels : Nat) (ts : Window) : Expression :=
  match levels with
  | 0 => nil
  | room + 1 =>
    match Chain.ofWindow? ts with
    | none => nil
    | some chain =>
      if chain.rest.length ≤ room then
        let below := room - min 1 chain.rest.length
        chain.tree fun o => o.tree store below fun signs inner =>
          parseWithin store (below - signs) inner
      else nil
termination_by levels
decreasing_by exact Nat.lt_succ_of_le (Nat.le_trans (Nat.sub_le _ _) (Nat.sub_le _ _))

/-- The expression that a window stands for, under a limit on its nesting: a tree on level zero
may have levels below it up to the limit. -/
def parse (store : Store) (limit : Nat) (ts : Window) : Expression :=
  parseWithin store (limit + 1) ts

end Expression

/-- The value of the expression that a window stands for. -/
def Window.eval (store : Store) (limit : Nat) (ts : Window) : Value :=
  (Expression.parse store limit ts).eval store

end Scriptlet
