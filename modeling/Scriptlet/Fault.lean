import Scriptlet.Sink
import Scriptlet.Value

/-!
# Faults

The first statement that fails ends a program.  A fault says what was wrong with the statement; a
fault in the body of an `if` is wrapped in the branch in which it arose, once for every `if` around
it.

## Main definitions

* `Fault` — why a program fails.
* `Fault.message` — the wording of a fault.
* `Fault.branches`, `Fault.cause` — the branches around a fault, and the fault inside them.
-/

namespace Scriptlet

/-- The statements that end in a semicolon. -/
inductive Construct
  | declaration | reassignment | print
  deriving DecidableEq, Repr

/-- The word for a statement. -/
def Construct.word : Construct → String
  | .declaration => "declaration"
  | .reassignment => "reassignment"
  | .print => "print"

/-- The bodies that an `if` statement can have. -/
inductive Branch
  /-- The body behind the condition. -/
  | body
  /-- An `if` statement behind `else`. -/
  | elseIf
  /-- Any other body behind `else`. -/
  | otherwise
  deriving DecidableEq, Repr

/-- The word for a branch. -/
def Branch.word : Branch → String
  | .body => "if"
  | .elseIf => "else if"
  | .otherwise => "else"

/-- What can be wrong with the shape of an `if` statement. -/
inductive Malformation
  /-- It does not begin with `if`. -/
  | noIf
  /-- No parentheses follow, or they do not match. -/
  | noCondition
  /-- There is nothing between the parentheses. -/
  | emptyCondition
  /-- No body follows the condition. -/
  | missingBody
  /-- No body follows `else`. -/
  | missingElseBody
  /-- A body begins with a brace that is never closed. -/
  | unbalancedBraces
  /-- A body without braces has no semicolon. -/
  | unterminatedBody
  deriving DecidableEq, Repr

/-- The wording of a malformation. -/
def Malformation.message : Malformation → String
  | .noIf => "expected `if`"
  | .noCondition => "condition must be a balanced parenthesized expression"
  | .emptyCondition => "empty condition"
  | .missingBody => "missing if body"
  | .missingElseBody => "missing else body"
  | .unbalancedBraces => "unbalanced braces in body"
  | .unterminatedBody => "body statement has no terminating `;`"

/-- Why a program fails. -/
inductive Fault
  /-- A declaration is too short to be complete. -/
  | incompleteDeclaration
  /-- A declaration names something that is no identifier. -/
  | missingIdentifier (found : String)
  /-- No equals sign follows the name. -/
  | missingEqual (construct : Construct) (name : String)
  /-- No semicolon follows. -/
  | missingSemicolon (construct : Construct)
  /-- There is nothing in front of the semicolon. -/
  | emptyExpression (construct : Construct)
  /-- Nothing at all follows `print`. -/
  | incompletePrint
  /-- An `if` statement has a wrong shape. -/
  | malformedIf (reason : Malformation)
  /-- The value of a condition is no truth value. -/
  | invalidCondition (found : Value)
  /-- The body of an `if` statement failed. -/
  | invalidBody (branch : Branch) (cause : Fault)
  /-- Statements are nested beyond the limit. -/
  | tooDeep (limit : Nat)
  /-- The output could not be written. -/
  | output (failure : SinkFailure)
  deriving DecidableEq

namespace Fault

/-- The wording of a fault. -/
def message : Fault → String
  | incompleteDeclaration => "incomplete variable declaration"
  | missingIdentifier found => "no identifier found in declaration, got `" ++ found ++ "`"
  | missingEqual construct name =>
    "equal not found in " ++ construct.word ++ " of `" ++ name ++ "`"
  | missingSemicolon construct => "no semicolon found after " ++ construct.word
  | emptyExpression construct => "empty expression in " ++ construct.word
  | incompletePrint => "incomplete print statement"
  | malformedIf reason => "malformed if statement: " ++ reason.message
  | invalidCondition found =>
    "invalid if condition: expected a bool, got " ++ found.kind ++ " `" ++ found.display ++ "`"
  | invalidBody branch cause => "invalid " ++ branch.word ++ " body: " ++ cause.message
  | tooDeep limit => "nesting depth exceeded (limit " ++ toString limit ++ ")"
  | output failure => "failed to write output: " ++ failure.message

/-- The branches around a fault, from the outside in. -/
def branches : Fault → List Branch
  | invalidBody branch cause => branch :: cause.branches
  | _ => []

/-- The fault inside all branches. -/
def cause : Fault → Fault
  | invalidBody _ cause => cause.cause
  | fault => fault

end Fault

/-! ### Steps that may fail -/

theorem map_eq_ok_iff {ε α β : Type} {x : Except ε α} {f : α → β} {b : β} :
    x.map f = .ok b ↔ ∃ a, x = .ok a ∧ f a = b := by
  cases x <;> simp [Except.map]

theorem map_eq_error_iff {ε α β : Type} {x : Except ε α} {f : α → β} {e : ε} :
    x.map f = .error e ↔ x = .error e := by
  cases x <;> simp [Except.map]

theorem bind_eq_ok_iff {ε α β : Type} {x : Except ε α} {f : α → Except ε β} {b : β} :
    (x >>= f) = .ok b ↔ ∃ a, x = .ok a ∧ f a = .ok b := by
  cases x <;> simp [bind, Except.bind]

theorem bind_eq_error_iff {ε α β : Type} {x : Except ε α} {f : α → Except ε β} {e : ε} :
    (x >>= f) = .error e ↔ x = .error e ∨ ∃ a, x = .ok a ∧ f a = .error e := by
  cases x <;> simp [bind, Except.bind]

end Scriptlet
