import Scriptlet.Proofs.Expression.Names

/-!
# The types of expressions

Every operator has a result for all operands, and the types of the operands alone say what its type
is: an operator on operands that it is not for is nil, a division by zero is a number all the same,
and equality is a truth value whatever it compares.  So a tree has a type as soon as its variables
have types, and its value is of that type.

Nil is the only value of its type.  So the types of the variables also say what is nil, and with
that which signs the parser drops: a window has the same tree in all stores in which its names have
values of the same types.

## Main definitions

* `Ty`, `Value.ty` — the types of values.
* `UnaryOp.ty`, `BinaryOp.ty` — the type of a result, by the types of the operands.
* `Expression.ty` — the type of a tree, by the types of its variables.

## Main results

* `Expression.ty_eval` — **the value of a tree is of the type of the tree.**
* `Expression.parse_eq_and_kind_eval_eq` — **the tree of a window and the sort of its value depend
  on the sorts of the variables only.**
-/

namespace Scriptlet

/-- The types of values. -/
inductive Ty
  | number | bool | string | nil
  deriving DecidableEq, Repr

/-- The word for a type. -/
def Ty.word : Ty → String
  | number => "number"
  | bool => "bool"
  | string => "string"
  | nil => "nil"

theorem Ty.word_inj {τ τ' : Ty} : τ.word = τ'.word ↔ τ = τ' := by
  cases τ <;> cases τ' <;> decide

namespace Value

/-- The type of a value. -/
def ty : Value → Ty
  | number _ => .number
  | bool _ => .bool
  | string _ => .string
  | nil => .nil

theorem kind_eq_word_ty (v : Value) : v.kind = v.ty.word := by
  cases v <;> rfl

theorem kind_eq_kind_iff {v w : Value} : v.kind = w.kind ↔ v.ty = w.ty := by
  rw [kind_eq_word_ty, kind_eq_word_ty, Ty.word_inj]

theorem ty_eq_nil_iff {v : Value} : v.ty = .nil ↔ v = .nil := by
  cases v <;> simp [ty]

end Value

/-! ### Operators -/

/-- The type of what an operator makes of an operand. -/
def UnaryOp.ty : UnaryOp → Ty → Ty
  | negate, .number => .number
  | not, .bool => .bool
  | _, _ => .nil

/-- The type of what an operator makes of two operands. -/
def BinaryOp.ty : BinaryOp → Ty → Ty → Ty
  | equal, _, _ | notEqual, _, _ => .bool
  | add, .number, .number => .number
  | add, .string, .string => .string
  | subtract, .number, .number | multiply, .number, .number | divide, .number, .number => .number
  | less, .number, .number | lessEqual, .number, .number => .bool
  | greater, .number, .number | greaterEqual, .number, .number => .bool
  | and, .bool, .bool | or, .bool, .bool => .bool
  | _, _, _ => .nil

/-- The type of an operand says what the type of the result is. -/
theorem UnaryOp.ty_apply (op : UnaryOp) (v : Value) : (op.apply v).ty = op.ty v.ty := by
  cases op <;> cases v <;> rfl

/-- The types of two operands say what the type of the result is. -/
theorem BinaryOp.ty_apply (op : BinaryOp) (v w : Value) :
    (op.apply v w).ty = op.ty v.ty w.ty := by
  cases op <;> cases v <;> cases w <;> rfl

/-! ### Trees -/

namespace Expression

/-- The type of a tree, given the types of its variables. -/
def ty (Γ : String → Ty) : Expression → Ty
  | number _ => .number
  | string _ => .string
  | bool _ => .bool
  | nil => .nil
  | named name => Γ name
  | unary op e => op.ty (e.ty Γ)
  | binary op l r => op.ty (l.ty Γ) (r.ty Γ)

/-- **The value of a tree is of the type of the tree.** -/
theorem ty_eval (s : Store) (e : Expression) :
    (e.eval s).ty = e.ty fun name => (s.value name).ty := by
  induction e with
  | unary op e ih => rw [eval, UnaryOp.ty_apply, ih, ty]
  | binary op l r ihl ihr => rw [eval, BinaryOp.ty_apply, ihl, ihr, ty]
  | _ => rfl

/-- The type of a tree depends on the types of its variables only. -/
theorem ty_congr {e : Expression} {Γ Γ' : String → Ty} (h : ∀ name ∈ e.names, Γ name = Γ' name) :
    e.ty Γ = e.ty Γ' := by
  induction e with
  | named name => exact h name List.mem_cons_self
  | unary op e ih => rw [ty, ty, ih h]
  | binary op l r ihl ihr =>
    have hleft : ∀ name ∈ l.names, Γ name = Γ' name :=
      fun name hname => h name (List.mem_append_left r.names hname)
    have hright : ∀ name ∈ r.names, Γ name = Γ' name :=
      fun name hname => h name (List.mem_append_right l.names hname)
    rw [ty, ty, ihl hleft, ihr hright]
  | _ => rfl

end Expression

/-! ### Stores with values of the same types -/

/-- Two stores have values of the same types for some names; an unbound name counts as nil. -/
def Store.SameTypesOn (names : List String) (s s' : Store) : Prop :=
  ∀ name ∈ names, (s.value name).ty = (s'.value name).ty

namespace Store.SameTypesOn

variable {names : List String} {s s' : Store}

/-- A tree has values of the same type in both stores. -/
theorem ty_eval_eq (h : SameTypesOn names s s') {e : Expression} (he : e.names ⊆ names) :
    (e.eval s).ty = (e.eval s').ty := by
  rw [Expression.ty_eval, Expression.ty_eval]
  apply Expression.ty_congr
  intro name hname
  exact h name (he hname)

/-- The same trees are nil in both stores. -/
theorem nilAlike (h : SameTypesOn names s s') : s.NilAlike names s' := by
  intro e he
  rw [← Value.ty_eq_nil_iff, ← Value.ty_eq_nil_iff, h.ty_eval_eq he]

end Store.SameTypesOn

namespace Expression

/-- **The tree of a window and the sort of its value depend on the sorts of the variables only.**
In two stores in which each name of a window has values of the same sort, where an unbound name
counts as nil, the window is parsed to the same tree, and the values of that tree are of the same
sort. -/
theorem parse_eq_and_kind_eval_eq {s s' : Store} {ts : Window}
    (h : ∀ name ∈ ts.names, (s.value name).kind = (s'.value name).kind) (limit : Nat) :
    parse s limit ts = parse s' limit ts ∧
      ((parse s limit ts).eval s).kind = ((parse s limit ts).eval s').kind := by
  have hsame : s.SameTypesOn ts.names s' := by
    intro name hname
    exact Value.kind_eq_kind_iff.1 (h name hname)
  have hnames : (parse s limit ts).names ⊆ ts.names := names_parseWithin s (limit + 1) ts
  constructor
  · exact parseWithin_eq_of_nilAlike hsame.nilAlike
  · exact Value.kind_eq_kind_iff.2 (hsame.ty_eval_eq hnames)

/-- A division by zero, a group with a sign in it, and a sign that is dropped in front of a variable
that is nil in one store and unbound in the other. -/
theorem parse_eq_and_kind_eval_eq_quotient :
    let ts := (Scan.ofText "-x / y + z == (!b) != -u").tokens
    let s : Store := ⟨[("x", .number (.zero false)), ("y", .number (.zero true)), ("b", .bool true),
      ("u", .nil)]⟩
    let s' : Store := ⟨[("y", .number .nan), ("x", .number (.infinite true)), ("b", .bool false)]⟩
    (∀ name ∈ Window.names ts, (s.value name).kind = (s'.value name).kind) ∧
      parse s 4 ts = parse s' 4 ts ∧
      ((parse s 4 ts).eval s).kind = ((parse s 4 ts).eval s').kind ∧
      parse s 4 ts = .binary .notEqual (.binary .equal (.binary .add (.binary .divide
        (.unary .negate (.named "x")) (.named "y")) (.named "z")) (.string "(group (! b))"))
        .nil := by
  intro ts s s'
  have hsorts : ∀ name ∈ Window.names ts, (s.value name).kind = (s'.value name).kind := by
    decide +kernel
  obtain ⟨htree, hkind⟩ := parse_eq_and_kind_eval_eq hsorts 4
  exact ⟨hsorts, htree, hkind, by decide +kernel⟩

end Expression

end Scriptlet
