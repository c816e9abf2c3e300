import Scriptlet.Expression.Operator
import Scriptlet.Window

/-!
# Operands and chains

The tokens of an expression form a chain: operands with binary operators between them.  An operand
is any number of signs followed by a single token or a group in parentheses, and the inside of a
group may be any tokens whose parentheses match.

## Main definitions

* `Primary`, `Operand`, `Chain` — the grammar, as data.
* `Operand.read?` — the operand at the start of a window, and the rest.
* `Chain.ofWindow?` — the chain that a whole window is.
-/

namespace Scriptlet

/-- What the signs of an operand are applied to. -/
inductive Primary
  /-- A token that stands for a value. -/
  | atom (t : Token)
  /-- The tokens between two parentheses. -/
  | group (inner : Window)
  deriving DecidableEq, Repr

/-- One operand of a chain. -/
structure Operand where
  /-- The operators in front, the outermost first. -/
  signs : List UnaryOp
  /-- What they are applied to. -/
  primary : Primary
  deriving DecidableEq, Repr

/-- Operands with operators between them. -/
structure Chain where
  /-- The first operand. -/
  first : Operand
  /-- The other operands, each with the operator in front of it. -/
  rest : List (BinaryOp × Operand)
  deriving DecidableEq, Repr

namespace Operand

/-- The operand at the start of a window, and the tokens behind it. -/
def read? : Window → Option (Operand × Window)
  | [] => none
  | t :: ts =>
    match UnaryOp.ofKind? t.kind with
    | some sign => (read? ts).map fun p => (⟨sign :: p.1.signs, p.1.primary⟩, p.2)
    | none =>
      if t.kind = .leftParen then
        (Window.delimited? .leftParen .rightParen (t :: ts)).map fun p => (⟨[], .group p.1⟩, p.2)
      else if t.kind.isAtom then some (⟨[], .atom t⟩, ts)
      else none

/-- An operand has at least one token. -/
theorem behind_of_read? {ts rest : Window} {o : Operand} (h : read? ts = some (o, rest)) :
    Window.Behind rest ts := by
  -- the signs are passed one at a time, up to an atom or a group
  induction ts generalizing o with
  | nil => simp [read?] at h
  | cons t ts ih =>
    rw [read?] at h
    split at h
    · obtain ⟨⟨o', rest'⟩, h', heq⟩ := Option.map_eq_some_iff.1 h
      simp only [Prod.mk.injEq] at heq
      obtain ⟨-, rfl⟩ := heq
      exact ⟨t, ts, rfl, (ih h').suffix⟩
    · split at h
      · obtain ⟨⟨inner, rest'⟩, h', heq⟩ := Option.map_eq_some_iff.1 h
        simp only [Prod.mk.injEq] at heq
        obtain ⟨-, rfl⟩ := heq
        exact Window.behind_of_delimited? h'
      · split at h
        · simp only [Option.some.injEq, Prod.mk.injEq] at h
          obtain ⟨-, rfl⟩ := h
          exact ⟨t, ts, rfl, List.suffix_refl ts⟩
        · simp at h

end Operand

namespace Chain

/-- The operators and operands that a window consists of to its end. -/
def rest? (ts : Window) : Option (List (BinaryOp × Operand)) :=
  match ts with
  | [] => some []
  | t :: ts =>
    match BinaryOp.ofKind? t.kind with
    | none => none
    | some op =>
      match h : Operand.read? ts with
      | none => none
      | some (o, rest) =>
        have : rest.length < ts.length := (Operand.behind_of_read? h).length_lt
        (rest? rest).map ((op, o) :: ·)
termination_by ts.length

/-- The chain that a window is, `none` if it is none. -/
def ofWindow? (ts : Window) : Option Chain :=
  match Operand.read? ts with
  | none => none
  | some (o, rest) => (rest? rest).map fun steps => ⟨o, steps⟩

end Chain

end Scriptlet
