import Scriptlet.Proofs.Expression.Tree

/-!
# What all trees of a window have

The tree of a window is built from the trees of its atoms with operators and groups, and nil stands
where something does not fit.  So a property that nil has, and that operators and groups keep, is
one of the whole tree if the atoms of the window have it, in whatever store and in however many
levels the window is parsed.

## Main definitions

* `Primary.tokens` — what stands for a value behind the signs of an operand.
* `Expression.Invariant` — a property of trees that building them keeps.

## Main results

* `Expression.Invariant.parseWithin` — **an invariant of the atoms is one of the tree.**
-/

namespace Scriptlet

/-! ### Tokens behind signs -/

/-- What stands for a value behind the signs of an operand. -/
def Primary.tokens : Primary → Window
  | atom t => [t]
  | group inner => inner

/-- What stands behind the signs of an operand are tokens of it. -/
theorem Operand.Spells.primary_subset {o : Operand} {ts : Window} (h : o.Spells ts) :
    o.primary.tokens ⊆ ts := by
  induction h with
  | atom => exact List.Subset.refl _
  | @group inner ts h =>
    obtain ⟨-, t, u, -, -, rfl⟩ := h
    intro s hs
    exact List.mem_cons_of_mem t (List.mem_append_left [u] hs)
  | @sign t u signs primary ts ht h ih => exact List.Subset.trans ih (List.subset_cons_self t ts)

/-- What stands behind the signs of the operands of a chain are tokens of it. -/
theorem Chain.Spells.primary_subset {c : Chain} {ts : Window} (h : c.Spells ts) {o : Operand}
    (ho : o ∈ c.operands) : o.primary.tokens ⊆ ts := by
  obtain ⟨us, hus, hsub⟩ := h.exists_spells_of_mem ho
  exact List.Subset.trans hus.primary_subset hsub

/-! ### Invariants -/

namespace Expression

/-- A property of trees that nil has, and that groups and operators keep. -/
structure Invariant (P : Expression → Prop) : Prop where
  /-- Nil has it. -/
  nil : P nil
  /-- A group has it if its inside does. -/
  grouped : ∀ {inner : Expression}, P inner → P (grouped inner)
  /-- Unary operators keep it. -/
  unary : ∀ (op : UnaryOp) {operand : Expression}, P operand → P (unary op operand)
  /-- Binary operators keep it. -/
  binary : ∀ (op : BinaryOp) {left right : Expression}, P left → P right → P (binary op left right)

namespace Invariant

variable {P : Expression → Prop} {s : Store}

/-- Signs keep it, also where they make nil. -/
theorem foldr_signed (h : Invariant P) {primary : Expression} (hprimary : P primary)
    (signs : List UnaryOp) : P (signs.foldr (signed s) primary) := by
  induction signs with
  | nil => exact hprimary
  | cons sign signs ih =>
    rw [List.foldr_cons, signed]
    split
    · exact h.nil
    · exact h.unary sign ih

/-- An operand has it if its atom does, or the inside of its group. -/
theorem operand (h : Invariant P) {room : Nat} {nested : Nat → Window → Expression} {o : Operand}
    (hatom : ∀ t, o.primary = .atom t → P (ofAtom t))
    (hnested : ∀ signs inner, o.primary = .group inner → P (nested signs inner)) :
    P (o.tree s room nested) := by
  unfold Operand.tree
  split
  · refine h.foldr_signed ?_ o.signs
    cases hprimary : o.primary with
    | atom t => exact hatom t hprimary
    | group inner => exact h.grouped (hnested _ inner hprimary)
  · exact h.nil

/-- A chain has it if its operands do. -/
theorem chain (h : Invariant P) {operand : Operand → Expression} {c : Chain}
    (hoperands : ∀ o ∈ c.operands, P (operand o)) : P (c.tree operand) := by
  obtain ⟨first, rest⟩ := c
  obtain ⟨hfirst, hrest⟩ := List.forall_mem_cons.1 hoperands
  clear hoperands
  unfold Chain.tree
  dsimp only at hfirst hrest ⊢
  -- the tree grows to the right, so what is on the left of the next operator is generalised
  generalize operand first = left at hfirst ⊢
  induction rest generalizing left with
  | nil => exact hfirst
  | cons step rest ih =>
    obtain ⟨hstep, hrest⟩ := List.forall_mem_cons.1 hrest
    exact ih hrest _ (h.binary step.1 hfirst hstep)

/-- **An invariant of the atoms is one of the tree**, in all stores and levels.  The induction is on
the levels: the inside of a group is parsed in fewer of them. -/
theorem parseWithin (h : Invariant P) {ts : Window} (hatoms : ∀ t ∈ ts, P (ofAtom t))
    (levels : Nat) : P (parseWithin s levels ts) := by
  induction levels using Nat.strongRecOn generalizing ts with
  | ind levels ih =>
    rw [Expression.parseWithin.eq_def]
    split
    · exact h.nil
    · split
      · exact h.nil
      · rename_i c hread
        split
        · -- the atoms of the operands and the insides of their groups are of the window
          refine h.chain fun o ho => ?_
          have hprimary : o.primary.tokens ⊆ ts :=
            (Chain.ofWindow?_eq_some_iff.1 hread).primary_subset ho
          refine h.operand (fun t ht => ?_) fun signs inner hinner => ?_
          · rw [ht] at hprimary
            exact hatoms t (hprimary List.mem_cons_self)
          · rw [hinner] at hprimary
            exact ih _ (by omega) fun t ht => hatoms t (hprimary ht)
        · exact h.nil

end Invariant

end Expression

end Scriptlet
