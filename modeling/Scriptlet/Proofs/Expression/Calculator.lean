import Scriptlet.Proofs.Expression.Tree

/-!
# A calculator

Without groups, an expression can be reckoned token by token, as on a pocket calculator: no tree is
built, and nothing is remembered but what is to be done with the next operand.  A sign is applied to
what comes behind it, and a binary operator to all that was reckoned before it and the operand
behind it.

The parser does more: a sign in front of something that is nil makes it drop the sign.  As every
sign makes nil of nil, and of a string, this does not show in the value.

## Main definitions

* `Calculator.atom` — the value that a single token stands for.
* `Calculator.operand`, `Calculator.operator` — reckoning on, where an operand or an operator is
  due.
* `Calculator.value` — the value of a window.

## Main results

* `Operand.eval_fullTree` — signs are applied from the inside out, whatever the parser drops.
* `Calculator.eval_parse_eq_value` — **the value of an expression is what the calculator shows.**
-/

namespace Scriptlet

open Window

namespace Calculator

/-- The value that a single token stands for: a literal its own, a name that of its variable. -/
def atom (store : Store) (t : Token) : Value :=
  match t.kind with
  | .number => (t.number? .single).elim .nil .number
  | .string => .string t.quoted
  | .trueWord => .bool true
  | .falseWord => .bool false
  | .identifier => store.value t.lexeme
  | _ => .nil

mutual

/-- Reckons on where an operand is due; `use` is what is to be done with its value. -/
def operand (store : Store) (use : Value → Value) : Window → Option Value
  | [] => none
  | t :: ts =>
    match UnaryOp.ofKind? t.kind with
    | some sign => operand store (fun v => use (sign.apply v)) ts
    | none => if t.kind.isAtom then operator store (use (atom store t)) ts else none

/-- Reckons on where an operator is due; `value` is what has been reckoned so far. -/
def operator (store : Store) (value : Value) : Window → Option Value
  | [] => some value
  | t :: ts =>
    match BinaryOp.ofKind? t.kind with
    | some op => operand store (fun v => op.apply value v) ts
    | none => none

end

/-- The value of a window, nil where an operand or an operator is missing. -/
def value (store : Store) (ts : Window) : Value := (operand store id ts).getD .nil

end Calculator

/-! ### The value of a tree -/

/-- The value of a chain folded to the left, by the values of its operands. -/
theorem Chain.eval_tree (store : Store) (f : Operand → Expression) (c : Chain) :
    (c.tree f).eval store
      = c.rest.foldl (fun v step => step.1.apply v ((f step.2).eval store))
          ((f c.first).eval store) := by
  obtain ⟨first, rest⟩ := c
  unfold tree
  dsimp only
  -- the induction is on the steps, with any tree to the left of them
  generalize f first = left
  induction rest generalizing left with
  | nil => rfl
  | cons step rest ih => rw [List.foldl_cons, List.foldl_cons, ih, Expression.eval]

theorem Expression.eval_ofAtom (store : Store) (t : Token) :
    (ofAtom t).eval store = Calculator.atom store t := by
  unfold ofAtom Calculator.atom
  cases t.kind with
  | number => cases t.number? .single <;> rfl
  | _ => rfl

/-! ### Signs -/

/-- A sign makes nil of the values of an expression that reads `nil`. -/
def Expression.NilLike (store : Store) (e : Expression) : Prop :=
  e.render = "nil" → ∀ sign : UnaryOp, sign.apply (e.eval store) = .nil

/-- An atom other than a variable called `nil` only reads so if it is nil or a string. -/
theorem Expression.nilLike_ofAtom (store : Store) {t : Token}
    (ht : t.kind = .identifier → t.lexeme ≠ "nil") : NilLike store (ofAtom t) := by
  unfold ofAtom
  split
  · cases t.number? .single with
    | none => exact fun _ sign => sign.apply_nil
    | some x => exact fun h => absurd h (Number.bare_ne_nil x)
  · exact fun _ sign => sign.apply_string _
  · exact fun h => absurd h (by decide)
  · exact fun h => absurd h (by decide)
  · rename_i hname
    exact fun h => absurd h (ht hname)
  · exact fun _ sign => sign.apply_nil

theorem Expression.nilLike_unary (store : Store) (sign : UnaryOp) (e : Expression) :
    NilLike store (unary sign e) := by
  intro h
  exact absurd h (render_unary_ne_nil sign e)

namespace Operand

/-- The operand has the values of its primary under its signs, the innermost applied first. -/
def value (store : Store) (inside : Window → Expression) (o : Operand) : Value :=
  o.signs.foldr UnaryOp.apply ((o.primary.fullTree inside).eval store)

variable {store : Store} {primary : Expression}

/-- **Dropping signs changes no value**, for signs in front of something that reads `nil` only if
they make nil of it. -/
theorem eval_signTree (h : primary.NilLike store) (signs : List UnaryOp) :
    (signTree store primary signs).NilLike store ∧
      (signTree store primary signs).eval store
        = signs.foldr UnaryOp.apply (primary.eval store) := by
  induction signs with
  | nil => exact ⟨h, rfl⟩
  | cons sign signs ih =>
    obtain ⟨hlike, heval⟩ := ih
    rw [signTree, List.foldr_cons, ← heval]
    split
    · rename_i hdrop
      refine ⟨fun _ sign => sign.apply_nil, ?_⟩
      -- a dropped sign makes nil, and so would applying it
      rcases hdrop with hnil | hreads | hvalue
      · rw [hnil]
        exact sign.apply_nil.symm
      · exact (hlike hreads sign).symm
      · rw [hvalue, sign.apply_nil]
        rfl
    · exact ⟨Expression.nilLike_unary store sign _, rfl⟩

/-- **Signs are applied from the inside out**, whatever the parser drops. -/
theorem eval_fullTree {inside : Window → Expression} {o : Operand}
    (h : (o.primary.fullTree inside).NilLike store) :
    (o.fullTree store inside).eval store = o.value store inside :=
  (eval_signTree h o.signs).2

end Operand

/-! ### Reckoning -/

namespace Calculator

variable {store : Store}

/-- Where an operand is due, the calculator takes one off the window and uses its value. -/
theorem operand_eq_bind (inside : Window → Expression) (use : Value → Value) {ts : Window}
    (hparen : ∀ t ∈ ts, t.kind ≠ .leftParen) :
    operand store use ts
      = (Operand.read? ts).bind fun p => operator store (use (p.1.value store inside)) p.2 := by
  induction ts generalizing use with
  | nil => rfl
  | cons t ts ih =>
    obtain ⟨ht, hts⟩ := List.forall_mem_cons.1 hparen
    rw [operand, Operand.read?]
    cases UnaryOp.ofKind? t.kind with
    | some sign =>
      dsimp only
      -- the sign is applied to the value of what follows
      rw [ih _ hts, Option.bind_map]
      rfl
    | none =>
      dsimp only
      -- no parenthesis, so the token is an atom or there is no operand
      rw [if_neg ht]
      split
      · rw [Option.bind_some, Operand.value, ← Expression.eval_ofAtom]
        rfl
      · rfl

/-- Where an operator is due, the calculator goes through all the steps that are left. -/
theorem operator_eq_map (inside : Window → Expression) (v : Value) {ts : Window}
    (hparen : ∀ t ∈ ts, t.kind ≠ .leftParen) :
    operator store v ts
      = (Chain.rest? ts).map
          (·.foldl (fun v step => step.1.apply v (step.2.value store inside)) v) := by
  -- each call of the reader takes an operator and an operand off the window
  fun_induction Chain.rest? ts generalizing v with
  | case1 => rfl
  | case2 t ts hop =>
    rw [operator, hop]
    rfl
  | case3 t ts op hop hread =>
    rw [operator, hop]
    dsimp only
    rw [operand_eq_bind inside _ (List.forall_mem_cons.1 hparen).2, hread]
    rfl
  | case4 t ts op hop o rest hread hlt ih =>
    obtain ⟨-, hts⟩ := List.forall_mem_cons.1 hparen
    have hrest : ∀ t ∈ rest, t.kind ≠ .leftParen := fun t ht =>
      hts t ((Operand.behind_of_read? hread).suffix.subset ht)
    rw [operator, hop]
    dsimp only
    rw [operand_eq_bind inside _ hts, hread, Option.bind_some, ih _ hrest, Option.map_map]
    rfl

/-- The calculator shows the value of a chain, reckoned from the left, and nil for no chain. -/
theorem value_eq_elim (inside : Window → Expression) {ts : Window}
    (hparen : ∀ t ∈ ts, t.kind ≠ .leftParen) :
    value store ts
      = (Chain.ofWindow? ts).elim .nil fun c =>
          c.rest.foldl (fun v step => step.1.apply v (step.2.value store inside))
            (c.first.value store inside) := by
  rw [value, operand_eq_bind inside id hparen, Chain.ofWindow?]
  cases hread : Operand.read? ts with
  | none => rfl
  | some p =>
    obtain ⟨o, rest⟩ := p
    -- what is left behind the first operand has no parentheses either
    have hrest : ∀ t ∈ rest, t.kind ≠ .leftParen := fun t ht =>
      hparen t ((Operand.behind_of_read? hread).suffix.subset ht)
    rw [Option.bind_some, operator_eq_map inside _ hrest]
    dsimp only
    cases Chain.rest? rest with
    | none => rfl
    | some steps => rfl

/-- **The value of an expression is what the calculator shows**: under a limit of at least its
length, a window without groups and without a variable called `nil` is parsed to a tree whose value
is reckoned from its tokens, one after the other.  It is nil if the window is no chain. -/
theorem eval_parse_eq_value (store : Store) {limit : Nat} {ts : Window} (hlimit : ts.length ≤ limit)
    (hparen : ∀ t ∈ ts, t.kind ≠ .leftParen)
    (hname : ∀ t ∈ ts, t.kind = .identifier → t.lexeme ≠ "nil") :
    (Expression.parse store limit ts).eval store = value store ts ∧
      ((¬ ∃ c : Chain, c.Spells ts) → (Expression.parse store limit ts).eval store = .nil) := by
  have hnone (h : ¬ ∃ c : Chain, c.Spells ts) :
      (Expression.parse store limit ts).eval store = .nil := by
    rw [Expression.parse, Expression.parseWithin_of_not_spells h]
    rfl
  refine ⟨?_, hnone⟩
  rw [value_eq_elim (Expression.parse store limit) hparen]
  by_cases hchain : ∃ c : Chain, c.Spells ts
  · obtain ⟨c, hc⟩ := hchain
    rw [Chain.ofWindow?_eq_some_iff.2 hc, Option.elim_some, Expression.parse_of_spells hc hlimit,
      Chain.eval_tree]
    -- every operand is an atom under signs, so none of them loses its value
    have hoperand : ∀ o ∈ c.operands,
        (o.fullTree store (Expression.parse store limit)).eval store
          = o.value store (Expression.parse store limit) := by
      intro o ho
      obtain ⟨us, hus, hsub⟩ := hc.exists_spells_of_mem ho
      obtain ⟨t, ht, hprimary⟩ := hus.exists_atom fun t ht => hparen t (hsub ht)
      apply Operand.eval_fullTree
      rw [hprimary]
      exact Expression.nilLike_ofAtom store (hname t (hsub ht))
    rw [hoperand c.first List.mem_cons_self]
    refine List.foldl_ext _ _ _ fun v step hstep => ?_
    rw [hoperand step.2 (List.mem_cons_of_mem _ (List.mem_map_of_mem hstep))]
  · rw [hnone hchain, Chain.ofWindow?_eq_none_iff.2 hchain, Option.elim_none]

/-- A sign that the parser drops in front of a string that reads `nil`, and an unbound variable. -/
theorem eval_parse_eq_value_dropped :
    let ts := (Scan.ofText "-a - -2 < !\"nil\" == -b").tokens
    let store := Store.empty.set "a" (Value.bool true)
    ts.length ≤ 12 ∧ (∀ t ∈ ts, t.kind ≠ .leftParen) ∧
      (∀ t ∈ ts, t.kind = .identifier → t.lexeme ≠ "nil") ∧
      (Expression.parse store 12 ts).eval store = value store ts ∧ value store ts = .bool true := by
  intro ts store
  have hlimit : ts.length ≤ 12 := by decide +kernel
  have hparen : ∀ t ∈ ts, t.kind ≠ .leftParen := by decide +kernel
  have hname : ∀ t ∈ ts, t.kind = .identifier → t.lexeme ≠ "nil" := by decide +kernel
  have hvalue : value store ts = .bool true := by decide +kernel
  exact ⟨hlimit, hparen, hname, (eval_parse_eq_value store hlimit hparen hname).1, hvalue⟩

end Calculator

end Scriptlet
