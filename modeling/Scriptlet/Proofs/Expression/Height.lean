import Scriptlet.Proofs.Expression.Tree

/-!
# The height of parsed trees

A parsed tree is a spine of binary operators down the left, and signs in front of a leaf to the
right of each of them and at the lower end.  A chain takes one level for each of its operators, and
each operand one for each of its signs; but all operands of a chain are parsed one level below it,
also the first one, which ends up below all the operators.  So the operators of a chain and the
signs of its first operand do not have to share the levels: a tree can be nearly twice as high as
the limit.

Groups do not add to that, as each of them is one leaf.

## Main definitions

* `Expression.height` — the most operators that a path from the root to a leaf passes.
* `Expression.hasBinary` — there is a binary operator somewhere in the tree.
* `Expression.leansLeft` — binary operators are below others on the left only.
* `Window.tall` — a window with a tree of the greatest height.

## Main results

* `Expression.height_parse_le_tight` — **the least bound on the height of parsed trees.**
-/

namespace Scriptlet

namespace Expression

/-- The most operators that a path from the root of a tree to a leaf passes. -/
def height : Expression → Nat
  | unary _ e => e.height + 1
  | binary _ l r => max l.height r.height + 1
  | _ => 0

/-- There is a binary operator in the tree, at the root or below. -/
def hasBinary : Expression → Bool
  | unary _ e => e.hasBinary
  | binary .. => true
  | _ => false

/-- Nowhere in the tree is there a binary operator in the operand of a sign or in the right operand
of a binary operator. -/
def leansLeft : Expression → Bool
  | unary _ e => !e.hasBinary
  | binary _ l r => l.leansLeft && !r.hasBinary
  | _ => true

theorem leansLeft_of_hasBinary_eq_false {e : Expression} (h : e.hasBinary = false) :
    e.leansLeft = true := by
  cases e with
  | unary op e => exact congrArg (!·) h
  | binary op l r => cases h
  | _ => rfl

/-! ### Leaves and signs -/

theorem leaf_ofAtom (t : Token) : (ofAtom t).hasBinary = false ∧ (ofAtom t).height = 0 := by
  unfold ofAtom
  split
  · cases t.number? .single <;> exact ⟨rfl, rfl⟩
  all_goals exact ⟨rfl, rfl⟩

/-- Signs add one operator each, if they are not dropped. -/
theorem foldr_signed_le {s : Store} {primary : Expression} (h : primary.hasBinary = false)
    (signs : List UnaryOp) :
    (signs.foldr (signed s) primary).hasBinary = false ∧
      (signs.foldr (signed s) primary).height ≤ signs.length + primary.height := by
  induction signs with
  | nil => exact ⟨h, Nat.le_add_left _ _⟩
  | cons sign signs ih =>
    obtain ⟨hnone, hle⟩ := ih
    rw [List.foldr_cons, signed]
    -- a sign that makes nil leaves a leaf
    split
    · exact ⟨rfl, Nat.zero_le _⟩
    · refine ⟨hnone, ?_⟩
      rw [height, List.length_cons]
      omega

end Expression

/-- **The tree of an operand** has no binary operator, and no more signs than there is room for. -/
theorem Operand.tree_le {s : Store} {room : Nat} {nested : Nat → Window → Expression}
    {o : Operand} :
    (o.tree s room nested).hasBinary = false ∧ (o.tree s room nested).height ≤ room := by
  unfold tree
  split
  · rename_i hroom
    have hsigned {primary : Expression} (h : primary.hasBinary = false ∧ primary.height = 0) :
        (o.signs.foldr (Expression.signed s) primary).hasBinary = false ∧
          (o.signs.foldr (Expression.signed s) primary).height ≤ room := by
      obtain ⟨hnone, hheight⟩ := h
      have hle := Expression.foldr_signed_le (s := s) hnone o.signs
      exact ⟨hle.1, by omega⟩
    -- a group is a string, so it is a leaf as an atom is
    cases o.primary with
    | atom t => exact hsigned (Expression.leaf_ofAtom t)
    | group inner => exact hsigned ⟨rfl, rfl⟩
  · exact ⟨rfl, Nat.zero_le _⟩

/-! ### Chains -/

namespace Chain

variable {operand : Operand → Expression} {c : Chain} {bound : Nat}

/-- The operators of a chain are a spine down the left. -/
theorem leansLeft_tree (h : ∀ o ∈ c.operands, (operand o).hasBinary = false) :
    (c.tree operand).leansLeft = true := by
  obtain ⟨first, rest⟩ := c
  obtain ⟨hfirst, hrest⟩ := List.forall_mem_cons.1 h
  have hleft : (operand first).leansLeft = true :=
    Expression.leansLeft_of_hasBinary_eq_false hfirst
  clear h hfirst
  unfold tree
  dsimp only at hrest hleft ⊢
  -- the tree grows to the right, so what is on the left of the next operator is generalised
  generalize operand first = left at hleft ⊢
  induction rest generalizing left with
  | nil => exact hleft
  | cons step rest ih =>
    obtain ⟨hstep, hrest⟩ := List.forall_mem_cons.1 hrest
    refine ih hrest _ ?_
    rw [Expression.leansLeft, hleft, hstep]
    rfl

/-- The operators of a chain stand above all its operands. -/
theorem height_tree_le (h : ∀ o ∈ c.operands, (operand o).height ≤ bound) :
    (c.tree operand).height ≤ c.rest.length + bound := by
  obtain ⟨first, rest⟩ := c
  obtain ⟨hfirst, hrest⟩ := List.forall_mem_cons.1 h
  clear h
  unfold tree
  dsimp only at hfirst hrest ⊢
  generalize operand first = left at hfirst ⊢
  -- each step raises the bound on what is on the left
  induction rest generalizing left bound with
  | nil => simpa using hfirst
  | cons step rest ih =>
    obtain ⟨hstep, hrest⟩ := List.forall_mem_cons.1 hrest
    have hleft : (Expression.binary step.1 left (operand step.2)).height ≤ bound + 1 :=
      Nat.succ_le_succ (Nat.max_le.2 ⟨hfirst, hstep⟩)
    have hle := ih (fun o ho => Nat.le_succ_of_le (hrest o ho)) _ hleft
    rw [List.foldl_cons, List.length_cons]
    omega

/-- A chain is higher than its first operand by the number of its operators, if no other operand is
higher than the first. -/
theorem height_tree_eq (h : ∀ step ∈ c.rest, (operand step.2).height ≤ (operand c.first).height) :
    (c.tree operand).height = c.rest.length + (operand c.first).height := by
  obtain ⟨first, rest⟩ := c
  unfold tree
  dsimp only at h ⊢
  -- every operator puts one level above the tree on its left
  generalize operand first = left at h ⊢
  induction rest generalizing left with
  | nil => simp
  | cons step rest ih =>
    obtain ⟨hstep, hrest⟩ := List.forall_mem_cons.1 h
    have hleft : (Expression.binary step.1 left (operand step.2)).height = left.height + 1 := by
      rw [Expression.height]
      omega
    rw [List.foldl_cons, ih, hleft, List.length_cons]
    · omega
    · -- the tree on the left has only become higher
      intro other hother
      have hother := hrest other hother
      omega

end Chain

namespace Expression

/-- **A parsed tree** leans to the left, and is less than twice as high as there are levels below.
-/
theorem parseWithin_succ_le (s : Store) (room : Nat) (ts : Window) :
    (parseWithin s (room + 1) ts).leansLeft = true ∧
      (parseWithin s (room + 1) ts).height ≤ 2 * room - 1 := by
  rw [parseWithin]
  split
  · exact ⟨rfl, Nat.zero_le _⟩
  · rename_i c _
    split
    · rename_i hroom
      refine ⟨Chain.leansLeft_tree fun o _ => Operand.tree_le.1, ?_⟩
      refine Nat.le_trans (Chain.height_tree_le fun o _ => Operand.tree_le.2) ?_
      omega
    · exact ⟨rfl, Nat.zero_le _⟩

/-- Signs in front of a truth value are never dropped. -/
theorem foldr_signed_not (s : Store) (b : Bool) (n : Nat) :
    ∃ e : Expression, (List.replicate n UnaryOp.not).foldr (signed s) (bool b) = e ∧
      e.height = n ∧ e.render ≠ "nil" ∧ ∃ b', e.eval s = .bool b' := by
  induction n with
  | zero => exact ⟨bool b, rfl, rfl, by cases b <;> decide, b, rfl⟩
  | succ n ih =>
    obtain ⟨e, hfold, hheight, hrender, b', heval⟩ := ih
    refine ⟨unary .not e, ?_, congrArg (· + 1) hheight, render_unary_ne_nil .not e, !b', ?_⟩
    · rw [List.replicate_succ, List.foldr_cons, hfold, signed, if_neg]
      simp [hrender, heval]
    · rw [eval, heval]
      rfl

end Expression

/-! ### The tallest trees -/

/-- As many operators as the limit allows, and on the first operand one sign less. -/
def Chain.tall (limit : Nat) : Chain where
  first := ⟨List.replicate (limit - 1) .not, .atom ⟨.trueWord, "true", 1⟩⟩
  rest := List.replicate limit (.and, ⟨[], .atom ⟨.trueWord, "true", 1⟩⟩)

/-- The tokens of that chain: `! ... ! true and true ... and true`. -/
def Window.tall (limit : Nat) : Window :=
  (List.replicate (limit - 1) ⟨.bang, "!", 1⟩ ++ [⟨.trueWord, "true", 1⟩])
    ++ (List.replicate limit [⟨.andWord, "and", 1⟩, ⟨.trueWord, "true", 1⟩]).flatten

theorem Chain.spells_tall (limit : Nat) : (Chain.tall limit).Spells (Window.tall limit) := by
  have hatom : Operand.Spells ⟨[], .atom ⟨.trueWord, "true", 1⟩⟩ [⟨.trueWord, "true", 1⟩] :=
    .atom rfl
  have hsigns (n : Nat) :
      Operand.Spells ⟨List.replicate n .not, .atom ⟨.trueWord, "true", 1⟩⟩
        (List.replicate n ⟨.bang, "!", 1⟩ ++ [⟨.trueWord, "true", 1⟩]) := by
    induction n with
    | zero => exact hatom
    | succ n ih => exact .sign rfl ih
  have hsteps (n : Nat) :
      Chain.Steps (List.replicate n (.and, ⟨[], .atom ⟨.trueWord, "true", 1⟩⟩))
        (List.replicate n [⟨.andWord, "and", 1⟩, ⟨.trueWord, "true", 1⟩]).flatten := by
    induction n with
    | zero => exact .nil
    | succ n ih => exact .cons rfl hatom ih
  exact .mk (hsigns (limit - 1)) (hsteps limit)

namespace Expression

/-- The tree of that chain is as high as any can be. -/
theorem height_parse_tall (s : Store) (limit : Nat) :
    (parse s limit (Window.tall limit)).height = 2 * limit - 1 := by
  have hrest : (Chain.tall limit).rest.length = limit := List.length_replicate
  -- the signs just fit, as the first operand stands one level below the chain
  have hfirst (nested : Nat → Window → Expression) :
      ((Chain.tall limit).first.tree s (limit - min 1 limit) nested).height = limit - 1 := by
    obtain ⟨e, hfold, hheight, -⟩ := foldr_signed_not s true (limit - 1)
    have hsigns : (Chain.tall limit).first.signs.length ≤ limit - min 1 limit := by
      rw [Chain.tall, List.length_replicate]
      omega
    rw [Operand.tree, if_pos hsigns]
    exact (congrArg height hfold).trans hheight
  rw [parse, parseWithin_succ_of_spells (Chain.spells_tall limit) (Nat.le_of_eq hrest), hrest,
    Chain.height_tree_eq, hrest, hfirst]
  · omega
  · intro step hstep
    obtain ⟨-, rfl⟩ := List.mem_replicate.1 hstep
    exact Nat.zero_le _

/-- **The least bound on the height of parsed trees.**  In a tree that is parsed under a limit,
neither the operand of a sign nor the right operand of a binary operator has a binary operator in
it, and on no path from the root to a leaf are there more operators than twice the limit less one;
none, if the limit is zero.  For every limit there is a window whose tree has a path with as many,
whatever the variables are. -/
theorem height_parse_le_tight (limit : Nat) :
    (∀ (s : Store) (ts : Window), (parse s limit ts).leansLeft = true ∧
        (parse s limit ts).height ≤ 2 * limit - 1) ∧
      ∃ ts : Window, ∀ s : Store, (parse s limit ts).height = 2 * limit - 1 := by
  constructor
  · intro s ts
    exact parseWithin_succ_le s limit ts
  · refine ⟨Window.tall limit, ?_⟩
    intro s
    exact height_parse_tall s limit

/-- Two operators and one sign under the limit two. -/
example : (parse .empty 2 (Window.tall 2)).render = "(and (and (! true) true) true)" := by
  decide +kernel

end Expression

end Scriptlet
