import Scriptlet.Proofs.Expression.Tree

/-!
# The levels that an expression takes

The limit on nesting is spent on three things.  A chain takes one level for each of its operators,
an operand one for each of its signs, and a group one for itself and those of its inside.  The
operators of a chain are not counted on top of its operands: the chain takes as many levels as it
has operators, and at least one more than each of its operands.

A window that does not take more levels than the limit allows is parsed as under any higher limit.
So no part of it is turned into nil for want of room.  The count may be too high: an inside that is
no chain is nil in any case, also where there is no level left for it.

## Main definitions

* `Operand.cost`, `Chain.cost`, `Window.cost` — the levels that are taken.

## Main results

* `Expression.parseWithin_eq_of_cost_lt` — all numbers of levels above the cost are the same.
* `Expression.parse_eq_nil_of_operators`, `Expression.parse_eq_nil_of_signs` — too many operators or
  signs make nil.
* `Expression.parse_eq_of_cost_le` — **within its cost a window does not depend on the limit.**
-/

namespace Scriptlet

/-- The levels that an operand takes, given those of the insides of groups: one for each sign, and
for a group one more than its inside. -/
def Operand.cost (inside : Window → Nat) (o : Operand) : Nat :=
  o.signs.length + match o.primary with
    | .atom _ => 0
    | .group inner => 1 + inside inner

/-- The levels that a chain takes, given those of its operands.  With operators, these are as many
as the operators, and at least one more than each operand. -/
def Chain.cost (operand : Operand → Nat) (c : Chain) : Nat :=
  if c.rest = [] then operand c.first
  else max c.rest.length (1 + (c.operands.map operand).max?.getD 0)

/-- The levels that a window takes; one that is no chain takes none. -/
def Window.cost (ts : Window) : Nat :=
  match Chain.ofWindow? ts with
  | none => 0
  | some c => c.cost fun o => o.cost fun inner =>
      -- the inside of a group is always shorter than the window
      if inner.length < ts.length then cost inner else 0
termination_by ts.length

namespace Operand

variable {inside inside' : Window → Nat} {o : Operand}

theorem signs_length_le_cost : o.signs.length ≤ o.cost inside := Nat.le_add_right _ _

theorem cost_of_group {inner : Window} (h : o.primary = .group inner) :
    o.cost inside = o.signs.length + 1 + inside inner := by
  rw [cost, h, Nat.add_assoc]

theorem cost_congr (h : ∀ inner, o.primary = .group inner → inside inner = inside' inner) :
    o.cost inside = o.cost inside' := by
  unfold cost
  cases hprimary : o.primary with
  | atom t => rfl
  | group inner => simp only [h inner hprimary]

/-- Where there is room for the signs, the tree of an operand depends on the trees of insides only.
-/
theorem tree_eq_of_signs_length_le {store : Store} {room room' : Nat}
    {nested nested' : Nat → Window → Expression} (h : o.signs.length ≤ room)
    (h' : o.signs.length ≤ room')
    (hnested : ∀ inner, o.primary = .group inner →
      nested o.signs.length inner = nested' o.signs.length inner) :
    o.tree store room nested = o.tree store room' nested' := by
  unfold tree
  rw [if_pos h, if_pos h']
  cases hprimary : o.primary with
  | atom t => rfl
  | group inner => simp only [hnested inner hprimary]

end Operand

namespace Chain

variable {operand operand' : Operand → Nat} {c : Chain}

theorem cost_congr (h : ∀ o ∈ c.operands, operand o = operand' o) :
    c.cost operand = c.cost operand' := by
  unfold cost
  rw [List.map_congr_left h, h c.first List.mem_cons_self]

theorem rest_length_le_cost : c.rest.length ≤ c.cost operand := by
  unfold cost
  split
  · rename_i hrest
    rw [hrest]
    exact Nat.zero_le _
  · exact Nat.le_max_left _ _

/-- An operand takes no more levels than its chain, and fewer if the chain has an operator. -/
theorem operand_le_cost {o : Operand} (h : o ∈ c.operands) :
    operand o + min 1 c.rest.length ≤ c.cost operand := by
  unfold cost
  split
  · rename_i hrest
    have hfirst : o = c.first := by simpa [operands, hrest] using h
    rw [hfirst, hrest]
    exact Nat.le_refl _
  · have hle : operand o ≤ (c.operands.map operand).max?.getD 0 :=
      List.le_max?_getD_of_mem (List.mem_map_of_mem h)
    omega

theorem Spells.inner_length_lt {ts inner : Window} (h : c.Spells ts) {o : Operand}
    (ho : o ∈ c.operands) (hinner : o.primary = .group inner) : inner.length < ts.length := by
  have hlen := h.length_le_of_mem ho
  have hinside : o.length = o.signs.length + (inner.length + 2) := by
    rw [Operand.length, hinner]
  omega

end Chain

namespace Window

theorem cost_of_spells {ts : Window} {c : Chain} (h : c.Spells ts) :
    ts.cost = c.cost (Operand.cost cost) := by
  rw [cost, Chain.ofWindow?_eq_some_iff.2 h]
  refine Chain.cost_congr fun o ho => Operand.cost_congr fun inner hinner => ?_
  exact if_pos (h.inner_length_lt ho hinner)

end Window

namespace Expression

variable {store : Store} {levels levels' limit : Nat} {ts : Window}

/-- **All numbers of levels above the cost of a window are the same.**  The induction is on the
length of the window. -/
theorem parseWithin_eq_of_cost_lt (h : ts.cost < levels) (h' : ts.cost < levels') :
    parseWithin store levels ts = parseWithin store levels' ts := by
  induction hn : ts.length using Nat.strongRecOn generalizing ts levels levels' with
  | ind n ih =>
    by_cases hchain : ∃ c : Chain, c.Spells ts
    · obtain ⟨c, hc⟩ := hchain
      obtain ⟨room, rfl⟩ : ∃ room, levels = room + 1 := ⟨levels - 1, by omega⟩
      obtain ⟨room', rfl⟩ : ∃ room, levels' = room + 1 := ⟨levels' - 1, by omega⟩
      rw [Window.cost_of_spells hc] at h h'
      have hrest : c.rest.length ≤ c.cost (Operand.cost Window.cost) := Chain.rest_length_le_cost
      rw [parseWithin_succ_of_spells hc (by omega), parseWithin_succ_of_spells hc (by omega)]
      refine Chain.tree_congr fun o ho => ?_
      -- the operand has its cost, the signs are part of it, and so is the inside of a group
      have hcost : o.cost Window.cost + min 1 c.rest.length ≤ c.cost (Operand.cost Window.cost) :=
        Chain.operand_le_cost ho
      have hsigns : o.signs.length ≤ o.cost Window.cost := Operand.signs_length_le_cost
      refine Operand.tree_eq_of_signs_length_le (by omega) (by omega) fun inner hinner => ?_
      have hinside : o.cost Window.cost = o.signs.length + 1 + inner.cost :=
        Operand.cost_of_group hinner
      exact ih inner.length (hn ▸ hc.inner_length_lt ho hinner) (by omega) (by omega) rfl
    · rw [parseWithin_of_not_spells hchain, parseWithin_of_not_spells hchain]

/-- A chain with more operators than the limit is nil. -/
theorem parse_eq_nil_of_operators {c : Chain} (hc : c.Spells ts) (h : limit < c.rest.length) :
    parse store limit ts = nil := by
  rw [parse, parseWithin, Chain.ofWindow?_eq_some_iff.2 hc]
  exact if_neg (by omega)

/-- An operand with more signs than the limit is nil. -/
theorem parse_eq_nil_of_signs {o : Operand} (ho : o.Spells ts) (h : limit < o.signs.length) :
    parse store limit ts = nil := by
  rw [parse_of_operand ho, Operand.tree, if_neg (by omega)]

/-- **Within its cost a window does not depend on the limit.**  The window stands for the same
expression under all limits that are not below its cost.  And under any limit, a chain with more
operators stands for nil, and so does an atom or a group with more signs in front. -/
theorem parse_eq_of_cost_le (store : Store) (ts : Window) :
    (∀ limit limit' : Nat, ts.cost ≤ limit → limit ≤ limit' →
        parse store limit' ts = parse store limit ts) ∧
      ∀ limit : Nat,
        (∀ c : Chain, c.Spells ts → limit < c.rest.length → parse store limit ts = nil) ∧
          ∀ o : Operand, o.Spells ts → limit < o.signs.length → parse store limit ts = nil := by
  constructor
  · intro limit limit' hcost hlimit
    exact parseWithin_eq_of_cost_lt (by omega) (by omega)
  · intro limit
    constructor
    · intro c hc hoperators
      exact parse_eq_nil_of_operators hc hoperators
    · intro o ho hsigns
      exact parse_eq_nil_of_signs ho hsigns

/-- Three operators in a group take five levels in a chain of two operands.  A limit below that is
not enough for them, and one sign is too many for a limit of zero. -/
theorem parse_eq_of_cost_le_group :
    let ts : Window := (Scan.ofText "(1 < 2 - 3 + 4) == -x").tokens
    let inner : Window := (Scan.ofText "1 < 2 - 3 + 4").tokens
    let signed : Window := (Scan.ofText "-x").tokens
    let store := Store.empty.set "x" (.number (.zero true))
    ts.cost ≤ 5 ∧ 5 ≤ 9 ∧ parse store 9 ts = parse store 5 ts ∧
      (parse store 5 ts).render = "(== (group (+ (- (< 1 2) 3) 4)) (- x))" ∧
      (∃ c : Chain, c.Spells inner ∧ 2 < c.rest.length) ∧ parse store 2 inner = nil ∧
      (∃ o : Operand, o.Spells signed ∧ 0 < o.signs.length) ∧ parse store 0 signed = nil := by
  intro ts inner signed store
  have hcost : ts.cost ≤ 5 := by decide +kernel
  obtain ⟨c, hread⟩ : ∃ c, Chain.ofWindow? inner = some c :=
    Option.isSome_iff_exists.1 (by decide +kernel)
  have hc : c.Spells inner := Chain.ofWindow?_eq_some_iff.1 hread
  -- the chain in the parentheses is the one that the reader finds
  have hoperators : 2 < c.rest.length := by
    have hchain : c = (Chain.ofWindow? inner).get (by decide +kernel) := by
      simp only [hread, Option.get_some]
    rw [hchain]
    decide +kernel
  have ho : Operand.Spells ⟨[.negate], .atom ⟨.identifier, "x", 1⟩⟩ signed := by
    have hsigned : signed = [⟨.minus, "-", 1⟩, ⟨.identifier, "x", 1⟩] := by decide +kernel
    rw [hsigned]
    exact .sign rfl (.atom rfl)
  refine ⟨hcost, by decide, ?_, by decide +kernel, ⟨c, hc, hoperators⟩, ?_,
    ⟨_, ho, Nat.zero_lt_one⟩, ?_⟩
  · exact (parse_eq_of_cost_le store ts).1 5 9 hcost (by decide)
  · exact ((parse_eq_of_cost_le store inner).2 2).1 c hc hoperators
  · exact ((parse_eq_of_cost_le store signed).2 0).2 _ ho Nat.zero_lt_one

end Expression

end Scriptlet
