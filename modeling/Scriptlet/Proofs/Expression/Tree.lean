import Mathlib.Data.List.Basic
import Scriptlet.Expression.Parse
import Scriptlet.Proofs.Expression.Grammar
import Scriptlet.Source.Scan

/-!
# The trees of windows

With a limit of at least its length, a window is parsed as if there were no limit: each level that
parsing takes has a token of its own.  The tree is then the one that the grammar gives: nil for a
window that is no chain, and else the trees of the operands folded to the left.

## Main definitions

* `Operand.fullTree` — the tree of an operand, without any limit.

## Main results

* `Expression.parse_eq_of_length_le` — a limit of at least the length does not matter.
* `Expression.parse_eq_foldl` — **a window is parsed as the grammar has it.**
-/

namespace Scriptlet

namespace Primary

/-- The tree of an atom or a group, given the trees of the insides of groups.  A group stands for
its text. -/
def fullTree (inside : Window → Expression) : Primary → Expression
  | atom t => Expression.ofAtom t
  | group inner => .string ("(group " ++ (inside inner).render ++ ")")

end Primary

namespace Operand

/-- The tree of signs, the outermost first, in front of the tree of a primary.  A sign makes nil
where its operand is nil, reads `nil`, or has the value nil. -/
def signTree (store : Store) (primary : Expression) : List UnaryOp → Expression
  | [] => primary
  | u :: signs =>
    let operand := signTree store primary signs
    if operand = .nil ∨ operand.render = "nil" ∨ operand.eval store = .nil then .nil
    else .unary u operand

/-- The tree of an operand, given the trees of the insides of groups. -/
def fullTree (store : Store) (inside : Window → Expression) (o : Operand) : Expression :=
  signTree store (o.primary.fullTree inside) o.signs

/-- The literal nil reads `nil`, so the parser need not look for it. -/
theorem signTree_eq_foldr (store : Store) (primary : Expression) (signs : List UnaryOp) :
    signTree store primary signs = signs.foldr (Expression.signed store) primary := by
  induction signs with
  | nil => rfl
  | cons u signs ih =>
    rw [signTree, List.foldr_cons, Expression.signed, ← ih]
    by_cases hnil : signTree store primary signs = .nil
    · simp [hnil, Expression.render]
    · simp [hnil]

/-- Where there is room for all tokens of an operand, its tree is the full one. -/
theorem tree_eq_fullTree {store : Store} {room : Nat} {nested : Nat → Window → Expression}
    {inside : Window → Expression} {o : Operand} (hroom : o.length ≤ room)
    (hnested : ∀ inner, o.primary = .group inner → nested o.signs.length inner = inside inner) :
    o.tree store room nested = o.fullTree store inside := by
  obtain ⟨signs, primary⟩ := o
  -- each sign is a token of the operand
  have hsigns : signs.length ≤ room := by
    unfold length at hroom
    dsimp only at hroom
    omega
  unfold tree fullTree
  rw [if_pos hsigns, signTree_eq_foldr]
  cases primary with
  | atom t => rfl
  | group inner =>
    simp only [hnested inner rfl]
    rfl

end Operand

theorem Chain.tree_congr {f g : Operand → Expression} {c : Chain}
    (h : ∀ o ∈ c.operands, f o = g o) : c.tree f = c.tree g := by
  obtain ⟨first, rest⟩ := c
  have hfirst : f first = g first := h first List.mem_cons_self
  unfold tree
  rw [hfirst]
  refine List.foldl_ext _ _ _ fun left step hstep => ?_
  rw [h step.2 (List.mem_cons_of_mem _ (List.mem_map_of_mem hstep))]

namespace Expression

/-- An operator puts a parenthesis in front. -/
theorem render_unary_ne_nil (op : UnaryOp) (e : Expression) : (unary op e).render ≠ "nil" := by
  intro h
  have hhead := congrArg String.toList h
  simp [render] at hhead

theorem parseWithin_of_not_spells {store : Store} {levels : Nat} {ts : Window}
    (h : ¬ ∃ c : Chain, c.Spells ts) : parseWithin store levels ts = nil := by
  cases levels with
  | zero => rw [parseWithin]
  | succ room =>
    rw [parseWithin, Chain.ofWindow?_eq_none_iff.2 h]

/-- A chain that fits into the levels is the tree of its operands, one level below if there is an
operator between them. -/
theorem parseWithin_succ_of_spells {store : Store} {room : Nat} {ts : Window} {c : Chain}
    (hc : c.Spells ts) (hroom : c.rest.length ≤ room) :
    parseWithin store (room + 1) ts
      = c.tree fun o => o.tree store (room - min 1 c.rest.length) fun signs inner =>
          parseWithin store (room - min 1 c.rest.length - signs) inner := by
  rw [parseWithin, Chain.ofWindow?_eq_some_iff.2 hc]
  simp only [if_pos hroom]

/-- An operand that is a window of its own has all levels of the window for its signs. -/
theorem parse_of_operand {store : Store} {limit : Nat} {ts : Window} {o : Operand}
    (ho : o.Spells ts) :
    parse store limit ts
      = o.tree store limit fun signs inner => parseWithin store (limit - signs) inner := by
  have hc : (⟨o, []⟩ : Chain).Spells ts := by
    rw [← List.append_nil ts]
    exact .mk ho .nil
  rw [parse, parseWithin_succ_of_spells hc (Nat.zero_le _)]
  simp [Chain.tree]

/-- Signs in front of an atom need a level each. -/
theorem parse_of_atom {store : Store} {limit : Nat} {signs : List UnaryOp} {t : Token}
    {ts : Window} (ho : Operand.Spells ⟨signs, .atom t⟩ ts) (hlimit : signs.length ≤ limit) :
    parse store limit ts = signs.foldr (signed store) (ofAtom t) := by
  rw [parse_of_operand ho]
  exact if_pos hlimit

/-- **More levels than tokens are as good as any number.**  The induction is on the length: a group
inside a window leaves at least two tokens fewer, and takes one level for each sign before it, one
for the operators around it and one for itself. -/
theorem parseWithin_of_length_lt {store : Store} {levels : Nat} {ts : Window}
    (hlevels : ts.length < levels) :
    parseWithin store levels ts = parse store ts.length ts := by
  induction hn : ts.length using Nat.strongRecOn generalizing ts levels with
  | ind n ih =>
    by_cases hchain : ∃ c : Chain, c.Spells ts
    · obtain ⟨c, hc⟩ := hchain
      have hrest : c.rest.length ≤ ts.length := hc.rest_length_le
      -- both sides have the same trees, for any number of levels that is large enough
      have htree (room : Nat) (hroom : ts.length ≤ room) :
          parseWithin store (room + 1) ts
            = c.tree fun o => o.fullTree store fun inner => parse store inner.length inner := by
        rw [parseWithin_succ_of_spells hc (by omega)]
        refine Chain.tree_congr fun o ho => ?_
        have hlen := hc.length_le_of_mem ho
        refine Operand.tree_eq_fullTree (by omega) fun inner hinner => ?_
        have hinside : o.length = o.signs.length + (inner.length + 2) := by
          rw [Operand.length, hinner]
        exact ih inner.length (by omega) (by omega) rfl
      obtain ⟨room, rfl⟩ : ∃ room, levels = room + 1 := ⟨levels - 1, by omega⟩
      rw [htree room (by omega), parse, ← hn, htree ts.length (Nat.le_refl _)]
    · rw [parse, parseWithin_of_not_spells hchain, parseWithin_of_not_spells hchain]

/-- A limit of at least the length of a window does not matter. -/
theorem parse_eq_of_length_le {store : Store} {limit : Nat} {ts : Window}
    (h : ts.length ≤ limit) : parse store limit ts = parse store ts.length ts :=
  parseWithin_of_length_lt (Nat.lt_succ_of_le h)

theorem parse_of_spells {store : Store} {limit : Nat} {ts : Window} {c : Chain}
    (hc : c.Spells ts) (h : ts.length ≤ limit) :
    parse store limit ts = c.tree fun o => o.fullTree store (parse store limit) := by
  rw [parse, parseWithin_succ_of_spells hc (Nat.le_trans hc.rest_length_le h)]
  refine Chain.tree_congr fun o ho => ?_
  have hlen := hc.length_le_of_mem ho
  refine Operand.tree_eq_fullTree (by omega) fun inner hinner => ?_
  have hinside : o.length = o.signs.length + (inner.length + 2) := by
    rw [Operand.length, hinner]
  rw [parse, parseWithin_of_length_lt (by omega), parseWithin_of_length_lt (by omega)]

/-- **A window is parsed as the grammar has it**: under a limit of at least its length, a window
that is no chain stands for nil; one that is a chain is one in a single way, and stands for the
trees of its operands folded to the left, whatever the operators are. -/
theorem parse_eq_foldl (store : Store) {limit : Nat} {ts : Window} (h : ts.length ≤ limit) :
    ((¬ ∃ c : Chain, c.Spells ts) → parse store limit ts = nil) ∧
      ∀ c : Chain, c.Spells ts →
        (∀ c' : Chain, c'.Spells ts → c' = c) ∧
          parse store limit ts
            = c.rest.foldl
                (fun left step => .binary step.1 left (step.2.fullTree store (parse store limit)))
                (c.first.fullTree store (parse store limit)) := by
  refine ⟨parseWithin_of_not_spells, fun c hc => ⟨fun c' hc' => hc.unique hc', ?_⟩⟩
  rw [parse_of_spells hc h, Chain.tree]

/-- A minus between two operands that begin with one, and a group that is nil inside. -/
theorem parse_eq_foldl_signs :
    let ts := (Scan.ofText "-a - -(b b)").tokens
    let inner := (Scan.ofText "b b").tokens
    let store := Store.empty.set "a" (.bool true)
    ts.length ≤ 8 ∧ (∃ c : Chain, c.Spells ts) ∧ (¬ ∃ c : Chain, c.Spells inner) ∧
      parse store 8 inner = nil ∧
      parse store 8 ts
        = .binary .subtract (.unary .negate (.named "a"))
            (.unary .negate (.string "(group nil)")) := by
  intro ts inner store
  have hts : ts.length ≤ 8 := by decide +kernel
  have hinner : inner.length ≤ 8 := by decide +kernel
  have hnone : ¬ ∃ c : Chain, c.Spells inner :=
    Chain.ofWindow?_eq_none_iff.1 (by decide +kernel)
  obtain ⟨c, hread⟩ : ∃ c, Chain.ofWindow? ts = some c :=
    Option.isSome_iff_exists.1 (by decide +kernel)
  have hc : c.Spells ts := Chain.ofWindow?_eq_some_iff.1 hread
  have hchain : c = (Chain.ofWindow? ts).get (by decide +kernel) := by
    simp only [hread, Option.get_some]
  refine ⟨hts, ⟨c, hc⟩, hnone, (parse_eq_foldl store hinner).1 hnone, ?_⟩
  rw [((parse_eq_foldl store hts).2 c hc).2, hchain]
  decide +kernel

end Expression

end Scriptlet
