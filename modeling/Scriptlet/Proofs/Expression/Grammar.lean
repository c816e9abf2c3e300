import Scriptlet.Expression.Chain
import Scriptlet.Proofs.Window.Cut

/-!
# The grammar of expressions

An operand is any number of signs in front of an atom or of a group in parentheses; a chain is an
operand and then any number of binary operators with an operand each.  A minus stands for a sign
where an operand is due and for a binary operator elsewhere, so a window is a chain in at most one
way.

## Main definitions

* `Operand.Spells`, `Chain.Spells` — the tokens of an operand and of a chain.
* `Operand.length` — the number of tokens of an operand.

## Main results

* `Operand.read?_eq_some_iff`, `Chain.ofWindow?_eq_some_iff` — **the reader follows the grammar.**
* `Chain.Spells.unique` — a window is a chain in one way only.
-/

namespace Scriptlet

open Window

namespace Operand

/-- The tokens of an operand: signs, and then a token that stands for a value or a pair of
parentheses around a balanced window. -/
inductive Spells : Operand → Window → Prop
  | atom {t : Token} (ht : t.kind.isAtom = true) : Spells ⟨[], .atom t⟩ [t]
  | group {inner ts : Window} (h : Encloses .leftParen .rightParen inner ts) :
      Spells ⟨[], .group inner⟩ ts
  | sign {t : Token} {u : UnaryOp} {signs : List UnaryOp} {primary : Primary} {ts : Window}
      (ht : UnaryOp.ofKind? t.kind = some u) (h : Spells ⟨signs, primary⟩ ts) :
      Spells ⟨u :: signs, primary⟩ (t :: ts)

/-- The number of tokens of an operand. -/
def length (o : Operand) : Nat :=
  o.signs.length + match o.primary with
    | .atom _ => 1
    | .group inner => inner.length + 2

theorem Spells.length_eq {o : Operand} {ts : Window} (h : Spells o ts) : ts.length = o.length := by
  induction h with
  | atom => rfl
  | group h => simp [length, h.length]
  | sign _ _ ih =>
    simp only [length, List.length_cons] at ih ⊢
    omega

theorem not_sign_of_isAtom {k : Kind} (h : k.isAtom = true) :
    UnaryOp.ofKind? k = none ∧ k ≠ .leftParen := by
  cases k <;> first | exact ⟨rfl, by decide⟩ | cases h

/-- An operand ends in an atom, unless it has a parenthesis. -/
theorem Spells.exists_atom {o : Operand} {ts : Window} (h : o.Spells ts)
    (hparen : ∀ t ∈ ts, t.kind ≠ .leftParen) : ∃ t ∈ ts, o.primary = .atom t := by
  induction h with
  | @atom t _ => exact ⟨t, List.mem_cons_self, rfl⟩
  | group h =>
    obtain ⟨t, us, rfl, ht⟩ := h.startsWith
    exact absurd ht (hparen t List.mem_cons_self)
  | sign _ _ ih =>
    obtain ⟨t, ht, hprimary⟩ := ih fun t ht => hparen t (List.mem_cons_of_mem _ ht)
    exact ⟨t, List.mem_cons_of_mem _ ht, hprimary⟩

/-- The tokens of an operand are read as that operand, whatever follows them. -/
theorem read?_append {o : Operand} {ts : Window} (h : o.Spells ts) (rest : Window) :
    read? (ts ++ rest) = some (o, rest) := by
  induction h with
  | @atom t ht =>
    obtain ⟨hsign, hparen⟩ := not_sign_of_isAtom ht
    simp only [List.cons_append, List.nil_append, read?, hsign, if_neg hparen, if_pos ht]
  | @group inner ts h =>
    -- the group ends at its own parenthesis, whatever stands behind it
    have hcut : delimited? .leftParen .rightParen (ts ++ rest) = some (inner, rest) :=
      (delimited?_eq_some_iff_encloses (by decide)).2 ⟨ts, h, rfl⟩
    obtain ⟨t, us, rfl, ht⟩ := h.startsWith
    rw [List.cons_append] at hcut ⊢
    rw [read?, ht, hcut]
    rfl
  | sign ht _ ih =>
    rw [List.cons_append, read?, ht]
    simp only [ih, Option.map_some]

theorem spells_of_read? {ts rest : Window} {o : Operand} (h : read? ts = some (o, rest)) :
    ∃ front, o.Spells front ∧ ts = front ++ rest := by
  induction ts generalizing o with
  | nil => cases h
  | cons t ts ih =>
    rw [read?] at h
    -- the kinds of signs come first, then the parenthesis, then the atoms
    split at h
    · rename_i u hsign
      obtain ⟨⟨o', r⟩, hr, heq⟩ := Option.map_eq_some_iff.1 h
      simp only [Prod.mk.injEq] at heq
      obtain ⟨rfl, rfl⟩ := heq
      obtain ⟨front, hfront, rfl⟩ := ih hr
      exact ⟨t :: front, .sign hsign hfront, rfl⟩
    · split at h
      · obtain ⟨⟨inner, r⟩, hr, heq⟩ := Option.map_eq_some_iff.1 h
        obtain ⟨front, hfront, hts⟩ := (delimited?_eq_some_iff_encloses (by decide)).1 hr
        simp only [Prod.mk.injEq] at heq
        obtain ⟨rfl, rfl⟩ := heq
        exact ⟨front, .group hfront, hts⟩
      · split at h
        · rename_i ht
          cases h
          exact ⟨[t], .atom ht, rfl⟩
        · cases h

/-- **An operand is read where its tokens stand in front.** -/
theorem read?_eq_some_iff {ts rest : Window} {o : Operand} :
    read? ts = some (o, rest) ↔ ∃ front, o.Spells front ∧ ts = front ++ rest := by
  constructor
  · exact spells_of_read?
  · intro h
    obtain ⟨front, h, rfl⟩ := h
    exact read?_append h rest

end Operand

namespace Chain

/-- The tokens of binary operators with an operand behind each. -/
inductive Steps : List (BinaryOp × Operand) → Window → Prop
  | nil : Steps [] []
  | cons {t : Token} {op : BinaryOp} {o : Operand} {steps : List (BinaryOp × Operand)}
      {ts us : Window} (ht : BinaryOp.ofKind? t.kind = some op) (ho : o.Spells ts)
      (hsteps : Steps steps us) : Steps ((op, o) :: steps) (t :: (ts ++ us))

/-- The tokens of a chain: an operand, and operators with an operand behind each. -/
inductive Spells : Chain → Window → Prop
  | mk {o : Operand} {steps : List (BinaryOp × Operand)} {ts us : Window} (ho : o.Spells ts)
      (hsteps : Steps steps us) : Spells ⟨o, steps⟩ (ts ++ us)

theorem rest?_of_steps {steps : List (BinaryOp × Operand)} {ts : Window} (h : Steps steps ts) :
    rest? ts = some steps := by
  induction h with
  | nil => rw [rest?]
  | @cons t op o steps ts us ht ho _ ih =>
    -- the reader takes the operand off, as the tokens of the others follow it
    have hread : Operand.read? (ts ++ us) = some (o, us) := Operand.read?_append ho us
    rw [rest?]
    split
    · rename_i hop
      rw [ht] at hop
      cases hop
    · rename_i op' hop
      rw [ht] at hop
      cases hop
      split
      · rename_i hnone
        rw [hread] at hnone
        cases hnone
      · rename_i o' rest hsome
        rw [hread] at hsome
        cases hsome
        simp [ih]

theorem steps_of_rest? {ts : Window} {steps : List (BinaryOp × Operand)}
    (h : rest? ts = some steps) : Steps steps ts := by
  -- each call of the reader takes an operator and an operand off the window
  fun_induction rest? ts generalizing steps with
  | case1 =>
    cases h
    exact .nil
  | case2 => cases h
  | case3 => cases h
  | case4 t ts op hop o rest hread hlt ih =>
    obtain ⟨steps', hsteps, rfl⟩ := Option.map_eq_some_iff.1 h
    obtain ⟨front, ho, rfl⟩ := Operand.spells_of_read? hread
    exact .cons hop ho (ih hsteps)

/-- **A window is read as a chain if it is one.** -/
theorem ofWindow?_eq_some_iff {ts : Window} {c : Chain} :
    ofWindow? ts = some c ↔ c.Spells ts := by
  constructor
  · intro h
    unfold ofWindow? at h
    split at h
    · cases h
    · rename_i o rest hread
      -- an operand was taken off, and operators with operands up to the end
      obtain ⟨steps, hsteps, rfl⟩ := Option.map_eq_some_iff.1 h
      obtain ⟨front, ho, rfl⟩ := Operand.spells_of_read? hread
      exact .mk ho (steps_of_rest? hsteps)
  · intro h
    cases h with
    | mk ho hsteps =>
      simp only [ofWindow?, Operand.read?_append ho, rest?_of_steps hsteps, Option.map_some]

theorem ofWindow?_eq_none_iff {ts : Window} :
    ofWindow? ts = none ↔ ¬ ∃ c : Chain, c.Spells ts := by
  rw [Option.eq_none_iff_forall_ne_some, not_exists]
  exact forall_congr' fun c => not_congr ofWindow?_eq_some_iff

/-- A window is a chain in one way only. -/
theorem Spells.unique {c c' : Chain} {ts : Window} (h : c.Spells ts) (h' : c'.Spells ts) :
    c' = c := by
  have heq : some c' = some c := by
    rw [← ofWindow?_eq_some_iff.2 h, ofWindow?_eq_some_iff.2 h']
  exact Option.some.inj heq

/-! ### The operands of a chain -/

/-- The operands of a chain. -/
def operands (c : Chain) : List Operand := c.first :: c.rest.map (·.2)

theorem Steps.exists_spells_of_mem {steps : List (BinaryOp × Operand)} {ts : Window}
    (h : Steps steps ts) {step : BinaryOp × Operand} (hstep : step ∈ steps) :
    ∃ us, step.2.Spells us ∧ us ⊆ ts := by
  induction h with
  | nil => cases hstep
  | @cons t op o steps us vs _ ho _ ih =>
    rcases List.mem_cons.1 hstep with rfl | hmem
    · exact ⟨us, ho, fun s hs => List.mem_cons_of_mem t (List.mem_append_left vs hs)⟩
    · obtain ⟨ws, hws, hsub⟩ := ih hmem
      exact ⟨ws, hws, fun s hs => List.mem_cons_of_mem t (List.mem_append_right us (hsub hs))⟩

/-- The tokens of an operand of a chain are among those of the chain. -/
theorem Spells.exists_spells_of_mem {c : Chain} {ts : Window} (h : c.Spells ts) {o : Operand}
    (ho : o ∈ c.operands) : ∃ us, o.Spells us ∧ us ⊆ ts := by
  cases h with
  | @mk first steps us vs hfirst hsteps =>
    rcases List.mem_cons.1 ho with rfl | hmem
    · exact ⟨us, hfirst, List.subset_append_left us vs⟩
    · obtain ⟨step, hstep, rfl⟩ := List.mem_map.1 hmem
      obtain ⟨ws, hws, hsub⟩ := hsteps.exists_spells_of_mem hstep
      exact ⟨ws, hws, fun s hs => List.mem_append_right us (hsub hs)⟩

/-! ### The room that a chain has -/

theorem Steps.length_le {steps : List (BinaryOp × Operand)} {ts : Window} (h : Steps steps ts) :
    steps.length ≤ ts.length := by
  induction h with
  | nil => exact Nat.le_refl 0
  | cons _ _ _ ih =>
    simp only [List.length_cons, List.length_append]
    omega

theorem Steps.length_lt_of_mem {steps : List (BinaryOp × Operand)} {ts : Window}
    (h : Steps steps ts) {step : BinaryOp × Operand} (hstep : step ∈ steps) :
    step.2.length < ts.length := by
  induction h with
  | nil => cases hstep
  | cons _ ho _ ih =>
    simp only [List.length_cons, List.length_append]
    rcases List.mem_cons.1 hstep with rfl | hmem
    · have hlen := ho.length_eq
      dsimp only
      omega
    · have hlt := ih hmem
      omega

/-- An operand is no longer than its chain, and shorter if the chain has an operator. -/
theorem Spells.length_le_of_mem {c : Chain} {ts : Window} (h : c.Spells ts) {o : Operand}
    (ho : o ∈ c.operands) : o.length + min 1 c.rest.length ≤ ts.length := by
  cases h with
  | @mk first steps us vs hfirst hsteps =>
    have hlen := hsteps.length_le
    rw [List.length_append, hfirst.length_eq]
    rcases List.mem_cons.1 ho with rfl | hmem
    · dsimp only
      omega
    · obtain ⟨step, hstep, rfl⟩ := List.mem_map.1 hmem
      have hlt := hsteps.length_lt_of_mem hstep
      dsimp only
      omega

theorem Spells.rest_length_le {c : Chain} {ts : Window} (h : c.Spells ts) :
    c.rest.length ≤ ts.length := by
  cases h with
  | mk _ hsteps =>
    have hlen := hsteps.length_le
    rw [List.length_append]
    dsimp only
    omega

end Chain

end Scriptlet
