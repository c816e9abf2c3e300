import Scriptlet.Proofs.Statement.Form

/-!
# The windows in a statement

A statement hands on windows that are looked at later: an expression to be evaluated, a condition, a
body to be run.  All of them are pieces of the statement itself, with no gaps, and none of them is
the whole of it.  What holds of the pieces of a window thus holds of all that its script hands on.

## Main definitions

* `Conditional.Within P`, `Statement.Within P` — all windows that are handed on have the property.

## Main results

* `Conditional.Shape.exists_tail` — the windows of an `if` lie behind its first token.
* `Script.exists_form_of_mem` — the statements of a script lie in its window.
* `Script.within_of_mem` — **what a script hands on are pieces of its window, and shorter.**
-/

namespace Scriptlet

open Window

theorem Window.Encloses.isInfix {opening closing : Kind} {inner ts : Window}
    (h : Encloses opening closing inner ts) : inner <:+: ts := by
  obtain ⟨-, s, t, -, -, rfl⟩ := h
  exact ⟨[s], [t], rfl⟩

/-! ### `if` statements -/

namespace Conditional

/-- All windows of an `if` statement have a property. -/
structure Within (P : Window → Prop) (c : Conditional) : Prop where
  /-- The condition has it. -/
  condition : P c.condition
  /-- The body has it. -/
  body : P c.body
  /-- What stands behind `else` has it. -/
  alternative : ∀ a, c.alternative = some a → P a.tokens

theorem Within.mono {P Q : Window → Prop} {c : Conditional} (h : c.Within P)
    (hPQ : ∀ w, P w → Q w) : c.Within Q :=
  ⟨hPQ _ h.condition, hPQ _ h.body, fun a ha => hPQ _ (h.alternative a ha)⟩

theorem PlainBody.isInfix {inner ts : Window} (h : PlainBody inner ts) : inner <:+: ts := by
  cases h with
  | braced h => exact h.isInfix
  | simple => exact List.infix_rfl

section

variable {nested : Conditional → Bool → Window → Prop} {dangling : Bool} {ts : Window}

theorem Body.isInfix {body : Window} (h : Body nested body dangling ts) : body <:+: ts := by
  cases h with
  | plain h => exact h.isInfix
  | nested => exact List.infix_rfl

theorem Otherwise.isInfix {a : Alternative} (h : Otherwise nested a dangling ts) :
    a.tokens <:+: ts := by
  cases h with
  | plain h => exact h.isInfix
  | nested => exact List.infix_rfl

end

/-- **The windows of an `if` lie behind its first token**, which is the `if` itself. -/
theorem Shape.exists_tail {levels : Nat} {c : Conditional} {dangling : Bool} {ts : Window}
    (h : Shape levels c dangling ts) :
    ∃ i us, ts = i :: us ∧ i.kind = .ifWord ∧ c.Within (· <:+: us) := by
  cases levels with
  | zero => exact absurd h (shape_zero c dangling ts)
  | succ levels =>
    cases h with
    | @short i condition head body us d hi hhead hne hbody =>
      refine ⟨i, head ++ us, rfl, hi, ?_, ?_, ?_⟩
      · exact hhead.isInfix.trans (List.prefix_append head us).isInfix
      · exact hbody.isInfix.trans (List.suffix_append head us).isInfix
      · intro a ha
        cases ha
    | @long i e condition head body us vs alternative d hi hhead hne hbody he halternative =>
      have hus : us ++ e :: vs <:+: head ++ (us ++ e :: vs) :=
        (List.suffix_append head (us ++ e :: vs)).isInfix
      refine ⟨i, head ++ (us ++ e :: vs), rfl, hi, ?_, ?_, ?_⟩
      · exact hhead.isInfix.trans (List.prefix_append head (us ++ e :: vs)).isInfix
      · exact (hbody.isInfix.trans (List.prefix_append us (e :: vs)).isInfix).trans hus
      · intro a ha
        obtain rfl := Option.some.inj ha
        -- The alternative stands behind the `else`.
        have hvs : vs <:+: us ++ e :: vs := ⟨us ++ [e], [], by simp⟩
        exact (halternative.isInfix.trans hvs).trans hus

end Conditional

/-! ### Statements -/

namespace Statement

/-- All windows of a statement have a property; the name that it binds is a window of one token. -/
def Within (P : Window → Prop) : Statement → Prop
  | assign name body => (∃ t, t.kind = .identifier ∧ t.lexeme = name ∧ P [t]) ∧ P body
  | print body => P body
  | conditional c => c.Within P
  | idle _ => True

theorem Within.mono {P Q : Window → Prop} {s : Statement} (h : s.Within P)
    (hPQ : ∀ w, P w → Q w) : s.Within Q := by
  cases s with
  | assign name body =>
    obtain ⟨⟨t, ht, hname, hP⟩, hbody⟩ := h
    exact ⟨⟨t, ht, hname, hPQ _ hP⟩, hPQ _ hbody⟩
  | print body => exact hPQ _ h
  | conditional c => exact Conditional.Within.mono h hPQ
  | idle t => trivial

/-- The windows of a statement are pieces of it, and shorter. -/
theorem Form.within {levels : Nat} {s : Statement} {dangling : Bool} {ts : Window}
    (h : s.Form levels dangling ts) : s.Within fun w => w <:+: ts ∧ w.length < ts.length := by
  cases h with
  | @declare v x e semicolon body hv hx he hbody hsemi =>
    refine ⟨⟨x, hx, rfl, ⟨[v], e :: (body ++ [semicolon]), rfl⟩, by simp⟩, ?_, ?_⟩
    · exact ⟨[v, x, e], [semicolon], by simp⟩
    · rw [List.length_cons, List.length_cons, List.length_cons, List.length_append]
      omega
  | @assign x e semicolon body hx he hbody hsemi =>
    refine ⟨⟨x, hx, rfl, ⟨[], e :: (body ++ [semicolon]), rfl⟩, by simp⟩, ?_, ?_⟩
    · exact ⟨[x, e], [semicolon], by simp⟩
    · rw [List.length_cons, List.length_cons, List.length_append]
      omega
  | @print p semicolon body hp hbody hsemi =>
    refine ⟨⟨[p], [semicolon], rfl⟩, ?_⟩
    rw [List.length_cons, List.length_append, List.length_singleton]
    omega
  | conditional hshape =>
    obtain ⟨i, us, rfl, -, hwithin⟩ := hshape.exists_tail
    refine hwithin.mono fun w hw => ⟨hw.trans (List.suffix_cons i us).isInfix, ?_⟩
    exact Nat.lt_succ_of_le hw.length_le
  | idle => trivial

end Statement

/-! ### Scripts -/

namespace Script

/-- **The statements of a script lie in its window**, each where its form is. -/
theorem exists_form_of_mem {limit levels : Nat} {ts : Window} {s : Statement}
    (h : s ∈ (ofWindow limit levels ts).statements) :
    ∃ dangling front, s.Form levels dangling front ∧ front <:+: ts := by
  fun_induction ofWindow limit levels ts with
  | case1 => cases h
  | case2 => cases h
  | case3 t ts s' rest hread hle tail ih =>
    rcases List.mem_cons.1 h with rfl | h
    · obtain ⟨dangling, front, hform, hts, -⟩ := Statement.read_eq_ok_iff.1 hread
      rw [hts]
      exact ⟨dangling, front, hform, (List.prefix_append front rest).isInfix⟩
    · obtain ⟨dangling, front, hform, hfront⟩ := ih h
      have hrest : rest <:+ t :: ts :=
        (Statement.suffix_of_read hread).trans (List.suffix_cons t ts)
      exact ⟨dangling, front, hform, hfront.trans hrest.isInfix⟩

/-- **What a script hands on are pieces of its window, and shorter.** -/
theorem within_of_mem {limit levels : Nat} {ts : Window} {s : Statement}
    (h : s ∈ (ofWindow limit levels ts).statements) :
    s.Within fun w => w <:+: ts ∧ w.length < ts.length := by
  obtain ⟨dangling, front, hform, hfront⟩ := exists_form_of_mem h
  refine hform.within.mono fun w hw => ⟨hw.1.trans hfront, ?_⟩
  exact Nat.lt_of_lt_of_le hw.2 hfront.length_le

end Script

end Scriptlet
