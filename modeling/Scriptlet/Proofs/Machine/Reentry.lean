import Scriptlet.Proofs.Machine.Run

/-!
# `if` statements that are read twice

The tokens of an `if` statement inside another one are read as a part of the outer statement, with
more tokens behind them, and once more when their turn comes to be run, as a window of their own
one level below.  Both readings find the same parts, and the second leaves nothing over.  So what
fails in an `else if` is never its shape: it is the condition, or a body.

## Main definitions

* `Conditional.ReadsAlone` — a window is read on its own as it is read in front of other tokens.
* `Fault.Inside` — a fault is another one, or stands in a branch of it at some depth.

## Main results

* `Conditional.readsAlone_elseIf`, `Conditional.readsAlone_body` — what an `if` statement hands on.
* `Machine.readsAlone_and_fault_elseIf` — **both readings agree, so only a condition or a body can
  fail directly in an `else if`.**
-/

namespace Scriptlet

open Window

/-! ### Reading a window again -/

namespace Conditional

/-- Alone and in front of the tokens `behind`, a window is read as one and the same `if` statement
of so many levels, to its end. -/
def ReadsAlone (limit levels : Nat) (ts behind : Window) : Prop :=
  ∃ c, read? limit levels (ts ++ behind) = .ok (c, behind) ∧ read? limit levels ts = .ok (c, [])

/-- A shape is read alone, for no `else` can stand behind it there. -/
theorem Shape.readsAlone {levels : Nat} {c : Conditional} {dangling : Bool} {ts behind : Window}
    (h : Shape levels c dangling ts) (hbehind : dangling = true → ¬ StartsWith .elseWord behind)
    (limit : Nat) : ReadsAlone limit levels ts behind := by
  refine ⟨c, (read?_eq_ok_iff _ c behind).2 ⟨dangling, ts, h, rfl, hbehind⟩, ?_⟩
  exact (read?_eq_ok_iff ts c []).2
    ⟨dangling, ts, h, (List.append_nil ts).symm, fun _ => not_startsWith_nil _⟩

variable {limit levels : Nat} {ts rest : Window} {c : Conditional}

theorem readsAlone_elseIf (h : read? limit (levels + 1) ts = .ok (c, rest)) {us : Window}
    (hus : c.alternative = some (.elseIf us)) :
    (∃ front e, ts = front ++ e :: (us ++ rest) ∧ e.kind = .elseWord) ∧
      ReadsAlone limit levels us rest := by
  obtain ⟨dangling, front, hshape, rfl, hrest⟩ := (read?_eq_ok_iff ts c rest).1 h
  cases hshape with
  | short => cases hus
  | @long i e condition head body bs _ a _ hi hhead hne hbody he halternative =>
    cases hus
    cases halternative with
    | nested hnested =>
      exact ⟨⟨i :: (head ++ bs), e, by simp, he⟩, hnested.readsAlone hrest limit⟩

/-- A body that begins with `if` and stands directly behind the condition is read alone. -/
theorem readsAlone_body (h : read? limit (levels + 1) ts = .ok (c, rest)) {i : Token}
    {head behind : Window} (hts : ts = i :: (head ++ behind))
    (hhead : Encloses .leftParen .rightParen c.condition head) (hif : StartsWith .ifWord behind) :
    ∃ rest', behind = c.body ++ rest' ∧ ReadsAlone limit levels c.body rest' := by
  obtain ⟨dangling, front, hshape, rfl, hrest⟩ := (read?_eq_ok_iff ts c rest).1 h
  -- the head in the grammar has the same condition, so it is the given one
  have hsame {i' : Token} {head' us : Window}
      (hhead' : Encloses .leftParen .rightParen c.condition head')
      (heq : i' :: (head' ++ us) = i :: (head ++ behind)) : us = behind := by
    have hlength : head'.length = head.length := by rw [hhead'.length, hhead.length]
    exact (List.append_inj (List.cons.inj heq).2 hlength).2
  cases hshape with
  | @short _ _ _ body bs d hi hhead' hne hbody =>
    rw [List.cons_append, List.append_assoc] at hts
    have hbehind := hsame hhead' hts
    subst hbehind
    cases hbody with
    | plain hplain => exact absurd hif (hplain.not_startsWith rest)
    | nested hnested => exact ⟨rest, rfl, hnested.readsAlone (fun _ => hrest rfl) limit⟩
  | @long _ e _ _ body bs us a _ hi hhead' hne hbody he halternative =>
    rw [List.cons_append, List.append_assoc] at hts
    have hbehind := hsame hhead' hts
    subst hbehind
    cases hbody with
    | plain hplain =>
      rw [List.append_assoc] at hif
      exact absurd hif (hplain.not_startsWith _)
    | nested hnested =>
      exact ⟨e :: us ++ rest, by simp, hnested.readsAlone (by simp) limit⟩

/-- A window that is read alone is run as an `if` statement, so it fails as one does. -/
theorem ReadsAlone.fault_cases {behind : Window} (h : ReadsAlone limit levels ts behind)
    {m : Machine} {f : Fault} (hf : (m.run limit levels ts).fault = some f) :
    (∃ v, f = .invalidCondition v) ∨ ∃ branch g, f = .invalidBody branch g := by
  obtain ⟨c, -, hread⟩ := h
  cases levels with
  | zero => cases hread
  | succ levels =>
    rw [Machine.run_of_read? hread] at hf
    obtain ⟨v, m', -, hcases⟩ := Conditional.fault_cases hf
    rcases hcases with ⟨-, g, -, rfl⟩ | ⟨-, a, g, -, -, rfl⟩ | ⟨-, rfl⟩
    · exact .inr ⟨.body, g, rfl⟩
    · exact .inr ⟨a.branch, g, rfl⟩
    · exact .inl ⟨v, rfl⟩

end Conditional

/-! ### Faults inside faults -/

/-- The fault `g` is the given one, or stands in a branch of it at some depth. -/
inductive Fault.Inside (g : Fault) : Fault → Prop
  | self : Inside g g
  | branch {f : Fault} (branch : Branch) (h : Inside g f) : Inside g (.invalidBody branch f)

theorem Fault.Inside.cases_invalidBody {g f : Fault} {branch : Branch}
    (h : g.Inside (.invalidBody branch f)) : g = .invalidBody branch f ∨ g.Inside f := by
  cases h with
  | self => exact .inl rfl
  | branch _ h => exact .inr h

theorem Fault.not_inside {g f : Fault} {branch : Branch} (hf : ∀ b h, f ≠ .invalidBody b h) :
    ¬ (Fault.invalidBody branch g).Inside f := by
  intro h
  cases h with
  | self => exact hf branch g rfl
  | branch b h => exact hf b _ rfl

theorem Fault.ne_invalidBody_of_isMalformed {f : Fault} (h : f.isMalformed = true) :
    ∀ b g, f ≠ .invalidBody b g := by
  rintro b g rfl
  cases h

namespace Machine

/-- Directly in an `else if`, a run fails by a condition or by a body. -/
theorem fault_elseIf_of_run {limit levels : Nat} {ts : Window} {m : Machine} {f g : Fault}
    (hf : (m.run limit levels ts).fault = some f) (hg : (Fault.invalidBody .elseIf g).Inside f) :
    (∃ v, g = .invalidCondition v) ∨ ∃ branch h, g = .invalidBody branch h := by
  induction levels generalizing ts m f with
  | zero =>
    cases hf
    exact absurd hg (Fault.not_inside fun b h => by simp)
  | succ levels ih =>
    rcases Script.fault_cases hf with hmalformed | ⟨s, hs, m₁, hexec⟩
    · have hsyntax := Script.isMalformed_of_ofWindow hmalformed
      exact absurd hg (Fault.not_inside (Fault.ne_invalidBody_of_isMalformed hsyntax))
    · rcases Statement.fault_cases hexec with ⟨failure, rfl⟩ | ⟨c, rfl, hexec⟩
      · exact absurd hg (Fault.not_inside fun b h => by simp)
      · obtain ⟨us, rest, hread⟩ := Script.exists_read?_of_mem hs
        obtain ⟨v, m₂, -, hcases⟩ := Conditional.fault_cases hexec
        rcases hcases with ⟨-, g', hbody, rfl⟩ | ⟨-, a, g', ha, hbody, rfl⟩ | ⟨-, rfl⟩
        · rcases hg.cases_invalidBody with heq | hinside
          · cases heq
          · exact ih hbody hinside
        · rcases hg.cases_invalidBody with heq | hinside
          · -- the branch is the `else if` itself, and its window is read alone
            cases a with
            | block tokens => cases heq
            | elseIf tokens =>
              cases heq
              exact (Conditional.readsAlone_elseIf hread ha).2.fault_cases hbody
          · exact ih hbody hinside
        · exact absurd hg (Fault.not_inside fun b h => by simp)

/-- **Both readings of an inner `if` statement agree.**  Where an `if` statement is read, the one
behind its `else` and the one that is its body are read alone as they were read inside it, with all
of their tokens, one level below.  Therefore, whatever a program is and however it fails, what
fails directly in an `else if` is a condition or a body. -/
theorem readsAlone_and_fault_elseIf (limit : Nat) :
    (∀ (levels : Nat) (ts rest : Window) (c : Conditional),
      Conditional.read? limit (levels + 1) ts = .ok (c, rest) →
        (∀ us, c.alternative = some (.elseIf us) →
          (∃ front e, ts = front ++ e :: (us ++ rest) ∧ e.kind = .elseWord) ∧
            Conditional.ReadsAlone limit levels us rest) ∧
        ∀ i head behind, ts = i :: (head ++ behind) →
          Encloses .leftParen .rightParen c.condition head → StartsWith .ifWord behind →
          ∃ rest', behind = c.body ++ rest' ∧ Conditional.ReadsAlone limit levels c.body rest') ∧
      ∀ (ts : Window) (m : Machine) (f g : Fault), (m.interpret limit ts).fault = some f →
        (Fault.invalidBody .elseIf g).Inside f →
        (∃ v, g = .invalidCondition v) ∨ ∃ branch h, g = .invalidBody branch h := by
  refine ⟨?_, ?_⟩
  · intro levels ts rest c hread
    refine ⟨fun us hus => Conditional.readsAlone_elseIf hread hus, ?_⟩
    intro i head behind hts hhead hif
    exact Conditional.readsAlone_body hread hts hhead hif
  · intro ts m f g hf hg
    unfold interpret at hf
    dsimp only at hf
    split at hf
    · exact fault_elseIf_of_run hf hg
    · cases hf
      -- A flush that fails at the end is a fault of no branch.
      exact absurd hg (Fault.not_inside fun b h => by simp)

/-- An `if` statement as a body and one behind the `else`, in whose own body the condition is no
truth value. -/
theorem readsAlone_and_fault_elseIf_chain :
    let word (kind : Kind) : Token := ⟨kind, "x", 1⟩
    let head (kind : Kind) := [word .leftParen, word kind, word .rightParen]
    let openIf := word .ifWord :: (head .identifier ++ [word .semicolon])
    let body := openIf ++ [word .elseWord, word .semicolon]
    let chained := word .ifWord :: (head .trueWord ++ openIf)
    let behind := body ++ word .elseWord :: chained
    let ts := word .ifWord :: (head .falseWord ++ behind)
    let c : Conditional := ⟨[word .falseWord], body, some (.elseIf chained)⟩
    let cause := Fault.invalidBody .body (.invalidCondition .nil)
    let m := Machine.fresh .unlimited
    Conditional.read? 2 3 ts = .ok (c, []) ∧ Conditional.ReadsAlone 2 2 chained [] ∧
      (∃ rest, behind = body ++ rest ∧ Conditional.ReadsAlone 2 2 body rest) ∧
      (m.interpret 2 ts).fault = some (.invalidBody .elseIf cause) ∧
      ((∃ v, cause = .invalidCondition v) ∨ ∃ branch h, cause = .invalidBody branch h) := by
  intro word head openIf body chained behind ts c cause m
  have hread : Conditional.read? 2 3 ts = .ok (c, []) := rfl
  have hfault : (m.interpret 2 ts).fault = some (.invalidBody .elseIf cause) := by decide +kernel
  have hhead : Encloses .leftParen .rightParen c.condition (head .falseWord) :=
    ⟨balanced_of_forall_ne (by decide), word .leftParen, word .rightParen, rfl, rfl, rfl⟩
  have hif : StartsWith .ifWord behind := ⟨_, _, rfl, rfl⟩
  obtain ⟨helseIf, hbody⟩ := (readsAlone_and_fault_elseIf 2).1 2 ts [] c hread
  exact ⟨hread, (helseIf chained rfl).2, hbody _ _ _ rfl hhead hif, hfault,
    (readsAlone_and_fault_elseIf 2).2 ts m _ cause hfault .self⟩

end Machine

end Scriptlet
