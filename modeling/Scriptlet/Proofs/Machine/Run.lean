import Scriptlet.Proofs.Machine.Step

/-!
# What runs keep and how they fail

Assignments and prints are all that a run does to a machine, so what both of them keep is kept by
every run, however it ends.  And a run ends in a fault in few ways: a statement is malformed, a
print does not fit into the sink, a condition is no truth value, or a body fails.

## Main definitions

* `Machine.Invariant` — a property of machines that assignments and prints keep.
* `Fault.isMalformed` — what is wrong can be seen in the tokens.

## Main results

* `Machine.Invariant.run` — **an invariant is kept by every run.**
* `Machine.interpret_eq_run` — with a sink that can be flushed, a program is run and no more.
* `Conditional.fault_cases`, `Statement.fault_cases`, `Script.fault_cases` — how runs fail.
-/

namespace Scriptlet

open Window

/-! ### Invariants -/

namespace Machine

/-- A property of machines that neither an assignment nor a print takes away. -/
structure Invariant (P : Machine → Prop) : Prop where
  /-- Assignments keep it. -/
  assign : ∀ {m : Machine} (name : String) (value : Value), P m → P (m.assign name value)
  /-- Prints keep it, also those that fail. -/
  print : ∀ {m : Machine} (value : Value), P m → P (m.print value).machine

namespace Invariant

variable {P : Machine → Prop} {limit : Nat} {enter : Window → Machine → Outcome} {m : Machine}

/-- A condition at most assigns. -/
theorem test (h : Invariant P) (condition : Window) (hm : P m) :
    P (m.test limit condition).2 := by
  unfold Machine.test
  split
  · split
    · exact h.assign _ _ hm
    · exact hm
  · exact hm

theorem conditional (h : Invariant P) (henter : ∀ ts {m}, P m → P (enter ts m).machine)
    (c : Conditional) (hm : P m) : P (c.exec limit enter m).machine := by
  obtain ⟨v, m', htest, hcases⟩ := c.exec_cases limit enter m
  have hm' : P m' := by
    have hkept : P (m.test limit c.condition).2 := h.test c.condition hm
    rwa [htest] at hkept
  rcases hcases with ⟨-, hexec⟩ | ⟨-, hexec⟩ | ⟨-, hexec⟩
  · rw [hexec]
    exact henter c.body hm'
  · rw [hexec]
    cases c.alternative with
    | none => exact hm'
    | some a => exact henter a.tokens hm'
  · rw [hexec]
    exact hm'

theorem statement (h : Invariant P) (henter : ∀ ts {m}, P m → P (enter ts m).machine)
    (s : Statement) (hm : P m) : P (s.exec limit enter m).machine := by
  cases s with
  | assign name body => exact h.assign _ _ hm
  | print body => exact h.print _ hm
  | conditional c => exact h.conditional henter c hm
  | idle t => exact hm

theorem execAll (h : Invariant P) (henter : ∀ ts {m}, P m → P (enter ts m).machine)
    (statements : List Statement) (hm : P m) :
    P (Statement.execAll limit enter m statements).machine := by
  induction statements generalizing m with
  | nil => exact hm
  | cons s rest ih =>
    have hs : P (s.exec limit enter m).machine := h.statement henter s hm
    rw [Statement.execAll_cons]
    obtain ⟨⟨m', fault⟩, heq⟩ : ∃ o, o = s.exec limit enter m := ⟨_, rfl⟩
    rw [← heq] at hs ⊢
    cases fault with
    | none => exact ih hs
    | some f => exact hs

/-- **An invariant is kept by every run**, whether it ends well or not. -/
theorem run (h : Invariant P) {levels : Nat} (ts : Window) (hm : P m) :
    P (m.run limit levels ts).machine := by
  induction levels generalizing ts m with
  | zero => exact hm
  | succ levels ih =>
    rw [run_succ, Script.exec]
    have hall : P (Statement.execAll limit (fun ts m => m.run limit levels ts) m
        (Script.ofWindow limit (levels + 1) ts).statements).machine :=
      h.execAll (fun ts _ hm => ih ts hm) _ hm
    -- running into what is malformed changes nothing
    rw [Outcome.andThen]
    split
    · exact hall
    · exact hall

end Invariant

/-- Whether the sink can be flushed does not change. -/
theorem invariant_flushes (b : Bool) : Invariant fun m => m.sink.flushes = b where
  assign _ _ hm := hm
  print {m} value hm := by
    rw [← hm]
    unfold print Sink.write
    dsimp only
    split
    · rfl
    · split
      · rfl
      · rfl

theorem interpret_eq_run {m : Machine} (hm : m.sink.flushes = true) (limit : Nat) (ts : Window) :
    m.interpret limit ts = m.run limit (limit + 1) ts := by
  have hflushes : (m.run limit (limit + 1) ts).machine.sink.flushes = true :=
    (invariant_flushes true).run ts hm
  have hflush : (m.run limit (limit + 1) ts).machine.sink.flush = none := if_pos hflushes
  unfold interpret
  dsimp only
  rw [hflush]

end Machine

/-! ### Malformed statements -/

/-- What is wrong can be seen in the tokens, before anything is run. -/
def Fault.isMalformed : Fault → Bool
  | invalidCondition _ | invalidBody _ _ | output _ => false
  | _ => true

namespace Conditional

section

variable {nested : Window → Except Fault (Conditional × Window)} {ts : Window} {f : Fault}

theorem isMalformed_of_condition? (h : condition? ts = .error f) : f.isMalformed = true := by
  unfold condition? at h
  split at h <;> cases h <;> rfl

theorem isMalformed_of_body? (hnested : ∀ {ts f}, nested ts = .error f → f.isMalformed = true)
    {missing : Malformation} (h : body? nested missing ts = .error f) :
    f.isMalformed = true := by
  unfold body? at h
  split at h
  · cases h
    rfl
  · split at h
    · cases h
      rfl
    · cases h
      rfl
    · split at h <;> cases h
      rfl
    · exact hnested (map_eq_error_iff.1 h)
    · split at h <;> cases h
      rfl

theorem isMalformed_of_elseClause?
    (hnested : ∀ {ts f}, nested ts = .error f → f.isMalformed = true)
    (h : elseClause? nested ts = .error f) : f.isMalformed = true := by
  unfold elseClause? at h
  split at h
  · cases h
  · split at h
    · have h := map_eq_error_iff.1 h
      unfold alternative? at h
      split at h
      · exact hnested (map_eq_error_iff.1 h)
      · exact isMalformed_of_body? hnested (map_eq_error_iff.1 h)
    · cases h

end

/-- What is wrong with an `if` statement is seen in its tokens. -/
theorem isMalformed_of_read? {limit levels : Nat} {ts : Window} {f : Fault}
    (h : read? limit levels ts = .error f) : f.isMalformed = true := by
  induction levels generalizing ts f with
  | zero =>
    cases h
    rfl
  | succ levels ih =>
    cases ts with
    | nil =>
      cases h
      rfl
    | cons t ts =>
      rw [read?] at h
      split at h
      · -- The fault is that of the first part that cannot be read: condition, body, `else` clause.
        rcases bind_eq_error_iff.1 h with h | ⟨p, -, h⟩
        · exact isMalformed_of_condition? h
        · rcases bind_eq_error_iff.1 h with h | ⟨q, -, h⟩
          · exact isMalformed_of_body? ih h
          · rcases bind_eq_error_iff.1 h with h | ⟨r, -, h⟩
            · exact isMalformed_of_elseClause? ih h
            · cases h
      · cases h
        rfl

end Conditional

namespace Statement

theorem isMalformed_of_expression {construct : Construct} {ts : Window} {f : Fault}
    (h : expression construct ts = .error f) : f.isMalformed = true := by
  unfold expression at h
  split at h <;> cases h <;> rfl

theorem isMalformed_of_assignment {construct : Construct} {name : String} {ts : Window} {f : Fault}
    (h : assignment construct name ts = .error f) : f.isMalformed = true := by
  unfold assignment at h
  split at h
  · cases h
    rfl
  · split at h
    · exact isMalformed_of_expression (map_eq_error_iff.1 h)
    · cases h
      rfl

/-- What is wrong with a statement that cannot be read is seen in its tokens. -/
theorem isMalformed_of_read {limit levels : Nat} {t : Token} {ts : Window} {f : Fault}
    (h : read limit levels t ts = .error f) : f.isMalformed = true := by
  unfold read at h
  split at h
  · unfold declaration at h
    split at h
    · split at h
      · exact isMalformed_of_assignment h
      · cases h
        rfl
    · cases h
      rfl
  · exact isMalformed_of_assignment h
  · unfold printing at h
    split at h
    · cases h
      rfl
    · exact isMalformed_of_expression (map_eq_error_iff.1 h)
  · exact Conditional.isMalformed_of_read? (map_eq_error_iff.1 h)
  · cases h

end Statement

namespace Script

theorem isMalformed_of_ofWindow {limit levels : Nat} {ts : Window} {f : Fault}
    (h : (ofWindow limit levels ts).fault = some f) : f.isMalformed = true := by
  fun_induction ofWindow limit levels ts with
  | case1 => cases h
  | case2 t ts f' hread =>
    cases h
    exact Statement.isMalformed_of_read hread
  | case3 t ts s rest hread hle tail ih => exact ih h

/-- Every statement of a script has been read at some place of its window. -/
theorem exists_read_of_mem {limit levels : Nat} {ts : Window} {s : Statement}
    (h : s ∈ (ofWindow limit levels ts).statements) :
    ∃ t us rest, Statement.read limit levels t us = .ok (s, rest) := by
  fun_induction ofWindow limit levels ts with
  | case1 => cases h
  | case2 => cases h
  | case3 t ts s' rest hread hle tail ih =>
    rcases List.mem_cons.1 h with rfl | h
    · exact ⟨t, ts, rest, hread⟩
    · exact ih h

/-- Every `if` statement of a script has been read at some place of its window. -/
theorem exists_read?_of_mem {limit levels : Nat} {ts : Window} {c : Conditional}
    (h : .conditional c ∈ (ofWindow limit levels ts).statements) :
    ∃ us rest, Conditional.read? limit levels us = .ok (c, rest) := by
  obtain ⟨t, us, rest, hread⟩ := exists_read_of_mem h
  refine ⟨t :: us, rest, ?_⟩
  obtain ⟨dangling, front, hform, hts, hrest⟩ := Statement.read_eq_ok_iff.1 hread
  cases hform with
  | conditional hshape =>
    exact (Conditional.read?_eq_ok_iff _ c rest).2 ⟨dangling, front, hshape, hts, hrest⟩

end Script

/-! ### Faults of runs -/

section

variable {limit : Nat} {enter : Window → Machine → Outcome} {m : Machine} {f : Fault}

theorem Outcome.within_fault_eq_some_iff {branch : Branch} {o : Outcome} :
    (o.within branch).fault = some f ↔ ∃ g, o.fault = some g ∧ f = .invalidBody branch g := by
  rw [within, Option.map_eq_some_iff]
  simp only [eq_comm]

/-- An `if` fails by its condition or by the body that it runs. -/
theorem Conditional.fault_cases {c : Conditional} (h : (c.exec limit enter m).fault = some f) :
    ∃ v m', m.test limit c.condition = (v, m') ∧
      ((v = .bool true ∧ ∃ g, (enter c.body m').fault = some g ∧ f = .invalidBody .body g) ∨
        (v = .bool false ∧ ∃ a g, c.alternative = some a ∧ (enter a.tokens m').fault = some g ∧
          f = .invalidBody a.branch g) ∨
        ((∀ b, v ≠ .bool b) ∧ f = .invalidCondition v)) := by
  obtain ⟨v, m', htest, hcases⟩ := c.exec_cases limit enter m
  refine ⟨v, m', htest, ?_⟩
  rcases hcases with ⟨hv, hexec⟩ | ⟨hv, hexec⟩ | ⟨hv, hexec⟩
  · rw [hexec] at h
    exact .inl ⟨hv, Outcome.within_fault_eq_some_iff.1 h⟩
  · rw [hexec] at h
    -- Without an `else` a false condition ends the statement well.
    cases ha : c.alternative with
    | none =>
      rw [ha] at h
      cases h
    | some a =>
      rw [ha] at h
      obtain ⟨g, hg, rfl⟩ := Outcome.within_fault_eq_some_iff.1 h
      exact .inr (.inl ⟨hv, a, g, rfl, hg, rfl⟩)
  · rw [hexec] at h
    cases h
    exact .inr (.inr ⟨hv, rfl⟩)

/-- A statement fails by a print that the sink refuses, or as an `if` does. -/
theorem Statement.fault_cases {s : Statement} (h : (s.exec limit enter m).fault = some f) :
    (∃ failure, f = .output failure) ∨
      ∃ c, s = .conditional c ∧ (c.exec limit enter m).fault = some f := by
  cases s with
  | assign name body => cases h
  | print body =>
    obtain ⟨failure, -, rfl⟩ := Option.map_eq_some_iff.1 h
    exact .inl ⟨failure, rfl⟩
  | conditional c => exact .inr ⟨c, rfl, h⟩
  | idle t => cases h

theorem Statement.exists_fault_of_execAll {statements : List Statement}
    (h : (execAll limit enter m statements).fault = some f) :
    ∃ s ∈ statements, ∃ m', (s.exec limit enter m').fault = some f := by
  induction statements generalizing m with
  | nil => cases h
  | cons s rest ih =>
    rw [execAll_cons, Outcome.andThen] at h
    split at h
    · obtain ⟨s', hs', m', hfault⟩ := ih h
      exact ⟨s', List.mem_cons_of_mem s hs', m', hfault⟩
    · exact ⟨s, List.mem_cons_self, m, h⟩

/-- A script fails by what is malformed in it, or by one of its statements. -/
theorem Script.fault_cases {s : Script} (h : (s.exec limit enter m).fault = some f) :
    s.fault = some f ∨ ∃ st ∈ s.statements, ∃ m', (st.exec limit enter m').fault = some f := by
  rw [exec, Outcome.andThen] at h
  split at h
  · exact .inl h
  · exact .inr (Statement.exists_fault_of_execAll h)

end

end Scriptlet
