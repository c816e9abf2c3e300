import Scriptlet.Machine
import Scriptlet.Proofs.Statement.Form

/-!
# Running a window statement by statement

A window is run by running its first statement and then what is left of it.  What the first
statement is does not depend on what follows it, an `else` apart; so a window whose statements are
all well formed can be followed by another one, and the two are run one after the other.

## Main results

* `Machine.run_form_append`, `Machine.run_form` — running a window is running its first statement,
  and then the rest.
* `Machine.run_of_read?` — running the window of an `if` is running the `if`.
* `Script.ofWindow_append`, `Machine.run_append` — a window behind another one.
-/

namespace Scriptlet

open Window

namespace Script

theorem ofWindow_nil (limit levels : Nat) : ofWindow limit levels [] = ⟨[], none⟩ := by
  rw [ofWindow]

/-- The script of a window of which the first statement can be read. -/
theorem ofWindow_of_ok {limit levels : Nat} {t : Token} {ts rest : Window} {s : Statement}
    (h : Statement.read limit levels t ts = .ok (s, rest)) :
    ofWindow limit levels (t :: ts)
      = ⟨s :: (ofWindow limit levels rest).statements, (ofWindow limit levels rest).fault⟩ := by
  rw [ofWindow]
  split
  · rename_i f hf
    rw [h] at hf
    cases hf
  · rename_i s' rest' hs
    rw [h] at hs
    cases hs
    rfl

/-- The script of a window of which the first statement cannot be read. -/
theorem ofWindow_of_error {limit levels : Nat} {t : Token} {ts : Window} {f : Fault}
    (h : Statement.read limit levels t ts = .error f) :
    ofWindow limit levels (t :: ts) = ⟨[], some f⟩ := by
  rw [ofWindow]
  split
  · rename_i f' hf
    rw [h] at hf
    cases hf
    rfl
  · rename_i s rest hs
    rw [h] at hs
    cases hs

/-- **A window without a fault may be followed by another one**, if that does not begin with an
`else`: the statements of the two come one after the other. -/
theorem ofWindow_append {limit levels : Nat} {front behind : Window}
    (hfront : (ofWindow limit levels front).fault = none)
    (hbehind : ¬ StartsWith .elseWord behind) :
    ofWindow limit levels (front ++ behind)
      = ⟨(ofWindow limit levels front).statements ++ (ofWindow limit levels behind).statements,
          (ofWindow limit levels behind).fault⟩ := by
  -- the induction follows the statements of the first window; a malformed one is excluded
  fun_induction ofWindow limit levels front with
  | case1 => rfl
  | case2 t ts f hread => cases hfront
  | case3 t ts s rest hread hle tail ih =>
    -- appending tokens does not put an `else` behind the first statement
    have hmore : StartsWith .elseWord (rest ++ behind) → StartsWith .elseWord rest := by
      intro h
      cases rest with
      | nil => exact absurd h hbehind
      | cons u us => exact startsWith_cons_iff.2 (startsWith_cons_iff.1 h)
    obtain ⟨used, rfl, hread'⟩ := Statement.read_of_read hread hmore
    rw [List.cons_append, List.append_assoc, ofWindow_of_ok hread', ih hfront, List.cons_append]

/-- Running a script in two parts: the first statements, and then the others with the fault. -/
theorem exec_append (limit : Nat) (enter : Window → Machine → Outcome)
    (front behind : List Statement) (fault : Option Fault) (m : Machine) :
    exec limit enter ⟨front ++ behind, fault⟩ m
      = (Statement.execAll limit enter m front).andThen fun m =>
          exec limit enter ⟨behind, fault⟩ m := by
  simp only [exec, Statement.execAll_append, Outcome.andThen_assoc]

end Script

theorem Outcome.andThen_fault_eq_none_iff {o : Outcome} {next : Machine → Outcome} :
    (o.andThen next).fault = none ↔ o.fault = none ∧ (next o.machine).fault = none := by
  obtain ⟨m, _ | f⟩ := o
  · simp [andThen]
  · simp [andThen]

theorem Outcome.andThen_of_fault_eq_none {o : Outcome} (h : o.fault = none)
    (next : Machine → Outcome) : o.andThen next = next o.machine := by
  rw [andThen, h]

namespace Conditional

/-! ### Running an `if` -/

variable {limit : Nat} {enter : Window → Machine → Outcome} {c : Conditional} {m m' : Machine}

/-- A true condition runs the body. -/
theorem exec_of_true (h : m.test limit c.condition = (.bool true, m')) :
    c.exec limit enter m = (enter c.body m').within .body := by
  rw [exec, h]
  rfl

/-- A false condition runs what stands behind `else`, if there is something. -/
theorem exec_of_false (h : m.test limit c.condition = (.bool false, m')) :
    c.exec limit enter m
      = match c.alternative with
        | none => .done m'
        | some a => (enter a.tokens m').within a.branch := by
  rw [exec, h]
  rfl

theorem exec_of_invalid {v : Value} (h : m.test limit c.condition = (v, m'))
    (hv : ∀ b, v ≠ .bool b) : c.exec limit enter m = .failed m' (.invalidCondition v) := by
  rw [exec, h]
  cases v with
  | bool b => exact absurd rfl (hv b)
  | _ => rfl

/-- What running an `if` does, by the value of its condition. -/
theorem exec_cases (limit : Nat) (enter : Window → Machine → Outcome) (c : Conditional)
    (m : Machine) :
    ∃ v m', m.test limit c.condition = (v, m') ∧
      ((v = .bool true ∧ c.exec limit enter m = (enter c.body m').within .body) ∨
        (v = .bool false ∧ c.exec limit enter m
          = match c.alternative with
            | none => .done m'
            | some a => (enter a.tokens m').within a.branch) ∨
        ((∀ b, v ≠ .bool b) ∧ c.exec limit enter m = .failed m' (.invalidCondition v))) := by
  obtain ⟨v, m', heq⟩ : ∃ v m', m.test limit c.condition = (v, m') := ⟨_, _, rfl⟩
  refine ⟨v, m', heq, ?_⟩
  by_cases hv : ∃ b, v = .bool b
  · obtain ⟨b, rfl⟩ := hv
    cases b with
    | true => exact .inl ⟨rfl, exec_of_true heq⟩
    | false => exact .inr (.inl ⟨rfl, exec_of_false heq⟩)
  · rw [not_exists] at hv
    exact .inr (.inr ⟨hv, exec_of_invalid heq hv⟩)

end Conditional

namespace Machine

/-- Running a window of which the first statement can be read is running that, and then the rest. -/
theorem run_of_read_ok {limit levels : Nat} {t : Token} {ts rest : Window} {s : Statement}
    (h : Statement.read limit (levels + 1) t ts = .ok (s, rest)) (m : Machine) :
    m.run limit (levels + 1) (t :: ts)
      = (s.exec limit (fun ts m => m.run limit levels ts) m).andThen fun m =>
          m.run limit (levels + 1) rest := by
  rw [run_succ, Script.ofWindow_of_ok h, Script.exec, Statement.execAll_cons, Outcome.andThen_assoc]
  rfl

/-- **Running a window** is running its first statement, and then what follows it. -/
theorem run_form_append {limit levels : Nat} {s : Statement} {dangling : Bool}
    {front rest : Window} (hform : s.Form (levels + 1) dangling front)
    (hrest : dangling = true → ¬ StartsWith .elseWord rest) (m : Machine) :
    m.run limit (levels + 1) (front ++ rest)
      = (s.exec limit (fun ts m => m.run limit levels ts) m).andThen fun m =>
          m.run limit (levels + 1) rest := by
  cases front with
  | nil => exact absurd rfl hform.ne_nil
  | cons t ts =>
    exact run_of_read_ok
      (Statement.read_eq_ok_iff.2 ⟨dangling, t :: ts, hform, rfl, hrest⟩) m

/-- Running a window that is one statement is running that statement. -/
theorem run_form {limit levels : Nat} {s : Statement} {dangling : Bool} {front : Window}
    (hform : s.Form (levels + 1) dangling front) (m : Machine) :
    m.run limit (levels + 1) front = s.exec limit (fun ts m => m.run limit levels ts) m := by
  rw [← List.append_nil front, run_form_append hform fun _ => not_startsWith_nil _]
  -- nothing follows the statement, so the run ends with it
  obtain ⟨m', fault⟩ := s.exec limit (fun ts m => m.run limit levels ts) m
  cases fault with
  | none => simp [Outcome.andThen, Script.exec, Script.ofWindow_nil, Outcome.done]
  | some f => rfl

/-- Running a window that begins with something malformed changes nothing. -/
theorem run_of_read_error {limit levels : Nat} {t : Token} {ts : Window} {f : Fault}
    (h : Statement.read limit (levels + 1) t ts = .error f) (m : Machine) :
    m.run limit (levels + 1) (t :: ts) = .failed m f := by
  rw [run_succ, Script.ofWindow_of_error h]
  rfl

/-- **Running the window of an `if`** is running the `if`. -/
theorem run_of_read? {limit levels : Nat} {c : Conditional} {ts : Window}
    (h : Conditional.read? limit (levels + 1) ts = .ok (c, [])) (m : Machine) :
    m.run limit (levels + 1) ts = c.exec limit (fun ts m => m.run limit levels ts) m := by
  obtain ⟨dangling, front, hshape, rfl, -⟩ := (Conditional.read?_eq_ok_iff ts c []).1 h
  rw [List.append_nil, run_form (.conditional hshape), Statement.exec]

/-- **A run that ends well can go on**: a window behind another one is run in the state that the
first one leaves. -/
theorem run_append {limit levels : Nat} {front behind : Window} {m : Machine}
    (hfront : (m.run limit levels front).fault = none) (hbehind : ¬ StartsWith .elseWord behind) :
    m.run limit levels (front ++ behind)
      = (m.run limit levels front).machine.run limit levels behind := by
  cases levels with
  | zero => cases hfront
  | succ levels =>
    rw [run_succ, Script.exec] at hfront
    -- no statement of the first window fails, and none behind them is malformed
    obtain ⟨hall, hfault⟩ := Outcome.andThen_fault_eq_none_iff.1 hfront
    have hmachine : (m.run limit (levels + 1) front).machine
        = (Statement.execAll limit (fun ts m => m.run limit levels ts) m
            (Script.ofWindow limit (levels + 1) front).statements).machine := by
      rw [run_succ, Script.exec, Outcome.andThen_of_fault_eq_none hall]
    rw [run_succ, Script.ofWindow_append hfault hbehind, Script.exec_append,
      Outcome.andThen_of_fault_eq_none hall, hmachine, run_succ]

end Machine

end Scriptlet
