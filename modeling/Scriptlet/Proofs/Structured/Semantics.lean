import Scriptlet.Machine
import Scriptlet.Proofs.Structured.Syntax

/-!
# Running structured programs

What a structured program does, said of its tree: no window is cut and nothing is nested too
deeply.  An expression has the value that it has without any limit; a condition may bind a name on
the way to its value; of the bodies of an `if`, at most one is run, and a fault in it is wrapped.
The sink is taken to accept everything.

## Main definitions

* `Structured.Tests` — what a condition yields and the state that it leaves.
* `Structured.Program.Runs` — what a program does from a state.

## Main results

* `Structured.Program.Runs.unique` — a program does one thing only.
* `Structured.Program.Runs.reliable` — the sink goes on to accept everything.
-/

namespace Scriptlet

/-- The sink accepts any bytes and can be flushed. -/
structure Sink.Reliable (s : Sink) : Prop where
  /-- There is always room for more. -/
  room : s.room = none
  /-- Flushing succeeds. -/
  flushes : s.flushes = true

/-- The value of an expression under a limit that leaves room for all its tokens. -/
def Window.value (store : Store) (ts : Window) : Value := ts.eval store ts.length

namespace Machine

/-- The state behind binding a name to a value. -/
def bound (name : String) (value : Value) (m : Machine) : Machine :=
  { m with store := m.store.set name value }

/-- The state behind printing a value on a line of its own. -/
def printed (value : Value) (m : Machine) : Machine :=
  { m with sink := { m.sink with written := m.sink.written ++ (value.display ++ "\n").toUTF8 } }

end Machine

namespace Structured

/-- A condition that binds a name: the name, an equals sign, and the tokens of a value. -/
def Binds (condition : Window) (target : Token) (value : Window) : Prop :=
  ∃ e, condition = target :: e :: value ∧ target.kind = .identifier ∧ e.kind = .equal ∧ value ≠ []

/-- A condition has a value and leaves a state. -/
inductive Tests : Window → Machine → Value → Machine → Prop
  | binding {condition value : Window} {target : Token} {m : Machine}
      (h : Binds condition target value) :
      Tests condition m (value.value m.store) (m.bound target.lexeme (value.value m.store))
  | plain {condition : Window} {m : Machine} (h : ∀ target value, ¬ Binds condition target value) :
      Tests condition m (condition.value m.store) m

mutual

/-- What a statement does. -/
inductive Stmt.Runs : Stmt → Machine → Outcome → Prop
  | declare {name : String} {value : Window} {m : Machine} :
      Stmt.Runs (.declare name value) m (.done (m.bound name (value.value m.store)))
  | assign {name : String} {value : Window} {m : Machine} :
      Stmt.Runs (.assign name value) m (.done (m.bound name (value.value m.store)))
  | print {value : Window} {m : Machine} :
      Stmt.Runs (.print value) m (.done (m.printed (value.value m.store)))
  -- an `if` without an `else`: a fault in the body is wrapped
  | thenTrue {condition : Window} {body : Body} {m m' : Machine} {o : Outcome}
      (htest : Tests condition m (.bool true) m') (hbody : body.program.Runs m' o) :
      Stmt.Runs (.ifThen condition body) m ⟨o.machine, o.fault.map (.invalidBody .body)⟩
  | thenFalse {condition : Window} {body : Body} {m m' : Machine}
      (htest : Tests condition m (.bool false) m') :
      Stmt.Runs (.ifThen condition body) m (.done m')
  | thenInvalid {condition : Window} {body : Body} {m m' : Machine} {v : Value}
      (htest : Tests condition m v m') (hv : ∀ b, v ≠ .bool b) :
      Stmt.Runs (.ifThen condition body) m (.failed m' (.invalidCondition v))
  -- an `if` with an `else`: a fault is wrapped in the body that was run
  | elseTrue {condition : Window} {body alternative : Body} {m m' : Machine} {o : Outcome}
      (htest : Tests condition m (.bool true) m') (hbody : body.program.Runs m' o) :
      Stmt.Runs (.ifElse condition body alternative) m ⟨o.machine, o.fault.map (.invalidBody .body)⟩
  | elseFalse {condition : Window} {body alternative : Body} {m m' : Machine} {o : Outcome}
      (htest : Tests condition m (.bool false) m') (hbody : alternative.program.Runs m' o) :
      Stmt.Runs (.ifElse condition body alternative) m
        ⟨o.machine, o.fault.map (.invalidBody alternative.branch)⟩
  | elseInvalid {condition : Window} {body alternative : Body} {m m' : Machine} {v : Value}
      (htest : Tests condition m v m') (hv : ∀ b, v ≠ .bool b) :
      Stmt.Runs (.ifElse condition body alternative) m (.failed m' (.invalidCondition v))

/-- What a program does. -/
inductive Program.Runs : Program → Machine → Outcome → Prop
  | nil {m : Machine} : Program.Runs .nil m (.done m)
  | step {s : Stmt} {rest : Program} {m m' : Machine} {o : Outcome} (hs : s.Runs m (.done m'))
      (hrest : rest.Runs m' o) : Program.Runs (.cons s rest) m o
  | stop {s : Stmt} {rest : Program} {m m' : Machine} {f : Fault} (hs : s.Runs m (.failed m' f)) :
      Program.Runs (.cons s rest) m (.failed m' f)

end

/-! ### One result only -/

theorem Binds.unique {condition value value' : Window} {target target' : Token}
    (h : Binds condition target value) (h' : Binds condition target' value') :
    target = target' ∧ value = value' := by
  obtain ⟨e, rfl, -⟩ := h
  obtain ⟨e', heq, -⟩ := h'
  simp only [List.cons.injEq] at heq
  exact ⟨heq.1, heq.2.2⟩

theorem Tests.unique {condition : Window} {m m₁ m₂ : Machine} {v₁ v₂ : Value}
    (h₁ : Tests condition m v₁ m₁) (h₂ : Tests condition m v₂ m₂) : v₁ = v₂ ∧ m₁ = m₂ := by
  cases h₁ with
  | binding hbinds =>
    cases h₂ with
    | binding hbinds' =>
      obtain ⟨rfl, rfl⟩ := hbinds.unique hbinds'
      exact ⟨rfl, rfl⟩
    | plain hnone => exact absurd hbinds (hnone _ _)
  | plain hnone =>
    cases h₂ with
    | binding hbinds => exact absurd hbinds (hnone _ _)
    | plain => exact ⟨rfl, rfl⟩

mutual

theorem Stmt.Runs.unique : ∀ {s : Stmt} {m : Machine} {o o' : Outcome}, s.Runs m o →
    s.Runs m o' → o = o'
  | _, _, _, _, .declare, h' => by
    cases h'
    rfl
  | _, _, _, _, .assign, h' => by
    cases h'
    rfl
  | _, _, _, _, .print, h' => by
    cases h'
    rfl
  -- A condition has one value, so two runs of an `if` take the same way.
  | _, _, _, _, .thenTrue htest hbody, h' => by
    cases h' with
    | thenTrue htest' hbody' =>
      obtain ⟨-, rfl⟩ := htest.unique htest'
      rw [hbody.unique hbody']
    | thenFalse htest' => cases (htest.unique htest').1
    | thenInvalid htest' hv => exact absurd (htest'.unique htest).1 (hv _)
  | _, _, _, _, .thenFalse htest, h' => by
    cases h' with
    | thenTrue htest' => cases (htest.unique htest').1
    | thenFalse htest' => rw [(htest.unique htest').2]
    | thenInvalid htest' hv => exact absurd (htest'.unique htest).1 (hv _)
  | _, _, _, _, .thenInvalid htest hv, h' => by
    cases h' with
    | thenTrue htest' => exact absurd (htest.unique htest').1 (hv _)
    | thenFalse htest' => exact absurd (htest.unique htest').1 (hv _)
    | thenInvalid htest' =>
      obtain ⟨rfl, rfl⟩ := htest.unique htest'
      rfl
  | _, _, _, _, .elseTrue htest hbody, h' => by
    cases h' with
    | elseTrue htest' hbody' =>
      obtain ⟨-, rfl⟩ := htest.unique htest'
      rw [hbody.unique hbody']
    | elseFalse htest' => cases (htest.unique htest').1
    | elseInvalid htest' hv => exact absurd (htest'.unique htest).1 (hv _)
  | _, _, _, _, .elseFalse htest hbody, h' => by
    cases h' with
    | elseTrue htest' => cases (htest.unique htest').1
    | elseFalse htest' hbody' =>
      obtain ⟨-, rfl⟩ := htest.unique htest'
      rw [hbody.unique hbody']
    | elseInvalid htest' hv => exact absurd (htest'.unique htest).1 (hv _)
  | _, _, _, _, .elseInvalid htest hv, h' => by
    cases h' with
    | elseTrue htest' => exact absurd (htest.unique htest').1 (hv _)
    | elseFalse htest' => exact absurd (htest.unique htest').1 (hv _)
    | elseInvalid htest' =>
      obtain ⟨rfl, rfl⟩ := htest.unique htest'
      rfl

/-- **A program does one thing only.** -/
theorem Program.Runs.unique : ∀ {p : Program} {m : Machine} {o o' : Outcome}, p.Runs m o →
    p.Runs m o' → o = o'
  | _, _, _, _, .nil, h' => by
    cases h'
    rfl
  | _, _, _, _, .step hs hrest, h' => by
    cases h' with
    | step hs' hrest' =>
      cases hs.unique hs'
      exact hrest.unique hrest'
    | stop hs' => cases hs.unique hs'
  | _, _, _, _, .stop hs, h' => by
    cases h' with
    | step hs' => cases hs.unique hs'
    | stop hs' => exact hs.unique hs'

end

/-! ### The sink -/

theorem Tests.sink_eq {condition : Window} {m m' : Machine} {v : Value}
    (h : Tests condition m v m') : m'.sink = m.sink := by
  cases h <;> rfl

theorem Tests.reliable {condition : Window} {m m' : Machine} {v : Value}
    (h : Tests condition m v m') (hm : m.sink.Reliable) : m'.sink.Reliable := by
  rw [h.sink_eq]
  exact hm

mutual

theorem Stmt.Runs.reliable : ∀ {s : Stmt} {m : Machine} {o : Outcome}, s.Runs m o →
    m.sink.Reliable → o.machine.sink.Reliable
  | _, _, _, .declare, hm | _, _, _, .assign, hm => hm
  | _, _, _, .print, hm => ⟨hm.room, hm.flushes⟩
  | _, _, _, .thenTrue htest hbody, hm | _, _, _, .elseTrue htest hbody, hm
  | _, _, _, .elseFalse htest hbody, hm => hbody.reliable (htest.reliable hm)
  | _, _, _, .thenFalse htest, hm | _, _, _, .thenInvalid htest _, hm
  | _, _, _, .elseInvalid htest _, hm => htest.reliable hm

/-- A program leaves a sink that accepts everything such a sink. -/
theorem Program.Runs.reliable : ∀ {p : Program} {m : Machine} {o : Outcome}, p.Runs m o →
    m.sink.Reliable → o.machine.sink.Reliable
  | _, _, _, .nil, hm => hm
  | _, _, _, .step hs hrest, hm => hrest.reliable (hs.reliable hm)
  | _, _, _, .stop hs, hm => hs.reliable hm

end

end Structured

end Scriptlet
