import Scriptlet.Expression.Parse
import Scriptlet.Statement

/-!
# Running programs

A machine is the state in which a program runs: the variables and the output.  Running a window
runs the statements of its script one after another, each in the state that the one before it left;
the first fault ends the run, and what was done before it stays done.  The body of an `if` is a
window that is run on the next level; a fault in it is wrapped in its branch.

## Main definitions

* `Machine` — the variables and the output.
* `Outcome` — the state after a run, and the fault that ended it, if one did.
* `Statement.exec`, `Script.exec` — running statements.
* `Machine.run` — running a window on a level.
* `Machine.interpret` — running a whole program, and flushing the output.
-/

namespace Scriptlet

/-- The state in which a program runs. -/
structure Machine where
  /-- The variables. -/
  store : Store
  /-- The output. -/
  sink : Sink
  deriving DecidableEq

/-- The state after a run, and the fault that ended it. -/
structure Outcome where
  /-- The state after the run. -/
  machine : Machine
  /-- Why the run failed, if it did. -/
  fault : Option Fault
  deriving DecidableEq

namespace Outcome

/-- A run that ended well. -/
def done (m : Machine) : Outcome := ⟨m, none⟩

/-- A run that ended in a fault. -/
def failed (m : Machine) (f : Fault) : Outcome := ⟨m, some f⟩

/-- Goes on from the state after a run, unless the run has failed. -/
def andThen (o : Outcome) (next : Machine → Outcome) : Outcome :=
  match o.fault with
  | none => next o.machine
  | some _ => o

@[simp] theorem andThen_done (m : Machine) (next : Machine → Outcome) :
    (done m).andThen next = next m := rfl

@[simp] theorem andThen_failed (m : Machine) (f : Fault) (next : Machine → Outcome) :
    (failed m f).andThen next = failed m f := rfl

theorem andThen_assoc (o : Outcome) (f g : Machine → Outcome) :
    (o.andThen f).andThen g = o.andThen fun m => (f m).andThen g := by
  obtain ⟨m, _ | e⟩ := o <;> rfl

/-- Wraps the fault of a run in the branch in which it arose. -/
def within (branch : Branch) (o : Outcome) : Outcome :=
  { o with fault := o.fault.map (Fault.invalidBody branch) }

end Outcome

namespace Machine

/-- The machine before a program: no variables, and the given output. -/
def fresh (sink : Sink) : Machine := ⟨.empty, sink⟩

/-- Binds a name. -/
def assign (name : String) (value : Value) (m : Machine) : Machine :=
  { m with store := m.store.set name value }

/-- Prints a value on a line of its own. -/
def print (value : Value) (m : Machine) : Outcome :=
  let result := m.sink.write (value.display ++ "\n").toUTF8
  ⟨{ m with sink := result.1 }, result.2.map Fault.output⟩

/-- The value of a condition.  A condition that is a name, an equals sign and at least one more
token binds the name to the value. -/
def test (limit : Nat) (condition : Window) (m : Machine) : Value × Machine :=
  match condition with
  | target :: equal :: t :: ts =>
    if target.kind = .identifier ∧ equal.kind = .equal then
      let value := Window.eval m.store limit (t :: ts)
      (value, m.assign target.lexeme value)
    else (condition.eval m.store limit, m)
  | _ => (condition.eval m.store limit, m)

end Machine

/-- Runs an `if` statement, given how its bodies are run. -/
def Conditional.exec (limit : Nat) (enter : Window → Machine → Outcome) (c : Conditional)
    (m : Machine) : Outcome :=
  let (value, m) := m.test limit c.condition
  match value.bool? with
  | none => .failed m (.invalidCondition value)
  | some true => (enter c.body m).within .body
  | some false =>
    match c.alternative with
    | none => .done m
    | some a => (enter a.tokens m).within a.branch

/-- Runs a statement, given how the bodies of `if` statements are run. -/
def Statement.exec (limit : Nat) (enter : Window → Machine → Outcome) (m : Machine) :
    Statement → Outcome
  | assign name body => .done (m.assign name (body.eval m.store limit))
  | print body => m.print (body.eval m.store limit)
  | conditional c => c.exec limit enter m
  | idle _ => .done m

/-- Runs statements one after another, up to the first fault. -/
def Statement.execAll (limit : Nat) (enter : Window → Machine → Outcome) (m : Machine) :
    List Statement → Outcome
  | [] => .done m
  | s :: rest => (s.exec limit enter m).andThen fun m => execAll limit enter m rest

@[simp] theorem Statement.execAll_nil (limit : Nat) (enter : Window → Machine → Outcome)
    (m : Machine) : Statement.execAll limit enter m [] = .done m := rfl

@[simp] theorem Statement.execAll_cons (limit : Nat) (enter : Window → Machine → Outcome)
    (m : Machine) (s : Statement) (rest : List Statement) :
    Statement.execAll limit enter m (s :: rest)
      = (s.exec limit enter m).andThen fun m => Statement.execAll limit enter m rest := rfl

/-- Running statements in two parts is running them all. -/
theorem Statement.execAll_append (limit : Nat) (enter : Window → Machine → Outcome) (m : Machine)
    (front behind : List Statement) :
    Statement.execAll limit enter m (front ++ behind)
      = (Statement.execAll limit enter m front).andThen fun m =>
          Statement.execAll limit enter m behind := by
  induction front generalizing m with
  | nil => rfl
  | cons s rest ih => simp only [List.cons_append, execAll_cons, ih, Outcome.andThen_assoc]

/-- Runs a script: its statements, and then into what is wrong behind them. -/
def Script.exec (limit : Nat) (enter : Window → Machine → Outcome) (s : Script) (m : Machine) :
    Outcome :=
  (Statement.execAll limit enter m s.statements).andThen fun m => ⟨m, s.fault⟩

namespace Machine

/-- Runs a window in so many levels; on none at all, nothing can be run. -/
def run (limit : Nat) : Nat → Window → Machine → Outcome
  | 0, _, m => .failed m (.tooDeep limit)
  | levels + 1, ts, m => (Script.ofWindow limit (levels + 1) ts).exec limit (run limit levels) m

@[simp] theorem run_zero (limit : Nat) (ts : Window) (m : Machine) :
    m.run limit 0 ts = .failed m (.tooDeep limit) := rfl

@[simp] theorem run_succ (limit levels : Nat) (ts : Window) (m : Machine) :
    m.run limit (levels + 1) ts
      = (Script.ofWindow limit (levels + 1) ts).exec limit (fun ts m => m.run limit levels ts) m :=
  rfl

/-- Runs a whole program under a limit on its nesting: the program stands on level zero, and there
may be levels below it up to the limit.  The output is flushed at the end, also behind a fault, and
a failure of that takes the place of the fault. -/
def interpret (limit : Nat) (ts : Window) (m : Machine) : Outcome :=
  let o := m.run limit (limit + 1) ts
  match o.machine.sink.flush with
  | none => o
  | some failure => .failed o.machine (.output failure)

end Machine

end Scriptlet
