import Scriptlet.Proofs.Machine.Run
import Scriptlet.Proofs.Statement.Part

/-!
# Two runs side by side

One program is run twice, under different limits or from different machines.  If every expression
has the same value on both sides, and assignments and prints lead from matching machines to matching
ones, then both runs go the same way and end in the same fault.

A print may fail on the second side alone.  From there the second run is *cut*: it does nothing
more, while the first one goes on.  What is said of a cut run must be true then, however far the
first one goes.

## Main definitions

* `Machine.Matched R Cut` — the ends of two runs match, or the second run is cut.
* `Machine.Simulation` — what expressions, assignments and prints have to do for that.

## Main results

* `Machine.Simulation.script` — scripts match if the windows that they run do.
* `Machine.Simulation.run` — **under one limit, all runs match.**
-/

namespace Scriptlet.Machine

open Window

/-- Two runs end in the same fault and in machines that match, or the second run is cut: then
`Cut` says how it ended, by the machine that the first run has reached. -/
inductive Matched (R : Machine → Machine → Prop) (Cut : Machine → Outcome → Prop) :
    Outcome → Outcome → Prop
  | same {m m' : Machine} {fault : Option Fault} (h : R m m') : Matched R Cut ⟨m, fault⟩ ⟨m', fault⟩
  | cut {o o' : Outcome} (h : Cut o.machine o') : Matched R Cut o o'

/-- The machines of two runs can be kept matching on windows with the property `P`. -/
structure Simulation (limit limit' : Nat) (P : Window → Prop) (R : Machine → Machine → Prop)
    (Cut : Machine → Outcome → Prop) : Prop where
  /-- The property passes to the pieces of a window. -/
  piece : ∀ {us ts : Window}, us <:+: ts → P ts → P us
  /-- An expression has one value in matching machines. -/
  eval : ∀ {ts : Window} {m m' : Machine}, P ts → R m m' →
    ts.eval m.store limit = ts.eval m'.store limit'
  /-- Assignments keep machines matching. -/
  assign : ∀ {t : Token} {m m' : Machine} (value : Value), t.kind = .identifier → P [t] →
    R m m' → R (m.assign t.lexeme value) (m'.assign t.lexeme value)
  /-- Prints do so too, or they cut the second run. -/
  print : ∀ {m m' : Machine} (value : Value), R m m' →
    Matched R Cut (m.print value) (m'.print value)
  /-- A run that is cut has failed. -/
  failed : ∀ {m : Machine} {o : Outcome}, Cut m o → ∃ f, o.fault = some f
  /-- A branch around a run that is cut does not matter. -/
  within : ∀ {m : Machine} {o : Outcome} (branch : Branch), Cut m o → Cut m (o.within branch)
  /-- Nor does what the first run goes on to do. -/
  ahead : ∀ o : Outcome, Invariant fun m => Cut m o

namespace Matched

variable {R : Machine → Machine → Prop} {Cut : Machine → Outcome → Prop} {o o' : Outcome}

theorem within (h : Matched R Cut o o')
    (hcut : ∀ {m : Machine} {o : Outcome} (branch : Branch), Cut m o → Cut m (o.within branch))
    (branch : Branch) : Matched R Cut (o.within branch) (o'.within branch) := by
  cases h with
  | same h => exact .same h
  | cut h => exact .cut (hcut branch h)

/-- Two runs go on to match, if what they go on with does. -/
theorem andThen {next next' : Machine → Outcome} (h : Matched R Cut o o')
    (hnext : ∀ {m m' : Machine}, R m m' → Matched R Cut (next m) (next' m'))
    (hfailed : ∀ {m : Machine} {o : Outcome}, Cut m o → ∃ f, o.fault = some f)
    (hahead : ∀ {m : Machine} {o : Outcome}, Cut m o → Cut (next m).machine o) :
    Matched R Cut (o.andThen next) (o'.andThen next') := by
  cases h with
  | @same m m' fault h =>
    cases fault with
    | none => exact hnext h
    | some f => exact .same h
  | cut h =>
    -- the second run stays where it was cut, whether the first one goes on or not
    obtain ⟨f, hf⟩ := hfailed h
    have hstays : o'.andThen next' = o' := by rw [Outcome.andThen, hf]
    rw [hstays]
    obtain ⟨m, fault⟩ := o
    cases fault with
    | none => exact .cut (hahead h)
    | some f => exact .cut h

theorem same_or_cut (h : Matched R Cut o o') :
    (R o.machine o'.machine ∧ o.fault = o'.fault) ∨ Cut o.machine o' := by
  cases h with
  | same h => exact .inl ⟨h, rfl⟩
  | cut h => exact .inr h

/-- Where no run is ever cut, runs end in matching machines and in the same fault. -/
theorem of_never_cut (h : Matched R (fun _ _ => False) o o') :
    R o.machine o'.machine ∧ o.fault = o'.fault :=
  h.same_or_cut.resolve_right id

theorem eq_of_never_cut (h : Matched Eq (fun _ _ => False) o o') : o = o' := by
  cases h with
  | same h => rw [h]
  | cut h => exact h.elim

end Matched

namespace Simulation

variable {limit limit' : Nat} {P : Window → Prop} {R : Machine → Machine → Prop}
  {Cut : Machine → Outcome → Prop} {enter enter' : Window → Machine → Outcome} {m m' : Machine}

/-- A condition has one value on both sides, and may assign on both. -/
theorem test (h : Simulation limit limit' P R Cut) {condition : Window} (hP : P condition)
    (hm : R m m') :
    (m.test limit condition).1 = (m'.test limit' condition).1 ∧
      R (m.test limit condition).2 (m'.test limit' condition).2 := by
  match condition with
  | [] => exact ⟨h.eval hP hm, hm⟩
  | [_] => exact ⟨h.eval hP hm, hm⟩
  | [_, _] => exact ⟨h.eval hP hm, hm⟩
  | target :: equal :: t :: ts =>
    unfold Machine.test
    dsimp only
    by_cases hbinds : target.kind = .identifier ∧ equal.kind = .equal
    · rw [if_pos hbinds, if_pos hbinds]
      have hvalue : P (t :: ts) := h.piece ⟨[target, equal], [], by simp⟩ hP
      have htarget : P [target] := h.piece ⟨[], equal :: t :: ts, rfl⟩ hP
      rw [h.eval hvalue hm]
      exact ⟨rfl, h.assign _ hbinds.1 htarget hm⟩
    · rw [if_neg hbinds, if_neg hbinds]
      exact ⟨h.eval hP hm, hm⟩

theorem conditional (h : Simulation limit limit' P R Cut)
    (henter : ∀ {w : Window} {m m' : Machine}, P w → R m m' →
      Matched R Cut (enter w m) (enter' w m'))
    {c : Conditional} (hc : c.Within P) (hm : R m m') :
    Matched R Cut (c.exec limit enter m) (c.exec limit' enter' m') := by
  obtain ⟨hvalue, hafter⟩ := h.test hc.condition hm
  obtain ⟨v, m₁, htest, hcases⟩ := c.exec_cases limit enter m
  obtain ⟨v', m₁', htest', hcases'⟩ := c.exec_cases limit' enter' m'
  rw [htest, htest'] at hvalue hafter
  dsimp only at hvalue hafter
  subst hvalue
  -- the value is the same on both sides, so both take the same way
  rcases hcases with ⟨rfl, hexec⟩ | ⟨rfl, hexec⟩ | ⟨hv, hexec⟩
  · have hexec' : c.exec limit' enter' m' = (enter' c.body m₁').within .body :=
      Conditional.exec_of_true htest'
    rw [hexec, hexec']
    exact (henter hc.body hafter).within h.within .body
  · rw [hexec, Conditional.exec_of_false htest']
    cases ha : c.alternative with
    | none => exact .same hafter
    | some a => exact (henter (hc.alternative a ha) hafter).within h.within a.branch
  · rw [hexec, Conditional.exec_of_invalid htest' hv]
    exact .same hafter

theorem statement (h : Simulation limit limit' P R Cut)
    (henter : ∀ {w : Window} {m m' : Machine}, P w → R m m' →
      Matched R Cut (enter w m) (enter' w m'))
    {s : Statement} (hs : s.Within P) (hm : R m m') :
    Matched R Cut (s.exec limit enter m) (s.exec limit' enter' m') := by
  cases s with
  | assign name body =>
    obtain ⟨⟨t, ht, rfl, hname⟩, hbody⟩ := hs
    rw [Statement.exec, Statement.exec, h.eval hbody hm]
    exact .same (h.assign _ ht hname hm)
  | print body =>
    rw [Statement.exec, Statement.exec, h.eval hs hm]
    exact h.print _ hm
  | conditional c => exact h.conditional henter hs hm
  | idle t => exact .same hm

theorem execAll (h : Simulation limit limit' P R Cut)
    (henter : ∀ {w : Window} {m m' : Machine}, P w → R m m' →
      Matched R Cut (enter w m) (enter' w m'))
    (hahead : ∀ {o : Outcome} (w : Window) {m : Machine}, Cut m o → Cut (enter w m).machine o)
    {statements : List Statement} (hs : ∀ s ∈ statements, s.Within P) (hm : R m m') :
    Matched R Cut (Statement.execAll limit enter m statements)
      (Statement.execAll limit' enter' m' statements) := by
  induction statements generalizing m m' with
  | nil => exact .same hm
  | cons s rest ih =>
    obtain ⟨hfirst, hrest⟩ := List.forall_mem_cons.1 hs
    rw [Statement.execAll_cons, Statement.execAll_cons]
    refine (h.statement henter hfirst hm).andThen (fun hm => ih hrest hm) h.failed ?_
    intro m o hcut
    -- Once the second run is cut off, the first one only goes further ahead.
    exact (h.ahead o).execAll (fun w _ hcut => hahead w hcut) rest hcut

/-- **Scripts match if the windows that they run do.** -/
theorem script (h : Simulation limit limit' P R Cut)
    (henter : ∀ {w : Window} {m m' : Machine}, P w → R m m' →
      Matched R Cut (enter w m) (enter' w m'))
    (hahead : ∀ {o : Outcome} (w : Window) {m : Machine}, Cut m o → Cut (enter w m).machine o)
    {s : Script} (hs : ∀ st ∈ s.statements, st.Within P) (hm : R m m') :
    Matched R Cut (s.exec limit enter m) (s.exec limit' enter' m') := by
  refine (h.execAll henter hahead hs hm).andThen ?_ h.failed ?_
  · intro m m' hm
    exact .same hm
  · intro m o hcut
    exact hcut

/-- **Under one limit, all runs match**, on windows with the property. -/
theorem run (h : Simulation limit limit P R Cut) {levels : Nat} {ts : Window} (hP : P ts)
    (hm : R m m') : Matched R Cut (m.run limit levels ts) (m'.run limit levels ts) := by
  induction levels generalizing ts m m' with
  | zero => exact .same hm
  | succ levels ih =>
    have hwithin : ∀ s ∈ (Script.ofWindow limit (levels + 1) ts).statements, s.Within P :=
      fun s hs => (Script.within_of_mem hs).mono fun w hw => h.piece hw.1 hP
    rw [run_succ, run_succ]
    refine h.script ?_ ?_ hwithin hm
    · intro w m m' hw hm
      exact ih hw hm
    · intro o w m hcut
      exact (h.ahead o).run w hcut

end Simulation

end Scriptlet.Machine
