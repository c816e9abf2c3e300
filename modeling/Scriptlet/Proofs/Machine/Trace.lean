import Scriptlet.Proofs.Machine.Run

/-!
# What a run executes

A run executes statements one after another: those of its window, and in the place of each `if` the
statements of the window that it runs.  A visit is one statement that is executed, together with the
machine in which it is; the visits of a run are listed in their order.  A malformed statement is
never executed, and nothing is executed behind a fault.

The visits tell where a run was stopped.  If the sink refuses something, the last visit is the print
that wanted to write it, however many branches are around that.

## Main definitions

* `Visit` — a statement that is executed, and the machine in which it is.
* `Conditional.entered` — the window that an `if` runs.
* `Machine.visits` — the statements that a run executes.
* `StopsAtPrint` — the last visit is a print that the sink refuses.

## Main results

* `Machine.stopsAtPrint_of_run` — **nothing is executed behind a print that the sink refuses.**
-/

namespace Scriptlet

/-- A statement that is executed. -/
structure Visit where
  /-- The machine in which it is executed. -/
  machine : Machine
  /-- The statement. -/
  statement : Statement

/-- The window that an `if` runs and the machine that its condition leaves, if it runs one. -/
def Conditional.entered (limit : Nat) (c : Conditional) (m : Machine) : Option (Window × Machine) :=
  let (value, m) := m.test limit c.condition
  match value.bool? with
  | none => none
  | some true => some (c.body, m)
  | some false => c.alternative.map fun a => (a.tokens, m)

/-- The visits of one statement, given those of the windows that `if` statements run. -/
def Statement.visits (limit : Nat) (inside : Window → Machine → List Visit) (m : Machine)
    (s : Statement) : List Visit :=
  ⟨m, s⟩ :: match s with
    | conditional c => (c.entered limit m).elim [] fun p => inside p.1 p.2
    | _ => []

/-- The visits of statements that are run one after another, up to the first fault. -/
def Statement.visitsAll (limit : Nat) (enter : Window → Machine → Outcome)
    (inside : Window → Machine → List Visit) (m : Machine) : List Statement → List Visit
  | [] => []
  | s :: rest =>
    let o := s.exec limit enter m
    s.visits limit inside m ++ match o.fault with
      | none => visitsAll limit enter inside o.machine rest
      | some _ => []

/-- The visits of a window that is run in so many levels. -/
def Machine.visits (limit : Nat) : Nat → Window → Machine → List Visit
  | 0, _, _ => []
  | levels + 1, ts, m =>
    Statement.visitsAll limit (fun ts m => m.run limit levels ts) (visits limit levels) m
      (Script.ofWindow limit (levels + 1) ts).statements

/-- The last visit is a print that the sink refuses, and the machine is left as that print leaves
it. -/
def StopsAtPrint (limit : Nat) (failure : SinkFailure) (visits : List Visit) (m : Machine) : Prop :=
  ∃ front m₁ body, visits = front ++ [⟨m₁, .print body⟩] ∧
    m₁.print (body.eval m₁.store limit) = .failed m (.output failure)

section

variable {limit : Nat} {failure : SinkFailure} {visits : List Visit} {m : Machine} {f : Fault}

theorem StopsAtPrint.append (h : StopsAtPrint limit failure visits m) (before : List Visit) :
    StopsAtPrint limit failure (before ++ visits) m := by
  obtain ⟨front, m₁, body, rfl, hprint⟩ := h
  exact ⟨before ++ front, m₁, body, by rw [List.append_assoc], hprint⟩

theorem StopsAtPrint.cons (h : StopsAtPrint limit failure visits m) (v : Visit) :
    StopsAtPrint limit failure (v :: visits) m :=
  h.append [v]

theorem Fault.cause_ne_output (hf : f.isMalformed = true) : f.cause ≠ .output failure := by
  intro h
  cases f <;> cases hf <;> cases h

variable {enter : Window → Machine → Outcome} {inside : Window → Machine → List Visit}

/-! ### One statement -/

theorem Conditional.stopsAtPrint
    (henter : ∀ {w : Window} {m : Machine} {f : Fault}, (enter w m).fault = some f →
      f.cause = .output failure → StopsAtPrint limit failure (inside w m) (enter w m).machine)
    {c : Conditional} (hf : (c.exec limit enter m).fault = some f)
    (hcause : f.cause = .output failure) :
    StopsAtPrint limit failure (Statement.visits limit inside m (.conditional c))
      (c.exec limit enter m).machine := by
  -- what fails is the window that is run, and the branch around it leaves the machine as it is
  have hbelow {branch : Branch} {w : Window} {m' : Machine}
      (hexec : c.exec limit enter m = (enter w m').within branch)
      (hentered : c.entered limit m = some (w, m')) :
      StopsAtPrint limit failure (Statement.visits limit inside m (.conditional c))
        (c.exec limit enter m).machine := by
    rw [hexec] at hf ⊢
    obtain ⟨g, hg, rfl⟩ := Outcome.within_fault_eq_some_iff.1 hf
    have hstops : StopsAtPrint limit failure (inside w m') (enter w m').machine := henter hg hcause
    rw [Statement.visits, hentered]
    exact hstops.cons _
  obtain ⟨v, m', htest, hcases⟩ := c.exec_cases limit enter m
  rcases hcases with ⟨rfl, hexec⟩ | ⟨rfl, hexec⟩ | ⟨hv, hexec⟩
  · refine hbelow hexec ?_
    rw [entered, htest]
    rfl
  · cases ha : c.alternative with
    | none =>
      rw [hexec, ha] at hf
      cases hf
    | some a =>
      rw [ha] at hexec
      refine hbelow hexec ?_
      rw [entered, htest, ha]
      rfl
  · rw [hexec] at hf
    cases hf
    cases hcause

theorem Statement.stopsAtPrint
    (henter : ∀ {w : Window} {m : Machine} {f : Fault}, (enter w m).fault = some f →
      f.cause = .output failure → StopsAtPrint limit failure (inside w m) (enter w m).machine)
    {s : Statement} (hf : (s.exec limit enter m).fault = some f)
    (hcause : f.cause = .output failure) :
    StopsAtPrint limit failure (s.visits limit inside m) (s.exec limit enter m).machine := by
  cases s with
  | assign name body => cases hf
  | print body =>
    have hprint : m.print (body.eval m.store limit)
        = .failed (m.print (body.eval m.store limit)).machine (.output failure) := by
      obtain ⟨e, he, rfl⟩ := Option.map_eq_some_iff.1 hf
      cases hcause
      rw [Outcome.failed, ← hf]
      rfl
    exact ⟨[], m, body, rfl, hprint⟩
  | conditional c => exact c.stopsAtPrint henter hf hcause
  | idle t => cases hf

/-! ### Runs -/

theorem Statement.stopsAtPrint_of_execAll
    (henter : ∀ {w : Window} {m : Machine} {f : Fault}, (enter w m).fault = some f →
      f.cause = .output failure → StopsAtPrint limit failure (inside w m) (enter w m).machine)
    {statements : List Statement} (hf : (execAll limit enter m statements).fault = some f)
    (hcause : f.cause = .output failure) :
    StopsAtPrint limit failure (visitsAll limit enter inside m statements)
      (execAll limit enter m statements).machine := by
  induction statements generalizing m with
  | nil => cases hf
  | cons s rest ih =>
    rw [execAll_cons, Outcome.andThen] at hf ⊢
    rw [visitsAll]
    cases hs : (s.exec limit enter m).fault with
    | none =>
      rw [hs] at hf
      exact (ih hf).append _
    | some g =>
      rw [hs] at hf
      dsimp only at hf ⊢
      rw [List.append_nil]
      exact s.stopsAtPrint henter hf hcause

/-- **Nothing is executed behind a print that the sink refuses**: if a run fails because of that,
the print is the last statement that it executes. -/
theorem Machine.stopsAtPrint_of_run {levels : Nat} {ts : Window}
    (hf : (m.run limit levels ts).fault = some f) (hcause : f.cause = .output failure) :
    StopsAtPrint limit failure (m.visits limit levels ts) (m.run limit levels ts).machine := by
  induction levels generalizing ts m f with
  | zero =>
    cases hf
    cases hcause
  | succ levels ih =>
    rw [run_succ, Script.exec, Outcome.andThen] at hf ⊢
    rw [visits]
    cases hall : (Statement.execAll limit (fun ts m => m.run limit levels ts) m
        (Script.ofWindow limit (levels + 1) ts).statements).fault with
    | none =>
      rw [hall] at hf
      -- All statements ran, so the fault is that of the malformed rest, which no sink refuses.
      exact absurd hcause (Fault.cause_ne_output (Script.isMalformed_of_ofWindow hf))
    | some g =>
      rw [hall] at hf
      exact Statement.stopsAtPrint_of_execAll (fun hf hcause => ih hf hcause) hf hcause

end

end Scriptlet
