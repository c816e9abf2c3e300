import Scriptlet.Proofs.Conditional.Levels
import Scriptlet.Proofs.Machine.Trace
import Scriptlet.Source.Scan

/-!
# Where runs fail

A run that fails has come to a point of its program: it has executed statements, and gone down into
the windows that `if` statements enter, one level for each.  There a statement is malformed, a print
is refused, a condition is no truth value, or there is no level left to run anything.  The fault of
the run is what is wrong at that point, in a branch for every window that was entered.

So the branches around a fault count levels.  A program that is run in `limit + 1` levels can use
them up in two ways.  If it has entered `limit + 1` windows, the last of them is refused, and
nothing in it is executed.  If it has entered fewer, the levels end while an `if` statement is read,
of which nothing is executed either, for it is read as a whole before its condition is looked at.

## Main definitions

* `Conditional.Enters` — the window that an `if` statement enters, and in which branch.
* `Machine.Reaches` — the points that a run comes to.
* `Machine.Stops` — what can be wrong at a point.
* `Machine.FailsAt` — the run of a window fails at a point of it.

## Main results

* `Machine.Reaches.run_eq_failed` — what is wrong at a point fails the run, with a branch for every
  level between.
* `Machine.failsAt_of_run` — every fault of a run is what is wrong at a point that it reaches.
* `Machine.branches_of_interpret` — **the branches around a fault count the levels that were
  entered.**
-/

namespace Scriptlet

open Window

/-! ### Going down a level -/

/-- The window that an `if` statement enters in a machine, the branch that the window is, and the
machine that the condition leaves. -/
inductive Conditional.Enters (limit : Nat) (c : Conditional) (m : Machine) :
    Branch → Window → Machine → Prop
  | body {m' : Machine} (h : m.test limit c.condition = (.bool true, m')) :
      Enters limit c m .body c.body m'
  | alternative {m' : Machine} {a : Alternative}
      (h : m.test limit c.condition = (.bool false, m')) (ha : c.alternative = some a) :
      Enters limit c m a.branch a.tokens m'

namespace Conditional.Enters

variable {limit : Nat} {c : Conditional} {m m' : Machine} {branch : Branch} {w : Window}

/-- An `if` statement does what the window does that it enters. -/
theorem exec_eq (h : c.Enters limit m branch w m') (enter : Window → Machine → Outcome) :
    c.exec limit enter m = (enter w m').within branch := by
  cases h with
  | body h => exact exec_of_true h
  | alternative h ha => rw [exec_of_false h, ha]

theorem entered_eq (h : c.Enters limit m branch w m') : c.entered limit m = some (w, m') := by
  cases h with
  | body h =>
    rw [entered, h]
    rfl
  | alternative h ha =>
    rw [entered, h, ha]
    rfl

end Conditional.Enters

/-! ### Statement by statement -/

namespace Machine

variable {limit levels : Nat} {t : Token} {ts rest : Window} {s : Statement} {m : Machine}

theorem visits_of_read_ok (h : Statement.read limit (levels + 1) t ts = .ok (s, rest)) :
    m.visits limit (levels + 1) (t :: ts)
      = s.visits limit (fun ts m => m.visits limit levels ts) m
          ++ match (s.exec limit (fun ts m => m.run limit levels ts) m).fault with
            | none =>
              (s.exec limit (fun ts m => m.run limit levels ts) m).machine.visits limit (levels + 1)
                rest
            | some _ => [] := by
  rw [visits, Script.ofWindow_of_ok h, Statement.visitsAll]
  rfl

theorem visits_of_read_error {f : Fault} (h : Statement.read limit (levels + 1) t ts = .error f) :
    m.visits limit (levels + 1) (t :: ts) = [] := by
  rw [visits, Script.ofWindow_of_error h]
  rfl

/-! ### Points of a run -/

/-- The points that the run of a window comes to.  A point is a rest of a window, the machine in
which the run is there, and the levels that are left; on the way to it stand the visits so far, and
the branches that are entered around it. -/
inductive Reaches (limit : Nat) :
    Nat → Window → Machine → List Visit → List Branch → Nat → Window → Machine → Prop
  /-- The start of the run. -/
  | start {levels : Nat} {ts : Window} {m : Machine} : Reaches limit levels ts m [] [] levels ts m
  /-- A point behind the first statement, which ends well. -/
  | next {levels below : Nat} {t : Token} {ts rest us : Window} {s : Statement}
      {m m₁ m' : Machine} {visited : List Visit} {branches : List Branch}
      (hread : Statement.read limit (levels + 1) t ts = .ok (s, rest))
      (hexec : s.exec limit (fun ts m => m.run limit levels ts) m = .done m₁)
      (h : Reaches limit (levels + 1) rest m₁ visited branches below us m') :
      Reaches limit (levels + 1) (t :: ts) m
        (s.visits limit (fun ts m => m.visits limit levels ts) m ++ visited) branches below us m'
  /-- A point in the window that the first statement enters. -/
  | enter {levels below : Nat} {t : Token} {ts rest w us : Window} {c : Conditional}
      {m m₁ m' : Machine} {branch : Branch} {visited : List Visit} {branches : List Branch}
      (hread : Statement.read limit (levels + 1) t ts = .ok (.conditional c, rest))
      (henters : c.Enters limit m branch w m₁)
      (h : Reaches limit levels w m₁ visited branches below us m') :
      Reaches limit (levels + 1) (t :: ts) m (⟨m, .conditional c⟩ :: visited) (branch :: branches)
        below us m'

namespace Reaches

variable {below : Nat} {us : Window} {m' : Machine} {visited : List Visit} {branches : List Branch}

/-- **Every window that is entered takes one level.** -/
theorem levels_eq (h : Reaches limit levels ts m visited branches below us m') :
    levels = below + branches.length := by
  induction h with
  | start => rfl
  | next _ _ _ ih => exact ih
  | enter _ _ _ ih => rw [ih, List.length_cons, Nat.add_assoc]

/-- **What is wrong at a point fails the run**, with a branch for every window that was entered, and
nothing is executed behind it. -/
theorem run_eq_failed (h : Reaches limit levels ts m visited branches below us m') {m'' : Machine}
    {f : Fault} (hf : m'.run limit below us = .failed m'' f) :
    m.run limit levels ts = .failed m'' (branches.foldr Fault.invalidBody f) ∧
      m.visits limit levels ts = visited ++ m'.visits limit below us := by
  induction h with
  | start => exact ⟨hf, rfl⟩
  | next hread hexec _ ih =>
    obtain ⟨hrun, hvisits⟩ := ih hf
    rw [run_of_read_ok hread, visits_of_read_ok hread, hexec]
    refine ⟨hrun, ?_⟩
    rw [List.append_assoc, ← hvisits]
    rfl
  -- entering a window puts a branch around the fault and a visit in front
  | enter hread henters _ ih =>
    obtain ⟨hrun, hvisits⟩ := ih hf
    rw [run_of_read_ok hread, visits_of_read_ok hread, Statement.visits, Statement.exec,
      henters.exec_eq, henters.entered_eq, hrun]
    refine ⟨rfl, ?_⟩
    dsimp only [Option.elim]
    rw [hvisits]
    exact List.append_nil _

/-- Where no level is left, the last visit is the `if` statement that has entered the window. -/
theorem exists_enters (h : Reaches limit levels ts m visited branches 0 us m')
    (hlevels : levels ≠ 0) :
    ∃ front m₁ c branch, visited = front ++ [⟨m₁, .conditional c⟩] ∧
      c.Enters limit m₁ branch us m' := by
  generalize hbelow : 0 = below at h
  induction h with
  | start => exact absurd hbelow.symm hlevels
  -- what has been executed in front stays in front
  | next _ _ _ ih =>
    obtain ⟨front, m₁, c, branch, rfl, henters⟩ := ih (Nat.succ_ne_zero _) hbelow
    exact ⟨_ ++ front, m₁, c, branch, by rw [List.append_assoc], henters⟩
  | @enter levels _ _ _ _ _ _ c m _ _ branch _ _ _ henters h ih =>
    cases levels with
    | zero =>
      -- no level is left, so the window was entered here
      cases h
      exact ⟨[], m, c, branch, rfl, henters⟩
    | succ levels =>
      obtain ⟨front, m₁, c', branch', rfl, henters'⟩ := ih (Nat.succ_ne_zero _) hbelow
      exact ⟨⟨m, .conditional c⟩ :: front, m₁, c', branch', rfl, henters'⟩

end Reaches

/-! ### What is wrong at a point -/

theorem branches_and_cause_of_isMalformed {f : Fault} (h : f.isMalformed = true) :
    f.branches = [] ∧ f.cause = f := by
  cases f <;> first | exact ⟨rfl, rfl⟩ | cases h

/-- What can be wrong at a point itself, without a branch around it. -/
inductive Stops (limit : Nat) : Nat → Window → Machine → Fault → Prop
  /-- There is no level in which anything could be run. -/
  | level {ts : Window} {m : Machine} : Stops limit 0 ts m (.tooDeep limit)
  /-- The first statement is malformed. -/
  | malformed {levels : Nat} {t : Token} {ts : Window} {m : Machine} {f : Fault}
      (hread : Statement.read limit (levels + 1) t ts = .error f) :
      Stops limit (levels + 1) (t :: ts) m f
  /-- The sink refuses what the first statement prints. -/
  | print {levels : Nat} {t : Token} {ts body rest : Window} {m : Machine} {failure : SinkFailure}
      (hread : Statement.read limit (levels + 1) t ts = .ok (.print body, rest))
      (hprint : (m.print (body.eval m.store limit)).fault = some (.output failure)) :
      Stops limit (levels + 1) (t :: ts) m (.output failure)
  /-- The condition of the first statement is no truth value. -/
  | condition {levels : Nat} {t : Token} {ts rest : Window} {c : Conditional} {v : Value}
      {m m' : Machine} (hread : Statement.read limit (levels + 1) t ts = .ok (.conditional c, rest))
      (htest : m.test limit c.condition = (v, m')) (hv : ∀ b, v ≠ .bool b) :
      Stops limit (levels + 1) (t :: ts) m (.invalidCondition v)

/-- A point at which the run of a window fails with the given fault. -/
def FailsAt (limit levels : Nat) (ts : Window) (m : Machine) (f : Fault) : Prop :=
  ∃ visited below us m', Reaches limit levels ts m visited f.branches below us m' ∧
    Stops limit below us m' f.cause

theorem failsAt_of_exec {f : Fault}
    (henter : ∀ {w : Window} {m : Machine} {f : Fault}, (m.run limit levels w).fault = some f →
      FailsAt limit levels w m f)
    (hread : Statement.read limit (levels + 1) t ts = .ok (s, rest))
    (hf : (s.exec limit (fun ts m => m.run limit levels ts) m).fault = some f) :
    FailsAt limit (levels + 1) (t :: ts) m f := by
  -- only a print and a condition fail in their own place
  cases s with
  | assign name body => cases hf
  | idle t => cases hf
  | print body =>
    obtain ⟨failure, -, rfl⟩ := Option.map_eq_some_iff.1 hf
    exact ⟨[], levels + 1, t :: ts, m, .start, .print hread hf⟩
  | conditional c =>
    have hbelow {branch : Branch} {w : Window} {m₁ : Machine} {g : Fault}
        (henters : c.Enters limit m branch w m₁) (hg : (m₁.run limit levels w).fault = some g) :
        FailsAt limit (levels + 1) (t :: ts) m (.invalidBody branch g) := by
      obtain ⟨visited, below, us, m', hreaches, hstops⟩ := henter hg
      exact ⟨_, below, us, m', .enter hread henters hreaches, hstops⟩
    obtain ⟨v, m₁, htest, hcases⟩ := Conditional.fault_cases hf
    rcases hcases with ⟨rfl, g, hg, rfl⟩ | ⟨rfl, a, g, ha, hg, rfl⟩ | ⟨hv, rfl⟩
    · exact hbelow (.body htest) hg
    · exact hbelow (.alternative htest ha) hg
    · exact ⟨[], levels + 1, t :: ts, m, .start, .condition hread htest hv⟩

/-- **Every fault of a run is what is wrong at a point that it reaches.** -/
theorem failsAt_of_run {f : Fault} (hf : (m.run limit levels ts).fault = some f) :
    FailsAt limit levels ts m f := by
  -- the outer induction goes down a level, the inner one along the statements of a window
  induction levels generalizing ts m f with
  | zero =>
    cases hf
    exact ⟨[], 0, ts, m, .start, .level⟩
  | succ levels ihlevels =>
    induction hn : ts.length using Nat.strongRecOn generalizing ts m with
    | ind n ih =>
      cases ts with
      | nil =>
        rw [run_succ, Script.ofWindow_nil] at hf
        cases hf
      | cons t ts =>
        cases hread : Statement.read limit (levels + 1) t ts with
        | error g =>
          rw [run_of_read_error hread] at hf
          obtain rfl := Option.some.inj hf
          obtain ⟨hbranches, hcause⟩ :=
            branches_and_cause_of_isMalformed (Statement.isMalformed_of_read hread)
          refine ⟨[], levels + 1, t :: ts, m, ?_, ?_⟩
          · rw [hbranches]
            exact .start
          · rw [hcause]
            exact .malformed hread
        | ok p =>
          obtain ⟨s, rest⟩ := p
          have hlength : rest.length ≤ ts.length := (Statement.suffix_of_read hread).length_le
          obtain ⟨⟨m₁, fault⟩, hexec⟩ :
            ∃ o, s.exec limit (fun ts m => m.run limit levels ts) m = o := ⟨_, rfl⟩
          cases fault with
          | none =>
            rw [run_of_read_ok hread, hexec] at hf
            rw [List.length_cons] at hn
            obtain ⟨visited, below, us, m', hreaches, hstops⟩ := ih rest.length (by omega) hf rfl
            exact ⟨_, below, us, m', .next hread hexec hreaches, hstops⟩
          | some g =>
            rw [run_of_read_ok hread, hexec] at hf
            obtain rfl := Option.some.inj hf
            exact failsAt_of_exec ihlevels hread (by rw [hexec])

/-- **A point without enough levels** leaves the machine as it is, and nothing is executed there:
either there are none, or there are too few to read the `if` statement that comes first. -/
theorem Stops.of_tooDeep {n : Nat} (h : Stops limit levels ts m (.tooDeep n)) :
    n = limit ∧ m.run limit levels ts = .failed m (.tooDeep limit) ∧ m.visits limit levels ts = [] ∧
      (levels = 0 ∨ StartsWith .ifWord ts ∧
        Conditional.read? limit levels ts = .error (.tooDeep limit)) := by
  cases h with
  | level => exact ⟨rfl, rfl, rfl, .inl rfl⟩
  | malformed hread =>
    obtain ⟨hif, hread?⟩ := Statement.read?_of_read_tooDeep hread
    obtain rfl := Conditional.eq_limit_of_read? hread?
    exact ⟨rfl, run_of_read_error hread m, visits_of_read_error hread,
      .inr ⟨startsWith_cons_iff.2 hif, hread?⟩⟩

/-- **The branches around a fault count the levels that were entered**, where the sink can be
flushed.  There are at most `limit + 1` of them.  If there are as many, then the last statement that
is executed is an `if` that enters a window in which there is no level left, and the run ends in the
machine that its condition leaves.  If a run is refused with fewer branches, then at an `if`
statement that cannot be read in the levels that are left; the run ends in the machine in which it
comes there, and nothing is executed but what stands before that. -/
theorem branches_of_interpret {limit : Nat} {ts : Window} {m : Machine} {f : Fault}
    (hm : m.sink.flushes = true) (hf : (m.interpret limit ts).fault = some f) :
    f.branches.length ≤ limit + 1 ∧
      (f.branches.length = limit + 1 → f.cause = .tooDeep limit ∧
        ∃ front m₁ c branch w m',
          Reaches limit (limit + 1) ts m (front ++ [⟨m₁, .conditional c⟩]) f.branches 0 w m' ∧
            c.Enters limit m₁ branch w m' ∧
            m.visits limit (limit + 1) ts = front ++ [⟨m₁, .conditional c⟩] ∧
            (m.interpret limit ts).machine = m') ∧
      ∀ n, f.cause = .tooDeep n → f.branches.length ≤ limit → n = limit ∧
        ∃ visited levels us m',
          Reaches limit (limit + 1) ts m visited f.branches (levels + 1) us m' ∧
            limit = levels + f.branches.length ∧ StartsWith .ifWord us ∧
            Conditional.read? limit (levels + 1) us = .error (.tooDeep limit) ∧
            m.visits limit (limit + 1) ts = visited ∧ (m.interpret limit ts).machine = m' := by
  rw [interpret_eq_run hm] at hf ⊢
  obtain ⟨visited, below, us, m', hreaches, hstops⟩ := failsAt_of_run hf
  -- every branch has taken one of the levels
  have hlevels := hreaches.levels_eq
  refine ⟨by omega, fun hall => ?_, fun n hcause hless => ?_⟩
  · obtain rfl : below = 0 := by omega
    obtain ⟨front, m₁, c, branch, rfl, henters⟩ := hreaches.exists_enters (Nat.succ_ne_zero limit)
    obtain ⟨hrun, hvisits⟩ := hreaches.run_eq_failed (run_zero limit us m')
    -- nothing but a lack of levels stops a run where none is left
    have hcause : f.cause = .tooDeep limit := by
      generalize f.cause = cause at hstops
      cases hstops
      rfl
    refine ⟨hcause, front, m₁, c, branch, us, m', hreaches, henters, ?_, by rw [hrun]; rfl⟩
    rw [hvisits]
    exact List.append_nil _
  · rw [hcause] at hstops
    obtain ⟨rfl, hfailed, hnone, hzero | ⟨hif, hread⟩⟩ := hstops.of_tooDeep
    · -- there are fewer branches than levels, so one level is left
      omega
    · obtain ⟨levels, rfl⟩ : ∃ levels, below = levels + 1 := ⟨below - 1, by omega⟩
      obtain ⟨hrun, hvisits⟩ := hreaches.run_eq_failed hfailed
      refine ⟨rfl, visited, levels, us, m', hreaches, by omega, hif, hread, ?_, by rw [hrun]; rfl⟩
      rw [hvisits, hnone, List.append_nil]

/-- A program that enters a window too many, and one with an `if` statement that is nested too
deeply to be read, both with an assignment in front that is executed. -/
theorem branches_of_interpret_nested :
    let m := Machine.fresh .unlimited
    let entered : Window := (Scan.ofText "a = 1; if (true) { if (a == 1) { print a; } }").tokens
    let unread : Window := (Scan.ofText "if (true) { a = 2; if (true) if (true) print a; }").tokens
    (m.interpret 1 entered).fault = some (.invalidBody .body (.invalidBody .body (.tooDeep 1))) ∧
      (∃ front m₁ c branch w m', c.Enters 1 m₁ branch w m' ∧
        m.visits 1 2 entered = front ++ [⟨m₁, .conditional c⟩] ∧
        (m.interpret 1 entered).machine = m') ∧
      (m.interpret 1 unread).fault = some (.invalidBody .body (.tooDeep 1)) ∧
      ∃ visited us m', Reaches 1 2 unread m visited [.body] 1 us m' ∧ StartsWith .ifWord us ∧
        Conditional.read? 1 1 us = .error (.tooDeep 1) ∧ m.visits 1 2 unread = visited ∧
        (m.interpret 1 unread).machine = m' := by
  intro m entered unread
  have hentered : (m.interpret 1 entered).fault
      = some (.invalidBody .body (.invalidBody .body (.tooDeep 1))) := by decide +kernel
  have hunread : (m.interpret 1 unread).fault = some (.invalidBody .body (.tooDeep 1)) := by
    decide +kernel
  obtain ⟨-, front, m₁, c, branch, w, m', -, henters, hvisits, hmachine⟩ :=
    (branches_of_interpret rfl hentered).2.1 rfl
  obtain ⟨-, visited, levels, us, m'', hreaches, hlimit, hif, hread, hvisited, hend⟩ :=
    (branches_of_interpret rfl hunread).2.2 1 rfl (Nat.le_refl 1)
  obtain rfl : levels = 0 := by
    change 1 = levels + 1 at hlimit
    omega
  exact ⟨hentered, ⟨front, m₁, c, branch, w, m', henters, hvisits, hmachine⟩, hunread,
    visited, us, m'', hreaches, hif, hread, hvisited, hend⟩

end Machine

end Scriptlet
