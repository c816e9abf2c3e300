import Scriptlet.Proofs.Machine.Session
import Scriptlet.Proofs.Machine.Trace
import Scriptlet.Proofs.Structured.Semantics

/-!
# Where a program stops

A malformed statement ends a program before anything of it is run.  With a sink that takes
everything there is no other way to fail outside of a branch, but for a condition that is no truth
value.  Then the program falls into two parts: the statements that have been run, which are a
program that ends well, and the rest, which begins with the malformed statement and does nothing at
all.

## Main results

* `Script.exists_append_of_fault` — the statements in front of a malformed one are a window of their
  own, and are cut there as they are in the whole.
* `Machine.cause_ne_output` — a sink that takes everything is no reason to fail.
* `Machine.exists_done_of_fault` — **a malformed statement contributes nothing.**
-/

namespace Scriptlet

open Window

/-! ### The window in front of a malformed statement -/

/-- **The statements in front of a malformed one** are the script of a window of their own. -/
theorem Script.exists_append_of_fault {limit levels : Nat} {ts : Window} {f : Fault}
    (h : (ofWindow limit levels ts).fault = some f) :
    ∃ done t us, ts = done ++ t :: us ∧
      ofWindow limit levels done = ⟨(ofWindow limit levels ts).statements, none⟩ ∧
      Statement.read limit levels t us = .error f := by
  fun_induction ofWindow limit levels ts with
  | case1 => cases h
  | case2 t ts f' hread =>
    obtain rfl : f' = f := Option.some.inj h
    exact ⟨[], t, ts, rfl, ofWindow_nil limit levels, hread⟩
  | case3 t ts s rest hread hle tail ih =>
    obtain ⟨done, u, us, rfl, hdone, hfailed⟩ := ih h
    -- cutting the rest off does not put an `else` behind the first statement
    have helse : StartsWith .elseWord done → StartsWith .elseWord (done ++ u :: us) :=
      fun hstart => hstart.append (u :: us)
    obtain ⟨front, rfl, hread'⟩ := Statement.read_of_read hread helse
    refine ⟨t :: (front ++ done), u, us, by simp, ?_, hfailed⟩
    rw [ofWindow_of_ok hread', hdone]

namespace Machine

variable {limit levels : Nat} {ts : Window} {m : Machine} {f : Fault}

/-! ### What cannot fail -/

theorem invariant_room_none : Invariant fun m => m.sink.room = none where
  assign _ _ hm := hm
  print {m} value hm := by
    unfold print Sink.write
    dsimp only
    rw [hm]

/-- A sink that takes everything still does so after a program. -/
theorem reliable_interpret (hm : m.sink.Reliable) :
    (m.interpret limit ts).machine.sink.Reliable := by
  rw [interpret_machine]
  exact ⟨invariant_room_none.run ts hm.room, (invariant_flushes true).run ts hm.flushes⟩

/-- A print that fails has filled up the sink. -/
theorem room_of_print_eq_failed {value : Value} {m' : Machine}
    (h : m.print value = .failed m' f) : m'.sink.room = some 0 := by
  unfold print at h
  dsimp only at h
  -- a line that fits does not fail, and one that does not takes all the room
  generalize (value.display ++ "\n").toUTF8 = line at h
  cases hroom : m.sink.room with
  | none =>
    rw [Sink.write_of_room_none hroom] at h
    cases h
  | some n =>
    by_cases hline : line.size ≤ n
    · rw [Sink.write_of_le hroom hline] at h
      cases h
    · rw [Sink.write_of_lt hroom (Nat.lt_of_not_le hline)] at h
      cases h
      rfl

/-- **A sink that takes everything is no reason to fail**, at any depth. -/
theorem cause_ne_output (hm : m.sink.room = none) (hf : (m.run limit levels ts).fault = some f)
    (failure : SinkFailure) : f.cause ≠ .output failure := by
  intro hcause
  -- the last print that is executed would have filled up the sink
  obtain ⟨front, m₁, body, -, hprint⟩ := stopsAtPrint_of_run hf hcause
  have hfull : (m.run limit levels ts).machine.sink.room = some 0 := room_of_print_eq_failed hprint
  have hroom : (m.run limit levels ts).machine.sink.room = none := invariant_room_none.run ts hm
  rw [hroom] at hfull
  cases hfull

/-- A statement that is executed fails by the sink, by a condition or in a branch. -/
theorem fault_cases_of_execAll {enter : Window → Machine → Outcome} {statements : List Statement}
    (hf : (Statement.execAll limit enter m statements).fault = some f) :
    (∃ failure, f = .output failure) ∨ (∃ v, f = .invalidCondition v) ∨
      ∃ b g, f = .invalidBody b g := by
  obtain ⟨s, -, m₁, hexec⟩ := Statement.exists_fault_of_execAll hf
  rcases Statement.fault_cases hexec with houtput | ⟨c, -, hexec⟩
  · exact .inl houtput
  · obtain ⟨v, m₂, -, hcases⟩ := Conditional.fault_cases hexec
    rcases hcases with ⟨-, g, -, hg⟩ | ⟨-, a, g, -, -, hg⟩ | ⟨-, hv⟩
    · exact .inr (.inr ⟨.body, g, hg⟩)
    · exact .inr (.inr ⟨a.branch, g, hg⟩)
    · exact .inr (.inl ⟨v, hv⟩)

/-- Outside of any branch and with a condition that is a truth value, no statement fails that is
executed: the fault is that of the script, in the state that its statements leave. -/
theorem execAll_eq_done_of_fault (hm : m.sink.room = none)
    (hf : (m.run limit (levels + 1) ts).fault = some f)
    (hcondition : ∀ v, f ≠ .invalidCondition v) (hbody : ∀ b g, f ≠ .invalidBody b g) :
    (Script.ofWindow limit (levels + 1) ts).fault = some f ∧
      Statement.execAll limit (fun ts m => m.run limit levels ts) m
        (Script.ofWindow limit (levels + 1) ts).statements
          = .done (m.run limit (levels + 1) ts).machine := by
  have hsink : ∀ failure, f ≠ .output failure := by
    rintro failure rfl
    exact cause_ne_output hm hf failure rfl
  rw [run_succ, Script.exec] at hf ⊢
  obtain ⟨⟨m', fault⟩, hall⟩ : ∃ o,
      o = Statement.execAll limit (fun ts m => m.run limit levels ts) m
        (Script.ofWindow limit (levels + 1) ts).statements := ⟨_, rfl⟩
  rw [← hall] at hf ⊢
  -- either the statements end well and the script fails, or one of them fails
  cases fault with
  | none => exact ⟨hf, rfl⟩
  | some g =>
    obtain rfl : g = f := Option.some.inj hf
    have hfault : (Statement.execAll limit (fun ts m => m.run limit levels ts) m
        (Script.ofWindow limit (levels + 1) ts).statements).fault = some g := by rw [← hall]
    -- each way for a statement to fail has been excluded
    rcases fault_cases_of_execAll hfault with ⟨e, he⟩ | ⟨v, hv⟩ | ⟨b, h, hh⟩
    · exact absurd he (hsink e)
    · exact absurd hv (hcondition v)
    · exact absurd hh (hbody b h)

/-- **A malformed statement contributes nothing.**  Let a program fail, with a sink that takes
everything, outside of any branch and not because of a condition.  Then it is made of a program
`done` and a malformed statement with what follows that.  The statements of `done` are those in
front of the malformed one in the whole; `done` alone ends well and leaves the variables and the
output that the whole leaves, and the rest, run from there, fails likewise and changes nothing. -/
theorem exists_done_of_fault (hm : m.sink.Reliable) (hf : (m.interpret limit ts).fault = some f)
    (hcondition : ∀ v, f ≠ .invalidCondition v) (hbody : ∀ b g, f ≠ .invalidBody b g) :
    ∃ done t us, ts = done ++ t :: us ∧
      Script.ofWindow limit (limit + 1) done
        = ⟨(Script.ofWindow limit (limit + 1) ts).statements, none⟩ ∧
      Statement.read limit (limit + 1) t us = .error f ∧
      m.interpret limit done = .done (m.interpret limit ts).machine ∧
      (m.interpret limit ts).machine.interpret limit (t :: us)
        = .failed (m.interpret limit ts).machine f := by
  have hwhole : m.interpret limit ts = m.run limit (limit + 1) ts :=
    interpret_eq_run hm.flushes limit ts
  rw [hwhole] at hf
  obtain ⟨hscript, hall⟩ := execAll_eq_done_of_fault hm.room hf hcondition hbody
  obtain ⟨done, t, us, hts, hdone, hread⟩ := Script.exists_append_of_fault hscript
  refine ⟨done, t, us, hts, hdone, hread, ?_, ?_⟩
  · -- the statements in front are the same, and have no fault behind them
    rw [interpret_eq_run hm.flushes, run_succ, hdone, Script.exec, hall, ← hwhole]
    rfl
  · rw [interpret_eq_run (reliable_interpret hm).flushes]
    exact run_of_read_error hread _

/-- The second assignment has no semicolon.  The first one is done, with the `if` behind it; that
the `if` dangles in front of the malformed statement does not matter. -/
theorem exists_done_of_fault_missingSemicolon :
    let ts := (Scan.ofText "x = 1; if (x < 2) print x; y = 3").tokens
    let m := Machine.fresh .unlimited
    let f := Fault.missingSemicolon .reassignment
    m.sink.Reliable ∧ (m.interpret 2 ts).fault = some f ∧ (∀ v, f ≠ .invalidCondition v) ∧
      (∀ b g, f ≠ .invalidBody b g) ∧
      ∃ done t us, ts = done ++ t :: us ∧
        Script.ofWindow 2 3 done = ⟨(Script.ofWindow 2 3 ts).statements, none⟩ ∧
        Statement.read 2 3 t us = .error f ∧
        m.interpret 2 done = .done (m.interpret 2 ts).machine ∧
        (m.interpret 2 ts).machine.interpret 2 (t :: us)
          = .failed (m.interpret 2 ts).machine f := by
  intro ts m f
  have hm : m.sink.Reliable := ⟨rfl, rfl⟩
  have hf : (m.interpret 2 ts).fault = some f := by decide +kernel
  have hcondition : ∀ v, f ≠ .invalidCondition v := fun v => by simp [f]
  have hbody : ∀ b g, f ≠ .invalidBody b g := fun b g => by simp [f]
  exact ⟨hm, hf, hcondition, hbody, exists_done_of_fault hm hf hcondition hbody⟩

end Machine

end Scriptlet
