import Scriptlet.Proofs.Machine.Step
import Scriptlet.Source.Scan

/-!
# Sessions

A session runs one program after another in the same machine.  Where no program fails, a session is
one program: the programs joined.  Nothing is asked of the tokens of either but that the second
does not begin with an `else`, which might belong to an `if` at the end of the first.

## Main results

* `Machine.interpret_append` — **a session of two programs is the two programs joined.**
-/

namespace Scriptlet.Machine

open Window

theorem interpret_machine (limit : Nat) (ts : Window) (m : Machine) :
    (m.interpret limit ts).machine = (m.run limit (limit + 1) ts).machine := by
  unfold interpret
  dsimp only
  split <;> rfl

/-- A program that ends well runs well, and its output can be flushed. -/
theorem interpret_fault_eq_none_iff {limit : Nat} {ts : Window} {m : Machine} :
    (m.interpret limit ts).fault = none ↔
      (m.run limit (limit + 1) ts).fault = none ∧
        (m.run limit (limit + 1) ts).machine.sink.flush = none := by
  unfold interpret
  dsimp only
  split
  · rename_i hflush
    exact ⟨fun h => ⟨h, hflush⟩, fun h => h.1⟩
  · rename_i failure hflush
    constructor
    · intro h
      cases h
    · intro h
      obtain ⟨-, h⟩ := h
      rw [hflush] at h
      cases h

/-- **A session of two programs is the two programs joined**: if the first ends well and the second
does not begin with an `else`, then running both as one program gives the same variables, the same
output and the same result as running one after the other. -/
theorem interpret_append {limit : Nat} {first second : Window} {m : Machine}
    (hfirst : (m.interpret limit first).fault = none) (hsecond : ¬ StartsWith .elseWord second) :
    m.interpret limit (first ++ second)
      = (m.interpret limit first).machine.interpret limit second := by
  obtain ⟨hrun, -⟩ := interpret_fault_eq_none_iff.1 hfirst
  rw [interpret_machine]
  unfold interpret
  rw [run_append hrun hsecond]

/-- The first program may end in an `if` without an `else`. -/
theorem interpret_append_open_if :
    let first := (Scan.ofText "x = true; if (x) if (y = x) print y;").tokens
    let second := (Scan.ofText "print x;").tokens
    let m := Machine.fresh .unlimited
    (m.interpret 2 first).fault = none ∧ ¬ StartsWith .elseWord second ∧
      m.interpret 2 (first ++ second) = (m.interpret 2 first).machine.interpret 2 second := by
  intro first second m
  have hfirst : (m.interpret 2 first).fault = none := by decide +kernel
  have hsecond : ¬ StartsWith .elseWord second := by
    rw [startsWith_iff_head?]
    decide +kernel
  exact ⟨hfirst, hsecond, interpret_append hfirst hsecond⟩

end Scriptlet.Machine
