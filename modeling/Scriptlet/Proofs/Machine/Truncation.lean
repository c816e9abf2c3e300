import Scriptlet.Proofs.Machine.Simulation
import Scriptlet.Proofs.Machine.Trace
import Scriptlet.Proofs.Structured.Semantics
import Scriptlet.Source.Scan

/-!
# Sinks that fill up

A program is run once with a sink that takes everything and once with one that has room for a given
number of bytes.  As long as the bytes fit, both runs are the same.  The first print that does not
fit writes what still does and fails, and with it the run, inside all the branches around it; so the
output is the front of what the other run writes, up to the given number of bytes.

## Main definitions

* `Machine.limited n` — the machine with room for so many bytes more.
* `Machine.Fits`, `Machine.CutAt` — the second run has written the same, or is full.

## Main results

* `Machine.exists_written` — a run only adds to what has been written.
* `Machine.simulation_limited` — the two runs side by side.
* `Machine.interpret_limited` — **a full sink only truncates.**
-/

namespace Scriptlet

/-! ### Fronts of bytes -/

theorem extract_append_of_le {a : ByteArray} {n : Nat} (h : n ≤ a.size) (b : ByteArray) :
    (a ++ b).extract 0 n = a.extract 0 n := by
  have hnone : n - a.size = 0 := Nat.sub_eq_zero_of_le h
  rw [ByteArray.extract_append, hnone, Nat.zero_sub, ByteArray.extract_same,
    ByteArray.append_empty]

theorem extract_append_add (a b : ByteArray) (n : Nat) :
    (a ++ b).extract 0 (a.size + n) = a ++ b.extract 0 n := by
  have hall : a.extract 0 (a.size + n) = a := by
    apply ByteArray.ext
    rw [ByteArray.data_extract]
    exact Array.extract_eq_self_of_le (Nat.le_add_right _ _)
  rw [ByteArray.extract_append, Nat.zero_sub, Nat.add_sub_cancel_left, hall]

namespace Machine

/-- The machine with a sink that has room for `n` bytes more. -/
def limited (n : Nat) (m : Machine) : Machine := { m with sink := { m.sink with room := some n } }

/-! ### What has been written -/

/-- A print only adds to what has been written, whatever becomes of it. -/
theorem exists_written_print (m : Machine) (value : Value) :
    ∃ bytes, (m.print value).machine.sink.written = m.sink.written ++ bytes := by
  unfold print Sink.write
  dsimp only
  split
  · exact ⟨_, rfl⟩
  · split
    · exact ⟨_, rfl⟩
    · exact ⟨_, rfl⟩

/-- To have written something and perhaps more is an invariant. -/
theorem invariant_written (written : ByteArray) :
    Invariant fun m => ∃ bytes, m.sink.written = written ++ bytes where
  assign _ _ hm := hm
  print {m} value hm := by
    obtain ⟨bytes, hbytes⟩ := hm
    obtain ⟨more, hmore⟩ := m.exists_written_print value
    exact ⟨bytes ++ more, by rw [hmore, hbytes, ByteArray.append_assoc]⟩

/-- **A run only adds to what has been written.** -/
theorem exists_written (limit levels : Nat) (ts : Window) (m : Machine) :
    ∃ bytes, (m.run limit levels ts).machine.sink.written = m.sink.written ++ bytes :=
  (invariant_written m.sink.written).run ts ⟨.empty, ByteArray.append_empty.symm⟩

/-! ### The two runs -/

/-- The second machine is the first one with a sink that takes `total` bytes in all, and the bytes
written so far fit into it. -/
def Fits (total : Nat) (m m' : Machine) : Prop :=
  m.sink.room = none ∧ ∃ n, m.sink.written.size + n = total ∧ m' = m.limited n

/-- The second run is full: it has written the first `total` bytes of what the first run has, and
failed for that reason. -/
structure CutAt (total : Nat) (m : Machine) (o : Outcome) : Prop where
  /-- The first run has written more than fits. -/
  full : total < m.sink.written.size
  /-- What fits has been written. -/
  written : o.machine.sink.written = m.sink.written.extract 0 total
  /-- The sink is the cause of the failure. -/
  failed : ∃ f, o.fault = some f ∧ f.cause = .output .full

variable {limit total : Nat}

/-- A print fits into the second sink, or fills it up. -/
theorem matched_print {m m' : Machine} (hm : Fits total m m') (value : Value) :
    Matched (Fits total) (CutAt total) (m.print value) (m'.print value) := by
  obtain ⟨hroom, n, rfl, rfl⟩ := hm
  unfold print
  dsimp only
  generalize (value.display ++ "\n").toUTF8 = line
  rw [Sink.write_of_room_none hroom]
  -- Either the whole line fits, or its front fills up the second sink.
  by_cases hline : line.size ≤ n
  · rw [Sink.write_of_le (s := (m.limited n).sink) rfl hline]
    refine .same ⟨hroom, n - line.size, ?_, rfl⟩
    rw [ByteArray.size_append]
    omega
  · have hlt : n < line.size := Nat.lt_of_not_le hline
    rw [Sink.write_of_lt (s := (m.limited n).sink) rfl hlt]
    refine .cut ⟨?_, ?_, _, rfl, rfl⟩
    · rw [ByteArray.size_append]
      omega
    · exact (extract_append_add m.sink.written line n).symm

/-- **The two runs side by side.** -/
theorem simulation_limited (limit total : Nat) :
    Simulation limit limit (fun _ => True) (Fits total) (CutAt total) where
  piece _ _ := trivial
  eval {ts m m'} _ hm := by
    obtain ⟨-, n, -, rfl⟩ := hm
    rfl
  assign {t m m'} value _ _ hm := by
    obtain ⟨hroom, n, htotal, rfl⟩ := hm
    exact ⟨hroom, n, htotal, rfl⟩
  print value hm := matched_print hm value
  failed h := by
    obtain ⟨f, hf, -⟩ := h.failed
    exact ⟨f, hf⟩
  within branch h := by
    obtain ⟨f, hf, hcause⟩ := h.failed
    refine ⟨h.full, h.written, .invalidBody branch f, ?_, hcause⟩
    rw [Outcome.within, hf, Option.map_some]
  -- What is written later stands behind the bytes that fit, so their front is the same.
  ahead o :=
    { assign := fun _ _ h => ⟨h.full, h.written, h.failed⟩
      print := fun {m} value h => by
        obtain ⟨more, hmore⟩ := m.exists_written_print value
        refine ⟨?_, ?_, h.failed⟩
        · rw [hmore, ByteArray.size_append]
          exact Nat.lt_add_right _ h.full
        · rw [hmore, extract_append_of_le (Nat.le_of_lt h.full), h.written] }

/-- **A full sink only truncates.**  Let a program write some bytes to a sink that takes everything.
If there is room for as many, the limited run is the same, down to the room that is left.  If there
is not, it writes the front of the bytes that there is room for and fails because the sink is full,
inside whatever branches; and the print that did not fit is the last statement that it executes. -/
theorem interpret_limited (limit : Nat) (ts : Window) {m : Machine} (hm : m.sink.Reliable)
    (n : Nat) :
    ∃ bytes : ByteArray,
      (m.interpret limit ts).machine.sink.written = m.sink.written ++ bytes ∧
      (bytes.size ≤ n → (m.limited n).interpret limit ts
        = ⟨(m.interpret limit ts).machine.limited (n - bytes.size), (m.interpret limit ts).fault⟩) ∧
      (n < bytes.size → ∃ m' f, (m.limited n).interpret limit ts = .failed m' f ∧
        m'.sink.written = m.sink.written ++ bytes.extract 0 n ∧ f.cause = .output .full ∧
        StopsAtPrint limit .full ((m.limited n).visits limit (limit + 1) ts) m') := by
  rw [interpret_eq_run hm.flushes, interpret_eq_run (m := m.limited n) hm.flushes]
  obtain ⟨bytes, hbytes⟩ := exists_written limit (limit + 1) ts m
  have hfits : Fits (m.sink.written.size + n) m (m.limited n) := ⟨hm.room, n, rfl, rfl⟩
  have hmatched : Matched (Fits _) (CutAt _) (m.run limit (limit + 1) ts)
      ((m.limited n).run limit (limit + 1) ts) := (simulation_limited limit _).run trivial hfits
  refine ⟨bytes, hbytes, ?_, ?_⟩
  · intro hle
    -- Had the run been cut off, more bytes would have been written than there is room for.
    rcases hmatched.same_or_cut with ⟨⟨-, k, hk, hmachine⟩, hfault⟩ | hcut
    · rw [hbytes, ByteArray.size_append] at hk
      obtain rfl : k = n - bytes.size := by omega
      rw [← hmachine, hfault]
    · have hfull := hcut.full
      rw [hbytes, ByteArray.size_append] at hfull
      omega
  · intro hlt
    rcases hmatched.same_or_cut with ⟨⟨-, k, hk, -⟩, -⟩ | hcut
    · rw [hbytes, ByteArray.size_append] at hk
      omega
    · obtain ⟨f, hf, hcause⟩ := hcut.failed
      have hwritten := hcut.written
      rw [hbytes, extract_append_add] at hwritten
      refine ⟨_, f, ?_, hwritten, hcause, stopsAtPrint_of_run hf hcause⟩
      rw [Outcome.failed, ← hf]

/-- What is printed takes six bytes.  With room for four, the run stops in the middle of the second
print, in a branch; the assignment behind it is not executed. -/
theorem interpret_limited_four :
    let ts := (Scan.ofText "print \"ab\"; if (true) print \"cd\"; x = 1;").tokens
    let m := Machine.fresh .unlimited
    m.sink.Reliable ∧ (m.interpret 2 ts).machine.sink.written.size = 6 ∧
      (m.limited 6).interpret 2 ts
        = ⟨(m.interpret 2 ts).machine.limited 0, (m.interpret 2 ts).fault⟩ ∧
      ∃ m' f, (m.limited 4).interpret 2 ts = .failed m' f ∧
        m'.sink.written = "ab\nc".toUTF8 ∧ f.cause = .output .full ∧
        StopsAtPrint 2 .full ((m.limited 4).visits 2 3 ts) m' := by
  intro ts m
  have hm : m.sink.Reliable := ⟨rfl, rfl⟩
  have hsize : (m.interpret 2 ts).machine.sink.written.size = 6 := by decide +kernel
  have hfront : (m.interpret 2 ts).machine.sink.written.extract 0 4 = "ab\nc".toUTF8 := by
    decide +kernel
  have hwhole : ∀ bytes, (m.interpret 2 ts).machine.sink.written = m.sink.written ++ bytes →
      (m.interpret 2 ts).machine.sink.written = bytes := by
    intro bytes hbytes
    rw [hbytes]
    exact ByteArray.empty_append
  obtain ⟨bytes, hbytes, hfits, -⟩ := interpret_limited 2 ts hm 6
  obtain ⟨bytes', hbytes', -, hcut⟩ := interpret_limited 2 ts hm 4
  have hsix : bytes.size = 6 := by rw [← hwhole bytes hbytes, hsize]
  have hlong : 4 < bytes'.size := by rw [← hwhole bytes' hbytes', hsize]; decide
  obtain ⟨m', f, hrun, hwritten, hcause, hstops⟩ := hcut hlong
  refine ⟨hm, hsize, ?_, m', f, hrun, ?_, hcause, hstops⟩
  · have hrun6 := hfits (Nat.le_of_eq hsix)
    rw [hsix] at hrun6
    exact hrun6
  · rw [hwritten, ← hwhole bytes' hbytes', hfront]
    exact ByteArray.empty_append

end Machine

end Scriptlet
