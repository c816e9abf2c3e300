import Scriptlet.Proofs.Machine.Relabel

/-!
# Renaming the variables of a program

What the variables of a program are called does not matter, if different ones stay different.  There
are two exceptions, and both come from texts that are made of names.  A sign in front of a variable
called `nil` is dropped, so no variable may have that name.  And a group in an expression is a text
in which the names can be read, so there must be no groups: all parentheses are those of conditions.

## Main results

* `Machine.interpret_rename` — **a program with its variables renamed does the same.**
-/

namespace Scriptlet.Machine

open Window

/-- **A program with its variables renamed does the same.**  Let every opening parenthesis stand
right behind an `if`, and let a renaming keep apart the names in the program and in the store, none
of which is or becomes `nil`.  Then the program with all names changed, started with all variables
renamed, leaves the same sink, and the variables that the program leaves, renamed.  It ends well if
the program does; else it fails in the same branches, for the same reason but for the name in it. -/
theorem interpret_rename (limit : Nat) {ts : Window} {m : Machine} {r : String → String}
    (hgroups : Groupless ts)
    (hinjective : ∀ a ∈ ts.names ++ m.store.names, ∀ b ∈ ts.names ++ m.store.names,
      r a = r b → a = b)
    (hnil : ∀ a ∈ ts.names ++ m.store.names, a ≠ "nil" ∧ r a ≠ "nil") :
    let o := m.interpret limit ts
    let o' := (m.rename r).interpret limit (ts.map (Token.rename r))
    o'.machine.sink = o.machine.sink ∧ o'.machine.store = o.machine.store.rename r ∧
      (o.fault = none → o'.fault = none) ∧
      ∀ e, o.fault = some e → o'.fault = some (e.rename r) ∧
        (e.rename r).branches = e.branches ∧ (e.rename r).cause = e.cause.rename r := by
  intro o o'
  -- Neither a name nor a renamed one is `nil`, so a renaming cannot change which names are.
  have hr : Faithful r (ts.names ++ m.store.names) := by
    refine ⟨hinjective, fun a ha => ?_⟩
    obtain ⟨hold, hnew⟩ := hnil a ha
    exact ⟨fun h => absurd h hnew, fun h => absurd h hold⟩
  have hts : ts.Renamable r (ts.names ++ m.store.names) :=
    ⟨List.subset_append_left _ _, .inr hgroups⟩
  have hm : m.store.names ⊆ ts.names ++ m.store.names := List.subset_append_right _ _
  have houtcome : o' = o.rename r := interpret_map (Token.relabels_rename r) hr limit hts hm
  have hfault : o'.fault = o.fault.map (Fault.rename r) := congrArg Outcome.fault houtcome
  refine ⟨congrArg (·.machine.sink) houtcome, congrArg (·.machine.store) houtcome, ?_, ?_⟩
  · intro h
    rw [hfault, h]
    rfl
  · intro e h
    rw [hfault, h]
    exact ⟨rfl, e.branches_rename r, e.cause_rename r⟩

/-- Two variables change their names.  One is bound before, and the other one by a condition; the
program ends in a fault with a name in it, in the body of that condition. -/
theorem interpret_rename_swapped :
    let ts : Window := (Scan.ofText "if (y = !x) { print y; if (x) x 1; else y 2; }").tokens
    let m : Machine := ⟨Store.empty.set "x" (.bool false), .unlimited⟩
    let r : String → String := fun name =>
      if name = "x" then "y" else if name = "y" then "x" else name
    let e : Fault := .invalidBody .body (.invalidBody .otherwise (.missingEqual .reassignment "y"))
    let o := m.interpret 3 ts
    let o' := (m.rename r).interpret 3 (ts.map (Token.rename r))
    Groupless ts ∧
      (∀ a ∈ ts.names ++ m.store.names, ∀ b ∈ ts.names ++ m.store.names, r a = r b → a = b) ∧
      (∀ a ∈ ts.names ++ m.store.names, a ≠ "nil" ∧ r a ≠ "nil") ∧
      o.machine.sink.written = "true\n".toUTF8 ∧ o.fault = some e ∧
      o'.machine.sink = o.machine.sink ∧ o'.machine.store = o.machine.store.rename r ∧
      o'.fault = some (e.rename r) := by
  intro ts m r e o o'
  have hgroups : Groupless ts := by decide +kernel
  have hinjective : ∀ a ∈ ts.names ++ m.store.names, ∀ b ∈ ts.names ++ m.store.names,
      r a = r b → a = b := by decide +kernel
  have hnil : ∀ a ∈ ts.names ++ m.store.names, a ≠ "nil" ∧ r a ≠ "nil" := by decide +kernel
  have hwritten : o.machine.sink.written = "true\n".toUTF8 := by decide +kernel
  have hfault : o.fault = some e := by decide +kernel
  obtain ⟨hsink, hstore, -, hfaults⟩ := interpret_rename 3 hgroups hinjective hnil
  exact ⟨hgroups, hinjective, hnil, hwritten, hfault, hsink, hstore, (hfaults e hfault).1⟩

end Scriptlet.Machine
