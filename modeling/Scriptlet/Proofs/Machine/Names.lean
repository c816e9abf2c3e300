import Scriptlet.Proofs.Expression.Names
import Scriptlet.Proofs.Machine.Session
import Scriptlet.Proofs.Machine.Simulation

/-!
# The variables of programs

A program can see and bind only the variables that are named in it: those that the lexeme of an
identifier token names, wherever that token stands.  Two machines that agree on these names and have
the same sink cannot be told apart by the program, and of the other variables none is changed, even
if the program fails.

## Main definitions

* `Machine.Alike names s` — two machines with the same output that agree on the names, while the
  first one has the other variables of the store `s`.

## Main results

* `Machine.simulation_names` — two runs from machines that are alike, side by side.
* `Machine.interpret_names` — **a program depends on the variables that it names, and changes no
  other.**
-/

namespace Scriptlet.Machine

/-- Two machines that a program cannot tell apart by some names; the first of them has all other
variables as they are in the store `s`. -/
structure Alike (names : List String) (s : Store) (m m' : Machine) : Prop where
  /-- The output is the same. -/
  sink : m.sink = m'.sink
  /-- The values of the names are the same. -/
  store : m.store.AgreeOn names m'.store
  /-- The other variables have not been changed. -/
  frame : ∀ name, name ∉ names → m.store.get? name = s.get? name

namespace Alike

variable {names : List String} {s : Store} {m m' : Machine}

theorem assign (h : Alike names s m m') {name : String} (hname : name ∈ names) (value : Value) :
    Alike names s (m.assign name value) (m'.assign name value) where
  sink := h.sink
  store := h.store.set name value
  frame other hother := by
    have hne : other ≠ name := by
      rintro rfl
      exact hother hname
    have hset : (m.assign name value).store.get? other = m.store.get? other :=
      m.store.get?_set_of_ne value hne
    rw [hset, h.frame other hother]

theorem print (h : Alike names s m m') (value : Value) :
    Matched (Alike names s) (fun _ _ => False) (m.print value) (m'.print value) := by
  unfold Machine.print
  dsimp only
  rw [h.sink]
  exact .same ⟨rfl, h.store, h.frame⟩

end Alike

/-- **Two runs from machines that are alike**, side by side. -/
theorem simulation_names (limit : Nat) (names : List String) (s : Store) :
    Simulation limit limit (fun w => w.names ⊆ names) (Alike names s) fun _ _ => False where
  piece hus hts := List.Subset.trans (Window.names_subset hus.subset) hts
  eval hts hm := Window.eval_congr (hm.store.mono hts)
  assign {t m m'} value ht hname hm := by
    have hmem : t.lexeme ∈ Window.names [t] :=
      Window.mem_names_iff.2 ⟨t, List.mem_cons_self, ht, rfl⟩
    exact hm.assign (hname hmem) value
  print value hm := hm.print value
  failed h := h.elim
  within _ h := h
  ahead _ := ⟨fun _ _ h => h, fun _ h => h⟩

/-- A program leads from machines that are alike to machines that are alike, with the same result.
-/
theorem interpret_alike {limit : Nat} {ts : Window} {s : Store} {m m' : Machine}
    (h : Alike ts.names s m m') :
    Alike ts.names s (m.interpret limit ts).machine (m'.interpret limit ts).machine ∧
      (m.interpret limit ts).fault = (m'.interpret limit ts).fault := by
  have hmatched : Matched (Alike ts.names s) (fun _ _ => False) (m.run limit (limit + 1) ts)
      (m'.run limit (limit + 1) ts) :=
    (simulation_names limit ts.names s).run (List.Subset.refl _) h
  obtain ⟨halike, hfault⟩ := hmatched.of_never_cut
  rw [interpret_machine, interpret_machine]
  refine ⟨halike, ?_⟩
  -- the sinks are the same, so both can be flushed or none can
  unfold interpret
  dsimp only
  rw [halike.sink]
  split
  · exact hfault
  · rfl

/-- **A program depends on the variables that it names, and changes no other.**  Started with the
same sink and with stores that agree on the names of its identifiers, it prints the same, ends in
the same result, and leaves stores that again agree on the names.  Every other name is bound to the
value that it was bound to before, or still unbound, however the program ends. -/
theorem interpret_names (limit : Nat) (ts : Window) :
    (∀ m m' : Machine, m.sink = m'.sink → m.store.AgreeOn ts.names m'.store →
      (m.interpret limit ts).machine.sink = (m'.interpret limit ts).machine.sink ∧
        (m.interpret limit ts).fault = (m'.interpret limit ts).fault ∧
        (m.interpret limit ts).machine.store.AgreeOn ts.names
          (m'.interpret limit ts).machine.store) ∧
      ∀ (m : Machine) (name : String), name ∉ ts.names →
        (m.interpret limit ts).machine.store.get? name = m.store.get? name := by
  constructor
  · intro m m' hsink hstore
    have h : Alike ts.names m.store m m' := ⟨hsink, hstore, fun _ _ => rfl⟩
    obtain ⟨halike, hfault⟩ := interpret_alike h
    exact ⟨halike.sink, hfault, halike.store⟩
  · intro m name hname
    -- a machine is alike to itself
    have h : Alike ts.names m.store m m := ⟨rfl, fun _ _ => rfl, fun _ _ => rfl⟩
    exact (interpret_alike h).1.frame name hname

/-- The stores differ in a variable that the program does not name.  It binds one in a condition and
fails because of the next condition; the output and the fault are the same. -/
theorem interpret_names_unnamed :
    let ts : Window := (Scan.ofText "x = !y; if (z = x) print y; if (\"w\") print x;").tokens
    let m : Machine := ⟨(Store.empty.set "y" (.bool false)).set "w" .nil, .unlimited⟩
    let m' : Machine := ⟨Store.empty.set "y" (.bool false), .unlimited⟩
    m.sink = m'.sink ∧ m.store.AgreeOn ts.names m'.store ∧ "w" ∉ ts.names ∧
      (m'.interpret 2 ts).machine.sink.written = "false\n".toUTF8 ∧
      (m'.interpret 2 ts).fault = some (.invalidCondition (.string "w")) ∧
      ((m.interpret 2 ts).machine.sink = (m'.interpret 2 ts).machine.sink ∧
        (m.interpret 2 ts).fault = (m'.interpret 2 ts).fault ∧
        (m.interpret 2 ts).machine.store.AgreeOn ts.names (m'.interpret 2 ts).machine.store) ∧
      (m.interpret 2 ts).machine.store.get? "w" = m.store.get? "w" := by
  intro ts m m'
  have hstore : m.store.AgreeOn ts.names m'.store := by decide +kernel
  have hname : "w" ∉ ts.names := by decide +kernel
  have hwritten : (m'.interpret 2 ts).machine.sink.written = "false\n".toUTF8 := by decide +kernel
  have hfault : (m'.interpret 2 ts).fault = some (.invalidCondition (.string "w")) := by
    decide +kernel
  obtain ⟨hsame, hframe⟩ := interpret_names 2 ts
  exact ⟨rfl, hstore, hname, hwritten, hfault, hsame m m' rfl hstore, hframe m "w" hname⟩

end Scriptlet.Machine
