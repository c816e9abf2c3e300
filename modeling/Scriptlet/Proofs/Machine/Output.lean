import Scriptlet.Proofs.Machine.Trace

/-!
# What a run prints

A sink that takes everything holds, behind what was in it before, what the prints among the visits
of a run print: a line for each of them, in the order in which they are executed.  This is so
whether the run ends well or not; behind a fault there are no visits any more, and so no lines.

## Main definitions

* `unlines` — lines as one text.
* `Visit.line?` — the line that a visit prints.
* `printed` — the bytes that visits print.
* `Machine.Prints` — one machine is another one after some visits, as far as the output goes.

## Main results

* `Machine.prints_run` — **a run writes what its visits print.**
-/

namespace Scriptlet

/-! ### Lines -/

/-- Lines as one text: each with a line feed behind it. -/
def unlines (lines : List String) : String := String.join (lines.map (· ++ "\n"))

@[simp] theorem unlines_nil : unlines [] = "" := rfl

theorem unlines_append (lines lines' : List String) :
    unlines (lines ++ lines') = unlines lines ++ unlines lines' := by
  rw [unlines, List.map_append, String.join_append]
  rfl

theorem unlines_singleton (line : String) : unlines [line] = line ++ "\n" := by
  rw [unlines, List.map_singleton, String.join_cons, String.join_nil, String.append_empty]

/-- The line that a visit prints, if its statement is a print. -/
def Visit.line? (limit : Nat) (v : Visit) : Option String :=
  match v.statement with
  | .print body => some (body.eval v.machine.store limit).display
  | _ => none

/-- The bytes that visits print: a line for each print, in their order. -/
def printed (limit : Nat) (visits : List Visit) : ByteArray :=
  (unlines (visits.filterMap (Visit.line? limit))).toUTF8

theorem printed_append (limit : Nat) (visits visits' : List Visit) :
    printed limit (visits ++ visits') = printed limit visits ++ printed limit visits' := by
  rw [printed, List.filterMap_append, unlines_append]
  exact String.toByteArray_append

/-- What is no print prints nothing. -/
theorem printed_singleton_of_line?_eq_none {limit : Nat} {v : Visit} (h : v.line? limit = none) :
    printed limit [v] = .empty := by
  rw [printed, List.filterMap_cons_none h]
  rfl

namespace Machine

/-! ### One machine after the other -/

/-- The sink of the second machine takes everything, and holds what was in that of the first and
what the visits print. -/
structure Prints (limit : Nat) (m : Machine) (visits : List Visit) (m' : Machine) : Prop where
  /-- The sink has no limit. -/
  room : m'.sink.room = none
  /-- What has been written. -/
  written : m'.sink.written = m.sink.written ++ printed limit visits

namespace Prints

variable {limit : Nat} {m m' m'' : Machine} {visits visits' : List Visit}

theorem nil (hm : m.sink.room = none) (hsink : m'.sink = m.sink) : Prints limit m [] m' := by
  refine ⟨by rw [hsink, hm], ?_⟩
  rw [hsink]
  exact ByteArray.append_empty.symm

theorem append (h : Prints limit m visits m') (h' : Prints limit m' visits' m'') :
    Prints limit m (visits ++ visits') m'' := by
  refine ⟨h'.room, ?_⟩
  rw [h'.written, h.written, printed_append, ByteArray.append_assoc]

/-- A visit that is no print is of no account. -/
theorem cons (h : Prints limit m visits m') {v : Visit} (hv : v.line? limit = none) :
    Prints limit m (v :: visits) m' := by
  refine ⟨h.room, ?_⟩
  rw [h.written, ← List.singleton_append, printed_append, printed_singleton_of_line?_eq_none hv,
    ByteArray.empty_append]

end Prints

theorem test_sink (limit : Nat) (condition : Window) (m : Machine) :
    (m.test limit condition).2.sink = m.sink := by
  unfold test
  split
  · split <;> rfl
  · rfl

variable {limit : Nat} {m : Machine} {enter : Window → Machine → Outcome}
  {inside : Window → Machine → List Visit}

/-! ### Statements -/

/-- A print writes its line. -/
theorem prints_print (hm : m.sink.room = none) (body : Window) :
    Prints limit m [⟨m, .print body⟩] (m.print (body.eval m.store limit)).machine := by
  have hline : printed limit [⟨m, .print body⟩]
      = ((body.eval m.store limit).display ++ "\n").toUTF8 := by
    rw [printed, List.filterMap_cons_some (by rfl), List.filterMap_nil, unlines_singleton]
  unfold print
  dsimp only
  rw [Sink.write_of_room_none hm]
  exact ⟨hm, by rw [hline]⟩

/-- An `if` writes what the window that it runs writes. -/
theorem prints_conditional
    (henter : ∀ {w : Window} {m : Machine}, m.sink.room = none →
      Prints limit m (inside w m) (enter w m).machine)
    (hm : m.sink.room = none) (c : Conditional) :
    Prints limit m (Statement.visits limit inside m (.conditional c))
      (c.exec limit enter m).machine := by
  obtain ⟨v, m', htest, hcases⟩ := c.exec_cases limit enter m
  have hsink : m'.sink = m.sink := by
    have hsink := test_sink limit c.condition m
    rwa [htest] at hsink
  have hm' : m'.sink.room = none := by rw [hsink, hm]
  -- the machine in front of the window has the sink that there is in front of the condition
  have hbelow (w : Window) : Prints limit m (inside w m') (enter w m').machine :=
    (Prints.nil hm hsink).append (henter hm')
  show Prints limit m
    (⟨m, .conditional c⟩ :: (c.entered limit m).elim [] fun p => inside p.1 p.2) _
  refine Prints.cons ?_ rfl
  rcases hcases with ⟨rfl, hexec⟩ | ⟨rfl, hexec⟩ | ⟨hv, hexec⟩
  · rw [Conditional.entered, htest, hexec]
    exact hbelow c.body
  · rw [Conditional.entered, htest, hexec]
    cases c.alternative with
    | none => exact .nil hm hsink
    | some a => exact hbelow a.tokens
  · rw [Conditional.entered, htest, hexec]
    cases v with
    | bool b => exact absurd rfl (hv b)
    | _ => exact .nil hm hsink

theorem prints_statement
    (henter : ∀ {w : Window} {m : Machine}, m.sink.room = none →
      Prints limit m (inside w m) (enter w m).machine)
    (hm : m.sink.room = none) (s : Statement) :
    Prints limit m (s.visits limit inside m) (s.exec limit enter m).machine := by
  cases s with
  | assign name body =>
    have hvisit : Visit.line? limit ⟨m, .assign name body⟩ = none := rfl
    have hsink : (m.assign name (body.eval m.store limit)).sink = m.sink := rfl
    exact (Prints.nil hm hsink).cons hvisit
  | print body => exact prints_print hm body
  | conditional c => exact prints_conditional henter hm c
  | idle t =>
    have hvisit : Visit.line? limit ⟨m, .idle t⟩ = none := rfl
    exact (Prints.nil hm rfl).cons hvisit

/-! ### Runs -/

theorem prints_execAll
    (henter : ∀ {w : Window} {m : Machine}, m.sink.room = none →
      Prints limit m (inside w m) (enter w m).machine)
    (hm : m.sink.room = none) (statements : List Statement) :
    Prints limit m (Statement.visitsAll limit enter inside m statements)
      (Statement.execAll limit enter m statements).machine := by
  induction statements generalizing m with
  | nil => exact .nil hm rfl
  | cons s rest ih =>
    have hs : Prints limit m (s.visits limit inside m) (s.exec limit enter m).machine :=
      prints_statement henter hm s
    rw [Statement.execAll_cons, Outcome.andThen, Statement.visitsAll]
    cases (s.exec limit enter m).fault with
    | none => exact hs.append (ih hs.room)
    -- Behind a statement that fails nothing is executed, so nothing more is printed.
    | some f => simpa using hs

/-- **A run writes what its visits print**, however it ends, if the sink takes everything. -/
theorem prints_run (limit levels : Nat) (ts : Window) {m : Machine} (hm : m.sink.room = none) :
    Prints limit m (m.visits limit levels ts) (m.run limit levels ts).machine := by
  induction levels generalizing ts m with
  | zero => exact .nil hm rfl
  | succ levels ih =>
    rw [run_succ, Script.exec, Outcome.andThen, visits]
    have hall := prints_execAll (fun {w m} hm => ih w hm) hm
      (Script.ofWindow limit (levels + 1) ts).statements
    -- what is malformed behind the statements writes nothing
    split
    · exact hall
    · exact hall

end Machine

end Scriptlet
