import Scriptlet.Proofs.Expression.Relabel
import Scriptlet.Proofs.Machine.Session
import Scriptlet.Proofs.Statement.Relabel

/-!
# Runs of relabelled windows

A relabelled window runs as the window does.  Both runs take the same way, because conditions have
the same values; after every step the one machine is the other one with its variables renamed, and
no name is bound that the renaming might confuse with another.

## Main definitions

* `Machine.rename`, `Outcome.rename` — states and runs with the variables renamed.
* `Machine.Renamed` — one run is another one renamed, and binds none but the given names.

## Main results

* `Machine.print_rename`, `Machine.assign_rename`, `Machine.test_renamed` — the steps.
* `Machine.run_renamed` — **a relabelled window runs as the window does.**
* `Machine.interpret_map` — a relabelled program, with its output flushed.
-/

namespace Scriptlet

open Window

/-! ### Renamed states -/

/-- The state with its variables renamed, and the same output. -/
def Machine.rename (r : String → String) (m : Machine) : Machine := ⟨m.store.rename r, m.sink⟩

/-- The run with its variables renamed, also in the fault. -/
def Outcome.rename (r : String → String) (o : Outcome) : Outcome :=
  ⟨o.machine.rename r, o.fault.map (Fault.rename r)⟩

@[simp] theorem Machine.rename_id (m : Machine) : m.rename id = m := by
  rw [Machine.rename, Store.rename_id]

@[simp] theorem Outcome.rename_id (o : Outcome) : o.rename id = o := by
  obtain ⟨m, fault⟩ := o
  cases fault with
  | none => simp [rename]
  | some f => simp [rename]

namespace Machine

/-- The second run is the first one renamed, and the first one has bound none but the given names.
-/
structure Renamed (r : String → String) (names : List String) (o o' : Outcome) : Prop where
  /-- The second run is the first one renamed. -/
  outcome : o' = o.rename r
  /-- None but the given names are bound. -/
  names_subset : o.machine.store.names ⊆ names

variable {f : Token → Token} {r : String → String} {names : List String} {m : Machine}

namespace Renamed

variable {o o' : Outcome}

theorem within (h : Renamed r names o o') (branch : Branch) :
    Renamed r names (o.within branch) (o'.within branch) := by
  obtain ⟨rfl, hnames⟩ := h
  obtain ⟨m, fault⟩ := o
  refine ⟨?_, hnames⟩
  cases fault with
  | none => rfl
  | some f => rfl

/-- Where one of the two runs goes on, the other one does. -/
theorem andThen {next next' : Machine → Outcome} (h : Renamed r names o o')
    (hnext : ∀ m : Machine, m.store.names ⊆ names → Renamed r names (next m) (next' (m.rename r))) :
    Renamed r names (o.andThen next) (o'.andThen next') := by
  obtain ⟨rfl, hnames⟩ := h
  obtain ⟨m, fault⟩ := o
  cases fault with
  | none => exact hnext m hnames
  | some f => exact ⟨rfl, hnames⟩

end Renamed

theorem print_rename (m : Machine) (value : Value) :
    (m.rename r).print value = (m.print value).rename r := by
  unfold print rename Outcome.rename
  dsimp only
  cases (m.sink.write (value.display ++ "\n").toUTF8).2 with
  | none => rfl
  | some failure => rfl

theorem assign_rename (hr : Faithful r names) (hm : m.store.names ⊆ names) {name : String}
    (hname : name ∈ names) (value : Value) :
    (m.rename r).assign (r name) value = (m.assign name value).rename r := by
  unfold assign rename
  dsimp only
  rw [Store.set_rename hr hm hname]

/-- A relabelled condition has the same value, and binds the renamed name if it binds one. -/
theorem test_renamed (hf : Token.Relabels f r) (hr : Faithful r names)
    (hm : m.store.names ⊆ names) {condition : Window} (hcondition : condition.Renamable r names)
    (limit : Nat) :
    (m.rename r).test limit (condition.map f)
        = ((m.test limit condition).1, (m.test limit condition).2.rename r) ∧
      (m.test limit condition).2.store.names ⊆ names := by
  have heval : Window.eval (m.rename r).store limit (condition.map f)
      = condition.eval m.store limit := Window.eval_map hf hr hm hcondition limit
  match condition with
  | [] => exact ⟨Prod.ext heval rfl, hm⟩
  | [_] => exact ⟨Prod.ext heval rfl, hm⟩
  | [_, _] => exact ⟨Prod.ext heval rfl, hm⟩
  | target :: equal :: t :: ts =>
    rw [List.map_cons, List.map_cons, List.map_cons] at heval ⊢
    unfold Machine.test
    dsimp only
    rw [hf.kind target, hf.kind equal]
    by_cases hbinds : target.kind = .identifier ∧ equal.kind = .equal
    · rw [if_pos hbinds, if_pos hbinds]
      obtain ⟨htarget, hequal⟩ := hbinds
      have hname : target.lexeme ∈ names :=
        hcondition.names_subset (mem_names_iff.2 ⟨target, List.mem_cons_self, htarget, rfl⟩)
      have hparts : Renamable r names ([target] ++ equal :: t :: ts) := hcondition
      -- The value has no group either: what stands in front of it is an equals sign and no `if`.
      have hvalue : Renamable r names (t :: ts) := hparts.behind (by rw [hequal]; decide)
      have heval := Window.eval_map hf hr hm hvalue limit
      rw [List.map_cons] at heval
      rw [hf.name target htarget, rename, heval]
      exact ⟨Prod.ext rfl (assign_rename hr hm hname _), Store.names_set hm hname _⟩
    · rw [if_neg hbinds, if_neg hbinds]
      exact ⟨Prod.ext heval rfl, hm⟩

/-! ### Running -/

section

variable {limit : Nat} {enter enter' : Window → Machine → Outcome}

theorem conditional_renamed (hf : Token.Relabels f r) (hr : Faithful r names)
    (henter : ∀ {w : Window} {m : Machine}, w.Renamable r names → m.store.names ⊆ names →
      Renamed r names (enter w m) (enter' (w.map f) (m.rename r)))
    {c : Conditional} (hc : c.Within (Renamable r names)) (hm : m.store.names ⊆ names) :
    Renamed r names (c.exec limit enter m) ((c.map f).exec limit enter' (m.rename r)) := by
  obtain ⟨htest', hnames⟩ := test_renamed hf hr hm hc.condition limit
  obtain ⟨v, m₁, htest, hcases⟩ := c.exec_cases limit enter m
  rw [htest] at htest' hnames
  have htest' : (m.rename r).test limit (c.map f).condition = (v, m₁.rename r) := htest'
  -- the value is the same in both runs, so both take the same way
  rcases hcases with ⟨rfl, hexec⟩ | ⟨rfl, hexec⟩ | ⟨hv, hexec⟩
  · rw [hexec, Conditional.exec_of_true htest']
    exact (henter hc.body hnames).within .body
  · have halternative : (c.map f).alternative = c.alternative.map (Alternative.map f) := rfl
    rw [hexec, Conditional.exec_of_false htest', halternative]
    cases ha : c.alternative with
    | none => exact ⟨rfl, hnames⟩
    | some a =>
      dsimp only [Option.map_some]
      rw [Alternative.tokens_map, Alternative.branch_map]
      exact (henter (hc.alternative a ha) hnames).within a.branch
  · rw [hexec, Conditional.exec_of_invalid htest' hv]
    exact ⟨rfl, hnames⟩

theorem statement_renamed (hf : Token.Relabels f r) (hr : Faithful r names)
    (henter : ∀ {w : Window} {m : Machine}, w.Renamable r names → m.store.names ⊆ names →
      Renamed r names (enter w m) (enter' (w.map f) (m.rename r)))
    {s : Statement} (hs : s.Within (Renamable r names)) (hm : m.store.names ⊆ names) :
    Renamed r names (s.exec limit enter m) ((s.map f r).exec limit enter' (m.rename r)) := by
  cases s with
  | assign name body =>
    obtain ⟨⟨t, ht, rfl, hname⟩, hbody⟩ := hs
    have hmem : t.lexeme ∈ names :=
      hname.names_subset (mem_names_iff.2 ⟨t, List.mem_cons_self, ht, rfl⟩)
    have heval : Window.eval (m.rename r).store limit (body.map f) = body.eval m.store limit :=
      Window.eval_map hf hr hm hbody limit
    rw [Statement.map, Statement.exec, Statement.exec, heval, assign_rename hr hm hmem]
    exact ⟨rfl, Store.names_set hm hmem _⟩
  | print body =>
    have heval : Window.eval (m.rename r).store limit (body.map f) = body.eval m.store limit :=
      Window.eval_map hf hr hm hs limit
    rw [Statement.map, Statement.exec, Statement.exec, heval]
    exact ⟨print_rename m _, hm⟩
  | conditional c => exact conditional_renamed hf hr henter hs hm
  | idle t => exact ⟨rfl, hm⟩

theorem execAll_renamed (hf : Token.Relabels f r) (hr : Faithful r names)
    (henter : ∀ {w : Window} {m : Machine}, w.Renamable r names → m.store.names ⊆ names →
      Renamed r names (enter w m) (enter' (w.map f) (m.rename r)))
    {statements : List Statement} (hs : ∀ s ∈ statements, s.Within (Renamable r names))
    (hm : m.store.names ⊆ names) :
    Renamed r names (Statement.execAll limit enter m statements)
      (Statement.execAll limit enter' (m.rename r) (statements.map (Statement.map f r))) := by
  induction statements generalizing m with
  | nil => exact ⟨rfl, hm⟩
  | cons s rest ih =>
    obtain ⟨hfirst, hrest⟩ := List.forall_mem_cons.1 hs
    rw [List.map_cons, Statement.execAll_cons, Statement.execAll_cons]
    exact (statement_renamed hf hr henter hfirst hm).andThen fun m hm => ih hrest hm

end

/-- What a script hands on is renamable with its window. -/
theorem renamable_of_mem {ts : Window} (hts : ts.Renamable r names) {limit levels : Nat}
    {s : Statement} (hs : s ∈ (Script.ofWindow limit levels ts).statements) :
    s.Within (Renamable r names) := by
  have hnames {w : Window} (hw : w <:+: ts) : w.names ⊆ names :=
    List.Subset.trans (Window.names_subset hw.subset) hts.names_subset
  rcases hts.groups with hid | hgroups
  · exact (Script.within_of_mem hs).mono fun w hw => ⟨hnames hw.1, .inl hid⟩
  · have hname (t : Token) (ht : t.kind = .identifier) : Groupless [t] :=
      groupless_cons (by rw [ht]; decide) (.singleton t)
    have hwithin := (Script.within_of_mem hs).and (Script.groupless_of_mem hgroups hs) hname
    exact hwithin.mono fun w hw => ⟨hnames hw.1.1, .inr hw.2⟩

/-- **A relabelled window runs as the window does.** -/
theorem run_renamed (hf : Token.Relabels f r) (hr : Faithful r names) (limit levels : Nat)
    {ts : Window} (hts : ts.Renamable r names) (hm : m.store.names ⊆ names) :
    Renamed r names (m.run limit levels ts) ((m.rename r).run limit levels (ts.map f)) := by
  induction levels generalizing ts m with
  | zero => exact ⟨rfl, hm⟩
  | succ levels ih =>
    rw [run_succ, run_succ, Script.ofWindow_map hf, Script.exec, Script.exec]
    have hscript : ∀ s ∈ (Script.ofWindow limit (levels + 1) ts).statements,
        s.Within (Renamable r names) := fun s hs => renamable_of_mem hts hs
    refine (execAll_renamed hf hr ?_ hscript hm).andThen ?_
    · intro w m hw hm
      exact ih hw hm
    · intro m hm
      exact ⟨rfl, hm⟩

/-- A relabelled program, with its output flushed: whether that succeeds, the variables do not
tell. -/
theorem interpret_map (hf : Token.Relabels f r) (hr : Faithful r names) (limit : Nat)
    {ts : Window} (hts : ts.Renamable r names) (hm : m.store.names ⊆ names) :
    (m.rename r).interpret limit (ts.map f) = (m.interpret limit ts).rename r := by
  obtain ⟨hrun, -⟩ := run_renamed hf hr limit (limit + 1) hts hm
  unfold interpret
  rw [hrun]
  dsimp only [Outcome.rename, rename]
  split
  · rfl
  · rfl

end Machine

end Scriptlet
