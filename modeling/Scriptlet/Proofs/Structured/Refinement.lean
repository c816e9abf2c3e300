import Scriptlet.Proofs.Expression.Tree
import Scriptlet.Proofs.Machine.Step
import Scriptlet.Proofs.Structured.Semantics

/-!
# Spellings are run as their programs

A spelling of a structured program is run as the program says: every cut that the reader makes
falls on a boundary of the tree, and a limit of at least the number of tokens is never felt, since
each level of nesting has a token of its own.

For each construct there is one lemma that takes what its parts do to what it does; the recursion
over the spelling then only counts tokens.

## Main definitions

* `Structured.Stmt.Refined`, `Structured.Body.Refined`, `Structured.Program.Refined` — running what
  the reader finds in a window is running the construct.

## Main results

* `Structured.Program.runs_iff_interpret` — **a spelling is run as its program.**
-/

namespace Scriptlet

open Window

/-- A limit of at least its length does not matter for the value of an expression. -/
theorem Window.eval_eq_value {store : Store} {limit : Nat} {ts : Window} (h : ts.length ≤ limit) :
    ts.eval store limit = ts.value store := by
  rw [value, eval, eval, Expression.parse_eq_of_length_le h]

namespace Machine

theorem print_of_reliable {m : Machine} (hm : m.sink.Reliable) (value : Value) :
    m.print value = .done (m.printed value) := by
  obtain ⟨store, ⟨written, room, flushes⟩⟩ := m
  have hroom : room = none := hm.room
  subst hroom
  rfl

end Machine

namespace Structured

/-- A condition is tested as its tokens say. -/
theorem tests_of_test {limit : Nat} {condition : Window} (hlimit : condition.length ≤ limit)
    {m m' : Machine} {v : Value} (h : m.test limit condition = (v, m')) :
    Tests condition m v m' := by
  unfold Machine.test at h
  split at h
  · rename_i target e t ts
    split at h
    · rename_i hkinds
      have hvalue : (t :: ts).length ≤ limit := by
        simp only [List.length_cons] at hlimit ⊢
        omega
      rw [eval_eq_value hvalue] at h
      cases h
      exact .binding ⟨e, rfl, hkinds.1, hkinds.2, by simp⟩
    · rename_i hkinds
      rw [eval_eq_value hlimit] at h
      cases h
      apply Tests.plain
      intro target' value hbinds
      obtain ⟨e', heq, htarget, he, -⟩ := hbinds
      simp only [List.cons.injEq] at heq
      obtain ⟨rfl, rfl, -⟩ := heq
      exact hkinds ⟨htarget, he⟩
  · rename_i hshort
    rw [eval_eq_value hlimit] at h
    cases h
    -- A binding has at least three tokens.
    apply Tests.plain
    intro target value hbinds
    obtain ⟨e, rfl, -, -, hne⟩ := hbinds
    cases value with
    | nil => exact hne rfl
    | cons t ts => exact hshort target e t ts rfl

/-- What running an `if` does, by the value of its condition. -/
theorem exec_cases {limit : Nat} (enter : Window → Machine → Outcome) (c : Conditional)
    (hlimit : c.condition.length ≤ limit) (m : Machine) :
    ∃ v m', Tests c.condition m v m' ∧
      ((v = .bool true ∧ c.exec limit enter m = (enter c.body m').within .body) ∨
        (v = .bool false ∧ c.exec limit enter m
          = match c.alternative with
            | none => .done m'
            | some a => (enter a.tokens m').within a.branch) ∨
        ((∀ b, v ≠ .bool b) ∧ c.exec limit enter m = .failed m' (.invalidCondition v))) := by
  obtain ⟨v, m', htest, hcases⟩ := Conditional.exec_cases limit enter c m
  exact ⟨v, m', tests_of_test hlimit htest, hcases⟩

theorem Plain.isExpression {ts : Window} (h : Plain ts) : Statement.IsExpression ts :=
  ⟨h.ne_nil, fun t ht => (h.kinds t ht).1⟩

/-! ### Constructs and what is found for them -/

/-- A statement is found in the window, and running it on the next level is running the
construct. -/
def Stmt.Refined (limit levels : Nat) (s : Stmt) (ts : Window) : Prop :=
  ∃ found : Statement, found.Form (levels + 1) s.dangles ts ∧
    ∀ m : Machine, m.sink.Reliable →
      s.Runs m (found.exec limit (fun ts m => m.run limit levels ts) m)

/-- Running a window in so many levels is running the program. -/
def Program.Refined (limit levels : Nat) (p : Program) (ts : Window) : Prop :=
  ∀ m : Machine, m.sink.Reliable → p.Runs m (m.run limit levels ts)

/-- A body is found in the window, behind a condition and behind an `else`, and running it is
running the statements of the construct. -/
def Body.Refined (limit levels : Nat) (b : Body) (ts : Window) : Prop :=
  ∃ inner : Window, Conditional.Body (Conditional.Shape levels) inner b.dangles ts ∧
    (∃ a : Alternative, Conditional.Otherwise (Conditional.Shape levels) a b.dangles ts ∧
      a.tokens = inner ∧ a.branch = b.branch) ∧
    b.program.Refined limit levels inner

/-! ### Statements without bodies -/

section

variable {limit levels : Nat} {x e semicolon : Token} {value : Window}

theorem Stmt.refined_declare {v : Token} (hv : v.kind = .varWord) (hx : x.kind = .identifier)
    (he : e.kind = .equal) (hvalue : Plain value) (hsemi : semicolon.kind = .semicolon)
    (hlimit : value.length ≤ limit) :
    (Stmt.declare x.lexeme value).Refined limit levels (v :: x :: e :: (value ++ [semicolon])) := by
  refine ⟨_, .declare hv hx he hvalue.isExpression hsemi, ?_⟩
  intro m _
  rw [Statement.exec, eval_eq_value hlimit]
  exact .declare

theorem Stmt.refined_assign (hx : x.kind = .identifier) (he : e.kind = .equal)
    (hvalue : Plain value) (hsemi : semicolon.kind = .semicolon) (hlimit : value.length ≤ limit) :
    (Stmt.assign x.lexeme value).Refined limit levels (x :: e :: (value ++ [semicolon])) := by
  refine ⟨_, .assign hx he hvalue.isExpression hsemi, ?_⟩
  intro m _
  rw [Statement.exec, eval_eq_value hlimit]
  exact .assign

theorem Stmt.refined_print {p : Token} (hp : p.kind = .printWord) (hvalue : Plain value)
    (hsemi : semicolon.kind = .semicolon) (hlimit : value.length ≤ limit) :
    (Stmt.print value).Refined limit levels (p :: (value ++ [semicolon])) := by
  refine ⟨_, .print hp hvalue.isExpression hsemi, ?_⟩
  intro m hm
  rw [Statement.exec, eval_eq_value hlimit, Machine.print_of_reliable hm]
  exact .print

end

/-! ### Statements with bodies -/

section

variable {limit levels : Nat} {i : Token} {condition head ts : Window} {body : Body}

theorem Stmt.refined_ifThen (hi : i.kind = .ifWord) (hplain : Plain condition)
    (hhead : Encloses .leftParen .rightParen condition head) (hlimit : condition.length ≤ limit)
    (hbody : body.Refined limit levels ts) :
    (Stmt.ifThen condition body).Refined limit levels (i :: (head ++ ts)) := by
  obtain ⟨inner, hshape, -, hrun⟩ := hbody
  refine ⟨.conditional ⟨condition, inner, none⟩,
    .conditional (.short hi hhead hplain.ne_nil hshape), ?_⟩
  intro m hm
  rw [Statement.exec]
  obtain ⟨v, m', htest, hcases⟩ := exec_cases (fun ts m => m.run limit levels ts)
    ⟨condition, inner, none⟩ hlimit m
  rcases hcases with ⟨rfl, hexec⟩ | ⟨rfl, hexec⟩ | ⟨hv, hexec⟩
  · rw [hexec]
    exact .thenTrue htest (hrun m' (htest.reliable hm))
  · rw [hexec]
    exact .thenFalse htest
  · rw [hexec]
    exact .thenInvalid htest hv

theorem Stmt.refined_ifElse {e : Token} {us : Window} {alternative : Body} (hi : i.kind = .ifWord)
    (hplain : Plain condition) (hhead : Encloses .leftParen .rightParen condition head)
    (hlimit : condition.length ≤ limit) (hbody : body.Refined limit levels ts)
    (hdangles : body.dangles = false) (he : e.kind = .elseWord)
    (halternative : alternative.Refined limit levels us) :
    (Stmt.ifElse condition body alternative).Refined limit levels
      (i :: (head ++ (ts ++ e :: us))) := by
  obtain ⟨inner, hshape, -, hrun⟩ := hbody
  obtain ⟨-, -, ⟨a, hother, rfl, hbranch⟩, hrun'⟩ := halternative
  -- the body does not dangle, so the reader leaves the `else` to this `if`
  rw [hdangles] at hshape
  refine ⟨.conditional ⟨condition, inner, some a⟩,
    .conditional (.long hi hhead hplain.ne_nil hshape he hother), ?_⟩
  intro m hm
  rw [Statement.exec]
  obtain ⟨v, m', htest, hcases⟩ := exec_cases (fun ts m => m.run limit levels ts)
    ⟨condition, inner, some a⟩ hlimit m
  rcases hcases with ⟨rfl, hexec⟩ | ⟨rfl, hexec⟩ | ⟨hv, hexec⟩
  · rw [hexec]
    exact .elseTrue htest (hrun m' (htest.reliable hm))
  · rw [hexec]
    dsimp only
    rw [hbranch]
    exact .elseFalse htest (hrun' m' (htest.reliable hm))
  · rw [hexec]
    exact .elseInvalid htest hv

end

/-! ### Programs and bodies -/

theorem Program.refined_nil {limit levels : Nat} : Program.nil.Refined limit (levels + 1) [] := by
  intro m _
  rw [Machine.run_succ, Script.ofWindow_nil]
  exact .nil

theorem Program.refined_cons {limit levels : Nat} {s : Stmt} {rest : Program} {ts us : Window}
    (hs : s.Refined limit levels ts) (hrest : rest.Refined limit (levels + 1) us)
    (helse : ¬ StartsWith .elseWord us) :
    (Program.cons s rest).Refined limit (levels + 1) (ts ++ us) := by
  obtain ⟨found, hform, hfound⟩ := hs
  intro m hm
  have hrun := hfound m hm
  rw [Machine.run_form_append hform fun _ => helse]
  obtain ⟨⟨m', fault⟩, heq⟩ : ∃ o, o = found.exec limit (fun ts m => m.run limit levels ts) m :=
    ⟨_, rfl⟩
  rw [← heq] at hrun ⊢
  -- the first statement either leaves a state to go on from or ends the run
  cases fault with
  | none => exact .step hrun (hrest m' (hrun.reliable hm))
  | some f => exact .stop hrun

theorem Body.refined_braced {limit levels : Nat} {l r : Token} {ts : Window} {p : Program}
    (hl : l.kind = .leftBrace) (hr : r.kind = .rightBrace) (hspells : p.Spells ts)
    (hp : p.Refined limit levels ts) :
    (Body.braced p).Refined limit levels (l :: (ts ++ [r])) := by
  have hplain : Conditional.PlainBody ts (l :: (ts ++ [r])) :=
    .braced ⟨hspells.balanced, l, r, hl, hr, rfl⟩
  exact ⟨ts, .plain hplain, ⟨.block ts, .plain hplain, rfl, rfl⟩, hp⟩

/-- The tokens of an expression with others in front of them end at their only semicolon. -/
theorem Plain.terminated {front value : Window} {semicolon : Token} (h : Plain value)
    (hfront : ∀ t ∈ front, t.kind ≠ .semicolon) (hsemi : semicolon.kind = .semicolon) :
    Terminated (front ++ (value ++ [semicolon])) := by
  refine ⟨front ++ value, semicolon, ?_, hsemi, by simp⟩
  intro t ht
  rcases List.mem_append.1 ht with ht | ht
  · exact hfront t ht
  · exact (h.kinds t ht).1

/-- An unbraced statement that is no `if` is a plain body. -/
theorem Stmt.Spells.plainBody {s : Stmt} {ts : Window} (h : s.Spells ts) (hs : s.isIf = false) :
    Conditional.PlainBody ts ts := by
  cases h with
  | @declare v x e semicolon value hv hx he hvalue hsemi =>
    have hend : Terminated ([v, x, e] ++ (value ++ [semicolon])) :=
      hvalue.terminated (by simp [hv, hx, he]) hsemi
    exact .simple (by simp [hv]) (by simp [hv]) (by simp [hv]) (by simp [hv]) hend
  | @assign x e semicolon value hx he hvalue hsemi =>
    have hend : Terminated ([x, e] ++ (value ++ [semicolon])) :=
      hvalue.terminated (by simp [hx, he]) hsemi
    exact .simple (by simp [hx]) (by simp [hx]) (by simp [hx]) (by simp [hx]) hend
  | @print p semicolon value hp hvalue hsemi =>
    have hend : Terminated ([p] ++ (value ++ [semicolon])) :=
      hvalue.terminated (by simp [hp]) hsemi
    exact .simple (by simp [hp]) (by simp [hp]) (by simp [hp]) (by simp [hp]) hend
  | ifThen | ifElse => cases hs

theorem Stmt.Spells.startsWith {s : Stmt} {ts : Window} (h : s.Spells ts) (hs : s.isIf = true) :
    StartsWith .ifWord ts := by
  cases h with
  | ifThen hi | ifElse hi => exact startsWith_cons_iff.2 hi
  | _ => cases hs

theorem shape_of_form {levels : Nat} {found : Statement} {dangling : Bool} {ts : Window}
    (h : found.Form levels dangling ts) (hif : StartsWith .ifWord ts) :
    ∃ c : Conditional, c.Shape levels dangling ts := by
  cases h with
  | conditional hshape => exact ⟨_, hshape⟩
  | declare hk | assign hk | print hk =>
    rw [startsWith_cons_iff, hk] at hif
    cases hif
  | idle _ _ _ hk => exact absurd (startsWith_cons_iff.1 hif) hk

theorem Body.refined_bare {limit levels : Nat} {s : Stmt} {ts : Window} (hspells : s.Spells ts)
    (hs : s.Refined limit levels ts) : (Body.bare s).Refined limit (levels + 1) ts := by
  -- the body is run as a window of one statement
  have hprogram : (Body.bare s).program.Refined limit (levels + 1) ts := by
    have h := Program.refined_cons hs Program.refined_nil (not_startsWith_nil _)
    rwa [List.append_nil] at h
  cases hif : s.isIf with
  | true =>
    obtain ⟨found, hform, -⟩ := hs
    obtain ⟨c, hshape⟩ := shape_of_form hform (hspells.startsWith hif)
    have hbranch : (Body.bare s).branch = .elseIf := by rw [Body.branch, if_pos hif]
    exact ⟨ts, .nested hshape, ⟨.elseIf ts, .nested hshape, rfl, hbranch.symm⟩, hprogram⟩
  | false =>
    have hplain := hspells.plainBody hif
    have hdangles : (Body.bare s).dangles = false := by
      cases s with
      | ifThen | ifElse => cases hif
      | _ => rfl
    have hbranch : (Body.bare s).branch = .otherwise := by rw [Body.branch, hif]; rfl
    rw [Body.Refined, hdangles]
    exact ⟨ts, .plain hplain, ⟨.block ts, .plain hplain, rfl, hbranch.symm⟩, hprogram⟩

/-! ### Spellings -/

mutual

theorem Stmt.Spells.refined : ∀ {s : Stmt} {ts : Window}, s.Spells ts →
    ∀ {limit levels : Nat}, ts.length ≤ limit → ts.length ≤ levels → s.Refined limit levels ts
  | _, _, .declare hv hx he hvalue hsemi, limit, levels, hlimit, _ => by
    apply Stmt.refined_declare hv hx he hvalue hsemi
    simp only [List.length_cons, List.length_append] at hlimit
    omega
  | _, _, .assign hx he hvalue hsemi, limit, levels, hlimit, _ => by
    apply Stmt.refined_assign hx he hvalue hsemi
    simp only [List.length_cons, List.length_append] at hlimit
    omega
  | _, _, .print hp hvalue hsemi, limit, levels, hlimit, _ => by
    apply Stmt.refined_print hp hvalue hsemi
    simp only [List.length_cons, List.length_append] at hlimit
    omega
  | _, _, .ifThen hi hplain hhead hbody, limit, levels, hlimit, hlevels => by
    have hlen := hhead.length
    simp only [List.length_cons, List.length_append] at hlimit hlevels
    obtain ⟨below, rfl⟩ : ∃ below, levels = below + 1 := ⟨levels - 1, by omega⟩
    refine Stmt.refined_ifThen hi hplain hhead (by omega) ?_
    exact hbody.refined (by omega) (by omega)
  | _, _, .ifElse hi hplain hhead hbody hdangles he halternative, limit, levels, hlimit,
      hlevels => by
    have hlen := hhead.length
    simp only [List.length_cons, List.length_append] at hlimit hlevels
    obtain ⟨below, rfl⟩ : ∃ below, levels = below + 1 := ⟨levels - 1, by omega⟩
    refine Stmt.refined_ifElse hi hplain hhead (by omega) ?_ hdangles he ?_
    · exact hbody.refined (by omega) (by omega)
    · exact halternative.refined (by omega) (by omega)

theorem Body.Spells.refined : ∀ {b : Body} {ts : Window}, b.Spells ts →
    ∀ {limit levels : Nat}, ts.length ≤ limit → ts.length ≤ levels →
      b.Refined limit (levels + 1) ts
  | _, _, .braced hl hr hprogram, limit, levels, hlimit, hlevels => by
    simp only [List.length_cons, List.length_append] at hlimit hlevels
    apply Body.refined_braced hl hr hprogram
    exact hprogram.refined (by omega) (by omega)
  | _, _, .bare hs, limit, levels, hlimit, hlevels =>
    Body.refined_bare hs (hs.refined hlimit hlevels)

/-- Running a spelling with a level for each of its tokens is running the program. -/
theorem Program.Spells.refined : ∀ {p : Program} {ts : Window}, p.Spells ts →
    ∀ {limit levels : Nat}, ts.length ≤ limit → ts.length ≤ levels →
      p.Refined limit (levels + 1) ts
  | _, _, .nil, limit, levels, _, _ => Program.refined_nil
  | _, _, .cons hs hrest, limit, levels, hlimit, hlevels => by
    simp only [List.length_append] at hlimit hlevels
    refine Program.refined_cons ?_ ?_ hrest.not_startsWith
    · exact hs.refined (by omega) (by omega)
    · exact hrest.refined (by omega) (by omega)

end

/-- **A spelling is run as its program**: under a limit of at least the number of tokens, and with
a sink that accepts everything, the variables, the output and the fault after running a spelling
are those that the program has. -/
theorem Program.runs_iff_interpret {p : Program} {ts : Window} (hp : p.Spells ts) {limit : Nat}
    (hlimit : ts.length ≤ limit) {m : Machine} (hm : m.sink.Reliable) (o : Outcome) :
    p.Runs m o ↔ m.interpret limit ts = o := by
  have hruns : p.Runs m (m.run limit (limit + 1) ts) := hp.refined hlimit hlimit m hm
  have hsink := hruns.reliable hm
  -- A reliable sink can be flushed, so the outcome is that of the run.
  have hinterpret : m.interpret limit ts = m.run limit (limit + 1) ts := by
    have hflush : (m.run limit (limit + 1) ts).machine.sink.flush = none := if_pos hsink.flushes
    unfold Machine.interpret
    dsimp only
    rw [hflush]
  rw [hinterpret]
  constructor
  · intro h
    exact hruns.unique h
  · intro h
    rw [← h]
    exact hruns

/-- An `if` in the body of an `if`, where the one `else` goes with the inner one. -/
theorem Program.runs_iff_interpret_nested :
    let word (kind : Kind) : Token := ⟨kind, "x", 1⟩
    let paren (inner : Window) : Window := word .leftParen :: (inner ++ [word .rightParen])
    let x := [word .identifier]
    let binding := word .identifier :: word .equal :: x
    let print := word .printWord :: (x ++ [word .semicolon])
    let inner := word .ifWord :: (paren x ++ (print ++ word .elseWord ::
      word .leftBrace :: ((print ++ []) ++ [word .rightBrace])))
    let ts := word .identifier :: word .equal :: ([word .trueWord] ++ [word .semicolon]) ++
      (word .ifWord :: (paren binding ++ inner) ++ [])
    let p := Program.cons (.assign "x" [word .trueWord]) <| .cons (.ifThen binding <|
      .bare (.ifElse x (.bare (.print x)) (.braced (.cons (.print x) .nil)))) .nil
    let m := Machine.fresh .unlimited
    p.Spells ts ∧ ts.length ≤ 23 ∧ m.sink.Reliable ∧ p.Runs m (m.interpret 23 ts) ∧
      (m.interpret 23 ts).machine.sink.written = "true\n".toUTF8 := by
  intro word paren x binding print inner ts p m
  have hplain (kinds : List Kind) (hne : kinds ≠ [])
      (hkinds : ∀ k ∈ kinds, k ≠ .semicolon ∧ k ≠ .leftBrace ∧ k ≠ .rightBrace) :
      Plain (kinds.map word) := ⟨by simpa using hne, by simpa [word] using hkinds⟩
  have hx : Plain x := hplain [.identifier] (by decide) (by decide)
  have hbinding : Plain binding :=
    hplain [.identifier, .equal, .identifier] (by decide) (by decide)
  have hparen (ts : Window) (h : ∀ t ∈ ts, t.kind ≠ .leftParen ∧ t.kind ≠ .rightParen) :
      Encloses .leftParen .rightParen ts (paren ts) :=
    ⟨balanced_of_forall_ne h, _, _, rfl, rfl, rfl⟩
  have hprint : (Stmt.print x).Spells print := .print rfl hx rfl
  have hinner : (Stmt.ifElse x (.bare (.print x)) (.braced (.cons (.print x) .nil))).Spells
      inner :=
    .ifElse rfl hx (hparen x (by decide)) (.bare hprint) rfl rfl
      (.braced rfl rfl (.cons hprint .nil))
  have htrue : (Stmt.assign (word .identifier).lexeme [word .trueWord]).Spells
      (word .identifier :: word .equal :: ([word .trueWord] ++ [word .semicolon])) :=
    .assign rfl rfl (hplain [.trueWord] (by decide) (by decide)) rfl
  have hspells : p.Spells ts :=
    .cons htrue (.cons (.ifThen rfl hbinding (hparen binding (by decide)) (.bare hinner)) .nil)
  have hlength : ts.length ≤ 23 := by decide
  have hm : m.sink.Reliable := ⟨rfl, rfl⟩
  refine ⟨hspells, hlength, hm, (runs_iff_interpret hspells hlength hm _).2 rfl, ?_⟩
  decide +kernel

end Structured

end Scriptlet
