import Scriptlet.Proofs.Machine.Run

/-!
# Ladders of `else if`

A ladder is an `if` statement with a block for each of its clauses, `if (c) { … } else if (d) { … }`
and so on, and perhaps a last block behind an `else` without a condition.  Each `else if` stands on
a level of its own, so a ladder with more of them than the limit allows is refused before anything
is run.  Any other one tests its conditions in order, up to the first that is not false, and a fault
is wrapped once for every `else if` on the way there.

The block of a clause stands one level below the clause, and the last block one below the last
clause; so it can be out of reach where its clause is not.

## Main definitions

* `Clause`, `Ladder` — a window is a ladder with the given clauses and last block.
* `Refuted` — conditions are false, one after the other.
* `Ladder.Selects` — the conditions select a block.
* `Ladder.Runs` — what a ladder does that is not refused.

## Main results

* `Ladder.read?_eq_tooDeep` — a ladder that is too long is refused as a whole.
* `Ladder.exists_run_of_refuted` — going down a ladder past false conditions.
* `Ladder.interpret_tooDeep_or_runs` — **what a ladder does under any limit.**
-/

namespace Scriptlet

open Window

/-! ### Ladders -/

/-- A condition and the block that it guards. -/
structure Clause where
  /-- The tokens between the parentheses. -/
  condition : Window
  /-- The tokens between the braces. -/
  block : Window

/-- The tokens of a clause: `if`, a condition in parentheses and a block in braces. -/
inductive Clause.Spells (c : Clause) : Window → Prop
  | mk {i : Token} {head body : Window} (hi : i.kind = .ifWord)
      (hhead : Encloses .leftParen .rightParen c.condition head) (hne : c.condition ≠ [])
      (hbody : Encloses .leftBrace .rightBrace c.block body) : Clause.Spells c (i :: (head ++ body))

/-- The tokens of a ladder: clauses with an `else` between any two, and perhaps one more `else` with
a last block. -/
inductive Ladder : List Clause → Option Window → Window → Prop
  | last {c : Clause} {ts : Window} (hc : c.Spells ts) : Ladder [c] none ts
  | otherwise {c : Clause} {e : Token} {block ts us : Window} (hc : c.Spells ts)
      (he : e.kind = .elseWord) (hblock : Encloses .leftBrace .rightBrace block us) :
      Ladder [c] (some block) (ts ++ e :: us)
  | next {c : Clause} {rest : List Clause} {final : Option Window} {e : Token} {ts us : Window}
      (hc : c.Spells ts) (he : e.kind = .elseWord) (hrest : Ladder rest final us) :
      Ladder (c :: rest) final (ts ++ e :: us)

/-! ### What a ladder should do -/

/-- Runs a window at a depth: the program itself stands at depth zero. -/
def Machine.runAt (limit depth : Nat) (ts : Window) (m : Machine) : Outcome :=
  m.run limit (limit + 1 - depth) ts

theorem Machine.runAt_of_lt {limit depth : Nat} (h : limit < depth) (ts : Window) (m : Machine) :
    m.runAt limit depth ts = .failed m (.tooDeep limit) := by
  rw [runAt, Nat.sub_eq_zero_of_le h, run_zero]

/-- Wraps the fault of a run in branches, the outermost first. -/
def Outcome.inside (branches : List Branch) (o : Outcome) : Outcome :=
  { o with fault := o.fault.map fun f => branches.foldr .invalidBody f }

@[simp] theorem Outcome.inside_nil (o : Outcome) : o.inside [] = o := by
  simp [inside]

theorem Outcome.inside_cons (branch : Branch) (branches : List Branch) (o : Outcome) :
    o.inside (branch :: branches) = (o.inside branches).within branch := by
  simp [inside, within, Function.comp_def]

theorem Outcome.inside_append (outer inner : List Branch) (o : Outcome) :
    o.inside (outer ++ inner) = (o.inside inner).inside outer := by
  simp [inside, Function.comp_def]

theorem Outcome.inside_singleton (branch : Branch) (o : Outcome) :
    o.inside [branch] = o.within branch := by
  rw [inside_cons, inside_nil]

/-- The conditions of clauses are false, one after the other: each is tested in the state that the
one before it leaves, and may change the state itself. -/
inductive Refuted (limit : Nat) : List Clause → Machine → Machine → Prop
  | nil {m : Machine} : Refuted limit [] m m
  | cons {c : Clause} {rest : List Clause} {m m₁ m₂ : Machine}
      (htest : m.test limit c.condition = (.bool false, m₁)) (hrest : Refuted limit rest m₁ m₂) :
      Refuted limit (c :: rest) m m₂

/-- The conditions of a ladder select a block: what is given is its depth, the branches that lead to
it, the block itself, and the state that the conditions leave. -/
inductive Ladder.Selects (limit : Nat) (clauses : List Clause) (final : Option Window)
    (m : Machine) : Nat → List Branch → Window → Machine → Prop
  /-- The block of the first clause of which the condition is not false, if it is true. -/
  | clause {front behind : List Clause} {c : Clause} {m₁ m₂ : Machine}
      (hclauses : clauses = front ++ c :: behind) (hfront : Refuted limit front m m₁)
      (htest : m₁.test limit c.condition = (.bool true, m₂)) :
      Ladder.Selects limit clauses final m (front.length + 1)
        (List.replicate front.length .elseIf ++ [.body]) c.block m₂
  /-- The last block, if all conditions are false. -/
  | final {block : Window} {m₁ : Machine} (hall : Refuted limit clauses m m₁)
      (hfinal : final = some block) :
      Ladder.Selects limit clauses final m clauses.length
        (List.replicate (clauses.length - 1) .elseIf ++ [.otherwise]) block m₁

/-- What a ladder does under a limit that it keeps to. -/
inductive Ladder.Runs (limit : Nat) (clauses : List Clause) (final : Option Window) (m : Machine) :
    Outcome → Prop
  /-- The first condition that is not false is no truth value. -/
  | invalid {front behind : List Clause} {c : Clause} {m₁ m₂ : Machine} {v : Value}
      (hclauses : clauses = front ++ c :: behind) (hfront : Refuted limit front m m₁)
      (htest : m₁.test limit c.condition = (v, m₂)) (hv : ∀ b, v ≠ .bool b) :
      Ladder.Runs limit clauses final m
        ((Outcome.failed m₂ (.invalidCondition v)).inside (List.replicate front.length .elseIf))
  /-- A block is selected, and run. -/
  | enters {depth : Nat} {branches : List Branch} {block : Window} {m₁ : Machine}
      (hselects : Ladder.Selects limit clauses final m depth branches block m₁) :
      Ladder.Runs limit clauses final m ((m₁.runAt limit depth block).inside branches)
  /-- No condition is true, and there is no last block. -/
  | exhausted {m₁ : Machine} (hall : Refuted limit clauses m m₁) (hfinal : final = none) :
      Ladder.Runs limit clauses final m (.done m₁)

/-- The last of some false conditions. -/
theorem Refuted.exists_of_append_singleton {limit : Nat} {front : List Clause} {c : Clause}
    {m m₂ : Machine} (h : Refuted limit (front ++ [c]) m m₂) :
    ∃ m₁, Refuted limit front m m₁ ∧ m₁.test limit c.condition = (.bool false, m₂) := by
  induction front generalizing m with
  | nil =>
    cases h with
    | cons htest hrest =>
      cases hrest
      exact ⟨m, .nil, htest⟩
  | cons c' front ih =>
    cases h with
    | cons htest hrest =>
      obtain ⟨m₁, hfront, hlast⟩ := ih hrest
      exact ⟨m₁, .cons htest hfront, hlast⟩

/-- All conditions are false, or there is a first one that is not. -/
theorem refuted_or_exists_first (limit : Nat) (clauses : List Clause) (m : Machine) :
    (∃ m₁, Refuted limit clauses m m₁) ∨
      ∃ front c behind m₁ v m₂, clauses = front ++ c :: behind ∧ Refuted limit front m m₁ ∧
        m₁.test limit c.condition = (v, m₂) ∧ v ≠ .bool false := by
  induction clauses generalizing m with
  | nil => exact .inl ⟨m, .nil⟩
  | cons c rest ih =>
    obtain ⟨v, m', htest⟩ : ∃ v m', m.test limit c.condition = (v, m') := ⟨_, _, rfl⟩
    by_cases hv : v = .bool false
    · subst hv
      -- the first condition is false, so it joins the others in front
      rcases ih m' with ⟨m₁, hall⟩ | ⟨front, c', behind, m₁, v, m₂, rfl, hfront, htest', hv'⟩
      · exact .inl ⟨m₁, .cons htest hall⟩
      · exact .inr ⟨c :: front, c', behind, m₁, v, m₂, rfl, .cons htest hfront, htest', hv'⟩
    · exact .inr ⟨[], c, rest, m, v, m', rfl, .nil, htest, hv⟩

theorem Ladder.exists_runs (limit : Nat) (clauses : List Clause) (final : Option Window)
    (m : Machine) : ∃ o, Ladder.Runs limit clauses final m o := by
  rcases refuted_or_exists_first limit clauses m with
    ⟨m₁, hall⟩ | ⟨front, c, behind, m₁, v, m₂, hclauses, hfront, htest, hv⟩
  · cases final with
    | none => exact ⟨_, .exhausted hall rfl⟩
    | some block => exact ⟨_, .enters (.final hall rfl)⟩
  · by_cases htrue : v = .bool true
    · subst htrue
      exact ⟨_, .enters (.clause hclauses hfront htest)⟩
    · -- the condition is neither false nor true, so it is no truth value
      refine ⟨_, .invalid hclauses hfront htest ?_⟩
      intro b hb
      cases b with
      | false => exact hv hb
      | true => exact htrue hb

/-! ### Reading clauses -/

namespace Clause.Spells

variable {nested : Conditional → Bool → Window → Prop} {c : Clause} {e : Token} {ts us : Window}

theorem startsWith (hc : c.Spells ts) : StartsWith .ifWord ts := by
  obtain ⟨hi, -, -, -⟩ := hc
  exact startsWith_cons_iff.2 hi

theorem short (hc : c.Spells ts) :
    Conditional.Form nested ⟨c.condition, c.block, none⟩ true ts := by
  obtain ⟨hi, hhead, hne, hbody⟩ := hc
  exact .short hi hhead hne (.plain (.braced hbody))

theorem long (hc : c.Spells ts) (he : e.kind = .elseWord) {a : Alternative} {dangling : Bool}
    (ha : Conditional.Otherwise nested a dangling us) :
    Conditional.Form nested ⟨c.condition, c.block, some a⟩ dangling (ts ++ e :: us) := by
  obtain ⟨hi, hhead, hne, hbody⟩ := hc
  rw [List.cons_append, List.append_assoc]
  exact .long hi hhead hne (.plain (.braced hbody)) he ha

/-- A clause in front of an `else if` is read, and what fails then is the `if` behind the `else`. -/
theorem read?_eq_error {limit levels : Nat} {f : Fault} (hc : c.Spells ts) (he : e.kind = .elseWord)
    (hif : StartsWith .ifWord us) (h : Conditional.read? limit levels us = .error f) :
    Conditional.read? limit (levels + 1) (ts ++ e :: us) = .error f := by
  cases hc with
  | @mk i head body hi hhead hne hbody =>
    have hcond : Conditional.condition? (head ++ body ++ e :: us)
        = .ok (c.condition, body ++ e :: us) :=
      Conditional.condition?_eq_ok_iff.2 ⟨hne, head, hhead, List.append_assoc head body (e :: us)⟩
    -- the block in braces is read whatever follows it
    have hplain : Conditional.PlainBody c.block body := .braced hbody
    have hblock : Conditional.body? (Conditional.read? limit levels) .missingBody (body ++ e :: us)
        = .ok (c.block, e :: us) :=
      (Conditional.body?_eq_ok_iff_plain (hplain.not_startsWith _)).2 ⟨body, hplain, rfl⟩
    rw [List.cons_append, Conditional.read?_eq_map_elseClause? hi hcond hblock, map_eq_error_iff,
      Conditional.elseClause?, if_pos he, map_eq_error_iff, Conditional.alternative?,
      if_pos (startsWith_iff_head?.1 hif), map_eq_error_iff]
    exact h

end Clause.Spells

/-! ### Ladders that are too long -/

namespace Ladder

variable {limit levels : Nat} {c : Clause} {rest clauses : List Clause} {final : Option Window}
  {ts : Window}

theorem startsWith (h : Ladder clauses final ts) : StartsWith .ifWord ts := by
  cases h with
  | last hc => exact hc.startsWith
  | otherwise hc => exact hc.startsWith.append _
  | next hc => exact hc.startsWith.append _

theorem ne_nil (h : Ladder clauses final ts) : clauses ≠ [] := by
  cases h <;> simp

/-- **A ladder that is too long is refused as a whole**: in fewer levels than it has clauses, it is
not read. -/
theorem read?_eq_tooDeep (h : Ladder clauses final ts) (hlevels : levels < clauses.length) :
    Conditional.read? limit levels ts = .error (.tooDeep limit) := by
  induction h generalizing levels with
  | last =>
    obtain rfl : levels = 0 := Nat.lt_one_iff.1 hlevels
    rw [Conditional.read?]
  | otherwise =>
    obtain rfl : levels = 0 := Nat.lt_one_iff.1 hlevels
    rw [Conditional.read?]
  | next hc he hrest ih =>
    -- every clause but the last asks for a level for the one behind its `else`
    cases levels with
    | zero => rw [Conditional.read?]
    | succ levels =>
      exact hc.read?_eq_error he hrest.startsWith (ih (Nat.lt_of_succ_lt_succ hlevels))

/-! ### Going down a ladder -/

/-- The parts of a ladder: its first clause, and behind the `else` the rest of it. -/
inductive Split (rest : List Clause) (final : Option Window) : Option Alternative → Prop
  | last (hrest : rest = []) (hfinal : final = none) : Split rest final none
  | otherwise {block : Window} (hrest : rest = []) (hfinal : final = some block) :
      Split rest final (some (.block block))
  | next {us : Window} (hus : Ladder rest final us) : Split rest final (some (.elseIf us))

/-- In as many levels as it has clauses, a ladder is read as an `if` statement. -/
theorem exists_form (h : Ladder (c :: rest) final ts) (hlevels : rest.length ≤ levels) :
    ∃ a dangling, Split rest final a ∧
      Conditional.Form (Conditional.Shape levels) ⟨c.condition, c.block, a⟩ dangling ts := by
  induction rest generalizing c levels ts with
  | nil =>
    cases h with
    | last hc => exact ⟨none, true, .last rfl rfl, hc.short⟩
    | @otherwise _ _ block _ _ hc he hblock =>
      exact ⟨some (.block block), false, .otherwise rfl rfl, hc.long he (.plain (.braced hblock))⟩
    | next _ _ hrest => exact absurd rfl hrest.ne_nil
  | cons c' rest ih =>
    cases h with
    | @next _ _ _ _ _ us hc he hrest =>
      cases levels with
      | zero => exact absurd hlevels (Nat.not_succ_le_zero _)
      | succ levels =>
        -- the clauses behind the first are its alternative, one level below
        obtain ⟨a, dangling, -, hform⟩ := ih hrest (Nat.le_of_succ_le_succ hlevels)
        exact ⟨some (.elseIf us), dangling, .next hrest, hc.long he (.nested hform)⟩

theorem exists_run (h : Ladder (c :: rest) final ts) (hlevels : rest.length ≤ levels)
    (limit : Nat) : ∃ a, Split rest final a ∧ ∀ m : Machine, m.run limit (levels + 1) ts
      = Conditional.exec limit (fun ts m => m.run limit levels ts) ⟨c.condition, c.block, a⟩ m := by
  obtain ⟨a, dangling, hsplit, hform⟩ := exists_form h hlevels
  refine ⟨a, hsplit, Machine.run_of_read? ?_⟩
  exact (Conditional.read?_eq_ok_iff ts _ []).2
    ⟨dangling, ts, hform, (List.append_nil ts).symm, fun _ => not_startsWith_nil _⟩

/-- **Going down a ladder**: past conditions that are false, it is what follows them that is run, a
level further down and inside one more `else if` for each of them. -/
theorem exists_run_of_refuted {front behind : List Clause} {m m' : Machine}
    (hfront : Refuted limit front m m') (h : Ladder (front ++ behind) final ts)
    (hbehind : behind ≠ []) (hlevels : behind.length ≤ levels) :
    ∃ us, Ladder behind final us ∧ m.run limit (levels + front.length) ts
      = (m'.run limit levels us).inside (List.replicate front.length .elseIf) := by
  -- every false condition hands over to the `else if` behind it
  induction hfront generalizing ts with
  | nil => exact ⟨ts, h, by simp⟩
  | @cons c front m m₁ m₂ htest _ ih =>
    have hlength : (front ++ behind).length ≤ levels + front.length := by
      rw [List.length_append]
      omega
    obtain ⟨a, hsplit, hrun⟩ := exists_run h hlength limit
    cases hsplit with
    | last hrest => exact absurd (List.append_eq_nil_iff.1 hrest).2 hbehind
    | otherwise hrest => exact absurd (List.append_eq_nil_iff.1 hrest).2 hbehind
    | @next vs hvs =>
      obtain ⟨us, hus, heq⟩ := ih hvs
      refine ⟨us, hus, ?_⟩
      calc m.run limit (levels + (front.length + 1)) ts
          = (m₁.run limit (levels + front.length) vs).within .elseIf := by
            rw [← Nat.add_assoc, hrun m, Conditional.exec_of_false htest]
            rfl
        _ = (m₂.run limit levels us).inside (List.replicate (front.length + 1) .elseIf) := by
            rw [heq, List.replicate_succ, Outcome.inside_cons]

/-! ### Ladders under a limit -/

section

variable {front behind : List Clause} {m m' : Machine} {o : Outcome}

/-- At a clause that is reached, a ladder does what an `if` statement with that clause does, inside
one `else if` for each clause in front. -/
theorem exists_run_at (h : Ladder (front ++ c :: behind) final ts)
    (hlimit : front.length + behind.length ≤ limit) (hfront : Refuted limit front m m') :
    ∃ a, Split behind final a ∧ m.run limit (limit + 1) ts
      = (Conditional.exec limit (fun ts m => m.runAt limit (front.length + 1) ts)
          ⟨c.condition, c.block, a⟩ m').inside (List.replicate front.length .elseIf) := by
  -- as many levels are left for the clause as the limit has more than there are clauses in front
  obtain ⟨levels, hlevels⟩ : ∃ levels, limit = levels + front.length :=
    ⟨limit - front.length, by omega⟩
  have hbehind : behind.length ≤ levels := by omega
  have htop : limit + 1 = levels + 1 + front.length := by omega
  have hbelow : limit + 1 - (front.length + 1) = levels := by omega
  obtain ⟨us, hus, hdown⟩ := exists_run_of_refuted hfront h (List.cons_ne_nil c behind)
    (Nat.succ_le_succ hbehind)
  obtain ⟨a, hsplit, hrun⟩ := exists_run hus hbehind limit
  refine ⟨a, hsplit, ?_⟩
  simp only [Machine.runAt, hbelow]
  rw [htop, hdown, hrun m']

/-- If all conditions of a ladder are false, its last block is run, if it has one. -/
theorem run_of_refuted (h : Ladder clauses final ts) (hlimit : clauses.length ≤ limit + 1)
    (hall : Refuted limit clauses m m') :
    (final = none → m.run limit (limit + 1) ts = .done m') ∧
      ∀ block, final = some block → m.run limit (limit + 1) ts
        = (m'.runAt limit clauses.length block).inside
            (List.replicate (clauses.length - 1) .elseIf ++ [.otherwise]) := by
  obtain ⟨front, c, hclauses⟩ := (List.eq_nil_or_concat clauses).resolve_left h.ne_nil
  rw [List.concat_eq_append] at hclauses
  subst hclauses
  obtain ⟨m₁, hfront, htest⟩ := hall.exists_of_append_singleton
  rw [List.length_append, List.length_singleton] at hlimit ⊢
  obtain ⟨a, hsplit, hrun⟩ := exists_run_at h (Nat.le_of_succ_le_succ hlimit) hfront
  rw [Conditional.exec_of_false htest] at hrun
  -- what stands behind the last clause is what the ladder ends in
  cases hsplit with
  | last _ hnone =>
    refine ⟨fun _ => hrun, ?_⟩
    rintro block rfl
    cases hnone
  | otherwise _ hsome =>
    refine ⟨?_, ?_⟩
    · rintro rfl
      cases hsome
    · rintro block rfl
      cases hsome
      rw [hrun, Nat.add_sub_cancel, Outcome.inside_append, Outcome.inside_singleton]
      rfl
  | next hus => exact absurd rfl hus.ne_nil

/-- What a ladder should do is what it does. -/
theorem Runs.eq_run (h : Ladder clauses final ts) (hlimit : clauses.length ≤ limit + 1)
    (hruns : Ladder.Runs limit clauses final m o) : m.run limit (limit + 1) ts = o := by
  -- one case for each thing that a ladder may do
  cases hruns with
  | @invalid front behind c m₁ m₂ v hclauses hfront htest hv =>
    subst hclauses
    rw [List.length_append, List.length_cons] at hlimit
    obtain ⟨a, -, hrun⟩ := exists_run_at h (by omega) hfront
    rw [hrun, Conditional.exec_of_invalid htest hv]
  | enters hselects =>
    cases hselects with
    | clause hclauses hfront htest =>
      subst hclauses
      rw [List.length_append, List.length_cons] at hlimit
      obtain ⟨a, -, hrun⟩ := exists_run_at h (by omega) hfront
      rw [hrun, Conditional.exec_of_true htest, Outcome.inside_append, Outcome.inside_singleton]
    | final hall hfinal => exact (run_of_refuted h hlimit hall).2 _ hfinal
  | exhausted hall hfinal => exact (run_of_refuted h hlimit hall).1 hfinal

theorem inside_runAt_of_lt {depth : Nat} (hdepth : limit < depth) (branches : List Branch)
    (block : Window) (m : Machine) :
    (m.runAt limit depth block).inside branches
      = .failed m (branches.foldr .invalidBody (.tooDeep limit)) := by
  rw [Machine.runAt_of_lt hdepth]
  rfl

/-- A ladder with more `else if`s than the limit is refused. -/
theorem interpret_eq_tooDeep (h : Ladder (c :: rest) final ts) (hm : m.sink.flushes = true)
    (hlimit : limit < rest.length) : m.interpret limit ts = .failed m (.tooDeep limit) := by
  obtain ⟨i, us, rfl, hi⟩ := h.startsWith
  have hread : Statement.read limit (limit + 1) i us = .error (.tooDeep limit) := by
    simp only [Statement.read, hi]
    exact map_eq_error_iff.2 (h.read?_eq_tooDeep (Nat.succ_lt_succ hlimit))
  rw [Machine.interpret_eq_run hm, Machine.run_of_read_error hread]

/-- **What a ladder does under any limit.**  With more `else if`s than the limit it is refused as a
whole, and nothing is done.  With no more it does what `Ladder.Runs` says, and never anything else;
and a block that is selected but stands deeper than the limit is refused in its branches, in the
state that the conditions leave. -/
theorem interpret_tooDeep_or_runs {m : Machine} (h : Ladder (c :: rest) final ts)
    (hm : m.sink.flushes = true) (limit : Nat) :
    (limit < rest.length → m.interpret limit ts = .failed m (.tooDeep limit)) ∧
      (rest.length ≤ limit →
        (∀ o, Ladder.Runs limit (c :: rest) final m o ↔ m.interpret limit ts = o) ∧
        ∀ depth branches block m',
          Ladder.Selects limit (c :: rest) final m depth branches block m' → limit < depth →
          m.interpret limit ts = .failed m' (branches.foldr .invalidBody (.tooDeep limit))) := by
  refine ⟨h.interpret_eq_tooDeep hm, ?_⟩
  intro hlimit
  have heq {o : Outcome} (hruns : Ladder.Runs limit (c :: rest) final m o) :
      m.interpret limit ts = o := by
    rw [Machine.interpret_eq_run hm, hruns.eq_run h (Nat.succ_le_succ hlimit)]
  refine ⟨fun o => ⟨heq, ?_⟩, ?_⟩
  · rintro rfl
    -- a ladder does something, and that is what is run
    obtain ⟨o, hruns⟩ := Ladder.exists_runs limit (c :: rest) final m
    rwa [heq hruns]
  · intro depth branches block m' hselects hdepth
    rw [heq (.enters hselects), inside_runAt_of_lt hdepth]

/-- A ladder of two clauses is refused under the limit 0.  Under the limit 1 its second condition is
reached and binds a name, but the block of that clause is not entered. -/
theorem interpret_tooDeep_or_runs_outOfReach :
    let word (kind : Kind) : Token := ⟨kind, "x", 1⟩
    let block := [word .leftBrace, word .rightBrace]
    let spell (condition : Window) :=
      word .ifWord :: (word .leftParen :: (condition ++ [word .rightParen]) ++ block)
    let c : Clause := ⟨[word .falseWord], []⟩
    let d : Clause := ⟨[word .identifier, word .equal, word .trueWord], []⟩
    let ts := spell c.condition ++ word .elseWord :: spell d.condition
    let m := Machine.fresh .unlimited
    Ladder [c, d] none ts ∧ m.sink.flushes = true ∧ m.interpret 0 ts = .failed m (.tooDeep 0) ∧
      m.interpret 1 ts = .failed (m.assign "x" (.bool true))
        (.invalidBody .elseIf (.invalidBody .body (.tooDeep 1))) := by
  intro word block spell c d ts m
  have hblock : Encloses .leftBrace .rightBrace [] block :=
    ⟨balanced_of_forall_ne (by decide), word .leftBrace, word .rightBrace, rfl, rfl, rfl⟩
  -- both clauses are spelled alike, around their conditions
  have hspell {e : Clause} (hempty : e.block = []) (hne : e.condition ≠ [])
      (hplain : ∀ t ∈ e.condition, t.kind ≠ .leftParen ∧ t.kind ≠ .rightParen) :
      e.Spells (spell e.condition) :=
    .mk rfl ⟨balanced_of_forall_ne hplain, word .leftParen, word .rightParen, rfl, rfl, rfl⟩ hne
      (by rw [hempty]; exact hblock)
  have hladder : Ladder [c, d] none ts :=
    .next (hspell rfl (by decide) (by decide)) rfl
      (.last (hspell rfl (by decide) (by decide)))
  have hfront : Refuted 1 [c] m m := .cons (by decide +kernel) .nil
  have htest : m.test 1 d.condition = (.bool true, m.assign "x" (.bool true)) := by
    decide +kernel
  have hselects :
      Ladder.Selects 1 [c, d] none m 2 [.elseIf, .body] [] (m.assign "x" (.bool true)) :=
    .clause rfl hfront htest
  exact ⟨hladder, rfl, (interpret_tooDeep_or_runs hladder rfl 0).1 (by decide),
    ((interpret_tooDeep_or_runs hladder rfl 1).2 (by decide)).2 _ _ _ _ hselects (by decide)⟩

end

end Ladder

end Scriptlet
