import Scriptlet.Proofs.Conditional.Levels
import Scriptlet.Proofs.Statement.Part
import Scriptlet.Proofs.Window.Relabel

/-!
# Statements of relabelled windows

Statements are read by kinds.  So the script of a relabelled window is the relabelled script: it has
the same statements with relabelled windows, and it is malformed in the same place and for the same
reason.  Only a name can be seen in what is wrong, where no equals sign follows it.

## Main definitions

* `Conditional.map`, `Statement.map`, `Script.map` — statements with relabelled windows and names.
* `Fault.rename` — a fault with the name in it changed.

## Main results

* `Conditional.read?_map`, `Statement.read_map`, `Script.ofWindow_map` — **what is read in a
  relabelled window.**
* `Script.groupless_of_mem` — what a script of a groupless window hands on is groupless.
-/

namespace Scriptlet

open Window

/-! ### Faults -/

namespace Fault

/-- The fault with the name in it changed, if there is one. -/
def rename (r : String → String) : Fault → Fault
  | missingEqual construct name => missingEqual construct (r name)
  | invalidBody branch cause => invalidBody branch (cause.rename r)
  | fault => fault

theorem branches_rename (r : String → String) (f : Fault) : (f.rename r).branches = f.branches := by
  induction f with
  | invalidBody branch cause ih => rw [rename, branches, branches, ih]
  | _ => rfl

theorem cause_rename (r : String → String) (f : Fault) : (f.rename r).cause = f.cause.rename r := by
  induction f with
  | invalidBody branch cause ih => rw [rename, Fault.cause, Fault.cause, ih]
  | _ => rfl

@[simp] theorem rename_id (f : Fault) : f.rename id = f := by
  induction f with
  | invalidBody branch cause ih => rw [rename, ih]
  | _ => rfl

end Fault

/-! ### `if` statements -/

/-- What stands behind `else`, relabelled. -/
def Alternative.map (f : Token → Token) : Alternative → Alternative
  | elseIf tokens => elseIf (tokens.map f)
  | block tokens => block (tokens.map f)

@[simp] theorem Alternative.tokens_map (f : Token → Token) (a : Alternative) :
    (a.map f).tokens = a.tokens.map f := by
  cases a <;> rfl

@[simp] theorem Alternative.branch_map (f : Token → Token) (a : Alternative) :
    (a.map f).branch = a.branch := by
  cases a <;> rfl

namespace Conditional

/-- An `if` statement with all its windows relabelled. -/
def map (f : Token → Token) (c : Conditional) : Conditional :=
  ⟨c.condition.map f, c.body.map f, c.alternative.map (Alternative.map f)⟩

section

variable {nested : Window → Except Fault (Conditional × Window)} {f : Token → Token}

theorem consumed_nested_map
    (hnested : ∀ ts, nested (ts.map f) = (nested ts).map (Prod.map (map f) (List.map f)))
    (ts : Window) :
    (nested (ts.map f)).map (fun p => (consumed (ts.map f) p.2, p.2))
      = ((nested ts).map fun p => (consumed ts p.2, p.2)).map
          (Prod.map (List.map f) (List.map f)) := by
  rw [hnested]
  cases nested ts with
  | error e => rfl
  | ok p => simp only [Except.map, Prod.map, consumed_map]

variable (hf : ∀ t, (f t).kind = t.kind)

include hf

theorem condition?_map (ts : Window) :
    condition? (ts.map f) = (condition? ts).map (Prod.map (List.map f) (List.map f)) := by
  unfold condition?
  rw [delimited?_map hf]
  cases delimited? .leftParen .rightParen ts with
  | none => rfl
  | some p =>
    obtain ⟨condition, rest⟩ := p
    cases condition with
    | nil => rfl
    | cons t us => rfl

variable
  (hnested : ∀ ts, nested (ts.map f) = (nested ts).map (Prod.map (map f) (List.map f)))

include hnested

theorem body?_map (missing : Malformation) (ts : Window) :
    body? nested missing (ts.map f)
      = (body? nested missing ts).map (Prod.map (List.map f) (List.map f)) := by
  cases ts with
  | nil => rfl
  | cons t us =>
    unfold body?
    rw [List.map_cons]
    dsimp only
    rw [hf t, ← List.map_cons]
    split
    · rfl
    · rfl
    · rw [delimited?_map hf]
      cases delimited? .leftBrace .rightBrace (t :: us) with
      | none => rfl
      | some p => rfl
    · exact consumed_nested_map hnested (t :: us)
    · rw [untilSemicolon?_map hf]
      cases untilSemicolon? (t :: us) with
      | none => rfl
      | some p => simp only [Option.map_some, Except.map, Prod.map, consumed_map]

theorem alternative?_map (ts : Window) :
    alternative? nested (ts.map f)
      = (alternative? nested ts).map (Prod.map (Alternative.map f) (List.map f)) := by
  have hif : ((ts.map f).head?.any fun t => t.kind = .ifWord)
      = ts.head?.any fun t => t.kind = .ifWord := by
    cases ts with
    | nil => rfl
    | cons t us => simp only [List.map_cons, List.head?_cons, Option.any_some, hf]
  unfold alternative?
  rw [hif]
  split
  · rw [hnested]
    cases nested ts with
    | error e => rfl
    | ok p => simp only [Except.map, Prod.map, consumed_map, Alternative.map]
  · rw [body?_map hf hnested]
    cases body? nested .missingElseBody ts with
    | error e => rfl
    | ok p => rfl

theorem elseClause?_map (ts : Window) :
    elseClause? nested (ts.map f)
      = (elseClause? nested ts).map (Prod.map (Option.map (Alternative.map f)) (List.map f)) := by
  cases ts with
  | nil => rfl
  | cons e us =>
    rw [List.map_cons, elseClause?, elseClause?, hf e]
    split
    · rw [alternative?_map hf hnested]
      cases alternative? nested us with
      | error e => rfl
      | ok p => rfl
    · rfl

end

/-- **The `if` statement of a relabelled window** is the relabelled one, and so is the rest.  What
is wrong with its shape is the same, for nothing else is seen of the tokens than their kinds. -/
theorem read?_map {f : Token → Token} (hf : ∀ t, (f t).kind = t.kind) (limit levels : Nat)
    (ts : Window) :
    read? limit levels (ts.map f)
      = (read? limit levels ts).map (Prod.map (map f) (List.map f)) := by
  induction levels generalizing ts with
  | zero => rfl
  | succ levels ih =>
    cases ts with
    | nil => rfl
    | cons t us =>
      rw [List.map_cons, read?, read?, hf t]
      split
      · rw [condition?_map hf]
        cases condition? us with
        | error e => rfl
        | ok p =>
          obtain ⟨condition, r₁⟩ := p
          -- One part after the other: each starts on what the one before it has left.
          simp only [Except.map, Prod.map, bind, Except.bind, body?_map hf ih]
          cases body? (read? limit levels) .missingBody r₁ with
          | error e => rfl
          | ok q =>
            obtain ⟨body, r₂⟩ := q
            simp only [Except.map, Prod.map, elseClause?_map hf ih]
            cases elseClause? (read? limit levels) r₂ with
            | error e => rfl
            | ok q => rfl
      · rfl

/-- What is wrong with the shape of an `if` statement names nothing. -/
theorem rename_of_read?_error {limit levels : Nat} {ts : Window} {e : Fault}
    (h : read? limit levels ts = .error e) (r : String → String) : e.rename r = e := by
  induction levels generalizing ts with
  | zero =>
    cases h
    rfl
  | succ levels ih =>
    cases ts with
    | nil =>
      cases h
      rfl
    | cons t us =>
      rcases read?_error_cases h with ⟨reason, rfl⟩ | ⟨vs, -, -, hnested⟩
      · rfl
      · exact ih hnested

end Conditional

/-! ### Statements -/

namespace Statement

/-- A statement with its windows relabelled, and the name that it binds changed. -/
def map (f : Token → Token) (r : String → String) : Statement → Statement
  | assign name body => assign (r name) (body.map f)
  | print body => print (body.map f)
  | conditional c => conditional (c.map f)
  | idle t => idle (f t)

section

variable {f : Token → Token} {r : String → String}

theorem expression_map (hf : ∀ t, (f t).kind = t.kind) (construct : Construct) (ts : Window) :
    expression construct (ts.map f)
      = ((expression construct ts).map (Prod.map (List.map f) (List.map f))).mapError
          (Fault.rename r) := by
  unfold expression
  rw [untilSemicolon?_map hf]
  cases untilSemicolon? ts with
  | none => rfl
  | some p =>
    obtain ⟨body, rest⟩ := p
    cases body with
    | nil => rfl
    | cons t us => rfl

theorem assignment_map (hf : ∀ t, (f t).kind = t.kind) (construct : Construct) (name : String)
    (ts : Window) :
    assignment construct (r name) (ts.map f)
      = ((assignment construct name ts).map (Prod.map (map f r) (List.map f))).mapError
          (Fault.rename r) := by
  cases ts with
  | nil => rfl
  | cons e us =>
    rw [List.map_cons, assignment, assignment, hf e]
    split
    · rw [expression_map (r := r) hf]
      cases expression construct us with
      | error e => rfl
      | ok p => rfl
    · rfl

theorem declaration_map (hf : Token.Relabels f r) (ts : Window) :
    declaration (ts.map f)
      = ((declaration ts).map (Prod.map (map f r) (List.map f))).mapError (Fault.rename r) := by
  match ts with
  | [] => rfl
  | [_] => rfl
  | [_, _] => rfl
  | x :: u :: v :: rest =>
    rw [List.map_cons, List.map_cons, List.map_cons, declaration, declaration, hf.kind x]
    split
    · rename_i hx
      rw [hf.name x hx]
      exact assignment_map hf.kind .declaration x.lexeme (u :: v :: rest)
    · rename_i hx
      -- what stands in the place of a name has kept its text
      rw [hf.other x hx]
      rfl

theorem printing_map (hf : ∀ t, (f t).kind = t.kind) (ts : Window) :
    printing (ts.map f)
      = ((printing ts).map (Prod.map (map f r) (List.map f))).mapError (Fault.rename r) := by
  cases ts with
  | nil => rfl
  | cons t us =>
    unfold printing
    rw [List.map_cons]
    dsimp only
    rw [← List.map_cons, expression_map (r := r) hf]
    cases expression .print (t :: us) with
    | error e => rfl
    | ok p => rfl

/-- **The statement of a relabelled window** is the relabelled one.  What is wrong with it is the
same, but for the name. -/
theorem read_map (hf : Token.Relabels f r) (limit levels : Nat) (t : Token) (ts : Window) :
    read limit levels (f t) (ts.map f)
      = ((read limit levels t ts).map (Prod.map (map f r) (List.map f))).mapError
          (Fault.rename r) := by
  unfold read
  rw [hf.kind t]
  split
  · exact declaration_map hf ts
  · rename_i ht
    rw [hf.name t ht]
    exact assignment_map hf.kind .reassignment t.lexeme ts
  · exact printing_map hf.kind ts
  · rw [← List.map_cons, Conditional.read?_map hf.kind]
    cases hread : Conditional.read? limit levels (t :: ts) with
    | error e =>
      -- The faults of an `if` that cannot be read carry no name.
      have he : e.rename r = e := Conditional.rename_of_read?_error hread r
      simp only [Except.map, Except.mapError, he]
    | ok p => rfl
  · rfl

end

end Statement

/-! ### Scripts -/

namespace Script

/-- A script with its statements relabelled, and the name in what is wrong behind them changed. -/
def map (f : Token → Token) (r : String → String) (s : Script) : Script :=
  ⟨s.statements.map (Statement.map f r), s.fault.map (Fault.rename r)⟩

/-- **The script of a relabelled window** is the relabelled script. -/
theorem ofWindow_map {f : Token → Token} {r : String → String} (hf : Token.Relabels f r)
    (limit levels : Nat) (ts : Window) :
    ofWindow limit levels (ts.map f) = (ofWindow limit levels ts).map f r := by
  fun_induction ofWindow limit levels ts with
  | case1 =>
    rw [List.map_nil, ofWindow_nil]
    rfl
  | case2 t ts e hread =>
    have hmap : Statement.read limit levels (f t) (ts.map f) = .error (e.rename r) := by
      rw [Statement.read_map hf, hread]
      rfl
    rw [List.map_cons, ofWindow_of_error hmap]
    rfl
  | case3 t ts s rest hread hle tail ih =>
    have hmap : Statement.read limit levels (f t) (ts.map f) = .ok (s.map f r, rest.map f) := by
      rw [Statement.read_map hf, hread]
      rfl
    rw [List.map_cons, ofWindow_of_ok hmap, ih]
    rfl

end Script

/-! ### Groupless windows -/

namespace Conditional

/-- What a body hands on is groupless where the body is. -/
theorem PlainBody.groupless {inner ts : Window} (h : PlainBody inner ts) (hts : Groupless ts) :
    Groupless inner := by
  cases h with
  | braced h =>
    obtain ⟨-, s, t, hs, -, rfl⟩ := h
    have hopen : s.kind ≠ .ifWord := by
      rw [hs]
      decide
    exact (hts.tail hopen).front
  | simple => exact hts

section

variable {nested : Conditional → Bool → Window → Prop} {dangling : Bool} {ts : Window}

theorem Body.groupless {body : Window} (h : Body nested body dangling ts) (hts : Groupless ts) :
    Groupless body := by
  cases h with
  | plain h => exact h.groupless hts
  | nested => exact hts

theorem Otherwise.groupless {a : Alternative} (h : Otherwise nested a dangling ts)
    (hts : Groupless ts) : Groupless a.tokens := by
  cases h with
  | plain h => exact h.groupless hts
  | nested => exact hts

end

/-- The condition stands behind a parenthesis, and each body behind a parenthesis or an `else`. -/
theorem Shape.groupless {levels : Nat} {c : Conditional} {dangling : Bool} {ts : Window}
    (h : Shape levels c dangling ts) (hts : Groupless ts) : c.Within Groupless := by
  -- the head of an `if` statement with whatever stands behind it
  have split {i : Token} {condition head us : Window} (hts : Groupless (i :: (head ++ us)))
      (hhead : Encloses .leftParen .rightParen condition head) :
      Groupless condition ∧ Groupless us := by
    obtain ⟨-, s, t, hs, ht, rfl⟩ := hhead
    have hopen : s.kind ≠ .ifWord := by
      rw [hs]
      decide
    have hclose : t.kind ≠ .ifWord := by
      rw [ht]
      decide
    constructor
    · have hts : Groupless ([i] ++ s :: (condition ++ t :: us)) := by simpa using hts
      exact (hts.behind hopen).front
    · have hts : Groupless ((i :: s :: condition) ++ t :: us) := by simpa using hts
      exact hts.behind hclose
  cases levels with
  | zero => exact absurd h (shape_zero c dangling ts)
  | succ levels =>
    cases h with
    | short hi hhead hne hbody =>
      obtain ⟨hcondition, hus⟩ := split hts hhead
      exact ⟨hcondition, hbody.groupless hus, fun a ha => by cases ha⟩
    | @long i e condition head body us vs alternative d hi hhead hne hbody he halternative =>
      obtain ⟨hcondition, hus⟩ := split hts hhead
      have helse : e.kind ≠ .ifWord := by
        rw [he]
        decide
      refine ⟨hcondition, hbody.groupless hus.front, fun a ha => ?_⟩
      obtain rfl := Option.some.inj ha
      exact halternative.groupless (hus.behind helse)

end Conditional

/-- A statement hands on groupless windows if its neighbouring tokens are right: it does not begin
with a parenthesis, unless it hands on nothing. -/
theorem Statement.Form.groupless {levels : Nat} {s : Statement} {dangling : Bool} {ts : Window}
    (h : s.Form levels dangling ts) (hts : ts.IsChain OpensBehindIf) : s.Within Groupless := by
  have hname {x : Token} (hx : x.kind = .identifier) : Groupless [x] :=
    groupless_cons (by rw [hx]; decide) (.singleton x)
  -- an expression stands behind an equals sign or `print`
  have hexpression {front body : Window} {e semicolon : Token}
      (hts : Groupless (front ++ e :: (body ++ [semicolon])))
      (he : e.kind = .equal ∨ e.kind = .printWord) : Groupless body := by
    have hif : e.kind ≠ .ifWord := by
      rcases he with he | he <;> rw [he] <;> decide
    exact (hts.behind hif).front
  cases h with
  | @declare v x e semicolon body hv hx he hbody hsemi =>
    have hts : Groupless ([v, x] ++ e :: (body ++ [semicolon])) :=
      groupless_cons (by rw [hv]; decide) hts
    exact ⟨⟨x, hx, rfl, hname hx⟩, hexpression hts (.inl he)⟩
  | @assign x e semicolon body hx he hbody hsemi =>
    have hts : Groupless ([x] ++ e :: (body ++ [semicolon])) :=
      groupless_cons (by rw [hx]; decide) hts
    exact ⟨⟨x, hx, rfl, hname hx⟩, hexpression hts (.inl he)⟩
  | @print p semicolon body hp hbody hsemi =>
    have hts : Groupless ([] ++ p :: (body ++ [semicolon])) :=
      groupless_cons (by rw [hp]; decide) hts
    exact hexpression hts (.inr hp)
  | conditional hshape =>
    obtain ⟨i, us, rfl, hi⟩ := hshape.startsWith
    exact hshape.groupless (groupless_cons (by rw [hi]; decide) hts)
  | idle => trivial

/-- Two properties of the windows of a statement, of which the second one holds of all names. -/
theorem Statement.Within.and {P Q : Window → Prop} {s : Statement} (h : s.Within P)
    (h' : s.Within Q) (hname : ∀ t : Token, t.kind = .identifier → Q [t]) :
    s.Within fun w => P w ∧ Q w := by
  cases s with
  | assign name body =>
    obtain ⟨⟨t, ht, heq, hP⟩, hbody⟩ := h
    exact ⟨⟨t, ht, heq, hP, hname t ht⟩, hbody, h'.2⟩
  | print body => exact ⟨h, h'⟩
  | conditional c =>
    obtain ⟨hcondition, hbody, halternative⟩ := h
    obtain ⟨hcondition', hbody', halternative'⟩ := h'
    exact ⟨⟨hcondition, hcondition'⟩, ⟨hbody, hbody'⟩,
      fun a ha => ⟨halternative a ha, halternative' a ha⟩⟩
  | idle t => trivial

/-- **What a script hands on is groupless**, if its window is. -/
theorem Script.groupless_of_mem {limit levels : Nat} {ts : Window} (hts : Groupless ts)
    {s : Statement} (h : s ∈ (ofWindow limit levels ts).statements) : s.Within Groupless := by
  obtain ⟨dangling, front, hform, hfront⟩ := exists_form_of_mem h
  exact hform.groupless (OpensBehindIf.chain_of_isInfix hts.next hfront)

end Scriptlet
