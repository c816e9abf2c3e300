import Scriptlet.Statement.Conditional

/-!
# Statements and scripts

A window is run as a script: statement after statement from its start.  The first token of a
statement says what it is: `var` a declaration, an identifier an assignment, `print` a print, `if`
a conditional; any other token is passed over.  Reading a statement looks at tokens only, so the
statements of a window, up to the first one that is malformed, are known before any is run.

## Main definitions

* `Statement` — a statement that is ready to be run.
* `Statement.read` — the statement at the start of a window, and the rest.
* `Script`, `Script.ofWindow` — the statements of a window, and what is wrong behind them.

## Main results

* `Statement.suffix_of_read` — a statement and the rest are the window.
-/

namespace Scriptlet

/-- A statement that is ready to be run. -/
inductive Statement
  /-- Binds a name to the value of an expression: a declaration or an assignment. -/
  | assign (name : String) (body : Window)
  /-- Prints the value of an expression. -/
  | print (body : Window)
  /-- Runs one of several windows. -/
  | conditional (c : Conditional)
  /-- A token that begins no statement. -/
  | idle (t : Token)
  deriving DecidableEq, Repr

namespace Statement

/-- The expression in front of the first semicolon, and the tokens behind that. -/
def expression (construct : Construct) (ts : Window) : Except Fault (Window × Window) :=
  match Window.untilSemicolon? ts with
  | none => .error (.missingSemicolon construct)
  | some ([], _) => .error (.emptyExpression construct)
  | some p => .ok p

/-- What follows the name in a declaration or an assignment. -/
def assignment (construct : Construct) (name : String) (ts : Window) :
    Except Fault (Statement × Window) :=
  match ts with
  | [] => .error (.missingEqual construct name)
  | t :: ts =>
    if t.kind = .equal then (expression construct ts).map fun p => (.assign name p.1, p.2)
    else .error (.missingEqual construct name)

/-- What follows `var`.  The shortest declaration has four tokens. -/
def declaration (ts : Window) : Except Fault (Statement × Window) :=
  match ts with
  | t :: u :: v :: rest =>
    if t.kind = .identifier then assignment .declaration t.lexeme (u :: v :: rest)
    else .error (.missingIdentifier t.lexeme)
  | _ => .error .incompleteDeclaration

/-- What follows `print`. -/
def printing (ts : Window) : Except Fault (Statement × Window) :=
  match ts with
  | [] => .error .incompletePrint
  | _ => (expression .print ts).map fun p => (.print p.1, p.2)

/-- The statement that begins with the token `t`, and the tokens behind it. -/
def read (limit levels : Nat) (t : Token) (ts : Window) : Except Fault (Statement × Window) :=
  match t.kind with
  | .varWord => declaration ts
  | .identifier => assignment .reassignment t.lexeme ts
  | .printWord => printing ts
  | .ifWord => (Conditional.read? limit levels (t :: ts)).map fun p => (.conditional p.1, p.2)
  | _ => .ok (.idle t, ts)

theorem behind_of_expression {construct : Construct} {ts body rest : Window}
    (h : expression construct ts = .ok (body, rest)) : Window.Behind rest ts := by
  unfold expression at h
  split at h
  · simp at h
  · simp at h
  · rename_i p _ hp
    simp only [Except.ok.injEq] at h
    subst h
    exact Window.behind_of_untilSemicolon? hp

theorem behind_of_assignment {construct : Construct} {name : String} {ts rest : Window}
    {s : Statement} (h : assignment construct name ts = .ok (s, rest)) :
    Window.Behind rest ts := by
  unfold assignment at h
  split at h
  · simp at h
  · split at h
    · obtain ⟨⟨body, r⟩, he, heq⟩ := map_eq_ok_iff.1 h
      simp only [Prod.mk.injEq] at heq
      obtain ⟨-, rfl⟩ := heq
      exact ⟨_, _, rfl, (behind_of_expression he).suffix⟩
    · simp at h

/-- A statement is a front of the window, of at least its first token. -/
theorem suffix_of_read {limit levels : Nat} {t : Token} {ts rest : Window} {s : Statement}
    (h : read limit levels t ts = .ok (s, rest)) : rest <:+ ts := by
  unfold read at h
  split at h
  · unfold declaration at h
    split at h
    · split at h
      · exact (behind_of_assignment h).suffix.trans (List.suffix_cons _ _)
      · simp at h
    · simp at h
  · exact (behind_of_assignment h).suffix
  · unfold printing at h
    split at h
    · simp at h
    · obtain ⟨⟨body, r⟩, he, heq⟩ := map_eq_ok_iff.1 h
      simp only [Prod.mk.injEq] at heq
      obtain ⟨-, rfl⟩ := heq
      exact (behind_of_expression he).suffix
  · obtain ⟨⟨c, r⟩, hc, heq⟩ := map_eq_ok_iff.1 h
    simp only [Prod.mk.injEq] at heq
    obtain ⟨-, rfl⟩ := heq
    obtain ⟨t', us, heq, hs⟩ := Conditional.behind_of_read? hc
    simp only [List.cons.injEq] at heq
    exact heq.2 ▸ hs
  · simp only [Except.ok.injEq, Prod.mk.injEq] at h
    obtain ⟨-, rfl⟩ := h
    exact List.suffix_refl _

end Statement

/-- The statements of a window in front of the first one that is malformed, and what is wrong with
that one. -/
structure Script where
  /-- The statements that can be run. -/
  statements : List Statement
  /-- What is wrong behind them, if they are not all. -/
  fault : Option Fault
  deriving DecidableEq

/-- The script of a window whose `if` statements may take so many levels. -/
def Script.ofWindow (limit levels : Nat) (ts : Window) : Script :=
  match ts with
  | [] => ⟨[], none⟩
  | t :: ts =>
    match h : Statement.read limit levels t ts with
    | .error f => ⟨[], some f⟩
    | .ok (s, rest) =>
      have : rest.length ≤ ts.length := (Statement.suffix_of_read h).length_le
      let tail := ofWindow limit levels rest
      ⟨s :: tail.statements, tail.fault⟩
termination_by ts.length

end Scriptlet
