import Scriptlet.Fault
import Scriptlet.Window

/-!
# The shape of `if` statements

An `if` statement is a condition in parentheses, a body, and perhaps `else` with another `if`
statement or another body.  A body is the inside of braces, another `if` statement, or all tokens
up to a semicolon.  Reading one finds where its parts lie, before anything is run; a part is a
window that is read again when it is run.  An `else` goes with the nearest `if` that has none.

Every `if` statement inside another takes one level, whether it is a body or stands behind `else`.

## Main definitions

* `Conditional` — the parts of an `if` statement.
* `Conditional.read?` — the `if` statement at the start of a window, and the rest.

## Main results

* `Conditional.behind_of_read?` — an `if` statement and the rest are the window.
-/

namespace Scriptlet

/-- What stands behind `else`. -/
inductive Alternative
  /-- The tokens of an `if` statement. -/
  | elseIf (tokens : Window)
  /-- A body of another sort. -/
  | block (tokens : Window)
  deriving DecidableEq, Repr

namespace Alternative

/-- The tokens to be run. -/
def tokens : Alternative → Window
  | elseIf tokens => tokens
  | block tokens => tokens

/-- The branch that it is. -/
def branch : Alternative → Branch
  | elseIf _ => .elseIf
  | block _ => .otherwise

end Alternative

/-- The parts of an `if` statement. -/
structure Conditional where
  /-- The tokens between the parentheses. -/
  condition : Window
  /-- The tokens to be run if the condition is true. -/
  body : Window
  /-- What stands behind `else`, if there is one. -/
  alternative : Option Alternative
  deriving DecidableEq, Repr

namespace Conditional

/-- The body at the start of a window, and the tokens behind it.  The function `nested` reads an
`if` statement, and `missing` is what is wrong if there is no body. -/
def body? (nested : Window → Except Fault (Conditional × Window)) (missing : Malformation)
    (ts : Window) : Except Fault (Window × Window) :=
  match ts with
  | [] => .error (.malformedIf missing)
  | t :: _ =>
    match t.kind with
    | .rightBrace | .elseWord => .error (.malformedIf missing)
    | .leftBrace =>
      match Window.delimited? .leftBrace .rightBrace ts with
      | none => .error (.malformedIf .unbalancedBraces)
      | some p => .ok p
    | .ifWord => (nested ts).map fun p => (ts.consumed p.2, p.2)
    | _ =>
      match Window.untilSemicolon? ts with
      | none => .error (.malformedIf .unterminatedBody)
      | some p => .ok (ts.consumed p.2, p.2)

/-- What stands behind an `else`, and the tokens behind that. -/
def alternative? (nested : Window → Except Fault (Conditional × Window)) (ts : Window) :
    Except Fault (Alternative × Window) :=
  if ts.head?.any (·.kind = .ifWord) then
    (nested ts).map fun p => (.elseIf (ts.consumed p.2), p.2)
  else (body? nested .missingElseBody ts).map fun p => (.block p.1, p.2)

/-- An `else` at the start of a window with what stands behind it, and the tokens behind that. -/
def elseClause? (nested : Window → Except Fault (Conditional × Window)) (ts : Window) :
    Except Fault (Option Alternative × Window) :=
  match ts with
  | [] => .ok (none, [])
  | t :: rest =>
    if t.kind = .elseWord then (alternative? nested rest).map fun p => (some p.1, p.2)
    else .ok (none, ts)

/-- The condition at the start of a window, and the tokens behind it. -/
def condition? (ts : Window) : Except Fault (Window × Window) :=
  match Window.delimited? .leftParen .rightParen ts with
  | none => .error (.malformedIf .noCondition)
  | some ([], _) => .error (.malformedIf .emptyCondition)
  | some p => .ok p

/-- The `if` statement at the start of a window in so many levels, and the tokens behind it. -/
def read? (limit : Nat) : Nat → Window → Except Fault (Conditional × Window)
  | 0, _ => .error (.tooDeep limit)
  | _ + 1, [] => .error (.malformedIf .noIf)
  | levels + 1, t :: ts =>
    if t.kind = .ifWord then do
      let (condition, ts) ← condition? ts
      let (body, ts) ← body? (read? limit levels) .missingBody ts
      let (alternative, ts) ← elseClause? (read? limit levels) ts
      return (⟨condition, body, alternative⟩, ts)
    else .error (.malformedIf .noIf)

theorem behind_of_condition? {ts condition rest : Window}
    (h : condition? ts = .ok (condition, rest)) : Window.Behind rest ts := by
  unfold condition? at h
  split at h
  · simp at h
  · simp at h
  · rename_i p _ hp
    simp only [Except.ok.injEq] at h
    subst h
    exact Window.behind_of_delimited? hp

section

variable {nested : Window → Except Fault (Conditional × Window)}

theorem behind_of_body? (hnested : ∀ {ts c rest}, nested ts = .ok (c, rest) → Window.Behind rest ts)
    {missing : Malformation} {ts body rest : Window}
    (h : body? nested missing ts = .ok (body, rest)) : Window.Behind rest ts := by
  unfold body? at h
  split at h
  · simp at h
  · split at h
    · simp at h
    · simp at h
    · split at h
      · simp at h
      · rename_i p hp
        simp only [Except.ok.injEq] at h
        subst h
        exact Window.behind_of_delimited? hp
    · obtain ⟨⟨c, r⟩, hn, heq⟩ := map_eq_ok_iff.1 h
      simp only [Prod.mk.injEq] at heq
      obtain ⟨-, rfl⟩ := heq
      exact hnested hn
    · split at h
      · simp at h
      · rename_i p hp
        simp only [Except.ok.injEq, Prod.mk.injEq] at h
        obtain ⟨-, rfl⟩ := h
        exact Window.behind_of_untilSemicolon? hp

theorem behind_of_alternative?
    (hnested : ∀ {ts c rest}, nested ts = .ok (c, rest) → Window.Behind rest ts)
    {ts rest : Window} {a : Alternative} (h : alternative? nested ts = .ok (a, rest)) :
    Window.Behind rest ts := by
  unfold alternative? at h
  split at h
  · obtain ⟨⟨c, r⟩, hn, heq⟩ := map_eq_ok_iff.1 h
    simp only [Prod.mk.injEq] at heq
    obtain ⟨-, rfl⟩ := heq
    exact hnested hn
  · obtain ⟨⟨body, r⟩, hb, heq⟩ := map_eq_ok_iff.1 h
    simp only [Prod.mk.injEq] at heq
    obtain ⟨-, rfl⟩ := heq
    exact behind_of_body? hnested hb

theorem suffix_of_elseClause?
    (hnested : ∀ {ts c rest}, nested ts = .ok (c, rest) → Window.Behind rest ts)
    {ts rest : Window} {a : Option Alternative} (h : elseClause? nested ts = .ok (a, rest)) :
    rest <:+ ts := by
  unfold elseClause? at h
  split at h
  · simp only [Except.ok.injEq, Prod.mk.injEq] at h
    obtain ⟨-, rfl⟩ := h
    exact List.suffix_refl _
  · split at h
    · obtain ⟨⟨a', r⟩, ha, heq⟩ := map_eq_ok_iff.1 h
      simp only [Prod.mk.injEq] at heq
      obtain ⟨-, rfl⟩ := heq
      exact (behind_of_alternative? hnested ha).suffix.trans (List.suffix_cons _ _)
    · simp only [Except.ok.injEq, Prod.mk.injEq] at h
      obtain ⟨-, rfl⟩ := h
      exact List.suffix_refl _

end

/-- An `if` statement is a front of the window, of at least one token. -/
theorem behind_of_read? {limit levels : Nat} {ts rest : Window} {c : Conditional}
    (h : read? limit levels ts = .ok (c, rest)) : Window.Behind rest ts := by
  induction levels generalizing ts c rest with
  | zero => simp [read?] at h
  | succ levels ih =>
    cases ts with
    | nil => simp [read?] at h
    | cons t ts =>
      rw [read?] at h
      split at h
      · obtain ⟨⟨condition, r₁⟩, hc, h⟩ := bind_eq_ok_iff.1 h
        obtain ⟨⟨body, r₂⟩, hb, h⟩ := bind_eq_ok_iff.1 h
        obtain ⟨⟨alternative, r₃⟩, he, h⟩ := bind_eq_ok_iff.1 h
        simp only [pure, Except.pure, Except.ok.injEq, Prod.mk.injEq] at h
        obtain ⟨-, rfl⟩ := h
        have h₁ := (behind_of_condition? hc).suffix
        have h₂ := (behind_of_body? ih hb).suffix
        have h₃ := suffix_of_elseClause? ih he
        exact ⟨t, ts, rfl, h₃.trans (h₂.trans h₁)⟩
      · simp at h

end Conditional

end Scriptlet
