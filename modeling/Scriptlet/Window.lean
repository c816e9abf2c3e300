import Scriptlet.Token

/-!
# Token windows

A window is a run of tokens that is looked at on its own: a whole program, the body of a
statement, the inside of a pair of delimiters.  The two ways of cutting a window are at the first
semicolon and at the delimiter that closes its first token.

## Main definitions

* `Window` — a run of tokens.
* `Window.untilSemicolon?` — the tokens in front of the first semicolon, and those behind it.
* `Window.delimited?` — the tokens between a delimiter and its match, and those behind it.
* `Window.closing?` — where the match of the first delimiter stands.
* `Window.consumed` — the tokens in front of a rest of a window.
* `Window.Behind` — being a rest of a window behind at least one token.

## Main results

* `Window.untilSemicolon?_eq_some`, `Window.delimited?_eq_some` — what the cuts leave together is
  the window they were made in.
-/

namespace Scriptlet

/-- A run of tokens that is looked at on its own. -/
abbrev Window := List Token

namespace Window

/-- The tokens in front of the first semicolon and those behind it; the semicolon is in neither. -/
def untilSemicolon? : Window → Option (Window × Window)
  | [] => none
  | t :: ts =>
    if t.kind = .semicolon then some ([], ts)
    else (untilSemicolon? ts).map fun p => (t :: p.1, p.2)

/-- The tokens in front of the one that closes the innermost of `pending + 1` open delimiters
down to the outermost, and those behind it. -/
def toClosing? (opening closing : Kind) (pending : Nat) : Window → Option (Window × Window)
  | [] => none
  | t :: ts =>
    if t.kind = opening then
      (toClosing? opening closing (pending + 1) ts).map fun p => (t :: p.1, p.2)
    else if t.kind = closing then
      match pending with
      | 0 => some ([], ts)
      | n + 1 => (toClosing? opening closing n ts).map fun p => (t :: p.1, p.2)
    else (toClosing? opening closing pending ts).map fun p => (t :: p.1, p.2)

/-- The tokens between an opening delimiter, which must come first, and the closing one that
matches it, and the tokens behind that. -/
def delimited? (opening closing : Kind) : Window → Option (Window × Window)
  | [] => none
  | t :: ts => if t.kind = opening then toClosing? opening closing 0 ts else none

/-- The position of the delimiter that matches the opening one in front. -/
def closing? (opening closing : Kind) (ts : Window) : Option Nat :=
  (delimited? opening closing ts).map fun p => p.1.length + 1

/-- The tokens of a window in front of the given rest of it. -/
def consumed (ts rest : Window) : Window := ts.take (ts.length - rest.length)

@[simp] theorem consumed_append (front rest : Window) : consumed (front ++ rest) rest = front := by
  simp [consumed]

theorem untilSemicolon?_eq_some {ts front rest : Window}
    (h : untilSemicolon? ts = some (front, rest)) :
    ∃ t, t.kind = .semicolon ∧ ts = front ++ t :: rest := by
  induction ts generalizing front with
  | nil => simp [untilSemicolon?] at h
  | cons t ts ih =>
    rw [untilSemicolon?] at h
    split at h
    · rename_i ht
      simp only [Option.some.injEq, Prod.mk.injEq] at h
      obtain ⟨rfl, rfl⟩ := h
      exact ⟨t, ht, rfl⟩
    · obtain ⟨⟨front', rest'⟩, h', heq⟩ := Option.map_eq_some_iff.1 h
      simp only [Prod.mk.injEq] at heq
      obtain ⟨rfl, rfl⟩ := heq
      obtain ⟨s, hs, rfl⟩ := ih h'
      exact ⟨s, hs, rfl⟩

theorem toClosing?_eq_some {opening closing : Kind} {pending : Nat} {ts inner rest : Window}
    (h : toClosing? opening closing pending ts = some (inner, rest)) :
    ∃ t, t.kind = closing ∧ ts = inner ++ t :: rest := by
  induction ts generalizing pending inner with
  | nil => simp [toClosing?] at h
  | cons t ts ih =>
    -- every branch but the last closing delimiter passes the token on to the inside
    have step {n : Nat} (h : (toClosing? opening closing n ts).map (fun p => (t :: p.1, p.2))
        = some (inner, rest)) : ∃ s, s.kind = closing ∧ t :: ts = inner ++ s :: rest := by
      obtain ⟨⟨inner', rest'⟩, h', heq⟩ := Option.map_eq_some_iff.1 h
      simp only [Prod.mk.injEq] at heq
      obtain ⟨rfl, rfl⟩ := heq
      obtain ⟨s, hs, rfl⟩ := ih h'
      exact ⟨s, hs, rfl⟩
    rw [toClosing?.eq_def] at h
    dsimp only at h
    split at h
    · exact step h
    · split at h
      · rename_i hclose
        split at h
        · simp only [Option.some.injEq, Prod.mk.injEq] at h
          obtain ⟨rfl, rfl⟩ := h
          exact ⟨t, hclose, rfl⟩
        · exact step h
      · exact step h

theorem delimited?_eq_some {opening closing : Kind} {ts inner rest : Window}
    (h : delimited? opening closing ts = some (inner, rest)) :
    ∃ s t, s.kind = opening ∧ t.kind = closing ∧ ts = s :: (inner ++ t :: rest) := by
  cases ts with
  | nil => simp [delimited?] at h
  | cons s ts =>
    rw [delimited?] at h
    split at h
    · rename_i hs
      obtain ⟨t, ht, rfl⟩ := toClosing?_eq_some h
      exact ⟨s, t, hs, ht, rfl⟩
    · simp at h

/-- What is left of a window behind at least one token of it. -/
def Behind (rest ts : Window) : Prop := ∃ t us, ts = t :: us ∧ rest <:+ us

theorem Behind.suffix {rest ts : Window} (h : Behind rest ts) : rest <:+ ts := by
  obtain ⟨t, us, rfl, hs⟩ := h
  exact hs.trans (List.suffix_cons t us)

theorem Behind.length_lt {rest ts : Window} (h : Behind rest ts) : rest.length < ts.length := by
  obtain ⟨t, us, rfl, hs⟩ := h
  exact Nat.lt_succ_of_le hs.length_le

theorem Behind.trans {rest us ts : Window} (h : rest <:+ us) (h' : Behind us ts) :
    Behind rest ts := by
  obtain ⟨t, vs, rfl, hs⟩ := h'
  exact ⟨t, vs, rfl, h.trans hs⟩

theorem behind_of_untilSemicolon? {ts front rest : Window}
    (h : untilSemicolon? ts = some (front, rest)) : Behind rest ts := by
  obtain ⟨t, -, rfl⟩ := untilSemicolon?_eq_some h
  cases front with
  | nil => exact ⟨t, rest, rfl, List.suffix_refl rest⟩
  | cons s front => exact ⟨s, front ++ t :: rest, rfl, front ++ [t], by simp⟩

theorem behind_of_delimited? {opening closing : Kind} {ts inner rest : Window}
    (h : delimited? opening closing ts = some (inner, rest)) : Behind rest ts := by
  obtain ⟨s, t, -, -, rfl⟩ := delimited?_eq_some h
  exact ⟨s, inner ++ t :: rest, rfl, inner ++ [t], by simp⟩

end Window

end Scriptlet
