import Scriptlet.Cursor
import Scriptlet.Fault
import Scriptlet.Proofs.Window.Closing
import Scriptlet.Proofs.Window.Cut

/-!
# Operations on cursors

Whatever is done to a cursor, it stays in its window and never goes back: an operation passes
tokens, or leaves the cursor where it is.  One that fails does the latter.

## Main definitions

* `Cursor.Op`, `Cursor.Reply`, `Cursor.apply` — the operations, and what they reply.
* `Cursor.Passes` — a cursor is another one behind some tokens.

## Main results

* `Cursor.passes_apply` — every operation passes tokens.
* `Cursor.apply_of_failed` — an operation that fails changes nothing.
* `Cursor.since_eq`, `Cursor.untilSemicolon_passes`, `Cursor.delimited_passes` — what the cuts are,
  in terms of the window and of positions.
-/

namespace Scriptlet.Cursor

open Window

/-! ### Operations -/

/-- An operation on a cursor. -/
inductive Op
  | peek
  | peekKind
  | check (kind : Kind)
  | advance
  | eat (kind : Kind)
  | expect (kind : Kind) (otherwise : Fault)
  | untilSemicolon
  | delimited (opening closing : Kind)
  | since (start : Nat)
  deriving DecidableEq

/-- What an operation replies. -/
inductive Reply
  /-- A token, if there is one. -/
  | token (t : Option Token)
  /-- The kind of a token, if there is one. -/
  | kind (k : Option Kind)
  /-- Yes or no. -/
  | flag (b : Bool)
  /-- The token that was expected, or what is wrong. -/
  | expected (t : Except Fault Token)
  /-- The tokens that were cut off, if they could be. -/
  | cut (ts : Option Window)
  /-- Tokens that were passed before. -/
  | passed (ts : Window)

/-- A reply that says that there is nothing to reply. -/
def Reply.failed : Reply → Bool
  | token none | kind none | flag false | expected (.error _) | cut none => true
  | _ => false

/-- The reply to an operation, and the cursor behind it. -/
def apply (op : Op) (c : Cursor) : Reply × Cursor :=
  match op with
  | .peek => (.token c.peek, c)
  | .peekKind => (.kind c.peekKind, c)
  | .check kind => (.flag (c.check kind), c)
  | .advance => (.token c.advance.1, c.advance.2)
  | .eat kind => (.flag (c.eat kind).1, (c.eat kind).2)
  | .expect kind otherwise => (.expected (c.expect kind otherwise).1, (c.expect kind otherwise).2)
  | .untilSemicolon => (.cut c.untilSemicolon.1, c.untilSemicolon.2)
  | .delimited opening closing =>
    (.cut (c.delimited opening closing).1, (c.delimited opening closing).2)
  | .since start => (.passed (c.since start), c)

/-! ### Passing tokens -/

variable {c c' : Cursor} {ts front rest : Window}

/-- The second cursor is the first one behind the tokens `front`. -/
structure Passes (front : Window) (c c' : Cursor) : Prop where
  /-- The tokens were ahead. -/
  ahead : c.ahead = front ++ c'.ahead
  /-- They lie behind now. -/
  passed : c'.passed = front.reverse ++ c.passed

theorem passes_nil (c : Cursor) : Passes [] c c := ⟨rfl, rfl⟩

theorem passes_moveTo (h : c.ahead = front ++ rest) : Passes front c (c.moveTo rest) :=
  ⟨h, by rw [moveTo, h, consumed_append]⟩

theorem Passes.window (h : Passes front c c') : c'.window = c.window := by
  rw [Cursor.window, Cursor.window, h.passed, h.ahead, List.reverse_append, List.reverse_reverse,
    List.append_assoc]

theorem Passes.position (h : Passes front c c') : c'.position = c.position + front.length := by
  rw [Cursor.position, Cursor.position, h.passed, List.length_append, List.length_reverse,
    Nat.add_comm]

theorem length_window (c : Cursor) : c.window.length = c.position + c.remaining := by
  rw [window, position, remaining, List.length_append, List.length_reverse]

/-- The tokens passed since a position are the ones from there to the cursor. -/
theorem since_eq (c : Cursor) (start : Nat) :
    c.since start = (c.window.take c.position).drop start := by
  rw [since, window, position, List.take_append_of_le_length (by simp),
    List.take_of_length_le (by simp)]

theorem Passes.between (h : Passes front c c') :
    (c.window.take c'.position).drop c.position = front := by
  rw [← h.window, ← since_eq, since, h.passed, List.reverse_append, List.reverse_reverse]
  exact List.drop_left' List.length_reverse

/-! ### What the operations do -/

/-- Where there is a token ahead, it can be passed. -/
theorem advance_passes (c : Cursor) :
    (c.ahead = [] ∧ c.advance = (none, c)) ∨
      ∃ t, c.advance.1 = some t ∧ Passes [t] c c.advance.2 := by
  rw [advance]
  cases h : c.ahead with
  | nil => exact .inl ⟨rfl, rfl⟩
  | cons t rest => exact .inr ⟨t, rfl, h, rfl⟩

/-- A cut at a semicolon passes the tokens that are cut off and the semicolon behind them. -/
theorem untilSemicolon_passes (c : Cursor) :
    (untilSemicolon? c.ahead = none ∧ c.untilSemicolon = (none, c)) ∨
      ∃ front t rest, untilSemicolon? c.ahead = some (front, rest) ∧
        (∀ s ∈ front, s.kind ≠ .semicolon) ∧ t.kind = .semicolon ∧
        c.untilSemicolon.1 = some front ∧ Passes (front ++ [t]) c c.untilSemicolon.2 := by
  rw [untilSemicolon]
  cases hcut : untilSemicolon? c.ahead with
  | none => exact .inl ⟨rfl, rfl⟩
  | some p =>
    obtain ⟨front, rest⟩ := p
    obtain ⟨hfront, t, ht, hahead⟩ := untilSemicolon?_eq_some_iff.1 hcut
    exact .inr ⟨front, t, rest, rfl, hfront, ht, rfl, passes_moveTo (by simpa using hahead)⟩

/-- A cut at a pair of delimiters passes the pair, with the tokens that are cut off between them. -/
theorem delimited_passes (opening closing : Kind) (c : Cursor) :
    (delimited? opening closing c.ahead = none ∧ c.delimited opening closing = (none, c)) ∨
      ∃ inner front rest, delimited? opening closing c.ahead = some (inner, rest) ∧
        Encloses opening closing inner front ∧ (c.delimited opening closing).1 = some inner ∧
        Passes front c (c.delimited opening closing).2 := by
  rw [delimited]
  cases hcut : delimited? opening closing c.ahead with
  | none => exact .inl ⟨rfl, rfl⟩
  | some p =>
    obtain ⟨inner, rest⟩ := p
    -- one kind in both places closes nothing
    have hne : opening ≠ closing := by
      rintro rfl
      rw [delimited?_self] at hcut
      cases hcut
    obtain ⟨front, hfront, hahead⟩ := (delimited?_eq_some_iff_encloses hne).1 hcut
    exact .inr ⟨inner, front, rest, rfl, hfront, rfl, passes_moveTo hahead⟩

/-- **Every operation passes tokens**, perhaps none. -/
theorem passes_apply (op : Op) (c : Cursor) : ∃ front, Passes front c (c.apply op).2 := by
  -- an operation stays, goes one token on, or cuts something off
  have hstay : ∃ front, Passes front c c := ⟨[], passes_nil c⟩
  have hadvance : ∃ front, Passes front c c.advance.2 := by
    rcases c.advance_passes with ⟨-, h⟩ | ⟨t, -, h⟩
    · rw [h]
      exact hstay
    · exact ⟨[t], h⟩
  cases op with
  | peek => exact hstay
  | peekKind => exact hstay
  | check kind => exact hstay
  | since start => exact hstay
  | advance => exact hadvance
  | eat kind =>
    rw [apply, eat]
    split
    · exact hadvance
    · exact hstay
  | expect kind otherwise =>
    rw [apply, expect]
    split
    · exact hstay
    · split
      · exact hadvance
      · exact hstay
  | untilSemicolon =>
    rcases c.untilSemicolon_passes with ⟨-, h⟩ | ⟨front, t, -, -, -, -, -, h⟩
    · rw [apply, h]
      exact hstay
    · exact ⟨front ++ [t], h⟩
  | delimited opening closing =>
    rcases c.delimited_passes opening closing with ⟨-, h⟩ | ⟨-, front, -, -, -, -, h⟩
    · rw [apply, h]
      exact hstay
    · exact ⟨front, h⟩

/-- **An operation that fails changes nothing.** -/
theorem apply_of_failed {op : Op} (h : (c.apply op).1.failed = true) : (c.apply op).2 = c := by
  -- what passes a token or cuts something off has not failed
  cases op with
  | peek => rfl
  | peekKind => rfl
  | check kind => rfl
  | since start => rfl
  | advance =>
    rcases c.advance_passes with ⟨-, hstay⟩ | ⟨t, ht, -⟩
    · rw [apply, hstay]
    · rw [apply, ht] at h
      cases h
  | eat kind =>
    rw [apply, eat] at h ⊢
    split
    · rename_i hkind
      rw [if_pos hkind] at h
      cases h
    · rfl
  | expect kind otherwise =>
    rw [apply, expect] at h ⊢
    split
    · rfl
    · rename_i t rest hahead
      split
      · rename_i hkind
        rw [hahead] at h
        dsimp only at h
        rw [if_pos hkind] at h
        cases h
      · rfl
  | untilSemicolon =>
    rcases c.untilSemicolon_passes with ⟨-, hstay⟩ | ⟨front, t, -, -, -, -, hcut, -⟩
    · rw [apply, hstay]
    · rw [apply, hcut] at h
      cases h
  | delimited opening closing =>
    rcases c.delimited_passes opening closing with ⟨-, hstay⟩ | ⟨inner, front, -, -, -, hcut, -⟩
    · rw [apply, hstay]
    · rw [apply, hcut] at h
      cases h

end Scriptlet.Cursor
