import Scriptlet.Window

/-!
# Cursors

A cursor is a place in a window, for a reader that takes the window token by token.  It keeps the
tokens on both sides of its place, so no operation can take it out of the window, and an operation
that fails leaves it where it was.

## Main definitions

* `Cursor` — a window with a place in it.
* `Cursor.position`, `Cursor.remaining` — the numbers of tokens on its two sides.
* `Cursor.advance`, `Cursor.eat`, `Cursor.expect`, `Cursor.untilSemicolon`, `Cursor.delimited` —
  the operations that move it.
* `Cursor.since` — the tokens passed since an earlier position.
-/

namespace Scriptlet

/-- A place in a window. -/
structure Cursor where
  /-- The tokens in front of the place, the nearest one first. -/
  passed : Window
  /-- The tokens from the place on. -/
  ahead : Window
  deriving DecidableEq, Repr

namespace Cursor

/-- The cursor at the start of a window. -/
def ofWindow (ts : Window) : Cursor := ⟨[], ts⟩

/-- The window that a cursor is in. -/
def window (c : Cursor) : Window := c.passed.reverse ++ c.ahead

/-- The number of tokens in front of the place. -/
def position (c : Cursor) : Nat := c.passed.length

/-- The number of tokens from the place on. -/
def remaining (c : Cursor) : Nat := c.ahead.length

/-- The token at the place. -/
def peek (c : Cursor) : Option Token := c.ahead.head?

/-- The kind of the token at the place. -/
def peekKind (c : Cursor) : Option Kind := c.peek.map (·.kind)

/-- The token at the place has the given kind. -/
def check (kind : Kind) (c : Cursor) : Bool := c.peekKind == some kind

/-- The tokens passed since the position `start`; none if the cursor has not come so far. -/
def since (start : Nat) (c : Cursor) : Window := c.passed.reverse.drop start

/-- The cursor moved over the first tokens ahead, up to the given rest of them. -/
def moveTo (rest : Window) (c : Cursor) : Cursor :=
  ⟨(Window.consumed c.ahead rest).reverse ++ c.passed, rest⟩

/-- Passes one token. -/
def advance (c : Cursor) : Option Token × Cursor :=
  match c.ahead with
  | [] => (none, c)
  | t :: rest => (some t, ⟨t :: c.passed, rest⟩)

/-- Passes the next token if it has the given kind. -/
def eat (kind : Kind) (c : Cursor) : Bool × Cursor :=
  if c.check kind then (true, c.advance.2) else (false, c)

/-- Passes the next token, which must have the given kind. -/
def expect {ε : Type} (kind : Kind) (otherwise : ε) (c : Cursor) : Except ε Token × Cursor :=
  match c.ahead with
  | [] => (.error otherwise, c)
  | t :: _ => if t.kind = kind then (.ok t, c.advance.2) else (.error otherwise, c)

/-- Passes the next semicolon and yields the tokens in front of it. -/
def untilSemicolon (c : Cursor) : Option Window × Cursor :=
  match Window.untilSemicolon? c.ahead with
  | none => (none, c)
  | some (front, rest) => (some front, c.moveTo rest)

/-- Passes a pair of delimiters and yields the tokens between them. -/
def delimited (opening closing : Kind) (c : Cursor) : Option Window × Cursor :=
  match Window.delimited? opening closing c.ahead with
  | none => (none, c)
  | some (inner, rest) => (some inner, c.moveTo rest)

end Cursor

end Scriptlet
