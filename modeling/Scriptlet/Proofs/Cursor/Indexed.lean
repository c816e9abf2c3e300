import Scriptlet.Proofs.Cursor.Operation

/-!
# Cursors by position

A place in a window can be kept as a number, the position of the token at it.  Then an operation
looks tokens up by their position and cuts slices out of the window, and it is a matter of proof
that no slice reaches beyond the window.  An indexed cursor does just that, and refuses to go on at
a slice that is out of range.

In a walk, operations are done on a cursor one after another, copies of it are kept, and it goes
back to them.  From the start of any window, indexed cursors never refuse on any walk, and they
reply as the cursors do that have no position which could be wrong.

## Main definitions

* `Window.slice?` — the tokens between two positions, if these are in range.
* `IndexedCursor`, `IndexedCursor.apply` — a window with a position, and the operations on it.
* `Walk`, `Walk.Command`, `Walk.run` — walks with a cursor and copies of it.
* `Cursor.Lawful` — what holds of a cursor and of the next operation on it.

## Main results

* `Cursor.apply_indexed` — an operation on the position of a cursor is that operation on the cursor.
* `Walk.run_indexed` — so are walks.
* `Walk.lawful_of_run` — **a walk stays in its window, and every operation on it does as it
  should.**
-/

namespace Scriptlet

open Window

/-- The tokens between two positions, if these are in their order and in the window. -/
def Window.slice? (start stop : Nat) (ts : Window) : Option Window :=
  if start ≤ stop ∧ stop ≤ ts.length then some ((ts.take stop).drop start) else none

theorem Window.slice?_of_le {start stop : Nat} {ts : Window} (h : start ≤ stop)
    (h' : stop ≤ ts.length) : slice? start stop ts = some ((ts.take stop).drop start) :=
  if_pos ⟨h, h'⟩

/-! ### Indexed cursors -/

/-- A window and a position in it. -/
structure IndexedCursor where
  /-- The window. -/
  tokens : Window
  /-- The position of the token at the place. -/
  position : Nat
  deriving DecidableEq, Repr

namespace IndexedCursor

/-- The token at the position. -/
def peek (c : IndexedCursor) : Option Token := c.tokens[c.position]?

/-- The token at the position has the given kind. -/
def check (kind : Kind) (c : IndexedCursor) : Bool := c.peek.map (·.kind) == some kind

/-- The cursor so many tokens further on. -/
def forward (n : Nat) (c : IndexedCursor) : IndexedCursor := { c with position := c.position + n }

/-- The slice of tokens from the position on. -/
def ahead? (c : IndexedCursor) : Option Window := c.tokens.slice? c.position c.tokens.length

/-- The reply to an operation and the cursor behind it, unless a slice is out of range or delimiters
are counted below zero. -/
def apply (op : Cursor.Op) (c : IndexedCursor) : Option (Cursor.Reply × IndexedCursor) :=
  match op with
  | .peek => some (.token c.peek, c)
  | .peekKind => some (.kind (c.peek.map (·.kind)), c)
  | .check kind => some (.flag (c.check kind), c)
  | .advance =>
    match c.peek with
    | none => some (.token none, c)
    | some t => some (.token (some t), c.forward 1)
  | .eat kind => if c.check kind then some (.flag true, c.forward 1) else some (.flag false, c)
  | .expect kind otherwise =>
    match c.peek with
    | none => some (.expected (.error otherwise), c)
    | some t =>
      if t.kind = kind then some (.expected (.ok t), c.forward 1)
      else some (.expected (.error otherwise), c)
  | .untilSemicolon => do
    let ahead ← c.ahead?
    match ahead.findIdx? (·.kind = .semicolon) with
    | none => return (.cut none, c)
    | some stop => return (.cut (some (← ahead.slice? 0 stop)), c.forward (stop + 1))
  | .delimited opening closing => do
    let ahead ← c.ahead?
    match ahead.count opening closing with
    | .below => none
    | .pending => return (.cut none, c)
    | .closed stop => return (.cut (some (← ahead.slice? 1 stop)), c.forward (stop + 1))
  | .since start => do
    return (.passed (← c.tokens.slice? (min start c.position) c.position), c)

end IndexedCursor

/-! ### The position of a cursor -/

namespace Cursor

/-- The window and the position of a cursor. -/
def indexed (c : Cursor) : IndexedCursor := ⟨c.window, c.position⟩

variable {c c' : Cursor} {front : Window}

theorem Passes.indexed (h : Passes front c c') : c'.indexed = c.indexed.forward front.length := by
  rw [Cursor.indexed, h.window, h.position]
  rfl

@[simp] theorem peek_indexed (c : Cursor) : c.indexed.peek = c.peek := by
  simp [IndexedCursor.peek, Cursor.indexed, window, position, Cursor.peek,
    List.getElem?_append_right, List.head?_eq_getElem?]

@[simp] theorem check_indexed (kind : Kind) (c : Cursor) : c.indexed.check kind = c.check kind := by
  rw [IndexedCursor.check, peek_indexed]
  rfl

/-- The slice from the position on is in range. -/
@[simp] theorem ahead?_indexed (c : Cursor) : c.indexed.ahead? = some c.ahead := by
  rw [IndexedCursor.ahead?, slice?_of_le _ (Nat.le_refl _)]
  · rw [List.take_length, Cursor.indexed, window, position, List.drop_left' List.length_reverse]
  · exact Nat.le.intro c.length_window.symm

theorem findIdx?_semicolon (ts : Window) :
    ts.findIdx? (·.kind = .semicolon) = (untilSemicolon? ts).map fun p => p.1.length := by
  induction ts with
  | nil => rfl
  | cons t ts ih =>
    rw [List.findIdx?_cons, untilSemicolon?, ih]
    by_cases ht : t.kind = .semicolon
    · simp [ht]
    · simp [ht, Function.comp_def]

theorem untilSemicolon_indexed (c : Cursor) : c.indexed.apply .untilSemicolon
    = some ((c.apply .untilSemicolon).1, (c.apply .untilSemicolon).2.indexed) := by
  rw [IndexedCursor.apply, ahead?_indexed, Option.bind_eq_bind, Option.bind_some,
    findIdx?_semicolon, apply]
  rcases c.untilSemicolon_passes with ⟨hcut, h⟩ | ⟨front, t, rest, hcut, -, -, hreply, h⟩
  · rw [hcut, h]
    rfl
  · -- the tokens up to the semicolon are the slice in front of its index
    have hslice : c.ahead.slice? 0 front.length = some front := by
      rw [h.ahead, List.append_assoc, slice?_of_le (Nat.zero_le _) (by simp), List.take_left,
        List.drop_zero]
    rw [hcut, Option.map_some, hreply, h.indexed, List.length_append]
    dsimp only
    rw [hslice]
    rfl

/-- The closing delimiter is counted to, and it is the one at which the cut is made. -/
theorem delimited_indexed (opening closing : Kind) (c : Cursor) :
    c.indexed.apply (.delimited opening closing)
      = some ((c.apply (.delimited opening closing)).1,
          (c.apply (.delimited opening closing)).2.indexed) := by
  rw [IndexedCursor.apply, ahead?_indexed, Option.bind_eq_bind, Option.bind_some, count_eq, apply,
    closing?]
  rcases c.delimited_passes opening closing with
    ⟨hcut, h⟩ | ⟨inner, front, rest, hcut, henclosed, hreply, h⟩
  · rw [hcut, h]
    rfl
  · have hlength := henclosed.length
    obtain ⟨-, s, t, -, -, rfl⟩ := henclosed
    -- the inside is the slice between the two delimiters
    have hslice : c.ahead.slice? 1 (inner.length + 1) = some inner := by
      rw [h.ahead, List.cons_append, List.append_assoc, slice?_of_le (by simp) (by simp),
        List.take_succ_cons, List.take_left, List.drop_succ_cons, List.drop_zero]
    rw [hcut, Option.map_some, Count.ofPosition?, hreply, h.indexed, hlength]
    dsimp only
    rw [hslice]
    rfl

theorem since_indexed (start : Nat) (c : Cursor) : c.indexed.apply (.since start)
    = some ((c.apply (.since start)).1, (c.apply (.since start)).2.indexed) := by
  have hslice : c.window.slice? (min start c.position) c.position = some (c.since start) := by
    rw [slice?_of_le (Nat.min_le_right _ _) (Nat.le.intro c.length_window.symm), since_eq]
    rcases Nat.le_total start c.position with h | h
    · rw [Nat.min_eq_left h]
    · have hpassed : (c.window.take c.position).length ≤ c.position := List.length_take_le _ _
      rw [Nat.min_eq_right h, List.drop_of_length_le hpassed,
        List.drop_of_length_le (Nat.le_trans hpassed h)]
  rw [IndexedCursor.apply, apply, Cursor.indexed, hslice]
  rfl

/-- **An operation on the position of a cursor is that operation on the cursor**; in particular it
is never refused. -/
theorem apply_indexed (op : Op) (c : Cursor) :
    c.indexed.apply op = some ((c.apply op).1, (c.apply op).2.indexed) := by
  -- going forward by one is passing the token ahead
  have hforward {t : Token} {rest : Window} (h : c.ahead = t :: rest) :
      c.indexed.forward 1 = c.advance.2.indexed := by
    have hpasses : Passes [t] c c.advance.2 := by
      rw [advance, h]
      exact ⟨h, rfl⟩
    exact hpasses.indexed.symm
  cases op with
  | peek => rw [IndexedCursor.apply, peek_indexed, apply]
  | peekKind => rw [IndexedCursor.apply, peek_indexed, apply, peekKind]
  | check kind => rw [IndexedCursor.apply, check_indexed, apply]
  | advance =>
    rw [IndexedCursor.apply, peek_indexed, apply, peek]
    cases h : c.ahead with
    | nil => simp [advance, h]
    | cons t rest => simp [hforward h, advance, h]
  | eat kind =>
    rw [IndexedCursor.apply, check_indexed, apply, eat]
    -- only a cursor with a token ahead can pass the check
    by_cases hkind : c.check kind = true
    · obtain ⟨t, rest, h⟩ : ∃ t rest, c.ahead = t :: rest := by
        cases h : c.ahead with
        | nil => simp [check, peekKind, peek, h] at hkind
        | cons t rest => exact ⟨t, rest, rfl⟩
      rw [if_pos hkind, if_pos hkind, hforward h]
    · rw [if_neg hkind, if_neg hkind]
  | expect kind otherwise =>
    rw [IndexedCursor.apply, peek_indexed, apply, expect, peek]
    cases h : c.ahead with
    | nil => rfl
    | cons t rest =>
      dsimp only [List.head?_cons]
      by_cases hkind : t.kind = kind
      · rw [if_pos hkind, if_pos hkind, hforward h]
      · rw [if_neg hkind, if_neg hkind]
  | untilSemicolon => exact c.untilSemicolon_indexed
  | delimited opening closing => exact c.delimited_indexed opening closing
  | since start => exact c.since_indexed start

end Cursor

/-! ### Walks -/

/-- A cursor and the copies of it that are kept, the latest one first. -/
structure Walk (C : Type) where
  /-- The cursor. -/
  current : C
  /-- The copies. -/
  kept : List C

namespace Walk

/-- What can be done in a walk. -/
inductive Command
  /-- Does an operation on the cursor. -/
  | operate (op : Cursor.Op)
  /-- Keeps a copy of the cursor. -/
  | keep
  /-- Goes back to a copy, if there are so many. -/
  | back (n : Nat)
  deriving DecidableEq

variable {C D : Type}

/-- The start of a walk. -/
def start (c : C) : Walk C := ⟨c, []⟩

/-- The same walk with other cursors. -/
def map (f : C → D) (w : Walk C) : Walk D := ⟨f w.current, w.kept.map f⟩

/-- Does what is commanded, given how operations are done, which may refuse.  Only an operation
replies. -/
def step (apply : Cursor.Op → C → Option (Cursor.Reply × C)) (w : Walk C) :
    Command → Option (Option Cursor.Reply × Walk C)
  | .operate op => (apply op w.current).map fun p => (some p.1, { w with current := p.2 })
  | .keep => some (none, { w with kept := w.current :: w.kept })
  | .back n => some (none, { w with current := w.kept[n]?.getD w.current })

/-- Does what is commanded, one command after another, and lists the replies. -/
def run (apply : Cursor.Op → C → Option (Cursor.Reply × C)) (w : Walk C) :
    List Command → Option (List (Option Cursor.Reply) × Walk C)
  | [] => some ([], w)
  | command :: commands => do
    let (reply, w) ← step apply w command
    let (replies, w) ← run apply w commands
    return (reply :: replies, w)

/-- All cursors of a walk. -/
def cursors (w : Walk C) : List C := w.current :: w.kept

/-- Operations on cursors are never refused. -/
def total (op : Cursor.Op) (c : Cursor) : Option (Cursor.Reply × Cursor) := some (c.apply op)

theorem step_indexed (w : Walk Cursor) (command : Command) :
    (w.map Cursor.indexed).step IndexedCursor.apply command
      = (w.step total command).map fun p => (p.1, p.2.map Cursor.indexed) := by
  cases command with
  | operate op => simp [step, map, total, Cursor.apply_indexed]
  | keep => rfl
  | back n =>
    simp only [step, map, List.getElem?_map, Option.map_some]
    cases w.kept[n]? with
    | none => rfl
    | some c => rfl

/-- **A walk with positions is that walk with cursors.** -/
theorem run_indexed (w : Walk Cursor) (commands : List Command) :
    (w.map Cursor.indexed).run IndexedCursor.apply commands
      = (w.run total commands).map fun p => (p.1, p.2.map Cursor.indexed) := by
  induction commands generalizing w with
  | nil => rfl
  | cons command commands ih =>
    rw [run, run, step_indexed]
    -- a command that one walk refuses, the other one refuses as well
    cases w.step total command with
    | none => rfl
    | some p =>
      simp only [Option.map_some, Option.bind_eq_bind, Option.bind_some, ih]
      cases p.2.run total commands with
      | none => rfl
      | some q => rfl

/-- No command of a walk with cursors is refused, and what holds of all its cursors holds behind it,
if the operations keep it. -/
theorem exists_step {P : Cursor → Prop} (happly : ∀ op c, P c → P (c.apply op).2) {w : Walk Cursor}
    (hw : ∀ c ∈ w.cursors, P c) (command : Command) :
    ∃ reply w', w.step total command = some (reply, w') ∧ ∀ c ∈ w'.cursors, P c := by
  have hcurrent : P w.current := hw _ List.mem_cons_self
  have hkept : ∀ c ∈ w.kept, P c := fun c hc => hw c (List.mem_cons_of_mem _ hc)
  cases command with
  | operate op =>
    exact ⟨_, _, rfl, List.forall_mem_cons.2 ⟨happly op _ hcurrent, hkept⟩⟩
  | keep => exact ⟨_, _, rfl, List.forall_mem_cons.2 ⟨hcurrent, hw⟩⟩
  | back n =>
    refine ⟨_, _, rfl, List.forall_mem_cons.2 ⟨?_, hkept⟩⟩
    -- going back to a copy that was never kept leaves the cursor where it is
    cases h : w.kept[n]? with
    | none => exact hcurrent
    | some c => exact hkept c (List.mem_of_getElem? h)

/-- No walk with cursors is refused, and it keeps what the operations keep. -/
theorem exists_run {P : Cursor → Prop} (happly : ∀ op c, P c → P (c.apply op).2) {w : Walk Cursor}
    (hw : ∀ c ∈ w.cursors, P c) (commands : List Command) :
    ∃ replies w', w.run total commands = some (replies, w') ∧ ∀ c ∈ w'.cursors, P c := by
  induction commands generalizing w with
  | nil => exact ⟨[], w, rfl, hw⟩
  | cons command commands ih =>
    obtain ⟨reply, w₁, hstep, hw₁⟩ := exists_step happly hw command
    obtain ⟨replies, w₂, hrun, hw₂⟩ := ih hw₁
    refine ⟨reply :: replies, w₂, ?_, hw₂⟩
    simp only [run, hstep, Option.bind_eq_bind, Option.bind_some, hrun]
    rfl

end Walk

/-! ### What holds in a walk -/

namespace Cursor

/-- What holds of a cursor in the window `ts`, and of the next operation on it. -/
structure Lawful (ts : Window) (c : Cursor) : Prop where
  /-- The position is in the window. -/
  position_le : c.position ≤ ts.length
  /-- What remains is the rest of the window. -/
  remaining_eq : c.remaining = ts.length - c.position
  /-- No operation refuses a slice, with the position in the place of the cursor. -/
  indexed : ∀ op, (IndexedCursor.mk ts c.position).apply op
    = some ((c.apply op).1, ⟨ts, (c.apply op).2.position⟩)
  /-- No operation goes back, or leaves the window. -/
  forward : ∀ op, c.position ≤ (c.apply op).2.position ∧ (c.apply op).2.position ≤ ts.length
  /-- An operation that fails does not move. -/
  failed : ∀ op, (c.apply op).1.failed = true → (c.apply op).2.position = c.position
  /-- A cut at a semicolon takes off tokens that are none, and the semicolon behind them. -/
  untilSemicolon : ∀ front c', c.untilSemicolon = (some front, c') →
    (∀ s ∈ front, s.kind ≠ .semicolon) ∧
      ∃ t, t.kind = .semicolon ∧ (ts.take c'.position).drop c.position = front ++ [t]
  /-- A cut at delimiters takes off a matching pair of them and the tokens between them. -/
  delimited : ∀ opening closing inner c', c.delimited opening closing = (some inner, c') →
    Encloses opening closing inner ((ts.take c'.position).drop c.position)
  /-- The tokens passed since a position are the ones between that and the cursor. -/
  since : ∀ start, c.since start = (ts.take c.position).drop start

/-- All this holds of a cursor in its own window. -/
theorem lawful (c : Cursor) : c.Lawful c.window where
  -- each law is one about what an operation passes
  position_le := Nat.le.intro c.length_window.symm
  remaining_eq := by rw [length_window, Nat.add_sub_cancel_left]
  indexed op := by
    obtain ⟨front, h⟩ := passes_apply op c
    have happly := apply_indexed op c
    rwa [Cursor.indexed, Cursor.indexed, h.window] at happly
  forward op := by
    obtain ⟨front, h⟩ := passes_apply op c
    have hlength := (c.apply op).2.length_window
    rw [h.window] at hlength
    exact ⟨by rw [h.position]; exact Nat.le_add_right _ _, Nat.le.intro hlength.symm⟩
  failed op h := by rw [apply_of_failed h]
  untilSemicolon front c' h := by
    rcases c.untilSemicolon_passes with ⟨-, h'⟩ | ⟨front', t, -, -, hfront, ht, hreply, hpasses⟩
    · rw [h'] at h
      cases h
    · rw [h] at hreply hpasses
      obtain rfl := Option.some.inj hreply
      exact ⟨hfront, t, ht, hpasses.between⟩
  delimited opening closing inner c' h := by
    rcases c.delimited_passes opening closing with
      ⟨-, h'⟩ | ⟨inner', front, -, -, hfront, hreply, hpasses⟩
    · rw [h'] at h
      cases h
    · rw [h] at hreply hpasses
      obtain rfl := Option.some.inj hreply
      rwa [hpasses.between]
  since := c.since_eq

end Cursor

/-- **A walk stays in its window**, and every operation on it does as it should.  Whatever is
commanded from the start of a window on, the walk with positions is not refused and replies as the
one with cursors does; and all the cursors that it has then are lawful, with whatever operation may
come next. -/
theorem Walk.lawful_of_run (ts : Window) (commands : List Walk.Command) :
    ∃ replies w, (Walk.start (Cursor.ofWindow ts)).run Walk.total commands = some (replies, w) ∧
      (Walk.start ⟨ts, 0⟩).run IndexedCursor.apply commands
        = some (replies, w.map Cursor.indexed) ∧
      ∀ c ∈ w.cursors, c.window = ts ∧ c.Lawful ts := by
  -- no operation leaves the window
  have happly (op : Cursor.Op) (c : Cursor) (hc : c.window = ts) : (c.apply op).2.window = ts := by
    obtain ⟨front, h⟩ := c.passes_apply op
    rw [h.window, hc]
  have hstart : ∀ c ∈ (Walk.start (Cursor.ofWindow ts)).cursors, c.window = ts := by
    intro c hc
    obtain rfl := List.mem_singleton.1 hc
    rfl
  obtain ⟨replies, w, hrun, hw⟩ := Walk.exists_run happly hstart commands
  refine ⟨replies, w, hrun, ?_, ?_⟩
  · have hindexed := Walk.run_indexed (Walk.start (Cursor.ofWindow ts)) commands
    rwa [hrun] at hindexed
  · intro c hc
    obtain rfl := hw c hc
    exact ⟨rfl, c.lawful⟩

end Scriptlet
