import Scriptlet.Proofs.Window.Balance

/-!
# Where a delimiter is closed

The delimiter in front of a window is closed where the tokens since then are balanced and a closing
delimiter follows.  There is at most one such place, and the cut of a window at the match of its
first delimiter is made there.

The place can also be found by counting: one up for an opening delimiter, one down for a closing
one, until the count is back at zero.  Counting finds the same place, and it is never asked to count
below zero.  Where one kind of token is to be both delimiters, the count only grows, so nothing is
closed.

## Main definitions

* `Window.ClosesAt` — the token that closes the first one stands at a position.
* `Window.Count`, `Window.countFrom`, `Window.count` — counting delimiters, with all its endings.

## Main results

* `Window.closing?_eq_some_iff` — the cut is made where the first token is closed.
* `Window.ClosesAt.unique` — there is one such place at most.
* `Window.count_eq` — counting finds the place of the cut, and never goes below zero.
* `Window.closing?_balances` — **the closing delimiter of a window is the balancing one.**
-/

namespace Scriptlet.Window

variable {opening closing : Kind} {ts : Window} {i j : Nat}

/-! ### The balancing position -/

/-- The window begins with an opening delimiter, there is a closing one at the position `i` behind
it, and the tokens between the two are balanced. -/
structure ClosesAt (opening closing : Kind) (ts : Window) (i : Nat) : Prop where
  /-- The position is behind the first token. -/
  pos : 1 ≤ i
  /-- The first token is an opening delimiter. -/
  opens : ∃ s, ts[0]? = some s ∧ s.kind = opening
  /-- The token at the position is a closing delimiter. -/
  closes : ∃ t, ts[i]? = some t ∧ t.kind = closing
  /-- The tokens between the two are balanced. -/
  balanced : Balanced opening closing ((ts.take i).drop 1)

/-- The same in terms of what stands before and behind the closing delimiter. -/
theorem closesAt_iff : ClosesAt opening closing ts i ↔
    ∃ s inner t rest, ts = s :: (inner ++ t :: rest) ∧ s.kind = opening ∧ t.kind = closing ∧
      Balanced opening closing inner ∧ i = inner.length + 1 := by
  constructor
  · intro h
    obtain ⟨hpos, ⟨s, hs, hopen⟩, ⟨t, ht, hclose⟩, hbalanced⟩ := h
    obtain ⟨n, rfl⟩ : ∃ n, i = n + 1 := ⟨i - 1, by omega⟩
    cases ts with
    | nil => cases hs
    | cons s' us =>
      obtain rfl : s' = s := Option.some.inj hs
      rw [List.getElem?_cons_succ] at ht
      rw [List.take_succ_cons, List.drop_succ_cons, List.drop_zero] at hbalanced
      obtain ⟨hn, rfl⟩ := List.getElem?_eq_some_iff.1 ht
      refine ⟨s', us.take n, us[n], us.drop (n + 1), ?_, hopen, hclose, hbalanced, ?_⟩
      · rw [← List.drop_eq_getElem_cons hn, List.take_append_drop]
      · rw [List.length_take_of_le (Nat.le_of_lt hn)]
  · intro h
    obtain ⟨s, inner, t, rest, rfl, hopen, hclose, hbalanced, rfl⟩ := h
    refine ⟨Nat.succ_pos _, ⟨s, rfl, hopen⟩, ⟨t, ?_, hclose⟩, ?_⟩
    · rw [List.getElem?_cons_succ, List.getElem?_append_right (Nat.le_refl _), Nat.sub_self]
      rfl
    · rw [List.take_succ_cons, List.drop_succ_cons, List.drop_zero, List.take_left]
      exact hbalanced

/-- **The cut is made where the first token is closed.** -/
theorem closing?_eq_some_iff (hne : opening ≠ closing) :
    closing? opening closing ts = some i ↔ ClosesAt opening closing ts i := by
  rw [closing?, Option.map_eq_some_iff, closesAt_iff]
  constructor
  · intro h
    obtain ⟨⟨inner, rest⟩, hcut, rfl⟩ := h
    obtain ⟨hbalanced, s, t, hs, ht, rfl⟩ := (delimited?_eq_some_iff hne).1 hcut
    exact ⟨s, inner, t, rest, rfl, hs, ht, hbalanced, rfl⟩
  · intro h
    obtain ⟨s, inner, t, rest, rfl, hs, ht, hbalanced, rfl⟩ := h
    exact ⟨(inner, rest), (delimited?_eq_some_iff hne).2 ⟨hbalanced, s, t, hs, ht, rfl⟩, rfl⟩

theorem ClosesAt.unique (hne : opening ≠ closing) (hi : ClosesAt opening closing ts i)
    (hj : ClosesAt opening closing ts j) : i = j := by
  have hcut : closing? opening closing ts = some i := (closing?_eq_some_iff hne).2 hi
  rw [(closing?_eq_some_iff hne).2 hj] at hcut
  exact (Option.some.inj hcut).symm

/-! ### Counting -/

/-- How counting delimiters can end. -/
inductive Count
  /-- The count is back at zero behind the token at a position. -/
  | closed (position : Nat)
  /-- The tokens end before that. -/
  | pending
  /-- The count would have to go below zero. -/
  | below
  deriving DecidableEq, Repr

/-- The ending that a closing position stands for; it is never the last one. -/
def Count.ofPosition? : Option Nat → Count
  | some position => .closed position
  | none => .pending

/-- Counts on over tokens of which the first stands at a position, with so many delimiters open. -/
def countFrom (opening closing : Kind) (position depth : Nat) : Window → Count
  | [] => .pending
  | t :: ts =>
    if t.kind = opening then countFrom opening closing (position + 1) (depth + 1) ts
    else if t.kind = closing then
      match depth with
      | 0 => .below
      | 1 => .closed position
      | n + 2 => countFrom opening closing (position + 1) (n + 1) ts
    else countFrom opening closing (position + 1) depth ts

/-- Counts over a window, if it begins with an opening delimiter. -/
def count (opening closing : Kind) (ts : Window) : Count :=
  if ts.head?.any (·.kind = opening) then countFrom opening closing 0 0 ts else .pending

/-- With a delimiter open, counting finds what the cut finds.  The induction is on the tokens: every
one that is passed stands in the inside of the cut, so the position moves by the length of that. -/
theorem countFrom_succ (position pending : Nat) :
    countFrom opening closing position (pending + 1) ts = .ofPosition?
      ((toClosing? opening closing pending ts).map fun p => position + p.1.length) := by
  induction ts generalizing position pending with
  | nil => rfl
  | cons t ts ih =>
    -- the inside that the rest is cut to is longer by the token that is passed
    have hpass (n : Nat) : countFrom opening closing (position + 1) (n + 1) ts = .ofPosition?
        (((toClosing? opening closing n ts).map fun p => (t :: p.1, p.2)).map
          fun p => position + p.1.length) := by
      rw [ih, Option.map_map]
      simp only [Function.comp_def, List.length_cons, Nat.add_assoc, Nat.add_comm 1]
    rw [countFrom.eq_def, toClosing?.eq_def]
    dsimp only
    by_cases hopen : t.kind = opening
    · rw [if_pos hopen, if_pos hopen]
      exact hpass (pending + 1)
    rw [if_neg hopen, if_neg hopen]
    by_cases hclose : t.kind = closing
    · rw [if_pos hclose, if_pos hclose]
      cases pending with
      | zero => rfl
      | succ n => exact hpass n
    · rw [if_neg hclose, if_neg hclose]
      exact hpass pending

/-- **Counting finds the place of the cut**, whatever the two kinds are, and never goes below zero.
-/
theorem count_eq (opening closing : Kind) (ts : Window) :
    count opening closing ts = .ofPosition? (closing? opening closing ts) := by
  cases ts with
  | nil => rfl
  | cons t ts =>
    by_cases hopen : t.kind = opening
    · rw [count, countFrom, closing?, delimited?, if_pos hopen, if_pos hopen, countFrom_succ]
      simp only [List.head?_cons, Option.any_some, hopen, decide_true, if_true, Nat.zero_add,
        Nat.add_comm 1]
    · rw [count, closing?, delimited?, if_neg hopen]
      simp [hopen, Count.ofPosition?]

/-- A kind that is both delimiters is never closed, as it always opens. -/
theorem toClosing?_self (kind : Kind) (pending : Nat) (ts : Window) :
    toClosing? kind kind pending ts = none := by
  induction ts generalizing pending with
  | nil => rfl
  | cons t ts ih =>
    rw [toClosing?.eq_def]
    dsimp only
    by_cases hkind : t.kind = kind
    · rw [if_pos hkind, ih, Option.map_none]
    · rw [if_neg hkind, if_neg hkind, ih, Option.map_none]

theorem delimited?_self (kind : Kind) (ts : Window) : delimited? kind kind ts = none := by
  cases ts with
  | nil => rfl
  | cons t ts => rw [delimited?, toClosing?_self, ite_self]

/-- **The closing delimiter of a window is the balancing one.**  For two kinds of delimiters, the
match of the first token is the one position at which a closing delimiter stands behind balanced
tokens, and there is none if there is no such position; for one kind in both places there is never
one.  Counting the open delimiters finds the match, and the count does not go below zero. -/
theorem closing?_balances (opening closing : Kind) (ts : Window) :
    (opening ≠ closing →
      (∀ i, closing? opening closing ts = some i ↔ ClosesAt opening closing ts i) ∧
      (∀ i j, ClosesAt opening closing ts i → ClosesAt opening closing ts j → i = j) ∧
      (closing? opening closing ts = none ↔ ∀ i, ¬ ClosesAt opening closing ts i)) ∧
    (opening = closing → closing? opening closing ts = none) ∧
    count opening closing ts = .ofPosition? (closing? opening closing ts) ∧
    count opening closing ts ≠ .below := by
  refine ⟨fun hne => ⟨fun i => closing?_eq_some_iff hne, fun i j => ClosesAt.unique hne, ?_⟩,
    ?_, count_eq opening closing ts, ?_⟩
  · simp only [← closing?_eq_some_iff hne, Option.eq_none_iff_forall_ne_some, ne_eq]
  · rintro rfl
    rw [closing?, delimited?_self, Option.map_none]
  · rw [count_eq]
    cases closing? opening closing ts <;> simp [Count.ofPosition?]

/-- Two pairs inside of each other, with braces that do not count and one parenthesis too many. -/
theorem closing?_balances_nested :
    let word (kind : Kind) : Token := ⟨kind, "x", 1⟩
    let ts := [word .leftParen, word .leftBrace, word .leftParen, word .rightParen,
      word .rightBrace, word .rightBrace, word .rightParen, word .rightParen]
    Kind.leftParen ≠ Kind.rightParen ∧ closing? .leftParen .rightParen ts = some 6 ∧
      ClosesAt .leftParen .rightParen ts 6 ∧ (∀ i, ClosesAt .leftParen .rightParen ts i → i = 6) ∧
      count .leftParen .rightParen ts = .closed 6 ∧ closing? .leftBrace .rightBrace ts = none ∧
      (∀ i, ¬ ClosesAt .leftBrace .rightBrace ts i) ∧ closing? .leftParen .leftParen ts = none := by
  intro word ts
  have hne : Kind.leftParen ≠ Kind.rightParen := by decide
  have hcut : closing? .leftParen .rightParen ts = some 6 := by decide
  have hnone : closing? .leftBrace .rightBrace ts = none := by decide
  obtain ⟨hparens, -, hcount, -⟩ := closing?_balances .leftParen .rightParen ts
  obtain ⟨hiff, hunique, -⟩ := hparens hne
  have hcloses : ClosesAt .leftParen .rightParen ts 6 := (hiff 6).1 hcut
  obtain ⟨-, -, hbraces⟩ := (closing?_balances .leftBrace .rightBrace ts).1 (by decide)
  refine ⟨hne, hcut, hcloses, fun i hi => hunique i 6 hi hcloses, ?_, hnone, hbraces.1 hnone, ?_⟩
  · rw [hcount, hcut]
    rfl
  · exact (closing?_balances .leftParen .leftParen ts).2.1 rfl

end Scriptlet.Window
