import Mathlib.Data.List.Chain
import Scriptlet.Proofs.Window.Cut

/-!
# Relabelled windows

A relabelling changes the texts and the lines of tokens, but no kind.  Of the texts, those of
identifiers are changed by a map of names and all others stay.  Windows are cut by kinds alone, so a
relabelled window is cut in the same places.

What stands in an expression between parentheses becomes a text, in which names can be seen.  A
window in which every opening parenthesis stands right behind an `if` has no such text: then the
parentheses are those of conditions.

## Main definitions

* `Token.Relabels f r` — the map `f` relabels tokens, and their names by `r`.
* `Token.rename` — the relabelling that changes names and nothing else.
* `Window.OpensBehindIf`, `Window.Groupless` — every opening parenthesis stands right behind an
  `if`.

## Main results

* `Window.untilSemicolon?_map`, `Window.delimited?_map` — the cuts of a relabelled window.
* `Window.groupless_iff` — what it is to be groupless, said of single tokens.
* `Window.Groupless.behind` — what stands behind anything but an `if` in a groupless window is
  groupless again.
-/

namespace Scriptlet

/-! ### Relabellings -/

namespace Token

/-- The map keeps the kinds of all tokens, and their texts; only names it changes as `r` does. -/
structure Relabels (f : Token → Token) (r : String → String) : Prop where
  /-- Kinds stay. -/
  kind : ∀ t, (f t).kind = t.kind
  /-- Names are changed. -/
  name : ∀ t, t.kind = .identifier → (f t).lexeme = r t.lexeme
  /-- Other texts stay. -/
  other : ∀ t, t.kind ≠ .identifier → (f t).lexeme = t.lexeme

/-- The token with its name changed, if it has one. -/
def rename (r : String → String) (t : Token) : Token :=
  if t.kind = .identifier then { t with lexeme := r t.lexeme } else t

theorem relabels_rename (r : String → String) : Relabels (rename r) r where
  kind t := by
    unfold rename
    split <;> rfl
  name t ht := by rw [rename, if_pos ht]
  other t ht := by rw [rename, if_neg ht]

end Token

namespace Window

/-! ### Cuts -/

section

variable {f : Token → Token} (hf : ∀ t, (f t).kind = t.kind)

include hf

theorem untilSemicolon?_map (ts : Window) :
    untilSemicolon? (ts.map f) = (untilSemicolon? ts).map (Prod.map (List.map f) (List.map f)) := by
  induction ts with
  | nil => rfl
  | cons t ts ih =>
    rw [List.map_cons, untilSemicolon?, untilSemicolon?, hf t, ih]
    split
    · rfl
    · rw [Option.map_map, Option.map_map]
      rfl

theorem toClosing?_map (opening closing : Kind) (pending : Nat) (ts : Window) :
    toClosing? opening closing pending (ts.map f)
      = (toClosing? opening closing pending ts).map (Prod.map (List.map f) (List.map f)) := by
  induction ts generalizing pending with
  | nil => rfl
  | cons t ts ih =>
    -- every branch but the last closing delimiter passes the token on to the inside
    have step (n : Nat) :
        (toClosing? opening closing n (ts.map f)).map (fun p => (f t :: p.1, p.2))
          = ((toClosing? opening closing n ts).map fun p => (t :: p.1, p.2)).map
              (Prod.map (List.map f) (List.map f)) := by
      rw [ih, Option.map_map, Option.map_map]
      rfl
    rw [List.map_cons, toClosing?.eq_def, toClosing?.eq_def]
    dsimp only
    rw [hf t]
    split
    · exact step (pending + 1)
    · split
      · cases pending with
        | zero => rfl
        | succ n => exact step n
      · exact step pending

theorem delimited?_map (opening closing : Kind) (ts : Window) :
    delimited? opening closing (ts.map f)
      = (delimited? opening closing ts).map (Prod.map (List.map f) (List.map f)) := by
  cases ts with
  | nil => rfl
  | cons t ts =>
    rw [List.map_cons, delimited?, delimited?, hf t]
    split
    · exact toClosing?_map hf opening closing 0 ts
    · rfl

end

theorem consumed_map (f : Token → Token) (ts rest : Window) :
    consumed (ts.map f) (rest.map f) = (consumed ts rest).map f := by
  rw [consumed, consumed, List.length_map, List.length_map, List.map_take]

/-! ### Windows without groups -/

/-- Two neighbours of which the second opens a parenthesis only if the first is an `if`. -/
def OpensBehindIf (t u : Token) : Prop := u.kind = .leftParen → t.kind = .ifWord

instance : DecidableRel OpensBehindIf := fun t u =>
  inferInstanceAs (Decidable (u.kind = .leftParen → t.kind = .ifWord))

/-- Neighbours in a piece of a window are neighbours in the window. -/
theorem OpensBehindIf.chain_of_isInfix {us ts : Window} (hts : ts.IsChain OpensBehindIf)
    (hus : us <:+: ts) : us.IsChain OpensBehindIf :=
  List.IsChain.infix hts hus

/-- Every opening parenthesis of the window stands right behind an `if`. -/
structure Groupless (ts : Window) : Prop where
  /-- So none stands at the start. -/
  first : ¬ StartsWith .leftParen ts
  /-- Behind any other token there is none. -/
  next : ts.IsChain OpensBehindIf

/-- In front of every opening parenthesis of a groupless window there is a token, an `if`. -/
theorem groupless_iff {ts : Window} :
    Groupless ts ↔ ∀ front t behind, ts = front ++ t :: behind → t.kind = .leftParen →
      ∃ before i, front = before ++ [i] ∧ i.kind = .ifWord := by
  constructor
  · intro h front t behind hts ht
    -- The `if` is the last token of the front; an empty front is excluded by `first`.
    rcases List.eq_nil_or_concat front with rfl | ⟨before, i, rfl⟩
    · exact absurd (by rw [hts]; exact startsWith_cons_iff.2 ht) h.first
    · rw [List.concat_eq_append, List.append_assoc, List.singleton_append] at hts
      have hnext := List.isChain_iff_forall_rel_of_append_cons_cons.1 h.next hts
      exact ⟨before, i, List.concat_eq_append, hnext ht⟩
  · intro h
    constructor
    · intro hfirst
      obtain ⟨t, us, rfl, ht⟩ := hfirst
      obtain ⟨before, i, hnil, -⟩ := h [] t us rfl ht
      exact absurd hnil (by simp)
    · refine List.isChain_iff_forall_rel_of_append_cons_cons.2 fun t u front behind hts hu => ?_
      obtain ⟨before, i, hfront, hi⟩ := h (front ++ [t]) u behind (by rw [hts]; simp) hu
      obtain ⟨-, rfl⟩ := List.append_inj' hfront rfl |>.imp_right List.singleton_inj.1
      exact hi

instance (ts : Window) : Decidable (Groupless ts) :=
  decidable_of_iff
    ((ts.head?.any fun t => t.kind = .leftParen) = false ∧ ts.IsChain OpensBehindIf) <| by
    rw [← Bool.not_eq_true, ← startsWith_iff_head?]
    exact ⟨fun h => ⟨h.1, h.2⟩, fun h => ⟨h.first, h.next⟩⟩

/-- What stands behind anything but an `if` in a groupless window is groupless again. -/
theorem Groupless.behind {front ts : Window} {e : Token} (h : Groupless (front ++ e :: ts))
    (he : e.kind ≠ .ifWord) : Groupless ts where
  first := by
    intro hts
    obtain ⟨t, us, rfl, ht⟩ := hts
    have hnext := List.isChain_iff_forall_rel_of_append_cons_cons.1 h.next rfl
    exact he (hnext ht)
  next := OpensBehindIf.chain_of_isInfix h.next ⟨front ++ [e], [], by simp⟩

theorem Groupless.tail {ts : Window} {e : Token} (h : Groupless (e :: ts)) (he : e.kind ≠ .ifWord) :
    Groupless ts :=
  behind (show Groupless ([] ++ e :: ts) from h) he

theorem Groupless.front {front behind : Window} (h : Groupless (front ++ behind)) :
    Groupless front where
  first hfront := h.first (hfront.append behind)
  next := h.next.left_of_append

/-- A window that begins with anything but a parenthesis is groupless if its neighbours are right.
-/
theorem groupless_cons {t : Token} {ts : Window} (ht : t.kind ≠ .leftParen)
    (hts : (t :: ts).IsChain OpensBehindIf) : Groupless (t :: ts) where
  first h := ht (startsWith_cons_iff.1 h)
  next := hts

end Window

end Scriptlet
