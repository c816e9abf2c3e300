import Scriptlet.Proofs.Conditional.Shape
import Scriptlet.Statement

/-!
# The forms of statements

The grammar of statements, said of all the tokens of a statement.  An `if` statement dangles where
its shape does; no other statement does.

## Main definitions

* `Statement.Form levels s dangling ts` — the window `ts` is the statement `s`, whose `if`
  statements take at most so many levels.

## Main results

* `Statement.read_eq_ok_iff` — **a statement is read where its form stands in front.**
* `Statement.read_of_read` — what is read does not depend on what follows, an `else` apart.
-/

namespace Scriptlet.Statement

open Window

/-- An expression in front of a semicolon: at least one token, none of them a semicolon. -/
def IsExpression (body : Window) : Prop := body ≠ [] ∧ ∀ t ∈ body, t.kind ≠ .semicolon

theorem expression_eq_ok_iff {construct : Construct} {ts body rest : Window} :
    expression construct ts = .ok (body, rest) ↔
      IsExpression body ∧ ∃ s, s.kind = .semicolon ∧ ts = body ++ s :: rest := by
  unfold expression IsExpression
  rw [and_assoc, ← untilSemicolon?_eq_some_iff]
  constructor
  · intro h
    split at h
    · cases h
    · cases h
    · rename_i p hne hcut
      cases h
      exact ⟨fun h => hne rest (by rw [← h]), hcut⟩
  · intro h
    obtain ⟨hne, hcut⟩ := h
    rw [hcut]
    cases body with
    | nil => exact absurd rfl hne
    | cons t us => rfl

theorem assignment_eq_ok_iff {construct : Construct} {name : String} {ts rest : Window}
    {s : Statement} :
    assignment construct name ts = .ok (s, rest) ↔
      ∃ e body semicolon, e.kind = .equal ∧ IsExpression body ∧ semicolon.kind = .semicolon ∧
        s = .assign name body ∧ ts = e :: (body ++ semicolon :: rest) := by
  cases ts with
  | nil => simp [assignment]
  | cons e ts =>
    rw [assignment]
    by_cases he : e.kind = .equal
    · rw [if_pos he, map_eq_ok_iff]
      constructor
      · intro h
        obtain ⟨⟨body, r⟩, hbody, heq⟩ := h
        obtain ⟨hexpr, semicolon, hsemi, rfl⟩ := expression_eq_ok_iff.1 hbody
        simp only [Prod.mk.injEq] at heq
        obtain ⟨rfl, rfl⟩ := heq
        exact ⟨e, body, semicolon, he, hexpr, hsemi, rfl, rfl⟩
      · intro h
        obtain ⟨e', body, semicolon, -, hexpr, hsemi, rfl, heq⟩ := h
        have hcut := (List.cons.inj heq).2
        exact ⟨(body, rest), expression_eq_ok_iff.2 ⟨hexpr, semicolon, hsemi, hcut⟩, rfl⟩
    · rw [if_neg he]
      constructor
      · intro h
        cases h
      · intro h
        obtain ⟨e', _, _, he', -, -, -, heq⟩ := h
        exact absurd ((List.cons.inj heq).1 ▸ he') he

theorem declaration_eq_ok_iff {ts rest : Window} {s : Statement} :
    declaration ts = .ok (s, rest) ↔
      ∃ x e body semicolon, x.kind = .identifier ∧ e.kind = .equal ∧ IsExpression body ∧
        semicolon.kind = .semicolon ∧ s = .assign x.lexeme body ∧
        ts = x :: e :: (body ++ semicolon :: rest) := by
  constructor
  · intro h
    unfold declaration at h
    split at h
    · rename_i x u v us
      split at h
      · rename_i hx
        obtain ⟨e, body, semicolon, he, hexpr, hsemi, rfl, heq⟩ := assignment_eq_ok_iff.1 h
        exact ⟨x, e, body, semicolon, hx, he, hexpr, hsemi, rfl, by rw [heq]⟩
      · cases h
    · cases h
  · intro h
    obtain ⟨x, e, body, semicolon, hx, he, hexpr, hsemi, rfl, rfl⟩ := h
    have hread : assignment .declaration x.lexeme (e :: (body ++ semicolon :: rest))
        = .ok (.assign x.lexeme body, rest) :=
      assignment_eq_ok_iff.2 ⟨e, body, semicolon, he, hexpr, hsemi, rfl, rfl⟩
    -- an expression has a token, so there are enough of them
    obtain ⟨hne, -⟩ := hexpr
    cases body with
    | nil => exact absurd rfl hne
    | cons t us =>
      rw [List.cons_append] at hread ⊢
      rw [declaration, if_pos hx, hread]

theorem printing_eq_ok_iff {ts rest : Window} {s : Statement} :
    printing ts = .ok (s, rest) ↔
      ∃ body semicolon, IsExpression body ∧ semicolon.kind = .semicolon ∧ s = .print body ∧
        ts = body ++ semicolon :: rest := by
  constructor
  · intro h
    unfold printing at h
    split at h
    · cases h
    · obtain ⟨⟨body, r⟩, hbody, heq⟩ := map_eq_ok_iff.1 h
      obtain ⟨hexpr, semicolon, hsemi, rfl⟩ := expression_eq_ok_iff.1 hbody
      simp only [Prod.mk.injEq] at heq
      obtain ⟨rfl, rfl⟩ := heq
      exact ⟨body, semicolon, hexpr, hsemi, rfl, rfl⟩
  · intro h
    obtain ⟨body, semicolon, hexpr, hsemi, rfl, rfl⟩ := h
    have hread : expression .print (body ++ semicolon :: rest) = .ok (body, rest) :=
      expression_eq_ok_iff.2 ⟨hexpr, semicolon, hsemi, rfl⟩
    obtain ⟨hne, -⟩ := hexpr
    -- That the body is not empty is tested twice, before and by the expression.
    cases body with
    | nil => exact absurd rfl hne
    | cons t us =>
      rw [List.cons_append] at hread ⊢
      rw [printing, hread]
      · rfl
      · simp

/-! ### The grammar -/

/-- The statements, with all their tokens. -/
inductive Form (levels : Nat) : Statement → Bool → Window → Prop
  | declare {v x e semicolon : Token} {body : Window} (hv : v.kind = .varWord)
      (hx : x.kind = .identifier) (he : e.kind = .equal) (hbody : IsExpression body)
      (hsemi : semicolon.kind = .semicolon) :
      Form levels (.assign x.lexeme body) false (v :: x :: e :: (body ++ [semicolon]))
  | assign {x e semicolon : Token} {body : Window} (hx : x.kind = .identifier)
      (he : e.kind = .equal) (hbody : IsExpression body) (hsemi : semicolon.kind = .semicolon) :
      Form levels (.assign x.lexeme body) false (x :: e :: (body ++ [semicolon]))
  | print {p semicolon : Token} {body : Window} (hp : p.kind = .printWord)
      (hbody : IsExpression body) (hsemi : semicolon.kind = .semicolon) :
      Form levels (.print body) false (p :: (body ++ [semicolon]))
  | conditional {c : Conditional} {dangling : Bool} {ts : Window}
      (h : c.Shape levels dangling ts) : Form levels (.conditional c) dangling ts
  | idle {t : Token} (hvar : t.kind ≠ .varWord) (hname : t.kind ≠ .identifier)
      (hprint : t.kind ≠ .printWord) (hif : t.kind ≠ .ifWord) : Form levels (.idle t) false [t]

theorem Form.ne_nil {levels : Nat} {s : Statement} {dangling : Bool} {ts : Window}
    (h : Form levels s dangling ts) : ts ≠ [] := by
  cases h with
  | conditional hshape =>
    obtain ⟨t, us, rfl, -⟩ := hshape.startsWith
    simp
  | _ => simp

/-- **A statement is read where its form stands in front**, unless it dangles and an `else`
follows. -/
theorem read_eq_ok_iff {limit levels : Nat} {t : Token} {ts rest : Window} {s : Statement} :
    read limit levels t ts = .ok (s, rest) ↔ ∃ dangling front, Form levels s dangling front ∧
      t :: ts = front ++ rest ∧ (dangling = true → ¬ StartsWith .elseWord rest) := by
  constructor
  · intro h
    unfold read at h
    split at h
    · rename_i hv
      obtain ⟨x, e, body, semicolon, hx, he, hbody, hsemi, rfl, rfl⟩ := declaration_eq_ok_iff.1 h
      exact ⟨false, _, .declare hv hx he hbody hsemi, by simp, fun hd => by cases hd⟩
    · rename_i hx
      obtain ⟨e, body, semicolon, he, hbody, hsemi, rfl, rfl⟩ := assignment_eq_ok_iff.1 h
      exact ⟨false, _, .assign hx he hbody hsemi, by simp, fun hd => by cases hd⟩
    · rename_i hp
      obtain ⟨body, semicolon, hbody, hsemi, rfl, rfl⟩ := printing_eq_ok_iff.1 h
      exact ⟨false, _, .print hp hbody hsemi, by simp, fun hd => by cases hd⟩
    · obtain ⟨⟨c, r⟩, hc, heq⟩ := map_eq_ok_iff.1 h
      simp only [Prod.mk.injEq] at heq
      obtain ⟨rfl, rfl⟩ := heq
      obtain ⟨dangling, front, hshape, hts, hrest⟩ := (Conditional.read?_eq_ok_iff _ c r).1 hc
      exact ⟨dangling, front, .conditional hshape, hts, hrest⟩
    · rename_i hvar hname hprint hif
      cases h
      exact ⟨false, [t], .idle hvar hname hprint hif, rfl, fun hd => by cases hd⟩
  · intro h
    obtain ⟨dangling, front, hform, hts, hrest⟩ := h
    cases hform with
    | @declare v x e semicolon body hv hx he hbody hsemi =>
      obtain ⟨rfl, rfl⟩ := List.cons.inj hts
      simp only [read, hv]
      exact declaration_eq_ok_iff.2 ⟨x, e, body, semicolon, hx, he, hbody, hsemi, rfl, by simp⟩
    | @assign x e semicolon body hx he hbody hsemi =>
      obtain ⟨rfl, rfl⟩ := List.cons.inj hts
      simp only [read, hx]
      exact assignment_eq_ok_iff.2 ⟨e, body, semicolon, he, hbody, hsemi, rfl, by simp⟩
    | @print p semicolon body hp hbody hsemi =>
      obtain ⟨rfl, rfl⟩ := List.cons.inj hts
      simp only [read, hp]
      exact printing_eq_ok_iff.2 ⟨body, semicolon, hbody, hsemi, rfl, by simp⟩
    | @conditional c _ _ hshape =>
      have hread : Conditional.read? limit levels (t :: ts) = .ok (c, rest) :=
        (Conditional.read?_eq_ok_iff _ c rest).2 ⟨dangling, front, hshape, hts, hrest⟩
      -- The kind of the first token decides on the branch of the reader; here the form gives it.
      have hstart : StartsWith .ifWord (t :: ts) := by
        rw [hts]
        exact hshape.startsWith.append rest
      have hif : t.kind = .ifWord := startsWith_cons_iff.1 hstart
      simp only [read, hif, hread]
      rfl
    | @idle t' hvar hname hprint hif =>
      obtain ⟨rfl, rfl⟩ := List.cons.inj hts
      simp only [read]

/-- **What is read does not depend on what follows**, as long as no `else` newly comes to follow. -/
theorem read_of_read {limit levels : Nat} {t : Token} {ts rest : Window} {s : Statement}
    (h : read limit levels t ts = .ok (s, rest)) {behind : Window}
    (hbehind : StartsWith .elseWord behind → StartsWith .elseWord rest) :
    ∃ front, ts = front ++ rest ∧ read limit levels t (front ++ behind) = .ok (s, behind) := by
  obtain ⟨dangling, front, hform, hts, hrest⟩ := read_eq_ok_iff.1 h
  cases front with
  | nil => exact absurd rfl hform.ne_nil
  | cons u front =>
    obtain ⟨rfl, rfl⟩ := List.cons.inj hts
    refine ⟨front, rfl, read_eq_ok_iff.2 ⟨dangling, t :: front, hform, rfl, ?_⟩⟩
    intro hd helse
    exact hrest hd (hbehind helse)

end Scriptlet.Statement
