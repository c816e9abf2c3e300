import Scriptlet.Proofs.Machine.Depth

/-!
# Running comes to an end

A window is run in turns.  A turn reads the statement in front and executes it; then the run has
failed, or it goes on with the tokens behind the statement.  A statement has at least one token, so
fewer are left: all up to a semicolon for declarations, assignments and prints, all up to a
semicolon or a closing brace for an `if` statement, and one token that begins no statement.

An `if` statement is executed by running one of its windows, one level below.  Those are pieces of
the statement, and shorter.  So what is run next is always shorter than what is run now, in the next
turn as well as one level below, and it takes no limit on the levels for a run to end.

## Main definitions

* `Machine.turn` — one turn of a run: what it comes to, and the tokens that are left.
* `Window.EndsBody` — a window ends in a semicolon or in a closing brace.
* `Window.Continues` — what may be run next, in a turn or one level below.

## Main results

* `Machine.run_cons` — a run is a turn, and the run of what that leaves.
* `Statement.Form.terminated`, `Conditional.Shape.endsBody` — how statements end.
* `Statement.exec_congr` — a statement runs pieces of itself only, and shorter ones.
* `Window.wellFounded_continues` — nothing is run for ever.
* `Machine.turn_progress` — **every turn fails or makes progress, and runs end without a limit.**
-/

namespace Scriptlet

open Window

/-! ### Turns -/

namespace Machine

/-- One turn of running a window that begins with the token `t`: the first statement is read and
executed.  With the tokens that are left. -/
def turn (limit levels : Nat) (t : Token) (ts : Window) (m : Machine) : Outcome × Window :=
  match Statement.read limit (levels + 1) t ts with
  | .error f => (.failed m f, t :: ts)
  | .ok (s, rest) => (s.exec limit (fun ts m => m.run limit levels ts) m, rest)

variable {limit levels : Nat} {t : Token} {ts rest : Window} {s : Statement} {m : Machine}

theorem turn_of_ok (h : Statement.read limit (levels + 1) t ts = .ok (s, rest)) :
    m.turn limit levels t ts = (s.exec limit (fun ts m => m.run limit levels ts) m, rest) := by
  rw [turn, h]

theorem turn_of_error {f : Fault} (h : Statement.read limit (levels + 1) t ts = .error f) :
    m.turn limit levels t ts = (.failed m f, t :: ts) := by
  rw [turn, h]

/-- **A run is a turn, and the run of what that leaves**, unless the turn fails. -/
theorem run_cons (limit levels : Nat) (t : Token) (ts : Window) (m : Machine) :
    m.run limit (levels + 1) (t :: ts) = (m.turn limit levels t ts).1.andThen fun m' =>
      m'.run limit (levels + 1) (m.turn limit levels t ts).2 := by
  cases h : Statement.read limit (levels + 1) t ts with
  | error f => rw [run_of_read_error h, turn_of_error h, Outcome.andThen_failed]
  | ok p =>
    obtain ⟨s, rest⟩ := p
    rw [run_of_read_ok h, turn_of_ok h]

end Machine

/-! ### How statements end -/

namespace Window

/-- The last token is a semicolon or a closing brace. -/
def EndsBody (ts : Window) : Prop :=
  ∃ front t, ts = front ++ [t] ∧ (t.kind = .semicolon ∨ t.kind = .rightBrace)

variable {ts : Window}

theorem EndsBody.append (h : EndsBody ts) (front : Window) : EndsBody (front ++ ts) := by
  obtain ⟨us, t, rfl, ht⟩ := h
  exact ⟨front ++ us, t, (List.append_assoc front us [t]).symm, ht⟩

theorem EndsBody.cons (h : EndsBody ts) (t : Token) : EndsBody (t :: ts) := h.append [t]

theorem Terminated.endsBody (h : Terminated ts) : EndsBody ts := by
  obtain ⟨front, t, -, ht, rfl⟩ := h
  exact ⟨front, t, rfl, .inl ht⟩

theorem Terminated.cons (h : Terminated ts) {t : Token} (ht : t.kind ≠ .semicolon) :
    Terminated (t :: ts) := by
  obtain ⟨front, s, hfront, hs, rfl⟩ := h
  exact ⟨t :: front, s, List.forall_mem_cons.2 ⟨ht, hfront⟩, hs, rfl⟩

end Window

namespace Conditional

theorem PlainBody.endsBody {inner ts : Window} (h : PlainBody inner ts) : EndsBody ts := by
  cases h with
  | braced h =>
    obtain ⟨-, s, t, -, ht, rfl⟩ := h
    exact ⟨s :: inner, t, rfl, .inr ht⟩
  | simple _ _ _ _ h => exact h.endsBody

/-- **An `if` statement ends in a semicolon or in a closing brace**, for its last body does.  The
induction is on the levels, as a body may be an `if` statement again. -/
theorem Shape.endsBody {levels : Nat} {c : Conditional} {dangling : Bool} {ts : Window}
    (h : Shape levels c dangling ts) : EndsBody ts := by
  induction levels generalizing c dangling ts with
  | zero => exact absurd h (shape_zero c dangling ts)
  | succ levels ih =>
    cases h with
    | @short i condition head body us d hi hhead hne hbody =>
      have hus : EndsBody us := by
        cases hbody with
        | plain h => exact h.endsBody
        | nested h => exact ih h
      exact (hus.append head).cons i
    | @long i e condition head body us vs alternative d hi hhead hne hbody he halternative =>
      have hvs : EndsBody vs := by
        cases halternative with
        | plain h => exact h.endsBody
        | nested h => exact ih h
      exact (((hvs.cons e).append us).append head).cons i

end Conditional

namespace Statement

variable {levels : Nat} {s : Statement} {dangling : Bool} {t : Token} {us : Window}

theorem IsExpression.terminated {body : Window} (h : IsExpression body) {semicolon : Token}
    (hsemi : semicolon.kind = .semicolon) : Terminated (body ++ [semicolon]) :=
  ⟨body, semicolon, h.2, hsemi, rfl⟩

/-- **Declarations, assignments and prints end at their only semicolon.** -/
theorem Form.terminated (h : Form levels s dangling (t :: us))
    (ht : t.kind = .varWord ∨ t.kind = .identifier ∨ t.kind = .printWord) :
    Terminated (t :: us) := by
  cases h with
  | declare hv hx he hbody hsemi =>
    exact (((hbody.terminated hsemi).cons (by simp [he])).cons (by simp [hx])).cons (by simp [hv])
  | assign hx he hbody hsemi =>
    exact ((hbody.terminated hsemi).cons (by simp [he])).cons (by simp [hx])
  | print hp hbody hsemi => exact (hbody.terminated hsemi).cons (by simp [hp])
  | conditional h =>
    have hif : t.kind = .ifWord := startsWith_cons_iff.1 h.startsWith
    simp [hif] at ht
  -- An idle token is none of the three words, so this form is not in question.
  | idle hvar hname hprint =>
    rcases ht with ht | ht | ht
    · exact absurd ht hvar
    · exact absurd ht hname
    · exact absurd ht hprint

/-- What begins with `if` is an `if` statement, and ends as one. -/
theorem Form.endsBody (h : Form levels s dangling (t :: us)) (ht : t.kind = .ifWord) :
    EndsBody (t :: us) := by
  cases h with
  | declare hv => simp [hv] at ht
  | assign hx => simp [hx] at ht
  | print hp => simp [hp] at ht
  | conditional h => exact h.endsBody
  | idle _ _ _ hif => exact absurd ht hif

end Statement

/-! ### What is run below -/

section

variable {limit : Nat} {enter enter' : Window → Machine → Outcome} {m : Machine}

theorem Conditional.exec_congr {c : Conditional} (hbody : enter c.body = enter' c.body)
    (halternative : ∀ a, c.alternative = some a → enter a.tokens = enter' a.tokens) :
    c.exec limit enter m = c.exec limit enter' m := by
  obtain ⟨v, m', htest, hcases⟩ := c.exec_cases limit enter m
  rcases hcases with ⟨rfl, hexec⟩ | ⟨rfl, hexec⟩ | ⟨hv, hexec⟩
  · rw [hexec, exec_of_true htest, hbody]
  · rw [hexec, exec_of_false htest]
    cases ha : c.alternative with
    | none => rfl
    | some a => simp only [halternative a ha]
  · rw [hexec, exec_of_invalid htest hv]

/-- **A statement runs pieces of itself only, and shorter ones**: it does the same however other
windows are run. -/
theorem Statement.exec_congr {levels : Nat} {s : Statement} {dangling : Bool} {span : Window}
    (h : s.Form levels dangling span)
    (henter : ∀ w, w <:+: span → w.length < span.length → enter w = enter' w) :
    s.exec limit enter m = s.exec limit enter' m := by
  have hwithin := h.within
  cases s with
  | assign name body => rfl
  | print body => rfl
  | idle t => rfl
  | conditional c =>
    obtain ⟨-, hbody, halternative⟩ := hwithin
    exact Conditional.exec_congr (henter _ hbody.1 hbody.2) fun a ha =>
      henter _ (halternative a ha).1 (halternative a ha).2

end

/-! ### Nothing is run for ever -/

/-- The first window may be run next when the second one is run, under whatever limit: it is left
behind the first statement of it, or that is an `if` statement which runs it. -/
inductive Window.Continues : Window → Window → Prop
  | behind {limit levels : Nat} {t : Token} {ts rest : Window} {s : Statement}
      (h : Statement.read limit levels t ts = .ok (s, rest)) : Continues rest (t :: ts)
  | body {limit levels : Nat} {t : Token} {ts rest : Window} {c : Conditional}
      (h : Statement.read limit levels t ts = .ok (.conditional c, rest)) :
      Continues c.body (t :: ts)
  | alternative {limit levels : Nat} {t : Token} {ts rest : Window} {c : Conditional}
      {a : Alternative} (h : Statement.read limit levels t ts = .ok (.conditional c, rest))
      (ha : c.alternative = some a) : Continues a.tokens (t :: ts)

theorem Window.Continues.length_lt {w ts : Window} (h : Continues w ts) : w.length < ts.length := by
  -- What is read in front and what is left behind it are the window.
  have hfront {limit levels : Nat} {t : Token} {us rest : Window} {s : Statement}
      (h : Statement.read limit levels t us = .ok (s, rest)) :
      ∃ dangling span, s.Form levels dangling span ∧
        span.length + rest.length = (t :: us).length := by
    obtain ⟨dangling, span, hform, hts, -⟩ := Statement.read_eq_ok_iff.1 h
    exact ⟨dangling, span, hform, by rw [hts, List.length_append]⟩
  cases h with
  | behind h => exact Nat.lt_succ_of_le (Statement.suffix_of_read h).length_le
  | body h =>
    obtain ⟨dangling, span, hform, hlength⟩ := hfront h
    have hlt := hform.within.body.2
    omega
  | alternative h ha =>
    obtain ⟨dangling, span, hform, hlength⟩ := hfront h
    have hlt := (hform.within.alternative _ ha).2
    omega

/-- **Nothing is run for ever**: there is no endless chain of windows that are run one after another
or one inside of another. -/
theorem Window.wellFounded_continues : WellFounded Continues :=
  Subrelation.wf Continues.length_lt (measure List.length).wf

namespace Machine

/-- **Every turn fails or makes progress, and runs end without a limit.**  A turn either ends the
run in its own fault, or it passes over the tokens of one statement and the run goes on behind them;
they end at their only semicolon if it is a declaration, an assignment or a print, and in a
semicolon or a closing brace if it is an `if` statement.  Executing a statement runs nothing but
pieces of it that are shorter.  So no chain of windows that are run next is endless; and as soon as
a limit and the levels cover the tokens of a window, the run is always the same and is never refused
a level. -/
theorem turn_progress (limit levels : Nat) (t : Token) (ts : Window) (m : Machine) :
    ((∃ f, (m.turn limit levels t ts).1.fault = some f ∧
        m.run limit (levels + 1) (t :: ts) = (m.turn limit levels t ts).1) ∨
      ∃ m' span rest, m.turn limit levels t ts = (.done m', rest) ∧
        m.run limit (levels + 1) (t :: ts) = m'.run limit (levels + 1) rest ∧
        t :: ts = span ++ rest ∧ span ≠ [] ∧
        (t.kind = .varWord ∨ t.kind = .identifier ∨ t.kind = .printWord → Terminated span) ∧
        (t.kind = .ifWord → EndsBody span)) ∧
    (∀ s rest, Statement.read limit (levels + 1) t ts = .ok (s, rest) →
      ∃ span, t :: ts = span ++ rest ∧
        s.Within (fun w => w <:+: span ∧ w.length < span.length) ∧
        ∀ enter, (∀ w, w <:+: span → w.length < span.length →
          enter w = fun m => m.run limit levels w) →
          m.turn limit levels t ts = (s.exec limit enter m, rest)) ∧
    WellFounded Continues ∧
    ∃ o : Outcome, ∀ limit' levels', (t :: ts).length ≤ limit' → (t :: ts).length < levels' →
      m.run limit' levels' (t :: ts) = o ∧
        ∀ f n, o.fault = some f → ¬ (Fault.tooDeep n).Inside f := by
  refine ⟨?_, ?_, wellFounded_continues, ?_⟩
  · -- The turn ends the run if the statement is malformed or fails; else the run goes on behind it.
    rw [run_cons]
    cases hread : Statement.read limit (levels + 1) t ts with
    | error f =>
      rw [turn_of_error hread]
      exact .inl ⟨f, rfl, rfl⟩
    | ok p =>
      obtain ⟨s, rest⟩ := p
      rw [turn_of_ok hread]
      obtain ⟨m', fault⟩ := s.exec limit (fun ts m => m.run limit levels ts) m
      cases fault with
      | some f => exact .inl ⟨f, rfl, rfl⟩
      | none =>
        obtain ⟨dangling, span, hform, hts, -⟩ := Statement.read_eq_ok_iff.1 hread
        refine .inr ⟨m', span, rest, rfl, rfl, hts, hform.ne_nil, ?_⟩
        cases span with
        | nil => exact absurd rfl hform.ne_nil
        | cons u us =>
          obtain ⟨rfl, -⟩ := List.cons.inj hts
          exact ⟨hform.terminated, hform.endsBody⟩
  · intro s rest hread
    obtain ⟨dangling, span, hform, hts, -⟩ := Statement.read_eq_ok_iff.1 hread
    refine ⟨span, hts, hform.within, fun enter henter => ?_⟩
    rw [turn_of_ok hread, Statement.exec_congr hform fun w hw hlt => (henter w hw hlt).symm]
  · -- The outcome is that of the least limit and levels that cover the window.
    refine ⟨m.run (t :: ts).length ((t :: ts).length + 1) (t :: ts), ?_⟩
    intro limit' levels' hlimit hlevels
    refine ⟨run_eq_of_length_lt hlimit (Nat.le_refl _) hlevels (Nat.lt_succ_self _),
      fun f n hf => ?_⟩
    exact not_inside_tooDeep (Nat.lt_succ_of_le List.countP_le_length) hf

/-- An `if` statement that runs its body on the last level, and an assignment behind it. -/
theorem turn_progress_braced :
    let word (kind : Kind) : Token := ⟨kind, "x", 1⟩
    let behind := [word .identifier, word .equal, word .trueWord, word .semicolon]
    let us := [word .leftParen, word .trueWord, word .rightParen, word .leftBrace, word .printWord,
      word .trueWord, word .semicolon, word .rightBrace] ++ behind
    let m := Machine.fresh .unlimited
    (m.turn 1 1 (word .ifWord) us).1.fault = none ∧ (word .ifWord).kind = .ifWord ∧
      ∃ m' span, m.turn 1 1 (word .ifWord) us = (.done m', behind) ∧
        m.run 1 2 (word .ifWord :: us) = m'.run 1 2 behind ∧
        word .ifWord :: us = span ++ behind ∧ span ≠ [] ∧ EndsBody span := by
  intro word behind us m
  have hfault : (m.turn 1 1 (word .ifWord) us).1.fault = none := by decide +kernel
  have hleft : (m.turn 1 1 (word .ifWord) us).2 = behind := by decide +kernel
  refine ⟨hfault, rfl, ?_⟩
  rcases (turn_progress 1 1 (word .ifWord) us m).1 with
    ⟨f, hf, -⟩ | ⟨m', span, rest, hturn, hrun, hts, hne, -, hends⟩
  · rw [hfault] at hf
    cases hf
  · rw [hturn] at hleft
    obtain rfl : rest = behind := hleft
    exact ⟨m', span, hturn, hrun, hts, hne, hends rfl⟩

end Machine

end Scriptlet
