import Scriptlet.Proofs.Machine.Step

/-!
# Levels that are enough

A reader of `if` statements goes down a level for every `if` inside another one, and each of them
begins with a token of its own.  So it never needs more levels than there are `if` tokens ahead.
With as many as that it does not run out of them, and what it finds, be it a statement or what is
wrong with one, does not depend on their number, nor on the limit that they come from.

The readers are compared with those of another nesting level as they stand, error for error; the
grammar alone would only say when they succeed.

## Main results

* `Conditional.read?_congr`, `Script.ofWindow_congr` — **enough levels are as good as any number.**
* `Conditional.lt_tally_of_read?`, `Script.lt_tally_of_fault` — whoever runs out of levels has more
  `if` tokens ahead than levels.
-/

namespace Scriptlet

open Window

theorem Window.tally_le_of_suffix {kind : Kind} {rest ts : Window} (h : rest <:+ ts) :
    tally kind rest ≤ tally kind ts :=
  h.countP_le

theorem Window.tally_cons_self {kind : Kind} {t : Token} (ht : t.kind = kind) (ts : Window) :
    tally kind (t :: ts) = tally kind ts + 1 := by
  rw [tally_cons, if_pos ht]

namespace Conditional

/-! ### Readers of the level below -/

section

variable {nested nested' : Window → Except Fault (Conditional × Window)} {missing : Malformation}
  {ts : Window} {f : Fault}

/-- A body is read with the reader of the level below only where it begins with `if`. -/
theorem body?_congr (h : StartsWith .ifWord ts → nested ts = nested' ts) :
    body? nested missing ts = body? nested' missing ts := by
  by_cases hts : StartsWith .ifWord ts
  · rw [body?_of_ifWord hts, body?_of_ifWord hts, h hts]
  · cases ts with
    | nil => rfl
    | cons t us =>
      rw [startsWith_cons_iff] at hts
      -- of all bodies only one that begins with `if` is read by the reader
      unfold body?
      dsimp only
      split
      · rfl
      · rfl
      · rfl
      · rename_i hif
        exact absurd hif hts
      · rfl

/-- An `else` clause is read with the reader of the level below only at an `if` in it. -/
theorem elseClause?_congr
    (h : ∀ us, us <:+ ts → StartsWith .ifWord us → nested us = nested' us) :
    elseClause? nested ts = elseClause? nested' ts := by
  cases ts with
  | nil => rfl
  | cons e us =>
    have hus : StartsWith .ifWord us → nested us = nested' us := h us (List.suffix_cons e us)
    -- the reader is called behind the `else` or not at all
    have halternative : alternative? nested us = alternative? nested' us := by
      unfold alternative?
      by_cases hif : StartsWith .ifWord us
      · rw [if_pos (startsWith_iff_head?.1 hif), if_pos (startsWith_iff_head?.1 hif), hus hif]
      · rw [body?_congr hus]
        have hother : ¬ (us.head?.any fun t => t.kind = .ifWord) = true := fun h =>
          hif (startsWith_iff_head?.2 h)
        rw [if_neg hother, if_neg hother]
    rw [elseClause?, elseClause?, halternative]

theorem exists_malformation_of_condition? (h : condition? ts = .error f) :
    ∃ reason, f = .malformedIf reason := by
  unfold condition? at h
  split at h <;> cases h <;> exact ⟨_, rfl⟩

/-- A body is malformed itself, or the `if` is that it begins with. -/
theorem body?_error_cases (h : body? nested missing ts = .error f) :
    (∃ reason, f = .malformedIf reason) ∨ (StartsWith .ifWord ts ∧ nested ts = .error f) := by
  by_cases hts : StartsWith .ifWord ts
  · rw [body?_of_ifWord hts, map_eq_error_iff] at h
    exact .inr ⟨hts, h⟩
  · -- without an `if` in front, the body is malformed by its first token or by its end
    left
    unfold body? at h
    split at h
    · cases h
      exact ⟨missing, rfl⟩
    · split at h
      · cases h
        exact ⟨missing, rfl⟩
      · cases h
        exact ⟨missing, rfl⟩
      · split at h <;> cases h
        exact ⟨_, rfl⟩
      · rename_i hif
        exact absurd (startsWith_cons_iff.2 hif) hts
      · split at h <;> cases h
        exact ⟨_, rfl⟩

/-- An `else` clause is malformed itself, or an `if` in it is. -/
theorem elseClause?_error_cases (h : elseClause? nested ts = .error f) :
    (∃ reason, f = .malformedIf reason) ∨
      ∃ us, us <:+ ts ∧ StartsWith .ifWord us ∧ nested us = .error f := by
  unfold elseClause? at h
  split at h
  · cases h
  · rename_i e us
    split at h
    · have h : alternative? nested us = .error f := map_eq_error_iff.1 h
      have hus : us <:+ e :: us := List.suffix_cons e us
      unfold alternative? at h
      split at h
      · -- an `else if`: the fault is that of the `if`
        rename_i hif
        exact .inr ⟨us, hus, startsWith_iff_head?.2 hif, map_eq_error_iff.1 h⟩
      · rcases body?_error_cases (map_eq_error_iff.1 h) with hreason | ⟨hif, hnested⟩
        · exact .inl hreason
        · exact .inr ⟨us, hus, hif, hnested⟩
    · cases h

end

/-! ### `if` statements -/

variable {limit limit' levels levels' : Nat} {ts : Window}

/-- What is wrong with an `if` statement is its own shape, or what is wrong with an `if` in it. -/
theorem read?_error_cases {i : Token} {f : Fault}
    (h : read? limit (levels + 1) (i :: ts) = .error f) :
    (∃ reason, f = .malformedIf reason) ∨
      ∃ us, us <:+ ts ∧ StartsWith .ifWord us ∧ read? limit levels us = .error f := by
  rw [read?] at h
  split at h
  · -- the condition, the body and the `else` clause may fail, in this order
    rcases bind_eq_error_iff.1 h with hcond | ⟨⟨condition, r₁⟩, hcond, h⟩
    · exact .inl (exists_malformation_of_condition? hcond)
    · have h₁ : r₁ <:+ ts := (behind_of_condition? hcond).suffix
      rcases bind_eq_error_iff.1 h with hbody | ⟨⟨body, r₂⟩, hbody, h⟩
      · rcases body?_error_cases hbody with hreason | ⟨hif, hnested⟩
        · exact .inl hreason
        · exact .inr ⟨r₁, h₁, hif, hnested⟩
      · have h₂ : r₂ <:+ r₁ := (behind_of_body? behind_of_read? hbody).suffix
        rcases bind_eq_error_iff.1 h with helse | ⟨⟨alternative, r₃⟩, -, h⟩
        · rcases elseClause?_error_cases helse with hreason | ⟨us, hus, hif, hnested⟩
          · exact .inl hreason
          · exact .inr ⟨us, hus.trans (h₂.trans h₁), hif, hnested⟩
        · cases h
  · cases h
    exact .inl ⟨.noIf, rfl⟩

/-- Whoever runs out of levels says what the limit is. -/
theorem eq_limit_of_read? {n : Nat} (h : read? limit levels ts = .error (.tooDeep n)) :
    n = limit := by
  induction levels generalizing ts with
  | zero =>
    cases h
    rfl
  | succ levels ih =>
    cases ts with
    | nil => cases h
    | cons i us =>
      rcases read?_error_cases h with ⟨reason, hreason⟩ | ⟨vs, -, -, hnested⟩
      · cases hreason
      · exact ih hnested

/-- **Whoever runs out of levels has more `if` tokens ahead than levels**: one begins the statement
that is refused, and one each of those around it. -/
theorem lt_tally_of_read? {n : Nat} (hts : StartsWith .ifWord ts)
    (h : read? limit levels ts = .error (.tooDeep n)) : levels < tally .ifWord ts := by
  induction levels generalizing ts with
  | zero =>
    obtain ⟨i, us, rfl, hi⟩ := hts
    rw [tally_cons_self hi]
    omega
  | succ levels ih =>
    obtain ⟨i, us, rfl, hi⟩ := hts
    rcases read?_error_cases h with ⟨reason, hreason⟩ | ⟨vs, hvs, hif, hnested⟩
    · cases hreason
    · -- the `if` in front is one more than those of the window that fails
      have hlt : levels < tally .ifWord vs := ih hif hnested
      have hle : tally .ifWord vs ≤ tally .ifWord us := tally_le_of_suffix hvs
      rw [tally_cons_self hi]
      omega

/-- **Enough levels are as good as any number**, under any limit. -/
theorem read?_congr (hts : StartsWith .ifWord ts) (h : tally .ifWord ts ≤ levels)
    (h' : tally .ifWord ts ≤ levels') : read? limit levels ts = read? limit' levels' ts := by
  induction levels generalizing levels' ts with
  | zero =>
    obtain ⟨i, us, rfl, hi⟩ := hts
    rw [tally_cons_self hi] at h
    omega
  | succ levels ih =>
    obtain ⟨i, us, rfl, hi⟩ := hts
    rw [tally_cons_self hi] at h h'
    obtain ⟨below, rfl⟩ : ∃ below, levels' = below + 1 := ⟨levels' - 1, by omega⟩
    -- behind the first token there is one `if` token less, so one level less is enough
    have hnested {vs : Window} (hvs : vs <:+ us) (hif : StartsWith .ifWord vs) :
        read? limit levels vs = read? limit' below vs := by
      have hle : tally .ifWord vs ≤ tally .ifWord us := tally_le_of_suffix hvs
      exact ih hif (by omega) (by omega)
    rw [read?, read?, if_pos hi, if_pos hi]
    cases hcond : condition? us with
    | error f => rfl
    | ok p =>
      obtain ⟨condition, r₁⟩ := p
      have h₁ : r₁ <:+ us := (behind_of_condition? hcond).suffix
      have hbodies : body? (read? limit levels) .missingBody r₁
          = body? (read? limit' below) .missingBody r₁ := body?_congr (hnested h₁)
      simp only [bind, Except.bind, hbodies]
      cases hbody : body? (read? limit' below) .missingBody r₁ with
      | error f => rfl
      | ok q =>
        obtain ⟨body, r₂⟩ := q
        have h₂ : r₂ <:+ r₁ := (behind_of_body? behind_of_read? hbody).suffix
        have helses : elseClause? (read? limit levels) r₂ = elseClause? (read? limit' below) r₂ :=
          elseClause?_congr fun vs hvs hif => hnested (hvs.trans (h₂.trans h₁)) hif
        simp only [helses]

end Conditional

/-! ### Statements -/

namespace Statement

variable {limit limit' levels levels' : Nat} {t : Token} {ts : Window} {n : Nat}

theorem expression_ne_tooDeep {construct : Construct} :
    expression construct ts ≠ .error (.tooDeep n) := by
  intro h
  unfold expression at h
  split at h <;> cases h

theorem assignment_ne_tooDeep {construct : Construct} {name : String} :
    assignment construct name ts ≠ .error (.tooDeep n) := by
  intro h
  unfold assignment at h
  split at h
  · cases h
  · split at h
    · exact expression_ne_tooDeep (map_eq_error_iff.1 h)
    · cases h

/-- Only an `if` statement can run out of levels. -/
theorem read?_of_read_tooDeep (h : read limit levels t ts = .error (.tooDeep n)) :
    t.kind = .ifWord ∧ Conditional.read? limit levels (t :: ts) = .error (.tooDeep n) := by
  -- a declaration, an assignment and a print fail for other reasons
  unfold read at h
  split at h
  · unfold declaration at h
    split at h
    · split at h
      · exact absurd h assignment_ne_tooDeep
      · cases h
    · cases h
  · exact absurd h assignment_ne_tooDeep
  · unfold printing at h
    split at h
    · cases h
    · exact absurd (map_eq_error_iff.1 h) expression_ne_tooDeep
  · rename_i hif
    exact ⟨hif, map_eq_error_iff.1 h⟩
  · cases h

theorem lt_tally_of_read (h : read limit levels t ts = .error (.tooDeep n)) :
    levels < tally .ifWord (t :: ts) := by
  obtain ⟨hif, hread⟩ := read?_of_read_tooDeep h
  exact Conditional.lt_tally_of_read? (startsWith_cons_iff.2 hif) hread

theorem read_congr (h : tally .ifWord (t :: ts) ≤ levels) (h' : tally .ifWord (t :: ts) ≤ levels') :
    read limit levels t ts = read limit' levels' t ts := by
  unfold read
  split
  · rfl
  · rfl
  · rfl
  · rename_i hif
    rw [Conditional.read?_congr (startsWith_cons_iff.2 hif) h h']
  · rfl

end Statement

/-! ### Scripts -/

namespace Script

variable {limit limit' levels levels' : Nat} {ts : Window}

/-- A script that runs out of levels has more `if` tokens than levels. -/
theorem lt_tally_of_fault {n : Nat} (h : (ofWindow limit levels ts).fault = some (.tooDeep n)) :
    levels < tally .ifWord ts := by
  fun_induction ofWindow limit levels ts with
  | case1 => cases h
  | case2 t ts f hread =>
    cases h
    exact Statement.lt_tally_of_read hread
  | case3 t ts s rest hread hle tail ih =>
    have hrest : rest <:+ t :: ts :=
      (Statement.suffix_of_read hread).trans (List.suffix_cons t ts)
    exact Nat.lt_of_lt_of_le (ih h) (tally_le_of_suffix hrest)

/-- **Enough levels are as good as any number**: the script of a window is always the same then. -/
theorem ofWindow_congr (h : tally .ifWord ts ≤ levels) (h' : tally .ifWord ts ≤ levels') :
    ofWindow limit levels ts = ofWindow limit' levels' ts := by
  fun_induction ofWindow limit levels ts with
  | case1 => rw [ofWindow_nil]
  | case2 t ts f hread =>
    rw [Statement.read_congr h h'] at hread
    rw [ofWindow_of_error hread]
  | case3 t ts s rest hread hle tail ih =>
    have hrest : tally .ifWord rest ≤ tally .ifWord (t :: ts) :=
      tally_le_of_suffix ((Statement.suffix_of_read hread).trans (List.suffix_cons t ts))
    rw [Statement.read_congr h h'] at hread
    rw [ofWindow_of_ok hread, ← ih (Nat.le_trans hrest h) (Nat.le_trans hrest h')]

end Script

end Scriptlet
