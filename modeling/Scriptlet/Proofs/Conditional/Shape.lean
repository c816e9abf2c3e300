import Scriptlet.Proofs.Window.Cut
import Scriptlet.Statement.Conditional

/-!
# The shapes of `if` statements

The grammar of `if` statements, said of the tokens of a whole statement and without the functions
that look for one.  A shape *dangles* if the statement ends in an `if` without an `else`: an `else`
right behind it would have been read as part of it.  So a statement that dangles can stand in front
of anything but an `else`, and one that does not can stand in front of anything at all.

The grammar of a nesting level is given in terms of the one below, as the reader is.

## Main definitions

* `Conditional.Shape levels c dangling ts` — the window `ts` is an `if` statement with the parts
  `c` that takes at most so many levels.

## Main results

* `Conditional.read?_eq_ok_iff` — **the reader finds exactly the shapes.**
* `Conditional.read?_of_read?` — what is read does not depend on what follows, an `else` apart.
-/

namespace Scriptlet.Conditional

open Window

/-! ### The grammar -/

/-- A body that is no `if` statement: the inside of braces, or a run up to a semicolon that is run
with it. -/
inductive PlainBody : Window → Window → Prop
  | braced {inner ts : Window} (h : Encloses .leftBrace .rightBrace inner ts) : PlainBody inner ts
  | simple {t : Token} {ts : Window} (hbrace : t.kind ≠ .leftBrace) (hclose : t.kind ≠ .rightBrace)
      (helse : t.kind ≠ .elseWord) (hif : t.kind ≠ .ifWord) (h : Terminated (t :: ts)) :
      PlainBody (t :: ts) (t :: ts)

section

variable (nested : Conditional → Bool → Window → Prop)

/-- A body behind a condition: the part to be run, whether it dangles, and all its tokens. -/
inductive Body : Window → Bool → Window → Prop
  | plain {inner ts : Window} (h : PlainBody inner ts) : Body inner false ts
  | nested {c : Conditional} {dangling : Bool} {ts : Window} (h : nested c dangling ts) :
      Body ts dangling ts

/-- What stands behind an `else`, whether it dangles, and all its tokens. -/
inductive Otherwise : Alternative → Bool → Window → Prop
  | plain {inner ts : Window} (h : PlainBody inner ts) : Otherwise (.block inner) false ts
  | nested {c : Conditional} {dangling : Bool} {ts : Window} (h : nested c dangling ts) :
      Otherwise (.elseIf ts) dangling ts

/-- An `if` statement whose inner ones are given by `nested`. -/
inductive Form : Conditional → Bool → Window → Prop
  | short {i : Token} {condition head body ts : Window} {dangling : Bool} (hi : i.kind = .ifWord)
      (hhead : Encloses .leftParen .rightParen condition head) (hne : condition ≠ [])
      (hbody : Body nested body dangling ts) :
      Form ⟨condition, body, none⟩ true (i :: (head ++ ts))
  | long {i e : Token} {condition head body ts us : Window} {alternative : Alternative}
      {dangling : Bool} (hi : i.kind = .ifWord)
      (hhead : Encloses .leftParen .rightParen condition head) (hne : condition ≠ [])
      (hbody : Body nested body false ts) (he : e.kind = .elseWord)
      (helse : Otherwise nested alternative dangling us) :
      Form ⟨condition, body, some alternative⟩ dangling (i :: (head ++ (ts ++ e :: us)))

end

/-- The `if` statements that take at most so many levels. -/
def Shape : Nat → Conditional → Bool → Window → Prop
  | 0 => fun _ _ _ => False
  | levels + 1 => Form (Shape levels)

theorem shape_zero (c : Conditional) (dangling : Bool) (ts : Window) :
    ¬ Shape 0 c dangling ts := id

theorem PlainBody.not_startsWith {inner ts : Window} (h : PlainBody inner ts) (rest : Window) :
    ¬ StartsWith .ifWord (ts ++ rest) := by
  intro hif
  cases h with
  | braced h =>
    obtain ⟨t, us, rfl, ht⟩ := h.startsWith
    rw [List.cons_append, startsWith_cons_iff, ht] at hif
    cases hif
  | simple _ _ _ h _ =>
    rw [List.cons_append, startsWith_cons_iff] at hif
    exact h hif

theorem Shape.startsWith {levels : Nat} {c : Conditional} {dangling : Bool} {ts : Window}
    (h : Shape levels c dangling ts) : StartsWith .ifWord ts := by
  cases levels with
  | zero => exact absurd h (shape_zero c dangling ts)
  | succ levels =>
    cases h with
    | short hi => exact startsWith_cons_iff.2 hi
    | long hi => exact startsWith_cons_iff.2 hi

/-! ### Reading the parts -/

theorem untilSemicolon?_eq_some_iff_terminated {ts rest : Window} :
    (∃ front, untilSemicolon? ts = some (front, rest)) ↔
      ∃ front, Terminated front ∧ ts = front ++ rest := by
  constructor
  · intro h
    obtain ⟨front, h⟩ := h
    obtain ⟨hfront, t, ht, rfl⟩ := untilSemicolon?_eq_some_iff.1 h
    exact ⟨front ++ [t], ⟨front, t, hfront, ht, rfl⟩, by simp⟩
  · intro h
    obtain ⟨-, ⟨front, t, hfront, ht, rfl⟩, rfl⟩ := h
    exact ⟨front, untilSemicolon?_eq_some_iff.2 ⟨hfront, t, ht, by simp⟩⟩

section

variable {read : Window → Except Fault (Conditional × Window)} {missing : Malformation}

theorem body?_of_leftBrace {t : Token} {ts inner rest : Window} (ht : t.kind = .leftBrace)
    (hcut : delimited? .leftBrace .rightBrace (t :: ts) = some (inner, rest)) :
    body? read missing (t :: ts) = .ok (inner, rest) := by
  simp only [body?, ht, hcut]

theorem body?_of_ifWord {ts : Window} (hts : StartsWith .ifWord ts) :
    body? read missing ts = (read ts).map fun p => (ts.consumed p.2, p.2) := by
  obtain ⟨t, us, rfl, ht⟩ := hts
  simp only [body?, ht]

theorem body?_of_other {t : Token} {ts front rest : Window} (hbrace : t.kind ≠ .leftBrace)
    (hclose : t.kind ≠ .rightBrace) (helse : t.kind ≠ .elseWord) (hif : t.kind ≠ .ifWord)
    (hcut : untilSemicolon? (t :: ts) = some (front, rest)) :
    body? read missing (t :: ts) = .ok (consumed (t :: ts) rest, rest) := by
  simp only [body?, hcut]

/-- A body that is no `if` statement is read as such, whatever follows it. -/
theorem body?_eq_ok_iff_plain {ts body rest : Window} (hts : ¬ StartsWith .ifWord ts) :
    body? read missing ts = .ok (body, rest) ↔
      ∃ front, PlainBody body front ∧ ts = front ++ rest := by
  constructor
  · intro h
    unfold body? at h
    split at h
    · cases h
    · rename_i t us
      split at h
      · cases h
      · cases h
      · split at h
        · cases h
        · rename_i p hp
          cases h
          obtain ⟨front, hfront, heq⟩ := (delimited?_eq_some_iff_encloses (by decide)).1 hp
          exact ⟨front, .braced hfront, heq⟩
      · rename_i hif
        exact absurd (startsWith_cons_iff.2 hif) hts
      · rename_i hclose helse hbrace hif
        split at h
        · cases h
        · rename_i p hp
          cases h
          obtain ⟨front, hfront, heq⟩ := untilSemicolon?_eq_some_iff_terminated.1 ⟨_, hp⟩
          -- the semicolon may be the first token itself, but it belongs to the body
          cases front with
          | nil => exact absurd rfl hfront.ne_nil
          | cons s front =>
            simp only [List.cons_append, List.cons.injEq] at heq
            obtain ⟨rfl, rfl⟩ := heq
            refine ⟨t :: front, ?_, rfl⟩
            rw [← List.cons_append, consumed_append]
            exact .simple hbrace hclose helse hif hfront
  · intro h
    obtain ⟨front, hbody, rfl⟩ := h
    -- both sorts of plain bodies are cut off by their last token
    cases hbody with
    | braced hinner =>
      have hcut : delimited? .leftBrace .rightBrace (front ++ rest) = some (body, rest) :=
        (delimited?_eq_some_iff_encloses (by decide)).2 ⟨front, hinner, rfl⟩
      obtain ⟨-, s, t, hs, -, rfl⟩ := hinner
      exact body?_of_leftBrace hs hcut
    | @simple t us hbrace hclose helse hif hus =>
      obtain ⟨front, hcut⟩ : ∃ front, untilSemicolon? (t :: (us ++ rest)) = some (front, rest) :=
        untilSemicolon?_eq_some_iff_terminated.2 ⟨t :: us, hus, rfl⟩
      rw [List.cons_append, body?_of_other hbrace hclose helse hif hcut, ← List.cons_append,
        consumed_append]

end

/-- A function reads the statements of a grammar: it succeeds where one of them stands in front, and
where what follows is no `else` that would belong to it. -/
def Reads (read : Window → Except Fault (Conditional × Window))
    (shape : Conditional → Bool → Window → Prop) : Prop :=
  ∀ ts c rest, read ts = .ok (c, rest) ↔ ∃ dangling front, shape c dangling front ∧
    ts = front ++ rest ∧ (dangling = true → ¬ StartsWith .elseWord rest)

section

variable {read : Window → Except Fault (Conditional × Window)}
  {shape : Conditional → Bool → Window → Prop} {missing : Malformation}

theorem body?_eq_ok_iff (hread : Reads read shape)
    (hif : ∀ c dangling front, shape c dangling front → StartsWith .ifWord front)
    {ts body rest : Window} :
    body? read missing ts = .ok (body, rest) ↔ ∃ dangling front, Body shape body dangling front ∧
      ts = front ++ rest ∧ (dangling = true → ¬ StartsWith .elseWord rest) := by
  -- an `if` in front can only be a nested statement, anything else only a plain body
  by_cases hts : StartsWith .ifWord ts
  · rw [body?_of_ifWord hts, map_eq_ok_iff]
    constructor
    · intro h
      obtain ⟨⟨c, r⟩, hr, heq⟩ := h
      obtain ⟨dangling, front, hshape, rfl, hrest⟩ := (hread ts c r).1 hr
      simp only [consumed_append, Prod.mk.injEq] at heq
      obtain ⟨rfl, rfl⟩ := heq
      exact ⟨dangling, front, .nested hshape, rfl, hrest⟩
    · intro h
      obtain ⟨dangling, front, hbody, rfl, hrest⟩ := h
      cases hbody with
      | plain h => exact absurd hts (h.not_startsWith rest)
      | @nested c _ _ h =>
        refine ⟨(c, rest), (hread _ c rest).2 ⟨dangling, body, h, rfl, hrest⟩, ?_⟩
        rw [consumed_append]
  · rw [body?_eq_ok_iff_plain hts]
    constructor
    · intro h
      obtain ⟨front, h, rfl⟩ := h
      exact ⟨false, front, .plain h, rfl, fun hd => by cases hd⟩
    · intro h
      obtain ⟨dangling, front, hbody, rfl, -⟩ := h
      cases hbody with
      | plain h => exact ⟨front, h, rfl⟩
      | nested h => exact absurd ((hif _ _ _ h).append rest) hts

/-- What stands behind an `else` is read as the grammar has it. -/
theorem alternative?_eq_ok_iff (hread : Reads read shape)
    (hif : ∀ c dangling front, shape c dangling front → StartsWith .ifWord front)
    {ts rest : Window} {a : Alternative} :
    alternative? read ts = .ok (a, rest) ↔ ∃ dangling front, Otherwise shape a dangling front ∧
      ts = front ++ rest ∧ (dangling = true → ¬ StartsWith .elseWord rest) := by
  unfold alternative?
  -- an `if` behind the `else` is a nested statement, never a plain body
  by_cases hts : StartsWith .ifWord ts
  · rw [if_pos (startsWith_iff_head?.1 hts), map_eq_ok_iff]
    constructor
    · intro h
      obtain ⟨⟨c, r⟩, hr, heq⟩ := h
      obtain ⟨dangling, front, hshape, rfl, hrest⟩ := (hread ts c r).1 hr
      simp only [consumed_append, Prod.mk.injEq] at heq
      obtain ⟨rfl, rfl⟩ := heq
      exact ⟨dangling, front, .nested hshape, rfl, hrest⟩
    · intro h
      obtain ⟨dangling, front, helse, rfl, hrest⟩ := h
      cases helse with
      | plain h => exact absurd hts (h.not_startsWith rest)
      | @nested c _ _ h =>
        refine ⟨(c, rest), (hread _ c rest).2 ⟨dangling, front, h, rfl, hrest⟩, ?_⟩
        rw [consumed_append]
  · rw [if_neg fun h => hts (startsWith_iff_head?.2 h), map_eq_ok_iff]
    constructor
    · intro h
      obtain ⟨⟨body, r⟩, hb, heq⟩ := h
      obtain ⟨front, h, rfl⟩ := (body?_eq_ok_iff_plain hts).1 hb
      simp only [Prod.mk.injEq] at heq
      obtain ⟨rfl, rfl⟩ := heq
      exact ⟨false, front, .plain h, rfl, fun hd => by cases hd⟩
    · intro h
      obtain ⟨dangling, front, helse, rfl, -⟩ := h
      cases helse with
      | @plain inner _ h =>
        refine ⟨(inner, rest), ?_, rfl⟩
        exact (body?_eq_ok_iff_plain hts).2 ⟨front, h, rfl⟩
      | nested h => exact absurd ((hif _ _ _ h).append rest) hts

/-- An `else` clause is read where there is one, and nothing is where there is none. -/
theorem elseClause?_eq_ok_iff (hread : Reads read shape)
    (hif : ∀ c dangling front, shape c dangling front → StartsWith .ifWord front)
    {ts rest : Window} {a : Option Alternative} :
    elseClause? read ts = .ok (a, rest) ↔
      (a = none ∧ ts = rest ∧ ¬ StartsWith .elseWord rest) ∨
        ∃ e alternative dangling front, a = some alternative ∧ e.kind = .elseWord ∧
          Otherwise shape alternative dangling front ∧ ts = e :: (front ++ rest) ∧
          (dangling = true → ¬ StartsWith .elseWord rest) := by
  cases ts with
  | nil =>
    simp only [elseClause?, Except.ok.injEq, Prod.mk.injEq]
    constructor
    · intro h
      obtain ⟨rfl, rfl⟩ := h
      exact .inl ⟨rfl, rfl, not_startsWith_nil _⟩
    · intro h
      rcases h with ⟨rfl, rfl, -⟩ | ⟨e, _, _, _, -, -, -, h, -⟩
      · exact ⟨rfl, rfl⟩
      · cases h
  | cons e ts =>
    rw [elseClause?]
    -- an `else` in front always belongs to the clause
    by_cases he : e.kind = .elseWord
    · rw [if_pos he, map_eq_ok_iff]
      constructor
      · intro h
        obtain ⟨⟨alternative, r⟩, hr, heq⟩ := h
        obtain ⟨dangling, front, h, rfl, hrest⟩ := (alternative?_eq_ok_iff hread hif).1 hr
        simp only [Prod.mk.injEq] at heq
        obtain ⟨rfl, rfl⟩ := heq
        exact .inr ⟨e, alternative, dangling, front, rfl, he, h, rfl, hrest⟩
      · intro h
        rcases h with ⟨-, rfl, h⟩ | ⟨e', alternative, dangling, front, rfl, -, h, heq, hrest⟩
        · exact absurd (startsWith_cons_iff.2 he) h
        · refine ⟨(alternative, rest), (alternative?_eq_ok_iff hread hif).2 ?_, rfl⟩
          exact ⟨dangling, front, h, (List.cons.inj heq).2, hrest⟩
    · rw [if_neg he]
      simp only [Except.ok.injEq, Prod.mk.injEq]
      constructor
      · intro h
        obtain ⟨rfl, rfl⟩ := h
        exact .inl ⟨rfl, rfl, fun h => he (startsWith_cons_iff.1 h)⟩
      · intro h
        rcases h with ⟨rfl, rfl, -⟩ | ⟨e', _, _, _, -, he', -, heq, -⟩
        · exact ⟨rfl, rfl⟩
        · exact absurd ((List.cons.inj heq).1 ▸ he') he

end

/-- A condition is a pair of parentheses with something between them. -/
theorem condition?_eq_ok_iff {ts condition rest : Window} :
    condition? ts = .ok (condition, rest) ↔ condition ≠ [] ∧
      ∃ front, Encloses .leftParen .rightParen condition front ∧ ts = front ++ rest := by
  rw [← delimited?_eq_some_iff_encloses (by decide)]
  unfold condition?
  constructor
  · intro h
    split at h
    · cases h
    · cases h
    · rename_i p hne hcut
      cases h
      exact ⟨fun h => hne rest (by rw [← h]), hcut⟩
  · intro h
    obtain ⟨hne, hcut⟩ := h
    rw [hcut]
    -- an empty condition is refused before it is returned
    cases condition with
    | nil => exact absurd rfl hne
    | cons t us => rfl

/-! ### Reading a statement -/

section

variable {limit levels : Nat} {c : Conditional} {dangling : Bool} {ts front rest : Window}

/-- What is read in one level more stands in front in the grammar of that level. -/
theorem form_of_read? (hread : Reads (read? limit levels) (Shape levels))
    (h : read? limit (levels + 1) ts = .ok (c, rest)) :
    ∃ dangling front, Form (Shape levels) c dangling front ∧ ts = front ++ rest ∧
      (dangling = true → ¬ StartsWith .elseWord rest) := by
  have hif : ∀ c dangling front, Shape levels c dangling front → StartsWith .ifWord front :=
    fun _ _ _ h => h.startsWith
  cases ts with
  | nil => cases h
  | cons i ts =>
    rw [read?] at h
    split at h
    · rename_i hi
      obtain ⟨⟨condition, r₁⟩, hcond, h⟩ := bind_eq_ok_iff.1 h
      obtain ⟨⟨body, r₂⟩, hbody, h⟩ := bind_eq_ok_iff.1 h
      obtain ⟨⟨alternative, r₃⟩, helse, h⟩ := bind_eq_ok_iff.1 h
      simp only [pure, Except.pure, Except.ok.injEq, Prod.mk.injEq] at h
      obtain ⟨rfl, rfl⟩ := h
      obtain ⟨hne, head, hhead, rfl⟩ := condition?_eq_ok_iff.1 hcond
      obtain ⟨d, bs, hbs, rfl, hd⟩ := (body?_eq_ok_iff hread hif).1 hbody
      rcases (elseClause?_eq_ok_iff hread hif).1 helse with
        ⟨rfl, rfl, hrest⟩ | ⟨e, a, dangling, us, rfl, he, hus, rfl, hrest⟩
      · exact ⟨true, i :: (head ++ bs), .short hi hhead hne hbs, by simp, fun _ => hrest⟩
      · -- an `else` follows the body, so the body does not dangle
        have hfalse : d = false := by
          cases d with
          | false => rfl
          | true => exact absurd (startsWith_cons_iff.2 he) (hd rfl)
        subst hfalse
        exact ⟨dangling, i :: (head ++ (bs ++ e :: us)), .long hi hhead hne hbs he hus, by simp,
          hrest⟩
    · cases h

/-- Once the condition and the body are read, only the `else` clause can fail. -/
theorem read?_eq_map_elseClause? {i : Token} {us condition body : Window} (hi : i.kind = .ifWord)
    (hcond : condition? ts = .ok (condition, us))
    (hbody : body? (read? limit levels) .missingBody us = .ok (body, rest)) :
    read? limit (levels + 1) (i :: ts)
      = (elseClause? (read? limit levels) rest).map fun p => (⟨condition, body, p.1⟩, p.2) := by
  simp only [read?, if_pos hi, hcond, hbody, bind, Except.bind]
  cases elseClause? (read? limit levels) rest with
  | error f => rfl
  | ok p => rfl

/-- What stands in front in the grammar of a level is read in that level, unless it dangles and an
`else` follows. -/
theorem read?_form_append (hread : Reads (read? limit levels) (Shape levels))
    (hform : Form (Shape levels) c dangling front)
    (hrest : dangling = true → ¬ StartsWith .elseWord rest) :
    read? limit (levels + 1) (front ++ rest) = .ok (c, rest) := by
  have hif : ∀ c dangling front, Shape levels c dangling front → StartsWith .ifWord front :=
    fun _ _ _ h => h.startsWith
  -- the three parts are read one behind another, each in front of the others
  cases hform with
  | @short i condition head body bs d hi hhead hne hbody =>
    have hcond : condition? (head ++ bs ++ rest) = .ok (condition, bs ++ rest) :=
      condition?_eq_ok_iff.2 ⟨hne, head, hhead, List.append_assoc head bs rest⟩
    have hb : body? (read? limit levels) .missingBody (bs ++ rest) = .ok (body, rest) :=
      (body?_eq_ok_iff hread hif).2 ⟨d, bs, hbody, rfl, fun _ => hrest rfl⟩
    have he : elseClause? (read? limit levels) rest = .ok (none, rest) :=
      (elseClause?_eq_ok_iff hread hif).2 (.inl ⟨rfl, rfl, hrest rfl⟩)
    rw [List.cons_append, read?_eq_map_elseClause? hi hcond hb, he]
    rfl
  | @long i e condition head body bs us a d hi hhead hne hbody hkind helse =>
    have hcond : condition? (head ++ (bs ++ e :: us) ++ rest)
        = .ok (condition, bs ++ e :: us ++ rest) :=
      condition?_eq_ok_iff.2 ⟨hne, head, hhead, List.append_assoc head (bs ++ e :: us) rest⟩
    -- an `else` follows the body, so the body does not dangle
    have hb : body? (read? limit levels) .missingBody (bs ++ e :: us ++ rest)
        = .ok (body, e :: (us ++ rest)) :=
      (body?_eq_ok_iff hread hif).2
        ⟨false, bs, hbody, List.append_assoc bs (e :: us) rest, fun hd => by cases hd⟩
    have he : elseClause? (read? limit levels) (e :: (us ++ rest)) = .ok (some a, rest) :=
      (elseClause?_eq_ok_iff hread hif).2
        (.inr ⟨e, a, dangling, us, rfl, hkind, helse, rfl, hrest⟩)
    rw [List.cons_append, read?_eq_map_elseClause? hi hcond hb, he]
    rfl

end

/-- **The reader finds exactly the shapes**: an `if` statement is read in so many levels where a
shape of that many levels stands in front, unless it dangles and an `else` follows. -/
theorem read?_eq_ok_iff {limit levels : Nat} : Reads (read? limit levels) (Shape levels) := by
  -- the reader of a level uses the one below, and the grammar does too
  induction levels with
  | zero =>
    intro ts c rest
    simp [read?, shape_zero]
  | succ levels ih =>
    intro ts c rest
    constructor
    · intro h
      exact form_of_read? ih h
    · intro h
      obtain ⟨dangling, front, hform, rfl, hrest⟩ := h
      exact read?_form_append ih hform hrest

/-- **What is read does not depend on what follows**, as long as no `else` newly comes to follow. -/
theorem read?_of_read? {limit levels : Nat} {ts rest : Window} {c : Conditional}
    (h : read? limit levels ts = .ok (c, rest)) {behind : Window}
    (hbehind : StartsWith .elseWord behind → StartsWith .elseWord rest) :
    ∃ front, ts = front ++ rest ∧ read? limit levels (front ++ behind) = .ok (c, behind) := by
  obtain ⟨dangling, front, hshape, rfl, hrest⟩ := (read?_eq_ok_iff ts c rest).1 h
  refine ⟨front, rfl, (read?_eq_ok_iff _ c behind).2 ⟨dangling, front, hshape, rfl, ?_⟩⟩
  intro hd helse
  exact hrest hd (hbehind helse)

end Scriptlet.Conditional
