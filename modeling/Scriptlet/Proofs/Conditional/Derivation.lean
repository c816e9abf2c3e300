import Scriptlet.Cursor
import Scriptlet.Proofs.Conditional.Shape

/-!
# Derivations of `if` statements

A derivation is an `if` statement with every token of it in its place.  The grammar says which
tokens may stand in which place, and one thing about what follows: no `else` stands directly behind
an `if` that has none of its own.  That is all there is to say about which `if` an `else` goes with,
and it leaves a window one derivation at most.

Nothing here counts levels.  A reader that may take one level more than there are `if` tokens ahead
cannot run out of them, since every nested statement begins with a token of its own.

## Main definitions

* `Conditional.Derivation`, `Conditional.Part` — `if` statements and their bodies, token by token.
* `Derivation.tokens`, `Derivation.parts` — the tokens in order, and the parts that are run.
* `Derivation.Grammatical` — the derivation follows the grammar in front of the given tokens.

## Main results

* `Derivation.Grammatical.unique` — a window has one derivation at most.
* `Conditional.read?_eq_ok_iff_derivation` — **the reader finds exactly the derivations.**
-/

namespace Scriptlet

theorem Cursor.since_moveTo {c : Cursor} {front rest : Window} (h : c.ahead = front ++ rest) :
    (c.moveTo rest).since c.position = front := by
  simp [since, moveTo, position, h]

namespace Conditional

open Window

/-! ### Trees with all their tokens -/

/-- The keyword of an `if` statement and its condition in parentheses. -/
@[ext]
structure Head where
  /-- The `if`. -/
  keyword : Token
  /-- The opening parenthesis. -/
  opening : Token
  /-- The tokens between the parentheses. -/
  condition : Window
  /-- The closing parenthesis. -/
  closing : Token

mutual

/-- An `if` statement. -/
inductive Derivation
  /-- An `if` without an `else`. -/
  | short (head : Head) (body : Part)
  /-- An `if` with an `else`. -/
  | long (head : Head) (body : Part) (separator : Token) (alternative : Part)

/-- What stands behind a condition or behind an `else`. -/
inductive Part
  /-- Any tokens in braces. -/
  | braced (opening : Token) (interior : Window) (closing : Token)
  /-- The tokens of a statement that is no `if`. -/
  | simple (tokens : Window)
  /-- Another `if` statement. -/
  | nested (d : Derivation)

end

/-- The tokens of a head, in order. -/
def Head.tokens (h : Head) : Window := h.keyword :: h.opening :: (h.condition ++ [h.closing])

mutual

/-- The tokens of an `if` statement, in order. -/
def Derivation.tokens : Derivation → Window
  | .short head body => head.tokens ++ body.tokens
  | .long head body separator alternative =>
    head.tokens ++ (body.tokens ++ separator :: alternative.tokens)

/-- The tokens of a body, in order. -/
def Part.tokens : Part → Window
  | .braced opening interior closing => opening :: (interior ++ [closing])
  | .simple tokens => tokens
  | .nested d => d.tokens

end

/-- The tokens of a body that are run: the inside of braces, and all tokens of any other body. -/
def Part.region : Part → Window
  | .braced _ interior _ => interior
  | .simple tokens => tokens
  | .nested d => d.tokens

/-- What a body is behind an `else`. -/
def Part.alternative : Part → Alternative
  | .nested d => .elseIf d.tokens
  | p => .block p.region

/-- The parts of an `if` statement that are run. -/
def Derivation.parts : Derivation → Conditional
  | .short head body => ⟨head.condition, body.region, none⟩
  | .long head body _ alternative => ⟨head.condition, body.region, some alternative.alternative⟩

/-! ### The grammar -/

/-- A keyword, and a condition of at least one token between parentheses that match. -/
structure Head.Grammatical (h : Head) : Prop where
  /-- The keyword is `if`. -/
  keyword : h.keyword.kind = .ifWord
  /-- A parenthesis is opened. -/
  opening : h.opening.kind = .leftParen
  /-- A parenthesis is closed. -/
  closing : h.closing.kind = .rightParen
  /-- The one that is closed is the one that was opened. -/
  balanced : Balanced .leftParen .rightParen h.condition
  /-- There is a condition. -/
  ne_nil : h.condition ≠ []

mutual

/-- The `if` statement follows the grammar, where the given tokens stand behind it. -/
inductive Derivation.Grammatical : Derivation → Window → Prop
  | short {head : Head} {body : Part} {behind : Window} (hhead : head.Grammatical)
      (hbody : body.Grammatical behind) (helse : ¬ StartsWith .elseWord behind) :
      Derivation.Grammatical (.short head body) behind
  | long {head : Head} {body alternative : Part} {separator : Token} {behind : Window}
      (hhead : head.Grammatical)
      (hbody : body.Grammatical (separator :: (alternative.tokens ++ behind)))
      (hseparator : separator.kind = .elseWord) (halternative : alternative.Grammatical behind) :
      Derivation.Grammatical (.long head body separator alternative) behind

/-- The body follows the grammar, where the given tokens stand behind it. -/
inductive Part.Grammatical : Part → Window → Prop
  | braced {opening closing : Token} {interior behind : Window}
      (hopening : opening.kind = .leftBrace) (hclosing : closing.kind = .rightBrace)
      (hbalanced : Balanced .leftBrace .rightBrace interior) :
      Part.Grammatical (.braced opening interior closing) behind
  | simple {t : Token} {ts behind : Window} (hbrace : t.kind ≠ .leftBrace)
      (hclose : t.kind ≠ .rightBrace) (helse : t.kind ≠ .elseWord) (hif : t.kind ≠ .ifWord)
      (hterminated : Terminated (t :: ts)) : Part.Grammatical (.simple (t :: ts)) behind
  | nested {d : Derivation} {behind : Window} (hd : d.Grammatical behind) :
      Part.Grammatical (.nested d) behind

end

/-! ### One derivation only -/

theorem Head.Grammatical.unique {head head' : Head} {rest rest' : Window}
    (h : head.Grammatical) (h' : head'.Grammatical)
    (heq : head.tokens ++ rest = head'.tokens ++ rest') : head = head' ∧ rest = rest' := by
  simp only [tokens, List.cons_append, List.append_assoc, List.nil_append] at heq
  obtain ⟨hkeyword, hbehind⟩ := List.cons.inj heq
  obtain ⟨hopening, hcondition, hclosing, hrest⟩ :=
    h.balanced.unique (by decide) h.opening h.closing h'.balanced h'.closing hbehind
  exact ⟨Head.ext hkeyword hopening hcondition hclosing, hrest⟩

theorem Derivation.Grammatical.startsWith {d : Derivation} {behind : Window}
    (h : d.Grammatical behind) (rest : Window) : StartsWith .ifWord (d.tokens ++ rest) := by
  cases h with
  | short hhead => exact ⟨_, _, rfl, hhead.keyword⟩
  | long hhead => exact ⟨_, _, rfl, hhead.keyword⟩

mutual

/-- **A window has one derivation at most**, whatever the tokens that it takes. -/
theorem Derivation.Grammatical.unique : ∀ {d d' : Derivation} {rest rest' : Window},
    d.Grammatical rest → d'.Grammatical rest' → d.tokens ++ rest = d'.tokens ++ rest' →
      d = d' ∧ rest = rest'
  | _, _, _, _, .short hhead hbody helse, h', heq => by
    cases h' with
    | short hhead' hbody' helse' =>
      simp only [Derivation.tokens, List.append_assoc] at heq
      obtain ⟨rfl, hrest⟩ := hhead.unique hhead' heq
      obtain ⟨rfl, rfl⟩ := hbody.unique hbody' hrest
      exact ⟨rfl, rfl⟩
    | long hhead' hbody' hseparator' halternative' =>
      -- the bodies end in one place, and only one of the two has an `else` there
      simp only [Derivation.tokens, List.append_assoc, List.cons_append] at heq
      obtain ⟨rfl, hrest⟩ := hhead.unique hhead' heq
      obtain ⟨rfl, rfl⟩ := hbody.unique hbody' hrest
      exact absurd (startsWith_cons_iff.2 hseparator') helse
  | _, _, _, _, .long hhead hbody hseparator halternative, h', heq => by
    cases h' with
    | short hhead' hbody' helse' =>
      simp only [Derivation.tokens, List.append_assoc, List.cons_append] at heq
      obtain ⟨rfl, hrest⟩ := hhead.unique hhead' heq
      obtain ⟨rfl, rfl⟩ := hbody.unique hbody' hrest
      exact absurd (startsWith_cons_iff.2 hseparator) helse'
    | long hhead' hbody' hseparator' halternative' =>
      simp only [Derivation.tokens, List.append_assoc, List.cons_append] at heq
      obtain ⟨rfl, hrest⟩ := hhead.unique hhead' heq
      obtain ⟨rfl, helse⟩ := hbody.unique hbody' hrest
      obtain ⟨rfl, halternatives⟩ := List.cons.inj helse
      obtain ⟨rfl, rfl⟩ := halternative.unique halternative' halternatives
      exact ⟨rfl, rfl⟩

theorem Part.Grammatical.unique : ∀ {p p' : Part} {rest rest' : Window},
    p.Grammatical rest → p'.Grammatical rest' → p.tokens ++ rest = p'.tokens ++ rest' →
      p = p' ∧ rest = rest'
  -- the first token tells the sorts of bodies apart
  | _, _, _, rest', .braced hopening hclosing hbalanced, h', heq => by
    cases h' with
    | braced hopening' hclosing' hbalanced' =>
      simp only [Part.tokens, List.cons_append, List.append_assoc, List.nil_append] at heq
      obtain ⟨rfl, rfl, rfl, rfl⟩ :=
        hbalanced.unique (by decide) hopening hclosing hbalanced' hclosing' heq
      exact ⟨rfl, rfl⟩
    | simple hbrace' => exact absurd ((List.cons.inj heq).1 ▸ hopening) hbrace'
    | nested hd' =>
      have hif := startsWith_cons_iff.1 (heq ▸ hd'.startsWith rest')
      rw [hopening] at hif
      cases hif
  | _, _, _, rest', .simple hbrace hclose helse hif hterminated, h', heq => by
    cases h' with
    | braced hopening' => exact absurd ((List.cons.inj heq).1 ▸ hopening') hbrace
    | simple _ _ _ _ hterminated' =>
      obtain ⟨htokens, rfl⟩ := hterminated.unique hterminated' heq
      exact ⟨by rw [htokens], rfl⟩
    | nested hd' => exact absurd (startsWith_cons_iff.1 (heq ▸ hd'.startsWith rest')) hif
  | _, _, rest, _, .nested hd, h', heq => by
    cases h' with
    | braced hopening' =>
      have hif := startsWith_cons_iff.1 (heq ▸ hd.startsWith rest)
      rw [hopening'] at hif
      cases hif
    | simple _ _ _ hif' => exact absurd (startsWith_cons_iff.1 (heq ▸ hd.startsWith rest)) hif'
    | nested hd' =>
      obtain ⟨rfl, rfl⟩ := hd.unique hd' heq
      exact ⟨rfl, rfl⟩

end

/-! ### Every shape has a derivation -/

theorem exists_head {i : Token} {condition ts : Window} (hi : i.kind = .ifWord)
    (hts : Encloses .leftParen .rightParen condition ts) (hne : condition ≠ []) :
    ∃ head : Head, head.Grammatical ∧ head.tokens = i :: ts ∧ head.condition = condition := by
  obtain ⟨hbalanced, l, r, hl, hr, rfl⟩ := hts
  exact ⟨⟨i, l, condition, r⟩, ⟨hi, hl, hr, hbalanced, hne⟩, rfl, rfl⟩

theorem PlainBody.exists_part {inner ts : Window} (h : PlainBody inner ts) (behind : Window) :
    ∃ p : Part, p.Grammatical behind ∧ p.tokens = ts ∧ p.region = inner ∧
      p.alternative = .block inner := by
  cases h with
  | braced h =>
    obtain ⟨hbalanced, l, r, hl, hr, rfl⟩ := h
    exact ⟨.braced l inner r, .braced hl hr hbalanced, rfl, rfl, rfl⟩
  | @simple t ts hbrace hclose helse hif hterminated =>
    exact ⟨.simple (t :: ts), .simple hbrace hclose helse hif hterminated, rfl, rfl, rfl⟩

section

variable {nested : Conditional → Bool → Window → Prop} {dangling : Bool} {ts behind : Window}

theorem Body.exists_part
    (hnested : ∀ {c ts}, nested c dangling ts →
      ∃ d : Derivation, d.Grammatical behind ∧ d.tokens = ts ∧ d.parts = c)
    {region : Window} (h : Body nested region dangling ts) :
    ∃ p : Part, p.Grammatical behind ∧ p.tokens = ts ∧ p.region = region := by
  cases h with
  | plain h =>
    obtain ⟨p, hp, htokens, hregion, -⟩ := h.exists_part behind
    exact ⟨p, hp, htokens, hregion⟩
  | nested h =>
    obtain ⟨d, hd, rfl, -⟩ := hnested h
    exact ⟨.nested d, .nested hd, rfl, rfl⟩

theorem Otherwise.exists_part
    (hnested : ∀ {c ts}, nested c dangling ts →
      ∃ d : Derivation, d.Grammatical behind ∧ d.tokens = ts ∧ d.parts = c)
    {a : Alternative} (h : Otherwise nested a dangling ts) :
    ∃ p : Part, p.Grammatical behind ∧ p.tokens = ts ∧ p.alternative = a := by
  cases h with
  | plain h =>
    obtain ⟨p, hp, htokens, -, halternative⟩ := h.exists_part behind
    exact ⟨p, hp, htokens, halternative⟩
  | nested h =>
    obtain ⟨d, hd, rfl, -⟩ := hnested h
    exact ⟨.nested d, .nested hd, rfl, rfl⟩

end

/-- A shape has a derivation in front of anything but an `else` that would belong to it. -/
theorem Shape.exists_derivation {levels : Nat} {c : Conditional} {dangling : Bool}
    {ts behind : Window} (h : Shape levels c dangling ts)
    (hbehind : dangling = true → ¬ StartsWith .elseWord behind) :
    ∃ d : Derivation, d.Grammatical behind ∧ d.tokens = ts ∧ d.parts = c := by
  induction levels generalizing c dangling ts behind with
  | zero => exact absurd h (shape_zero c dangling ts)
  | succ levels ih =>
    cases h with
    | short hi hhead hne hbody =>
      have helse : ¬ StartsWith .elseWord behind := hbehind rfl
      obtain ⟨head, hgrammatical, htokens, rfl⟩ := exists_head hi hhead hne
      obtain ⟨p, hp, rfl, rfl⟩ := hbody.exists_part fun h => ih h fun _ => helse
      refine ⟨.short head p, .short hgrammatical hp helse, ?_, rfl⟩
      rw [Derivation.tokens, htokens, List.cons_append]
    | @long i e condition _ body _ us a _ hi hhead hne hbody he halternative =>
      obtain ⟨head, hgrammatical, htokens, rfl⟩ := exists_head hi hhead hne
      obtain ⟨q, hq, rfl, rfl⟩ := halternative.exists_part fun h => ih h hbehind
      -- the body does not dangle, so it may stand in front of the `else`
      obtain ⟨p, hp, rfl, rfl⟩ : ∃ p : Part, p.Grammatical (e :: (q.tokens ++ behind)) ∧
          p.tokens = _ ∧ p.region = body :=
        hbody.exists_part fun h => ih h (by simp)
      refine ⟨.long head p e q, .long hgrammatical hp he hq, ?_, rfl⟩
      rw [Derivation.tokens, htokens, List.cons_append]

/-! ### Every derivation has a shape -/

theorem Head.Grammatical.tally_pos {head : Head} (h : head.Grammatical) :
    0 < tally .ifWord head.tokens := by
  rw [tokens, tally_cons, if_pos h.keyword]
  omega

theorem Head.Grammatical.encloses {head : Head} (h : head.Grammatical) :
    Encloses .leftParen .rightParen head.condition
      (head.opening :: (head.condition ++ [head.closing])) :=
  ⟨h.balanced, head.opening, head.closing, h.opening, h.closing, rfl⟩

theorem Derivation.shape_short {levels : Nat} {head : Head} {body : Part} {dangling : Bool}
    (hhead : head.Grammatical) (hbody : Body (Shape levels) body.region dangling body.tokens) :
    Shape (levels + 1) (Derivation.short head body).parts true
      (Derivation.short head body).tokens := by
  rw [Derivation.tokens, Head.tokens, List.cons_append]
  exact .short hhead.keyword hhead.encloses hhead.ne_nil hbody

/-- An `if` with an `else` dangles where what stands behind that does. -/
theorem Derivation.shape_long {levels : Nat} {head : Head} {body alternative : Part}
    {separator : Token} {dangling : Bool} (hhead : head.Grammatical)
    (hbody : Body (Shape levels) body.region false body.tokens)
    (hseparator : separator.kind = .elseWord)
    (halternative :
      Otherwise (Shape levels) alternative.alternative dangling alternative.tokens) :
    Shape (levels + 1) (Derivation.long head body separator alternative).parts dangling
      (Derivation.long head body separator alternative).tokens := by
  rw [Derivation.tokens, Head.tokens, List.cons_append]
  exact .long hhead.keyword hhead.encloses hhead.ne_nil hbody hseparator halternative

mutual

/-- A derivation has a shape of as many levels as it has `if` tokens: the one in front is not in
any of the statements inside. -/
theorem Derivation.exists_shape : ∀ (d : Derivation) {behind : Window} {levels : Nat},
    d.Grammatical behind → tally .ifWord d.tokens ≤ levels →
      ∃ dangling, Shape levels d.parts dangling d.tokens ∧
        (dangling = true → ¬ StartsWith .elseWord behind)
  | .short head body, behind, levels, .short hhead hbody helse, hlevels => by
    have hpos := hhead.tally_pos
    rw [Derivation.tokens, tally_append] at hlevels
    -- the `if` in front takes one of the levels
    obtain ⟨below, rfl⟩ : ∃ below, levels = below + 1 := ⟨levels - 1, by omega⟩
    have hbelow : tally .ifWord body.tokens ≤ below := by omega
    obtain ⟨dangling, hshape, -, -⟩ := body.exists_shape hbody hbelow
    exact ⟨true, Derivation.shape_short hhead hshape, fun _ => helse⟩
  | .long head body separator alternative, behind, levels,
      .long hhead hbody hseparator halternative, hlevels => by
    have hpos := hhead.tally_pos
    rw [Derivation.tokens, tally_append, tally_append, tally_cons] at hlevels
    obtain ⟨below, rfl⟩ : ∃ below, levels = below + 1 := ⟨levels - 1, by omega⟩
    have hbelow : tally .ifWord body.tokens ≤ below := by omega
    have hbelow' : tally .ifWord alternative.tokens ≤ below := by omega
    obtain ⟨d, hshape, -, hd⟩ := body.exists_shape hbody hbelow
    obtain ⟨dangling, -, hshape', hbehind⟩ := alternative.exists_shape halternative hbelow'
    -- an `else` stands behind the body, so the body does not dangle
    have hfalse : d = false := by
      cases d with
      | false => rfl
      | true => exact absurd (startsWith_cons_iff.2 hseparator) (hd rfl)
    subst hfalse
    exact ⟨dangling, Derivation.shape_long hhead hshape hseparator hshape', hbehind⟩

theorem Part.exists_shape : ∀ (p : Part) {behind : Window} {levels : Nat},
    p.Grammatical behind → tally .ifWord p.tokens ≤ levels →
      ∃ dangling, Body (Shape levels) p.region dangling p.tokens ∧
        Otherwise (Shape levels) p.alternative dangling p.tokens ∧
        (dangling = true → ¬ StartsWith .elseWord behind)
  | .braced opening interior closing, _, levels, .braced hopening hclosing hbalanced, _ => by
    have hplain : PlainBody interior (opening :: (interior ++ [closing])) :=
      .braced ⟨hbalanced, opening, closing, hopening, hclosing, rfl⟩
    exact ⟨false, .plain hplain, .plain hplain, by simp⟩
  | .simple _, _, levels, .simple hbrace hclose helse hif hterminated, _ => by
    have hplain := PlainBody.simple hbrace hclose helse hif hterminated
    exact ⟨false, .plain hplain, .plain hplain, by simp⟩
  | .nested d, _, levels, .nested hd, hlevels => by
    -- a nested statement keeps all the levels: its `if` is the first one
    obtain ⟨dangling, hshape, hbehind⟩ := d.exists_shape hd hlevels
    exact ⟨dangling, .nested hshape, .nested hshape, hbehind⟩

end

/-! ### Reading -/

/-- In as many levels as there are `if` tokens ahead, an `if` statement is read where a derivation
stands in front. -/
theorem read?_eq_ok_iff_exists_derivation {limit levels : Nat} {ts rest : Window} {c : Conditional}
    (hlevels : tally .ifWord ts ≤ levels) :
    read? limit levels ts = .ok (c, rest) ↔
      ∃ d : Derivation, d.Grammatical rest ∧ ts = d.tokens ++ rest ∧ d.parts = c := by
  rw [read?_eq_ok_iff ts c rest]
  constructor
  · rintro ⟨dangling, front, hshape, rfl, hrest⟩
    obtain ⟨d, hd, rfl, hparts⟩ := hshape.exists_derivation hrest
    exact ⟨d, hd, rfl, hparts⟩
  · rintro ⟨d, hd, rfl, rfl⟩
    rw [tally_append] at hlevels
    have hle : tally .ifWord d.tokens ≤ levels := by omega
    obtain ⟨dangling, hshape, hrest⟩ := d.exists_shape hd hle
    exact ⟨dangling, d.tokens, hshape, rfl, hrest⟩

/-- **The reader finds exactly the derivations**: at any depth, and at any place of a window, under
a limit that the `if` tokens ahead do not reach from that depth, an `if` statement is read if a
derivation stands in front.  Then there is no other one, the parts that are read are those of the
derivation, and the tokens passed are its tokens. -/
theorem read?_eq_ok_iff_derivation {limit depth : Nat} {cursor : Cursor}
    (h : depth + tally .ifWord cursor.ahead ≤ limit) :
    ((∃ c rest, read? limit (limit + 1 - depth) cursor.ahead = .ok (c, rest)) ↔
        ∃ (d : Derivation) (rest : Window), d.Grammatical rest ∧ cursor.ahead = d.tokens ++ rest) ∧
      ∀ (d : Derivation) (rest : Window), d.Grammatical rest → cursor.ahead = d.tokens ++ rest →
        (∀ (d' : Derivation) (rest' : Window), d'.Grammatical rest' →
          cursor.ahead = d'.tokens ++ rest' → d' = d) ∧
        read? limit (limit + 1 - depth) cursor.ahead = .ok (d.parts, rest) ∧
        (cursor.moveTo rest).since cursor.position = d.tokens := by
  have hlevels : tally .ifWord cursor.ahead ≤ limit + 1 - depth := by omega
  refine ⟨⟨?_, ?_⟩, ?_⟩
  · -- what is read has a derivation, and a derivation is read
    rintro ⟨c, rest, hread⟩
    obtain ⟨d, hd, hahead, -⟩ := (read?_eq_ok_iff_exists_derivation hlevels).1 hread
    exact ⟨d, rest, hd, hahead⟩
  · rintro ⟨d, rest, hd, hahead⟩
    exact ⟨d.parts, rest, (read?_eq_ok_iff_exists_derivation hlevels).2 ⟨d, hd, hahead, rfl⟩⟩
  · intro d rest hd hahead
    refine ⟨?_, (read?_eq_ok_iff_exists_derivation hlevels).2 ⟨d, hd, hahead, rfl⟩,
      Cursor.since_moveTo hahead⟩
    -- two derivations in front of the same tokens have the same parts
    intro d' rest' hd' hahead'
    exact (hd'.unique hd (hahead'.symm.trans hahead)).1

/-- Of two `if` statements in front of one `else`, the inner one has it. -/
theorem read?_eq_ok_iff_derivation_nearest :
    let word (kind : Kind) : Token := ⟨kind, "x", 1⟩
    let x := word .identifier
    let head : Head := ⟨word .ifWord, word .leftParen, [x], word .rightParen⟩
    let inner : Derivation := .long head (.braced (word .leftBrace) [x] (word .rightBrace))
      (word .elseWord) (.simple [x, word .semicolon])
    let outer : Derivation := .short head (.nested inner)
    let cursor : Cursor := ⟨[x], outer.tokens ++ [x]⟩
    1 + tally .ifWord cursor.ahead ≤ 3 ∧ outer.Grammatical [x] ∧
      (∀ (d : Derivation) (rest : Window), d.Grammatical rest → cursor.ahead = d.tokens ++ rest →
        d = outer) ∧
      read? 3 3 cursor.ahead = .ok (⟨[x], inner.tokens, none⟩, [x]) ∧
      (cursor.moveTo [x]).since 1 = outer.tokens := by
  intro word x head inner outer cursor
  have hhead : head.Grammatical :=
    ⟨rfl, rfl, rfl, balanced_of_forall_ne (by decide), by decide⟩
  have hinner : inner.Grammatical [x] :=
    .long hhead (.braced rfl rfl (balanced_of_forall_ne (by decide))) rfl
      (.simple (by decide) (by decide) (by decide) (by decide)
        ⟨[x], word .semicolon, by decide, rfl, rfl⟩)
  have houter : outer.Grammatical [x] :=
    .short hhead (.nested hinner) (by rw [startsWith_cons_iff]; decide)
  have hlimit : 1 + tally .ifWord cursor.ahead ≤ 3 := by decide
  obtain ⟨hunique, hread, hpassed⟩ := (read?_eq_ok_iff_derivation hlimit).2 outer [x] houter rfl
  exact ⟨hlimit, houter, hunique, hread, hpassed⟩

end Conditional

end Scriptlet
