import Scriptlet.Source.Segment

/-!
# Lexemes

The texts that are lexemes of each kind, said without the scanner, and the condition on what follows
a lexeme under which it could not have been longer.

## Main definitions

* `Kind.symbol?` — the spelling of a symbol.
* `Kind.Lexeme` — a text is a lexeme of a kind.
* `Kind.Ends` — what follows a lexeme does not belong to it.

## Main results

* `Kind.Lexeme.length_le` — **a lexeme that ends is the longest one in its place.**
-/

namespace Scriptlet

/-- The text begins with a character of the given sort. -/
def Begins (p : Char → Bool) (cs : List Char) : Prop := ∃ c rest, cs = c :: rest ∧ p c = true

@[simp] theorem begins_cons_iff {p : Char → Bool} {c : Char} {cs : List Char} :
    Begins p (c :: cs) ↔ p c = true := by
  constructor
  · intro h
    obtain ⟨d, rest, h, hd⟩ := h
    cases h
    exact hd
  · intro h
    exact ⟨c, cs, rfl, h⟩

/-- What is left behind the longest run of a sort does not begin with that sort. -/
theorem not_begins_dropWhile (p : Char → Bool) (cs : List Char) :
    ¬ Begins p (cs.dropWhile p) := by
  intro h
  obtain ⟨c, rest, hcs, hc⟩ := h
  have h := List.head?_dropWhile_not p cs
  rw [hcs] at h
  simp [hc] at h

theorem isWordStart_iff {c : Char} : isWordStart c = true ↔ c.isAlpha = true ∨ c = '_' := by
  simp [isWordStart]

theorem isWordPart_iff {c : Char} : isWordPart c = true ↔ c.isAlphanum = true ∨ c = '_' := by
  simp [isWordPart]

namespace Kind

/-- The spelling of a symbol; the other kinds have none. -/
def symbol? : Kind → Option (List Char)
  | .leftParen => some ['(']
  | .rightParen => some [')']
  | .leftBrace => some ['{']
  | .rightBrace => some ['}']
  | .comma => some [',']
  | .dot => some ['.']
  | .semicolon => some [';']
  | .minus => some ['-']
  | .plus => some ['+']
  | .star => some ['*']
  | .slash => some ['/']
  | .bang => some ['!']
  | .bangEqual => some ['!', '=']
  | .equal => some ['=']
  | .equalEqual => some ['=', '=']
  | .less => some ['<']
  | .lessEqual => some ['<', '=']
  | .greater => some ['>']
  | .greaterEqual => some ['>', '=']
  | _ => none

/-- A letter or an underscore, and then letters, digits and underscores. -/
def IsWord (text : List Char) : Prop :=
  ∃ c cs, text = c :: cs ∧ (c.isAlpha = true ∨ c = '_') ∧
    ∀ d ∈ cs, d.isAlphanum = true ∨ d = '_'

/-- At least one digit, and nothing else. -/
def IsDigits (text : List Char) : Prop := text ≠ [] ∧ ∀ c ∈ text, c.isDigit = true

/-- The texts that are lexemes of a kind. -/
inductive Lexeme : Kind → List Char → Prop
  | symbol {kind : Kind} {text : List Char} (h : kind.symbol? = some text) : Lexeme kind text
  | reserved {kind : Kind} {text : List Char} (h : kind.word? = some (String.ofList text)) :
      Lexeme kind text
  | identifier {text : List Char} (hword : IsWord text)
      (hnone : ∀ kind : Kind, kind.word? ≠ some (String.ofList text)) : Lexeme .identifier text
  | whole {text : List Char} (h : IsDigits text) : Lexeme .number text
  | fraction {whole digits : List Char} (hwhole : IsDigits whole) (hdigits : IsDigits digits) :
      Lexeme .number (whole ++ '.' :: digits)
  | string {inner : List Char} (h : '"' ∉ inner) : Lexeme .string ('"' :: (inner ++ ['"']))

/-- What follows a lexeme of a kind does not belong to it. -/
structure Ends (kind : Kind) (text behind : List Char) : Prop where
  /-- A word is not followed by a letter, a digit or an underscore. -/
  word : kind = .identifier ∨ kind.word? ≠ none →
    ¬ Begins (fun c => c.isAlphanum || c = '_') behind
  /-- A number is not followed by a digit. -/
  digit : kind = .number → ¬ Begins Char.isDigit behind
  /-- A number without a fraction is not followed by one. -/
  fraction : kind = .number → '.' ∉ text →
    ∀ rest, behind = '.' :: rest → ¬ Begins Char.isDigit rest
  /-- A symbol that an equals sign changes is not followed by one. -/
  equal : kind = .bang ∨ kind = .equal ∨ kind = .less ∨ kind = .greater →
    behind.head? ≠ some '='
  /-- A slash is not followed by a slash. -/
  slash : kind = .slash → behind.head? ≠ some '/'

/-! ### What has to be seen of the text behind a lexeme -/

section

variable {kind : Kind} {text behind : List Char}

theorem Ends.of_word (hkind : kind = .identifier ∨ kind.word? ≠ none)
    (hbehind : ¬ Begins isWordPart behind) : kind.Ends text behind := by
  refine ⟨?_, ?_, ?_, ?_, ?_⟩
  · intro _ h
    obtain ⟨c, rest, rfl, hc⟩ := h
    rw [begins_cons_iff, isWordPart_iff] at hbehind
    exact hbehind (by simpa using hc)
  · rintro rfl
    simp [word?] at hkind
  · rintro rfl
    simp [word?] at hkind
  · rintro (rfl | rfl | rfl | rfl) <;> simp [word?] at hkind
  · rintro rfl
    simp [word?] at hkind

theorem Ends.of_number (hdigit : ¬ Begins Char.isDigit behind)
    (hfraction : '.' ∉ text → ∀ rest, behind = '.' :: rest → ¬ Begins Char.isDigit rest) :
    Kind.number.Ends text behind := by
  refine ⟨?_, fun _ => hdigit, fun _ => hfraction, ?_, ?_⟩
  all_goals simp [word?]

theorem Ends.of_string : Kind.string.Ends text behind := by
  refine ⟨?_, ?_, ?_, ?_, ?_⟩
  all_goals simp [word?]

theorem Ends.of_symbol (h : kind.symbol? = some text)
    (hequal : kind.withEqual? ≠ none → behind.head? ≠ some '=')
    (hslash : kind = .slash → behind.head? ≠ some '/') : kind.Ends text behind := by
  refine ⟨?_, ?_, ?_, ?_, hslash⟩
  · intro hword
    cases kind <;> cases h <;> simp [word?] at hword
  · rintro rfl
    cases h
  · rintro rfl
    cases h
  · rintro (rfl | rfl | rfl | rfl) <;> exact hequal (by decide)

end

/-! ### The spellings of words and symbols -/

theorem ofWord?_of_word? {kind : Kind} {text : String} (h : kind.word? = some text) :
    ofWord? text = some kind := by
  cases kind <;> cases h <;> decide +kernel

theorem ofWord?_eq_none_iff {text : String} :
    ofWord? text = none ↔ ∀ kind : Kind, kind.word? ≠ some text := by
  constructor
  · intro h kind hkind
    rw [ofWord?_of_word? hkind] at h
    cases h
  · intro h
    cases hkind : ofWord? text with
    | none => rfl
    | some kind => exact absurd (word?_of_ofWord? hkind) (h kind)

/-- The text has the characters of a word. -/
def looksLikeWord : List Char → Bool
  | [] => false
  | c :: cs => isWordStart c && cs.all isWordPart

theorem isWord_of_word? {kind : Kind} {text : List Char}
    (h : kind.word? = some (String.ofList text)) : IsWord text := by
  have hwords (k : Kind) : (k.word?.all fun w => looksLikeWord w.toList) = true := by
    cases k <;> decide +kernel
  have hword := hwords kind
  rw [h, Option.all_some, String.toList_ofList] at hword
  cases text with
  | nil => cases hword
  | cons c cs =>
    obtain ⟨hc, hcs⟩ := Bool.and_eq_true_iff.1 hword
    refine ⟨c, cs, rfl, isWordStart_iff.1 hc, ?_⟩
    intro d hd
    exact isWordPart_iff.1 (List.all_eq_true.1 hcs d hd)

theorem ofSymbol?_eq_some_iff {c : Char} {kind : Kind} :
    ofSymbol? c = some kind ↔ kind.symbol? = some [c] := by
  constructor
  · intro h
    unfold ofSymbol? at h
    split at h <;> cases h <;> rfl
  · intro h
    cases kind <;> cases h <;> rfl

theorem ofSymbol?_ne_none {c : Char} {cs : List Char} {kind : Kind}
    (h : kind.symbol? = some (c :: cs)) : ofSymbol? c ≠ none := by
  cases kind <;> cases h <;> decide

/-- A symbol of two characters has become all that it can. -/
theorem withEqual?_withEqual? {kind joined : Kind} (h : kind.withEqual? = some joined) :
    joined.withEqual? = none ∧ joined ≠ .slash := by
  cases kind <;> cases h <;> decide

theorem symbol?_withEqual? {c : Char} {kind joined : Kind} (h : kind.symbol? = some [c])
    (hjoined : kind.withEqual? = some joined) : joined.symbol? = some [c, '='] := by
  cases kind <;> cases hjoined <;> cases h <;> rfl

/-! ### Sorts of lexemes -/

/-- The sorts of lexemes, told apart by the first character. -/
inductive Opening
  | word | number | string | symbol

namespace Opening

/-- The sort of lexeme that a character begins. -/
def of? (c : Char) : Option Opening :=
  if isWordStart c then some word
  else if c.isDigit then some number
  else if c = '"' then some string
  else if (ofSymbol? c).isSome then some symbol
  else none

/-- What the lexemes of a sort have in common. -/
def Fits : Opening → Kind → List Char → Prop
  | word, kind, text => (kind = .identifier ∨ kind.word? ≠ none) ∧ IsWord text
  | number, kind, text => kind = .number ∧ (IsDigits text ∨
      ∃ whole digits, IsDigits whole ∧ IsDigits digits ∧ text = whole ++ '.' :: digits)
  | string, _, text => ∃ inner, '"' ∉ inner ∧ text = '"' :: (inner ++ ['"'])
  | symbol, kind, text => kind.symbol? = some text

theorem isWordStart_of_isDigit {c : Char} (h : c.isDigit = true) : isWordStart c = false := by
  have hrange : 48 ≤ c.val.toNat ∧ c.val.toNat ≤ 57 := Char.isDigit_iff_toNat.1 h
  have hne : c ≠ '_' := by
    rintro rfl
    cases h
  have hupper : c.isUpper = false := by
    refine Bool.eq_false_iff.2 fun hupper => ?_
    have hge : 65 ≤ c.val.toNat := (of_decide_eq_true hupper).1
    omega
  have hlower : c.isLower = false := by
    refine Bool.eq_false_iff.2 fun hlower => ?_
    have hge : 97 ≤ c.val.toNat := of_decide_eq_true (Bool.and_eq_true_iff.1 hlower).1
    omega
  have halpha : c.isAlpha = (c.isUpper || c.isLower) := rfl
  simp [isWordStart, halpha, hupper, hlower, hne]

theorem of?_of_isDigit {c : Char} (h : c.isDigit = true) : of? c = some number := by
  rw [of?, if_neg (by simp [isWordStart_of_isDigit h]), if_pos h]

/-- The first character of a symbol begins nothing else. -/
theorem of?_of_ofSymbol? {c : Char} (h : ofSymbol? c ≠ none) : of? c = some symbol := by
  unfold ofSymbol? at h
  split at h
  case h_16 => exact absurd rfl h
  all_goals rfl

end Opening

/-- A lexeme is of the sort that its first character begins. -/
theorem Lexeme.opening {kind : Kind} {text : List Char} (h : kind.Lexeme text) :
    ∃ c cs o, text = c :: cs ∧ Opening.of? c = some o ∧ o.Fits kind text := by
  cases h with
  | symbol h =>
    cases text with
    | nil => cases kind <;> cases h
    | cons c cs => exact ⟨c, cs, .symbol, rfl, Opening.of?_of_ofSymbol? (ofSymbol?_ne_none h), h⟩
  | reserved h =>
    have hword := isWord_of_word? h
    obtain ⟨c, cs, rfl, hc, -⟩ := isWord_of_word? h
    exact ⟨c, cs, .word, rfl, if_pos (isWordStart_iff.2 hc), .inr (by simp [h]), hword⟩
  | identifier hword =>
    obtain ⟨c, cs, rfl, hc, hcs⟩ := hword
    exact ⟨c, cs, .word, rfl, if_pos (isWordStart_iff.2 hc), .inl rfl, c, cs, rfl, hc, hcs⟩
  | whole h =>
    obtain ⟨hne, hdigits⟩ := h
    cases text with
    | nil => exact absurd rfl hne
    | cons c cs =>
      exact ⟨c, cs, .number, rfl, Opening.of?_of_isDigit (hdigits c List.mem_cons_self), rfl,
        .inl ⟨hne, hdigits⟩⟩
  | @fraction whole digits hwhole hdigits =>
    obtain ⟨hne, hall⟩ := hwhole
    cases whole with
    | nil => exact absurd rfl hne
    | cons c cs =>
      exact ⟨c, cs ++ '.' :: digits, .number, rfl,
        Opening.of?_of_isDigit (hall c List.mem_cons_self), rfl,
        .inr ⟨c :: cs, digits, ⟨hne, hall⟩, hdigits, rfl⟩⟩
  | @string inner h => exact ⟨'"', inner ++ ['"'], .string, rfl, rfl, inner, h, rfl⟩

/-! ### The longest lexeme -/

section

variable {kind : Kind} {text behind : List Char} {d : Char} {ds : List Char}

/-- A longer word would have gone on. -/
theorem Ends.not_word (hends : kind.Ends text behind) (hfit : Opening.word.Fits kind text)
    {rest : List Char} (hbehind : behind = d :: rest) : ¬ IsWord (text ++ d :: ds) := by
  obtain ⟨hkind, c, cs, rfl, -⟩ := hfit
  intro hword
  obtain ⟨c', cs', heq, -, hall⟩ := hword
  obtain ⟨-, rfl⟩ := List.cons.inj heq
  have hd : d.isAlphanum = true ∨ d = '_' := hall d (by simp)
  exact hends.word hkind (hbehind ▸ begins_cons_iff.2 (by simpa using hd))

/-- A longer string would hold the quote that ended this one. -/
theorem not_string {kind' : Kind} (hfit : Opening.string.Fits kind text) :
    ¬ Opening.string.Fits kind' (text ++ d :: ds) := by
  obtain ⟨inner, -, rfl⟩ := hfit
  intro hlong
  obtain ⟨inner', hinner', heq⟩ := hlong
  simp only [List.cons_append, List.append_assoc, List.cons.injEq, true_and, List.nil_append] at heq
  apply hinner'
  rcases List.append_eq_append_iff.1 heq with ⟨as, rfl, has⟩ | ⟨bs, rfl, hbs⟩
  · -- The longer string goes on behind the quote, so this quote is part of its inside.
    cases as with
    | nil => simp at has
    | cons a as =>
      simp only [List.cons_append, List.cons.injEq] at has
      rw [← has.1]
      simp
  · have hlen := congrArg List.length hbs
    simp only [List.length_append, List.length_cons, List.length_nil] at hlen
    omega

/-- A symbol that begins with a shorter one is that one with an equals sign. -/
theorem symbol?_append {kind' : Kind} (h : kind'.symbol? = some (text ++ d :: ds))
    (hne : text ≠ []) : d = '=' ∧ ∀ shorter : Kind, shorter.symbol? = some text →
      shorter = .bang ∨ shorter = .equal ∨ shorter = .less ∨ shorter = .greater := by
  cases text with
  | nil => exact absurd rfl hne
  | cons c cs =>
    cases cs with
    | nil =>
      -- the first character says which symbol the shorter one is
      simp only [← ofSymbol?_eq_some_iff]
      cases kind' <;> cases h <;> exact ⟨rfl, fun shorter hshorter => by cases hshorter; simp⟩
    | cons c' cs => cases kind' <;> simp [symbol?] at h

theorem Ends.not_symbol {kind' : Kind} (hends : kind.Ends text behind)
    (hfit : Opening.symbol.Fits kind text) (hne : text ≠ []) {rest : List Char}
    (hbehind : behind = d :: rest) : ¬ Opening.symbol.Fits kind' (text ++ d :: ds) := by
  intro hlong
  obtain ⟨rfl, hequal⟩ := symbol?_append hlong hne
  refine hends.equal (hequal kind hfit) ?_
  rw [hbehind]
  rfl

theorem IsDigits.dot_notMem {cs : List Char} (h : IsDigits cs) : '.' ∉ cs := by
  intro hdot
  have hdigit := h.2 '.' hdot
  cases hdigit

/-- A longer number has more digits, or a fraction that this one has not. -/
theorem Ends.not_number {kind' : Kind} (hends : kind.Ends text behind)
    (hfit : Opening.number.Fits kind text) {rest : List Char}
    (hbehind : behind = d :: (ds ++ rest)) : ¬ Opening.number.Fits kind' (text ++ d :: ds) := by
  obtain ⟨hkind, -⟩ := hfit
  have hdigit : d.isDigit ≠ true := by
    intro hd
    exact hends.digit hkind (hbehind ▸ begins_cons_iff.2 hd)
  -- the point of the longer number cannot stand right behind this one
  have hdot {digits : List Char} (htext : IsDigits text) (hdigits : IsDigits digits)
      (heq : d :: ds = '.' :: digits) : False := by
    obtain ⟨rfl, rfl⟩ := List.cons.inj heq
    refine hends.fraction hkind htext.dot_notMem (ds ++ rest) hbehind ?_
    cases ds with
    | nil => exact absurd rfl hdigits.1
    | cons e es => exact begins_cons_iff.2 (hdigits.2 e List.mem_cons_self)
  rintro ⟨-, hlong | ⟨whole, digits, hwhole, hdigits, heq⟩⟩
  · exact hdigit (hlong.2 d (by simp))
  · rcases List.append_eq_append_iff.1 heq with ⟨as, rfl, has⟩ | ⟨bs, rfl, hbs⟩
    · cases as with
      | nil =>
        rw [List.append_nil] at hwhole
        exact hdot hwhole hdigits has
      | cons a as =>
        obtain ⟨rfl, -⟩ := List.cons.inj has
        exact hdigit (hwhole.2 d (by simp))
    · cases bs with
      | nil =>
        rw [List.append_nil] at hdot
        exact hdot hwhole hdigits hbs.symm
      | cons b bs =>
        obtain ⟨-, rfl⟩ := List.cons.inj hbs
        exact hdigit (hdigits.2 d (by simp))

end

/-- **A lexeme that ends is the longest one in its place**: no lexeme of any kind that begins where
it does goes on behind it. -/
theorem Lexeme.length_le {kind kind' : Kind} {text text' behind behind' : List Char}
    (h : kind.Lexeme text) (hends : kind.Ends text behind) (h' : kind'.Lexeme text')
    (heq : text' ++ behind' = text ++ behind) : text'.length ≤ text.length := by
  rcases List.append_eq_append_iff.1 heq with ⟨as, rfl, -⟩ | ⟨extra, rfl, rfl⟩
  · simp
  · cases extra with
    | nil => simp
    | cons d ds =>
      -- Both lexemes begin with the same character, so they are of the same sort.
      exfalso
      obtain ⟨c, cs, o, rfl, ho, hfit⟩ := h.opening
      obtain ⟨c', cs', o', htext', ho', hfit'⟩ := h'.opening
      obtain ⟨rfl, -⟩ := List.cons.inj htext'
      obtain rfl : o = o' := Option.some.inj (ho.symm.trans ho')
      cases o with
      | word => exact hends.not_word hfit rfl hfit'.2
      | number => exact hends.not_number hfit rfl hfit'
      | string => exact not_string hfit hfit'
      | symbol => exact hends.not_symbol hfit (by simp) rfl hfit'

end Kind

end Scriptlet
