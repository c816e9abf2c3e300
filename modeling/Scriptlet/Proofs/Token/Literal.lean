import Scriptlet.Proofs.Binary.Rounding
import Scriptlet.Proofs.Decimal.Reading
import Scriptlet.Proofs.Expression.Tree
import Scriptlet.Proofs.Source.Lines

/-!
# Literals of tokens

The value of a literal is read from its lexeme in two places: a listing shows it, and the parser
builds a leaf of it.  A listing takes all quotes off the two ends of a string, and the parser takes
what stands between the first two quotes.  On a lexeme of a source text, which has a quote at either
end and no other, both are the inside.  A lexeme that is a number always has a value.

The value that a listing shows for a number is a 64-bit one.  It is written with a point and at
least one digit behind it, unless it has become infinite.  That is so just if the lexeme spells a
number that is not below `(2 ^ 54 - 1) * 2 ^ 970`, half a step below `2 ^ 1024`.

## Main definitions

* `Decimal.IsPointed` — digits, a point, and at least one digit behind it.

## Main results

* `Scan.exists_place_of_mem_tokens` — where a token stands in its source text.
* `Scan.literals_agree` — **both readings of a literal are the same.**
* `Binary.literal_of_finite` — how a finite 64-bit value is listed.
* `Scan.decimal_listed_iff` — **which numbers are listed as decimals.**
-/

namespace Scriptlet

/-! ### Strings -/

/-- What stands between the quotes of a string: nothing is taken off it. -/
theorem Token.unquote_quotes {inner : List Char} (h : '"' ∉ inner) :
    unquote (String.ofList ('"' :: (inner ++ ['"']))) = String.ofList inner := by
  have hnone {cs : List Char} (hcs : '"' ∉ cs) : cs.dropWhile (· = '"') = cs := by
    cases cs with
    | nil => rfl
    | cons c cs =>
      rw [List.dropWhile_cons_of_neg]
      rw [decide_eq_true_eq]
      rintro rfl
      exact hcs List.mem_cons_self
  have hquote (cs : List Char) : ('"' :: cs).dropWhile (· = '"') = cs.dropWhile (· = '"') :=
    List.dropWhile_cons_of_pos (by decide)
  unfold unquote
  rw [String.toList_ofList, hquote]
  congr 1
  cases inner with
  | nil => rfl
  | cons c cs =>
    -- the first character of the inside stops the first run, and its last one the second
    have hfront : ((c :: cs) ++ ['"']).dropWhile (· = '"') = (c :: cs) ++ ['"'] := by
      rw [List.cons_append, List.dropWhile_cons_of_neg]
      rw [decide_eq_true_eq]
      rintro rfl
      exact h List.mem_cons_self
    rw [hfront, List.reverse_append, List.reverse_singleton, List.singleton_append, hquote, hnone,
      List.reverse_reverse]
    rwa [List.mem_reverse]

theorem Token.quoted_quotes {inner : List Char} (h : '"' ∉ inner) (line : Nat) :
    Token.quoted ⟨.string, String.ofList ('"' :: (inner ++ ['"'])), line⟩
      = String.ofList inner := by
  have hinner : ∀ c ∈ inner, decide (c ≠ '"') = true := by
    intro c hc
    rw [decide_eq_true_eq]
    rintro rfl
    exact h hc
  have hend : ¬ Begins (fun c => decide (c ≠ '"')) ['"'] := by simp
  rw [quoted, String.toList_ofList, List.dropWhile_cons_of_neg (by decide)]
  exact congrArg String.ofList (takeWhile_append_of_not_begins hinner hend).1

/-- A string of a source text has a quote at either end and no other. -/
theorem Kind.Lexeme.exists_quotes {text : List Char} (h : Kind.string.Lexeme text) :
    ∃ inner, '"' ∉ inner ∧ text = '"' :: (inner ++ ['"']) := by
  cases h with
  | symbol h => cases h
  | reserved h => cases h
  | string h => exact ⟨_, h, rfl⟩

/-! ### Numbers -/

/-- A number of a source text is digits, perhaps with a point and more digits behind it. -/
theorem Kind.Lexeme.exists_pointed {text : List Char} (h : Kind.number.Lexeme text) :
    ∃ whole fraction, IsDigits whole ∧ (∀ c ∈ fraction, c.isDigit = true) ∧
      text = Decimal.pointed whole fraction := by
  cases h with
  | symbol h => cases h
  | reserved h => cases h
  | whole h => exact ⟨text, [], h, fun c hc => (List.not_mem_nil hc).elim, rfl⟩
  | @fraction whole digits hwhole hdigits =>
    exact ⟨whole, digits, hwhole, hdigits.2, (if_neg hdigits.1).symm⟩

/-- Digits with a point among them have the value that is nearest to what they spell. -/
theorem Binary.ofText?_pointed (F : BinaryFormat) {whole fraction : List Char}
    (hwhole : Kind.IsDigits whole) (hfraction : ∀ c ∈ fraction, c.isDigit = true) :
    ofText? F (String.ofList (Decimal.pointed whole fraction))
      = some (.signed false
          (Decimal.code F ⟨Numeral.ofDigits (whole ++ fraction), -(fraction.length : Int)⟩)
          (Decimal.code_le_infinity F _)) := by
  have hbegins : Begins Char.isDigit (Decimal.pointed whole fraction) := by
    have h : Begins Char.isDigit (Decimal.pointed whole fraction ++ []) :=
      Decimal.begins_pointed hwhole []
    rwa [List.append_nil] at h
  have hread := ofText?_sign F false hbegins
  rw [Numeral.decimal?_pointed hwhole hfraction] at hread
  exact (congrArg (ofText? F) String.empty_append.symm).trans hread

/-! ### Listed numbers -/

theorem Decimal.code_neg (F : BinaryFormat) (coefficient places : Nat) :
    Decimal.code F ⟨coefficient, -(places : Int)⟩
      = F.nearest (coefficient * 2 ^ F.quantum) (10 ^ places) := by
  cases places with
  | zero => exact congrArg (fun n => F.nearest (n * 2 ^ F.quantum) 1) (Nat.mul_one coefficient)
  | succ places => rfl

/-- The least number that becomes infinite as a 64-bit value: it lies half a step below
`2 ^ 1024`. -/
def Decimal.doubleEnd : Nat := (2 ^ (54 : Nat) - 1) * 2 ^ (970 : Nat)

/-- **Which decimals become infinite** as 64-bit values. -/
theorem Decimal.code_double_eq_infinity_iff {coefficient places : Nat} :
    Decimal.code .double ⟨coefficient, -(places : Int)⟩ = BinaryFormat.double.infinity
      ↔ Decimal.doubleEnd * 10 ^ places ≤ coefficient := by
  have hoverflow : BinaryFormat.double.overflow
      = Decimal.doubleEnd * 2 ^ BinaryFormat.double.quantum := by decide +kernel
  have hbits : 2 ≤ BinaryFormat.double.exponentBits := by decide
  rw [code_neg, BinaryFormat.nearest_eq_infinity_iff _ hbits (Nat.pow_pos (by omega)), hoverflow,
    Nat.mul_right_comm]
  exact Nat.mul_le_mul_right_iff (Nat.two_pow_pos _)

/-- Digits, a point, and at least one digit behind it. -/
def Decimal.IsPointed (text : List Char) : Prop :=
  ∃ whole fraction, Kind.IsDigits whole ∧ Kind.IsDigits fraction ∧ text = whole ++ '.' :: fraction

theorem Decimal.isPointed_plain {d : Decimal} (h : d.exponent < 0) : IsPointed d.plain := by
  obtain ⟨whole, fraction, hwhole, hfraction, hplain, -⟩ := d.exists_plain_eq
  have hpoint : '.' ∈ d.plain := by
    obtain ⟨coefficient, exponent⟩ := d
    cases exponent with
    | ofNat e => exact absurd h (Int.not_lt.2 (Int.natCast_nonneg e))
    | negSucc e => exact List.mem_append_right _ List.mem_cons_self
  have hne : fraction ≠ [] := by
    rintro rfl
    rw [hplain] at hpoint
    exact hwhole.dot_notMem hpoint
  exact ⟨whole, fraction, hwhole, ⟨hne, hfraction⟩, hplain.trans (if_neg hne)⟩

/-- A decimal without digits behind the point has a whole value, also when it is rounded. -/
theorem Decimal.whole?_code {F : BinaryFormat} {d : Decimal} (h : 0 ≤ d.exponent)
    (hfinite : d.code F ≠ F.infinity) : F.whole? (d.code F) ≠ none := by
  obtain ⟨coefficient, exponent⟩ := d
  obtain ⟨e, rfl⟩ := Int.eq_ofNat_of_zero_le h
  have hwhole : F.units (F.nearest (coefficient * 10 ^ e * 2 ^ F.quantum) 1) % 2 ^ F.quantum = 0 :=
    F.units_nearest_whole hfinite
  exact ne_of_eq_of_ne (if_pos hwhole) (Option.some_ne_none _)

/-- A whole value is its number of units. -/
theorem BinaryFormat.mul_eq_units_of_whole? {F : BinaryFormat} {code n : Nat}
    (h : F.whole? code = some n) : n * 2 ^ F.quantum = F.units code := by
  unfold whole? at h
  split at h
  · rename_i hdvd
    obtain rfl := Option.some.inj h
    exact Nat.div_mul_cancel (Nat.dvd_of_mod_eq_zero hdvd)
  · cases h

/-- A zero behind the point does not change a whole value. -/
theorem Decimal.code_digits_zero {F : BinaryFormat} {code n : Nat} (hcode : code ≤ F.infinity)
    (h : F.whole? code = some n) :
    (⟨Numeral.ofDigits (digits n ++ ['0']), -1⟩ : Decimal).code F = code := by
  have hspelled : Numeral.ofDigits (digits n ++ ['0']) = 10 * n := by
    rw [Numeral.ofDigits, Nat.ofDigitChars_append, digits, Nat.ofDigitChars_ten_toDigits]
    rfl
  rw [hspelled, code_ten_mul]
  show F.nearest (n * 10 ^ 0 * 2 ^ F.quantum) 1 = code
  rw [Nat.pow_zero, Nat.mul_one, BinaryFormat.mul_eq_units_of_whole? h, F.nearest_units hcode]

namespace Binary

variable {code : Nat} {hcode : code ≤ BinaryFormat.double.infinity}

theorem literal_of_infinity (hinfinity : code = BinaryFormat.double.infinity) :
    literal (.signed false code hcode) = "inf" := by
  rw [literal, if_pos hinfinity]
  rfl

/-- A whole value is listed with all of its digits and a zero behind the point. -/
theorem literal_of_whole (hfinite : code ≠ BinaryFormat.double.infinity) {n : Nat}
    (h : BinaryFormat.double.whole? code = some n) :
    literal (.signed false code hcode)
      = String.ofList (Decimal.pointed (Decimal.digits n) ['0']) := by
  rw [literal, if_neg hfinite, h]
  simp [Decimal.pointed]

/-- A value that is not whole is listed in plain notation. -/
theorem literal_of_not_whole (hfinite : code ≠ BinaryFormat.double.infinity)
    (h : BinaryFormat.double.whole? code = none) :
    literal (.signed false code hcode)
      = String.ofList (BinaryFormat.double.shortest code).plain := by
  rw [literal, if_neg hfinite, h]
  exact String.empty_append

/-- **A finite value is listed as a decimal** with at least one digit behind the point, and the text
reads back to the value. -/
theorem literal_of_finite (hfinite : code ≠ BinaryFormat.double.infinity) :
    Decimal.IsPointed (literal (.signed false code hcode)).toList ∧
      ofText? .double (literal (.signed false code hcode)) = some (.signed false code hcode) := by
  cases hwhole : BinaryFormat.double.whole? code with
  | some n =>
    have hdigits : Kind.IsDigits (Decimal.digits n) :=
      ⟨Nat.toDigits_ne_nil, fun c hc => Decimal.isDigit_of_mem_digits hc⟩
    have hzero : ∀ c ∈ ['0'], c.isDigit = true := by
      intro c hc
      rw [List.mem_singleton.1 hc]
      decide
    have hread := ofText?_pointed .double hdigits hzero
    simp only [List.length_singleton, Int.natCast_one,
      Decimal.code_digits_zero hcode hwhole] at hread
    rw [literal_of_whole hfinite hwhole, hread, String.toList_ofList]
    exact ⟨⟨Decimal.digits n, ['0'], hdigits, ⟨List.cons_ne_nil _ _, hzero⟩, rfl⟩, rfl⟩
  | none =>
    -- a decimal without a point would have a whole value
    have hexponent : (BinaryFormat.double.shortest code).exponent < 0 := by
      refine Int.not_le.1 fun hle => ?_
      have hsome : BinaryFormat.double.whole?
          ((BinaryFormat.double.shortest code).code .double) ≠ none := by
        refine Decimal.whole?_code hle ?_
        rwa [BinaryFormat.code_shortest .double hcode]
      rw [BinaryFormat.code_shortest .double hcode] at hsome
      exact hsome hwhole
    have hsign : Number.sign false = "" := rfl
    have hread := ofText?_plain .double false (BinaryFormat.double.shortest code)
    simp only [BinaryFormat.code_shortest .double hcode, hsign, String.empty_append] at hread
    rw [literal_of_not_whole hfinite hwhole, String.toList_ofList]
    exact ⟨Decimal.isPointed_plain hexponent, hread⟩

/-- A value without a sign is listed as a decimal unless it is infinite. -/
theorem isPointed_literal_iff :
    Decimal.IsPointed (literal (.signed false code hcode)).toList
      ↔ code ≠ BinaryFormat.double.infinity := by
  constructor
  · rintro ⟨whole, fraction, -, -, hpointed⟩ hinfinity
    have hpoint : '.' ∈ (literal (.signed false code hcode)).toList := by
      rw [hpointed]
      exact List.mem_append_right _ List.mem_cons_self
    rw [literal_of_infinity hinfinity] at hpoint
    revert hpoint
    decide
  · exact fun hfinite => (literal_of_finite hfinite).1

/-- What is listed for a value without a sign reads back to it. -/
theorem ofText?_literal :
    ofText? .double (literal (.signed false code hcode)) = some (.signed false code hcode) := by
  by_cases hinfinity : code = BinaryFormat.double.infinity
  · subst hinfinity
    rw [literal_of_infinity rfl]
    rfl
  · exact (literal_of_finite hinfinity).2

end Binary

theorem Token.literal_of_ofText? {text : String} {x : Binary .double}
    (h : Binary.ofText? .double text = some x) (line : Nat) :
    literal ⟨.number, text, line⟩ = x.literal := by
  rw [literal, number?, h]
  rfl

/-- Digits with a point among them are listed as a decimal if they spell less than
`Decimal.doubleEnd`. -/
theorem Token.isPointed_literal_pointed {whole fraction : List Char} (hwhole : Kind.IsDigits whole)
    (hfraction : ∀ c ∈ fraction, c.isDigit = true) (line : Nat) :
    Decimal.IsPointed
        (literal ⟨.number, String.ofList (Decimal.pointed whole fraction), line⟩).toList
      ↔ Numeral.ofDigits (whole ++ fraction) < Decimal.doubleEnd * 10 ^ fraction.length := by
  rw [literal_of_ofText? (Binary.ofText?_pointed .double hwhole hfraction),
    Binary.isPointed_literal_iff, ne_eq, Decimal.code_double_eq_infinity_iff, Nat.not_le]

namespace Kind.Lexeme

variable {text : String}

/-- A number of a source text always has a value. -/
theorem exists_value (h : Kind.number.Lexeme text.toList) (F : BinaryFormat) :
    ∃ code hcode, Binary.ofText? F text = some (.signed false code hcode) := by
  obtain ⟨whole, fraction, hwhole, hfraction, htext⟩ := h.exists_pointed
  have hread := Binary.ofText?_pointed F hwhole hfraction
  rw [← htext, String.ofList_toList] at hread
  exact ⟨_, _, hread⟩

/-- What is listed for a number of a source text is never the word for what has no value. -/
theorem literal_ne_null (h : Kind.number.Lexeme text.toList) (line : Nat) :
    Token.literal ⟨.number, text, line⟩ ≠ "null" := by
  obtain ⟨code, hcode, hvalue⟩ := h.exists_value .double
  have hread : Binary.ofText? .double (Token.literal ⟨.number, text, line⟩)
      = some (.signed false code hcode) := by
    rw [Token.literal_of_ofText? hvalue line, Binary.ofText?_literal]
  have hnull : Binary.ofText? .double "null" = none := by decide +kernel
  intro h
  rw [h, hnull] at hread
  cases hread

end Kind.Lexeme

/-! ### The place of a token -/

/-- A segment of a source text stands behind the text `front` and before the text `behind`. -/
def Segment.StandsIn (s : Segment) (source front behind : List Char) : Prop :=
  ∃ before after, segments source = before ++ s :: after ∧
    front = before.flatMap text ∧ behind = after.flatMap text

theorem Segment.StandsIn.source_eq {s : Segment} {source front behind : List Char}
    (h : s.StandsIn source front behind) : source = front ++ (s.text ++ behind) := by
  obtain ⟨before, after, hsegments, rfl, rfl⟩ := h
  rw [← List.flatMap_cons, ← List.flatMap_append, ← hsegments, segments_text]

theorem Segment.exists_of_mem_placed {segs : List Segment} {front₀ front : List Char} {s : Segment}
    (h : (front, s) ∈ placed front₀ segs) :
    ∃ before after, segs = before ++ s :: after ∧ front = front₀ ++ before.flatMap text := by
  induction segs generalizing front₀ with
  | nil => cases h
  | cons s₀ segs ih =>
    rcases List.mem_cons.1 h with hfirst | hrest
    · obtain ⟨rfl, rfl⟩ := Prod.mk.inj hfirst
      exact ⟨[], segs, rfl, (List.append_nil front).symm⟩
    · obtain ⟨before, after, rfl, rfl⟩ := ih hrest
      exact ⟨s₀ :: before, after, rfl, by rw [List.flatMap_cons, List.append_assoc]⟩

namespace Scan

variable {text : String} {t : Token}

theorem lexeme_of_mem_tokens (h : t ∈ (ofText text).tokens) : t.kind.Lexeme t.lexeme.toList :=
  lexeme_of_ok_mem_textResults (ok_mem_of_mem_tokens h)

/-- A source text that is a lexeme is scanned to one token. -/
theorem ofText_lexeme {kind : Kind} (h : kind.Lexeme text.toList) :
    ofText text = ⟨[⟨kind, text, 1⟩], []⟩ := by
  have hscan := @textResults_append_lexeme ⟨kind, text, 1⟩ [] h .of_nil 1
  rw [List.append_nil, textResults_nil] at hscan
  exact congrArg ofResults hscan

/-- **A token is a segment of its source text**, and has the line on which that starts. -/
theorem exists_place_of_mem_tokens (h : t ∈ (ofText text).tokens) :
    ∃ front behind, (Segment.lexeme t.kind t.lexeme.toList).StandsIn text.toList front behind ∧
      t.line = 1 + front.count '\n' := by
  have hresults : scanResults 1 (segments text.toList)
      = (Segment.placed [] (segments text.toList)).filterMap
          fun p => p.2.resultIn? text.toList p.1 :=
    scanResults_eq_filterMap_placed (Segment.cuts_segments text.toList) (List.nil_append _)
  have hresult : .ok t ∈ scanResults 1 (segments text.toList) := ok_mem_of_mem_tokens h
  rw [hresults] at hresult
  obtain ⟨⟨front, s⟩, hplaced, hs⟩ := List.mem_filterMap.1 hresult
  obtain ⟨before, after, hsegments, rfl⟩ := Segment.exists_of_mem_placed hplaced
  -- Of all segments only a lexeme has a token as its result.
  cases s with
  | lexeme kind lexeme =>
    cases hs
    refine ⟨before.flatMap Segment.text, after.flatMap Segment.text,
      ⟨before, after, ?_, rfl, rfl⟩, rfl⟩
    rwa [String.toList_ofList]
  | _ => cases hs

/-- **Both readings of a literal are the same.**  A string of a source text is a quote, an inside
without quotes, and the next quote of the text.  What a listing shows for it and what the parser
builds of it are the inside, whatever characters there are.  A number of a source text becomes a
number for the parser, and a listing has a value for it. -/
theorem literals_agree (ht : t ∈ (ofText text).tokens) :
    (t.kind = .string → ∃ front inner behind,
      (Segment.lexeme .string ('"' :: (inner ++ ['"']))).StandsIn text.toList front behind ∧
        text.toList = front ++ '"' :: (inner ++ '"' :: behind) ∧ '"' ∉ inner ∧
        t = ⟨.string, String.ofList ('"' :: (inner ++ ['"'])), 1 + front.count '\n'⟩ ∧
        t.literal = String.ofList inner ∧ Expression.ofAtom t = .string (String.ofList inner) ∧
        ∀ store limit, Expression.parse store limit [t] = .string (String.ofList inner)) ∧
      (t.kind = .number → t.literal ≠ "null" ∧ ∃ x, Expression.ofAtom t = .number x ∧
        ∀ store limit, Expression.parse store limit [t] = .number x) := by
  have hlexeme := lexeme_of_mem_tokens ht
  obtain ⟨front, behind, hplace, hline⟩ := exists_place_of_mem_tokens ht
  obtain ⟨kind, lexeme, line⟩ := t
  have halone (hatom : kind.isAtom = true) (store : Store) (limit : Nat) :
      Expression.parse store limit [⟨kind, lexeme, line⟩]
        = Expression.ofAtom ⟨kind, lexeme, line⟩ :=
    Expression.parse_of_atom (.atom hatom) (Nat.zero_le limit)
  dsimp only at hlexeme hplace hline ⊢
  constructor
  · rintro rfl
    obtain ⟨inner, hquote, hinner⟩ := hlexeme.exists_quotes
    obtain rfl : lexeme = String.ofList ('"' :: (inner ++ ['"'])) := by
      rw [← hinner, String.ofList_toList]
    have hatom : Expression.ofAtom ⟨.string, String.ofList ('"' :: (inner ++ ['"'])), line⟩
        = .string (String.ofList inner) :=
      congrArg Expression.string (Token.quoted_quotes hquote line)
    rw [String.toList_ofList] at hplace
    refine ⟨front, inner, behind, hplace, ?_, hquote, by rw [hline], Token.unquote_quotes hquote,
      hatom, fun store limit => (halone rfl store limit).trans hatom⟩
    have hsource := hplace.source_eq
    rwa [Segment.text, List.cons_append, List.append_assoc, List.singleton_append] at hsource
  · rintro rfl
    obtain ⟨code, hcode, hvalue⟩ := hlexeme.exists_value .single
    have hatom :
        Expression.ofAtom ⟨.number, lexeme, line⟩ = .number (.signed false code hcode) := by
      rw [Expression.ofAtom, Token.number?, hvalue]
      rfl
    exact ⟨hlexeme.literal_ne_null line, _, hatom,
      fun store limit => (halone rfl store limit).trans hatom⟩

/-- A string over two lines with a letter beyond ASCII, behind a number. -/
theorem literals_agree_lines :
    let text := "42 \"\" // \n \"h\u00e9\nllo\""
    let number : Token := ⟨.number, "42", 1⟩
    let string : Token := ⟨.string, "\"h\u00e9\nllo\"", 2⟩
    number ∈ (ofText text).tokens ∧ string ∈ (ofText text).tokens ∧
      number.literal = "42.0" ∧
      (∃ x, Expression.ofAtom number = .number x ∧
        ∀ store limit, Expression.parse store limit [number] = .number x) ∧
      string.literal = "h\u00e9\nllo" ∧
      ∃ front inner behind,
        (Segment.lexeme .string ('"' :: (inner ++ ['"']))).StandsIn text.toList front behind ∧
          text.toList = front ++ '"' :: (inner ++ '"' :: behind) ∧
          string.literal = String.ofList inner ∧
          ∀ store limit, Expression.parse store limit [string] = .string (String.ofList inner) := by
  intro text number string
  have hnumber : number ∈ (ofText text).tokens := by decide +kernel
  have hstring : string ∈ (ofText text).tokens := by decide +kernel
  obtain ⟨front, inner, behind, hplace, hsource, -, -, hliteral, -, hparse⟩ :=
    (literals_agree hstring).1 rfl
  exact ⟨hnumber, hstring, by decide +kernel, ((literals_agree hnumber).2 rfl).2, by decide +kernel,
    front, inner, behind, hplace, hsource, hliteral, hparse⟩

/-- **Which numbers are listed as decimals.**  A number of a source text is digits, perhaps with a
point and more digits behind it.  If it is below `Decimal.doubleEnd`, then what is listed for it are
digits, a point and at least one digit behind it, and reads back to the same 64-bit value.  If it is
not, then what is listed is the word for an infinite value. -/
theorem decimal_listed_iff (ht : t ∈ (ofText text).tokens) (hnumber : t.kind = .number) :
    ∃ whole fraction, Kind.IsDigits whole ∧ (∀ c ∈ fraction, c.isDigit = true) ∧
      t.lexeme.toList = Decimal.pointed whole fraction ∧
      (Decimal.IsPointed t.literal.toList
        ↔ Numeral.ofDigits (whole ++ fraction) < Decimal.doubleEnd * 10 ^ fraction.length) ∧
      (¬ Decimal.IsPointed t.literal.toList → t.literal = "inf") ∧
      Binary.ofText? .double t.literal = t.number? .double := by
  have hlexeme := lexeme_of_mem_tokens ht
  obtain ⟨kind, lexeme, line⟩ := t
  obtain rfl : kind = .number := hnumber
  obtain ⟨whole, fraction, hwhole, hfraction, htext⟩ := hlexeme.exists_pointed
  obtain rfl : lexeme = String.ofList (Decimal.pointed whole fraction) := by
    rw [← htext, String.ofList_toList]
  have hvalue := Binary.ofText?_pointed .double hwhole hfraction
  refine ⟨whole, fraction, hwhole, hfraction, htext,
    Token.isPointed_literal_pointed hwhole hfraction line, ?_, ?_⟩
  · rw [Token.literal_of_ofText? hvalue, Binary.isPointed_literal_iff, Decidable.not_not]
    exact Binary.literal_of_infinity
  · rw [Token.literal_of_ofText? hvalue, Token.number?, hvalue]
    exact Binary.ofText?_literal

/-- A number with more digits than a 64-bit value has. -/
theorem decimal_listed_iff_rounded :
    let text := "print 9007199254740993;"
    let t : Token := ⟨.number, "9007199254740993", 1⟩
    t ∈ (ofText text).tokens ∧ t.kind = .number ∧ t.literal = "9007199254740992.0" ∧
      ∃ whole fraction, Kind.IsDigits whole ∧ (∀ c ∈ fraction, c.isDigit = true) ∧
        t.lexeme.toList = Decimal.pointed whole fraction ∧
        (Decimal.IsPointed t.literal.toList
          ↔ Numeral.ofDigits (whole ++ fraction) < Decimal.doubleEnd * 10 ^ fraction.length) ∧
        (¬ Decimal.IsPointed t.literal.toList → t.literal = "inf") ∧
        Binary.ofText? .double t.literal = t.number? .double := by
  intro text t
  have ht : t ∈ (ofText text).tokens := by decide +kernel
  exact ⟨ht, rfl, by decide +kernel, decimal_listed_iff ht rfl⟩

/-- A two and 308 zeros are not listed as a decimal. -/
theorem not_forall_isPointed_literal :
    ¬ ∀ (text : String) (t : Token), t ∈ (ofText text).tokens → t.kind = .number →
      Decimal.IsPointed t.literal.toList := by
  intro h
  obtain ⟨digits, hdigits⟩ : ∃ digits, '2' :: List.replicate 308 '0' = digits := ⟨_, rfl⟩
  have hwhole : Kind.IsDigits digits := by
    rw [← hdigits]
    refine ⟨List.cons_ne_nil _ _, fun c hc => ?_⟩
    rcases List.mem_cons.1 hc with rfl | hc
    · decide
    · rw [List.eq_of_mem_replicate hc]
      decide
  have hlexeme : Kind.number.Lexeme (String.ofList digits).toList := by
    rw [String.toList_ofList]
    exact .whole hwhole
  have ht : ⟨.number, String.ofList digits, 1⟩ ∈ (ofText (String.ofList digits)).tokens := by
    rw [ofText_lexeme hlexeme]
    exact List.mem_singleton_self _
  have hlarge : Decimal.doubleEnd * 10 ^ ([] : List Char).length
      ≤ Numeral.ofDigits (digits ++ []) := by
    rw [← hdigits]
    decide +kernel
  have hpointed := h _ _ ht rfl
  have hless := (Token.isPointed_literal_pointed hwhole (List.forall_mem_nil _) 1).1 hpointed
  exact absurd hlarge (Nat.not_le_of_lt hless)

end Scan

end Scriptlet
