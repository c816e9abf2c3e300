import Scriptlet.Proofs.Source.Lossless

/-!
# Scanning a text piece by piece

The grammar of segments leaves the scanner no choice: a text begins with one valid segment only.  So
a piece that is valid where it stands is scanned as itself, and then what follows it.  Blanks may
be taken off one at a time, as they yield nothing.

A line feed ends every segment but a string that is never closed.  So a text without such a string
may be followed by a line feed and any other text, and the results of the two come one after the
other.

## Main definitions

* `textResults line cs` — the results of a text that starts on the given line.

## Main results

* `Kind.Lexeme.unique` — a text is a lexeme of one kind only.
* `Segment.first_of_valid` — **a segment that is valid where it stands is the first one there.**
* `textResults_append` — a valid segment in front is scanned as itself.
* `textResults_append_newline` — **a text may be followed by a line feed and another text.**
-/

namespace Scriptlet

/-! ### One kind for a text -/

namespace Kind

theorem symbol?_injective {kind kind' : Kind} {text : List Char} (h : kind.symbol? = some text)
    (h' : kind'.symbol? = some text) : kind = kind' := by
  have hall : ∀ k ∈ all, ∀ k' ∈ all, k.symbol?.isSome → k.symbol? = k'.symbol? → k = k' := by
    decide +kernel
  exact hall kind (mem_all kind) kind' (mem_all kind') (by rw [h]; rfl) (h.trans h'.symm)

/-- The kind of a word is the reserved word that it spells, if it spells one. -/
theorem Lexeme.kind_of_word {kind : Kind} {text : List Char} (h : kind.Lexeme text)
    (hkind : kind = .identifier ∨ kind.word? ≠ none) :
    kind = (ofWord? (String.ofList text)).getD .identifier := by
  cases h with
  | symbol h => cases kind <;> simp_all [symbol?, word?]
  | reserved h => rw [ofWord?_of_word? h, Option.getD_some]
  | identifier _ hnone => rw [ofWord?_eq_none_iff.2 hnone, Option.getD_none]
  | whole => simp [word?] at hkind
  | fraction => simp [word?] at hkind
  | string => simp [word?] at hkind

/-- A lexeme that begins with a quote is a string. -/
theorem Lexeme.kind_of_quote {kind : Kind} {cs : List Char} (h : kind.Lexeme ('"' :: cs)) :
    kind = .string := by
  -- the quote begins neither a symbol nor a word nor a number
  generalize htext : '"' :: cs = text at h
  cases h with
  | symbol h =>
    subst htext
    cases kind <;> cases h
  | reserved h =>
    obtain ⟨c, _, rfl, hc, -⟩ := isWord_of_word? h
    obtain ⟨rfl, -⟩ := List.cons.inj htext
    simp at hc
  | identifier hword =>
    obtain ⟨c, _, rfl, hc, -⟩ := hword
    obtain ⟨rfl, -⟩ := List.cons.inj htext
    simp at hc
  | whole h =>
    have hdigit := h.2 '"' (htext ▸ List.mem_cons_self)
    cases hdigit
  | @fraction whole digits hwhole hdigits =>
    cases whole with
    | nil => exact absurd rfl hwhole.1
    | cons c whole =>
      obtain ⟨rfl, -⟩ := List.cons.inj htext
      have hdigit := hwhole.2 '"' List.mem_cons_self
      cases hdigit
  | string => rfl

theorem Lexeme.unique {kind kind' : Kind} {text : List Char} (h : kind.Lexeme text)
    (h' : kind'.Lexeme text) : kind = kind' := by
  obtain ⟨c, cs, o, rfl, ho, hfit⟩ := h.opening
  obtain ⟨c', cs', o', htext, ho', hfit'⟩ := h'.opening
  obtain ⟨rfl, rfl⟩ := List.cons.inj htext
  obtain rfl : o = o' := Option.some.inj (ho.symm.trans ho')
  cases o with
  | word => rw [h.kind_of_word hfit.1, h'.kind_of_word hfit'.1]
  | number => rw [hfit.1, hfit'.1]
  | string =>
    obtain ⟨inner, -, htext⟩ := hfit
    obtain ⟨rfl, -⟩ := List.cons.inj htext
    rw [h.kind_of_quote, h'.kind_of_quote]
  | symbol => exact symbol?_injective hfit hfit'

theorem Lexeme.quote_mem {kind : Kind} {cs : List Char} (h : kind.Lexeme ('"' :: cs)) :
    '"' ∈ cs := by
  obtain ⟨c, cs', o, htext, ho, hfit⟩ := h.opening
  obtain ⟨rfl, rfl⟩ := List.cons.inj htext
  obtain rfl : .string = o := Option.some.inj ho
  obtain ⟨inner, -, htext⟩ := hfit
  obtain ⟨-, rfl⟩ := List.cons.inj htext
  simp

theorem Lexeme.of_slash {kind : Kind} {cs : List Char} (h : kind.Lexeme ('/' :: cs)) :
    kind = .slash ∧ cs = [] := by
  obtain ⟨c, cs', o, htext, ho, hfit⟩ := h.opening
  obtain ⟨rfl, rfl⟩ := List.cons.inj htext
  obtain rfl : .symbol = o := Option.some.inj ho
  cases kind <;> cases hfit
  exact ⟨rfl, rfl⟩

theorem Lexeme.not_blank {kind : Kind} {c : Char} {cs : List Char} (h : kind.Lexeme (c :: cs)) :
    c ∉ blanks := by
  obtain ⟨c', cs', o, htext, ho, -⟩ := h.opening
  obtain ⟨rfl, -⟩ := List.cons.inj htext
  intro hc
  have hall : blanks.all (fun c => (Opening.of? c).isNone) = true := by decide
  have hnone : Opening.of? c = none := Option.isNone_iff_eq_none.1 (List.all_eq_true.1 hall c hc)
  rw [hnone] at ho
  cases ho

theorem Lexeme.ne_nil {kind : Kind} {text : List Char} (h : kind.Lexeme text) : text ≠ [] := by
  obtain ⟨c, cs, -, rfl, -⟩ := h.opening
  simp

end Kind

/-! ### One segment for a place -/

theorem not_begins_nil {p : Char → Bool} : ¬ Begins p [] := by
  intro h
  obtain ⟨c, rest, h, -⟩ := h
  cases h

/-- A run of a sort ends where the sort ends. -/
theorem takeWhile_append_of_not_begins {p : Char → Bool} {cs behind : List Char}
    (hcs : ∀ c ∈ cs, p c = true) (hbehind : ¬ Begins p behind) :
    (cs ++ behind).takeWhile p = cs ∧ (cs ++ behind).dropWhile p = behind := by
  rw [List.takeWhile_append_of_pos hcs, List.dropWhile_append_of_pos hcs]
  cases behind with
  | nil => exact ⟨List.append_nil cs, rfl⟩
  | cons c behind =>
    rw [begins_cons_iff] at hbehind
    rw [List.takeWhile_cons_of_neg hbehind, List.dropWhile_cons_of_neg hbehind, List.append_nil]
    exact ⟨rfl, rfl⟩

namespace Segment

theorem first_of_blank {c : Char} {cs behind : List Char} (htext : ∀ d ∈ c :: cs, d ∈ blanks)
    (hend : ∀ d rest, behind = d :: rest → d ∉ blanks) :
    first c (cs ++ behind) = (blank (c :: cs), behind) := by
  have hall : ∀ d ∈ c :: cs, isBlank d = true := fun d hd => isBlank_iff.2 (htext d hd)
  have hbehind : ¬ Begins isBlank behind := by
    intro h
    obtain ⟨d, rest, rfl, hd⟩ := h
    exact hend d rest rfl (isBlank_iff.1 hd)
  obtain ⟨hc, hcs⟩ := List.forall_mem_cons.1 hall
  obtain ⟨htake, hdrop⟩ := takeWhile_append_of_not_begins hcs hbehind
  rw [first, if_pos hc, htake, hdrop]

theorem first_of_comment {inner behind : List Char} (hinner : '\n' ∉ inner)
    (hend : behind = [] ∨ behind.head? = some '\n') :
    first '/' ('/' :: (inner ++ behind)) = (comment ('/' :: '/' :: inner), behind) := by
  have hall : ∀ d ∈ '/' :: inner, decide (d ≠ '\n') = true := by
    refine List.forall_mem_cons.2 ⟨by decide, fun d hd => decide_eq_true ?_⟩
    rintro rfl
    exact hinner hd
  have hbehind : ¬ Begins (fun d => decide (d ≠ '\n')) behind := by
    intro h
    obtain ⟨d, rest, rfl, hd⟩ := h
    simp at hend
    simp [hend] at hd
  obtain ⟨htake, hdrop⟩ := takeWhile_append_of_not_begins hall hbehind
  rw [first, if_neg (by decide), if_pos ⟨rfl, rfl⟩, ← List.cons_append, htake, hdrop]

theorem first_of_stray {c : Char} (hblank : c ∉ blanks)
    (hnone : ∀ kind text, ¬ Kind.Lexeme kind (c :: text)) (cs : List Char) :
    first c cs = (stray c, cs) := by
  have hsymbol : Kind.ofSymbol? c = none := by
    cases h : Kind.ofSymbol? c with
    | none => rfl
    | some kind => exact absurd (.symbol (Kind.ofSymbol?_eq_some_iff.1 h)) (hnone kind [])
  have hslash : c ≠ '/' := by
    rintro rfl
    cases hsymbol
  have hquote : c ≠ '"' := by
    rintro rfl
    have hempty : '"' ∉ ([] : List Char) := List.not_mem_nil
    exact hnone .string ['"'] (.string hempty)
  have hdigit : c.isDigit ≠ true := by
    intro h
    exact hnone .number [] (.whole ⟨by simp, by simpa using h⟩)
  have hword : isWordStart c ≠ true := by
    intro h
    -- The word that is read from there would be a lexeme.
    have hvalid := valid_word h []
    unfold word at hvalid
    cases hvalid with
    | lexeme h => exact hnone _ _ h
  rw [first, if_neg fun h => hblank (isBlank_iff.1 h), if_neg fun h => hslash h.1, if_neg hquote,
    if_neg hdigit, if_neg hword, symbol, hsymbol]

theorem first_of_unclosed {inner : List Char} (hinner : '"' ∉ inner) :
    first '"' inner = (unclosed ('"' :: inner), []) := by
  have hall : ∀ d ∈ inner, decide (d ≠ '"') = true := by
    intro d hd
    refine decide_eq_true ?_
    rintro rfl
    exact hinner hd
  have hdrop : inner.dropWhile (· ≠ '"') = [] := by
    have h := (takeWhile_append_of_not_begins hall not_begins_nil).2
    rwa [List.append_nil] at h
  rw [first, if_neg (by decide), if_neg fun h => absurd h.1 (by decide), if_pos rfl, quoted, hdrop]

/-- A lexeme that ends is the first segment: no other sort can begin as it does, and of lexemes the
longest one is taken. -/
theorem first_of_lexeme {kind : Kind} {c : Char} {cs behind : List Char}
    (h : kind.Lexeme (c :: cs)) (hends : kind.Ends (c :: cs) behind) :
    first c (cs ++ behind) = (lexeme kind (c :: cs), behind) := by
  have hvalid := valid_first c (cs ++ behind)
  have htext := first_text_append c (cs ++ behind)
  obtain ⟨⟨s, rest⟩, hs⟩ : ∃ p, first c (cs ++ behind) = p := ⟨_, rfl⟩
  rw [hs] at hvalid htext ⊢
  dsimp only at hvalid htext
  cases hvalid with
  | @blank text _ hne htexts _ =>
    -- a lexeme does not begin with a blank
    cases text with
    | nil => exact absurd rfl hne
    | cons d text =>
      obtain ⟨rfl, -⟩ := List.cons.inj htext
      exact absurd (htexts d List.mem_cons_self) h.not_blank
  | comment =>
    -- a slash that another one follows has not ended
    obtain ⟨rfl, hrest⟩ := List.cons.inj htext
    obtain ⟨rfl, rfl⟩ := h.of_slash
    have hhead : behind.head? = some '/' := by
      rw [List.nil_append] at hrest
      rw [← hrest]
      rfl
    exact absurd hhead (hends.slash rfl)
  | @lexeme kind' text' _ h' hends' hlongest =>
    -- both are the longest, so they are the same front of the text
    have hle : text'.length ≤ (c :: cs).length := h.length_le hends h' htext
    have hge : (c :: cs).length ≤ text'.length := hlongest kind (c :: cs) behind h htext.symm
    have htext : text' ++ rest = c :: cs ++ behind := htext
    obtain ⟨rfl, rfl⟩ := List.append_inj htext (by omega)
    rw [h.unique h']
  | stray _ hnone =>
    obtain ⟨rfl, -⟩ := List.cons.inj htext
    exact absurd h (hnone kind cs)
  | @unclosed inner hinner =>
    -- the second quote of a string is a later one
    obtain ⟨rfl, hrest⟩ := List.cons.inj htext
    have hrest : inner = cs ++ behind := (List.append_nil inner).symm.trans hrest
    exact absurd (hrest ▸ List.mem_append_left behind h.quote_mem) hinner

/-- **A segment that is valid where it stands is the first one there.** -/
theorem first_of_valid {s : Segment} {c : Char} {cs behind : List Char} (h : s.Valid behind)
    (htext : s.text = c :: cs) : first c (cs ++ behind) = (s, behind) := by
  cases h with
  | blank _ htexts hend =>
    subst htext
    exact first_of_blank htexts hend
  | comment hinner hend =>
    obtain ⟨rfl, rfl⟩ := List.cons.inj htext
    exact first_of_comment hinner hend
  | lexeme hlexeme hends _ =>
    subst htext
    exact first_of_lexeme hlexeme hends
  | stray hblank hnone =>
    obtain ⟨rfl, rfl⟩ := List.cons.inj htext
    exact first_of_stray hblank hnone behind
  | unclosed hinner =>
    obtain ⟨rfl, rfl⟩ := List.cons.inj htext
    rw [List.append_nil]
    exact first_of_unclosed hinner

theorem Valid.text_ne_nil {s : Segment} {behind : List Char} (h : s.Valid behind) :
    s.text ≠ [] := by
  cases h with
  | blank hne => exact hne
  | lexeme h => exact h.ne_nil
  | _ => simp [text]

theorem segments_append {s : Segment} {behind : List Char} (h : s.Valid behind) :
    segments (s.text ++ behind) = s :: segments behind := by
  obtain ⟨c, cs, htext⟩ := List.exists_cons_of_ne_nil h.text_ne_nil
  have hfirst : first c (cs ++ behind) = (s, behind) := first_of_valid h htext
  rw [htext, List.cons_append, segments, hfirst]

end Segment

/-! ### Results -/

/-- The results of a text that starts on the given line. -/
def textResults (line : Nat) (cs : List Char) : List (Except ScanError Token) :=
  scanResults line (segments cs)

@[simp] theorem textResults_nil (line : Nat) : textResults line [] = [] := by
  rw [textResults, segments, scanResults_nil]

/-- **A valid segment in front is scanned as itself.** -/
theorem textResults_append {s : Segment} {behind : List Char} (h : s.Valid behind) (line : Nat) :
    textResults line (s.text ++ behind)
      = (s.result? line).toList ++ textResults (line + s.newlines) behind := by
  rw [textResults, Segment.segments_append h, scanResults_cons, textResults]

/-- A blank in front yields nothing, whether it belongs to a longer run or not. -/
theorem textResults_cons_blank {c : Char} (hc : c ∈ blanks) (line : Nat) (cs : List Char) :
    textResults line (c :: cs) = textResults (line + [c].count '\n') cs := by
  have hc : isBlank c = true := isBlank_iff.2 hc
  have hrun (line : Nat) (d : Char) (ds : List Char) (hd : isBlank d = true) :
      textResults line (d :: ds) = textResults (line + (d :: ds.takeWhile isBlank).count '\n')
        (ds.dropWhile isBlank) := by
    rw [textResults, segments, Segment.first, if_pos hd]
    rfl
  rw [hrun line c cs hc]
  cases cs with
  | nil => rfl
  | cons d ds =>
    -- The blank joins the run behind it, if there is one.
    by_cases hd : isBlank d = true
    · rw [hrun _ d ds hd, List.takeWhile_cons_of_pos hd, List.dropWhile_cons_of_pos hd,
        ← List.singleton_append (l := d :: _), List.count_append, Nat.add_assoc]
    · rw [List.takeWhile_cons_of_neg hd, List.dropWhile_cons_of_neg hd]

theorem textResults_append_blanks {text : List Char} (htext : ∀ c ∈ text, c ∈ blanks) (line : Nat)
    (cs : List Char) :
    textResults line (text ++ cs) = textResults (line + text.count '\n') cs := by
  induction text generalizing line with
  | nil => rfl
  | cons c text ih =>
    obtain ⟨hc, htext⟩ := List.forall_mem_cons.1 htext
    rw [List.cons_append, textResults_cons_blank hc, ih htext,
      ← List.singleton_append (l := text), List.count_append, Nat.add_assoc]

/-- A lexeme in front, where it ends, is scanned to its token. -/
theorem textResults_append_lexeme {t : Token} {behind : List Char}
    (h : t.kind.Lexeme t.lexeme.toList) (hends : t.kind.Ends t.lexeme.toList behind) (line : Nat) :
    textResults line (t.lexeme.toList ++ behind)
      = .ok { t with line } :: textResults (line + t.lexeme.toList.count '\n') behind := by
  have hstep := textResults_append (Segment.valid_lexeme h hends) line
  rwa [Segment.result?, String.ofList_toList] at hstep

/-- Every result is that of a segment that is valid where it stands. -/
theorem exists_valid_of_mem_textResults {r : Except ScanError Token} {line : Nat} {cs : List Char}
    (h : r ∈ textResults line cs) :
    ∃ (s : Segment) (behind : List Char) (start : Nat),
      s.Valid behind ∧ s.result? start = some r := by
  obtain ⟨segs, hcuts⟩ : ∃ segs, Segment.Cuts segs cs := ⟨_, Segment.cuts_segments cs⟩
  induction hcuts generalizing line with
  | nil =>
    rw [textResults_nil] at h
    cases h
  | @cons s rest behind hs _ ih =>
    rw [textResults_append hs] at h
    rcases List.mem_append.1 h with hfirst | hrest
    · exact ⟨s, behind, line, hs, Option.mem_toList.1 hfirst⟩
    · exact ih hrest

/-- The tokens of a text are lexemes of their kinds. -/
theorem lexeme_of_ok_mem_textResults {t : Token} {line : Nat} {cs : List Char}
    (h : .ok t ∈ textResults line cs) : t.kind.Lexeme t.lexeme.toList := by
  obtain ⟨s, behind, start, hs, hresult⟩ := exists_valid_of_mem_textResults h
  cases hs with
  | lexeme hlexeme =>
    cases hresult
    rwa [String.toList_ofList]
  | _ => cases hresult

/-- The character of an error is no blank. -/
theorem not_blank_of_error_mem_textResults {n line : Nat} {c : Char} {cs : List Char}
    (h : .error (.unexpectedCharacter n c) ∈ textResults line cs) : c ∉ blanks := by
  obtain ⟨s, behind, start, hs, hresult⟩ := exists_valid_of_mem_textResults h
  cases hs with
  | stray hblank =>
    cases hresult
    exact hblank
  | _ => cases hresult

namespace Scan

variable {results : List (Except ScanError Token)}

theorem ok_mem_of_mem_tokens {t : Token} (h : t ∈ (ofResults results).tokens) :
    .ok t ∈ results := by
  obtain ⟨r, hr, ht⟩ := List.mem_filterMap.1 h
  cases r with
  | ok u =>
    cases ht
    exact hr
  | error e => cases ht

theorem mem_errors_iff {e : ScanError} : e ∈ (ofResults results).errors ↔ .error e ∈ results := by
  constructor
  · intro h
    obtain ⟨r, hr, he⟩ := List.mem_filterMap.1 h
    cases r with
    | ok t => cases he
    | error e' =>
      cases he
      exact hr
  · intro h
    exact List.mem_filterMap.2 ⟨.error e, h, rfl⟩

theorem error_notMem_of_errors_eq_nil (h : (ofResults results).errors = []) (e : ScanError) :
    .error e ∉ results := by
  rw [← mem_errors_iff, h]
  exact List.not_mem_nil

/-- Without errors, the results are the tokens. -/
theorem eq_map_ok_of_errors_eq_nil (h : (ofResults results).errors = []) :
    results = (ofResults results).tokens.map .ok := by
  induction results with
  | nil => rfl
  | cons r results ih =>
    cases r with
    | ok t => exact congrArg (.ok t :: ·) (ih h)
    | error e => cases h

theorem ofResults_map_ok (ts : List Token) : ofResults (ts.map .ok) = ⟨ts, []⟩ := by
  rw [ofResults, List.filterMap_map, List.filterMap_map]
  congr 1
  · exact List.filterMap_some
  · exact List.filterMap_eq_nil_iff.2 fun _ _ => rfl

end Scan

/-! ### A line feed behind a text -/

section

variable {kind : Kind} {text behind : List Char} {c : Char} {cs : List Char}

/-- A sort that a character is not of begins no later for what stands behind that character. -/
theorem not_begins_append {p : Char → Bool} (hbehind : ¬ Begins p behind) (hc : p c = false) :
    ¬ Begins p (behind ++ c :: cs) := by
  cases behind with
  | nil => simp [hc]
  | cons d ds => simpa using hbehind

/-- A blank belongs to no lexeme, and a blank is not part of what could make one longer. -/
theorem Kind.Ends.append_blank (h : kind.Ends text behind) (hc : c ∈ blanks) :
    kind.Ends text (behind ++ c :: cs) := by
  have hall : blanks.all (fun c => (c.isAlphanum || c = '_') = false ∧ c.isDigit = false ∧
      c ≠ '.' ∧ c ≠ '=' ∧ c ≠ '/') = true := by decide
  obtain ⟨hword, hdigit, hdot, hequal, hslash⟩ :=
    of_decide_eq_true (List.all_eq_true.1 hall c hc)
  constructor
  · intro hkind
    exact not_begins_append (h.word hkind) hword
  · intro hkind
    exact not_begins_append (h.digit hkind) hdigit
  · intro hkind htext rest heq
    cases behind with
    | nil => exact absurd (List.cons.inj heq).1 hdot
    | cons d ds =>
      obtain ⟨rfl, rfl⟩ := List.cons.inj heq
      exact not_begins_append (h.fraction hkind htext ds rfl) hdigit
  · intro hkind
    cases behind with
    | nil => simpa using hequal
    | cons d ds => exact h.equal hkind
  · intro hkind
    cases behind with
    | nil => simpa using hslash
    | cons d ds => exact h.slash hkind

theorem Kind.Ends.of_nil : kind.Ends text [] :=
  ⟨fun _ => not_begins_nil, fun _ => not_begins_nil, fun _ _ _ h => (by cases h), fun _ => by simp,
    fun _ => by simp⟩

end

/-- A segment that is neither a run of blanks nor a string that is never closed is valid also if a
line feed comes to follow what stands behind it. -/
theorem Segment.Valid.append_newline {s : Segment} {behind : List Char} (h : s.Valid behind)
    (hblank : ∀ text, s ≠ .blank text) (hclosed : ∀ text, s ≠ .unclosed text) (cs : List Char) :
    s.Valid (behind ++ '\n' :: cs) := by
  cases h with
  | blank => exact absurd rfl (hblank _)
  | comment hinner hend =>
    refine .comment hinner (.inr ?_)
    rcases hend with rfl | hend
    · rfl
    · rw [List.head?_append, hend, Option.some_or]
  | lexeme hlexeme hends _ => exact valid_lexeme hlexeme (hends.append_blank (by decide))
  | stray hnotblank hnone => exact .stray hnotblank hnone
  | unclosed => exact absurd rfl (hclosed _)

/-- **A text may be followed by a line feed and another text**, unless it ends in a string that is
never closed: the results of the two come one after the other. -/
theorem textResults_append_newline {front : List Char} {line : Nat}
    (hclosed : ∀ n, .error (.unterminatedString n) ∉ textResults line front) (cs : List Char) :
    textResults line (front ++ '\n' :: cs)
      = textResults line front ++ textResults (line + front.count '\n') ('\n' :: cs) := by
  obtain ⟨segs, hcuts⟩ : ∃ segs, Segment.Cuts segs front := ⟨_, Segment.cuts_segments front⟩
  -- the induction is on the segments that the front is cut into
  induction hcuts generalizing line with
  | nil => rw [textResults_nil]; rfl
  | @cons s rest behind hs _ ih =>
    rw [textResults_append hs] at hclosed ⊢
    have hbehind : ∀ n, .error (.unterminatedString n) ∉ textResults (line + s.newlines) behind :=
      fun n hn => hclosed n (List.mem_append_right _ hn)
    have hnotunclosed : ∀ text, s ≠ .unclosed text := by
      rintro text rfl
      exact hclosed _ (List.mem_append_left _ List.mem_cons_self)
    have hsplit : textResults line (s.text ++ (behind ++ '\n' :: cs))
        = (s.result? line).toList ++ textResults (line + s.newlines) (behind ++ '\n' :: cs) := by
      by_cases hblank : ∃ text, s = .blank text
      · -- a run of blanks may become longer, and yields nothing all the same
        obtain ⟨text, rfl⟩ := hblank
        cases hs with
        | blank _ htext _ => exact textResults_append_blanks htext line _
      · rw [not_exists] at hblank
        exact textResults_append (hs.append_newline hblank hnotunclosed cs) line
    rw [List.append_assoc, hsplit, ih hbehind, List.count_append, List.append_assoc,
      ← Nat.add_assoc]
    rfl

end Scriptlet
