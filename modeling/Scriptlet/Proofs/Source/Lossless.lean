import Mathlib.Data.List.TakeWhile
import Scriptlet.Proofs.Source.Lexeme
import Scriptlet.Source.Scan

/-!
# Scanning loses nothing

The segments of a text are the text, and each of them is what its sort says it is: a run of blanks
or a comment to its end, a lexeme that could not be longer, a character that begins no lexeme, or a
string that is never closed.  The scanner yields the results of the last three sorts in their order
and nothing else.

## Main definitions

* `Segment.Valid` — a segment is of its sort, and whole, in front of what follows it.
* `Segment.Cuts` — segments cut a text, each valid where it stands.
* `Segment.Produces` — the results that segments stand for.
* `Scanner.Yields` — the results that a scanner yields one after another.

## Main results

* `Segment.cuts_segments` — the segments of a text cut it.
* `Scanner.exists_cuts_yields` — **scanning is lossless and takes the longest lexemes.**
-/

namespace Scriptlet

/-- Space, tab, line feed, form feed and carriage return. -/
def blanks : List Char := [' ', '\t', '\n', '\x0c', '\r']

theorem isBlank_iff {c : Char} : isBlank c = true ↔ c ∈ blanks := by
  simp [isBlank, blanks, or_assoc]

namespace Segment

/-! ### Valid segments -/

/-- A segment is what its sort says, with the text behind it. -/
inductive Valid : Segment → List Char → Prop
  /-- A run of blanks that goes on as long as it can. -/
  | blank {text behind : List Char} (hne : text ≠ []) (htext : ∀ c ∈ text, c ∈ blanks)
      (hend : ∀ c rest, behind = c :: rest → c ∉ blanks) : Valid (.blank text) behind
  /-- Two slashes and all that follows them on their line. -/
  | comment {inner behind : List Char} (hinner : '\n' ∉ inner)
      (hend : behind = [] ∨ behind.head? = some '\n') :
      Valid (.comment ('/' :: '/' :: inner)) behind
  /-- A lexeme, behind which it is seen to end, and no longer one could stand in its place. -/
  | lexeme {kind : Kind} {text behind : List Char} (h : kind.Lexeme text)
      (hends : kind.Ends text behind)
      (hlongest : ∀ (kind' : Kind) (text' behind' : List Char), kind'.Lexeme text' →
        text' ++ behind' = text ++ behind → text'.length ≤ text.length) :
      Valid (.lexeme kind text) behind
  /-- A character that is no blank and begins no lexeme. -/
  | stray {c : Char} {behind : List Char} (hblank : c ∉ blanks)
      (hnone : ∀ kind text, ¬ Kind.Lexeme kind (c :: text)) : Valid (.stray c) behind
  /-- A quote without a later one, to the end of the text. -/
  | unclosed {inner : List Char} (hinner : '"' ∉ inner) : Valid (.unclosed ('"' :: inner)) []

theorem valid_lexeme {kind : Kind} {text behind : List Char} (h : kind.Lexeme text)
    (hends : kind.Ends text behind) : Valid (.lexeme kind text) behind := by
  apply Valid.lexeme h hends
  intro kind' text' behind' h' heq
  exact h.length_le hends h' heq

theorem valid_blank {c : Char} (h : isBlank c = true) (cs : List Char) :
    Valid (.blank (c :: cs.takeWhile isBlank)) (cs.dropWhile isBlank) := by
  refine .blank (by simp) ?_ ?_
  · intro d hd
    rw [← isBlank_iff]
    rcases List.mem_cons.1 hd with rfl | hd
    · exact h
    · exact List.mem_takeWhile_imp hd
  · intro d rest hbehind hd
    exact not_begins_dropWhile isBlank cs ⟨d, rest, hbehind, isBlank_iff.2 hd⟩

theorem valid_comment (cs : List Char) :
    Valid (.comment ('/' :: ('/' :: cs).takeWhile (· ≠ '\n')))
      (('/' :: cs).dropWhile (· ≠ '\n')) := by
  have hcons : ('/' :: cs).takeWhile (· ≠ '\n') = '/' :: cs.takeWhile (· ≠ '\n') := by
    rw [List.takeWhile_cons_of_pos (by decide)]
  rw [hcons]
  refine .comment ?_ ?_
  · intro hmem
    have h := List.mem_takeWhile_imp hmem
    simp at h
  · have h := not_begins_dropWhile (· ≠ '\n') ('/' :: cs)
    cases hbehind : ('/' :: cs).dropWhile (· ≠ '\n') with
    | nil => exact .inl rfl
    | cons d rest =>
      rw [hbehind, begins_cons_iff] at h
      right
      simpa using h

theorem valid_quoted (cs : List Char) : (quoted cs).1.Valid (quoted cs).2 := by
  have hinner : '"' ∉ cs.takeWhile (· ≠ '"') := by
    intro hmem
    have h := List.mem_takeWhile_imp hmem
    simp at h
  unfold quoted
  split
  · rename_i q rest hbehind
    have hq := not_begins_dropWhile (· ≠ '"') cs
    rw [hbehind, begins_cons_iff] at hq
    obtain rfl : q = '"' := by simpa using hq
    exact valid_lexeme (.string hinner) .of_string
  · rename_i hbehind
    have hall := List.takeWhile_append_dropWhile (p := fun c => decide (c ≠ '"')) (l := cs)
    rw [hbehind, List.append_nil] at hall
    rw [← hall]
    exact .unclosed hinner

theorem valid_numeral {c : Char} (h : c.isDigit = true) (cs : List Char) :
    (numeral c cs).1.Valid (numeral c cs).2 := by
  have hwhole : Kind.IsDigits (c :: cs.takeWhile Char.isDigit) := by
    refine ⟨by simp, ?_⟩
    intro d hd
    rcases List.mem_cons.1 hd with rfl | hd
    · exact h
    · exact List.mem_takeWhile_imp hd
  have hend := not_begins_dropWhile Char.isDigit cs
  unfold numeral
  dsimp only
  split
  · rename_i rest hbehind
    rw [hbehind] at hend
    split
    · rename_i hnone
      refine valid_lexeme (.whole hwhole) (.of_number hend ?_)
      intro _ rest' heq hbegins
      obtain ⟨d, ds, rfl, hd⟩ := hbegins
      obtain rfl : rest = d :: ds := (List.cons.inj heq).2
      rw [List.takeWhile_cons_of_pos hd] at hnone
      cases hnone
    · rename_i hsome
      have hdigits : Kind.IsDigits (rest.takeWhile Char.isDigit) :=
        ⟨hsome, fun d hd => List.mem_takeWhile_imp hd⟩
      refine valid_lexeme (.fraction hwhole hdigits) (.of_number (not_begins_dropWhile _ _) ?_)
      intro hdot
      simp at hdot
  · rename_i rest hpoint
    refine valid_lexeme (.whole hwhole) (.of_number hend ?_)
    intro _ rest' heq
    exact absurd heq (hpoint rest')

theorem valid_word {c : Char} (h : isWordStart c = true) (cs : List Char) :
    (word c cs).1.Valid (word c cs).2 := by
  have hword : Kind.IsWord (c :: cs.takeWhile isWordPart) :=
    ⟨c, _, rfl, isWordStart_iff.1 h, fun d hd => isWordPart_iff.1 (List.mem_takeWhile_imp hd)⟩
  have hend := not_begins_dropWhile isWordPart cs
  unfold word
  dsimp only
  cases hkind : Kind.ofWord? (String.ofList (c :: cs.takeWhile isWordPart)) with
  | none =>
    have hnone := Kind.ofWord?_eq_none_iff.1 hkind
    exact valid_lexeme (.identifier hword hnone) (.of_word (.inl rfl) hend)
  | some kind =>
    have hspelled := Kind.word?_of_ofWord? hkind
    exact valid_lexeme (.reserved hspelled) (.of_word (.inr (by simp [hspelled])) hend)

/-- The first character decides what a symbol or a stray character is. -/
theorem valid_symbol {c : Char} {cs : List Char} (hblank : c ∉ blanks)
    (hcomment : ¬ (c = '/' ∧ cs.head? = some '/')) (hstring : c ≠ '"') (hdigit : c.isDigit ≠ true)
    (hword : isWordStart c ≠ true) : (symbol c cs).1.Valid (symbol c cs).2 := by
  unfold symbol
  split
  · rename_i hnone
    apply Valid.stray hblank
    -- a lexeme would begin with one of the characters that are excluded here
    intro kind text hlexeme
    obtain ⟨c', cs', o, heq, ho, -⟩ := hlexeme.opening
    obtain ⟨rfl, -⟩ := List.cons.inj heq
    rw [Kind.Opening.of?, if_neg hword, if_neg hdigit, if_neg hstring, hnone] at ho
    cases ho
  · rename_i kind hkind
    have hspelled := Kind.ofSymbol?_eq_some_iff.1 hkind
    -- only where an equals sign follows can there be a symbol of two characters
    split
    · rename_i joined rest hjoined
      have hboth := Kind.symbol?_withEqual? hspelled hjoined
      obtain ⟨hnone, hslash⟩ := Kind.withEqual?_withEqual? hjoined
      exact valid_lexeme (.symbol hboth) (.of_symbol hboth (absurd hnone) fun h => absurd h hslash)
    · rename_i hsingle
      refine valid_lexeme (.symbol hspelled) (.of_symbol hspelled ?_ ?_)
      · intro hsome hbehind
        obtain ⟨joined, hjoined⟩ := Option.ne_none_iff_exists'.1 hsome
        obtain ⟨rest, rfl⟩ := List.head?_eq_some_iff.1 hbehind
        exact hsingle joined rest hjoined rfl
      · intro hslash hbehind
        subst hslash
        cases hspelled
        exact hcomment ⟨rfl, hbehind⟩

/-- The first segment of a text is what its sort says. -/
theorem valid_first (c : Char) (cs : List Char) : (first c cs).1.Valid (first c cs).2 := by
  -- the scanner tries the sorts in this order
  unfold first
  by_cases hblank : isBlank c = true
  · rw [if_pos hblank]
    exact valid_blank hblank cs
  rw [if_neg hblank]
  by_cases hcomment : c = '/' ∧ cs.head? = some '/'
  · rw [if_pos hcomment]
    obtain ⟨rfl, hhead⟩ := hcomment
    obtain ⟨rest, rfl⟩ := List.head?_eq_some_iff.1 hhead
    exact valid_comment rest
  rw [if_neg hcomment]
  by_cases hstring : c = '"'
  · rw [if_pos hstring]
    exact valid_quoted cs
  rw [if_neg hstring]
  by_cases hdigit : c.isDigit = true
  · rw [if_pos hdigit]
    exact valid_numeral hdigit cs
  rw [if_neg hdigit]
  by_cases hword : isWordStart c = true
  · rw [if_pos hword]
    exact valid_word hword cs
  rw [if_neg hword]
  exact valid_symbol (fun h => hblank (isBlank_iff.2 h)) hcomment hstring hdigit hword

/-! ### Cutting a text -/

/-- Segments cut a text: their texts are the text, and each is valid in front of what follows. -/
inductive Cuts : List Segment → List Char → Prop
  | nil : Cuts [] []
  | cons {s : Segment} {rest : List Segment} {behind : List Char} (hs : s.Valid behind)
      (hrest : Cuts rest behind) : Cuts (s :: rest) (s.text ++ behind)

theorem Cuts.flatMap_text {segs : List Segment} {cs : List Char} (h : Cuts segs cs) :
    segs.flatMap text = cs := by
  induction h with
  | nil => rfl
  | cons _ _ ih => rw [List.flatMap_cons, ih]

/-- **The segments of a text cut it.** -/
theorem cuts_segments (cs : List Char) : Cuts (segments cs) cs := by
  fun_induction segments cs with
  | case1 => exact .nil
  | case2 c cs ih =>
    have h := Cuts.cons (valid_first c cs) ih
    rwa [first_text_append] at h

/-! ### Results -/

/-- The results that segments stand for, in their order.  The lines are left open. -/
inductive Produces : List Segment → List (Except ScanError Token) → Prop
  | nil : Produces [] []
  | blank {text : List Char} {rest : List Segment} {results : List (Except ScanError Token)}
      (h : Produces rest results) : Produces (.blank text :: rest) results
  | comment {text : List Char} {rest : List Segment} {results : List (Except ScanError Token)}
      (h : Produces rest results) : Produces (.comment text :: rest) results
  | lexeme {kind : Kind} {text : List Char} {line : Nat} {rest : List Segment}
      {results : List (Except ScanError Token)} (h : Produces rest results) :
      Produces (.lexeme kind text :: rest) (.ok ⟨kind, String.ofList text, line⟩ :: results)
  | stray {c : Char} {line : Nat} {rest : List Segment} {results : List (Except ScanError Token)}
      (h : Produces rest results) :
      Produces (.stray c :: rest) (.error (.unexpectedCharacter line c) :: results)
  | unclosed {text : List Char} {line : Nat} {rest : List Segment}
      {results : List (Except ScanError Token)} (h : Produces rest results) :
      Produces (.unclosed text :: rest) (.error (.unterminatedString line) :: results)

theorem produces_scanResults (segs : List Segment) (line : Nat) :
    Produces segs (scanResults line segs) := by
  induction segs generalizing line with
  | nil => exact .nil
  | cons s rest ih =>
    cases s with
    | blank => exact .blank (ih _)
    | comment => exact .comment (ih _)
    | lexeme => exact .lexeme (ih _)
    | stray => exact .stray (ih _)
    | unclosed => exact .unclosed (ih _)

end Segment

namespace Scanner

/-- The results that a scanner yields one after another, until there is none. -/
inductive Yields : Scanner → List (Except ScanError Token) → Prop
  | done {s : Scanner} (h : s.next.1 = none) : Yields s []
  | more {s : Scanner} {r : Except ScanError Token} {results : List (Except ScanError Token)}
      (h : s.next.1 = some r) (hrest : s.next.2.Yields results) : Yields s (r :: results)

/-- A scanner yields all its results. -/
theorem yields_results (s : Scanner) : s.Yields s.results := by
  -- the induction is on the results that are still to come, not on the segments
  induction hr : s.results generalizing s with
  | nil =>
    rw [results_eq_next] at hr
    cases hnext : s.next.1 with
    | none => exact .done hnext
    | some r =>
      rw [hnext] at hr
      cases hr
  | cons r results ih =>
    rw [results_eq_next] at hr
    cases hnext : s.next.1 with
    | none =>
      rw [hnext] at hr
      cases hr
    | some r' =>
      rw [hnext] at hr
      obtain ⟨rfl, hrest⟩ := List.cons.inj hr
      exact .more hnext (ih _ hrest)

/-- **Scanning is lossless and takes the longest lexemes**: a text is cut into segments that are
what their sorts say, and the scanner yields the lexemes, the stray characters and the string that
is never closed among them, in their order and nothing else. -/
theorem exists_cuts_yields (text : String) :
    ∃ (segs : List Segment) (results : List (Except ScanError Token)),
      segs.flatMap Segment.text = text.toList ∧ Segment.Cuts segs text.toList ∧
        Segment.Produces segs results ∧ (Scanner.ofText text).Yields results ∧
        Scan.ofText text = Scan.ofResults results :=
  ⟨segments text.toList, (Scanner.ofText text).results,
    (Segment.cuts_segments text.toList).flatMap_text, Segment.cuts_segments text.toList,
    Segment.produces_scanResults _ 1, yields_results (Scanner.ofText text), rfl⟩

end Scanner

end Scriptlet
