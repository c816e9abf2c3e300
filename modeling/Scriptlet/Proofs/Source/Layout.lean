import Scriptlet.Proofs.Source.Piecewise
import Scriptlet.Window

/-!
# Layout

The lexemes of a text can be laid out anew: between any two of them there may stand blanks and
comments, as long as a blank comes first and every comment ends with its line.  The new text is
scanned to the same tokens, on other lines perhaps.

A blank has to come first because a lexeme in front of it is then seen to end, whatever it is: no
word, number or symbol goes on with a blank, and a slash does not become a comment.

## Main definitions

* `Spacer`, `Separator` — what may stand between two lexemes.
* `Window.layOut` — the lexemes of a window with separators between them.
* `Token.spelling` — a token apart from its line.

## Main results

* `textResults_append_separator` — separators yield nothing.
* `textResults_layOut` — lexemes are scanned to themselves in every layout.
* `Scan.ofText_layOut` — **the tokens of a text are the same in every layout.**
-/

namespace Scriptlet

/-- A blank, or a comment together with the line feed that ends it. -/
inductive Spacer
  | blank (c : Char) (isBlank : c ∈ blanks)
  | comment (inner : List Char) (oneLine : '\n' ∉ inner)

/-- The text of a spacer. -/
def Spacer.text : Spacer → List Char
  | blank c _ => [c]
  | comment inner _ => '/' :: '/' :: (inner ++ ['\n'])

/-- What may stand between two lexemes: a blank, and then blanks and comments. -/
structure Separator where
  /-- The blank in front. -/
  first : Char
  /-- It is a blank. -/
  first_mem : first ∈ blanks
  /-- What stands behind it. -/
  rest : List Spacer

/-- The text of a separator. -/
def Separator.text (s : Separator) : List Char := s.first :: s.rest.flatMap Spacer.text

/-- The lexemes of a window, with a separator behind each of them but the last. -/
def Window.layOut (between : Nat → Separator) : Window → List Char
  | [] => []
  | [t] => t.lexeme.toList
  | t :: u :: ts =>
    t.lexeme.toList ++ ((between 0).text ++ layOut (fun n => between (n + 1)) (u :: ts))

/-- A token apart from its line. -/
def Token.spelling (t : Token) : Kind × String := (t.kind, t.lexeme)

/-! ### Scanning separators -/

theorem textResults_append_spacer (s : Spacer) (line : Nat) (cs : List Char) :
    textResults line (s.text ++ cs) = textResults (line + s.text.count '\n') cs := by
  cases s with
  | blank c hc => exact textResults_cons_blank hc line cs
  | comment inner hinner =>
    -- the line feed ends the comment and is a blank itself
    have hcomment : (Segment.comment ('/' :: '/' :: inner)).Valid ('\n' :: cs) :=
      .comment hinner (.inr rfl)
    have hstep := textResults_append hcomment line
    rw [textResults_cons_blank (by decide)] at hstep
    have htext : (Spacer.comment inner hinner).text ++ cs
        = (Segment.comment ('/' :: '/' :: inner)).text ++ '\n' :: cs := by
      simp [Spacer.text, Segment.text]
    have hcount : (Spacer.comment inner hinner).text.count '\n'
        = (Segment.comment ('/' :: '/' :: inner)).newlines + ['\n'].count '\n' := by
      rw [Segment.newlines, ← List.count_append]
      rfl
    rw [htext, hstep, hcount, Nat.add_assoc]
    rfl

/-- A separator yields nothing. -/
theorem textResults_append_separator (s : Separator) (line : Nat) (cs : List Char) :
    textResults line (s.text ++ cs) = textResults (line + s.text.count '\n') cs := by
  obtain ⟨first, hfirst, rest⟩ := s
  have hrest (line : Nat) : textResults line (rest.flatMap Spacer.text ++ cs)
      = textResults (line + (rest.flatMap Spacer.text).count '\n') cs := by
    induction rest generalizing line with
    | nil => rfl
    | cons spacer rest ih =>
      rw [List.flatMap_cons, List.append_assoc, textResults_append_spacer, ih, List.count_append,
        Nat.add_assoc]
  rw [Separator.text, List.cons_append, textResults_cons_blank hfirst, hrest, Nat.add_assoc,
    ← List.count_append]
  rfl

theorem Separator.ends (s : Separator) {kind : Kind} {text : List Char} (behind : List Char) :
    kind.Ends text (s.text ++ behind) :=
  Kind.Ends.of_nil.append_blank s.first_mem

/-! ### Scanning lexemes in a layout -/

/-- **Lexemes are scanned to themselves in every layout.** -/
theorem textResults_layOut {ts : Window} (hts : ∀ t ∈ ts, t.kind.Lexeme t.lexeme.toList)
    (between : Nat → Separator) (line : Nat) :
    ∃ us : Window, textResults line (ts.layOut between) = us.map .ok ∧
      us.map Token.spelling = ts.map Token.spelling := by
  induction ts generalizing between line with
  | nil => exact ⟨[], textResults_nil line, rfl⟩
  | cons t ts ih =>
    obtain ⟨ht, hts⟩ := List.forall_mem_cons.1 hts
    -- Behind the last lexeme there is no separator.
    cases ts with
    | nil =>
      refine ⟨[{ t with line }], ?_, rfl⟩
      have hstep := textResults_append_lexeme ht .of_nil line
      rwa [List.append_nil, textResults_nil] at hstep
    | cons u ts =>
      obtain ⟨us, hus, hspelling⟩ := ih hts (fun n => between (n + 1))
        (line + t.lexeme.toList.count '\n' + (between 0).text.count '\n')
      refine ⟨{ t with line } :: us, ?_, congrArg (t.spelling :: ·) hspelling⟩
      rw [Window.layOut, textResults_append_lexeme ht ((between 0).ends _),
        textResults_append_separator, hus]
      rfl

/-- **The tokens of a text are the same in every layout**: its lexemes, with any separators between
them, are scanned without errors to tokens of the same kinds with the same lexemes. -/
theorem Scan.ofText_layOut (text : String) (between : Nat → Separator) :
    let tokens : Window := (Scan.ofText text).tokens
    let again := Scan.ofText (String.ofList (tokens.layOut between))
    again.errors = [] ∧ again.tokens.map Token.spelling = tokens.map Token.spelling := by
  intro tokens again
  have hlexemes : ∀ t ∈ tokens, t.kind.Lexeme t.lexeme.toList := fun t ht =>
    lexeme_of_ok_mem_textResults (ok_mem_of_mem_tokens ht)
  obtain ⟨us, hus, hspelling⟩ := textResults_layOut hlexemes between 1
  have hagain : again = ⟨us, []⟩ := by
    have hresults : again = ofResults (textResults 1 (tokens.layOut between)) := by
      simp only [again, Scan.ofText, String.toList_ofList, textResults]
    rw [hresults, hus, ofResults_map_ok]
  rw [hagain]
  exact ⟨rfl, hspelling⟩

end Scriptlet
