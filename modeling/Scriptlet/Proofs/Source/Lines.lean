import Scriptlet.Proofs.Source.Lossless

/-!
# The lines of tokens and errors

The scanner counts lines as it goes from one segment to the next.  The count is exact: a token and a
stray character have the line on which they start, which is one more than there are line feeds in
front of them.  That is so also behind strings over several lines, and for such a string itself.
Only a string that is never closed has another line, the last one of the source text.

So the lines never decrease from one result to the next.

## Main definitions

* `Segment.placed` — segments, each with the text in front of it.
* `Segment.resultIn?` — the result of a segment with the line that it should have.
* `resultLine` — the line of a result.

## Main results

* `scanResults_eq_filterMap_placed` — the lines that are counted are the ones that results should
  have.
* `pairwise_line_scanResults` — lines never decrease.
* `Scanner.yields_placed` — **the lines of the results of a text are exact.**
-/

namespace Scriptlet

namespace Segment

/-- Segments, each with the source text in front of it, given the text in front of the first. -/
def placed (front : List Char) : List Segment → List (List Char × Segment)
  | [] => []
  | s :: rest => (front, s) :: placed (front ++ s.text) rest

/-- The result of a segment with the line that it should have in a source text, given the text in
front of the segment. -/
def resultIn? (source front : List Char) : Segment → Option (Except ScanError Token)
  | blank _ => none
  | comment _ => none
  | lexeme kind text => some (.ok ⟨kind, String.ofList text, 1 + front.count '\n'⟩)
  | stray c => some (.error (.unexpectedCharacter (1 + front.count '\n') c))
  | unclosed _ => some (.error (.unterminatedString (1 + source.count '\n')))

/-- A segment that starts on the right line has the right line. -/
theorem Valid.result?_eq {s : Segment} {behind : List Char} (h : s.Valid behind)
    (front : List Char) :
    s.result? (1 + front.count '\n') = s.resultIn? (front ++ (s.text ++ behind)) front := by
  cases h with
  | @unclosed inner _ =>
    -- nothing stands behind an open string, so the source text ends with it
    rw [result?, resultIn?, List.append_nil, List.count_append, Nat.add_assoc]
    rfl
  | _ => rfl

end Segment

/-- **The lines that are counted are the ones that results should have.** -/
theorem scanResults_eq_filterMap_placed {source front behind : List Char} {segs : List Segment}
    (hcuts : Segment.Cuts segs behind) (hsource : front ++ behind = source) :
    scanResults (1 + front.count '\n') segs
      = (Segment.placed front segs).filterMap fun p => p.2.resultIn? source p.1 := by
  -- the induction moves one segment from what is behind to what is in front
  induction hcuts generalizing front with
  | nil => rfl
  | @cons s rest behind hs _ ih =>
    have hfirst := hs.result?_eq front
    rw [hsource] at hfirst
    have hrest := ih ((List.append_assoc front s.text behind).trans hsource)
    rw [List.count_append, ← Nat.add_assoc] at hrest
    rw [scanResults_cons, Segment.placed, List.filterMap_cons, hfirst, Segment.newlines, hrest]
    cases s.resultIn? source front <;> rfl

/-! ### Lines never decrease -/

/-- The line of a result. -/
def resultLine : Except ScanError Token → Nat
  | .ok t => t.line
  | .error e => e.line

/-- The line of a result lies within the lines of its segment. -/
theorem resultLine_of_mem_result? {s : Segment} {line : Nat} {r : Except ScanError Token}
    (h : r ∈ s.result? line) : line ≤ resultLine r ∧ resultLine r ≤ line + s.newlines := by
  cases s with
  | blank => cases h
  | comment => cases h
  | lexeme =>
    cases h
    exact ⟨Nat.le_refl _, Nat.le_add_right _ _⟩
  | stray =>
    cases h
    exact ⟨Nat.le_refl _, Nat.le_add_right _ _⟩
  | unclosed =>
    cases h
    exact ⟨Nat.le_add_right _ _, Nat.le_refl _⟩

theorem le_resultLine_of_mem_scanResults {segs : List Segment} {line : Nat}
    {r : Except ScanError Token} (h : r ∈ scanResults line segs) : line ≤ resultLine r := by
  induction segs generalizing line with
  | nil => cases h
  | cons s rest ih =>
    rcases List.mem_append.1 h with hfirst | hrest
    · exact (resultLine_of_mem_result? (Option.mem_toList.1 hfirst)).1
    · exact Nat.le_of_add_right_le (ih hrest)

/-- **Lines never decrease** from one result to a later one. -/
theorem pairwise_line_scanResults (line : Nat) (segs : List Segment) :
    (scanResults line segs).Pairwise fun r r' => resultLine r ≤ resultLine r' := by
  induction segs generalizing line with
  | nil => exact .nil
  | cons s rest ih =>
    have hfirst : (s.result? line).toList.Pairwise fun r r' => resultLine r ≤ resultLine r' := by
      cases s.result? line with
      | none => exact .nil
      | some r => exact List.pairwise_singleton _ r
    refine List.pairwise_append.2 ⟨hfirst, ih (line + s.newlines), ?_⟩
    -- The next segment starts on the line where this one ends.
    intro r hr r' hr'
    calc resultLine r
      _ ≤ line + s.newlines := (resultLine_of_mem_result? (Option.mem_toList.1 hr)).2
      _ ≤ resultLine r' := le_resultLine_of_mem_scanResults hr'

/-- The lexical errors stand in the order of the text. -/
theorem pairwise_errors_scanResults (line : Nat) (segs : List Segment) :
    (Scan.ofResults (scanResults line segs)).errors.Pairwise fun e e' => e.line ≤ e'.line := by
  refine List.pairwise_filterMap.2 ((pairwise_line_scanResults line segs).imp ?_)
  intro r r' hle e he e' he'
  cases r with
  | ok t => cases he
  | error f =>
    cases r' with
    | ok t => cases he'
    | error f' =>
      cases he
      cases he'
      exact hle

/-- **The lines of the results of a text are exact.**  A text is cut into segments.  What the
scanner yields are the results of the segments in their order: a token or a stray character with one
more than the number of line feeds in front of it as its line, and a string that is never closed
with one more than that number in the whole text.  So the lines never decrease. -/
theorem Scanner.yields_placed (text : String) :
    ∃ (segs : List Segment) (results : List (Except ScanError Token)),
      Segment.Cuts segs text.toList ∧ (Scanner.ofText text).Yields results ∧
        Scan.ofText text = Scan.ofResults results ∧
        results
          = (Segment.placed [] segs).filterMap (fun p => p.2.resultIn? text.toList p.1) ∧
        results.Pairwise fun r r' => resultLine r ≤ resultLine r' := by
  have hcuts := Segment.cuts_segments text.toList
  refine ⟨segments text.toList, (Scanner.ofText text).results, hcuts, yields_results _, rfl, ?_, ?_⟩
  · exact scanResults_eq_filterMap_placed hcuts (List.nil_append _)
  · exact pairwise_line_scanResults 1 _

/-- A string over two lines is on the first of them, and an open one on the last line of the text.
-/
example : Scan.ofText "\"a\nb\" // c\n\"d\n\n"
    = ⟨[⟨.string, "\"a\nb\"", 1⟩], [.unterminatedString 5]⟩ := by
  decide +kernel

end Scriptlet
