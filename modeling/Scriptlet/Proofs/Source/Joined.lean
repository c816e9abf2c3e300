import Scriptlet.Proofs.Source.Piecewise

/-!
# Texts joined by a line feed

What a text is scanned to does not depend on where it starts, but for the lines: further down, all
lines are as much further down.  So two texts that are joined by a line feed are scanned one after
the other, the second one below the lines of the first, as long as the first does not end within a
string.

Whatever else the first text ends in, the line feed ends it: a word, a number or a symbol does not
go on with a blank, and a comment ends with its line.

## Main definitions

* `Token.down`, `ScanError.down` — tokens and errors further down.

## Main results

* `textResults_add` — the results of a text that starts further down.
* `Scan.ofText_joined` — **two texts joined by a line feed are scanned one after the other.**
-/

namespace Scriptlet

/-! ### Further down -/

/-- A token so many lines further down. -/
def Token.down (lines : Nat) (t : Token) : Token := { t with line := t.line + lines }

/-- An error so many lines further down. -/
def ScanError.down (lines : Nat) : ScanError → ScanError
  | unexpectedCharacter line c => unexpectedCharacter (line + lines) c
  | unterminatedString line => unterminatedString (line + lines)

/-- A result so many lines further down. -/
def resultDown (lines : Nat) : Except ScanError Token → Except ScanError Token
  | .ok t => .ok (t.down lines)
  | .error e => .error (e.down lines)

theorem Segment.result?_add (s : Segment) (line lines : Nat) :
    s.result? (line + lines) = (s.result? line).map (resultDown lines) := by
  cases s with
  | blank text => rfl
  | comment text => rfl
  | lexeme kind text => rfl
  | stray c => rfl
  | unclosed text =>
    rw [result?, Nat.add_right_comm]
    rfl

theorem scanResults_add (segs : List Segment) (line lines : Nat) :
    scanResults (line + lines) segs = (scanResults line segs).map (resultDown lines) := by
  induction segs generalizing line with
  | nil => rfl
  | cons s rest ih =>
    have hhead : (s.result? (line + lines)).toList
        = (s.result? line).toList.map (resultDown lines) := by
      rw [s.result?_add]
      cases s.result? line <;> rfl
    rw [scanResults_cons, scanResults_cons, List.map_append, hhead, Nat.add_right_comm, ih]

/-- **The results of a text that starts further down** are the same, as much further down. -/
theorem textResults_add (line lines : Nat) (cs : List Char) :
    textResults (line + lines) cs = (textResults line cs).map (resultDown lines) :=
  scanResults_add (segments cs) line lines

/-! ### One text after the other -/

/-- The results of two texts that are joined by a line feed. -/
theorem textResults_joined {front : List Char}
    (hclosed : ∀ n, .error (.unterminatedString n) ∉ textResults 1 front) (behind : List Char) :
    textResults 1 (front ++ '\n' :: behind)
      = textResults 1 front
          ++ (textResults 1 behind).map (resultDown (1 + front.count '\n')) := by
  -- the line feed that joins them is a blank in front of the second text
  have hbelow : textResults (1 + front.count '\n') ('\n' :: behind)
      = textResults (1 + (1 + front.count '\n')) behind := by
    rw [textResults_cons_blank (by decide), Nat.add_comm 1 (1 + front.count '\n')]
    rfl
  rw [textResults_append_newline hclosed, hbelow, textResults_add]

namespace Scan

theorem ofResults_append (rs rs' : List (Except ScanError Token)) :
    ofResults (rs ++ rs')
      = ⟨(ofResults rs).tokens ++ (ofResults rs').tokens,
          (ofResults rs).errors ++ (ofResults rs').errors⟩ := by
  simp only [ofResults, List.filterMap_append]

theorem ofResults_map_resultDown (lines : Nat) (rs : List (Except ScanError Token)) :
    ofResults (rs.map (resultDown lines))
      = ⟨(ofResults rs).tokens.map (Token.down lines),
          (ofResults rs).errors.map (ScanError.down lines)⟩ := by
  induction rs with
  | nil => rfl
  | cons r rs ih =>
    have htokens := congrArg Scan.tokens ih
    have herrors := congrArg Scan.errors ih
    cases r with
    | ok t => exact congr (congrArg Scan.mk (congrArg (t.down lines :: ·) htokens)) herrors
    | error e => exact congr (congrArg Scan.mk htokens) (congrArg (e.down lines :: ·) herrors)

/-- **Two texts joined by a line feed are scanned one after the other**: the tokens of the first and
then those of the second, and likewise the errors.  What comes from the second text is further down
by the lines of the first, of which there are one more than line feeds in it.  Only the first text
must not end within a string. -/
theorem ofText_joined {front behind : String}
    (hclosed : ∀ n, .unterminatedString n ∉ (ofText front).errors) :
    let lines := 1 + front.toList.count '\n'
    ofText (front ++ "\n" ++ behind)
      = ⟨(ofText front).tokens ++ (ofText behind).tokens.map (Token.down lines),
          (ofText front).errors ++ (ofText behind).errors.map (ScanError.down lines)⟩ := by
  intro lines
  have htext : (front ++ "\n" ++ behind).toList = front.toList ++ '\n' :: behind.toList := by
    simp
  have hfront : ∀ n, .error (.unterminatedString n) ∉ textResults 1 front.toList := by
    intro n hn
    exact hclosed n (mem_errors_iff.2 hn)
  have hresults := textResults_joined hfront behind.toList
  rw [← htext] at hresults
  show ofResults (textResults 1 (front ++ "\n" ++ behind).toList) = _
  rw [hresults, ofResults_append, ofResults_map_resultDown]
  rfl

/-- A string over two lines, and then an equals sign that would join the one behind the line feed.
-/
theorem ofText_joined_equals :
    let front := "a != \"b\nc\" @ ="
    let behind := "=\n1.\"d"
    (∀ n, .unterminatedString n ∉ (ofText front).errors) ∧
      ofText (front ++ "\n" ++ behind)
        = ⟨[⟨.identifier, "a", 1⟩, ⟨.bangEqual, "!=", 1⟩, ⟨.string, "\"b\nc\"", 1⟩,
              ⟨.equal, "=", 2⟩, ⟨.equal, "=", 3⟩, ⟨.number, "1", 4⟩, ⟨.dot, ".", 4⟩],
            [.unexpectedCharacter 2 '@', .unterminatedString 4]⟩ := by
  intro front behind
  have hclosed : ∀ n, .unterminatedString n ∉ (ofText front).errors := by
    have herrors : (ofText front).errors = [.unexpectedCharacter 2 '@'] := by decide +kernel
    intro n
    simp [herrors]
  refine ⟨hclosed, ?_⟩
  rw [ofText_joined hclosed]
  decide +kernel

end Scan

end Scriptlet
