import Scriptlet.Source.Segment
import Scriptlet.Token.Encoding

/-!
# Scanning a source text

Scanning turns the segments of a source text into tokens and errors.  Blanks and comments yield
nothing; a lexeme yields a token and a stray character an error, both with the line on which they
start; a string that is never closed yields an error with the line on which the text ends.  An
error does not stop the scan.

## Main definitions

* `ScanError` — what a source text can have wrong with it.
* `scanResults` — tokens and errors of segments, in the order of the text.
* `Scan`, `Scan.ofText` — the tokens and the errors of a text, apart.
* `Scan.listing` — the tokens of a scan, a line each.
* `Scanner` — a scan in progress, which yields one result at a time.

## Main results

* `Scanner.results_eq_next` — taking the results one at a time gives all of them.
-/

namespace Scriptlet

/-- What a source text can have wrong with it. -/
inductive ScanError
  /-- A character that begins no token. -/
  | unexpectedCharacter (line : Nat) (c : Char)
  /-- A quote without a later one. -/
  | unterminatedString (line : Nat)
  deriving DecidableEq, Repr

namespace ScanError

/-- The line of an error. -/
def line : ScanError → Nat
  | unexpectedCharacter line _ => line
  | unterminatedString line => line

/-- The wording of an error. -/
def message : ScanError → String
  | unexpectedCharacter line c =>
    "[line " ++ toString line ++ "] Error: Unexpected character: " ++ String.singleton c
  | unterminatedString line => "[line " ++ toString line ++ "] Error: Unterminated string."

end ScanError

namespace Segment

/-- The number of lines that end within a segment. -/
def newlines (s : Segment) : Nat := s.text.count '\n'

/-- What a segment that starts on the given line yields. -/
def result? (line : Nat) : Segment → Option (Except ScanError Token)
  | blank _ => none
  | comment _ => none
  | lexeme kind text => some (.ok ⟨kind, String.ofList text, line⟩)
  | stray c => some (.error (.unexpectedCharacter line c))
  | unclosed text => some (.error (.unterminatedString (line + text.count '\n')))

end Segment

/-- The results of segments of which the first starts on the given line. -/
def scanResults (line : Nat) : List Segment → List (Except ScanError Token)
  | [] => []
  | s :: rest => (s.result? line).toList ++ scanResults (line + s.newlines) rest

@[simp] theorem scanResults_nil (line : Nat) : scanResults line [] = [] := rfl

@[simp] theorem scanResults_cons (line : Nat) (s : Segment) (rest : List Segment) :
    scanResults line (s :: rest)
      = (s.result? line).toList ++ scanResults (line + s.newlines) rest := rfl

/-- The tokens and the errors of a source text, each in the order of the text. -/
structure Scan where
  /-- The tokens. -/
  tokens : List Token
  /-- The errors between them. -/
  errors : List ScanError
  deriving DecidableEq, Repr

namespace Scan

/-- Sorts results into tokens and errors. -/
def ofResults (results : List (Except ScanError Token)) : Scan where
  tokens := results.filterMap fun r => match r with
    | .ok t => some t
    | .error _ => none
  errors := results.filterMap fun r => match r with
    | .ok _ => none
    | .error e => some e

/-- The scan of a source text. -/
def ofText (text : String) : Scan := ofResults (scanResults 1 (segments text.toList))

/-- Some part of the text is no token. -/
def hasErrors (s : Scan) : Bool := !s.errors.isEmpty

/-- The tokens, one a line with its literal value, and a last line for the end of the text. -/
def listing (s : Scan) : String :=
  String.join (s.tokens.map fun t => t.entry ++ "\n") ++ "EOF  null"

end Scan

/-- A scan in progress: the segments that are still to be read, and the line on which they
start. -/
structure Scanner where
  /-- The segments to be read. -/
  pending : List Segment
  /-- The line on which the first of them starts. -/
  line : Nat
  deriving DecidableEq, Repr

namespace Scanner

/-- The scanner at the start of a text. -/
def ofText (text : String) : Scanner := ⟨segments text.toList, 1⟩

/-- The next result of segments that start on the given line, and the scanner behind it. -/
def nextFrom (line : Nat) : List Segment → Option (Except ScanError Token) × Scanner
  | [] => (none, ⟨[], line⟩)
  | s :: rest =>
    match s.result? line with
    | some r => (some r, ⟨rest, line + s.newlines⟩)
    | none => nextFrom (line + s.newlines) rest

/-- The next result of a scanner, `none` at the end of the text, and the scanner behind it. -/
def next (s : Scanner) : Option (Except ScanError Token) × Scanner := nextFrom s.line s.pending

/-- All results that a scanner will yield. -/
def results (s : Scanner) : List (Except ScanError Token) := scanResults s.line s.pending

/-- A scanner yields its results in order, one at a time, and nothing behind the last. -/
theorem results_eq_next (s : Scanner) : s.results = s.next.1.elim [] (· :: s.next.2.results) := by
  obtain ⟨pending, line⟩ := s
  simp only [results, next]
  induction pending generalizing line with
  | nil => rfl
  | cons s rest ih =>
    rw [scanResults_cons, nextFrom]
    cases h : s.result? line with
    | none => simpa [h] using ih (line + s.newlines)
    | some r => simp

end Scanner

end Scriptlet
