import Scriptlet.Command
import Scriptlet.Proofs.Machine.Run
import Scriptlet.Proofs.Number.Notation
import Scriptlet.Proofs.Source.Piecewise

/-!
# Reporting a value and printing it

The command has two ways from the text of an expression to the text of its value.  It can read the
whole file as the expression and report the value; or it can run a program that prints the
expression.  Both come to the same value.  The scan of the program is the scan of the text between
the word `print` and a semicolon: the space behind the word ends it, and the line feed in front of
the semicolon ends whatever the text ends in, also a comment.

## Main definitions

* `printProgram` — the program that prints a text as an expression.

## Main results

* `Scan.ofText_printProgram` — the tokens of that program.
* `Machine.interpret_print` — a program that is one print.
* `respond_parse_run` — **what is reported of a text and what is printed by the program.**
-/

namespace Scriptlet

/-- The program that prints a text as an expression. -/
def printProgram (text : String) : String := "print " ++ text ++ "\n;"

/-! ### The scan of the program -/

theorem textResults_print (cs : List Char) :
    textResults 1 ("print".toList ++ ' ' :: cs)
      = .ok ⟨.printWord, "print", 1⟩ :: textResults 1 cs := by
  have hlexeme : Kind.printWord.Lexeme "print".toList := .reserved rfl
  have hends : Kind.printWord.Ends "print".toList (' ' :: cs) :=
    .of_word (.inr (by decide)) (by simp; decide)
  have hscan := textResults_append_lexeme (t := ⟨.printWord, "print", 1⟩) hlexeme hends 1
  rw [hscan, textResults_cons_blank (by decide)]
  rfl

theorem textResults_newline_semicolon (line : Nat) :
    textResults line ['\n', ';'] = [.ok ⟨.semicolon, ";", line + 1⟩] := by
  have hlexeme : Kind.semicolon.Lexeme ";".toList := .symbol (by decide)
  have hends : Kind.semicolon.Ends ";".toList [] := .of_nil
  have hscan := textResults_append_lexeme (t := ⟨.semicolon, ";", 1⟩) hlexeme hends (line + 1)
  rw [List.append_nil, textResults_nil] at hscan
  rw [textResults_cons_blank (by decide)]
  exact hscan

/-- **The tokens of the program**: `print`, the tokens of the text, and a semicolon. -/
theorem Scan.ofText_printProgram {text : String} (h : (Scan.ofText text).errors = []) :
    Scan.ofText (printProgram text)
      = ⟨⟨.printWord, "print", 1⟩ :: ((Scan.ofText text).tokens
          ++ [⟨.semicolon, ";", 1 + text.toList.count '\n' + 1⟩]), []⟩ := by
  have hlist : (printProgram text).toList
      = "print".toList ++ ' ' :: (text.toList ++ '\n' :: [';']) := by
    simp [printProgram]
  have htext : textResults 1 text.toList = (Scan.ofText text).tokens.map .ok :=
    eq_map_ok_of_errors_eq_nil h
  have hclosed : ∀ n, .error (.unterminatedString n) ∉ textResults 1 text.toList :=
    fun n => error_notMem_of_errors_eq_nil h _
  -- the word, the text with its line feed, and the semicolon are scanned one by one
  have hresults : textResults 1 (printProgram text).toList
      = (⟨.printWord, "print", 1⟩ :: ((Scan.ofText text).tokens
          ++ [⟨.semicolon, ";", 1 + text.toList.count '\n' + 1⟩])).map .ok := by
    rw [hlist, textResults_print, textResults_append_newline hclosed, htext,
      textResults_newline_semicolon]
    simp
  exact (congrArg ofResults hresults).trans (ofResults_map_ok _)

/-! ### Running the program -/

/-- **A program that is one print** writes the value of the expression on a line. -/
theorem Machine.interpret_print {p semicolon : Token} {body : Window} (hp : p.kind = .printWord)
    (hbody : Statement.IsExpression body) (hsemi : semicolon.kind = .semicolon) (limit : Nat) :
    (Machine.fresh .unlimited).interpret limit (p :: (body ++ [semicolon]))
      = .done ⟨.empty, ⟨((body.valueAlone limit).display ++ "\n").toUTF8, none, true⟩⟩ := by
  have hform : Statement.Form (limit + 1) (.print body) false (p :: (body ++ [semicolon])) :=
    .print hp hbody hsemi
  rw [interpret_eq_run rfl, run_form hform, Statement.exec]
  -- the sink takes all bytes, and there are none in it yet
  have hwritten (bytes : ByteArray) : ByteArray.empty ++ bytes = bytes := ByteArray.empty_append
  simp [print, fresh, Sink.unlimited, Sink.write, hwritten, Outcome.done, Window.valueAlone]

/-! ### The two answers -/

theorem toUTF8_line_inj {a b : String} : (a ++ "\n").toUTF8 = (b ++ "\n").toUTF8 ↔ a = b :=
  String.toByteArray_inj.trans (String.append_left_inj "\n")

section

variable {text : String} (herrors : (Scan.ofText text).errors = [])

include herrors

/-- A text without lexical errors is reported by its value. -/
theorem respond_parse (path : String) (setting : Option String) :
    respond ["parse", path] (.ok text) setting
      = ⟨.success, ((Window.valueAlone (Limit.ofSetting setting) (Scan.ofText text).tokens).report
          ++ "\n").toUTF8, ""⟩ := by
  simp [respond, Response.result, Response.errorLines, Scan.hasErrors, herrors]

variable (hne : (Scan.ofText text).tokens ≠ [])
  (hsemi : ∀ t ∈ (Scan.ofText text).tokens, t.kind ≠ .semicolon)

include hne hsemi

/-- The program that prints the text prints its value. -/
theorem interpret_printProgram (limit : Nat) :
    (Machine.fresh .unlimited).interpret limit (Scan.ofText (printProgram text)).tokens
      = .done ⟨.empty, ⟨((Window.valueAlone limit (Scan.ofText text).tokens).display
          ++ "\n").toUTF8, none, true⟩⟩ := by
  rw [Scan.ofText_printProgram herrors]
  exact Machine.interpret_print rfl ⟨hne, hsemi⟩ rfl limit

theorem respond_run_printProgram (path : String) (setting : Option String) :
    respond ["run", path] (.ok (printProgram text)) setting
      = ⟨.success, ((Window.valueAlone (Limit.ofSetting setting) (Scan.ofText text).tokens).display
          ++ "\n").toUTF8, ""⟩ := by
  have hscan : (Scan.ofText (printProgram text)).errors = [] := by
    rw [Scan.ofText_printProgram herrors]
  have hrun := interpret_printProgram herrors hne hsemi (Limit.ofSetting setting)
  simp [respond, Response.ofProgram, Scan.hasErrors, hscan, hrun, Outcome.done]

end

/-- **What is reported of a text and what is printed by the program.**  Let a text without lexical
errors have at least one token, and no semicolon.  Under every limit the program that prints the
text is scanned without errors, ends well, and prints the value of the text and a line feed.  So the
command answers the same on both files, whatever their paths and the setting are, unless the value
is a finite number other than zero whose magnitude is not in the range of plain notation.  Such a
number is reported in plain and printed in scientific notation: the same decimal, behind the same
sign. -/
theorem respond_parse_run {text : String} (herrors : (Scan.ofText text).errors = [])
    (hne : (Scan.ofText text).tokens ≠ [])
    (hsemi : ∀ t ∈ (Scan.ofText text).tokens, t.kind ≠ .semicolon) :
    (Scan.ofText (printProgram text)).errors = [] ∧
      (∀ limit : Nat,
        (Machine.fresh .unlimited).interpret limit (Scan.ofText (printProgram text)).tokens
          = .done ⟨.empty, ⟨((Window.valueAlone limit (Scan.ofText text).tokens).display
              ++ "\n").toUTF8, none, true⟩⟩) ∧
      ∀ (path path' : String) (setting : Option String),
        let value := Window.valueAlone (Limit.ofSetting setting) (Scan.ofText text).tokens
        let parsed := respond ["parse", path] (.ok text) setting
        let printed := respond ["run", path'] (.ok (printProgram text)) setting
        parsed.exit = .success ∧ printed.exit = .success ∧
          (parsed.output = printed.output ↔ ¬ ∃ x, value = .number x ∧ x.OutOfRange) ∧
          ∀ x, value = .number x → x.OutOfRange → ∃ (negative : Bool) (d : Decimal),
            x = .signed negative (d.code .single) (d.code_le_infinity .single) ∧
              parsed.output = (Number.sign negative ++ String.ofList d.plain ++ "\n").toUTF8 ∧
              printed.output
                = (Number.sign negative ++ String.ofList d.scientific ++ "\n").toUTF8 := by
  refine ⟨?_, interpret_printProgram herrors hne hsemi, ?_⟩
  · rw [Scan.ofText_printProgram herrors]
  · intro path path' setting value parsed printed
    have hparsed : parsed = ⟨.success, (value.report ++ "\n").toUTF8, ""⟩ :=
      respond_parse herrors path setting
    have hprinted : printed = ⟨.success, (value.display ++ "\n").toUTF8, ""⟩ :=
      respond_run_printProgram herrors hne hsemi path' setting
    rw [hparsed, hprinted]
    -- both answers are a line, so they are the same if the two texts are
    refine ⟨rfl, rfl, toUTF8_line_inj.trans Value.report_eq_display_iff, ?_⟩
    intro x hvalue hx
    obtain ⟨negative, d, hd, hplain, hdisplay⟩ := Number.exists_notations hx
    rw [hvalue, Value.report, Value.display, hplain, hdisplay]
    exact ⟨negative, d, hd, rfl, rfl⟩

/-- A small quotient with a comment behind it, which would hide the semicolon on its line. -/
theorem respond_parse_run_small :
    let text := "-1 / 64000 // small"
    let value := Window.valueAlone (Limit.ofSetting none) (Scan.ofText text).tokens
    let parsed := respond ["parse", "a.lox"] (.ok text) none
    let printed := respond ["run", "b.lox"] (.ok (printProgram text)) none
    (Scan.ofText text).errors = [] ∧ (Scan.ofText text).tokens ≠ [] ∧
      (∀ t ∈ (Scan.ofText text).tokens, t.kind ≠ .semicolon) ∧
      (∃ x, value = .number x ∧ x.OutOfRange ∧ ∃ (negative : Bool) (d : Decimal),
        x = .signed negative (d.code .single) (d.code_le_infinity .single) ∧
          parsed.output = (Number.sign negative ++ String.ofList d.plain ++ "\n").toUTF8 ∧
          printed.output
            = (Number.sign negative ++ String.ofList d.scientific ++ "\n").toUTF8) ∧
      parsed.output = "-0.000015625\n".toUTF8 ∧ printed.output = "-1.5625e-05\n".toUTF8 := by
  intro text value parsed printed
  have herrors : (Scan.ofText text).errors = [] := by decide +kernel
  have hne : (Scan.ofText text).tokens ≠ [] := by decide +kernel
  have hsemi : ∀ t ∈ (Scan.ofText text).tokens, t.kind ≠ .semicolon := by decide +kernel
  have hparsed : parsed.output = "-0.000015625\n".toUTF8 := by decide +kernel
  have hprinted : printed.output = "-1.5625e-05\n".toUTF8 := by decide +kernel
  obtain ⟨-, -, hanswers⟩ := respond_parse_run herrors hne hsemi
  obtain ⟨-, -, hsame, hnotations⟩ := hanswers "a.lox" "b.lox" none
  have hdiffer : parsed.output ≠ printed.output := by
    rw [hparsed, hprinted]
    decide +kernel
  -- the outputs differ, so the value is a number outside of the range
  obtain ⟨x, hvalue, hx⟩ := Classical.not_not.1 (mt hsame.2 hdiffer)
  exact ⟨herrors, hne, hsemi, ⟨x, hvalue, hx, hnotations x hvalue hx⟩, hparsed, hprinted⟩

end Scriptlet
