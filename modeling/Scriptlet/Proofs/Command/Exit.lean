import Scriptlet.Command
import Scriptlet.Proofs.Machine.Output
import Scriptlet.Proofs.Source.Lines
import Scriptlet.Proofs.Source.Piecewise

/-!
# Exit codes and streams

A command line is a request if it names a command and a path, the command is one that there is, and
the file holds a text.  Anything else is refused, with a line of error and exit code 1.  Of a
request, the lexical errors of the text come first: with any of them, the exit code is 65 and they
are listed, a line each.  Only then does it matter whether the program fails, if it is to be run;
then the exit code is 70.

What a request writes to standard output depends on the command: the whole listing, the value of the
text, or what the program prints until it ends or fails.  The first two are written whether there
are lexical errors or not; with lexical errors, no program is run.

## Main definitions

* `Request` — a command line that names a command and a file with a text.
* `Response.Reports` — the ending and the errors of a response tell how a request went.
* `IsLines` — a text is made up of the given lines.

## Main results

* `answer_of_not_request` — anything else than a request is refused.
* `exists_request_iff` — what makes a request.
* `Request.reports` — **how a request ends.**
* `newline_notMem_message` — a lexical error is one line.
* `answer_exit_and_streams` — **the exit code and the two streams of the command.**
-/

namespace Scriptlet

/-! ### Requests -/

/-- The commands that there are. -/
def commands : List String := ["tokenize", "parse", "run"]

/-- A command line that names a command and a path behind the name that the command goes by, with a
file that holds a text. -/
structure Request (argv : List String) (file : Except ReadFailure ByteArray)
    (command text : String) : Prop where
  /-- A command and a path are named. -/
  argv_eq : ∃ name path rest, argv = name :: command :: path :: rest
  /-- There is such a command. -/
  command_mem : command ∈ commands
  /-- The file can be read, and holds the encoding of the text. -/
  file_eq : file = .ok text.toUTF8

@[simp] theorem textOfBytes_toUTF8 (text : String) : textOfBytes text.toUTF8 = .ok text := by
  have htext : String.fromUTF8? text.toUTF8 = some text := dif_pos text.isValidUTF8
  rw [textOfBytes, htext]

theorem eq_toUTF8_of_textOfBytes {bytes : ByteArray} {text : String}
    (h : textOfBytes bytes = .ok text) : bytes = text.toUTF8 := by
  unfold textOfBytes String.fromUTF8? at h
  by_cases hvalid : bytes.IsValidUTF8
  · rw [dif_pos hvalid] at h
    cases h
    rfl
  · rw [dif_neg hvalid] at h
    cases h

/-! ### What is done -/

section

variable {argv : List String} {file : Except ReadFailure ByteArray} {setting : Option String}
  {command text : String}

/-- A request is answered as to its arguments, given the text of the file. -/
theorem Request.answer_eq_respond (h : Request argv file command text) :
    ∃ path rest,
      answer argv file setting = respond (command :: path :: rest) (.ok text) setting := by
  obtain ⟨⟨name, path, rest, rfl⟩, -, rfl⟩ := h
  have hfile : Except.bind (.ok text.toUTF8) textOfBytes = .ok text := textOfBytes_toUTF8 text
  exact ⟨path, rest, congrArg (respond (command :: path :: rest) · setting) hfile⟩

theorem Request.answer_tokenize (h : Request argv file "tokenize" text) :
    answer argv file setting = .result (Scan.ofText text).listing (Scan.ofText text) := by
  obtain ⟨path, rest, hanswer⟩ := h.answer_eq_respond
  rw [hanswer, respond]

theorem Request.answer_parse (h : Request argv file "parse" text) :
    answer argv file setting
      = .result (Window.valueAlone (Limit.ofSetting setting) (Scan.ofText text).tokens).report
          (Scan.ofText text) := by
  obtain ⟨path, rest, hanswer⟩ := h.answer_eq_respond
  rw [hanswer, respond]

theorem Request.answer_run (h : Request argv file "run" text) :
    answer argv file setting = .ofProgram (Limit.ofSetting setting) (Scan.ofText text) := by
  obtain ⟨path, rest, hanswer⟩ := h.answer_eq_respond
  rw [hanswer, respond]

theorem Request.command_cases (h : Request argv file command text) :
    command = "tokenize" ∨ command = "parse" ∨ command = "run" := by
  simpa [commands] using h.command_mem

/-- **Anything else than a request is refused.** -/
theorem answer_of_not_request (h : ¬ ∃ command text, Request argv file command text) :
    ∃ words, answer argv file setting = .refusal words := by
  -- with too few words the file is not looked at
  match argv with
  | [] => exact ⟨_, rfl⟩
  | [_] => exact ⟨_, rfl⟩
  | [_, _] => exact ⟨_, rfl⟩
  | name :: command :: path :: rest =>
    show ∃ words, respond (command :: path :: rest) (file.bind textOfBytes) setting = .refusal words
    cases hfile : file.bind textOfBytes with
    | error failure => exact ⟨_, rfl⟩
    | ok text =>
      -- the file holds a text, so the command is what is wrong
      have hcommand : command ∉ commands := by
        intro hcommand
        obtain ⟨bytes, rfl, hbytes⟩ : ∃ bytes, file = .ok bytes ∧ textOfBytes bytes = .ok text :=
          bind_eq_ok_iff.1 hfile
        have hfile : Except.ok (ε := ReadFailure) bytes = .ok text.toUTF8 :=
          congrArg _ (eq_toUTF8_of_textOfBytes hbytes)
        exact h ⟨command, text, ⟨name, path, rest, rfl⟩, hcommand, hfile⟩
      unfold respond
      dsimp only
      split
      · exact absurd (by decide) hcommand
      · exact absurd (by decide) hcommand
      · exact absurd (by decide) hcommand
      · exact ⟨_, rfl⟩

/-- **What makes a request.** -/
theorem exists_request_iff :
    (∃ command text, Request argv file command text) ↔
      ¬ (argv.length < 3 ∨ (¬ ∃ text : String, file = .ok text.toUTF8) ∨
        ∃ command, argv[1]? = some command ∧ command ∉ commands) := by
  constructor
  · rintro ⟨command, text, ⟨name, path, rest, rfl⟩, hcommand, hfile⟩ (hlength | hno | hother)
    · simp only [List.length_cons] at hlength
      omega
    · exact hno ⟨text, hfile⟩
    · obtain ⟨command', hline, hother⟩ := hother
      cases hline
      exact hother hcommand
  · -- what is not refused has enough words, a text and a command
    intro h
    obtain ⟨hlength, h⟩ := not_or.1 h
    obtain ⟨hfile, hcommand⟩ := not_or.1 h
    obtain ⟨text, hfile⟩ := Classical.not_not.1 hfile
    match argv with
    | [] => simp at hlength
    | [_] => simp at hlength
    | [_, _] => simp at hlength
    | name :: command :: path :: rest =>
      by_cases hmem : command ∈ commands
      · exact ⟨command, text, ⟨name, path, rest, rfl⟩, hmem, hfile⟩
      · exact absurd ⟨command, rfl, hmem⟩ hcommand

end

/-! ### How it ends -/

theorem unlines_eq_empty_iff {lines : List String} : unlines lines = "" ↔ lines = [] := by
  constructor
  · intro h
    cases lines with
    | nil => rfl
    | cons line lines =>
      rw [← List.singleton_append, unlines_append, unlines_singleton] at h
      simp at h
  · rintro rfl
    rfl

theorem Scan.hasErrors_iff {s : Scan} : s.hasErrors = true ↔ s.errors ≠ [] := by
  simp [hasErrors]

theorem Response.errorLines_eq (s : Scan) : errorLines s = unlines (s.errors.map (·.message)) := by
  rw [errorLines, unlines, List.map_map]
  rfl

namespace Response

/-- How a response ends and what it writes to standard error, given the scan of the text and the
fault of the program, if one is run and fails. -/
inductive Reports (scan : Scan) (fault : Option Fault) (r : Response) : Prop
  /-- The lexical errors come first. -/
  | lexical (herrors : scan.errors ≠ []) (hexit : r.exit = .lexical)
      (hlines : r.errors = unlines (scan.errors.map (·.message)))
  /-- Then the fault of the program. -/
  | fault {f : Fault} (herrors : scan.errors = []) (hfault : fault = some f)
      (hexit : r.exit = .fault) (hline : r.errors = "Error: " ++ f.message ++ "\n")
  /-- Nothing is wrong. -/
  | success (herrors : scan.errors = []) (hfault : fault = none) (hexit : r.exit = .success)
      (hempty : r.errors = "")

namespace Reports

variable {scan : Scan} {fault : Option Fault} {r : Response}

theorem code_eq_65_iff (h : Reports scan fault r) : r.exit.code = 65 ↔ scan.errors ≠ [] := by
  cases h with
  | lexical herrors hexit => simp [hexit, herrors, Exit.code]
  | fault herrors _ hexit => simp [hexit, herrors, Exit.code]
  | success herrors _ hexit => simp [hexit, herrors, Exit.code]

theorem code_eq_70_iff (h : Reports scan fault r) :
    r.exit.code = 70 ↔ scan.errors = [] ∧ fault ≠ none := by
  cases h with
  | lexical herrors hexit => simp [hexit, herrors, Exit.code]
  | fault herrors hfault hexit => simp [hexit, herrors, hfault, Exit.code]
  | success herrors hfault hexit => simp [hexit, hfault, Exit.code]

theorem code_eq_zero_iff (h : Reports scan fault r) :
    r.exit.code = 0 ↔ scan.errors = [] ∧ fault = none := by
  cases h with
  | lexical herrors hexit => simp [hexit, herrors, Exit.code]
  | fault herrors hfault hexit => simp [hexit, hfault, Exit.code]
  | success herrors hfault hexit => simp [hexit, herrors, hfault, Exit.code]

theorem code_ne_one (h : Reports scan fault r) : r.exit.code ≠ 1 := by
  cases h with
  | lexical _ hexit => simp [hexit, Exit.code]
  | fault _ _ hexit => simp [hexit, Exit.code]
  | success _ _ hexit => simp [hexit, Exit.code]

/-- With the exit code of lexical errors, these are listed. -/
theorem errors_eq_unlines (h : Reports scan fault r) (hcode : r.exit.code = 65) :
    r.errors = unlines (scan.errors.map (·.message)) := by
  have herrors : scan.errors ≠ [] := h.code_eq_65_iff.1 hcode
  cases h with
  | lexical _ _ hlines => exact hlines
  | fault hno => exact absurd hno herrors
  | success hno => exact absurd hno herrors

/-- There is something on standard error just if something went wrong. -/
theorem errors_eq_empty_iff (h : Reports scan fault r) : r.errors = "" ↔ r.exit.code = 0 := by
  cases h with
  | lexical herrors hexit hlines => simp [hexit, hlines, unlines_eq_empty_iff, herrors, Exit.code]
  | fault _ _ hexit hline => simp [hexit, hline, Exit.code]
  | success _ _ hexit hempty => simp [hexit, hempty, Exit.code]

end Reports

/-- A result is not one of a program, so nothing but lexical errors goes wrong. -/
theorem reports_result (words : String) (scan : Scan) : Reports scan none (result words scan) := by
  by_cases herrors : scan.errors = []
  · refine .success herrors rfl ?_ ?_
    · exact if_neg fun h => Scan.hasErrors_iff.1 h herrors
    · rw [result, errorLines_eq, herrors, List.map_nil, unlines_nil]
  · refine .lexical herrors ?_ (errorLines_eq scan)
    exact if_pos (Scan.hasErrors_iff.2 herrors)

section

variable {scan : Scan} (limit : Nat)

theorem ofProgram_of_errors_ne_nil (h : scan.errors ≠ []) :
    ofProgram limit scan = ⟨.lexical, .empty, errorLines scan⟩ :=
  if_pos (Scan.hasErrors_iff.2 h)

/-- Without lexical errors, a program is run, and what is said of it is how it ended. -/
theorem ofProgram_of_errors_eq_nil (h : scan.errors = []) :
    let o := (Machine.fresh .unlimited).interpret limit scan.tokens
    ofProgram limit scan
      = o.fault.elim ⟨.success, o.machine.sink.written, ""⟩ fun f =>
          ⟨.fault, o.machine.sink.written, "Error: " ++ f.message ++ "\n"⟩ := by
  have hno : ¬ scan.hasErrors = true := fun hsome => Scan.hasErrors_iff.1 hsome h
  rw [ofProgram, if_neg hno]
  generalize (Machine.fresh .unlimited).interpret limit scan.tokens = o
  obtain ⟨m, _ | f⟩ := o
  · rfl
  · rfl

theorem reports_ofProgram (scan : Scan) :
    Reports scan ((Machine.fresh .unlimited).interpret limit scan.tokens).fault
      (ofProgram limit scan) := by
  by_cases herrors : scan.errors = []
  · rw [ofProgram_of_errors_eq_nil limit herrors]
    cases ((Machine.fresh .unlimited).interpret limit scan.tokens).fault with
    | none => exact .success herrors rfl rfl rfl
    | some f => exact .fault herrors rfl rfl rfl
  · rw [ofProgram_of_errors_ne_nil limit herrors]
    exact .lexical herrors rfl (errorLines_eq scan)

/-- **What a program writes to standard output** is what its prints write. -/
theorem output_ofProgram (h : scan.errors = []) :
    (ofProgram limit scan).output
      = printed limit ((Machine.fresh .unlimited).visits limit (limit + 1) scan.tokens) := by
  have hprints : Machine.Prints limit (.fresh .unlimited)
      ((Machine.fresh .unlimited).visits limit (limit + 1) scan.tokens)
      ((Machine.fresh .unlimited).run limit (limit + 1) scan.tokens).machine :=
    Machine.prints_run limit (limit + 1) scan.tokens rfl
  have hwritten : ((Machine.fresh .unlimited).interpret limit scan.tokens).machine.sink.written
      = printed limit ((Machine.fresh .unlimited).visits limit (limit + 1) scan.tokens) := by
    rw [Machine.interpret_eq_run rfl, hprints.written]
    exact ByteArray.empty_append
  rw [ofProgram_of_errors_eq_nil limit h, ← hwritten]
  cases ((Machine.fresh .unlimited).interpret limit scan.tokens).fault <;> rfl

end

end Response

/-- **How a request ends**: only a program that is run can fail. -/
theorem Request.reports {argv : List String} {file : Except ReadFailure ByteArray}
    {command text : String} (h : Request argv file command text) (setting : Option String) :
    let scan := Scan.ofText text
    let o := (Machine.fresh .unlimited).interpret (Limit.ofSetting setting) scan.tokens
    Response.Reports scan (if command = "run" then o.fault else none)
      (answer argv file setting) := by
  intro scan o
  -- neither of the first two commands runs a program
  rcases h.command_cases with rfl | rfl | rfl
  · rw [h.answer_tokenize, if_neg (by decide)]
    exact Response.reports_result _ scan
  · rw [h.answer_parse, if_neg (by decide)]
    exact Response.reports_result _ scan
  · rw [h.answer_run, if_pos rfl]
    exact Response.reports_ofProgram _ scan

/-! ### The lines of the lexical errors -/

/-- A text is made up of the given lines: each is without a line feed, and has one behind it. -/
structure IsLines (lines : List String) (text : String) : Prop where
  /-- The text is all of the lines. -/
  text_eq : text = unlines lines
  /-- No line is more than one. -/
  newline_notMem : ∀ line ∈ lines, '\n' ∉ line.toList

/-- **A lexical error is one line**: a line feed is never what is unexpected. -/
theorem newline_notMem_message {text : String} {e : ScanError}
    (h : e ∈ (Scan.ofText text).errors) : '\n' ∉ e.message.toList := by
  have hresult : .error e ∈ textResults 1 text.toList := Scan.mem_errors_iff.1 h
  have hnumber (n : Nat) : '\n' ∉ Nat.toDigits 10 n := by
    intro hn
    have hdigit : '\n'.isDigit = true := Nat.isDigit_of_mem_toDigits (by decide) (by decide) hn
    cases hdigit
  cases e with
  | unexpectedCharacter n c =>
    -- a line feed is a blank, and a blank is never unexpected
    have hc : '\n' ≠ c := by
      rintro rfl
      exact not_blank_of_error_mem_textResults hresult (by decide)
    simp [ScanError.message, hnumber, hc]
  | unterminatedString n => simp [ScanError.message, hnumber]

/-- With the exit code of lexical errors, a request lists them, a line each. -/
theorem Request.isLines_errors {argv : List String} {file : Except ReadFailure ByteArray}
    {command text : String} {setting : Option String} (h : Request argv file command text)
    (hcode : (answer argv file setting).exit.code = 65) :
    IsLines ((Scan.ofText text).errors.map (·.message)) (answer argv file setting).errors := by
  refine ⟨(h.reports setting).errors_eq_unlines hcode, ?_⟩
  intro words hwords
  obtain ⟨e, he, rfl⟩ := List.mem_map.1 hwords
  exact newline_notMem_message he

/-! ### The command -/

/-- **The exit code and the two streams of the command.**  The exit code is 1 just if the command
line is too short, the file holds no text, or there is no such command; and there is something on
standard error just if the exit code is not 0.

For any other command line, the exit code is 65 just if the text has lexical errors; 70 just if it
has none, and is run as a program that fails; and 0 just if neither is so.  The lexical errors are
listed on standard error, a line each, in the order of the text.  The listing of the text, or its
value, is written to standard output whether there are lexical errors or not.  A program writes what
its prints write, up to the end or the fault; with lexical errors, it writes nothing. -/
theorem answer_exit_and_streams (argv : List String) (file : Except ReadFailure ByteArray)
    (setting : Option String) :
    let r := answer argv file setting
    (r.exit.code = 1 ↔ argv.length < 3 ∨ (¬ ∃ text : String, file = .ok text.toUTF8) ∨
        ∃ command, argv[1]? = some command ∧ command ∉ commands) ∧
      (r.errors = "" ↔ r.exit.code = 0) ∧
      ∀ command text : String, Request argv file command text →
        let scan := Scan.ofText text
        let limit := Limit.ofSetting setting
        let m := Machine.fresh .unlimited
        let fails := command = "run" ∧ (m.interpret limit scan.tokens).fault ≠ none
        (r.exit.code = 65 ↔ scan.errors ≠ []) ∧
          (r.exit.code = 70 ↔ scan.errors = [] ∧ fails) ∧
          (r.exit.code = 0 ↔ scan.errors = [] ∧ ¬ fails) ∧
          (r.exit.code = 65 → IsLines (scan.errors.map (·.message)) r.errors ∧
            scan.errors.Pairwise fun e e' => e.line ≤ e'.line) ∧
          (command = "tokenize" → r.output = (scan.listing ++ "\n").toUTF8) ∧
          (command = "parse" →
            r.output = ((Window.valueAlone limit scan.tokens).report ++ "\n").toUTF8) ∧
          (command = "run" → scan.errors ≠ [] → r.output = .empty) ∧
          (command = "run" → scan.errors = [] →
            r.output = printed limit (m.visits limit (limit + 1) scan.tokens)) := by
  intro r
  -- a request ends in one of three ways, and anything else is refused
  by_cases hrequest : ∃ command text, Request argv file command text
  · refine ⟨?_, ?_, ?_⟩
    · obtain ⟨command, text, h⟩ := hrequest
      have hcode : r.exit.code ≠ 1 := (h.reports setting).code_ne_one
      exact iff_of_false hcode (exists_request_iff.1 ⟨command, text, h⟩)
    · obtain ⟨command, text, h⟩ := hrequest
      exact (h.reports setting).errors_eq_empty_iff
    · intro command text h scan limit m fails
      have hreports := h.reports setting
      have hfails : (if command = "run" then (m.interpret limit scan.tokens).fault else none) ≠ none
          ↔ fails := by
        by_cases hrun : command = "run" <;> simp [fails, hrun]
      refine ⟨hreports.code_eq_65_iff, ?_, ?_, ?_, ?_, ?_, ?_, ?_⟩
      · rw [← hfails]
        exact hreports.code_eq_70_iff
      · rw [← hfails, Classical.not_not]
        exact hreports.code_eq_zero_iff
      · intro hcode
        exact ⟨h.isLines_errors hcode, pairwise_errors_scanResults 1 _⟩
      · -- what is written, command by command
        rintro rfl
        show (answer argv file setting).output = _
        rw [h.answer_tokenize]
        rfl
      · rintro rfl
        show (answer argv file setting).output = _
        rw [h.answer_parse]
        rfl
      · rintro rfl herrors
        show (answer argv file setting).output = _
        rw [h.answer_run, Response.ofProgram_of_errors_ne_nil _ herrors]
      · rintro rfl herrors
        show (answer argv file setting).output = _
        rw [h.answer_run, Response.output_ofProgram _ herrors]
  · obtain ⟨words, hr⟩ : ∃ words, r = .refusal words := answer_of_not_request hrequest
    rw [hr]
    refine ⟨iff_of_true rfl ?_, ?_, ?_⟩
    · exact Classical.not_not.1 fun h => hrequest (exists_request_iff.2 h)
    · simp [Response.refusal, Exit.code]
    · intro command text h
      exact absurd ⟨command, text, h⟩ hrequest

/-- A program that fails in a branch, behind two prints; and a text with two lexical errors, of
which the listing is written all the same. -/
theorem answer_exit_and_streams_failing :
    let text := "x = 1; print x; if (x < 2) { print 2; if (x) print 3; }"
    let r := answer ["lox", "run", "a"] (.ok text.toUTF8) none
    let text' := "(@)\n\"b"
    let r' := answer ["lox", "tokenize", "b"] (.ok text'.toUTF8) none
    (r.exit.code = 70 ∧ r.errors ≠ "" ∧ r.output = "1\n2\n".toUTF8) ∧
      r'.exit.code = 65 ∧
      r'.errors
          = "[line 1] Error: Unexpected character: @\n[line 2] Error: Unterminated string.\n" ∧
      r'.output = "LEFT_PAREN ( null\nRIGHT_PAREN ) null\nEOF  null\n".toUTF8 := by
  intro text r text' r'
  have h : Request ["lox", "run", "a"] (.ok text.toUTF8) "run" text :=
    ⟨⟨_, _, _, rfl⟩, by decide, rfl⟩
  have h' : Request ["lox", "tokenize", "b"] (.ok text'.toUTF8) "tokenize" text' :=
    ⟨⟨_, _, _, rfl⟩, by decide, rfl⟩
  obtain ⟨-, hempty, hall⟩ := answer_exit_and_streams ["lox", "run", "a"] (.ok text.toUTF8) none
  obtain ⟨-, hfault, -, -, -, -, -, houtput⟩ := hall "run" text h
  obtain ⟨-, -, hall'⟩ := answer_exit_and_streams ["lox", "tokenize", "b"] (.ok text'.toUTF8) none
  obtain ⟨hlexical, -, -, hlines, hlisting, -⟩ := hall' "tokenize" text' h'
  have hcode : r.exit.code = 70 := hfault.2 (by decide +kernel)
  have hcode' : r'.exit.code = 65 := hlexical.2 (by decide +kernel)
  refine ⟨⟨hcode, ?_, ?_⟩, hcode', ?_, ?_⟩
  · intro herrors
    have hzero : r.exit.code = 0 := hempty.1 herrors
    rw [hcode] at hzero
    cases hzero
  · rw [houtput rfl (by decide +kernel)]
    decide +kernel
  · rw [(hlines hcode').1.text_eq]
    decide +kernel
  · rw [hlisting rfl]
    decide +kernel

end Scriptlet
