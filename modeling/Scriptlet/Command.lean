import Scriptlet.Limit
import Scriptlet.Machine
import Scriptlet.Source.Scan

/-!
# The command

The command `lox` takes the name of a command and the path of a source file: `tokenize` lists the
tokens of the file, `parse` reports the value of the file read as one expression, and `run` runs it
as a program.  What it answers depends only on its arguments, on the file and on the setting of the
nesting limit.

A file with lexical errors ends every command with the same exit code.  The first two commands
write their result all the same; `run` then runs nothing.

## Main definitions

* `ReadFailure` — why a file has no text.
* `Exit` — the ways in which the command ends; `Exit.code` is the exit code.
* `Response` — what the command writes, and how it ends.
* `respond` — the answer to arguments.
* `answer` — the answer to a whole command line and the bytes of a file.

## Main results

* `answer_lox` — under its own name, the command answers as to the arguments.
-/

namespace Scriptlet

/-- Why a file has no text. -/
inductive ReadFailure
  /-- The system refuses to read it, for a reason with a number. -/
  | system (reason : String) (code : Nat)
  /-- Its bytes are no text. -/
  | notText
  deriving DecidableEq, Repr

/-- The wording of a failure. -/
def ReadFailure.message : ReadFailure → String
  | .system reason code => reason ++ " (os error " ++ toString code ++ ")"
  | .notText => "stream did not contain valid UTF-8"

/-- The ways in which the command ends. -/
inductive Exit
  /-- All went well. -/
  | success
  /-- The command was not called as it should be, or the file could not be read. -/
  | usage
  /-- The file has lexical errors. -/
  | lexical
  /-- The program failed. -/
  | fault
  deriving DecidableEq, Repr

/-- The exit code of an ending. -/
def Exit.code : Exit → Nat
  | .success => 0
  | .usage => 1
  | .lexical => 65
  | .fault => 70

/-- What the command writes, and how it ends. -/
structure Response where
  /-- How it ends. -/
  exit : Exit
  /-- The bytes on standard output. -/
  output : ByteArray
  /-- The text on standard error. -/
  errors : String
  deriving DecidableEq

namespace Response

/-- Writes one line of error and nothing else. -/
def refusal (text : String) : Response := ⟨.usage, .empty, text ++ "\n"⟩

/-- The lexical errors of a scan, a line each. -/
def errorLines (s : Scan) : String := String.join (s.errors.map fun e => e.message ++ "\n")

/-- Writes a line of result, and then the lexical errors, if there are any. -/
def result (text : String) (s : Scan) : Response :=
  ⟨if s.hasErrors then .lexical else .success, (text ++ "\n").toUTF8, errorLines s⟩

/-- Runs the tokens of a scan as a program, if there are no lexical errors. -/
def ofProgram (limit : Nat) (s : Scan) : Response :=
  if s.hasErrors then ⟨.lexical, .empty, errorLines s⟩
  else
    let o := (Machine.fresh .unlimited).interpret limit s.tokens
    match o.fault with
    | none => ⟨.success, o.machine.sink.written, ""⟩
    | some f => ⟨.fault, o.machine.sink.written, "Error: " ++ f.message ++ "\n"⟩

end Response

/-- The value of a whole window read as one expression, without any variables. -/
def Window.valueAlone (limit : Nat) (ts : Window) : Value := ts.eval .empty limit

/-- The answer to the arguments behind the name of the command, given the text of the file that the
second one names, if there is one, and the setting of the limit. -/
def respond (args : List String) (file : Except ReadFailure String) (setting : Option String) :
    Response :=
  match args with
  | command :: path :: _ =>
    match file with
    | .error failure => .refusal ("Error reading file " ++ path ++ ": " ++ failure.message)
    | .ok text =>
      let scan := Scan.ofText text
      let limit := Limit.ofSetting setting
      match command with
      | "tokenize" => .result scan.listing scan
      | "parse" => .result (Window.valueAlone limit scan.tokens).report scan
      | "run" => .ofProgram limit scan
      | _ => .refusal ("Unknown command: " ++ command)
  | _ => .refusal "Usage: lox <tokenize|parse|run> <file.lox>"

/-- The text whose encoding the bytes of a file are, if they are one. -/
def textOfBytes (bytes : ByteArray) : Except ReadFailure String :=
  match String.fromUTF8? bytes with
  | some text => .ok text
  | none => .error .notText

/-- How the command is called, given the name that it goes by. -/
def usage (name : String) : String := "Usage: " ++ name ++ " <tokenize|parse|run> <file.lox>"

/-- The answer to a command line, which begins with the name that the command goes by, given the
bytes of the file that it names, if they can be read, and the setting of the limit. -/
def answer (line : List String) (file : Except ReadFailure ByteArray) (setting : Option String) :
    Response :=
  match line with
  | _ :: command :: path :: rest =>
    respond (command :: path :: rest) (file.bind textOfBytes) setting
  | _ => .refusal (usage (line.headD "lox"))

/-- Under its own name, the command answers as to the arguments behind the name. -/
theorem answer_lox (args : List String) (file : Except ReadFailure ByteArray)
    (setting : Option String) :
    answer ("lox" :: args) file setting = respond args (file.bind textOfBytes) setting := by
  have husage : usage "lox" = "Usage: lox <tokenize|parse|run> <file.lox>" := by decide +kernel
  match args with
  | [] => exact congrArg Response.refusal husage
  | [_] => exact congrArg Response.refusal husage
  | _ :: _ :: _ => rfl

end Scriptlet
