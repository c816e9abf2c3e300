/-!
# Kinds of tokens

The alphabet of the language after scanning: punctuation, operators, the three open classes
(identifiers, strings, numbers) and the sixteen reserved words.  A kind has a name, by which
listings and encoded tokens refer to it; a reserved word also has its spelling in a source text.

## Main definitions

* `Kind` — the kinds; `Kind.all` lists them.
* `Kind.name`, `Kind.ofName?` — a kind and its name.
* `Kind.word?`, `Kind.ofWord?` — a reserved word and its spelling.
-/

namespace Scriptlet

/-- What sort of token a lexeme is. -/
inductive Kind
  -- punctuation
  | leftParen | rightParen | leftBrace | rightBrace | comma | dot | semicolon
  -- operators
  | minus | plus | star | slash | bang | bangEqual | equal | equalEqual
  | less | lessEqual | greater | greaterEqual
  -- open classes
  | identifier | string | number
  -- reserved words
  | andWord | classWord | elseWord | falseWord | forWord | funWord | ifWord | nilWord
  | orWord | printWord | returnWord | superWord | thisWord | trueWord | varWord | whileWord
  deriving DecidableEq, Repr

namespace Kind

/-- Every kind, once. -/
def all : List Kind :=
  [.leftParen, .rightParen, .leftBrace, .rightBrace, .comma, .dot, .semicolon, .minus, .plus,
    .star, .slash, .bang, .bangEqual, .equal, .equalEqual, .less, .lessEqual, .greater,
    .greaterEqual, .identifier, .string, .number, .andWord, .classWord, .elseWord, .falseWord,
    .forWord, .funWord, .ifWord, .nilWord, .orWord, .printWord, .returnWord, .superWord,
    .thisWord, .trueWord, .varWord, .whileWord]

theorem mem_all (k : Kind) : k ∈ all := by
  cases k <;> decide

/-- The name of a kind in listings and encoded tokens. -/
def name : Kind → String
  | .leftParen => "LEFT_PAREN"
  | .rightParen => "RIGHT_PAREN"
  | .leftBrace => "LEFT_BRACE"
  | .rightBrace => "RIGHT_BRACE"
  | .comma => "COMMA"
  | .dot => "DOT"
  | .semicolon => "SEMICOLON"
  | .minus => "MINUS"
  | .plus => "PLUS"
  | .star => "STAR"
  | .slash => "SLASH"
  | .bang => "BANG"
  | .bangEqual => "BANG_EQUAL"
  | .equal => "EQUAL"
  | .equalEqual => "EQUAL_EQUAL"
  | .less => "LESS"
  | .lessEqual => "LESS_EQUAL"
  | .greater => "GREATER"
  | .greaterEqual => "GREATER_EQUAL"
  | .identifier => "IDENTIFIER"
  | .string => "STRING"
  | .number => "NUMBER"
  | .andWord => "AND"
  | .classWord => "CLASS"
  | .elseWord => "ELSE"
  | .falseWord => "FALSE"
  | .forWord => "FOR"
  | .funWord => "FUN"
  | .ifWord => "IF"
  | .nilWord => "NIL"
  | .orWord => "OR"
  | .printWord => "PRINT"
  | .returnWord => "RETURN"
  | .superWord => "SUPER"
  | .thisWord => "THIS"
  | .trueWord => "TRUE"
  | .varWord => "VAR"
  | .whileWord => "WHILE"

/-- The kind with the given name. -/
def ofName? (text : String) : Option Kind :=
  all.find? fun k => k.name == text

/-- The spelling of a reserved word in a source text; the other kinds have none. -/
def word? : Kind → Option String
  | .andWord => some "and"
  | .classWord => some "class"
  | .elseWord => some "else"
  | .falseWord => some "false"
  | .forWord => some "for"
  | .funWord => some "fun"
  | .ifWord => some "if"
  | .nilWord => some "nil"
  | .orWord => some "or"
  | .printWord => some "print"
  | .returnWord => some "return"
  | .superWord => some "super"
  | .thisWord => some "this"
  | .trueWord => some "true"
  | .varWord => some "var"
  | .whileWord => some "while"
  | _ => none

/-- The reserved word spelled by a text. -/
def ofWord? (text : String) : Option Kind :=
  all.find? fun k => k.word? == some text

@[simp] theorem ofName?_name (k : Kind) : ofName? k.name = some k := by
  cases k <;> decide +kernel

theorem name_of_ofName? {text : String} {k : Kind} (h : ofName? text = some k) : k.name = text := by
  simpa using List.find?_some h

theorem word?_of_ofWord? {text : String} {k : Kind} (h : ofWord? text = some k) :
    k.word? = some text := by
  simpa using List.find?_some h

/-- The kinds that stand for a value on their own. -/
def isAtom : Kind → Bool
  | .number | .string | .trueWord | .falseWord | .nilWord | .identifier => true
  | _ => false

end Kind

end Scriptlet
