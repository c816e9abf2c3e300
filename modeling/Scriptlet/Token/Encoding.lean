import Scriptlet.Token
import Scriptlet.Decimal.Shortest

/-!
# Tokens as text

A token is encoded as the name of its kind, a space and its lexeme.  A listing shows the encoding
and behind it, after one more space, the literal value of the token: the text of a string, the
value of a number as a 64-bit value, and `null` for all other tokens.

## Main definitions

* `Token.encode`, `Token.decode` — the encoding and its reader.
* `EncodingError` — why a text encodes no token.
* `Token.literal` — the literal column of a listing.
* `Token.entry` — a line of a listing.
-/

namespace Scriptlet

/-- Why a text encodes no token. -/
inductive EncodingError
  /-- The text does not begin with a word. -/
  | empty
  /-- The first word names no kind. -/
  | unknownKind (word : String)
  deriving DecidableEq, Repr

/-- The wording of an encoding error. -/
def EncodingError.message : EncodingError → String
  | .empty => "empty token encoding"
  | .unknownKind word => "unknown token kind `" ++ word ++ "`"

/-- The kind with the given name. -/
def Kind.decode (word : String) : Except EncodingError Kind :=
  match Kind.ofName? word with
  | some k => .ok k
  | none => .error (.unknownKind word)

/-- The literal of a 64-bit value.  A whole number is written with all its digits and one zero
behind the point, any other number in plain notation with the fewest digits. -/
def Binary.literal : Binary .double → String
  | .nan => "NaN"
  | .signed negative code _ =>
    let sign := if negative then "-" else ""
    if code = BinaryFormat.double.infinity then sign ++ "inf"
    else match BinaryFormat.double.whole? code with
      | some n => sign ++ String.ofList (Decimal.digits n) ++ ".0"
      | none => sign ++ String.ofList (BinaryFormat.double.shortest code).plain

namespace Token

/-- The encoding of a token; its line is not part of it. -/
def encode (t : Token) : String := t.kind.name ++ " " ++ t.lexeme

/-- Reads an encoded token.  The first word is the name of the kind, and all that follows the
space behind it is the lexeme. -/
def decode (text : String) : Except EncodingError Token :=
  let word := text.toList.takeWhile (· ≠ ' ')
  let rest := text.toList.dropWhile (· ≠ ' ')
  if word = [] then .error .empty
  else (Kind.decode (String.ofList word)).map fun kind => ⟨kind, String.ofList (rest.drop 1), 0⟩

/-- A text without the quotes at its two ends. -/
def unquote (text : String) : String :=
  String.ofList ((((text.toList.dropWhile (· = '"')).reverse).dropWhile (· = '"')).reverse)

/-- The literal value of a token: `null` unless it is a string or a numeral. -/
def literal (t : Token) : String :=
  match t.kind with
  | .string => unquote t.lexeme
  | .number => ((t.number? .double).map Binary.literal).getD "null"
  | _ => "null"

/-- The line of a token in a listing. -/
def entry (t : Token) : String := t.encode ++ " " ++ t.literal

end Token

end Scriptlet
