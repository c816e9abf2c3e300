import Scriptlet.Token.Kind
import Scriptlet.Decimal.Numeral

/-!
# Tokens

A token is a kind, the piece of source text it was cut from, and the line on which that piece
starts.  A token that was not cut from a source has the line zero.

## Main definitions

* `Token` — kind, lexeme and line.
* `Token.quoted` — the text of a string token.
* `Token.number?` — the value of a number token in a binary format.
-/

namespace Scriptlet

/-- A piece of source text with its kind and the line on which it starts. -/
structure Token where
  /-- The sort of token. -/
  kind : Kind
  /-- The text of the token, exactly as it stands in the source. -/
  lexeme : String
  /-- The number of its first line, counted from one. -/
  line : Nat
  deriving DecidableEq, Repr

namespace Token

/-- The text between the first quote of the lexeme and the next one, or to the end of the lexeme
if there is no other; empty without any quote. -/
def quoted (t : Token) : String :=
  String.ofList (((t.lexeme.toList.dropWhile (· ≠ '"')).drop 1).takeWhile (· ≠ '"'))

/-- The value of the format `F` that the lexeme spells. -/
def number? (F : BinaryFormat) (t : Token) : Option (Binary F) :=
  Binary.ofText? F t.lexeme

end Token

end Scriptlet
