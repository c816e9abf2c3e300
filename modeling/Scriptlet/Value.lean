import Scriptlet.Number

/-!
# Values

The values that expressions have and variables hold: numbers, truth values, texts, and nil.

## Main definitions

* `Value` — the values.
* `Value.kind` — the word for a sort of value.
* `Value.display` — a value as it is printed.
* `Value.equals` — the equality of the language.
-/

namespace Scriptlet

/-- A value of the language. -/
inductive Value
  | number (x : Number)
  | bool (b : Bool)
  | string (text : String)
  | nil
  deriving DecidableEq

namespace Value

instance : Inhabited Value := ⟨nil⟩

/-- The word for the sort of a value. -/
def kind : Value → String
  | number _ => "number"
  | bool _ => "bool"
  | string _ => "string"
  | nil => "nil"

/-- The truth value that a value is, if it is one. -/
def bool? : Value → Option Bool
  | bool b => some b
  | _ => none

/-- The number that a value is, if it is one. -/
def number? : Value → Option Number
  | number x => some x
  | _ => none

/-- The value is nil. -/
def isNil : Value → Bool
  | nil => true
  | _ => false

/-- A value as it is printed. -/
def display : Value → String
  | number x => x.display
  | bool b => if b then "true" else "false"
  | string text => text
  | nil => "nil"

/-- The value of a whole expression as it is reported: a number without an exponent, any other
value as it is printed. -/
def report : Value → String
  | number x => x.plain
  | v => v.display

/-- The equality of the language: values of different sorts differ, and numbers compare as
numbers. -/
def equals : Value → Value → Bool
  | number x, number y => x.eq y
  | bool a, bool b => a == b
  | string s, string t => s == t
  | nil, nil => true
  | _, _ => false

end Value

end Scriptlet
