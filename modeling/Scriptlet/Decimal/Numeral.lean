import Scriptlet.Decimal

/-!
# Reading numerals

A numeral is an optional sign and then either one of the words `inf`, `infinity` and `nan`, in any
letter case, or a decimal: digits with an optional point among, before or after them, at least one
digit in all, and an optional exponent.  Nothing may stand before or behind it.

## Main definitions

* `Numeral` — what a numeral spells, apart from its sign.
* `Numeral.read?` — the sign and the numeral of a text.
* `Binary.ofText?` — the binary value that a text spells: the nearest one, ties to even.
-/

namespace Scriptlet

/-- What a numeral spells, apart from its sign. -/
inductive Numeral
  /-- Not a number. -/
  | nan
  /-- An infinite magnitude. -/
  | infinity
  /-- A finite magnitude. -/
  | decimal (d : Decimal)
  deriving DecidableEq, Repr

namespace Numeral

/-- Takes an optional sign off a text; `true` is a minus. -/
def splitSign : List Char → Bool × List Char
  | '-' :: cs => (true, cs)
  | '+' :: cs => (false, cs)
  | cs => (false, cs)

/-- The number that a list of digits spells. -/
def ofDigits (ds : List Char) : Nat := Nat.ofDigitChars 10 ds 0

/-- The size of an exponent.  Digits behind one that has already passed 65535 do not make it
larger: every format ends far below. -/
def exponentSize (ds : List Char) : Nat :=
  ds.foldl (fun size d => if size < 65536 then 10 * size + (d.toNat - '0'.toNat) else size) 0

/-- The exponent that a text spells: an optional sign and at least one digit. -/
def exponent? (cs : List Char) : Option Int :=
  let (negative, ds) := splitSign cs
  if ds ≠ [] ∧ ds.all Char.isDigit then
    some (if negative then -(exponentSize ds : Int) else exponentSize ds)
  else none

/-- The digits before the point, those behind it, and what follows them. -/
def splitPoint (cs : List Char) : List Char × List Char × List Char :=
  match cs.dropWhile Char.isDigit with
  | '.' :: rest =>
    (cs.takeWhile Char.isDigit, rest.takeWhile Char.isDigit, rest.dropWhile Char.isDigit)
  | rest => (cs.takeWhile Char.isDigit, [], rest)

/-- The decimal that a text without a sign spells. -/
def decimal? (cs : List Char) : Option Decimal :=
  let (whole, fraction, rest) := splitPoint cs
  if whole ++ fraction = [] then none
  else
    let coefficient := ofDigits (whole ++ fraction)
    match rest with
    | [] => some ⟨coefficient, -(fraction.length : Int)⟩
    | c :: rest =>
      if c = 'e' ∨ c = 'E' then
        (exponent? rest).map fun e => ⟨coefficient, e - fraction.length⟩
      else none

/-- What a text without a sign spells. -/
def unsigned? (cs : List Char) : Option Numeral :=
  let word := cs.map Char.toLower
  if word = ['n', 'a', 'n'] then some nan
  else if word = ['i', 'n', 'f'] ∨ word = ['i', 'n', 'f', 'i', 'n', 'i', 't', 'y'] then
    some infinity
  else (decimal? cs).map decimal

/-- The sign and the numeral of a text, `none` if it is no numeral. -/
def read? (cs : List Char) : Option (Bool × Numeral) :=
  (unsigned? (splitSign cs).2).map fun n => ((splitSign cs).1, n)

/-- The binary value nearest to a signed numeral. -/
def toBinary (F : BinaryFormat) (negative : Bool) : Numeral → Binary F
  | nan => .nan
  | infinity => .infinite negative
  | decimal d => .signed negative (d.code F) (d.code_le_infinity F)

end Numeral

/-- The value of the format `F` that a text spells, `none` if it is no numeral. -/
def Binary.ofText? (F : BinaryFormat) (text : String) : Option (Binary F) :=
  (Numeral.read? text.toList).map fun (negative, n) => n.toBinary F negative

end Scriptlet
