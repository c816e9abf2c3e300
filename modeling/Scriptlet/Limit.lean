import Scriptlet.Core

/-!
# The nesting limit

How deep expressions and statements may be nested is a setting.  It is given as text: a positive
decimal number of at most 64 bits, perhaps with a plus in front and white space around it.  Any
other text, like no text, stands for the default.

## Main definitions

* `Limit.default` — the limit where nothing else is set.
* `Limit.ofSetting` — the limit that a setting stands for.
* `Limit.isWhiteSpace` — the Unicode property of the same name.
-/

namespace Scriptlet.Limit

/-- The limit where nothing else is set. -/
def default : Nat := 256

/-- The code points with the Unicode property White_Space, as closed ranges in ascending order. -/
def whiteSpaceRanges : List (Nat × Nat) :=
  [(0x09, 0x0D), (0x20, 0x20), (0x85, 0x85), (0xA0, 0xA0), (0x1680, 0x1680), (0x2000, 0x200A),
    (0x2028, 0x2029), (0x202F, 0x202F), (0x205F, 0x205F), (0x3000, 0x3000)]

/-- The character has the Unicode property White_Space. -/
def isWhiteSpace (c : Char) : Bool :=
  whiteSpaceRanges.any fun r => r.1 ≤ c.toNat && c.toNat ≤ r.2

/-- A text without white space at its ends. -/
def trim (cs : List Char) : List Char :=
  (((cs.dropWhile isWhiteSpace).reverse).dropWhile isWhiteSpace).reverse

/-- The number of at most 64 bits that a text spells: digits, perhaps with a plus in front. -/
def number? (cs : List Char) : Option Nat :=
  let ds := match cs with
    | '+' :: rest => rest
    | _ => cs
  if ds ≠ [] ∧ ds.all Char.isDigit then
    let n := Nat.ofDigitChars 10 ds 0
    if n < 2 ^ (64 : Nat) then some n else none
  else none

/-- The limit that a setting stands for: the number it spells, if that is one above zero. -/
def ofSetting (setting : Option String) : Nat :=
  match setting.bind fun text => number? (trim text.toList) with
  | some (n + 1) => n + 1
  | _ => default

/-- There is always room for one level. -/
theorem ofSetting_pos (setting : Option String) : 0 < ofSetting setting := by
  unfold ofSetting
  split
  · exact Nat.succ_pos _
  · decide

end Scriptlet.Limit
