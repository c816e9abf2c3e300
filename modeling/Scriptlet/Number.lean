import Scriptlet.Binary.Arithmetic
import Scriptlet.Decimal.Shortest

/-!
# Numbers

Programs compute with 32-bit values.  A number is written with the fewest digits that read back
to it.  What a program prints changes to scientific notation for very large and very small
magnitudes; the notation of rendered expressions and of single results is always plain.

## Main definitions

* `Number` — a 32-bit value.
* `Number.plain` — plain notation with signed infinities.
* `Number.bare` — plain notation as it stands inside a rendered expression.
* `Number.display` — the notation in which a number is printed.
-/

namespace Scriptlet

/-- The numbers of the language. -/
abbrev Number := Binary .single

namespace Number

/-- A minus for a negative number. -/
def sign (negative : Bool) : String := if negative then "-" else ""

/-- Plain notation, given how the two infinities are written. -/
def plainWith (infinity : Bool → String) : Number → String
  | .nan => "NaN"
  | .signed negative code _ =>
    if code = BinaryFormat.single.infinity then infinity negative
    else sign negative ++ String.ofList (BinaryFormat.single.shortest code).plain

/-- An infinity with its sign, also a positive one. -/
def signedInfinity (negative : Bool) : String := if negative then "-Inf" else "+Inf"

/-- An infinity as it stands inside a rendered expression. -/
def bareInfinity (negative : Bool) : String := sign negative ++ "inf"

/-- Plain notation: never an exponent. -/
def plain (x : Number) : String := x.plainWith signedInfinity

/-- The notation of a number inside a rendered expression. -/
def bare (x : Number) : String := x.plainWith bareInfinity

/-- Only the word for no number and those for the infinities have letters. -/
theorem isDigit_or_mem_of_mem_plainWith {infinity : Bool → String} {x : Number} {c : Char}
    (h : c ∈ (x.plainWith infinity).toList) :
    c.isDigit = true ∨ c ∈ ['-', '.'] ∨ c ∈ "NaN".toList ∨ ∃ b, c ∈ (infinity b).toList := by
  unfold plainWith at h
  split at h
  · exact .inr (.inr (.inl h))
  · rename_i negative code _
    split at h
    · exact .inr (.inr (.inr ⟨negative, h⟩))
    · rw [String.toList_append, String.toList_ofList] at h
      -- a finite number is a sign and a decimal in plain notation
      rcases List.mem_append.1 h with h | h
      · cases negative with
        | false => cases h
        | true => exact .inr (.inl (List.mem_cons.2 (.inl (List.mem_singleton.1 h))))
      · rcases Decimal.isDigit_or_eq_of_mem_plain h with h | rfl
        · exact .inl h
        · exact .inr (.inl (by decide))

/-- No number reads like nil inside an expression. -/
theorem bare_ne_nil (x : Number) : x.bare ≠ "nil" := by
  intro h
  have hmem : 'l' ∈ (x.plainWith bareInfinity).toList := by
    rw [← bare, h]
    decide
  rcases isDigit_or_mem_of_mem_plainWith hmem with h | h | h | ⟨b, h⟩
  · cases h
  · revert h
    decide
  · revert h
    decide
  · revert h
    cases b <;> decide

/-- The code of the least magnitude that is printed in plain notation. -/
def plainFrom : Nat := Decimal.code .single ⟨1, -4⟩

/-- The code of the least magnitude above those printed in plain notation. -/
def plainBelow : Nat := Decimal.code .single ⟨1, 21⟩

/-- A finite number other than zero outside of the range of plain notation is printed in
scientific notation. -/
def isScientific : Number → Bool
  | .nan => false
  | .signed _ code _ =>
    code != BinaryFormat.single.infinity && code != 0 && (code < plainFrom || plainBelow ≤ code)

/-- The notation in which a number is printed. -/
def display (x : Number) : String :=
  match x with
  | .nan => x.plain
  | .signed negative code _ =>
    if x.isScientific then
      sign negative ++ String.ofList (BinaryFormat.single.shortest code).scientific
    else x.plain

end Number

end Scriptlet
