import Scriptlet.Proofs.Number.ReadBack

/-!
# Printing by way of the bare exponent

A number can be printed in two steps.  It is first written with a *bare* exponent, one that has a
sign only if it is negative, and no more digits than it needs.  That text is then cut at the letter
`e`, the exponent is read as a 32-bit integer, and the text is put together again around it, with a
sign and at least two digits.  A text without such an exponent stays as it is.

Printing so is printing in scientific notation at once: the text of a number outside of the range of
plain notation has such an exponent.

## Main definitions

* `Number.withBareExponent` — a number with a bare exponent.
* `Number.padExponent` — the text with a sign and at least two digits in its exponent.
* `Number.displayPadded` — what is printed for a number, in two steps.

## Main results

* `Number.padExponent_bare` — **a bare exponent gets its sign and its zero.**
* `Number.displayPadded_eq` — printing in two steps is printing at once.
-/

namespace Scriptlet

namespace Numeral

/-- The integer of 32 bits that a text spells: an optional sign and at least one digit. -/
def int32? (cs : List Char) : Option Int :=
  let (negative, ds) := splitSign cs
  if ds ≠ [] ∧ ds.all Char.isDigit then
    let value : Int := if negative then -(ofDigits ds : Int) else ofDigits ds
    if -2147483648 ≤ value ∧ value ≤ 2147483647 then some value else none
  else none

/-- An integer as it is written, with a sign only if it is negative. -/
def bareInt (e : Int) : List Char :=
  (Number.sign (decide (e < 0))).toList ++ Decimal.digits e.natAbs

theorem begins_digits (n : Nat) : Begins Char.isDigit (Decimal.digits n) := by
  have hne : Decimal.digits n ≠ [] := Nat.toDigits_ne_nil
  obtain ⟨c, cs, hcs⟩ := List.exists_cons_of_ne_nil hne
  have hmem : c ∈ Decimal.digits n := by
    rw [hcs]
    exact List.mem_cons_self
  exact ⟨c, cs, hcs, Decimal.isDigit_of_mem_digits hmem⟩

/-- A written integer is read again. -/
theorem int32?_bareInt {e : Int} (hlower : -2147483648 ≤ e) (hupper : e ≤ 2147483647) :
    int32? (bareInt e) = some e := by
  have hdigits : Decimal.digits e.natAbs ≠ [] ∧
      (Decimal.digits e.natAbs).all Char.isDigit = true :=
    ⟨Nat.toDigits_ne_nil, List.all_eq_true.2 fun _ hc => Decimal.isDigit_of_mem_digits hc⟩
  have hspelled : ofDigits (Decimal.digits e.natAbs) = e.natAbs := Nat.ofDigitChars_ten_toDigits
  have hvalue : (if decide (e < 0) = true then -(e.natAbs : Int) else e.natAbs) = e := by
    by_cases hneg : e < 0
    · rw [if_pos (decide_eq_true hneg)]
      omega
    · rw [if_neg (by simpa using hneg)]
      omega
  rw [int32?, bareInt, splitSign_sign _ (begins_digits _)]
  dsimp only
  rw [if_pos hdigits, hspelled, hvalue, if_pos ⟨hlower, hupper⟩]

end Numeral

/-- A digit, a point with the other digits behind it if there are any, and a bare exponent. -/
def Decimal.withBareExponent (d : Decimal) : List Char :=
  pointed ((digits d.coefficient).take 1) ((digits d.coefficient).drop 1)
    ++ 'e' :: Numeral.bareInt d.leading

namespace Number

/-- A number with a bare exponent, whatever its magnitude. -/
def withBareExponent : Number → String
  | .nan => "NaN"
  | .signed negative code _ =>
    if code = BinaryFormat.single.infinity then bareInfinity negative
    else sign negative ++ String.ofList (BinaryFormat.single.shortest code).withBareExponent

/-- The text in front of the first letter `e` and the text behind it, `none` if there is no such
letter. -/
def cutExponent? (text : String) : Option (List Char × List Char) :=
  match text.toList.dropWhile (· != 'e') with
  | [] => none
  | _ :: rest => some (text.toList.takeWhile (· != 'e'), rest)

/-- The text with a sign and at least two digits in its exponent. -/
def padExponent (text : String) : String :=
  match cutExponent? text with
  | none => text
  | some (mantissa, exponent) =>
    match Numeral.int32? exponent with
    | none => text
    | some e =>
      String.ofList (mantissa ++ 'e' :: (if e < 0 then '-' else '+')
        :: Decimal.padded 2 (Decimal.digits e.natAbs))

/-- What is printed for a number, in two steps. -/
def displayPadded (x : Number) : String :=
  if x.OutOfRange then padExponent x.withBareExponent else x.plain

theorem cutExponent?_of_toList_eq {text : String} {mantissa rest : List Char}
    (htext : text.toList = mantissa ++ 'e' :: rest) (hmantissa : ∀ c ∈ mantissa, c ≠ 'e') :
    cutExponent? text = some (mantissa, rest) := by
  have hfront : ∀ c ∈ mantissa, (c != 'e') = true := fun c hc => bne_iff_ne.2 (hmantissa c hc)
  have hstop : ¬ Begins (· != 'e') ('e' :: rest) := by simp
  obtain ⟨htake, hdrop⟩ := takeWhile_append_of_not_begins hfront hstop
  rw [cutExponent?, htext, hdrop, htake]

/-- **A bare exponent gets its sign and its zero.** -/
theorem padExponent_bare (negative : Bool) {d : Decimal} (hlower : -2147483648 ≤ d.leading)
    (hupper : d.leading ≤ 2147483647) :
    padExponent (sign negative ++ String.ofList d.withBareExponent)
      = sign negative ++ String.ofList d.scientific := by
  have htext : (sign negative ++ String.ofList d.withBareExponent).toList
      = ((sign negative).toList ++ Decimal.pointed ((Decimal.digits d.coefficient).take 1)
          ((Decimal.digits d.coefficient).drop 1)) ++ 'e' :: Numeral.bareInt d.leading := by
    rw [String.toList_append, String.toList_ofList, Decimal.withBareExponent, List.append_assoc]
  have hcut := cutExponent?_of_toList_eq htext fun c hc => by
    rintro rfl
    exact absurd (isMantissaPart_of_mem_mantissa hc) (by decide)
  rw [padExponent, hcut]
  dsimp only
  rw [Numeral.int32?_bareInt hlower hupper, Decimal.scientific_eq]
  dsimp only
  rw [List.append_assoc, String.ofList_append, String.ofList_toList]

/-- **Printing in two steps is printing at once.** -/
theorem displayPadded_eq (x : Number) : x.displayPadded = x.display := by
  by_cases hrange : x.OutOfRange
  · cases x with
    | nan => cases hrange.finite
    | signed negative code hcode =>
      have hscientific := isScientific_iff.2 hrange
      have hfinite : code ≠ BinaryFormat.single.infinity := by
        simpa [Binary.isFinite] using hrange.finite
      have hcode0 : code ≠ 0 := by
        rintro rfl
        cases hscientific
      -- the exponents of 32-bit values are small, so they can be read again
      have hleading := BinaryFormat.natAbs_leading_shortest_le hcode0 hcode
      rw [displayPadded, if_pos hrange, withBareExponent, if_neg hfinite,
        padExponent_bare negative (by omega) (by omega), display, if_pos hscientific]
  · rw [displayPadded, if_neg hrange, display_of_not_outOfRange hrange]

end Number

end Scriptlet
