import Scriptlet.Proofs.Decimal.Leading
import Scriptlet.Proofs.Number.Notation

/-!
# Printed numbers read back

Printing loses nothing: the text of a number is read as that number again, with its sign and with
all of its magnitude, whichever notation it is printed in.  A zero keeps its sign, and the
infinities have words.  So two numbers that are printed alike are one.

A text in scientific notation can be told by its exponent part, what stands behind the letter `e`.

## Main definitions

* `Number.exponentPart?` — the exponent part of a text.
* `Number.IsExponent` — a sign and at least two digits.

## Main results

* `Number.ofText?_plain`, `Number.ofText?_bare`, `Number.ofText?_display` — all texts of a number
  read back.
* `Number.exponentPart?_display` — which texts have an exponent part, and what it is.
* `Number.display_lossless` — **what is printed for a number stands for that number only.**
-/

namespace Scriptlet

namespace Number

/-! ### Reading both notations -/

/-- Plain notation reads back to the number, however the infinities are written, if that does. -/
theorem ofText?_plainWith {infinity : Bool → String}
    (hinfinity : ∀ negative, Binary.ofText? .single (infinity negative) = some (.infinite negative))
    (x : Number) : Binary.ofText? .single (x.plainWith infinity) = some x := by
  cases x with
  | nan =>
    rw [plainWith]
    rfl
  | signed negative code hcode =>
    rw [plainWith]
    split
    · rename_i hcodeInfinity
      subst hcodeInfinity
      exact hinfinity negative
    · rw [Binary.ofText?_plain]
      simp only [BinaryFormat.code_shortest .single hcode]

/-- What is reported for a number reads back to it. -/
theorem ofText?_plain (x : Number) : Binary.ofText? .single x.plain = some x :=
  ofText?_plainWith (fun negative => by cases negative <;> rfl) x

theorem ofText?_bare (x : Number) : Binary.ofText? .single x.bare = some x :=
  ofText?_plainWith (fun negative => by cases negative <;> rfl) x

/-- What is printed for a number reads back to it. -/
theorem ofText?_display (x : Number) : Binary.ofText? .single x.display = some x := by
  by_cases hrange : x.OutOfRange
  · cases x with
    | nan => cases hrange.finite
    | signed negative code hcode =>
      have hscientific := isScientific_iff.2 hrange
      have hcode0 : code ≠ 0 := by
        rintro rfl
        cases hscientific
      have hleading := BinaryFormat.natAbs_leading_shortest_le hcode0 hcode
      rw [display, if_pos hscientific, Binary.ofText?_scientific _ _ (by omega)]
      simp only [BinaryFormat.code_shortest .single hcode]
  · rw [display_of_not_outOfRange hrange, ofText?_plain]

/-- Two numbers that are printed alike are one. -/
theorem eq_of_display_eq {x y : Number} (h : x.display = y.display) : x = y := by
  have hread := ofText?_display x
  rw [h, ofText?_display y] at hread
  exact (Option.some.inj hread).symm

/-! ### The exponent part -/

/-- The character may stand in front of an exponent: it is not the letter that a reader takes for
the start of one. -/
def isMantissaPart (c : Char) : Bool := c != 'e' && c != 'E'

/-- What stands behind the first letter `e` of a text, `none` if there is no such letter. -/
def exponentPart? (text : String) : Option (List Char) :=
  (text.toList.dropWhile isMantissaPart).tail?

/-- A sign and at least two digits. -/
def IsExponent (part : List Char) : Prop :=
  ∃ sign ds, part = sign :: ds ∧ (sign = '+' ∨ sign = '-') ∧ 2 ≤ ds.length ∧
    ∀ c ∈ ds, c.isDigit = true

theorem exponentPart?_of_toList_eq {text : String} {mantissa rest : List Char}
    (htext : text.toList = mantissa ++ rest) (hmantissa : ∀ c ∈ mantissa, isMantissaPart c = true)
    (hrest : ¬ Begins isMantissaPart rest) : exponentPart? text = rest.tail? := by
  rw [exponentPart?, htext, (takeWhile_append_of_not_begins hmantissa hrest).2]

theorem isMantissaPart_of_isDigit {c : Char} (h : c.isDigit = true) : isMantissaPart c = true := by
  rw [isMantissaPart, Bool.and_eq_true, bne_iff_ne, bne_iff_ne]
  constructor
  · rintro rfl
    cases h
  · rintro rfl
    cases h

theorem isMantissaPart_of_mem_sign {negative : Bool} {c : Char} (h : c ∈ (sign negative).toList) :
    isMantissaPart c = true := by
  have hsign : (sign negative).toList.all isMantissaPart = true := by
    cases negative <;> decide
  exact List.all_eq_true.1 hsign c h

/-- A sort of characters that holds the digits and those of the words holds all characters of plain
notation. -/
theorem all_plainWith {infinity : Bool → String} {p : Char → Bool}
    (hdigit : ∀ c : Char, c.isDigit = true → p c = true)
    (hwords : (['-', '.'] ++ "NaN".toList).all p = true)
    (hinfinity : ∀ negative, (infinity negative).toList.all p = true) (x : Number) :
    (x.plainWith infinity).toList.all p = true := by
  refine List.all_eq_true.2 fun c hc => ?_
  rcases isDigit_or_mem_of_mem_plainWith hc with h | h | h | ⟨negative, h⟩
  · exact hdigit c h
  · exact List.all_eq_true.1 hwords c (List.mem_append_left _ h)
  · exact List.all_eq_true.1 hwords c (List.mem_append_right _ h)
  · exact List.all_eq_true.1 (hinfinity negative) c h

/-- What is reported for a number has no exponent part: its words have no such letter. -/
theorem exponentPart?_plain (x : Number) : exponentPart? x.plain = none := by
  have hmantissa : x.plain.toList.all isMantissaPart = true :=
    all_plainWith (fun _ => isMantissaPart_of_isDigit) (by decide)
      (fun negative => by cases negative <;> decide) x
  exact exponentPart?_of_toList_eq (List.append_nil _).symm (List.all_eq_true.1 hmantissa)
    not_begins_nil

/-- The digits in front of an exponent, with a minus and a point, are no letters. -/
theorem isMantissaPart_of_mem_mantissa {negative : Bool} {n : Nat} {c : Char}
    (h : c ∈ (sign negative).toList
      ++ Decimal.pointed ((Decimal.digits n).take 1) ((Decimal.digits n).drop 1)) :
    isMantissaPart c = true := by
  rcases List.mem_append.1 h with h | h
  · exact isMantissaPart_of_mem_sign h
  · rcases Decimal.mem_pointed h with h | rfl | h
    · exact isMantissaPart_of_isDigit (Decimal.isDigit_of_mem_digits (List.mem_of_mem_take h))
    · rfl
    · exact isMantissaPart_of_isDigit (Decimal.isDigit_of_mem_digits (List.mem_of_mem_drop h))

/-- The exponent part of scientific notation is the power of ten of the first digit. -/
theorem exponentPart?_scientific (negative : Bool) (d : Decimal) :
    exponentPart? (sign negative ++ String.ofList d.scientific)
      = some ((if d.leading < 0 then '-' else '+')
          :: Decimal.padded 2 (Decimal.digits d.leading.natAbs)) := by
  have htext : (sign negative ++ String.ofList d.scientific).toList
      = ((sign negative).toList ++ Decimal.pointed ((Decimal.digits d.coefficient).take 1)
          ((Decimal.digits d.coefficient).drop 1))
        ++ 'e' :: (if d.leading < 0 then '-' else '+')
          :: Decimal.padded 2 (Decimal.digits d.leading.natAbs) := by
    rw [String.toList_append, String.toList_ofList, Decimal.scientific_eq, List.append_assoc]
  exact exponentPart?_of_toList_eq htext (fun _ => isMantissaPart_of_mem_mantissa)
    (by simp [isMantissaPart])

theorem isExponent_padded (e : Int) :
    IsExponent ((if e < 0 then '-' else '+') :: Decimal.padded 2 (Decimal.digits e.natAbs)) := by
  refine ⟨_, _, rfl, ?_, ?_, fun c hc => Decimal.isDigit_of_mem_padded hc⟩
  · split
    · exact .inr rfl
    · exact .inl rfl
  · rw [Decimal.padded, List.length_append, List.length_replicate]
    omega

/-- **What is printed for a number stands for that number only.**  Its text reads back to the
number, it is printed for no other, and it has an exponent part, a sign and at least two digits,
just if the number is outside of the range of plain notation. -/
theorem display_lossless (x : Number) :
    Binary.ofText? .single (Value.number x).display = some x ∧
      (∀ y : Number, (Value.number y).display = (Value.number x).display → y = x) ∧
      ((exponentPart? (Value.number x).display).isSome = true ↔ x.OutOfRange) ∧
      ∀ part, exponentPart? (Value.number x).display = some part → IsExponent part := by
  refine ⟨ofText?_display x, fun y h => eq_of_display_eq h, ?_⟩
  by_cases hrange : x.OutOfRange
  · obtain ⟨negative, d, -, -, hdisplay⟩ := exists_notations hrange
    have hpart : exponentPart? (Value.number x).display = _ :=
      (congrArg exponentPart? hdisplay).trans (exponentPart?_scientific negative d)
    rw [hpart]
    refine ⟨⟨fun _ => hrange, fun _ => rfl⟩, ?_⟩
    rintro _ ⟨⟩
    exact isExponent_padded d.leading
  · have hpart : exponentPart? (Value.number x).display = none :=
      (congrArg exponentPart? (display_of_not_outOfRange hrange)).trans (exponentPart?_plain x)
    rw [hpart]
    refine ⟨⟨fun h => ?_, fun h => absurd h hrange⟩, fun _ h => ?_⟩
    · cases h
    · cases h

/-- The negative number nearest to zero. -/
theorem display_lossless_least :
    OutOfRange (.signed true 1 (by decide)) ∧
      (Value.number (.signed true 1 (by decide))).display = "-1e-45" ∧
      Binary.ofText? .single "-1e-45" = some (.signed true 1 (by decide)) ∧
      (∀ y : Number, (Value.number y).display = "-1e-45" → y = .signed true 1 (by decide)) ∧
      exponentPart? "-1e-45" = some ['-', '4', '5'] ∧ IsExponent ['-', '4', '5'] := by
  have htext : (Value.number (.signed true 1 (by decide))).display = "-1e-45" := by
    decide +kernel
  have hpart : exponentPart? "-1e-45" = some ['-', '4', '5'] := by decide
  obtain ⟨hread, hunique, hrange, hexponent⟩ := display_lossless (.signed true 1 (by decide))
  rw [htext] at hread hunique hrange hexponent
  exact ⟨hrange.1 (by rw [hpart]; rfl), htext, hread, hunique, hpart, hexponent _ hpart⟩

end Number

end Scriptlet
