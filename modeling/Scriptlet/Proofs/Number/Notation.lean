import Scriptlet.Decimal.Numeral
import Scriptlet.Value

/-!
# The two notations of numbers

A number is reported in plain notation and printed in plain or in scientific notation.  The two are
the same text except for finite numbers other than zero whose magnitude lies outside of a range; the
ends of the range are the numbers spelled `1e-4`, which is in it, and `1e21`, which is not.  Outside
of the range both texts spell one decimal, the shortest one of the number, behind the same sign.

## Main definitions

* `Number.magnitude` — a number without its sign.
* `Number.rangeFrom`, `Number.rangeBelow` — the ends of the range.
* `Number.OutOfRange` — the numbers that are printed with an exponent.

## Main results

* `Number.isScientific_iff` — these numbers, said by comparing numbers.
* `Number.exists_notations` — **outside of the range, two notations of one decimal.**
* `Value.report_eq_display_iff` — a value is reported as it is printed unless it is such a number.
-/

namespace Scriptlet

section

variable {F : BinaryFormat} {a b : Nat} {ha : a ≤ F.infinity} {hb : b ≤ F.infinity}

theorem Binary.lt_signed_false_iff :
    Binary.lt (.signed false a ha) (.signed false b hb) = true ↔ a < b := by
  simp [Binary.lt, Binary.compare?, Int.compare_eq_lt]

theorem Binary.le_signed_false_iff :
    Binary.le (.signed false a ha) (.signed false b hb) = true ↔ a ≤ b := by
  simp only [Binary.le, Binary.lt, Binary.eq, Binary.compare?, Bool.or_eq_true, beq_iff_eq,
    Option.some.injEq, Int.compare_eq_lt, Int.compare_eq_eq, Bool.false_eq_true, if_false]
  omega

end

namespace Number

/-- The number without its sign. -/
def magnitude : Number → Number
  | .nan => .nan
  | .signed _ code h => .signed false code h

/-- The least magnitude of the range: the number spelled `1e-4`. -/
def rangeFrom : Number := (Binary.ofText? .single "1e-4").getD .nan

/-- The least magnitude above the range: the number spelled `1e21`. -/
def rangeBelow : Number := (Binary.ofText? .single "1e21").getD .nan

/-- The number is finite and not zero, and its magnitude is not in the range. -/
structure OutOfRange (x : Number) : Prop where
  /-- It is neither infinite nor not a number. -/
  finite : x.isFinite = true
  /-- It is no zero of either sign. -/
  nonzero : x.eq (.zero false) = false
  /-- Its magnitude is below the range or above it. -/
  outside : x.magnitude.lt rangeFrom = true ∨ rangeBelow.le x.magnitude = true

theorem plainFrom_le_infinity : plainFrom ≤ BinaryFormat.single.infinity :=
  Decimal.code_le_infinity .single ⟨1, -4⟩

theorem plainBelow_le_infinity : plainBelow ≤ BinaryFormat.single.infinity :=
  Decimal.code_le_infinity .single ⟨1, 21⟩

theorem rangeFrom_eq : rangeFrom = .signed false plainFrom plainFrom_le_infinity := by
  decide +kernel

theorem rangeBelow_eq : rangeBelow = .signed false plainBelow plainBelow_le_infinity := by
  decide +kernel

/-- **The numbers printed with an exponent**, by comparisons of numbers: codes are in the order of
the magnitudes. -/
theorem isScientific_iff {x : Number} : x.isScientific = true ↔ x.OutOfRange := by
  cases x with
  | nan =>
    constructor
    · intro h
      cases h
    · intro h
      cases h.finite
  | signed negative code hcode =>
    -- Each of the comparisons is one of codes.
    have hzero : Binary.eq (.signed negative code hcode : Number) (.zero false) = false
        ↔ code ≠ 0 := by
      cases negative <;> simp [Binary.eq, Binary.compare?, Binary.zero]
    have hfrom : Binary.lt (.signed false code hcode : Number) rangeFrom = true
        ↔ code < plainFrom := by
      rw [rangeFrom_eq, Binary.lt_signed_false_iff]
    have hbelow : Binary.le rangeBelow (.signed false code hcode) = true
        ↔ plainBelow ≤ code := by
      rw [rangeBelow_eq, Binary.le_signed_false_iff]
    have hfinite : Binary.isFinite (.signed negative code hcode : Number) = true
        ↔ code ≠ BinaryFormat.single.infinity := by
      simp [Binary.isFinite]
    have hscientific : isScientific (.signed negative code hcode) = true ↔
        code ≠ BinaryFormat.single.infinity ∧ code ≠ 0 ∧
          (code < plainFrom ∨ plainBelow ≤ code) := by
      simp [isScientific, and_assoc]
    rw [hscientific, ← hfinite, ← hzero, ← hfrom, ← hbelow]
    exact ⟨fun h => ⟨h.1, h.2.1, h.2.2⟩, fun h => ⟨h.finite, h.nonzero, h.outside⟩⟩

instance (x : Number) : Decidable x.OutOfRange := decidable_of_iff _ isScientific_iff

/-- In the range, a number is printed as it is reported. -/
theorem display_of_not_outOfRange {x : Number} (h : ¬ x.OutOfRange) : x.display = x.plain := by
  rw [← isScientific_iff] at h
  cases x with
  | nan => rfl
  | signed negative code hcode => exact if_neg h

/-- **Outside of the range, two notations of one decimal**, behind the same sign.  The decimal is
the shortest one that reads back to the number. -/
theorem exists_notations {x : Number} (h : x.OutOfRange) :
    ∃ (negative : Bool) (d : Decimal),
      x = .signed negative (d.code .single) (d.code_le_infinity .single) ∧
        x.plain = sign negative ++ String.ofList d.plain ∧
        x.display = sign negative ++ String.ofList d.scientific := by
  cases x with
  | nan => cases h.finite
  | signed negative code hcode =>
    have hcode' : (BinaryFormat.single.shortest code).code .single = code :=
      BinaryFormat.code_shortest .single hcode
    refine ⟨negative, BinaryFormat.single.shortest code, ?_, ?_, ?_⟩
    · simp only [hcode']
    · have hfinite : code ≠ BinaryFormat.single.infinity := by
        simpa [Binary.isFinite] using h.finite
      rw [plain, plainWith, if_neg hfinite]
    · exact if_pos (isScientific_iff.2 h)

/-- The two notations are different texts: only one of them has a letter. -/
theorem display_ne_plain {x : Number} (h : x.OutOfRange) : x.display ≠ x.plain := by
  obtain ⟨negative, d, -, hplain, hdisplay⟩ := exists_notations h
  rw [hplain, hdisplay]
  intro heq
  have hletter : 'e' ∈ d.scientific := by
    unfold Decimal.scientific
    exact List.mem_append_right _ List.mem_cons_self
  have htexts : d.scientific = d.plain := by
    simpa [← String.toList_inj, String.toList_append] using heq
  rcases Decimal.isDigit_or_eq_of_mem_plain (htexts ▸ hletter) with h | h
  · cases h
  · cases h

end Number

namespace Value

/-- **A value is reported as it is printed**, unless it is a number outside of the range. -/
theorem report_eq_display_iff {v : Value} :
    v.report = v.display ↔ ¬ ∃ x, v = .number x ∧ x.OutOfRange := by
  cases v with
  | number x =>
    by_cases hx : x.OutOfRange
    · have hne : x.plain ≠ x.display := (Number.display_ne_plain hx).symm
      simp [report, display, hne, hx]
    · have heq : x.plain = x.display := (Number.display_of_not_outOfRange hx).symm
      simp [report, display, heq, hx]
  | _ => simp [report]

end Value

end Scriptlet
