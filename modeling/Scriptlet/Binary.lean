import Scriptlet.Core

/-!
# Binary floating-point formats

A binary format has a sign, an exponent field and a fraction field.  The magnitudes of a format,
read as integers (exponent field above fraction field), are numbered in increasing order: the
*code* `0` is zero, the codes below `2 ^ fractionBits` are the subnormal magnitudes, and the code
`infinity` closes the list.  Every finite magnitude is a whole number of units, one unit being the
least positive magnitude `2 ^ (-quantum)`; so values are exact natural numbers, and rounding is
one integer division.

## Main definitions

* `BinaryFormat`, `BinaryFormat.single`, `BinaryFormat.double` — the formats.
* `BinaryFormat.units` — the exact value of a code, in units.
* `BinaryFormat.nearest` — the code nearest to a quotient of units, ties to the even code.
* `Binary` — the values of a format: a sign and a code, or not a number.
* `Binary.ofBits`, `Binary.toBits` — values and their bit patterns.

## Main results

* `BinaryFormat.nearest_units` — the code nearest to the value of a code is that code.
-/

namespace Scriptlet

/-- The quotient `num / den` rounded to the nearest integer, a tie going to the even one. -/
def roundHalfEven (num den : Nat) : Nat :=
  let q := num / den
  match compare (2 * (num % den)) den with
  | .lt => q
  | .gt => q + 1
  | .eq => q + q % 2

theorem roundHalfEven_mul_self (n den : Nat) (h : 0 < den) :
    roundHalfEven (n * den) den = n := by
  unfold roundHalfEven
  rw [Nat.mul_mod_left, Nat.mul_div_cancel _ h, Nat.mul_zero, Nat.compare_eq_lt.2 h]

/-- Rounding depends on the quotient only, not on how it is written. -/
theorem roundHalfEven_mul (k num den : Nat) (hk : 0 < k) :
    roundHalfEven (k * num) (k * den) = roundHalfEven num den := by
  have hc : compare (2 * (k * num % (k * den))) (k * den) = compare (2 * (num % den)) den := by
    rw [Nat.mul_mod_mul_left, Nat.mul_left_comm]
    rcases Nat.lt_trichotomy (2 * (num % den)) den with h | h | h
    · rw [Nat.compare_eq_lt.2 h, Nat.compare_eq_lt.2 (Nat.mul_lt_mul_of_pos_left h hk)]
    · rw [h]
      simp
    · rw [Nat.compare_eq_gt.2 h, Nat.compare_eq_gt.2 (Nat.mul_lt_mul_of_pos_left h hk)]
  unfold roundHalfEven
  rw [hc, Nat.mul_div_mul_left _ _ hk]

/-- A binary floating-point format, given by the widths of its two unsigned fields. -/
structure BinaryFormat where
  /-- The width of the fraction field. -/
  fractionBits : Nat
  /-- The width of the exponent field. -/
  exponentBits : Nat
  deriving DecidableEq, Repr

namespace BinaryFormat

/-- The 32-bit format, in which programs compute. -/
def single : BinaryFormat := ⟨23, 8⟩

/-- The 64-bit format, in which listings show number literals. -/
def double : BinaryFormat := ⟨52, 11⟩

/-- The code of infinity: an exponent field of all ones over an empty fraction. -/
def infinity (F : BinaryFormat) : Nat :=
  (2 ^ F.exponentBits - 1) * 2 ^ F.fractionBits

/-- The least positive magnitude is `2 ^ (-F.quantum)`. -/
def quantum (F : BinaryFormat) : Nat :=
  2 ^ (F.exponentBits - 1) - 2 + F.fractionBits

/-- The exact value of a finite code, counted in least positive magnitudes.  A subnormal code is
its own value; above, the fraction has a leading one and the exponent field scales it. -/
def units (F : BinaryFormat) (code : Nat) : Nat :=
  if code < 2 ^ F.fractionBits then code
  else (2 ^ F.fractionBits + code % 2 ^ F.fractionBits) * 2 ^ (code / 2 ^ F.fractionBits - 1)

/-- The code nearest to `num / den` units, a tie going to the even code.  Where the integer part
has `shift` bits more than a significand, the grid has a step of `2 ^ shift` units; the codes of
that grid start at `shift` times the size of the fraction field.  A code beyond the largest finite
one is infinity. -/
def nearest (F : BinaryFormat) (num den : Nat) : Nat :=
  let shift := (num / den).log2 - F.fractionBits
  min F.infinity (roundHalfEven num (den * 2 ^ shift) + shift * 2 ^ F.fractionBits)

theorem nearest_le_infinity (F : BinaryFormat) (num den : Nat) :
    F.nearest num den ≤ F.infinity :=
  Nat.min_le_left _ _

theorem nearest_mul (F : BinaryFormat) (k num den : Nat) (hk : 0 < k) :
    F.nearest (k * num) (k * den) = F.nearest num den := by
  unfold nearest
  rw [Nat.mul_div_mul_left _ _ hk]
  simp only [Nat.mul_assoc, roundHalfEven_mul _ _ _ hk]

theorem nearest_zero (F : BinaryFormat) (den : Nat) (h : 0 < den) : F.nearest 0 den = 0 := by
  have hr := roundHalfEven_mul_self 0 den h
  rw [Nat.zero_mul] at hr
  simp [nearest, hr]

/-- **Codes are exact**: the code nearest to the value of a code is that code. -/
theorem nearest_units (F : BinaryFormat) {code : Nat} (h : code ≤ F.infinity) :
    F.nearest (F.units code) 1 = code := by
  unfold nearest units
  rw [Nat.div_one]
  split
  · -- a subnormal code stands for itself
    rename_i hlt
    have hshift : code.log2 - F.fractionBits = 0 := by
      by_cases h0 : code = 0
      · simp [h0]
      · have := (Nat.log2_lt h0).2 hlt
        omega
    have hr := roundHalfEven_mul_self code 1 (by omega)
    rw [Nat.mul_one] at hr
    simp only [hshift, Nat.pow_zero, Nat.mul_one, Nat.zero_mul, Nat.add_zero, hr]
    omega
  · -- above, the leading one of the significand tells the exponent field
    rename_i hge
    have hp : 0 < 2 ^ F.fractionBits := Nat.two_pow_pos _
    have he : 1 ≤ code / 2 ^ F.fractionBits := (Nat.one_le_div_iff hp).2 (by omega)
    have hs := Nat.mod_lt code hp
    have hdm := Nat.div_add_mod code (2 ^ F.fractionBits)
    generalize code / 2 ^ F.fractionBits = e at *
    generalize code % 2 ^ F.fractionBits = s at *
    obtain ⟨e, rfl⟩ : ∃ d, e = d + 1 := ⟨e - 1, by omega⟩
    have hlog : ((2 ^ F.fractionBits + s) * 2 ^ e).log2 = F.fractionBits + e := by
      rw [Nat.log2_eq_iff (Nat.ne_of_gt (Nat.mul_pos (by omega) (Nat.two_pow_pos _)))]
      constructor
      · rw [Nat.pow_add]
        exact Nat.mul_le_mul_right _ (by omega)
      · rw [show F.fractionBits + e + 1 = (F.fractionBits + 1) + e by omega, Nat.pow_add]
        exact Nat.mul_lt_mul_of_pos_right (by rw [Nat.pow_succ]; omega) (Nat.two_pow_pos _)
    simp only [Nat.add_sub_cancel, hlog, Nat.add_sub_cancel_left]
    rw [Nat.one_mul, roundHalfEven_mul_self _ _ (Nat.two_pow_pos _)]
    rw [Nat.mul_add, Nat.mul_one, Nat.mul_comm] at hdm
    omega

end BinaryFormat

/-- A value of the format `F`.  All values that are not numbers are one. -/
inductive Binary (F : BinaryFormat)
  /-- Not a number. -/
  | nan
  /-- A sign and a magnitude, up to infinity. -/
  | signed (negative : Bool) (code : Nat) (code_le : code ≤ F.infinity)
  deriving DecidableEq

namespace Binary

variable {F : BinaryFormat}

instance : Inhabited (Binary F) := ⟨nan⟩

/-- Zero with the given sign. -/
def zero (negative : Bool) : Binary F := signed negative 0 (Nat.zero_le _)

/-- Infinity with the given sign. -/
def infinite (negative : Bool) : Binary F := signed negative F.infinity (Nat.le_refl _)

/-- The value nearest to `num / den` units with the given sign. -/
def round (negative : Bool) (num den : Nat) : Binary F :=
  signed negative (F.nearest num den) (F.nearest_le_infinity num den)

/-- The value with the given bit pattern: sign, exponent field and fraction field from the top.
A magnitude above infinity is not a number. -/
def ofBits (bits : Nat) : Binary F :=
  let size := 2 ^ (F.exponentBits + F.fractionBits)
  if h : bits % size ≤ F.infinity then signed (bits / size % 2 == 1) (bits % size) h else nan

/-- The bit pattern of a value, `none` where many patterns stand for it. -/
def toBits : Binary F → Option Nat
  | nan => none
  | signed negative code _ =>
    some (if negative then 2 ^ (F.exponentBits + F.fractionBits) + code else code)

/-- A value that is neither infinite nor not a number. -/
def isFinite : Binary F → Bool
  | nan => false
  | signed _ code _ => code != F.infinity

end Binary

end Scriptlet
