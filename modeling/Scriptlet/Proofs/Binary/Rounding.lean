import Scriptlet.Decimal.Shortest

/-!
# Rounding to a format

Rounding a quotient of units takes a significand and a shift: the significand has one bit more than
a fraction, unless the shift is zero, and it may round up to the next power of two.  Either way the
value of the code is the significand on the grid of the shift.

From this follow the two facts that decide how a number is listed.  A whole number is rounded to a
whole number, as the grid is finer than the ones or a multiple of them.  And a magnitude becomes
infinite just if it comes within half a step of the power of two behind the largest finite one.

## Main definitions

* `BinaryFormat.shift`, `BinaryFormat.significand` — the two parts of a rounded quotient.
* `BinaryFormat.overflow` — the least magnitude that becomes infinite.

## Main results

* `BinaryFormat.units_nearest` — the value of a rounded quotient.
* `BinaryFormat.units_nearest_whole` — **whole numbers are rounded to whole numbers.**
* `BinaryFormat.nearest_eq_infinity_iff` — **which magnitudes become infinite.**
-/

namespace Scriptlet

/-! ### Quotients -/

theorem div_le_roundHalfEven (num den : Nat) : num / den ≤ roundHalfEven num den := by
  unfold roundHalfEven
  dsimp only
  split <;> omega

theorem roundHalfEven_le (num den : Nat) : roundHalfEven num den ≤ num / den + 1 := by
  unfold roundHalfEven
  dsimp only
  split <;> omega

/-- An even number is reached from one half below it. -/
theorem le_roundHalfEven_iff {k num den : Nat} (hk : k % 2 = 0) (hden : 0 < den) :
    k ≤ roundHalfEven num den ↔ 2 * (k * den) ≤ 2 * num + den := by
  obtain ⟨q, hq⟩ : ∃ q, num / den = q := ⟨_, rfl⟩
  have hnum : q * den + num % den = num := by
    rw [← hq, Nat.mul_comm]
    exact Nat.div_add_mod num den
  have hrest : num % den < den := Nat.mod_lt num hden
  have hreached : k ≤ q → k * den ≤ q * den := Nat.mul_le_mul_right den
  have hnext : k = q + 1 → k * den = q * den + den := by
    rintro rfl
    exact Nat.succ_mul q den
  have hbeyond : q + 2 ≤ k → q * den + 2 * den ≤ k * den := by
    intro h
    rw [← Nat.add_mul]
    exact Nat.mul_le_mul_right den h
  unfold roundHalfEven
  rw [hq]
  dsimp only
  split
  · rename_i h
    rw [Nat.compare_eq_lt] at h
    omega
  · rename_i h
    rw [Nat.compare_eq_gt] at h
    omega
  · -- a tie behind an odd quotient goes to the even number
    rename_i h
    rw [Nat.compare_eq_eq] at h
    omega

namespace BinaryFormat

variable (F : BinaryFormat)

/-! ### Significand and shift -/

/-- The bits that the integer part of a quotient has beyond a significand. -/
def shift (num den : Nat) : Nat := (num / den).log2 - F.fractionBits

/-- The quotient on the grid of its shift. -/
def significand (num den : Nat) : Nat := roundHalfEven num (den * 2 ^ F.shift num den)

theorem nearest_eq (num den : Nat) :
    F.nearest num den
      = min F.infinity (F.significand num den + F.shift num den * 2 ^ F.fractionBits) := rfl

theorem div_lt_shifted (num den : Nat) :
    num / den < 2 * 2 ^ F.fractionBits * 2 ^ F.shift num den := by
  have hlog : (num / den).log2 + 1 ≤ F.fractionBits + 1 + F.shift num den := by
    unfold shift
    omega
  rw [← Nat.pow_succ', ← Nat.pow_add]
  exact Nat.lt_of_lt_of_le Nat.lt_log2_self (Nat.pow_le_pow_right (by omega) hlog)

theorem shifted_le_div {num den : Nat} (h : F.shift num den ≠ 0) :
    2 ^ F.fractionBits * 2 ^ F.shift num den ≤ num / den := by
  have hne : num / den ≠ 0 := by
    intro hzero
    apply h
    rw [shift, hzero, Nat.log2_zero, Nat.zero_sub]
  have hlog : F.fractionBits + F.shift num den = (num / den).log2 := by
    unfold shift at h ⊢
    omega
  rw [← Nat.pow_add, hlog]
  exact Nat.log2_self_le hne

theorem significand_le (num den : Nat) : F.significand num den ≤ 2 * 2 ^ F.fractionBits := by
  have hlt : num / (den * 2 ^ F.shift num den) < 2 * 2 ^ F.fractionBits := by
    rw [← Nat.div_div_eq_div_mul, Nat.div_lt_iff_lt_mul (Nat.two_pow_pos _)]
    exact F.div_lt_shifted num den
  have hle : F.significand num den ≤ num / (den * 2 ^ F.shift num den) + 1 := roundHalfEven_le _ _
  omega

theorem le_significand {num den : Nat} (h : F.shift num den ≠ 0) :
    2 ^ F.fractionBits ≤ F.significand num den := by
  have hle : 2 ^ F.fractionBits ≤ num / (den * 2 ^ F.shift num den) := by
    rw [← Nat.div_div_eq_div_mul, Nat.le_div_iff_mul_le (Nat.two_pow_pos _)]
    exact F.shifted_le_div h
  exact Nat.le_trans hle (div_le_roundHalfEven _ _)

/-- The value of a code made of a significand and a shift. -/
theorem units_add_mul {significand shift : Nat} (hle : significand ≤ 2 * 2 ^ F.fractionBits)
    (hone : shift ≠ 0 → 2 ^ F.fractionBits ≤ significand) :
    F.units (significand + shift * 2 ^ F.fractionBits) = significand * 2 ^ shift := by
  have hp : 0 < 2 ^ F.fractionBits := Nat.two_pow_pos _
  unfold units
  generalize 2 ^ F.fractionBits = p at *
  by_cases hlt : significand < p
  · obtain rfl : shift = 0 := Decidable.byContradiction fun h => by
      have hle := hone h
      omega
    simp [hlt]
  · have hge : ¬ significand + shift * p < p := by omega
    rw [if_neg hge]
    by_cases htop : significand = 2 * p
    · -- the significand has rounded up, so the code is the next power of two
      have hcode : significand + shift * p = p * (shift + 2) := by grind
      have hpow : 2 ^ (shift + 2 - 1) = 2 * 2 ^ shift := Nat.pow_succ'
      rw [hcode, Nat.mul_mod_right, Nat.mul_div_cancel_left _ hp, hpow, htop]
      grind
    · obtain ⟨fraction, rfl⟩ : ∃ n, significand = p + n := ⟨significand - p, by omega⟩
      have hcode : p + fraction + shift * p = p * (shift + 1) + fraction := by grind
      have hfraction : fraction < p := by omega
      rw [hcode, Nat.mul_add_mod, Nat.mod_eq_of_lt hfraction, Nat.mul_add_div hp,
        Nat.div_eq_of_lt hfraction, Nat.add_zero, Nat.add_sub_cancel]

/-- **The value of a rounded quotient**, if it is finite, is the significand on its grid. -/
theorem units_nearest {num den : Nat} (h : F.nearest num den ≠ F.infinity) :
    F.units (F.nearest num den) = F.significand num den * 2 ^ F.shift num den := by
  have hcode : F.nearest num den
      = F.significand num den + F.shift num den * 2 ^ F.fractionBits := by
    rw [nearest_eq] at h ⊢
    omega
  rw [hcode]
  exact F.units_add_mul (F.significand_le num den) F.le_significand

/-! ### Whole numbers -/

/-- **Whole numbers are rounded to whole numbers.** -/
theorem units_nearest_whole {n : Nat} (h : F.nearest (n * 2 ^ F.quantum) 1 ≠ F.infinity) :
    F.units (F.nearest (n * 2 ^ F.quantum) 1) % 2 ^ F.quantum = 0 := by
  rw [F.units_nearest h]
  generalize hshift : F.shift (n * 2 ^ F.quantum) 1 = s
  by_cases hs : s ≤ F.quantum
  · -- the grid has all whole numbers, so nothing is rounded
    have hpow : 2 ^ F.quantum = 2 ^ (F.quantum - s) * 2 ^ s := by
      rw [← Nat.pow_add, Nat.sub_add_cancel hs]
    have hsignificand : F.significand (n * 2 ^ F.quantum) 1 = n * 2 ^ (F.quantum - s) := by
      rw [significand, hshift, Nat.one_mul, hpow, ← Nat.mul_assoc]
      exact roundHalfEven_mul_self _ _ (Nat.two_pow_pos s)
    rw [hsignificand, Nat.mul_assoc, ← hpow]
    exact Nat.mul_mod_left n _
  · exact Nat.mod_eq_zero_of_dvd
      (Nat.dvd_mul_left_of_dvd (Nat.pow_dvd_pow 2 (Nat.le_of_not_le hs)) _)

/-! ### Overflow -/

/-- The least magnitude that becomes infinite, in units: half a step below the power of two behind
the largest finite magnitude. -/
def overflow : Nat :=
  (2 ^ (F.fractionBits + 2) - 1) * 2 ^ (2 ^ F.exponentBits - 4 : Nat)

section

variable {F} {num den e : Nat}

theorem overflow_eq (he : 2 ^ F.exponentBits = e + 4) :
    F.overflow = (4 * 2 ^ F.fractionBits - 1) * 2 ^ e := by
  have hquarter : 2 ^ (F.fractionBits + 2) = 4 * 2 ^ F.fractionBits := Nat.pow_add' 2 _ 2
  rw [overflow, hquarter, he, Nat.add_sub_cancel]

theorem infinity_eq (he : 2 ^ F.exponentBits = e + 4) :
    F.infinity = e * 2 ^ F.fractionBits + 3 * 2 ^ F.fractionBits := by
  rw [infinity, he, ← Nat.add_mul]
  rfl

/-- Below the last grid no quotient becomes infinite. -/
theorem lt_overflow_of_shift_le (hden : 0 < den) (he : 2 ^ F.exponentBits = e + 4)
    (h : F.shift num den ≤ e) :
    F.nearest num den ≠ F.infinity ∧ num < F.overflow * den := by
  have hp : 0 < 2 ^ F.fractionBits := Nat.two_pow_pos _
  constructor
  · have hle : F.significand num den ≤ 2 * 2 ^ F.fractionBits := F.significand_le num den
    have hshift : F.shift num den * 2 ^ F.fractionBits ≤ e * 2 ^ F.fractionBits :=
      Nat.mul_le_mul_right _ h
    rw [nearest_eq, infinity_eq he]
    omega
  · rw [overflow_eq he, ← Nat.div_lt_iff_lt_mul hden]
    exact Nat.lt_of_lt_of_le (F.div_lt_shifted num den)
      (Nat.mul_le_mul (by omega) (Nat.pow_le_pow_right (by omega) h))

/-- Behind the last grid every quotient does. -/
theorem overflow_le_of_lt_shift (hden : 0 < den) (he : 2 ^ F.exponentBits = e + 4)
    (h : e + 2 ≤ F.shift num den) :
    F.nearest num den = F.infinity ∧ F.overflow * den ≤ num := by
  have hne : F.shift num den ≠ 0 := by omega
  constructor
  · have hone : 2 ^ F.fractionBits ≤ F.significand num den := F.le_significand hne
    have hshift : (e + 2) * 2 ^ F.fractionBits ≤ F.shift num den * 2 ^ F.fractionBits :=
      Nat.mul_le_mul_right _ h
    rw [Nat.add_mul] at hshift
    rw [nearest_eq, infinity_eq he]
    omega
  · rw [overflow_eq he, ← Nat.le_div_iff_mul_le hden]
    -- the significand has its leading one, and the shift is two beyond `e`
    calc (4 * 2 ^ F.fractionBits - 1) * 2 ^ e
        ≤ 4 * 2 ^ F.fractionBits * 2 ^ e := Nat.mul_le_mul_right _ (Nat.sub_le _ _)
      _ = 2 ^ F.fractionBits * 2 ^ (e + 2) := by
        rw [Nat.pow_add' 2 e 2, Nat.mul_comm 4, Nat.mul_assoc]
      _ ≤ 2 ^ F.fractionBits * 2 ^ F.shift num den :=
        Nat.mul_le_mul_left _ (Nat.pow_le_pow_right (by omega) h)
      _ ≤ num / den := F.shifted_le_div hne

/-- On the last grid a quotient becomes infinite if it rounds up to the next power of two. -/
theorem nearest_eq_infinity_iff_of_shift_eq (hden : 0 < den) (he : 2 ^ F.exponentBits = e + 4)
    (h : F.shift num den = e + 1) :
    F.nearest num den = F.infinity ↔ F.overflow * den ≤ num := by
  have hreached : 2 * 2 ^ F.fractionBits ≤ F.significand num den
      ↔ 2 * (2 * 2 ^ F.fractionBits * (den * 2 ^ F.shift num den))
        ≤ 2 * num + den * 2 ^ F.shift num den :=
    le_roundHalfEven_iff (Nat.mul_mod_right 2 _) (Nat.mul_pos hden (Nat.two_pow_pos _))
  have hpow : 2 ^ (e + 1) = 2 * 2 ^ e := Nat.pow_succ'
  have hshift : (e + 1) * 2 ^ F.fractionBits = e * 2 ^ F.fractionBits + 2 ^ F.fractionBits :=
    Nat.succ_mul e _
  rw [nearest_eq, infinity_eq he, overflow_eq he, h, hshift]
  rw [h, hpow] at hreached
  generalize F.significand num den = g at *
  generalize 2 ^ F.fractionBits = p at *
  -- both sides count in quarters of the step behind the end
  have hgrid : 2 * p * (den * (2 * 2 ^ e)) = 4 * (p * (2 ^ e * den)) := by grind
  have hlast : (4 * p - 1) * 2 ^ e * den = 4 * (p * (2 ^ e * den)) - 2 ^ e * den := by
    rw [Nat.mul_assoc, Nat.sub_mul, Nat.one_mul, Nat.mul_assoc]
  have hstep : den * (2 * 2 ^ e) = 2 * (2 ^ e * den) := by grind
  rw [hgrid, hstep] at hreached
  rw [hlast]
  omega

end

/-- **Which magnitudes become infinite**: those that are not below half a step from the end. -/
theorem nearest_eq_infinity_iff {num den : Nat} (hbits : 2 ≤ F.exponentBits) (hden : 0 < den) :
    F.nearest num den = F.infinity ↔ F.overflow * den ≤ num := by
  have hfour : 2 ^ 2 ≤ 2 ^ F.exponentBits := Nat.pow_le_pow_right (by omega) hbits
  obtain ⟨e, he⟩ : ∃ e, 2 ^ F.exponentBits = e + 4 := ⟨2 ^ F.exponentBits - 4, by omega⟩
  rcases Nat.lt_trichotomy (F.shift num den) (e + 1) with hshift | hshift | hshift
  · obtain ⟨hfinite, hlt⟩ := lt_overflow_of_shift_le hden he (Nat.le_of_lt_succ hshift)
    exact iff_of_false hfinite (Nat.not_le_of_lt hlt)
  · exact nearest_eq_infinity_iff_of_shift_eq hden he hshift
  · obtain ⟨hinfinite, hle⟩ := overflow_le_of_lt_shift hden he hshift
    exact iff_of_true hinfinite hle

end BinaryFormat

end Scriptlet
