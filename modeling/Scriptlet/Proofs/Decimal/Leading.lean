import Scriptlet.Proofs.Decimal.Reading

/-!
# The leading power of the shortest decimal

The digits of a shortest decimal are the first ones of the exact expansion, perhaps with the last of
them rounded up.  Rounding up may carry into a new first digit.  So the power of ten of the first
digit is the one of the exact expansion or the next, which puts it within the range of the binary
format.

## Main results

* `Decimal.leading_strip`, `Decimal.leading_of_mem_cuts` — zeros and digits taken off the end.
* `BinaryFormat.leading_shortest` — **the first digit stands where that of the exact value does, or
  one power above.**
* `BinaryFormat.natAbs_leading_shortest_le` — the exponents of 32-bit values that are not zero.
-/

namespace Scriptlet

namespace Decimal

/-! ### How many digits a number has -/

theorem length_digits_le_iff {k n : Nat} (h : 0 < k) : (digits n).length ≤ k ↔ n < 10 ^ k :=
  Nat.length_toDigits_le_iff (by omega) h

/-- A number with `k + 1` digits, the first of them no zero. -/
theorem length_digits_eq_iff {k n : Nat} (hn : n ≠ 0) :
    (digits n).length = k + 1 ↔ 10 ^ k ≤ n ∧ n < 10 ^ (k + 1) := by
  have hpos : 0 < (digits n).length := Nat.length_toDigits_pos
  have hupper : (digits n).length ≤ k + 1 ↔ n < 10 ^ (k + 1) := length_digits_le_iff (by omega)
  have hlower : (digits n).length ≤ k ↔ n < 10 ^ k := by
    cases k with
    | zero => omega
    | succ k => exact length_digits_le_iff (by omega)
  omega

theorem exists_length_digits (n : Nat) : ∃ k, (digits n).length = k + 1 := by
  have hpos : 0 < (digits n).length := Nat.length_toDigits_pos
  exact ⟨_, (Nat.succ_pred_eq_of_pos hpos).symm⟩

/-! ### Taking digits off the end -/

theorem leading_strip {c : Nat} (e : Int) (h : c ≠ 0) : (strip c e).leading = leading ⟨c, e⟩ := by
  fun_induction strip c e with
  | case1 => exact absurd rfl h
  | case2 c e _ hten ih =>
    obtain ⟨k, hk⟩ := exists_length_digits (c / 10)
    have hbounds := (length_digits_eq_iff (by omega)).1 hk
    have hc : (digits c).length = k + 2 := by
      rw [length_digits_eq_iff h]
      omega
    rw [ih (by omega), leading, leading, hk, hc]
    dsimp only
    omega
  | case3 => rfl

/-- A cut keeps the digits in front, and may add one to the last of them. -/
theorem exists_of_mem_cuts {d e : Decimal} {count : Nat} (h : e ∈ d.cuts count) :
    ∃ carry ≤ 1, e = ⟨d.coefficient / 10 ^ ((digits d.coefficient).length - count) + carry,
      d.exponent + ((digits d.coefficient).length - count : Nat)⟩ := by
  unfold cuts at h
  dsimp only at h
  split at h
  · rcases List.mem_cons.1 h with rfl | h
    · exact ⟨0, by omega, rfl⟩
    · exact ⟨1, by omega, List.mem_singleton.1 h⟩
  · rcases List.mem_cons.1 h with rfl | h
    · exact ⟨1, by omega, rfl⟩
    · exact ⟨0, by omega, List.mem_singleton.1 h⟩

/-- A cut leaves the first digit where it is, or rounds up to the next power of ten. -/
theorem leading_of_mem_cuts {d e : Decimal} {count : Nat} (hd : d.coefficient ≠ 0)
    (hpos : 0 < count) (hcount : count ≤ (digits d.coefficient).length) (h : e ∈ d.cuts count) :
    e.coefficient ≠ 0 ∧ d.leading ≤ e.leading ∧ e.leading ≤ d.leading + 1 := by
  obtain ⟨carry, hcarry, rfl⟩ := exists_of_mem_cuts h
  obtain ⟨kept, rfl⟩ : ∃ kept, count = kept + 1 := ⟨count - 1, by omega⟩
  obtain ⟨dropped, hdropped⟩ : ∃ n, (digits d.coefficient).length - (kept + 1) = n := ⟨_, rfl⟩
  have hlength : (digits d.coefficient).length = kept + dropped + 1 := by omega
  obtain ⟨hle, hlt⟩ := (length_digits_eq_iff hd).1 hlength
  -- the kept digits are a number of that many digits
  have hkept : 10 ^ kept ≤ d.coefficient / 10 ^ dropped := by
    rw [Nat.le_div_iff_mul_le (Nat.pow_pos (by omega)), ← Nat.pow_add]
    exact hle
  have hkept' : d.coefficient / 10 ^ dropped < 10 ^ (kept + 1) := by
    rw [Nat.div_lt_iff_lt_mul (Nat.pow_pos (by omega)), ← Nat.pow_add]
    rwa [Nat.add_right_comm] at hlt
  have hne : d.coefficient / 10 ^ dropped + carry ≠ 0 := by
    have hpow : 0 < 10 ^ kept := Nat.pow_pos (by omega)
    omega
  have hcut : (digits (d.coefficient / 10 ^ dropped + carry)).length = kept + 1 ∨
      (digits (d.coefficient / 10 ^ dropped + carry)).length = kept + 1 + 1 := by
    rw [length_digits_eq_iff hne, length_digits_eq_iff hne]
    have hpow : 10 ^ (kept + 1 + 1) = 10 * 10 ^ (kept + 1) := Nat.pow_succ'
    omega
  rw [hdropped, leading, leading, hlength]
  dsimp only
  omega

end Decimal

namespace BinaryFormat

variable (F : BinaryFormat) {code : Nat}

theorem units_ne_zero (h : code ≠ 0) : F.units code ≠ 0 := by
  unfold units
  split
  · exact h
  · have hone : 0 < 2 ^ F.fractionBits := Nat.two_pow_pos _
    exact Nat.mul_ne_zero (by omega) (Nat.ne_of_gt (Nat.two_pow_pos _))

/-- **The first digit of a shortest decimal** stands where that of the exact value stands, or one
power of ten above. -/
theorem leading_shortest (h : code ≠ 0) :
    (F.exact code).leading ≤ (F.shortest code).leading ∧
      (F.shortest code).leading ≤ (F.exact code).leading + 1 := by
  have hexact : (F.exact code).coefficient ≠ 0 :=
    Nat.mul_ne_zero (F.units_ne_zero h) (Nat.ne_of_gt (Nat.pow_pos (by omega)))
  unfold shortest
  dsimp only
  -- either a cut was found, or the exact expansion is taken
  cases hfound : (List.range' 1 _).findSome? ((F.exact code).cut? F code) with
  | none =>
    rw [Option.getD_none, Decimal.leading_strip _ hexact]
    exact ⟨Int.le_refl _, Int.le_add_one (Int.le_refl _)⟩
  | some d =>
    obtain ⟨count, hcount, hcut⟩ := List.exists_of_findSome?_eq_some hfound
    rw [List.mem_range'_1] at hcount
    obtain ⟨hd, hleading⟩ := Decimal.leading_of_mem_cuts hexact (by omega) (by omega)
      (List.mem_of_find?_eq_some hcut)
    rw [Option.getD_some, Decimal.leading_strip _ hd]
    exact hleading

theorem units_single_lt (h : code ≤ single.infinity) :
    single.units code < 2 ^ (24 : Nat) * 2 ^ (254 : Nat) := by
  have hinfinity : single.infinity = 255 * 2 ^ 23 := rfl
  have hexponent : code / 2 ^ 23 - 1 ≤ 254 := by omega
  unfold units
  show (if code < 2 ^ 23 then code else (2 ^ 23 + code % 2 ^ 23) * 2 ^ (code / 2 ^ 23 - 1)) < _
  split
  · omega
  · calc (2 ^ 23 + code % 2 ^ 23) * 2 ^ (code / 2 ^ 23 - 1)
        ≤ (2 ^ 23 + code % 2 ^ 23) * 2 ^ 254 :=
          Nat.mul_le_mul_left _ (Nat.pow_le_pow_right (by omega) hexponent)
      _ < 2 ^ 24 * 2 ^ 254 := Nat.mul_lt_mul_of_pos_right (by omega) (Nat.two_pow_pos _)

/-- The exponents of 32-bit values are small: an exact value has at most 188 digits, the last of
them at the power `-149`. -/
theorem natAbs_leading_shortest_le (h : code ≠ 0) (hcode : code ≤ single.infinity) :
    (single.shortest code).leading.natAbs ≤ 149 := by
  obtain ⟨hlower, hupper⟩ := single.leading_shortest h
  have hdigits : (Decimal.digits (single.exact code).coefficient).length ≤ 188 := by
    rw [Decimal.length_digits_le_iff (by omega)]
    calc single.units code * 5 ^ 149
        < 2 ^ 24 * 2 ^ 254 * 5 ^ 149 :=
          Nat.mul_lt_mul_of_pos_right (units_single_lt hcode) (by decide)
      _ ≤ 10 ^ 188 := by decide +kernel
  have hexact : (single.exact code).leading
      = -149 + ((Decimal.digits (single.exact code).coefficient).length - 1 : Nat) := rfl
  omega

end BinaryFormat

end Scriptlet
