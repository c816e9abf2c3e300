import Scriptlet.Binary

/-!
# Decimal numbers

A decimal is a natural number times a power of ten.  This module says which binary value is
nearest to a decimal, and lays a decimal out as text in two notations: *plain*, all digits with
zeros up to the point, and *scientific*, one digit before the point and a signed exponent.

## Main definitions

* `Decimal` — a coefficient and an exponent of ten.
* `Decimal.code` — the code of the magnitude of a binary format nearest to a decimal.
* `Decimal.strip` — the same number without trailing zeros in the coefficient.
* `Decimal.plain`, `Decimal.scientific` — the two notations.
-/

namespace Scriptlet

/-- The number `coefficient * 10 ^ exponent`. -/
structure Decimal where
  /-- The digits, as one natural number. -/
  coefficient : Nat
  /-- The power of ten that scales them. -/
  exponent : Int
  deriving DecidableEq, Repr

namespace Decimal

/-- The digits of a natural number, most significant first; zero has one. -/
def digits (n : Nat) : List Char := Nat.toDigits 10 n

/-- Digits with zeros put in front of them up to the given width. -/
def padded (width : Nat) (ds : List Char) : List Char :=
  List.replicate (width - ds.length) '0' ++ ds

/-- The code of the magnitude of `F` nearest to a decimal. -/
def code (F : BinaryFormat) (d : Decimal) : Nat :=
  match d.exponent with
  | .ofNat e => F.nearest (d.coefficient * 10 ^ e * 2 ^ F.quantum) 1
  | .negSucc e => F.nearest (d.coefficient * 2 ^ F.quantum) (10 ^ (e + 1))

theorem code_le_infinity (F : BinaryFormat) (d : Decimal) : d.code F ≤ F.infinity := by
  unfold code
  split <;> exact F.nearest_le_infinity _ _

/-- Moves the trailing zeros of a coefficient into the exponent; zero has the exponent zero. -/
def strip (coefficient : Nat) (exponent : Int) : Decimal :=
  if h : coefficient = 0 then ⟨0, 0⟩
  else if coefficient % 10 = 0 then strip (coefficient / 10) (exponent + 1)
  else ⟨coefficient, exponent⟩
termination_by coefficient
decreasing_by omega

theorem code_zero (F : BinaryFormat) (e : Int) : (⟨0, e⟩ : Decimal).code F = 0 := by
  unfold code
  split
  · simpa using F.nearest_zero 1 (by omega)
  · simpa using F.nearest_zero _ (Nat.pow_pos (by omega))

/-- A factor of ten may stand in the coefficient or in the exponent. -/
theorem code_ten_mul (F : BinaryFormat) (c : Nat) (e : Int) :
    (⟨10 * c, e⟩ : Decimal).code F = (⟨c, e + 1⟩ : Decimal).code F := by
  unfold code
  match e with
  | .ofNat e =>
    have hexp : Int.ofNat e + 1 = .ofNat (e + 1) := rfl
    simp only [hexp, Nat.pow_succ]
    congr 1
    grind
  -- the exponent becomes zero, so ten leaves the denominator
  | .negSucc 0 =>
    have hexp : Int.negSucc 0 + 1 = .ofNat 0 := rfl
    have hmul := F.nearest_mul 10 (c * 2 ^ F.quantum) 1 (by omega)
    simpa [hexp, Nat.mul_assoc] using hmul
  | .negSucc (e + 1) =>
    have hexp : Int.negSucc (e + 1) + 1 = .negSucc e := rfl
    simp only [hexp]
    rw [Nat.mul_assoc, Nat.pow_succ 10 (e + 1), Nat.mul_comm _ 10]
    exact F.nearest_mul 10 _ _ (by omega)

theorem code_strip (F : BinaryFormat) (c : Nat) (e : Int) :
    (strip c e).code F = (⟨c, e⟩ : Decimal).code F := by
  fun_induction strip c e with
  | case1 => rw [code_zero, code_zero]
  | case2 c e _ h ih => rw [ih, ← code_ten_mul, Nat.mul_div_cancel' (Nat.dvd_of_mod_eq_zero h)]
  | case3 => rfl

/-- Plain notation.  A whole number has its zeros written out; otherwise as many digits as the
exponent says stand behind the point, and at least one before it. -/
def plain (d : Decimal) : List Char :=
  match d.exponent with
  | .ofNat e => digits d.coefficient ++ List.replicate e '0'
  | .negSucc e =>
    let ds := padded (e + 2) (digits d.coefficient)
    ds.take (ds.length - (e + 1)) ++ '.' :: ds.drop (ds.length - (e + 1))

theorem isDigit_of_mem_digits {n : Nat} {c : Char} (h : c ∈ digits n) : c.isDigit = true :=
  Nat.isDigit_of_mem_toDigits (by decide) (by decide) h

theorem isDigit_of_mem_padded {width n : Nat} {c : Char} (h : c ∈ padded width (digits n)) :
    c.isDigit = true := by
  rcases List.mem_append.1 h with h | h
  · rw [List.eq_of_mem_replicate h]
    decide
  · exact isDigit_of_mem_digits h

/-- Plain notation is made of digits and a point. -/
theorem isDigit_or_eq_of_mem_plain {d : Decimal} {c : Char} (h : c ∈ d.plain) :
    c.isDigit = true ∨ c = '.' := by
  unfold plain at h
  split at h
  · rcases List.mem_append.1 h with h | h
    · exact .inl (isDigit_of_mem_digits h)
    · rw [List.eq_of_mem_replicate h]
      exact .inl (by decide)
  · rcases List.mem_append.1 h with h | h
    · exact .inl (isDigit_of_mem_padded (List.mem_of_mem_take h))
    · rcases List.mem_cons.1 h with rfl | h
      · exact .inr rfl
      · exact .inl (isDigit_of_mem_padded (List.mem_of_mem_drop h))

/-- Scientific notation.  The point stands after the first digit, if others follow; the exponent
has a sign and at least two digits. -/
def scientific (d : Decimal) : List Char :=
  let ds := digits d.coefficient
  let exponent := d.exponent + (ds.length - 1 : Nat)
  let mantissa := if ds.length ≤ 1 then ds else ds.take 1 ++ '.' :: ds.drop 1
  mantissa ++ 'e' :: (if exponent < 0 then '-' else '+') :: padded 2 (digits exponent.natAbs)

end Decimal

end Scriptlet
