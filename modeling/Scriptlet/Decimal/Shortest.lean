import Scriptlet.Decimal

/-!
# The shortest decimal of a binary value

A finite binary magnitude is written with the fewest digits that read back to it.  Its exact
decimal expansion is finite; cutting that expansion after `n` digits, down or up, gives the two
decimals of `n` digits around the value.  The first `n` at which one of them reads back wins, of
two the nearer one, and of two equally near ones the upper one.  The whole expansion reads back,
so the search always ends with an answer.

## Main definitions

* `BinaryFormat.exact` — the exact decimal expansion of a code.
* `Decimal.cuts`, `Decimal.cut?` — the expansion cut after a number of digits, if that reads back.
* `BinaryFormat.shortest` — the shortest decimal of a code.
* `BinaryFormat.whole?` — the value of a code, if it is a whole number.

## Main results

* `BinaryFormat.code_exact`, `BinaryFormat.code_shortest` — both decimals read back to the code.
-/

namespace Scriptlet

/-- The exact value of a finite code as a decimal: one unit is `5 ^ quantum * 10 ^ (-quantum)`. -/
def BinaryFormat.exact (F : BinaryFormat) (code : Nat) : Decimal :=
  ⟨F.units code * 5 ^ F.quantum, -(F.quantum : Int)⟩

/-- The two decimals that `d` becomes by cutting it after so many digits, down and up, the nearer
one first; of two equally near ones that is the upper one. -/
def Decimal.cuts (d : Decimal) (count : Nat) : List Decimal :=
  let dropped := (digits d.coefficient).length - count
  let lower : Decimal := ⟨d.coefficient / 10 ^ dropped, d.exponent + dropped⟩
  let upper : Decimal := ⟨d.coefficient / 10 ^ dropped + 1, d.exponent + dropped⟩
  if 2 * (d.coefficient % 10 ^ dropped) < 10 ^ dropped then [lower, upper] else [upper, lower]

/-- The nearer cut that has the code `code`, if one has it. -/
def Decimal.cut? (F : BinaryFormat) (code : Nat) (d : Decimal) (count : Nat) : Option Decimal :=
  (d.cuts count).find? fun e => e.code F == code

namespace BinaryFormat

/-- The decimal with the fewest digits that reads back to a finite code, the nearest one of
them, without trailing zeros. -/
def shortest (F : BinaryFormat) (code : Nat) : Decimal :=
  let d := F.exact code
  let counts := List.range' 1 (Decimal.digits d.coefficient).length
  let found := (counts.findSome? (d.cut? F code)).getD d
  Decimal.strip found.coefficient found.exponent

/-- The value of a finite code, if it is a whole number. -/
def whole? (F : BinaryFormat) (code : Nat) : Option Nat :=
  if F.units code % 2 ^ F.quantum = 0 then some (F.units code / 2 ^ F.quantum) else none

/-- The exact expansion of a code reads back to it. -/
theorem code_exact (F : BinaryFormat) {code : Nat} (h : code ≤ F.infinity) :
    (F.exact code).code F = code := by
  -- one unit is a power of five over the power of ten that the exponent stands for
  have hten : 5 ^ F.quantum * 2 ^ F.quantum = 10 ^ F.quantum := by rw [← Nat.mul_pow]
  unfold exact Decimal.code
  split
  · rename_i e he
    have hzero : F.quantum = 0 ∧ e = 0 := by simp at he; omega
    simpa [hzero.1, hzero.2] using F.nearest_units h
  · rename_i e he
    have hq : e + 1 = F.quantum := by simp at he; omega
    have hmul := F.nearest_mul (10 ^ F.quantum) (F.units code) 1 (Nat.pow_pos (by omega))
    rw [Nat.mul_one, F.nearest_units h] at hmul
    simp only [hq]
    rw [Nat.mul_assoc, hten, Nat.mul_comm, hmul]

/-- **The shortest decimal reads back**: its code is the code it was made for. -/
theorem code_shortest (F : BinaryFormat) {code : Nat} (h : code ≤ F.infinity) :
    (F.shortest code).code F = code := by
  unfold shortest
  dsimp only
  rw [Decimal.code_strip]
  cases hf : (List.range' 1 _).findSome? ((F.exact code).cut? F code) with
  | none => exact F.code_exact h
  | some e =>
    obtain ⟨count, -, hcut⟩ := List.exists_of_findSome?_eq_some hf
    simpa using List.find?_some hcut

end BinaryFormat

end Scriptlet
