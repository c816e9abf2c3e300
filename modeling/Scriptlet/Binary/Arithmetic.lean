import Scriptlet.Binary

/-!
# Arithmetic of binary values

Each operation is the exact result rounded once.  Sums of finite values are exact integers of
units, products and quotients are exact quotients of units; the special values follow their usual
rules: opposite infinities have no sum, zero and infinity no product, two zeros or two infinities
no quotient.

## Main definitions

* `Binary.neg`, `Binary.add`, `Binary.sub`, `Binary.mul`, `Binary.div` — the operations.
* `Binary.compare?` — the order of values: zeros of both signs are equal, and a value that is not
  a number compares with nothing.
-/

namespace Scriptlet.Binary

variable {F : BinaryFormat}

/-- The exact value of a sign and a finite code, in units. -/
def signedUnits (F : BinaryFormat) (negative : Bool) (code : Nat) : Int :=
  if negative then -(F.units code : Int) else F.units code

/-- The opposite value: only the sign changes, also that of a zero. -/
def neg : Binary F → Binary F
  | nan => nan
  | signed negative code h => signed (!negative) code h

/-- The sum, rounded once.  A sum of zero is negative only if both operands are. -/
def add : Binary F → Binary F → Binary F
  | signed s a ha, signed t b hb =>
    if a = F.infinity then
      if b = F.infinity ∧ s ≠ t then nan else signed s a ha
    else if b = F.infinity then signed t b hb
    else
      let sum := signedUnits F s a + signedUnits F t b
      if sum = 0 then zero (s && t) else round (sum < 0) sum.natAbs 1
  | _, _ => nan

/-- The difference is the sum with the opposite. -/
def sub (x y : Binary F) : Binary F := x.add y.neg

/-- The product, rounded once. -/
def mul : Binary F → Binary F → Binary F
  | signed s a _, signed t b _ =>
    if a = F.infinity ∨ b = F.infinity then
      if a = 0 ∨ b = 0 then nan else infinite (s != t)
    else round (s != t) (F.units a * F.units b) (2 ^ F.quantum)
  | _, _ => nan

/-- The quotient, rounded once.  A finite value other than zero over zero is infinite. -/
def div : Binary F → Binary F → Binary F
  | signed s a _, signed t b _ =>
    if a = F.infinity then
      if b = F.infinity then nan else infinite (s != t)
    else if b = F.infinity then zero (s != t)
    else if b = 0 then
      if a = 0 then nan else infinite (s != t)
    else round (s != t) (F.units a * 2 ^ F.quantum) (F.units b)
  | _, _ => nan

/-- How two values compare.  Codes are in the order of the magnitudes, so signed codes are in the
order of the values. -/
def compare? : Binary F → Binary F → Option Ordering
  | signed s a _, signed t b _ =>
    some (compare (if s then -(a : Int) else a) (if t then -(b : Int) else b))
  | _, _ => none

/-- Equal values; a value that is not a number equals nothing. -/
def eq (x y : Binary F) : Bool := x.compare? y == some .eq

/-- Strictly less. -/
def lt (x y : Binary F) : Bool := x.compare? y == some .lt

/-- Less or equal. -/
def le (x y : Binary F) : Bool := x.lt y || x.eq y

@[simp] theorem neg_nan : neg (nan : Binary F) = nan := rfl

@[simp] theorem neg_neg (x : Binary F) : x.neg.neg = x := by
  cases x <;> simp [neg]

end Scriptlet.Binary
