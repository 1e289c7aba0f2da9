import BlockScript.Number.Binary64

namespace BlockScript

/-! # Decimal numbers

A decimal is a count of powers of ten; `Binary64.ofDecimal` gives the binary64 number nearest to it.
Decimals far outside the range of binary64 are answered from their size alone, so that an exponent
of many digits costs nothing.
-/

/-- The number `digits * 10 ^ exponent`. -/
structure Decimal where
  digits : Nat
  exponent : Int
deriving DecidableEq, Repr

namespace Decimal

/-- The decimal as an exact quotient of units: numerator and denominator. -/
def units (d : Decimal) : Nat × Nat :=
  match d.exponent with
  | .ofNat k => (d.digits * Nat.pow 10 k * Binary64.oneUnits, 1)
  | .negSucc k => (d.digits * Binary64.oneUnits, Nat.pow 10 (k + 1))

/-- At least 2^1024, by size alone: `10 ^ k` is at least `2 ^ (3 * k)`. -/
def isHuge (d : Decimal) : Bool :=
  match d.exponent with
  | .ofNat k => d.digits != 0 && decide (1024 ≤ d.digits.log2 + 3 * k)
  | .negSucc _ => false

/-- Less than half a unit, by size alone. -/
def isTiny (d : Decimal) : Bool :=
  match d.exponent with
  | .ofNat _ => d.digits == 0
  | .negSucc k => decide (d.digits.log2 + 1 + 1076 ≤ 3 * (k + 1))

/-- The magnitude nearest to the decimal, or nothing when that is 2^1024 or more. -/
def magnitude? (d : Decimal) : Option Magnitude :=
  if d.isHuge then none
  else if d.isTiny then some .zero
  else Magnitude.round? d.units.1 d.units.2

end Decimal

/-- The binary64 number nearest to a decimal, with the given sign. -/
def Binary64.ofDecimal (negative : Bool) (d : Decimal) : Binary64 :=
  match d.magnitude? with
  | some magnitude => finite negative magnitude
  | none => infinite negative

end BlockScript
