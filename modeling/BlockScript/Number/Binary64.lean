import BlockScript.Number.Rounding

namespace BlockScript

/-! # Binary64 numbers

Sizes and positions are IEEE binary64 numbers, held exactly: a finite number is a sign and a
representable count of units of 2^-1074. Every operation computes the exact result in units and
rounds it once, so addition and scaling are the correctly rounded ones.
-/

/-- The size of a finite number, as a count of units that binary64 holds exactly. -/
structure Magnitude where
  units : Nat
  representable : Representable units

@[ext] theorem Magnitude.ext {a b : Magnitude} (h : a.units = b.units) : a = b := by
  cases a
  cases b
  simp_all

instance : DecidableEq Magnitude := fun a b =>
  decidable_of_iff (a.units = b.units) ⟨Magnitude.ext, fun h => h ▸ rfl⟩

namespace Magnitude

/-- The magnitude nearest to `num / den` units, or nothing when it is 2^1024 or more. -/
def round? (num den : Nat) : Option Magnitude :=
  let units := roundUnits num den
  if h : units < overflowUnits then some ⟨units, spacing_dvd_roundUnits num den, h⟩ else none

def zero : Magnitude := ⟨0, Nat.dvd_zero _, overflowUnits_pos⟩

end Magnitude

/-- A binary64 number. All NaNs are one. -/
inductive Binary64 where
  | nan
  | infinite (negative : Bool)
  | finite (negative : Bool) (magnitude : Magnitude)
deriving DecidableEq

namespace Binary64

/-- The count of units in one. -/
def oneUnits : Nat := Nat.pow 2 1074

/-- The number nearest to `num / den` units, with the given sign. -/
def ofRatio (negative : Bool) (num den : Nat) : Binary64 :=
  match Magnitude.round? num den with
  | some magnitude => finite negative magnitude
  | none => infinite negative

/-- The number nearest to `n`. -/
def ofNat (n : Nat) : Binary64 := ofRatio false (n * oneUnits) 1

instance : OfNat Binary64 n := ⟨ofNat n⟩

instance : Inhabited Binary64 := ⟨0⟩

def negativeZero : Binary64 := finite true .zero

/-- Position on the number line, in units; the infinities lie just past the largest finite numbers.
`nan` has no place, so the comparisons below set it apart. -/
def rank : Binary64 → Int
  | nan => 0
  | infinite negative => if negative then -overflowUnits else overflowUnits
  | finite negative magnitude => if negative then -magnitude.units else magnitude.units

def isNaN : Binary64 → Bool
  | nan => true
  | _ => false

def isFinite : Binary64 → Bool
  | finite .. => true
  | _ => false

/-- Strict order; false when either side is NaN. -/
def lt (x y : Binary64) : Bool := !x.isNaN && !y.isNaN && decide (x.rank < y.rank)

/-- Numeric equality: the two zeros are equal, and NaN equals nothing. -/
def same (x y : Binary64) : Bool := !x.isNaN && !y.isNaN && decide (x.rank = y.rank)

/-- Sum, rounded to nearest even. An exact cancellation gives the positive zero. -/
def add : Binary64 → Binary64 → Binary64
  | nan, _ => nan
  | _, nan => nan
  | infinite a, infinite b => if a = b then infinite a else nan
  | infinite a, finite .. => infinite a
  | finite .., infinite b => infinite b
  | x@(finite a _), y@(finite b _) =>
    let sum := x.rank + y.rank
    if sum = 0 then finite (a && b) .zero else ofRatio (decide (sum < 0)) sum.natAbs 1

instance : Add Binary64 := ⟨add⟩

/-- Product with a natural number, rounded to nearest even. -/
def scale : Binary64 → Nat → Binary64
  | nan, _ => nan
  | infinite negative, n => if n = 0 then nan else infinite negative
  | finite negative magnitude, n => ofRatio negative (magnitude.units * n) 1

/-- The larger of two numbers. NaN is ignored beside a number, and the first of two equals wins. -/
def max : Binary64 → Binary64 → Binary64
  | nan, y => y
  | x, nan => x
  | x, y => if x.lt y then y else x

instance : Max Binary64 := ⟨max⟩

/-- A size that a script may ask for. -/
def isPositive : Binary64 → Bool
  | finite false magnitude => decide (0 < magnitude.units)
  | _ => false

/-- The least natural number not below a finite number; nothing for NaN and the infinities. -/
def ceilNat? : Binary64 → Option Nat
  | finite false magnitude => some ((magnitude.units + (oneUnits - 1)) / oneUnits)
  | finite true _ => some 0
  | _ => none

/-- Largest result of `roundNat`: a 64-bit count. -/
def countLimit : Nat := 0xFFFFFFFFFFFFFFFF

/-- The nearest natural number, a half going up. Negative numbers and NaN give zero, and numbers
past `countLimit` give `countLimit`. -/
def roundNat : Binary64 → Nat
  | finite false magnitude => min ((magnitude.units + oneUnits / 2) / oneUnits) countLimit
  | infinite false => countLimit
  | _ => 0

end Binary64

end BlockScript
