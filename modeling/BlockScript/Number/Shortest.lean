import BlockScript.Number.Decimal

namespace BlockScript

/-! # Shortest decimals

The decimal with the fewest digits that reads back as a given magnitude and, of those, the nearest
to it. The candidates with `n` digits are the two neighbours of the exact value on the grid of that
many digits: if any number of the grid reads back, one of them does.
-/

/-- Which of two equally near decimals is chosen. -/
inductive TieRule where
  | up
  | even
deriving DecidableEq, Repr

namespace Magnitude

/-- Whether the decimal reads back as this magnitude. -/
def ReadsBack (m : Magnitude) (d : Decimal) : Prop := d.magnitude? = some m

instance (m : Magnitude) (d : Decimal) : Decidable (m.ReadsBack d) :=
  inferInstanceAs (Decidable (_ = _))

/-- This magnitude in units of `10 ^ exponent`, as an exact quotient. -/
def inPowersOfTen (m : Magnitude) : Int → Nat × Nat
  | .ofNat k => (m.units, Nat.pow 10 k * Binary64.oneUnits)
  | .negSucc k => (m.units * Nat.pow 10 (k + 1), Binary64.oneUnits)

/-- The power of ten of the leading digit, found from the binary logarithm: `0.30103` is just above
the decimal logarithm of 2, and the guess is at most one too low. -/
def leadingExponent (m : Magnitude) : Int :=
  let guess := ((m.units.log2 : Int) - 1074) * 30103 / 100000
  let (num, den) := m.inPowersOfTen (guess + 1)
  if den ≤ num then guess + 1 else guess

/-- The nearer of the two neighbours on the grid of `10 ^ exponent` that read back. -/
def neighbour? (tie : TieRule) (m : Magnitude) (exponent : Int) : Option Decimal :=
  let (num, den) := m.inPowersOfTen exponent
  let floor := num / den
  let twice := 2 * (num % den)
  let upFirst := match tie with
    | .up => decide (den ≤ twice)
    | .even => decide (den < twice) || (decide (den = twice) && floor % 2 == 1)
  let below : Decimal := ⟨floor, exponent⟩
  let above : Decimal := ⟨floor + 1, exponent⟩
  let candidates := if upFirst then [above, below] else [below, above]
  candidates.find? fun d => decide (m.ReadsBack d)

/-- The first grid with a decimal that reads back, from `exponent` downwards. The exact value, a
decimal with 1074 places, stands at the end of the search. -/
def search (tie : TieRule) (m : Magnitude) : Nat → Int → Decimal
  | 0, _ => ⟨m.units * Nat.pow 5 1074, -1074⟩
  | fuel + 1, exponent => (neighbour? tie m exponent).getD (search tie m fuel (exponent - 1))

end Magnitude

/-- The same number without the zeros that end its digits; `fuel` bounds their count. -/
def Decimal.dropZeros : Nat → Decimal → Decimal
  | 0, d => d
  | fuel + 1, d =>
    if d.digits % 10 = 0 then dropZeros fuel ⟨d.digits / 10, d.exponent + 1⟩ else d

/-- The shortest decimal that reads back as `m`. Seventeen digits always suffice. -/
def Magnitude.shortest (tie : TieRule) (m : Magnitude) : Decimal :=
  if m.units = 0 then ⟨0, 0⟩
  else (m.search tie 17 m.leadingExponent).dropZeros 17

end BlockScript
