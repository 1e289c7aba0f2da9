import BlockScript.Number.Decimal

namespace BlockScript

/-! # Numerals

The texts that denote numbers. A numeral is an optional sign followed by `inf`, `infinity` or `nan`
in any case, or by decimal digits with an optional point among them and an optional exponent. At
least one digit stands beside the point, and at least one in the exponent. Whole numbers are an
optional `+` and digits.
-/

namespace Numeral

/-- The number that a row of decimal digits denotes. -/
def digitsValue (digits : List Char) : Nat :=
  digits.foldl (fun n c => 10 * n + (c.toNat - '0'.toNat)) 0

/-- Reads digits that take up all of `cs`; there is at least one. -/
def digits? (cs : List Char) : Option Nat :=
  if cs.isEmpty || !cs.all Char.isDigit then none else some (digitsValue cs)

/-- Reads an exponent: an optional sign and digits, to the end. -/
def exponent? : List Char → Option Int
  | '-' :: cs => (digits? cs).map fun n => -(n : Int)
  | '+' :: cs => (digits? cs).map Int.ofNat
  | cs => (digits? cs).map Int.ofNat

/-- Splits off a fraction: the digits after a leading point, and what follows them. -/
def fraction : List Char → List Char × List Char
  | '.' :: cs => cs.span Char.isDigit
  | cs => ([], cs)

/-- Reads an unsigned decimal numeral. -/
def decimal? (cs : List Char) : Option Decimal :=
  let (whole, rest) := cs.span Char.isDigit
  let (part, rest) := fraction rest
  if whole.isEmpty && part.isEmpty then none
  else
    let scaled (exponent : Int) : Decimal :=
      ⟨digitsValue (whole ++ part), exponent - part.length⟩
    match rest with
    | [] => some (scaled 0)
    | c :: rest =>
      if c == 'e' || c == 'E' then (exponent? rest).map scaled else none

/-- Splits off a leading sign; true for minus. -/
def sign : List Char → Bool × List Char
  | '-' :: cs => (true, cs)
  | '+' :: cs => (false, cs)
  | cs => (false, cs)

/-- Reads a signed numeral to the nearest binary64 number. -/
def binary64? (cs : List Char) : Option Binary64 :=
  let (negative, body) := sign cs
  let word := String.ofList (body.map Char.toLower)
  if word == "nan" then some .nan
  else if word == "inf" || word == "infinity" then some (.infinite negative)
  else (decimal? body).map (Binary64.ofDecimal negative)

/-- Reads a whole number up to `limit`: an optional plus sign and digits. -/
def natUpTo? (limit : Nat) (cs : List Char) : Option Nat :=
  let body := match cs with
    | '+' :: rest => rest
    | _ => cs
  (digits? body).filter (· ≤ limit)

/-- Reads a size that a script may ask for: finite and greater than zero. -/
def size? (cs : List Char) : Option Binary64 := (binary64? cs).filter Binary64.isPositive

end Numeral

end BlockScript
