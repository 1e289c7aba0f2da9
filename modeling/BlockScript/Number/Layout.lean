import BlockScript.Number.Shortest

namespace BlockScript

/-! # Number texts

How the shortest digits are laid out. A layout says which numbers are written without an exponent
and how the rest looks; `plain`, `explicit` and `json` are the three layouts in use.
-/

/-- The decisions of a number format. -/
structure NumberLayout where
  /-- Whether a number whose leading digit counts `10 ^ e` is written without an exponent. -/
  positional : Int → Bool
  /-- Whether a whole number ends in `.0` when it has no exponent. -/
  wholeWithPoint : Bool
  /-- What stands before a positive exponent. -/
  exponentPlus : String
  tie : TieRule
  notANumber : String
  infinity : String
  negativeInfinity : String

namespace NumberLayout

/-- All digits are written out. -/
def plain : NumberLayout where
  positional _ := true
  wholeWithPoint := false
  exponentPlus := ""
  tie := .up
  notANumber := "NaN"
  infinity := "inf"
  negativeInfinity := "-inf"

/-- Every number shows that it is not a whole-number literal: by a point or by an exponent. -/
def explicit : NumberLayout where
  positional e := decide (-5 < e) && decide (e < 16)
  wholeWithPoint := true
  exponentPlus := ""
  tie := .up
  notANumber := "NaN"
  infinity := "inf"
  negativeInfinity := "-inf"

/-- JSON has no word for NaN and the infinities, so they become `null`. -/
def json : NumberLayout where
  positional e := decide (-6 < e) && decide (e < 16)
  wholeWithPoint := true
  exponentPlus := "+"
  tie := .even
  notANumber := "null"
  infinity := "null"
  negativeInfinity := "null"

def zeros (n : Nat) : List Char := List.replicate n '0'

/-- The digits of `d` with a decimal point where it belongs. -/
def positionalText (layout : NumberLayout) (digits : List Char) (exponent : Int) : List Char :=
  match exponent with
  | .ofNat k => digits ++ zeros k ++ (if layout.wholeWithPoint then ['.', '0'] else [])
  | .negSucc k =>
    let places := k + 1
    if places < digits.length then
      digits.take (digits.length - places) ++ '.' :: digits.drop (digits.length - places)
    else '0' :: '.' :: zeros (places - digits.length) ++ digits

/-- One digit, the others after a point, and the exponent of the first. -/
def exponentText (layout : NumberLayout) (digits : List Char) (leading : Int) : List Char :=
  let mantissa := match digits with
    | [] => []
    | [c] => [c]
    | c :: cs => c :: '.' :: cs
  let exponent := match leading with
    | .ofNat k => layout.exponentPlus ++ toString k
    | .negSucc k => "-" ++ toString (k + 1)
  mantissa ++ 'e' :: exponent.toList

/-- The text of a decimal without trailing zeros. -/
def decimalText (layout : NumberLayout) (d : Decimal) : List Char :=
  let digits := (toString d.digits).toList
  let leading := d.exponent + (digits.length - 1 : Nat)
  if layout.positional leading then layout.positionalText digits d.exponent
  else layout.exponentText digits leading

/-- The text of a number. -/
def text (layout : NumberLayout) : Binary64 → String
  | .nan => layout.notANumber
  | .infinite negative => if negative then layout.negativeInfinity else layout.infinity
  | .finite negative m =>
    let body := layout.decimalText (m.shortest layout.tie)
    String.ofList (if negative then '-' :: body else body)

end NumberLayout

end BlockScript
