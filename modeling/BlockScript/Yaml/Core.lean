import BlockScript.Number.Numeral
import BlockScript.Text.Basic

namespace BlockScript.Yaml

/-! # What plain scalars stand for

A plain scalar may stand for something else than its text: null, a truth value or a number.
-/

def isNull (text : List Char) : Bool :=
  ["", "~", "null", "Null", "NULL"].contains (String.ofList text)

def isTruthValue (text : List Char) : Bool :=
  ["true", "True", "TRUE", "false", "False", "FALSE"].contains (String.ofList text)

/-- The text without a plus sign at its start. -/
def dropPlus : List Char → List Char
  | '+' :: rest => rest
  | text => text

/-- Whether the text is a row of digits, with or without a sign, that a zero begins without being
all of it. Such a row is no number. -/
def isPaddedDigits (text : List Char) : Bool :=
  match Numeral.sign text with
  | (_, '0' :: rest) => !rest.isEmpty && rest.all Char.isDigit
  | _ => false

/-- The number of digits behind `0x`, `0o` or `0b`. -/
def basedNumber? : List Char → Option Nat
  | '0' :: 'x' :: digits => numberIn? 16 digits
  | '0' :: 'o' :: digits => numberIn? 8 digits
  | '0' :: 'b' :: digits => numberIn? 2 digits
  | _ => none

/-- The whole number that the text writes, if it writes one with at most a plus sign. -/
def unsigned? (text : List Char) : Option Nat :=
  match basedNumber? (dropPlus text) with
  | some n => some n
  | none => if isPaddedDigits text then none else numberIn? 10 (dropPlus text)

/-- The largest whole number of 128 bits. -/
def maxInteger : Nat := 0xFFFFFFFFFFFFFFFFFFFFFFFFFFFFFFFF

/-- Whether the text is a whole number of up to 128 bits, with or without a sign. -/
def isInteger (text : List Char) : Bool :=
  (unsigned? text).any (· ≤ maxInteger) ||
    match text with
    | '-' :: digits =>
      digits.head? != some '+' && (unsigned? digits).any (· ≤ maxInteger / 2 + 1)
    | _ => false

/-- Whether the text is a decimal number that is not too large, or stands for a special number. -/
def isDecimal (text : List Char) : Bool :=
  let isSpecial := [".inf", ".Inf", ".INF", "+.inf", "+.Inf", "+.INF", "-.inf", "-.Inf", "-.INF",
    ".nan", ".NaN", ".NAN"].contains (String.ofList text)
  isSpecial || (Numeral.binary64? text).any Binary64.isFinite

/-- Whether a plain scalar with this text would not be read as the text itself, or might not. -/
def isAmbiguous (text : List Char) : Bool :=
  isNull text || isTruthValue text || isInteger text || isPaddedDigits text || isDecimal text

end BlockScript.Yaml
