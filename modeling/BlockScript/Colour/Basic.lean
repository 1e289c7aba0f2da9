import BlockScript.Fault
import BlockScript.Text.Basic

namespace BlockScript

/-! # Colours

A colour is four bytes. It is written as `#RRGGBB`, or `#RRGGBBAA` when it is not opaque, and read
from three, six or eight hexadecimal digits of either case. Scripts name colours by the words of a
fixed table, whatever the case of their letters; several words may stand for one colour.
-/

structure Colour where
  r : UInt8
  g : UInt8
  b : UInt8
  a : UInt8 := 255
deriving DecidableEq, Repr, Inhabited

namespace Colour

def black : Colour := ⟨0, 0, 0, 255⟩

def white : Colour := ⟨255, 255, 255, 255⟩

/-- The colour of an error placeholder. -/
def magenta : Colour := ⟨255, 0, 255, 255⟩

def transparent : Colour := ⟨0, 0, 0, 0⟩

/-- A byte as two digits. -/
def hexPair (byte : UInt8) : List Char := [hexDigit (byte.toNat / 16), hexDigit (byte.toNat % 16)]

/-- The byte with the two digits. -/
def byteOf (high low : Nat) : UInt8 := UInt8.ofNat (16 * high + low)

def chars (c : Colour) : List Char :=
  '#' :: (hexPair c.r ++ hexPair c.g ++ hexPair c.b ++ if c.a = 255 then [] else hexPair c.a)

/-- The written form. -/
def text (c : Colour) : String := String.ofList c.chars

/-- The colour with the given digits: three are doubled, and only eight give an alpha. -/
def ofDigits? : List Nat → Option Colour
  | [r, g, b] => some ⟨byteOf r r, byteOf g g, byteOf b b, 255⟩
  | [r, r', g, g', b, b'] => some ⟨byteOf r r', byteOf g g', byteOf b b', 255⟩
  | [r, r', g, g', b, b', a, a'] =>
    some ⟨byteOf r r', byteOf g g', byteOf b b', byteOf a a'⟩
  | _ => none

/-- Reads a colour. Blanks around it do not matter, and the `#` may be left out. -/
def parse? (cs : List Char) : Option Colour :=
  let trimmed := trim cs
  let body := match trimmed with
    | '#' :: digits => digits
    | _ => trimmed
  (body.mapM hexValue?).bind ofDigits?

/-- Reads a colour, or says which text is none. -/
def parse (text : String) : Except Fault Colour :=
  match parse? text.toList with
  | some colour => .ok colour
  | none => .error (.badColour (String.ofList (trim text.toList)))

end Colour

/-! ## Names -/

/-- Every colour name, in the order it is listed in. -/
def namedColours : List (String × Colour) := [
  ("red", ⟨255, 0, 0, 255⟩),
  ("orange", ⟨255, 165, 0, 255⟩),
  ("yellow", ⟨255, 255, 0, 255⟩),
  ("green", ⟨0, 128, 0, 255⟩),
  ("blue", ⟨0, 0, 255, 255⟩),
  ("violet", ⟨128, 0, 128, 255⟩),
  ("purple", ⟨128, 0, 128, 255⟩),
  ("magenta", ⟨255, 0, 255, 255⟩),
  ("pink", ⟨255, 0, 255, 255⟩),
  ("brown", ⟨165, 42, 42, 255⟩),
  ("gray", ⟨128, 128, 128, 255⟩),
  ("grey", ⟨128, 128, 128, 255⟩)]

namespace Colour

/-- The colour of a block that names none. -/
def default : Colour := black

/-- The colour that a name stands for. -/
def named? (name : List Char) : Option Colour :=
  (namedColours.find? fun entry => lowerAscii entry.1.toList == lowerAscii name).map (·.2)

/-- A line for each name: the name in eight columns and its colour. -/
def table : String :=
  String.join (namedColours.map fun (name, colour) =>
    name ++ "".pushn ' ' (8 - name.length) ++ " " ++ colour.text ++ "\n")

end Colour

end BlockScript
