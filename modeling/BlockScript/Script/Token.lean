import BlockScript.Colour.Basic
import BlockScript.Number.Numeral

namespace BlockScript

/-! # Tokens

A token is `end`, `space-` with a size, or `block` with properties, and asks for one command. The
text before the first point is the keyword; `end` ignores what follows it. A property is a segment
with a name, a dash and a value. Its name, and a colour word, may be written in either case; errors
quote the text as written.
-/

/-! ## Commands -/

/-- The fields of a block command. Tokens give a positive finite size and one repetition or more. -/
structure BlockSpec where
  size : Binary64 := 1
  colour : Colour := .default
  repetitions : Nat := 1
deriving DecidableEq, Inhabited

inductive Command where
  /-- Draw equal blocks side by side. -/
  | block (spec : BlockSpec)
  /-- Leave a gap. -/
  | space (size : Binary64)
  /-- Start a new row. -/
  | newline
  /-- The token was not understood. -/
  | mistake (message : String)
deriving DecidableEq, Inhabited

namespace Command

def isMistake : Command → Bool
  | mistake _ => true
  | _ => false

/-- The message of a token that was not understood. -/
def mistake? : Command → Option String
  | mistake message => some message
  | _ => none

end Command

/-! ## Errors -/

/-- Why a token is not understood. Each error quotes the part of the token it is about. -/
inductive TokenError where
  | invalidPropertySyntax (segment : String)
  | invalidSizeValue (value : String)
  | invalidRepeatValue (value : String)
  | unknownColour (name : String)
  | unknownProperty (name : String)
  | unknownCommand (keyword : String)
  | invalidSpaceValue (value : String)
deriving DecidableEq, Repr

def TokenError.message : TokenError → String
  | invalidPropertySyntax segment => "invalid property syntax: " ++ segment
  | invalidSizeValue value => "invalid size value: " ++ value
  | invalidRepeatValue value => "invalid repeat value: " ++ value
  | unknownColour name => "unknown color: " ++ name
  | unknownProperty name => "unknown property: " ++ name
  | unknownCommand keyword => "unknown command: " ++ keyword
  | invalidSpaceValue value => "invalid space value: " ++ value

/-! ## Properties -/

inductive Property where
  | size (value : Binary64)
  | colour (value : Colour)
  | repetitions (value : Nat)
deriving DecidableEq

/-- The largest repeat. -/
def maxRepeat : Nat := 0xFFFFFFFF

namespace Property

/-- Writes the property into a spec, over any earlier value. -/
def apply (spec : BlockSpec) : Property → BlockSpec
  | size value => { spec with size := value }
  | colour value => { spec with colour := value }
  | repetitions value => { spec with repetitions := value }

def parseSize (value : List Char) : Except TokenError Property :=
  match Numeral.size? value with
  | some x => .ok (size x)
  | none => .error (.invalidSizeValue (String.ofList value))

def parseColour (value : List Char) : Except TokenError Property :=
  match Colour.named? value with
  | some c => .ok (colour c)
  | none => .error (.unknownColour (String.ofList value))

def parseRepeat (value : List Char) : Except TokenError Property :=
  match (Numeral.natUpTo? maxRepeat value).filter (0 < ·) with
  | some n => .ok (repetitions n)
  | none => .error (.invalidRepeatValue (String.ofList value))

/-- Reads one segment. It splits at its only dash, so a signed value is a syntax error. -/
def parse (segment : List Char) : Except TokenError Property :=
  match segment.splitOn '-' with
  | [name, value] =>
    let lowered := lowerAscii name
    if lowered = "size".toList then parseSize value
    else if lowered = "color".toList then parseColour value
    else if lowered = "repeat".toList then parseRepeat value
    else .error (.unknownProperty (String.ofList name))
  | _ => .error (.invalidPropertySyntax (String.ofList segment))

end Property

/-! ## Reading tokens -/

namespace Token

/-- Applies the properties in turn, up to the first segment that is none. -/
def applySegments (spec : BlockSpec) : List (List Char) → Except TokenError BlockSpec
  | [] => .ok spec
  | segment :: rest =>
    match Property.parse segment with
    | .ok property => applySegments (property.apply spec) rest
    | .error e => .error e

/-- Reads a token by its keyword. -/
def parseKeyword (token : List Char) : Except TokenError Command :=
  match token.splitOn '.' with
  | [] => .error (.unknownCommand "")
  | keyword :: segments =>
    if keyword = "end".toList then .ok .newline
    else if keyword = "block".toList then
      match applySegments {} segments with
      | .ok spec => .ok (.block spec)
      | .error e => .error e
    else .error (.unknownCommand (String.ofList keyword))

/-- Reads a token without blanks at its ends. The space form has exactly one dash, after `space`;
anything else goes by its keyword. -/
def parseTrimmed (token : List Char) : Except TokenError Command :=
  match token.splitOn '-' with
  | [word, value] =>
    if word = "space".toList then
      match Numeral.size? value with
      | some size => .ok (.space size)
      | none => .error (.invalidSpaceValue (String.ofList value))
    else parseKeyword token
  | _ => parseKeyword token

/-- What a token asks for; nothing when it is blank. -/
def parse (token : List Char) : Option Command :=
  match trim token with
  | [] => none
  | trimmed =>
    match parseTrimmed trimmed with
    | .ok command => some command
    | .error e => some (.mistake e.message)

end Token

end BlockScript
