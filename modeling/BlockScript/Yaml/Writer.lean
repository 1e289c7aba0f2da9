import BlockScript.Yaml.Core
import BlockScript.Yaml.Scalar

namespace BlockScript.Yaml

/-! # Writing scalars

A text is written plain if it can be read back that way, else between single quotes, and between
double quotes if it has characters that need an escape. A text of several lines is written as a
literal block. Lines are never folded.
-/

/-- Whether the character may stand in a scalar without an escape. -/
def isPrintable (c : Char) : Bool :=
  let n := c.toNat
  n == 0x0A || (0x20 ≤ n && n ≤ 0x7E) ||
    (0xA0 ≤ n && n != 0xFEFF && n != 0xFFFE && n != 0xFFFF)

/-- Whether somewhere a character of the first kind is followed by one of the second. -/
def hasPair (first second : Char → Bool) : List Char → Bool
  | a :: b :: rest => (first a && second b) || hasPair first second (b :: rest)
  | _ => false

def isSpace (c : Char) : Bool := c == ' '

/-- Whether the text begins like something else than a plain scalar. -/
def startsOtherwise : List Char → Bool
  | '-' :: '-' :: '-' :: _ => true
  | '.' :: '.' :: '.' :: _ => true
  | c :: rest =>
    if c == '-' || c == '?' || c == ':' then endsWord rest else isIndicator c
  | [] => false

/-- Whether a plain scalar would end before one of the characters, the first of which follows
`before`. -/
def endsInside : Char → List Char → Bool
  | _, [] => false
  | before, c :: rest =>
    (c == ':' && endsWord rest) || (c == '#' && (isSpacing before || isBreak before)) ||
      endsInside c rest

/-- Whether the text can be a plain scalar. -/
def allowsPlain (text : List Char) : Bool :=
  match text with
  | [] => true
  | c :: rest =>
    c != ' ' && text.getLast? != some ' ' && !text.any isBreak && text.all isPrintable &&
      !startsOtherwise text && !endsInside c rest

/-- Whether the text can stand between single quotes. -/
def allowsSingleQuotes (text : List Char) : Bool :=
  text.all isPrintable && !hasPair isBreak isSpace text && !hasPair isSpace isBreak text

/-- Whether the text can be a literal block. -/
def allowsLiteral (text : List Char) : Bool :=
  text.all isPrintable && !hasPair isSpace isBreak text && text.getLast? != some ' '

/-- The style that a text is written in. -/
def styleOf (text : List Char) : ScalarStyle :=
  if text.contains '\n' then if allowsLiteral text then .literal else .doubleQuoted
  else if isAmbiguous text || !allowsPlain text then
    if allowsSingleQuotes text then .singleQuoted else .doubleQuoted
  else .plain

/-- The columns that the lines of a scalar are indented by. -/
def indentation : List Char := [' ', ' ']

/-- The inside of single quotes; `atStart` tells that a line break is just before. -/
def singleQuotedChars : Bool → List Char → List Char
  | atStart, [] => if atStart then indentation else []
  | atStart, c :: rest =>
    if isBreak c then c :: singleQuotedChars true rest
    else
      (if atStart then indentation else []) ++
        (if c == '\'' then ['\'', '\''] else [c]) ++ singleQuotedChars false rest

/-- The letter that stands for a character behind a backslash. -/
def letterFor? (c : Char) : Option Char :=
  (escapeLetters.find? fun e => e.2 == c && e.1 != '\t').map (·.1)

/-- A character between double quotes. -/
def doubleQuotedChar (c : Char) : List Char :=
  if isPrintable c && !isBreak c && c != '"' && c != '\\' then [c]
  else
    match letterFor? c with
    | some letter => ['\\', letter]
    | none =>
      if c.toNat < 0x100 then ['\\', 'x'] ++ hexPadded 2 c.toNat
      else if c.toNat < 0x10000 then ['\\', 'u'] ++ hexPadded 4 c.toNat
      else ['\\', 'U'] ++ hexPadded 8 c.toNat

/-- The lines of a literal block. -/
def literalChars : Bool → List Char → List Char
  | _, [] => []
  | atStart, c :: rest =>
    if isBreak c then c :: literalChars true rest
    else (if atStart then indentation else []) ++ c :: literalChars false rest

/-- What stands behind `|`: how far the lines are indented, if the first one does not show it, and
what becomes of the breaks at the end. -/
def literalHeader (text : List Char) : List Char :=
  (match text with
    | c :: _ => if c == ' ' || isBreak c then ['2'] else []
    | [] => []) ++
  match text.reverse with
  | [] => ['-']
  | [last] => if isBreak last then ['+'] else ['-']
  | last :: before :: _ =>
    if !isBreak last then ['-'] else if isBreak before then ['+'] else []

/-- The scalar for a text, to the end of its line. -/
def scalarLine (text : List Char) : List Char :=
  match styleOf text with
  | .literal | .folded =>
    let lines := ['|'] ++ literalHeader text ++ ['\n'] ++ literalChars true text
    if text.getLast?.any isBreak then lines else lines ++ ['\n']
  | .doubleQuoted => ['"'] ++ text.flatMap doubleQuotedChar ++ ['"', '\n']
  | .singleQuoted => ['\''] ++ singleQuotedChars false text ++ ['\'', '\n']
  | .plain => text ++ ['\n']

/-- A list of texts as the value of a key. -/
def listLines (texts : List (List Char)) : List Char :=
  match texts with
  | [] => [' ', '[', ']', '\n']
  | _ => '\n' :: texts.flatMap fun text => ['-', ' '] ++ scalarLine text

end BlockScript.Yaml
