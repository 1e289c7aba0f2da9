import BlockScript.Script.Token

namespace BlockScript

/-! # Scripts

A script is read line by line. A line whose first visible character is `#` is a comment; every
other line is cut at its spaces, and each piece that is not blank is a token. Commands stand in the
order of their tokens.
-/

/-! ## Locations -/

/-- The largest line or column number. -/
def maxPosition : Nat := 0xFFFFFFFF

/-- Where a token begins: its byte offset in the script, and its line and column counted from one.
Columns count characters. Lines and columns stop at `maxPosition`. -/
structure Location where
  offset : Nat
  line : Nat
  column : Nat
deriving DecidableEq, Repr

namespace Location

/-- The first column of the line with the given index, counted from zero. -/
def lineStart (offset index : Nat) : Location := ⟨offset, min (index + 1) maxPosition, 1⟩

/-- The location just after `cs`, which stays on the line. -/
def advance (loc : Location) (cs : List Char) : Location :=
  { loc with
    offset := loc.offset + utf8Length cs
    column := min (loc.column + cs.length) maxPosition }

/-- Line and column, with a colon between them. -/
def text (loc : Location) : String := toString loc.line ++ ":" ++ toString loc.column

end Location

/-! ## Commands of a script -/

/-- A command with the token it came from. -/
structure SpannedCommand where
  command : Command
  /-- The token, without the blanks around it. -/
  token : List Char
  start : Location
deriving DecidableEq

namespace SpannedCommand

/-- Bytes of the token. -/
def length (c : SpannedCommand) : Nat := utf8Length c.token

/-- The byte offset just after the token. -/
def stop (c : SpannedCommand) : Nat := c.start.offset + c.length

end SpannedCommand

namespace Script

/-- The commands of the pieces of a line; the first piece begins at `start`. -/
def pieceCommands (start : Location) : List (List Char) → List SpannedCommand
  | [] => []
  | piece :: rest =>
    let others := pieceCommands (start.advance (piece ++ [' '])) rest
    match Token.parse piece with
    | none => others
    | some command => ⟨command, trim piece, start.advance (piece.takeWhile isBlank)⟩ :: others

/-- Whether the line holds no tokens: it is blank, or a comment. -/
def isSkipped (line : List Char) : Bool :=
  match trim line with
  | [] => true
  | c :: _ => c == '#'

/-- The commands of a line that begins at `start`. -/
def lineCommands (start : Location) (line : List Char) : List SpannedCommand :=
  if isSkipped line then []
  else pieceCommands (start.advance (line.takeWhile isBlank)) ((trim line).splitOn ' ')

/-- The commands of lines; the first has the given byte offset and index. -/
def linesCommands (offset index : Nat) : List (List Char) → List SpannedCommand
  | [] => []
  | line :: rest =>
    lineCommands (.lineStart offset index) line ++
      linesCommands (offset + utf8Length line + 1) (index + 1) rest

/-- The commands of a script, each with its token. -/
def spannedCommands (source : List Char) : List SpannedCommand :=
  linesCommands 0 0 (source.splitOn '\n')

/-- The commands of a script. -/
def commands (source : List Char) : List Command := (spannedCommands source).map (·.command)

end Script

end BlockScript
