import BlockScript.Text.Basic
import BlockScript.Yaml.Character

namespace BlockScript.Yaml

/-! # Cursors

Where reading has got to: the line and column, from zero, and the text from there on. Indentation
goes by columns, which are characters; how long a key is goes by bytes.
-/

structure Mark where
  line : Nat := 0
  column : Nat := 0
  /-- Bytes of the line in front of the mark. -/
  bytes : Nat := 0
deriving DecidableEq, Repr

namespace Mark

/-- The mark behind characters of the line. -/
def after (m : Mark) (cs : List Char) : Mark :=
  { m with column := m.column + cs.length, bytes := m.bytes + utf8Length cs }

/-- The start of the next line. -/
def nextLine (m : Mark) : Mark := { line := m.line + 1 }

end Mark

structure Cursor where
  mark : Mark := {}
  rest : List Char
deriving DecidableEq, Repr

namespace Cursor

/-- The cursor behind `n` characters of the line. -/
def drop (c : Cursor) (n : Nat) : Cursor := ⟨c.mark.after (c.rest.take n), c.rest.drop n⟩

/-- The characters of the line from here to the first one that fails the test. -/
def lineWhile (c : Cursor) (p : Char → Bool) : List Char :=
  c.rest.takeWhile fun x => p x && !isBreak x

/-- The cursor behind them. -/
def skipWhile (c : Cursor) (p : Char → Bool) : Cursor := c.drop (c.lineWhile p).length

/-- The cursor behind the spaces and tabs. -/
def skipSpacing (c : Cursor) : Cursor := c.skipWhile isSpacing

/-- The cursor at the end of the line. -/
def skipLine (c : Cursor) : Cursor := c.skipWhile fun _ => true

/-- The cursor at the end of the line, if it stands at a comment. -/
def skipComment (c : Cursor) : Cursor := if c.rest.head? == some '#' then c.skipLine else c

/-- Whether the line ends here. -/
def atLineEnd (c : Cursor) : Bool :=
  match c.rest with
  | [] => true
  | x :: _ => isBreak x

/-- The cursor behind the line break it stands at. -/
def skipBreak (c : Cursor) : Cursor :=
  match c.rest with
  | [] => c
  | _ :: rest => ⟨c.mark.nextLine, rest⟩

end Cursor

end BlockScript.Yaml
