import BlockScript.Drawing.Event
import BlockScript.Log

namespace BlockScript

/-! # Canvas

The renderer that lays events out. Blocks are squares placed from left to right, spaces move the
cursor, and a line break starts a row below the tallest item of the current one. An error shows as
a magenta square of size one. A canvas keeps `maxItems` items; once full it still moves its cursor,
so the rows keep their widths.
-/

/-- A square at distance `x` from the left of its row. -/
structure Cell where
  x : Binary64
  size : Binary64
  colour : Colour
deriving DecidableEq

/-- Items side by side. The width is where the next item goes. -/
structure Row where
  cells : Array Cell := #[]
  width : Binary64 := 0

namespace Row

/-- The size of the tallest item; one when there is none. -/
def height (row : Row) : Binary64 :=
  match row.cells[0]? with
  | none => 1
  | some first => row.cells.foldl (fun tallest cell => max tallest cell.size) first.size 1

/-- Puts an item at the end of the row. -/
def place (row : Row) (size : Binary64) (colour : Colour) : Row :=
  ⟨row.cells.push ⟨row.width, size, colour⟩, row.width + size⟩

/-- Moves the cursor. -/
def skip (row : Row) (size : Binary64) : Row := { row with width := row.width + size }

/-- Whether nothing has been put into the row. -/
def isUnused (row : Row) : Bool := row.cells.isEmpty && row.width.same 0

end Row

structure Canvas where
  /-- The rows above the current one. -/
  above : Array Row := #[]
  current : Row := {}
  /-- The messages received, in order. -/
  errors : Array String := #[]
  /-- Items recorded. -/
  placed : Nat := 0
  /-- Items that came when the canvas was full. -/
  dropped : Nat := 0
  /-- What the canvas noted. -/
  notes : Array LogEntry := #[]

namespace Canvas

/-- Puts an item into the current row, or only moves the cursor when the canvas is full. The first
item dropped is noted. -/
def place (c : Canvas) (size : Binary64) (colour : Colour) : Canvas :=
  let { above, current, errors, placed, dropped, notes } := c
  if placed < maxItems then
    { above, current := current.place size colour, errors, placed := placed + 1, dropped, notes }
  else
    { above, current := current.skip size, errors, placed, dropped := dropped + 1,
      notes := if dropped = 0 then notes.push .canvasFull else notes }

def skip (c : Canvas) (size : Binary64) : Canvas :=
  let { above, current, errors, placed, dropped, notes } := c
  { above, current := current.skip size, errors, placed, dropped, notes }

def lineBreak (c : Canvas) : Canvas :=
  let { above, current, errors, placed, dropped, notes } := c
  { above := above.push current, current := {}, errors, placed, dropped, notes }

/-- Shows an error as a square of size one, and keeps its message even when the canvas is full. -/
def displayError (c : Canvas) (message : String) : Canvas :=
  let c := c.place 1 .magenta
  { c with errors := c.errors.push message }

/-- The canvas as a renderer. -/
def renderer : Renderer Canvas where
  drawBlock size colour c := c.place size colour
  drawSpace size c := c.skip size
  lineBreak c := c.lineBreak
  displayError message c := c.displayError message

/-- Whether an item was dropped. -/
def isOverflowed (c : Canvas) : Bool := decide (0 < c.dropped)

/-- Cells held in all rows. -/
def cellCount (c : Canvas) : Nat :=
  c.above.foldl (fun n row => n + row.cells.size) 0 + c.current.cells.size

/-- Cells held less errors received; never below zero. -/
def blockCount (c : Canvas) : Nat := c.cellCount - c.errors.size

/-- The rows that take up space: a last row counts once something is in it. -/
def rows (c : Canvas) : Array Row :=
  if c.current.isUnused then c.above else c.above.push c.current

/-- The widest row, and at least zero. -/
def width (c : Canvas) : Binary64 := c.rows.foldl (fun widest row => max widest row.width) 0

/-- The sum of the heights of the rows. -/
def height (c : Canvas) : Binary64 :=
  c.rows.foldl (fun sum row => sum + row.height) Binary64.negativeZero

end Canvas

/-- The canvas of a script. -/
def Script.canvas (source : List Char) : Canvas := run Canvas.renderer source {}

end BlockScript
