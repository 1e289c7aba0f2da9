import BlockScript.Colour.Basic
import BlockScript.Fault

namespace BlockScript

/-! # Pictures

A drawing is what a script rasterises to: named rows of pixels, which a caller may also give with
unequal lengths. A picture is what an image file holds: rows of one length. A picture takes its
width from the first row of the drawing; shorter rows are filled up with transparent black and
longer ones are cut.
-/

structure Drawing where
  name : String
  rows : Array (Array Colour)
deriving DecidableEq

namespace Drawing

/-- The length of the first row. -/
def width (d : Drawing) : Nat := (d.rows[0]?.map Array.size).getD 0

def height (d : Drawing) : Nat := d.rows.size

end Drawing

structure Picture where
  width : Nat
  height : Nat
  rows : Vector (Vector Colour width) height

namespace Picture

/-- Puts colours side by side into a row, from column `x` on and as far as the row goes. -/
def putRow {width : Nat} : Nat → List Colour → Vector Colour width → Vector Colour width
  | _, [], row => row
  | x, c :: colours, row => if h : x < width then putRow (x + 1) colours (row.set x c) else row

/-- Puts the colours of rows into a picture, from row `y` on and as far as the picture goes. -/
def putRows {width height : Nat} : Nat → List (Array Colour) →
    Vector (Vector Colour width) height → Vector (Vector Colour width) height
  | _, [], rows => rows
  | y, colours :: more, rows =>
    if h : y < height then putRows (y + 1) more (rows.set y (putRow 0 colours.toList rows[y]))
    else rows

/-- Rows of one width, transparent where no colour is put. -/
def fit (width : Nat) (rows : Array (Array Colour)) : Picture :=
  ⟨width, rows.size, putRows 0 rows.toList (.replicate rows.size (.replicate width .transparent))⟩

/-- The pixel in column `x` and row `y`, if the picture has one. -/
def pixel? (p : Picture) (x y : Nat) : Option Colour := p.rows[y]?.bind (·[x]?)

/-- The rows without their lengths in the type. -/
def pixelRows (p : Picture) : Array (Array Colour) := p.rows.toArray.map (·.toArray)

/-- Whether two pictures are equal in size and in every pixel. -/
def same (p q : Picture) : Bool :=
  p.width == q.width && p.height == q.height && p.pixelRows == q.pixelRows

/-- Image files count their sides in 32 bits. -/
def maxFileSide : Nat := 0xFFFFFFFF

/-- The picture of a drawing, to be written to `path`. A picture has at least one pixel. -/
def ofDrawing (d : Drawing) (path : String) : Except Fault Picture :=
  if maxFileSide < d.width then .error (.tooManyPixelsAcross d.name d.width)
  else if maxFileSide < d.height then .error (.tooManyPixelsAcross d.name d.height)
  else if d.width = 0 ∨ d.height = 0 then .error (.file path .writePicture)
  else .ok (fit d.width d.rows)

end Picture

end BlockScript
