import BlockScript.Drawing.Canvas
import BlockScript.Drawing.Picture

namespace BlockScript

/-! # Rasterising

A canvas becomes pixels at a given number of pixels per size unit. Every edge of a cell is rounded
to the nearest pixel on its own. Whether the picture fits its limits is settled before any pixel is
made.
-/

/-- Paints `count` pixels of a row from column `x` on. -/
def paintSpan (colour : Colour) (x : Nat) : Nat → Array Colour → Array Colour
  | 0, row => row
  | count + 1, row => paintSpan colour (x + 1) count (row.setIfInBounds x colour)

/-- Paints a rectangle: `count` rows from `y` on, in columns `x` to `x + width`. -/
def paintRows (colour : Colour) (x width y : Nat) :
    Nat → Array (Array Colour) → Array (Array Colour)
  | 0, rows => rows
  | count + 1, rows =>
    paintRows colour x width (y + 1) count (rows.modify y (paintSpan colour x width))

/-- A rectangle of pixels; the right and the bottom edge are outside. -/
structure PixelRect where
  left : Nat
  right : Nat
  top : Nat
  bottom : Nat
deriving DecidableEq, Repr

/-- Where a cell lies in the picture, when the top of its row is at `top`. -/
def Cell.pixels (cell : Cell) (top : Binary64) (unit : Nat) : PixelRect where
  left := (cell.x.scale unit).roundNat
  right := ((cell.x + cell.size).scale unit).roundNat
  top := (top.scale unit).roundNat
  bottom := ((top + cell.size).scale unit).roundNat

namespace PixelRect

/-- The part inside a picture of the given size. -/
def crop (r : PixelRect) (width height : Nat) : PixelRect :=
  { r with right := min r.right width, bottom := min r.bottom height }

def paint (r : PixelRect) (colour : Colour) (rows : Array (Array Colour)) : Array (Array Colour) :=
  paintRows colour r.left (r.right - r.left) r.top (r.bottom - r.top) rows

end PixelRect

/-- A picture that is being painted, and where the next row of cells begins. -/
structure Painting where
  pixels : Array (Array Colour)
  top : Binary64 := 0

namespace Painting

/-- Paints the cells of a row. -/
def cells (pixels : Array (Array Colour)) (top : Binary64) (unit width height : Nat)
    (row : Row) : Array (Array Colour) :=
  row.cells.foldl (fun pixels cell =>
    ((cell.pixels top unit).crop width height).paint cell.colour pixels) pixels

/-- Paints a row and moves below it. -/
def row (unit width height : Nat) (p : Painting) (row : Row) : Painting :=
  ⟨cells p.pixels p.top unit width height row, p.top + row.height⟩

end Painting

namespace Canvas

/-- Pixels of an extent: at least one, and nothing past `maxSide`. -/
def pixelLength? (extent : Binary64) (unit : Nat) : Option Nat :=
  match (extent.scale unit).ceilNat? with
  | some pixels => if pixels ≤ maxSide then some (max pixels 1) else none
  | none => none

/-- The pixels of the canvas in a picture of the given size. -/
def paint (c : Canvas) (unit width height : Nat) (background : Colour) : Array (Array Colour) :=
  (c.rows.foldl (Painting.row unit width height)
    ⟨Array.replicate height (Array.replicate width background), 0⟩).pixels

/-- The size of the picture in pixels, or the limit it goes over. -/
def pictureSize (c : Canvas) (unit : Nat) : Except PictureLimit (Nat × Nat) :=
  if c.isOverflowed then .error .items
  else
    let width := c.width
    let height := c.height
    match pixelLength? width unit, pixelLength? height unit with
    | some w, some h => if maxPixels < w * h then .error (.pixels w h) else .ok (w, h)
    | _, _ =>
      .error (.side (NumberLayout.plain.text width) (NumberLayout.plain.text height)
        (toString unit))

/-- The drawing of the canvas, at `unit` pixels per size unit; zero counts as one. -/
def rasterise (c : Canvas) (name : String) (unit : Nat) (background : Colour) :
    Except Fault Drawing :=
  let unit := max unit 1
  match c.pictureSize unit with
  | .ok (width, height) => .ok ⟨name, c.paint unit width height background⟩
  | .error limit => .error (.tooLarge name limit)

end Canvas

end BlockScript
