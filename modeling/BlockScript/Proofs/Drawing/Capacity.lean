import BlockScript.Proofs.Drawing.Layout
import BlockScript.Proofs.Drawing.Messages
import Mathlib.Algebra.Ring.Nat

namespace BlockScript

/-! # Capacity

A canvas stops recording when it holds `maxItems` items, but goes on moving its cursor. `CutOff`
compares it with the canvas without a limit: the rows end at the same places, the messages are the
same, and the cells are the first ones of the other canvas. Each call keeps the two in this relation
(`CutOff.deliver`), also the call that comes when the last place is taken; the result about all runs
is `capped_run`.
-/

/-- Row by row what the first `n` elements of all rows leave of it. -/
def takeRows {α : Type} : Nat → List (List α) → List (List α)
  | _, [] => []
  | n, row :: rows => row.take n :: takeRows (n - row.length) rows

section
variable {α : Type}

theorem takeRows_append_singleton (n : Nat) (rows : List (List α)) (last : List α) :
    takeRows n (rows ++ [last]) = takeRows n rows ++ [last.take (n - rows.flatten.length)] := by
  induction rows generalizing n with
  | nil => rfl
  | cons row rows ih =>
    rw [List.cons_append, takeRows, ih, takeRows, List.flatten_cons, List.length_append,
      Nat.sub_add_eq]
    rfl

/-- Read without the row ends, these are the first `n` elements. -/
theorem flatten_takeRows (n : Nat) (rows : List (List α)) :
    (takeRows n rows).flatten = rows.flatten.take n := by
  induction rows generalizing n with
  | nil => simp [takeRows]
  | cons row rows ih =>
    rw [takeRows, List.flatten_cons, ih, List.flatten_cons, List.take_append]

/-- What fits is not cut. -/
theorem takeRows_of_length_le {n : Nat} {rows : List (List α)} (h : rows.flatten.length ≤ n) :
    takeRows n rows = rows := by
  induction rows generalizing n with
  | nil => rfl
  | cons row rows ih =>
    rw [List.flatten_cons, List.length_append] at h
    rw [takeRows, ih (by omega), List.take_of_length_le (by omega)]

end

namespace Canvas

/-- Cells in the rows above the current one. -/
def countAbove (u : Canvas) : Nat := (u.above.toList.map (·.cells.toList)).flatten.length

theorem length_cells (u : Canvas) : u.cells.length = u.countAbove + u.current.cells.size := by
  rw [cells, allRows, List.flatMap_append, List.length_append, List.flatMap_def, countAbove]
  simp

theorem length_cells_record (u : Canvas) (size : Binary64) (colour : Colour) :
    (u.record size colour).cells.length = u.cells.length + 1 := by
  simp only [length_cells, record, Row.place, Array.size_push, countAbove]
  omega

theorem length_cells_skip (u : Canvas) (size : Binary64) :
    (u.skip size).cells.length = u.cells.length := by
  simp [length_cells, countAbove, Canvas.skip, Row.skip]

theorem length_cells_lineBreak (u : Canvas) : u.lineBreak.cells.length = u.cells.length := by
  simp [length_cells, countAbove, Canvas.lineBreak]

/-- How a canvas relates to the canvas without a limit that received the same calls. -/
structure CutOff (c u : Canvas) : Prop where
  widthsAbove : c.above.toList.map Row.width = u.above.toList.map Row.width
  width : c.current.width = u.current.width
  cellsAbove : c.above.toList.map (·.cells.toList) =
    takeRows maxItems (u.above.toList.map (·.cells.toList))
  cells : c.current.cells.toList = u.current.cells.toList.take (maxItems - u.countAbove)
  errors : c.errors = u.errors
  placed : c.placed = min u.cells.length maxItems
  dropped : c.dropped = u.cells.length - maxItems
  /-- Only the first item that is dropped is noted. -/
  notes : c.notes = if c.dropped = 0 then #[] else #[.canvasFull]

namespace CutOff

theorem empty : CutOff {} {} where
  widthsAbove := rfl
  width := rfl
  cellsAbove := rfl
  cells := rfl
  errors := rfl
  placed := rfl
  dropped := rfl
  notes := rfl

variable {c u : Canvas}

/-- As long as there is room, both canvases record the item at the same place. -/
theorem record_of_lt (h : CutOff c u) (hroom : c.placed < maxItems) (size : Binary64)
    (colour : Colour) :
    CutOff { c with current := c.current.place size colour, placed := c.placed + 1 }
      (u.record size colour) := by
  have hcount := length_cells_record u size colour
  have hsize : u.cells.length < maxItems := by
    have := h.placed
    omega
  -- so the current row of the other canvas is not cut
  have hfits : u.current.cells.toList.length + 1 ≤ maxItems - u.countAbove := by
    rw [length_cells] at hsize
    rw [Array.length_toList]
    omega
  refine
    { widthsAbove := h.widthsAbove
      width := congrArg (· + size) h.width
      cellsAbove := h.cellsAbove
      cells := ?_
      errors := h.errors
      placed := ?_
      dropped := ?_
      notes := h.notes }
  · have hcells : c.current.cells.toList = u.current.cells.toList := by
      rw [h.cells, List.take_of_length_le (by omega)]
    show (c.current.cells.push _).toList =
      (u.current.cells.push _).toList.take (maxItems - u.countAbove)
    rw [Array.toList_push, Array.toList_push, hcells, h.width,
      List.take_of_length_le (by rw [List.length_append]; exact hfits)]
  · show c.placed + 1 = _
    rw [hcount, h.placed]
    omega
  · show c.dropped = _
    rw [hcount, h.dropped]
    omega

/-- When the canvas is full, the item changes the end of its row and nothing that it holds. -/
theorem drop_of_le (h : CutOff c u) (hfull : maxItems ≤ c.placed) (size : Binary64)
    (colour : Colour) :
    CutOff
      { c with
        current := c.current.skip size
        dropped := c.dropped + 1
        notes := if c.dropped = 0 then c.notes.push .canvasFull else c.notes }
      (u.record size colour) := by
  have hcount := length_cells_record u size colour
  have hsize : maxItems ≤ u.cells.length := by
    have := h.placed
    omega
  -- the part of the current row that counts is there already
  have hcut : maxItems - u.countAbove ≤ u.current.cells.toList.length := by
    rw [length_cells] at hsize
    rw [Array.length_toList]
    omega
  refine
    { widthsAbove := h.widthsAbove
      width := congrArg (· + size) h.width
      cellsAbove := h.cellsAbove
      cells := ?_
      errors := h.errors
      placed := ?_
      dropped := ?_
      notes := ?_ }
  · show c.current.cells.toList = (u.current.cells.push _).toList.take (maxItems - u.countAbove)
    rw [Array.toList_push, List.take_append_of_le_length hcut]
    exact h.cells
  · show c.placed = _
    rw [hcount, h.placed]
    omega
  · show c.dropped + 1 = _
    rw [hcount, h.dropped]
    omega
  · show (if c.dropped = 0 then c.notes.push .canvasFull else c.notes) = _
    rw [h.notes]
    split <;> rfl

theorem place (h : CutOff c u) (size : Binary64) (colour : Colour) :
    CutOff (c.place size colour) (u.record size colour) := by
  rcases Nat.lt_or_ge c.placed maxItems with hroom | hfull
  · rw [place_of_lt hroom]
    exact h.record_of_lt hroom size colour
  · rw [place_of_le hfull]
    exact h.drop_of_le hfull size colour

theorem skip (h : CutOff c u) (size : Binary64) : CutOff (c.skip size) (u.skip size) where
  widthsAbove := h.widthsAbove
  width := congrArg (· + size) h.width
  cellsAbove := h.cellsAbove
  cells := h.cells
  errors := h.errors
  placed := (length_cells_skip u size).symm ▸ h.placed
  dropped := (length_cells_skip u size).symm ▸ h.dropped
  notes := h.notes

/-- The row that a line break ends keeps what was recorded of it. -/
theorem lineBreak (h : CutOff c u) : CutOff c.lineBreak u.lineBreak := by
  refine
    { widthsAbove := ?_
      width := rfl
      cellsAbove := ?_
      cells := List.take_nil.symm
      errors := h.errors
      placed := (length_cells_lineBreak u).symm ▸ h.placed
      dropped := (length_cells_lineBreak u).symm ▸ h.dropped
      notes := h.notes }
  · simp only [Canvas.lineBreak, Array.toList_push, List.map_append, h.widthsAbove, List.map_cons,
      List.map_nil, h.width]
  · simp only [Canvas.lineBreak, Array.toList_push, List.map_append, List.map_cons, List.map_nil,
      takeRows_append_singleton, h.cellsAbove, h.cells, countAbove]

theorem displayError (h : CutOff c u) (message : String) :
    CutOff (c.displayError message) (unlimited.displayError message u) :=
  { h.place 1 .magenta with errors := congrArg (·.push message) (h.place 1 .magenta).errors }

/-- Every call keeps the relation. -/
theorem deliver (h : CutOff c u) (e : Event) :
    CutOff (e.deliver renderer c) (e.deliver unlimited u) := by
  cases e with
  | block size colour => exact h.place size colour
  | space size => exact h.skip size
  | lineBreak => exact h.lineBreak
  | error message => exact h.displayError message

/-- Every run of calls keeps the relation. -/
theorem deliverAll (h : CutOff c u) (events : List Event) :
    CutOff (Event.deliverAll renderer events c) (Event.deliverAll unlimited events u) := by
  induction events generalizing c u with
  | nil => exact h
  | cons e events ih => exact ih (h.deliver e)

/-- Row by row, the cells are the first ones of the canvas without a limit. -/
theorem map_cells_allRows (h : CutOff c u) :
    c.allRows.map (·.cells.toList) = takeRows maxItems (u.allRows.map (·.cells.toList)) := by
  simp only [allRows, List.map_append, List.map_cons, List.map_nil, takeRows_append_singleton,
    h.cellsAbove, h.cells, countAbove]

theorem map_width_allRows (h : CutOff c u) :
    c.allRows.map Row.width = u.allRows.map Row.width := by
  simp only [allRows, List.map_append, List.map_cons, List.map_nil, h.widthsAbove, h.width]

theorem cells_eq_take (h : CutOff c u) : c.cells = u.cells.take maxItems := by
  have hflat := congrArg List.flatten h.map_cells_allRows
  rw [flatten_takeRows] at hflat
  exact hflat

theorem isOverflowed_iff (h : CutOff c u) : c.isOverflowed = true ↔ maxItems < u.cells.length := by
  rw [isOverflowed, decide_eq_true_iff, h.dropped]
  omega

/-- As long as nothing is dropped, the two canvases hold the same rows. -/
theorem allRows_eq (h : CutOff c u) (hfree : c.isOverflowed = false) : c.allRows = u.allRows := by
  have hfits : (u.allRows.map (·.cells.toList)).flatten.length ≤ maxItems := by
    have hnot : ¬ maxItems < u.cells.length := by rw [← h.isOverflowed_iff, hfree]; decide
    rw [← List.flatMap_def]
    exact Nat.not_lt.mp hnot
  have hcells := h.map_cells_allRows
  rw [takeRows_of_length_le hfits] at hcells
  have hwidths := h.map_width_allRows
  -- a row is its cells and its width
  apply List.ext_getElem?
  intro i
  have hcell := congrArg (·[i]?) hcells
  have hwidth := congrArg (·[i]?) hwidths
  simp only [List.getElem?_map] at hcell hwidth
  rcases hc : c.allRows[i]? with _ | row <;> rcases hu : u.allRows[i]? with _ | other <;>
    simp only [hc, hu, Option.map_some, Option.map_none, reduceCtorEq, Option.some.injEq]
      at hcell hwidth
  · rfl
  · obtain ⟨cells, width⟩ := row
    obtain ⟨cells', width'⟩ := other
    obtain rfl : cells = cells' := Array.toList_inj.mp hcell
    obtain rfl : width = width' := hwidth
    rfl

end CutOff

/-- A canvas that has dropped nothing holds a row for each line. -/
theorem allRows_of_not_overflowed {events : List Event}
    (h : (Event.deliverAll renderer events {}).isOverflowed = false) :
    (Event.deliverAll renderer events {}).allRows = (Event.lines events).map Row.ofLine := by
  rw [(CutOff.empty.deliverAll events).allRows_eq h, allRows_unlimited]

/-- The number of items that came. -/
theorem length_cells_unlimited (events : List Event) :
    (Event.deliverAll unlimited events {}).cells.length =
      (events.filterMap Event.item?).length := by
  rw [← map_cells_unlimited, List.length_map]

/-- The limit on items takes nothing away but cells. Rows, their widths and the messages are those
of the canvas without a limit, and the cells are its first `2 ^ 20`, each in its row and at its
place. The canvas knows whether an item was dropped, and notes it once. -/
theorem capped_run (events : List Event) :
    let c := Event.deliverAll renderer events {}
    let u := Event.deliverAll unlimited events {}
    maxItems = 2 ^ 20 ∧
    c.allRows.length = 1 + events.count .lineBreak ∧
    u.allRows.length = 1 + events.count .lineBreak ∧
    c.allRows.map Row.width = u.allRows.map Row.width ∧
    u.allRows.map Row.width =
      (Event.lines events).map (fun line => (line.filterMap Event.advance?).foldl (· + ·) 0) ∧
    c.errors = u.errors ∧
    c.errors.toList = events.filterMap Event.mistake? ∧
    c.allRows.map (·.cells.toList) = takeRows maxItems (u.allRows.map (·.cells.toList)) ∧
    c.cells = u.cells.take maxItems ∧
    u.cells.map (fun cell => (cell.size, cell.colour)) = events.filterMap Event.item? ∧
    c.cellCount ≤ maxItems ∧
    c.placed = c.cellCount ∧
    (c.isOverflowed = true ↔ maxItems < (events.filterMap Event.item?).length) ∧
    c.notes = if c.isOverflowed then #[.canvasFull] else #[] := by
  intro c u
  have h : CutOff c u := CutOff.empty.deliverAll events
  have hrows : u.allRows = (Event.lines events).map Row.ofLine := allRows_unlimited events
  have hlength : u.allRows.length = 1 + events.count .lineBreak := by
    rw [hrows, List.length_map, Event.length_lines]
  have hcount : c.cellCount = min maxItems u.cells.length := by
    rw [cellCount_eq, h.cells_eq_take, List.length_take]
  refine ⟨rfl, ?_, hlength, h.map_width_allRows, ?_, h.errors,
    toList_errors_deliverAll events {}, h.map_cells_allRows, h.cells_eq_take,
    map_cells_unlimited events, ?_, ?_, ?_, ?_⟩
  · have hwidths := congrArg List.length h.map_width_allRows
    rw [List.length_map, List.length_map] at hwidths
    rw [hwidths, hlength]
  · rw [hrows, List.map_map]
    exact List.map_congr_left fun line _ => Row.width_ofLine line
  · omega
  · rw [h.placed, hcount, Nat.min_comm]
  · rw [h.isOverflowed_iff, length_cells_unlimited]
  · rw [h.notes, isOverflowed]
    by_cases hdropped : c.dropped = 0
    · simp [hdropped]
    · simp [hdropped, Nat.pos_of_ne_zero hdropped]

end Canvas

end BlockScript
