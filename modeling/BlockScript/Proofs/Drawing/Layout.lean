import BlockScript.Drawing.Canvas
import Mathlib.Data.List.Basic
import Mathlib.Data.List.Induction

namespace BlockScript

/-! # Layout

What a list of events looks like when nothing is left out. The line breaks cut the events into
lines, and each line makes one row on its own: it starts with an empty row and puts one event after
the other into it. The canvas without a limit arrives at these rows (`allRows_unlimited`), although
it sees the events one by one and never a whole line.
-/

namespace Event

/-- The square that an event shows: a block as it is, an error as a magenta one of size one. -/
def item? : Event → Option (Binary64 × Colour)
  | block size colour => some (size, colour)
  | error _ => some (1, .magenta)
  | _ => none

/-- How far an event moves the place of the next item. -/
def advance? : Event → Option Binary64
  | block size _ => some size
  | space size => some size
  | error _ => some 1
  | lineBreak => none

/-- The events between the line breaks; always one line more than there are line breaks. -/
def lines (events : List Event) : List (List Event) := events.splitOn lineBreak

theorem lines_lineBreak (events : List Event) :
    lines (lineBreak :: events) = [] :: lines events := by
  simp [lines, List.splitOn, List.splitOnP_cons_eq_if_modifyHead]

/-- Any other event belongs to the first line. -/
theorem lines_cons_of_ne {e : Event} (h : e ≠ lineBreak) {events first : List Event}
    {rest : List (List Event)} (hlines : lines events = first :: rest) :
    lines (e :: events) = (e :: first) :: rest := by
  simp only [lines, List.splitOn] at hlines
  simp [lines, List.splitOn, List.splitOnP_cons_eq_if_modifyHead, h, hlines]

theorem exists_lines_eq_cons (events : List Event) :
    ∃ first rest, lines events = first :: rest :=
  List.exists_cons_of_ne_nil (List.splitOn_ne_nil lineBreak events)

theorem length_lines (events : List Event) :
    (lines events).length = 1 + events.count lineBreak := by
  induction events with
  | nil => rfl
  | cons e events ih =>
    by_cases h : e = lineBreak
    · subst h
      rw [lines_lineBreak, List.length_cons, ih, List.count_cons_self]
      omega
    · obtain ⟨first, rest, hlines⟩ := exists_lines_eq_cons events
      rw [lines_cons_of_ne h hlines, List.count_cons_of_ne h, ← ih, hlines]
      rfl

/-- A line holds events of the list, and no line breaks. -/
theorem of_mem_lines {events line : List Event} (hline : line ∈ lines events) {e : Event}
    (he : e ∈ line) : e ∈ events ∧ e ≠ lineBreak := by
  induction events generalizing line with
  | nil =>
    obtain rfl := List.mem_singleton.mp hline
    cases he
  | cons e' events ih =>
    obtain ⟨first, rest, hlines⟩ := exists_lines_eq_cons events
    rw [hlines] at ih
    by_cases h : e' = lineBreak
    · subst h
      rw [lines_lineBreak, hlines, List.mem_cons] at hline
      rcases hline with rfl | hline
      · cases he
      · exact (ih hline he).imp_left (List.mem_cons_of_mem _)
    · rw [lines_cons_of_ne h hlines, List.mem_cons] at hline
      rcases hline with rfl | hline
      · rcases List.mem_cons.mp he with rfl | he
        · exact ⟨List.mem_cons_self, h⟩
        · exact (ih List.mem_cons_self he).imp_left (List.mem_cons_of_mem _)
      · exact (ih (List.mem_cons_of_mem _ hline) he).imp_left (List.mem_cons_of_mem _)

/-- What is gathered from the lines is gathered from the events, when line breaks give nothing. -/
theorem flatMap_filterMap_lines {α : Type} (f : Event → Option α) (h : f lineBreak = none)
    (events : List Event) :
    (lines events).flatMap (List.filterMap f) = events.filterMap f := by
  induction events with
  | nil => rfl
  | cons e events ih =>
    by_cases he : e = lineBreak
    · subst he
      rw [lines_lineBreak, List.flatMap_cons, ih, List.filterMap_cons_none h]
      rfl
    · obtain ⟨first, rest, hlines⟩ := exists_lines_eq_cons events
      rw [hlines, List.flatMap_cons] at ih
      rw [lines_cons_of_ne he hlines, List.flatMap_cons, List.filterMap_cons, List.filterMap_cons]
      cases f e with
      | none => exact ih
      | some a => exact congrArg (a :: ·) ih

end Event

/-! ## Rows -/

/-- An element of a longer list is one of the shorter list, or the last. -/
theorem exists_cut_concat {α : Type} {xs : List α} {last : α} {P : List α → α → Prop} :
    (∃ before a after, xs ++ [last] = before ++ a :: after ∧ P before a) ↔
      (∃ before a after, xs = before ++ a :: after ∧ P before a) ∨ P xs last := by
  constructor
  · rintro ⟨before, a, after, hxs, h⟩
    rcases List.eq_nil_or_concat' after with rfl | ⟨after, b, rfl⟩
    · obtain ⟨rfl, heq⟩ := List.append_inj' hxs rfl
      cases heq
      exact Or.inr h
    · rw [← List.cons_append, ← List.append_assoc] at hxs
      obtain ⟨rfl, -⟩ := List.append_inj' hxs rfl
      exact Or.inl ⟨before, a, after, rfl, h⟩
  · rintro (⟨before, a, after, rfl, h⟩ | h)
    · exact ⟨before, a, after ++ [last], by simp, h⟩
    · exact ⟨xs, last, [], rfl, h⟩

namespace Row

/-- Puts an event into the row. -/
def add (row : Row) : Event → Row
  | .block size colour => row.place size colour
  | .space size => row.skip size
  | .lineBreak => row
  | .error _ => row.place 1 .magenta

/-- The row of a line. -/
def ofLine (line : List Event) : Row := line.foldl add {}

theorem ofLine_append (line : List Event) (e : Event) :
    ofLine (line ++ [e]) = (ofLine line).add e := by
  rw [ofLine, List.foldl_append]
  rfl

/-- An item goes where the row ends. -/
theorem add_of_item? {row : Row} {e : Event} {size : Binary64} {colour : Colour}
    (h : e.item? = some (size, colour)) : row.add e = row.place size colour := by
  cases e with
  | block size' colour' =>
    obtain ⟨rfl, rfl⟩ := Prod.mk.inj (Option.some.inj h)
    rfl
  | error message =>
    obtain ⟨rfl, rfl⟩ := Prod.mk.inj (Option.some.inj h)
    rfl
  | space size' => cases h
  | lineBreak => cases h

theorem cells_add_of_item?_none {row : Row} {e : Event} (h : e.item? = none) :
    (row.add e).cells = row.cells := by
  cases e with
  | block size colour => cases h
  | error message => cases h
  | space size => rfl
  | lineBreak => rfl

theorem width_add (row : Row) (e : Event) :
    (row.add e).width = e.advance?.elim row.width (row.width + ·) := by
  cases e <;> rfl

/-- The width of a row is the sum of its steps, taken from left to right. -/
theorem width_ofLine (line : List Event) :
    (ofLine line).width = (line.filterMap Event.advance?).foldl (· + ·) 0 := by
  induction line using List.reverseRecOn with
  | nil => rfl
  | append_singleton line e ih =>
    rw [ofLine_append, width_add, ih, List.filterMap_append, List.foldl_append]
    cases h : e.advance? <;> simp [h]

/-- The items of a line, in order, are the squares in its row. -/
theorem map_cells_ofLine (line : List Event) :
    (ofLine line).cells.toList.map (fun cell => (cell.size, cell.colour)) =
      line.filterMap Event.item? := by
  induction line using List.reverseRecOn with
  | nil => rfl
  | append_singleton line e ih =>
    rw [ofLine_append, List.filterMap_append, ← ih]
    cases h : e.item? with
    | none => simp [cells_add_of_item?_none h, h]
    | some item => simp [add_of_item? h, h, place]

/-- A square of a row belongs to an item of the line, and stands where the row of the events before
this item ends. -/
theorem mem_cells_ofLine {line : List Event} {cell : Cell} :
    cell ∈ (ofLine line).cells.toList ↔
      ∃ before e after, line = before ++ e :: after ∧
        e.item? = some (cell.size, cell.colour) ∧ cell.x = (ofLine before).width := by
  induction line using List.reverseRecOn with
  | nil => simp [ofLine]
  | append_singleton line last ih =>
    rw [ofLine_append, exists_cut_concat, ← ih]
    obtain ⟨x, size, colour⟩ := cell
    cases h : last.item? with
    | none => simp [cells_add_of_item?_none h]
    | some item =>
      simp [add_of_item? h, place, Prod.ext_iff, and_assoc, and_comm, eq_comm]

theorem height_of_nil {row : Row} (h : row.cells.toList = []) : row.height = 1 := by
  have hcells : row.cells = #[] := Array.toList_inj.mp h
  rw [height, hcells]
  rfl

/-- A row is as high as the largest of its squares. -/
theorem height_of_cons {row : Row} {first : Cell} {rest : List Cell}
    (h : row.cells.toList = first :: rest) :
    row.height = (rest.map Cell.size).foldl max first.size := by
  have hcells : row.cells = (first :: rest).toArray := Array.toList_inj.mp h
  rw [height, hcells, List.foldl_map]
  simp only [List.getElem?_toArray, List.getElem?_cons_zero]
  rw [Array.foldl_eq_foldl_extract]
  simp

end Row

/-! ## The canvas without a limit -/

namespace Canvas

/-- All rows from the top, the current one last. -/
def allRows (c : Canvas) : List Row := c.above.toList ++ [c.current]

/-- The cells of all rows, in the order in which they were put. -/
def cells (c : Canvas) : List Cell := c.allRows.flatMap (·.cells.toList)

theorem cellCount_eq (c : Canvas) : c.cellCount = c.cells.length := by
  have hfold : ∀ (rows : List Row) (n : Nat),
      rows.foldl (fun n row => n + row.cells.size) n =
        n + (rows.flatMap (·.cells.toList)).length := by
    intro rows
    induction rows with
    | nil => intro n; rfl
    | cons row rows ih =>
      intro n
      rw [List.foldl_cons, ih, List.flatMap_cons, List.length_append, Nat.add_assoc]
      rfl
  rw [cellCount, ← Array.foldl_toList, hfold, cells, allRows, List.flatMap_append]
  simp

/-- Puts an item into the current row, however many there are already. -/
def record (c : Canvas) (size : Binary64) (colour : Colour) : Canvas :=
  { c with current := c.current.place size colour, placed := c.placed + 1 }

/-- The canvas without a limit on its items; in all else it is like the other. -/
def unlimited : Renderer Canvas where
  drawBlock size colour c := c.record size colour
  drawSpace size c := c.skip size
  lineBreak c := c.lineBreak
  displayError message c :=
    let c := c.record 1 .magenta
    { c with errors := c.errors.push message }

theorem deliver_unlimited_of_ne {e : Event} (h : e ≠ .lineBreak) (c : Canvas) :
    (e.deliver unlimited c).above = c.above ∧
      (e.deliver unlimited c).current = c.current.add e := by
  cases e with
  | lineBreak => exact absurd rfl h
  | _ => exact ⟨rfl, rfl⟩

/-- The first line goes on with the current row, and every other line has a row of its own. -/
theorem allRows_deliverAll_unlimited {events first : List Event} {rest : List (List Event)}
    (h : Event.lines events = first :: rest) (c : Canvas) :
    (Event.deliverAll unlimited events c).allRows =
      c.above.toList ++ first.foldl Row.add c.current :: rest.map Row.ofLine := by
  induction events generalizing c first rest with
  | nil =>
    cases h
    rfl
  | cons e events ih =>
    obtain ⟨first', rest', hlines⟩ := Event.exists_lines_eq_cons events
    have hrest := ih hlines (e.deliver unlimited c)
    have hstep : Event.deliverAll unlimited (e :: events) c =
        Event.deliverAll unlimited events (e.deliver unlimited c) := rfl
    rw [hstep, hrest]
    by_cases he : e = .lineBreak
    · subst he
      rw [Event.lines_lineBreak, hlines] at h
      obtain ⟨rfl, rfl⟩ := List.cons.inj h
      show (c.above.push c.current).toList ++ _ = _
      rw [Array.toList_push, List.append_assoc]
      rfl
    · rw [Event.lines_cons_of_ne he hlines] at h
      obtain ⟨rfl, rfl⟩ := List.cons.inj h
      obtain ⟨habove, hcurrent⟩ := deliver_unlimited_of_ne he c
      rw [habove, hcurrent]
      rfl

/-- Without a limit, each line of the events has its row. -/
theorem allRows_unlimited (events : List Event) :
    (Event.deliverAll unlimited events {}).allRows = (Event.lines events).map Row.ofLine := by
  obtain ⟨first, rest, hlines⟩ := Event.exists_lines_eq_cons events
  rw [allRows_deliverAll_unlimited hlines, hlines]
  rfl

/-- Without a limit, every item that came is in its place. -/
theorem map_cells_unlimited (events : List Event) :
    (Event.deliverAll unlimited events {}).cells.map (fun cell => (cell.size, cell.colour)) =
      events.filterMap Event.item? := by
  rw [cells, allRows_unlimited, List.flatMap_map, List.map_flatMap,
    ← Event.flatMap_filterMap_lines Event.item? rfl]
  exact List.flatMap_congr fun line _ => Row.map_cells_ofLine line

end Canvas

end BlockScript
