import BlockScript.Proofs.Drawing.Arrangement
import BlockScript.Proofs.Drawing.Replay
import BlockScript.Proofs.Number.Whole
import BlockScript.Proofs.Script.Sizes

namespace BlockScript

/-! # Layout in whole numbers

When all sizes are whole numbers, the picture of a canvas is the layout on squared paper: an item
stands behind the sizes before it in its row and below the heights of the rows above, and at `unit`
pixels for one every edge falls on a pixel (`Drawing.Shows`). Sums of whole numbers are exact up to
2^53. Nothing bounds the sizes themselves, but what is placed stays inside the picture, and the
limit on its sides keeps all sums far below.
-/

namespace Event

/-- The lines that become rows: all of them, but for a last one without events. -/
def rows (events : List Event) : List (List Event) :=
  if (lines events).getLast? = some [] then (lines events).dropLast else lines events

/-- The sum of the sizes in a row. -/
def rowWidth (row : List Event) : Nat := ((row.filterMap advance?).map Binary64.whole).sum

/-- The largest item of a row, or one. -/
def rowHeight (row : List Event) : Nat :=
  ((row.filterMap item?).map fun item => item.1.whole).max?.getD 1

end Event

/-- A square on squared paper. -/
@[ext] structure Square where
  x : Nat
  top : Nat
  size : Nat
  colour : Colour

namespace Square

/-- The pixels of the square. -/
def pixels (q : Square) (unit : Nat) : PixelRect where
  left := unit * q.x
  right := unit * (q.x + q.size)
  top := unit * q.top
  bottom := unit * (q.top + q.size)

/-- The square is an item of the rows: it stands behind what comes before it in its row, and below
the rows above. -/
def IsIn (q : Square) (rows : List (List Event)) : Prop :=
  ∃ above before item after below size,
    rows = above ++ (before ++ item :: after) :: below ∧
      item.item? = some (size, q.colour) ∧ q.size = size.whole ∧
      q.x = Event.rowWidth before ∧ q.top = (above.map Event.rowHeight).sum

theorem eq_of_pixels_eq {unit : Nat} (hunit : 0 < unit) {q r : Square}
    (h : q.pixels unit = r.pixels unit) (hcolour : q.colour = r.colour) : q = r := by
  obtain ⟨hleft, hright, htop, -⟩ := PixelRect.mk.inj h
  have hx := Nat.eq_of_mul_eq_mul_left hunit hleft
  have hend := Nat.eq_of_mul_eq_mul_left hunit hright
  have hsize : q.size = r.size := by omega
  exact Square.ext hx (Nat.eq_of_mul_eq_mul_left hunit htop) hsize hcolour

end Square

/-- The drawing is the picture of the rows in whole numbers, at `unit` pixels for one. -/
structure Drawing.Shows (d : Drawing) (rows : List (List Event)) (unit : Nat)
    (background : Colour) : Prop where
  width : d.width = max 1 (unit * (rows.map Event.rowWidth).foldl max 0)
  height : d.height = max 1 (unit * (rows.map Event.rowHeight).sum)
  item : ∀ q : Square, q.IsIn rows → ∀ x y, (q.pixels unit).Contains x y →
    d.pixel? x y = some q.colour
  single : ∀ q r : Square, q.IsIn rows → r.IsIn rows → ∀ x y, (q.pixels unit).Contains x y →
    (r.pixels unit).Contains x y → q = r
  background : ∀ x y, x < d.width → y < d.height →
    (∀ q : Square, q.IsIn rows → ¬ (q.pixels unit).Contains x y) → d.pixel? x y = some background
  outside : ∀ x y, ¬ (x < d.width ∧ y < d.height) → d.pixel? x y = none

/-! ## Rows -/

namespace Event

/-- What an event adds to its row is a whole number and not zero. -/
def HasWholeSize (e : Event) : Prop :=
  ∀ size, e.advance? = some size → size.isPositive = true ∧ size.isWhole = true

theorem HasWholeSize.hasPositiveSize {e : Event} (h : e.HasWholeSize) : e.HasPositiveSize := by
  cases e with
  | block size colour => exact (h size rfl).1
  | space size => exact (h size rfl).1
  | lineBreak => trivial
  | error message => trivial

/-- An item moves the place of the next by its own size. -/
theorem advance?_of_item? {e : Event} {size : Binary64} {colour : Colour}
    (h : e.item? = some (size, colour)) : e.advance? = some size := by
  cases e <;> simp_all [item?, advance?]

theorem mem_lines_of_mem_rows {events row : List Event} (h : row ∈ rows events) :
    row ∈ lines events := by
  unfold rows at h
  split at h
  · exact (List.dropLast_prefix _).mem h
  · exact h

theorem rowWidth_append (row : List Event) (e : Event) :
    rowWidth (row ++ [e]) = rowWidth row + (e.advance?.map Binary64.whole).getD 0 := by
  rw [rowWidth, List.filterMap_append, List.map_append, List.sum_append]
  cases h : e.advance? <;> simp [rowWidth, h]

end Event

namespace Row

variable {line : List Event}

theorem mem_cells_of_item? (before after : List Event) {item : Event} {size : Binary64}
    {colour : Colour} (h : item.item? = some (size, colour)) :
    ⟨(ofLine before).width, size, colour⟩ ∈ (ofLine (before ++ item :: after)).cells.toList :=
  mem_cells_ofLine.mpr ⟨before, item, after, rfl, h, rfl⟩

theorem inOrder_of_wholeSizes (h : ∀ e ∈ line, e.HasWholeSize) : InOrder (ofLine line) :=
  inOrder_ofLine fun e he => (h e he).hasPositiveSize

theorem inOrder_of_mem_map {rows : List (List Event)}
    (h : ∀ row ∈ rows, ∀ e ∈ row, e.HasWholeSize) : ∀ row ∈ rows.map ofLine, InOrder row :=
  List.forall_mem_map.mpr fun row hrow => inOrder_of_wholeSizes (h row hrow)

/-- The width of a row is the sum of its sizes, when that is not too large. -/
theorem isNat_width_ofLine (h : ∀ e ∈ line, e.HasWholeSize)
    (hbound : (ofLine line).width.units ≤ 2 ^ 52 * Binary64.oneUnits) :
    (ofLine line).width.IsNat (Event.rowWidth line) := by
  induction line using List.reverseRecOn with
  | nil => exact Binary64.isNat_zero
  | append_singleton line e ih =>
    have hline : ∀ e ∈ line, e.HasWholeSize := fun e he => h e (List.mem_append_left _ he)
    have he : e.HasWholeSize := h e (List.mem_append_right _ (List.mem_singleton_self e))
    have horder := inOrder_of_wholeSizes hline
    rw [ofLine_append, width_add] at hbound ⊢
    rw [Event.rowWidth_append]
    cases hadvance : e.advance? with
    | none =>
      rw [hadvance] at hbound
      exact ih hline hbound
    | some size =>
      obtain ⟨hpositive, hwhole⟩ := he size hadvance
      have hsize := Binary64.isNat_whole hpositive hwhole
      rw [hadvance] at hbound
      -- the row was shorter before
      have hshorter := (Binary64.units_le_units_add horder.width hsize.1).1
      exact (ih hline (hshorter.trans hbound)).add_of_units_le hsize hbound

/-- The height of a row is its largest item, or one. -/
theorem isNat_height_ofLine (h : ∀ e ∈ line, e.HasWholeSize) :
    (ofLine line).height.IsNat (Event.rowHeight line) := by
  have hcells : ∀ cell ∈ (ofLine line).cells.toList, cell.size.IsNat cell.size.whole := by
    intro cell hcell
    obtain ⟨before, e, after, rfl, hitem, -⟩ := mem_cells_ofLine.mp hcell
    obtain ⟨hpositive, hwhole⟩ := h e (by simp) _ (Event.advance?_of_item? hitem)
    exact Binary64.isNat_whole hpositive hwhole
  have hheight : Event.rowHeight line =
      ((ofLine line).cells.toList.map fun cell => cell.size.whole).max?.getD 1 := by
    rw [Event.rowHeight, ← map_cells_ofLine, List.map_map]
    rfl
  rw [hheight]
  cases hlist : (ofLine line).cells.toList with
  | nil =>
    rw [height_of_nil hlist]
    exact Binary64.isNat_one
  | cons first rest =>
    rw [hlist, List.forall_mem_cons] at hcells
    rw [height_of_cons hlist, List.map_cons, List.max?_cons']
    exact Binary64.isNat_foldl_max hcells.2 hcells.1

/-- Every event of a line leaves some width. -/
theorem units_width_ofLine_pos (h : ∀ e ∈ line, e.HasPositiveSize) (hbreak : .lineBreak ∉ line)
    (hne : line ≠ []) : 0 < (ofLine line).width.units := by
  obtain ⟨before, e, rfl⟩ := (List.eq_nil_or_concat' line).resolve_left hne
  have hadvance : ∃ size, e.advance? = some size ∧ size.isPositive = true := by
    have he := h e (List.mem_append_right _ (List.mem_singleton_self e))
    cases e with
    | block size colour => exact ⟨size, rfl, he⟩
    | space size => exact ⟨size, rfl, he⟩
    | lineBreak => exact absurd (List.mem_append_right _ (List.mem_singleton_self _)) hbreak
    | error message => exact ⟨1, rfl, by decide +kernel⟩
  obtain ⟨size, hsize, hpositive⟩ := hadvance
  have horder := inOrder_ofLine fun e he => h e (List.mem_append_left _ he)
  rw [ofLine_append, width_add, hsize]
  exact Nat.lt_of_lt_of_le (Binary64.units_pos_of_isPositive hpositive)
    (Binary64.units_le_units_add horder.width (Binary64.isNonneg_of_isPositive hpositive)).2

/-- Only a line without events leaves its row unused. -/
theorem isUnused_ofLine_iff (h : ∀ e ∈ line, e.HasPositiveSize) (hbreak : .lineBreak ∉ line) :
    (ofLine line).isUnused = true ↔ line = [] := by
  constructor
  · intro hunused
    by_contra hne
    have hpos := units_width_ofLine_pos h hbreak hne
    rw [((inOrder_ofLine h).isUnused_iff.mp hunused).2] at hpos
    exact Nat.lt_irrefl _ hpos
  · rintro rfl
    exact isUnused_empty

end Row

/-! ## Rows below each other -/

open Event in
/-- Rows end where their heights add up to, when that is not too large. -/
theorem isNat_bottomOf {rows : List (List Event)} (h : ∀ row ∈ rows, ∀ e ∈ row, e.HasWholeSize)
    {top : Binary64} {t : Nat} (htop : top.IsNat t)
    (hbound : (bottomOf top (rows.map Row.ofLine)).units ≤ 2 ^ 52 * Binary64.oneUnits) :
    (bottomOf top (rows.map Row.ofLine)).IsNat (t + (rows.map rowHeight).sum) := by
  induction rows generalizing top t with
  | nil => exact htop
  | cons row rows ih =>
    obtain ⟨hrow, hrows⟩ := List.forall_mem_cons.mp h
    have horder := Row.inOrder_of_mem_map hrows
    have hheight := Row.isNat_height_ofLine hrow
    rw [List.map_cons, bottomOf_cons] at hbound ⊢
    rw [List.map_cons, List.sum_cons, ← Nat.add_assoc]
    -- the rows below end further down than this one
    have hle := units_le_bottomOf (htop.1.add hheight.1) horder
    exact ih hrows (htop.add_of_units_le hheight (hle.trans hbound)) hbound

namespace Canvas

/-- The rows that count are those of the lines that become rows. -/
theorem toList_rows_of_not_overflowed {events : List Event}
    (h : ∀ e ∈ events, e.HasPositiveSize)
    (hfree : (Event.deliverAll renderer events {}).isOverflowed = false) :
    (Event.deliverAll renderer events {}).rows.toList = (Event.rows events).map Row.ofLine := by
  have hall := allRows_of_not_overflowed hfree
  generalize Event.deliverAll renderer events {} = c at hall ⊢
  obtain ⟨above, last, hlines⟩ :=
    (List.eq_nil_or_concat' (Event.lines events)).resolve_left (List.splitOn_ne_nil _ _)
  have hlast : last ∈ Event.lines events := by
    rw [hlines]
    exact List.mem_append_right _ (List.mem_singleton_self last)
  rw [allRows, hlines, List.map_append] at hall
  obtain ⟨habove, hsingle⟩ := List.append_inj' hall rfl
  have hcurrent : c.current = Row.ofLine last := List.singleton_inj.mp hsingle
  have hunused := Row.isUnused_ofLine_iff
    (fun e he => h e (Event.of_mem_lines hlast he).1)
    (fun hmem => (Event.of_mem_lines hlast hmem).2 rfl)
  rw [rows, Event.rows, hcurrent, hlines, List.getLast?_concat]
  by_cases hempty : last = []
  · rw [if_pos (hunused.mpr hempty), if_pos (congrArg some hempty), List.dropLast_concat, habove]
  · have hnone : ¬ some last = some [] := fun heq => hempty (Option.some.inj heq)
    rw [if_neg (mt hunused.mp hempty), if_neg hnone, Array.toList_push, habove, List.map_append]
    rfl

/-! ## Pixels -/

/-- What becomes a picture is not larger than the picture's sides may be. -/
theorem units_le_of_pixelLength? {x : Binary64} (hx : x.IsNonneg) {unit length : Nat}
    (hunit : 0 < unit) (h : pixelLength? x unit = some length) :
    x.units ≤ 2 ^ 52 * Binary64.oneUnits := by
  obtain ⟨pixels, hceil, hside, -⟩ := pixelLength?_eq_some_iff.mp h
  have hscaled := Binary64.units_le_of_ceilNat? (hx.scale hunit) hceil
  rw [Binary64.units_scale hx hunit] at hscaled
  calc x.units = roundedUnits x.units := hx.roundedUnits_units.symm
    _ ≤ roundedUnits (x.units * unit) := roundedUnits_mono (Nat.le_mul_of_pos_right _ hunit)
    _ ≤ pixels * Binary64.oneUnits := hscaled
    _ ≤ 2 ^ 52 * Binary64.oneUnits :=
      Nat.mul_le_mul_right _ (hside.trans (by decide))

/-- A whole number takes up `unit` pixels for each one. -/
theorem pixelLength?_of_isNat {x : Binary64} {n : Nat} (hx : x.IsNat n) {unit length : Nat}
    (hunit : 0 < unit) (h : pixelLength? x unit = some length) :
    n * unit ≤ maxSide ∧ length = max 1 (unit * n) := by
  obtain ⟨pixels, hceil, hside, rfl⟩ := pixelLength?_eq_some_iff.mp h
  have hscaled := Binary64.units_le_of_ceilNat? (hx.1.scale hunit) hceil
  rw [Binary64.units_scale hx.1 hunit, hx.2, Nat.mul_right_comm] at hscaled
  have hlimit : maxSide < 2 ^ 53 := by decide
  have hpixels : n * unit ≤ pixels :=
    Binary64.le_of_roundedUnits_le (Nat.lt_of_le_of_lt hside hlimit) hscaled
  have hexact : n * unit ≤ 2 ^ 53 := by omega
  rw [Binary64.ceilNat?_of_isNat (hx.scale hunit hexact) hexact] at hceil
  obtain rfl := Option.some.inj hceil
  exact ⟨hside, by rw [Nat.max_comm, Nat.mul_comm]⟩

/-- The canvas holds the rows, and all their sizes are whole numbers. -/
structure LaysOut (c : Canvas) (rows : List (List Event)) : Prop where
  sizes : ∀ row ∈ rows, ∀ e ∈ row, e.HasWholeSize
  inOrder : c.InOrder
  toList_rows : c.rows.toList = rows.map Row.ofLine

theorem laysOut_of_not_overflowed {events : List Event} (h : ∀ e ∈ events, e.HasWholeSize)
    (hfree : (Event.deliverAll renderer events {}).isOverflowed = false) :
    LaysOut (Event.deliverAll renderer events {}) (Event.rows events) where
  sizes _ hrow e he := h e (Event.of_mem_lines (Event.mem_lines_of_mem_rows hrow) he).1
  inOrder := InOrder.empty.deliverAll fun e he => (h e he).hasPositiveSize
  toList_rows := toList_rows_of_not_overflowed (fun e he => (h e he).hasPositiveSize) hfree

namespace LaysOut

variable {c : Canvas} {rows : List (List Event)} {unit width height : Nat}

theorem units_width_le (h : LaysOut c rows) {row : List Event} (hrow : row ∈ rows) :
    (Row.ofLine row).width.units ≤ c.width.units := by
  apply h.inOrder.units_width_le
  rw [h.toList_rows]
  exact List.mem_map_of_mem hrow

/-- The canvas is as wide as its widest row. -/
theorem isNat_width (h : LaysOut c rows)
    (hbound : c.width.units ≤ 2 ^ 52 * Binary64.oneUnits) :
    c.width.IsNat ((rows.map Event.rowWidth).foldl max 0) := by
  rw [width_eq, h.toList_rows, List.map_map]
  refine Binary64.isNat_foldl_max (fun row hrow => ?_) Binary64.isNat_zero
  exact Row.isNat_width_ofLine (h.sizes row hrow) ((h.units_width_le hrow).trans hbound)

/-- The canvas is as high as all its rows. -/
theorem isNat_height (h : LaysOut c rows)
    (hbound : c.height.units ≤ 2 ^ 52 * Binary64.oneUnits) :
    c.height.IsNat (rows.map Event.rowHeight).sum := by
  rw [height_eq, h.toList_rows] at hbound ⊢
  have hsum := isNat_bottomOf h.sizes Binary64.isNat_negativeZero hbound
  rwa [Nat.zero_add] at hsum

/-- A row ends inside the canvas. -/
theorem units_bottom_le (h : LaysOut c rows) {above below : List (List Event)}
    {row : List Event} (hrows : rows = above ++ row :: below) :
    (bottomOf 0 (above.map Row.ofLine) + (Row.ofLine row).height).units ≤ c.height.units := by
  have horder := h.inOrder.rows
  rw [← h.inOrder.units_bottomOf_rows]
  rw [h.toList_rows, hrows, List.map_append, List.map_cons] at horder ⊢
  obtain ⟨habove, hrest⟩ := List.forall_mem_append.mp horder
  obtain ⟨hrow, hbelow⟩ := List.forall_mem_cons.mp hrest
  rw [bottomOf_append, bottomOf_cons]
  exact units_le_bottomOf ((isNonneg_bottomOf Binary64.isNonneg_zero habove).add hrow.height) hbelow

section
variable (h : LaysOut c rows) (hunit : 0 < unit) {above below : List (List Event)}
  {before after : List Event} {item : Event} {size : Binary64} {colour : Colour}
  (hrows : rows = above ++ (before ++ item :: after) :: below)
  (hitem : item.item? = some (size, colour))
include h hrows hitem

theorem isNat_size : size.IsNat size.whole := by
  have hrow : before ++ item :: after ∈ rows := by simp [hrows]
  obtain ⟨hpositive, hwhole⟩ :=
    h.sizes _ hrow item (by simp) size (Event.advance?_of_item? hitem)
  exact Binary64.isNat_whole hpositive hwhole

include hunit

/-- The left and the right edge of an item. -/
theorem edges_across (hwidth : pixelLength? c.width unit = some width) :
    (Row.ofLine before).width.edge unit = unit * Event.rowWidth before ∧
      ((Row.ofLine before).width + size).edge unit =
        unit * (Event.rowWidth before + size.whole) := by
  have hrow : before ++ item :: after ∈ rows := by simp [hrows]
  have hsize := h.isNat_size hrows hitem
  have hbefore : ∀ e ∈ before, e.HasWholeSize := fun e he =>
    h.sizes _ hrow e (List.mem_append_left _ he)
  have hbound := units_le_of_pixelLength? h.inOrder.width hunit hwidth
  have hcanvas := h.isNat_width hbound
  have hside := (pixelLength?_of_isNat hcanvas hunit hwidth).1
  -- the item stands inside its row, and the row inside the canvas
  have hwithin : ((Row.ofLine before).width + size).units ≤ c.width.units := by
    have horder := Row.inOrder_of_wholeSizes (h.sizes _ hrow)
    exact (horder.within _ (Row.mem_cells_of_item? _ _ hitem)).trans (h.units_width_le hrow)
  have hplace : (Row.ofLine before).width.IsNat (Event.rowWidth before) := by
    have horder := Row.inOrder_of_wholeSizes hbefore
    have hgrows := (Binary64.units_le_units_add horder.width hsize.1).1
    exact Row.isNat_width_ofLine hbefore (hgrows.trans (hwithin.trans hbound))
  rw [hcanvas.2] at hwithin
  exact Binary64.edges_of_isNat hplace hsize hunit (hside.trans (by decide)) hwithin

/-- The upper and the lower edge of an item. -/
theorem edges_down (hheight : pixelLength? c.height unit = some height) :
    (bottomOf 0 (above.map Row.ofLine)).edge unit = unit * (above.map Event.rowHeight).sum ∧
      (bottomOf 0 (above.map Row.ofLine) + size).edge unit =
        unit * ((above.map Event.rowHeight).sum + size.whole) := by
  have hrow : before ++ item :: after ∈ rows := by simp [hrows]
  have hsize := h.isNat_size hrows hitem
  have habove : ∀ row ∈ above, ∀ e ∈ row, e.HasWholeSize := fun row hmem =>
    h.sizes row (by simp [hrows, hmem])
  have htopNonneg : (bottomOf 0 (above.map Row.ofLine)).IsNonneg :=
    isNonneg_bottomOf Binary64.isNonneg_zero (Row.inOrder_of_mem_map habove)
  have hbound := units_le_of_pixelLength? h.inOrder.height hunit hheight
  have hcanvas := h.isNat_height hbound
  have hside := (pixelLength?_of_isNat hcanvas hunit hheight).1
  -- the item is not higher than its row, and the row ends inside the canvas
  have hwithin : (bottomOf 0 (above.map Row.ofLine) + size).units ≤ c.height.units := by
    have horder := Row.inOrder_of_wholeSizes (h.sizes _ hrow)
    have hcell := Row.mem_cells_of_item? before after hitem
    refine Nat.le_trans ?_ (h.units_bottom_le hrows)
    rw [Binary64.units_add htopNonneg hsize.1, Binary64.units_add htopNonneg horder.height]
    exact roundedUnits_mono (Nat.add_le_add_left (horder.size_le_height hcell) _)
  have htop := isNat_bottomOf habove Binary64.isNat_zero
    ((Binary64.units_le_units_add htopNonneg hsize.1).1.trans (hwithin.trans hbound))
  rw [Nat.zero_add] at htop
  rw [hcanvas.2] at hwithin
  exact Binary64.edges_of_isNat htop hsize hunit (hside.trans (by decide)) hwithin

/-- The cell of an item covers the pixels of its square. -/
theorem pixels_eq (hwidth : pixelLength? c.width unit = some width)
    (hheight : pixelLength? c.height unit = some height) :
    Cell.pixels ⟨(Row.ofLine before).width, size, colour⟩ (bottomOf 0 (above.map Row.ofLine))
        unit =
      Square.pixels ⟨Event.rowWidth before, (above.map Event.rowHeight).sum, size.whole, colour⟩
        unit := by
  obtain ⟨hleft, hright⟩ := h.edges_across hunit hrows hitem hwidth
  obtain ⟨htop, hbottom⟩ := h.edges_down hunit hrows hitem hheight
  rw [Cell.pixels, Square.pixels, PixelRect.mk.injEq]
  exact ⟨hleft, hright, htop, hbottom⟩

end

/-- The patches of the canvas are the squares of its rows. -/
theorem mem_patches_iff (h : LaysOut c rows) (hunit : 0 < unit)
    (hwidth : pixelLength? c.width unit = some width)
    (hheight : pixelLength? c.height unit = some height) {p : Patch} :
    p ∈ c.patches unit ↔ ∃ q : Square, q.IsIn rows ∧ p = ⟨q.pixels unit, q.colour⟩ := by
  rw [← patchesFrom_rows, h.toList_rows, mem_patchesFrom]
  constructor
  · rintro ⟨_, _, _, hsplit, hp⟩
    obtain ⟨above, rest, hrows, rfl, hrest⟩ := List.map_eq_append_iff.mp hsplit
    obtain ⟨row, below, rfl, rfl, -⟩ := List.map_eq_cons_iff.mp hrest
    obtain ⟨⟨x, size, colour⟩, hcell, rfl⟩ := List.mem_map.mp hp
    obtain ⟨before, item, after, rfl, hitem, hx⟩ := Row.mem_cells_ofLine.mp hcell
    obtain rfl : x = (Row.ofLine before).width := hx
    rw [h.pixels_eq hunit hrows hitem hwidth hheight]
    exact ⟨⟨_, _, _, colour⟩,
      ⟨above, before, item, after, below, size, hrows, hitem, rfl, rfl, rfl⟩, rfl⟩
  · rintro ⟨⟨_, _, _, colour⟩,
      ⟨above, before, item, after, below, size, hrows, hitem, rfl, rfl, rfl⟩, rfl⟩
    rw [← h.pixels_eq hunit hrows hitem hwidth hheight]
    refine ⟨above.map Row.ofLine, Row.ofLine (before ++ item :: after), below.map Row.ofLine, ?_,
      List.mem_map.mpr ⟨_, Row.mem_cells_of_item? _ _ hitem, rfl⟩⟩
    rw [hrows, List.map_append, List.map_cons]

/-- The painted canvas shows its rows. -/
theorem shows (h : LaysOut c rows) (hunit : 0 < unit)
    (hwidth : pixelLength? c.width unit = some width)
    (hheight : pixelLength? c.height unit = some height) (name : String) (background : Colour) :
    Drawing.Shows ⟨name, c.paint unit width height background⟩ rows unit background := by
  have hpatch : ∀ q : Square, q.IsIn rows → ⟨q.pixels unit, q.colour⟩ ∈ c.patches unit :=
    fun q hq => (h.mem_patches_iff hunit hwidth hheight).mpr ⟨q, hq, rfl⟩
  have hpixel : ∀ x y, x < width → y < height → _ := fun x y hx hy =>
    h.inOrder.pixel?_paint hunit hwidth hheight name background hx hy
  obtain ⟨hw, hh⟩ := size_paint c name unit width (one_le_of_pixelLength? hheight) background
  refine
    { width := ?_
      height := ?_
      item := ?_
      single := ?_
      background := ?_
      outside := ?_ }
  · rw [hw]
    have hbound := units_le_of_pixelLength? h.inOrder.width hunit hwidth
    exact (pixelLength?_of_isNat (h.isNat_width hbound) hunit hwidth).2
  · rw [hh]
    have hbound := units_le_of_pixelLength? h.inOrder.height hunit hheight
    exact (pixelLength?_of_isNat (h.isNat_height hbound) hunit hheight).2
  · intro q hq x y hxy
    -- no square is cropped, so all its pixels lie in the picture
    obtain ⟨hright, hbottom⟩ := PixelRect.crop_eq_self_iff.mp
      (h.inOrder.crop_eq_self hunit hwidth hheight (hpatch q hq))
    have hx : x < width := Nat.lt_of_lt_of_le hxy.1.2 hright
    have hy : y < height := Nat.lt_of_lt_of_le hxy.2.2 hbottom
    exact (hpixel x y hx hy).1 _ (hpatch q hq) hxy
  · intro q r hq hr x y hqxy hrxy
    have heq := Patch.eq_of_contains (h.inOrder.apart hunit) (hpatch q hq) (hpatch r hr) hqxy hrxy
    obtain ⟨hrect, hcolour⟩ := Patch.mk.inj heq
    exact Square.eq_of_pixels_eq hunit hrect hcolour
  · intro x y hx hy hnone
    rw [hw] at hx
    rw [hh] at hy
    apply (hpixel x y hx hy).2
    intro p hp
    obtain ⟨q, hq, rfl⟩ := (h.mem_patches_iff hunit hwidth hheight).mp hp
    exact hnone q hq
  · intro x y hout
    rw [hw, hh] at hout
    rw [paint_eq_paintAll]
    exact pixel?_paintAll_eq_none name _ hout background

end LaysOut

end Canvas

/-! ## Scripts -/

namespace Script

/-- The events of a script have whole sizes when its spaces have. -/
theorem hasWholeSize_of_mem_events {source : List Char}
    (h : ∀ size, .space size ∈ commands source → size.isWhole = true) :
    ∀ e ∈ (events source).toList, e.HasWholeSize := by
  intro e he size hsize
  rw [toList_events] at he
  obtain ⟨c, hc, hmem⟩ := List.mem_flatMap.mp he
  cases c with
  | block spec =>
    obtain rfl := List.eq_of_mem_replicate hmem
    obtain rfl := Option.some.inj hsize
    exact size_of_mem_blocks hc
  | space size' =>
    obtain rfl := List.mem_singleton.mp hmem
    obtain rfl := Option.some.inj hsize
    exact ⟨isPositive_of_mem_spaces hc, h _ hc⟩
  | newline =>
    obtain rfl := List.mem_singleton.mp hmem
    cases hsize
  | mistake message =>
    obtain rfl := List.mem_singleton.mp hmem
    obtain rfl := Option.some.inj hsize
    constructor <;> decide +kernel

/-- The picture of a script whose spaces are whole numbers. All its sizes are natural numbers, and
the picture is the layout of its rows in these, exactly and pixel by pixel. -/
theorem rasterise_whole {source : List Char}
    (hspaces : ∀ size, .space size ∈ commands source → size.isWhole = true)
    {name : String} {unit : Nat} (hunit : 1 ≤ unit) {background : Colour} {drawing : Drawing}
    (hdrawing : (canvas source).rasterise name unit background = .ok drawing) :
    (∀ e ∈ (events source).toList, ∀ size, e.advance? = some size → size.IsNat size.whole) ∧
    drawing.Shows (Event.rows (events source).toList) unit background := by
  have hsizes := hasWholeSize_of_mem_events hspaces
  rw [canvas_eq_deliverAll] at hdrawing
  obtain ⟨width, height, hfree, hwidth, hheight, -, rfl⟩ :=
    Canvas.rasterise_eq_ok_iff.mp hdrawing
  rw [Nat.max_eq_left hunit] at hwidth hheight ⊢
  refine ⟨?_, ?_⟩
  · intro e he size hsize
    obtain ⟨hpositive, hwhole⟩ := hsizes e he size hsize
    exact Binary64.isNat_whole hpositive hwhole
  · exact (Canvas.laysOut_of_not_overflowed hsizes hfree).shows hunit hwidth hheight name background

/-- A row of 2, a gap of 1 and a token that is no command, above a row of 1. -/
theorem rasterise_whole_two_rows :
    let source := "block.size-2 space-1 nope end block end".toList
    (∀ size, .space size ∈ commands source → size.isWhole = true) ∧
    ∃ drawing, (canvas source).rasterise "two rows" 2 .white = .ok drawing ∧
      (drawing.width, drawing.height) = (8, 6) ∧
      drawing.pixel? 6 1 = some .magenta ∧ drawing.pixel? 6 2 = some .white ∧
      drawing.Shows (Event.rows (events source).toList) 2 .white := by
  intro source
  have hall : (commands source).all (fun c => match c with
      | .space size => size.isWhole
      | _ => true) = true := by decide +kernel
  have hspaces : ∀ size, .space size ∈ commands source → size.isWhole = true :=
    fun _ hsize => List.all_eq_true.mp hall _ hsize
  have hpixels : ((canvas source).rasterise "two rows" 2 .white).map
      (fun d => ((d.width, d.height), d.pixel? 6 1, d.pixel? 6 2)) =
        .ok ((8, 6), some .magenta, some .white) := by decide +kernel
  refine ⟨hspaces, ?_⟩
  cases hdrawing : (canvas source).rasterise "two rows" 2 .white with
  | error fault =>
    rw [hdrawing] at hpixels
    cases hpixels
  | ok drawing =>
    rw [hdrawing] at hpixels
    obtain ⟨hsize, hrest⟩ := Prod.mk.inj (Except.ok.inj hpixels)
    obtain ⟨hmagenta, hwhite⟩ := Prod.mk.inj hrest
    exact ⟨drawing, rfl, hsize, hmagenta, hwhite,
      (rasterise_whole hspaces (by decide) hdrawing).2⟩

end Script

end BlockScript
