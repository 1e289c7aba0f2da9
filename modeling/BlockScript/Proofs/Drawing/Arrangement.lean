import BlockScript.Proofs.Drawing.Capacity
import BlockScript.Proofs.Drawing.Painting
import BlockScript.Proofs.Number.Order

namespace BlockScript

/-! # Arrangement

The cells of a canvas do not overlap in its picture, and none of them is cropped, whatever their
sizes are. Every edge is rounded on its own, but rounding keeps the order: a cell ends where the
next one of its row begins, or before (`Row.InOrder`), and no cell is higher than its row, below
which the next row begins. The picture is as wide as the widest row and as high as all rows, rounded
up, and rounding an edge never exceeds that.
-/

/-- The size of a block or of a space is greater than zero. -/
def Event.HasPositiveSize : Event → Prop
  | .block size _ => size.isPositive = true
  | .space size => size.isPositive = true
  | .lineBreak => True
  | .error _ => True

instance : DecidablePred Event.HasPositiveSize := fun e => by
  cases e <;> unfold Event.HasPositiveSize <;> infer_instance

/-- What an event adds to its row is greater than zero, an error being one wide. -/
theorem Event.HasPositiveSize.isPositive_of_advance? {e : Event} (h : e.HasPositiveSize)
    {size : Binary64} (hsize : e.advance? = some size) : size.isPositive = true := by
  cases e with
  | block size' colour => exact Option.some.inj hsize ▸ h
  | space size' => exact Option.some.inj hsize ▸ h
  | lineBreak => cases hsize
  | error message =>
    rw [← Option.some.inj hsize]
    decide +kernel

/-! ## Edges -/

/-- No edge lies outside a picture that has room for its place. -/
theorem Binary64.edge_le_of_pixelLength? {x : Binary64} {unit pixels : Nat} (hunit : 0 < unit)
    (hx : x.IsNonneg) (h : Canvas.pixelLength? x unit = some pixels) : x.edge unit ≤ pixels := by
  obtain ⟨n, hceil, -, rfl⟩ := Canvas.pixelLength?_eq_some_iff.mp h
  exact (Binary64.roundNat_le_ceilNat? (hx.scale hunit) hceil).trans (Nat.le_max_left ..)

/-- What lies below something that fits a picture fits it too. -/
theorem Canvas.pixelLength?_mono {x y : Binary64} {unit pixels : Nat} (hunit : 0 < unit)
    (hx : x.IsNonneg) (hy : y.IsNonneg) (h : x.units ≤ y.units)
    (hpixels : pixelLength? y unit = some pixels) :
    ∃ fewer ≤ pixels, pixelLength? x unit = some fewer := by
  obtain ⟨n, hceil, hside, rfl⟩ := pixelLength?_eq_some_iff.mp hpixels
  have hscale : (x.scale unit).units ≤ (y.scale unit).units := by
    rw [Binary64.units_scale hx hunit, Binary64.units_scale hy hunit]
    exact roundedUnits_mono (Nat.mul_le_mul_right unit h)
  obtain ⟨m, hmn, hm⟩ := Binary64.ceilNat?_mono (hx.scale hunit) (hy.scale hunit) hscale hceil
  refine ⟨max m 1, ?_, pixelLength?_eq_some_iff.mpr ⟨m, hm, hmn.trans hside, rfl⟩⟩
  exact max_le_max_right 1 hmn

/-! ## Rows -/

namespace Row

/-- The cells of a row stand one after the other, and the row ends behind the last of them. -/
structure InOrder (row : Row) : Prop where
  width : row.width.IsNonneg
  cells : ∀ cell ∈ row.cells.toList, cell.x.IsNonneg ∧ cell.size.IsNonneg
  within : ∀ cell ∈ row.cells.toList, (cell.x + cell.size).units ≤ row.width.units
  ordered : row.cells.toList.Pairwise fun cell next => (cell.x + cell.size).units ≤ next.x.units

namespace InOrder

theorem empty : InOrder {} where
  width := Binary64.isNonneg_zero
  cells := by simp
  within := by simp
  ordered := List.Pairwise.nil

variable {row : Row}

/-- A new cell stands where the row ended, behind all others. -/
theorem place (h : InOrder row) {size : Binary64} (hsize : size.IsNonneg) (colour : Colour) :
    InOrder (row.place size colour) := by
  have hgrows : row.width.units ≤ (row.width + size).units :=
    (Binary64.units_le_units_add h.width hsize).1
  refine
    { width := h.width.add hsize
      cells := ?_
      within := ?_
      ordered := ?_ }
  · intro cell hcell
    rw [Row.place, Array.toList_push, List.mem_append, List.mem_singleton] at hcell
    rcases hcell with hcell | rfl
    · exact h.cells cell hcell
    · exact ⟨h.width, hsize⟩
  · intro cell hcell
    rw [Row.place, Array.toList_push, List.mem_append, List.mem_singleton] at hcell
    rcases hcell with hcell | rfl
    · exact (h.within cell hcell).trans hgrows
    · exact Nat.le_refl _
  · rw [Row.place, Array.toList_push, List.pairwise_append]
    refine ⟨h.ordered, List.pairwise_singleton .., ?_⟩
    intro cell hcell last hlast
    obtain rfl := List.mem_singleton.mp hlast
    exact h.within cell hcell

theorem skip (h : InOrder row) {size : Binary64} (hsize : size.IsNonneg) :
    InOrder (row.skip size) where
  width := h.width.add hsize
  cells := h.cells
  within cell hcell :=
    (h.within cell hcell).trans (Binary64.units_le_units_add h.width hsize).1
  ordered := h.ordered

theorem add (h : InOrder row) {e : Event} (he : e.HasPositiveSize) : InOrder (row.add e) := by
  cases e with
  | block size colour => exact h.place (Binary64.isNonneg_of_isPositive he) colour
  | space size => exact h.skip (Binary64.isNonneg_of_isPositive he)
  | lineBreak => exact h
  | error message => exact h.place (Binary64.isNonneg_ofNat 1) .magenta

end InOrder

theorem inOrder_ofLine {line : List Event} (h : ∀ e ∈ line, e.HasPositiveSize) :
    InOrder (ofLine line) := by
  induction line using List.reverseRecOn with
  | nil => exact InOrder.empty
  | append_singleton line e ih =>
    rw [ofLine_append]
    have hline : InOrder (ofLine line) := ih fun e' he' => h e' (List.mem_append_left _ he')
    exact hline.add (h e (List.mem_append_right _ (List.mem_singleton_self e)))

namespace InOrder

variable {row : Row}

theorem sizes (h : InOrder row) : ∀ size ∈ row.cells.toList.map Cell.size, size.IsNonneg := by
  intro size hsize
  obtain ⟨cell, hcell, rfl⟩ := List.mem_map.mp hsize
  exact (h.cells cell hcell).2

theorem height (h : InOrder row) : row.height.IsNonneg := by
  cases hcells : row.cells.toList with
  | nil =>
    rw [height_of_nil hcells]
    exact Binary64.isNonneg_ofNat 1
  | cons first rest =>
    have hsizes := h.sizes
    rw [hcells, List.map_cons, List.forall_mem_cons] at hsizes
    rw [height_of_cons hcells]
    exact (Binary64.foldl_max_of_isNonneg hsizes.2 hsizes.1).1

/-- No cell is higher than its row. -/
theorem size_le_height (h : InOrder row) {cell : Cell} (hcell : cell ∈ row.cells.toList) :
    cell.size.units ≤ row.height.units := by
  cases hcells : row.cells.toList with
  | nil =>
    rw [hcells] at hcell
    cases hcell
  | cons first rest =>
    have hsizes := h.sizes
    rw [hcells, List.map_cons, List.forall_mem_cons] at hsizes
    rw [height_of_cons hcells]
    rw [hcells] at hcell
    exact Binary64.units_le_foldl_max hsizes.2 hsizes.1 (List.mem_map_of_mem (f := Cell.size) hcell)

variable {top : Binary64} {unit : Nat}

/-- A patch of a row begins at its top and ends above its bottom, inside its width. -/
theorem of_mem_patches (h : InOrder row) (hunit : 0 < unit) (htop : top.IsNonneg) {p : Patch}
    (hp : p ∈ row.patches unit top) :
    p.rect.top = top.edge unit ∧ p.rect.bottom ≤ (top + row.height).edge unit ∧
      p.rect.right ≤ row.width.edge unit := by
  obtain ⟨cell, hcell, rfl⟩ := List.mem_map.mp hp
  obtain ⟨hx, hsize⟩ := h.cells cell hcell
  refine ⟨rfl, ?_, ?_⟩
  · apply Binary64.edge_mono hunit (htop.add hsize) (htop.add h.height)
    rw [Binary64.units_add htop hsize, Binary64.units_add htop h.height]
    exact roundedUnits_mono (Nat.add_le_add_left (h.size_le_height hcell) _)
  · exact Binary64.edge_mono hunit (hx.add hsize) h.width (h.within cell hcell)

/-- The patches of one row stand side by side. -/
theorem apart_patches (h : InOrder row) (hunit : 0 < unit) (top : Binary64) :
    Patch.Apart (row.patches unit top) := by
  rw [Patch.Apart, Row.patches, List.pairwise_map]
  refine h.ordered.imp_of_mem ?_
  intro cell next hcell hnext hle
  obtain ⟨hx, hsize⟩ := h.cells cell hcell
  exact PixelRect.disjoint_of_right_le
    (Binary64.edge_mono hunit (hx.add hsize) (h.cells next hnext).1 hle)

end InOrder

end Row

/-- Just the rows that have neither cells nor a width are not in use. -/
theorem Row.InOrder.isUnused_iff {row : Row} (h : row.InOrder) :
    row.isUnused = true ↔ row.cells = #[] ∧ row.width.units = 0 := by
  have hsame : row.width.same 0 = decide (row.width.units = 0) := by
    unfold Binary64.same
    rw [h.width.1, Binary64.isNonneg_zero.1, h.width.rank_eq, Binary64.isNonneg_zero.rank_eq,
      Binary64.units_zero]
    simp
  unfold Row.isUnused
  rw [Bool.and_eq_true, Array.isEmpty_iff, hsame, decide_eq_true_iff]

theorem Row.isUnused_empty : ({} : Row).isUnused = true :=
  Row.InOrder.empty.isUnused_iff.mpr ⟨rfl, Binary64.units_zero⟩

/-! ## Rows below each other -/

section
variable {rows : List Row} {top : Binary64} {unit : Nat}

theorem bottomOf_cons (top : Binary64) (row : Row) (rows : List Row) :
    bottomOf top (row :: rows) = bottomOf (top + row.height) rows := rfl

theorem bottomOf_append (top : Binary64) (rows more : List Row) :
    bottomOf top (rows ++ more) = bottomOf (bottomOf top rows) more := List.foldl_append

theorem isNonneg_bottomOf (htop : top.IsNonneg) (h : ∀ row ∈ rows, row.InOrder) :
    (bottomOf top rows).IsNonneg := by
  induction rows generalizing top with
  | nil => exact htop
  | cons row rows ih =>
    obtain ⟨hrow, hrows⟩ := List.forall_mem_cons.mp h
    exact ih (htop.add hrow.height) hrows

/-- Rows end below the place where they begin. -/
theorem units_le_bottomOf (htop : top.IsNonneg) (h : ∀ row ∈ rows, row.InOrder) :
    top.units ≤ (bottomOf top rows).units := by
  induction rows generalizing top with
  | nil => exact Nat.le_refl _
  | cons row rows ih =>
    obtain ⟨hrow, hrows⟩ := List.forall_mem_cons.mp h
    exact (Binary64.units_le_units_add htop hrow.height).1.trans (ih (htop.add hrow.height) hrows)

/-- Where rows end depends on the place of their top only, not on the sign of a zero. -/
theorem units_bottomOf_congr {other : Binary64} (htop : top.IsNonneg) (hother : other.IsNonneg)
    (heq : top.units = other.units) (h : ∀ row ∈ rows, row.InOrder) :
    (bottomOf top rows).units = (bottomOf other rows).units := by
  induction rows generalizing top other with
  | nil => exact heq
  | cons row rows ih =>
    obtain ⟨hrow, hrows⟩ := List.forall_mem_cons.mp h
    apply ih (htop.add hrow.height) (hother.add hrow.height) _ hrows
    rw [Binary64.units_add htop hrow.height, Binary64.units_add hother hrow.height, heq]

/-- Every patch lies between the top and the bottom of the rows, and inside the width of its row. -/
theorem of_mem_patchesFrom (hunit : 0 < unit) (htop : top.IsNonneg) (h : ∀ row ∈ rows, row.InOrder)
    {p : Patch} (hp : p ∈ patchesFrom unit top rows) :
    top.edge unit ≤ p.rect.top ∧ p.rect.bottom ≤ (bottomOf top rows).edge unit ∧
      ∃ row ∈ rows, p.rect.right ≤ row.width.edge unit := by
  obtain ⟨above, row, below, rfl, hpRow⟩ := mem_patchesFrom.mp hp
  obtain ⟨habove, hrest⟩ := List.forall_mem_append.mp h
  obtain ⟨hrow, hbelow⟩ := List.forall_mem_cons.mp hrest
  have hrowTop : (bottomOf top above).IsNonneg := isNonneg_bottomOf htop habove
  have hrowBottom : (bottomOf top above + row.height).IsNonneg := hrowTop.add hrow.height
  obtain ⟨hptop, hpbottom, hpright⟩ := hrow.of_mem_patches hunit hrowTop hpRow
  refine ⟨?_, ?_, row, List.mem_append_right _ List.mem_cons_self, hpright⟩
  · rw [hptop]
    exact Binary64.edge_mono hunit htop hrowTop (units_le_bottomOf htop habove)
  · refine hpbottom.trans ?_
    rw [bottomOf_append, bottomOf_cons]
    exact Binary64.edge_mono hunit hrowBottom (isNonneg_bottomOf hrowBottom hbelow)
      (units_le_bottomOf hrowBottom hbelow)

/-- No pixel lies in two patches: those of one row stand side by side, and those of a later row
begin below it. -/
theorem apart_patchesFrom (hunit : 0 < unit) (htop : top.IsNonneg)
    (h : ∀ row ∈ rows, row.InOrder) : Patch.Apart (patchesFrom unit top rows) := by
  induction rows generalizing top with
  | nil => exact List.Pairwise.nil
  | cons row rows ih =>
    obtain ⟨hrow, hrows⟩ := List.forall_mem_cons.mp h
    have hbottom : (top + row.height).IsNonneg := htop.add hrow.height
    rw [patchesFrom, Patch.Apart, List.pairwise_append]
    refine ⟨hrow.apart_patches hunit top, ih hbottom hrows, ?_⟩
    intro p hp q hq
    have hpbottom := (hrow.of_mem_patches hunit htop hp).2.1
    have hqtop := (of_mem_patchesFrom hunit hbottom hrows hq).1
    exact PixelRect.disjoint_of_bottom_le (hpbottom.trans hqtop)

end

/-! ## The canvas -/

namespace Canvas

/-- Every row of the canvas is in order. -/
def InOrder (c : Canvas) : Prop := ∀ row ∈ c.allRows, row.InOrder

/-- The rows that count are rows of the canvas. -/
theorem mem_allRows_of_mem_rows {c : Canvas} {row : Row} (h : row ∈ c.rows.toList) :
    row ∈ c.allRows := by
  rw [rows] at h
  split at h
  · exact List.mem_append_left _ h
  · rwa [Array.toList_push] at h

/-! ## Events on a canvas -/

/-- An item is put at the end of the current row, or dropped; the end moves in both cases. -/
theorem place_cases (c : Canvas) (size : Binary64) (colour : Colour) :
    (c.place size colour).above = c.above ∧
      (((c.place size colour).current = c.current.place size colour ∧
          (c.place size colour).dropped = c.dropped) ∨
        ((c.place size colour).current = c.current.skip size ∧
          c.dropped ≤ (c.place size colour).dropped)) := by
  rcases Nat.lt_or_ge c.placed maxItems with h | h
  · rw [place_of_lt h]
    exact ⟨rfl, Or.inl ⟨rfl, rfl⟩⟩
  · rw [place_of_le h]
    exact ⟨rfl, Or.inr ⟨rfl, Nat.le_succ _⟩⟩

/-- What an event does to a canvas. A line break ends the current row; any other event moves the end
of the row by its size, and what it shows is put there or dropped. -/
theorem deliver_cases (c : Canvas) (e : Event) :
    (e = .lineBreak ∧ e.deliver renderer c = c.lineBreak) ∨
    ∃ size, e.advance? = some size ∧ (e.deliver renderer c).above = c.above ∧
      ((∃ colour, e.item? = some (size, colour) ∧
          (e.deliver renderer c).current = c.current.place size colour ∧
          (e.deliver renderer c).dropped = c.dropped) ∨
        ((e.deliver renderer c).current = c.current.skip size ∧
          c.dropped ≤ (e.deliver renderer c).dropped)) := by
  cases e with
  | block size colour =>
    obtain ⟨habove, hend⟩ := c.place_cases size colour
    exact Or.inr ⟨size, rfl, habove, hend.imp_left fun h => ⟨colour, rfl, h⟩⟩
  | space size => exact Or.inr ⟨size, rfl, rfl, Or.inr ⟨rfl, Nat.le_refl _⟩⟩
  | lineBreak => exact Or.inl ⟨rfl, rfl⟩
  | error message =>
    obtain ⟨habove, hend⟩ := c.place_cases 1 .magenta
    exact Or.inr ⟨1, rfl, habove, hend.imp_left fun h => ⟨.magenta, rfl, h⟩⟩

variable {c : Canvas} {unit : Nat}

theorem InOrder.empty : InOrder {} := fun _ hmem => List.mem_singleton.mp hmem ▸ .empty

theorem InOrder.current (h : c.InOrder) : c.current.InOrder :=
  h _ (List.mem_append_right _ (List.mem_singleton_self _))

/-- Every event keeps the rows in order, also one that a full canvas drops. -/
theorem InOrder.deliver (h : c.InOrder) {e : Event} (he : e.HasPositiveSize) :
    (e.deliver renderer c).InOrder := by
  have habove : ∀ row ∈ c.above.toList, row.InOrder := (List.forall_mem_append.mp h).1
  rcases c.deliver_cases e with ⟨-, hbreak⟩ | ⟨size, hsize, hsame, hend⟩
  · rw [hbreak]
    unfold InOrder allRows Canvas.lineBreak
    rw [Array.toList_push]
    exact List.forall_mem_append.mpr ⟨h, fun _ hmem => List.mem_singleton.mp hmem ▸ .empty⟩
  · have hnonneg : size.IsNonneg :=
      Binary64.isNonneg_of_isPositive (he.isPositive_of_advance? hsize)
    unfold InOrder allRows
    rw [hsame]
    refine List.forall_mem_append.mpr ⟨habove, ?_⟩
    intro row hmem
    rw [List.mem_singleton.mp hmem]
    rcases hend with ⟨colour, -, hplace, -⟩ | ⟨hskip, -⟩
    · rw [hplace]
      exact h.current.place hnonneg colour
    · rw [hskip]
      exact h.current.skip hnonneg

/-- So every canvas has its rows in order. -/
theorem InOrder.deliverAll (h : c.InOrder) {events : List Event}
    (hsizes : ∀ e ∈ events, e.HasPositiveSize) : (Event.deliverAll renderer events c).InOrder := by
  induction events generalizing c with
  | nil => exact h
  | cons e events ih =>
    obtain ⟨he, hrest⟩ := List.forall_mem_cons.mp hsizes
    exact ih (h.deliver he) hrest

/-- A row is in use after any event that is no line break, also on a full canvas. -/
theorem InOrder.isUnused_deliver (h : c.InOrder) {e : Event} (he : e.HasPositiveSize)
    (hbreak : e ≠ .lineBreak) : (e.deliver renderer c).current.isUnused = false := by
  have horder := (h.deliver he).current
  rcases c.deliver_cases e with ⟨heq, -⟩ | ⟨size, hsize, -, hend⟩
  · exact absurd heq hbreak
  -- the row ends behind the size of the event, which is not zero
  have hpositive := he.isPositive_of_advance? hsize
  have hwidth : (e.deliver renderer c).current.width = c.current.width + size := by
    rcases hend with ⟨colour, -, hcurrent, -⟩ | ⟨hcurrent, -⟩
    · rw [hcurrent]
      rfl
    · rw [hcurrent]
      rfl
  have hunits : 0 < (e.deliver renderer c).current.width.units := by
    rw [hwidth]
    calc 0 < size.units := Binary64.units_pos_of_isPositive hpositive
      _ ≤ (c.current.width + size).units :=
        (Binary64.units_le_units_add h.current.width
          (Binary64.isNonneg_of_isPositive hpositive)).2
  rw [Bool.eq_false_iff]
  intro hunused
  have hzero := (horder.isUnused_iff.mp hunused).2
  omega

/-! ## The rows that count -/

/-- The rows that count when the current one does. -/
theorem toList_rows_of_used (h : c.current.isUnused = false) :
    c.rows.toList = c.above.toList ++ [c.current] := by
  unfold rows
  rw [h]
  exact Array.toList_push

theorem toList_rows_of_unused (h : c.current.isUnused = true) :
    c.rows.toList = c.above.toList := by
  unfold rows
  rw [if_pos h]

theorem InOrder.rows (h : c.InOrder) : ∀ row ∈ c.rows.toList, row.InOrder :=
  fun _ hrow => h _ (mem_allRows_of_mem_rows hrow)

theorem InOrder.apart (h : c.InOrder) (hunit : 0 < unit) : Patch.Apart (c.patches unit) := by
  rw [← patchesFrom_rows]
  exact apart_patchesFrom hunit Binary64.isNonneg_zero h.rows

theorem width_eq (c : Canvas) : c.width = (c.rows.toList.map Row.width).foldl max 0 := by
  rw [width, ← Array.foldl_toList, List.foldl_map]

theorem height_eq (c : Canvas) : c.height = bottomOf Binary64.negativeZero c.rows.toList := by
  rw [height, ← Array.foldl_toList, bottomOf]

theorem InOrder.widths (h : c.InOrder) :
    ∀ width ∈ c.rows.toList.map Row.width, width.IsNonneg := by
  intro width hwidth
  obtain ⟨row, hrow, rfl⟩ := List.mem_map.mp hwidth
  exact (h.rows row hrow).width

theorem InOrder.width (h : c.InOrder) : c.width.IsNonneg := by
  rw [width_eq]
  exact (Binary64.foldl_max_of_isNonneg h.widths Binary64.isNonneg_zero).1

theorem InOrder.height (h : c.InOrder) : c.height.IsNonneg := by
  rw [height_eq]
  exact isNonneg_bottomOf Binary64.isNonneg_negativeZero h.rows

/-- No row is wider than the canvas. -/
theorem InOrder.units_width_le (h : c.InOrder) {row : Row} (hrow : row ∈ c.rows.toList) :
    row.width.units ≤ c.width.units := by
  rw [width_eq]
  exact Binary64.units_le_foldl_max h.widths Binary64.isNonneg_zero
    (List.mem_cons_of_mem _ (List.mem_map_of_mem hrow))

/-- The rows end at the height of the canvas, whose sum starts from the negative zero. -/
theorem InOrder.units_bottomOf_rows (h : c.InOrder) :
    (bottomOf 0 c.rows.toList).units = c.height.units := by
  rw [height_eq]
  apply units_bottomOf_congr Binary64.isNonneg_zero Binary64.isNonneg_negativeZero _ h.rows
  rw [Binary64.units_zero, Binary64.units_negativeZero]

/-- Every patch lies inside a picture of the size that the canvas asks for. -/
theorem InOrder.crop_eq_self (h : c.InOrder) (hunit : 0 < unit) {width height : Nat}
    (hwidth : pixelLength? c.width unit = some width)
    (hheight : pixelLength? c.height unit = some height) {p : Patch} (hp : p ∈ c.patches unit) :
    p.rect.crop width height = p.rect := by
  rw [← patchesFrom_rows] at hp
  obtain ⟨-, hbottom, row, hrow, hright⟩ :=
    of_mem_patchesFrom hunit Binary64.isNonneg_zero h.rows hp
  refine PixelRect.crop_eq_self_iff.mpr ⟨?_, ?_⟩
  · calc p.rect.right ≤ row.width.edge unit := hright
      _ ≤ c.width.edge unit :=
        Binary64.edge_mono hunit (h.rows row hrow).width h.width (h.units_width_le hrow)
      _ ≤ width := Binary64.edge_le_of_pixelLength? hunit h.width hwidth
  · calc p.rect.bottom ≤ (bottomOf 0 c.rows.toList).edge unit := hbottom
      _ ≤ c.height.edge unit := Binary64.edge_mono hunit
          (isNonneg_bottomOf Binary64.isNonneg_zero h.rows) h.height
          (Nat.le_of_eq h.units_bottomOf_rows)
      _ ≤ height := Binary64.edge_le_of_pixelLength? hunit h.height hheight

/-- So nothing is cropped when the canvas is painted. -/
theorem InOrder.paint_eq (h : c.InOrder) (hunit : 0 < unit) {width height : Nat}
    (hwidth : pixelLength? c.width unit = some width)
    (hheight : pixelLength? c.height unit = some height) (background : Colour) :
    c.paint unit width height background =
      Patch.paintAll (c.patches unit) (blankRows width height background) := by
  have hcrop : (c.patches unit).map (Patch.crop width height) = c.patches unit := by
    conv => rhs; rw [← List.map_id (c.patches unit)]
    apply List.map_congr_left
    intro p hp
    rw [Patch.crop, h.crop_eq_self hunit hwidth hheight hp]
    rfl
  rw [paint_eq_paintAll, hcrop]

/-- A pixel shows the patch that holds it, and there is at most one; otherwise the background. -/
theorem InOrder.pixel?_paint (h : c.InOrder) (hunit : 0 < unit) {width height : Nat}
    (hwidth : pixelLength? c.width unit = some width)
    (hheight : pixelLength? c.height unit = some height) (name : String) (background : Colour)
    {x y : Nat} (hx : x < width) (hy : y < height) :
    (∀ p ∈ c.patches unit, p.rect.Contains x y →
      Drawing.pixel? ⟨name, c.paint unit width height background⟩ x y = some p.colour) ∧
    ((∀ p ∈ c.patches unit, ¬ p.rect.Contains x y) →
      Drawing.pixel? ⟨name, c.paint unit width height background⟩ x y = some background) := by
  rw [h.paint_eq hunit hwidth hheight, pixel?_paintAll_blankRows name _ hx hy]
  constructor
  · intro p hp hxy
    rw [Patch.colourAt_of_mem (h.apart hunit) hp hxy]
  · intro hnone
    rw [Patch.colourAt_of_forall_not hnone]

/-- When a canvas has a picture, so has one that is no larger and has dropped no more, and that
picture is no larger either. -/
theorem InOrder.rasterise_of_le {d : Canvas} (h : c.InOrder) (hd : d.InOrder)
    (hwidth : c.width.units ≤ d.width.units) (hheight : c.height.units ≤ d.height.units)
    (hdropped : c.dropped ≤ d.dropped) {name : String} {background : Colour} {larger : Drawing}
    (hlarger : d.rasterise name unit background = .ok larger) :
    ∃ drawing, c.rasterise name unit background = .ok drawing ∧
      drawing.width ≤ larger.width ∧ drawing.height ≤ larger.height := by
  obtain ⟨wide, high, hfree, hwide, hhigh, hpixels, rfl⟩ := rasterise_eq_ok_iff.mp hlarger
  have hunit : 0 < max unit 1 := by omega
  obtain ⟨width, hwidth, hw⟩ := pixelLength?_mono hunit h.width hd.width hwidth hwide
  obtain ⟨height, hheight, hh⟩ := pixelLength?_mono hunit h.height hd.height hheight hhigh
  have hkept : c.isOverflowed = false := by
    unfold isOverflowed at hfree ⊢
    rw [decide_eq_false_iff_not] at hfree ⊢
    omega
  have hsize := size_paint c name (max unit 1) width (one_le_of_pixelLength? hh) background
  have hlarge := size_paint d name (max unit 1) wide (one_le_of_pixelLength? hhigh) background
  refine ⟨_, rasterise_eq_ok_iff.mpr ⟨width, height, hkept, hw, hh, ?_, rfl⟩, ?_, ?_⟩
  · exact (Nat.mul_le_mul hwidth hheight).trans hpixels
  · rw [hsize.1, hlarge.1]
    exact hwidth
  · rw [hsize.2, hlarge.2]
    exact hheight

/-- In the picture of a canvas no two cells share a pixel and none is cropped. So a pixel shows the
one cell that holds it, or the background, and the cells may be painted in any order. -/
theorem rasterise_keeps_apart {events : List Event} (hsizes : ∀ e ∈ events, e.HasPositiveSize)
    {name : String} {unit : Nat} {background : Colour} {drawing : Drawing}
    (hdrawing : (Event.deliverAll renderer events {}).rasterise name unit background =
      .ok drawing) :
    let patches := (Event.deliverAll renderer events {}).patches (max unit 1)
    patches.Pairwise (fun p q => p.rect.Disjoint q.rect) ∧
    (∀ p ∈ patches, p.rect.crop drawing.width drawing.height = p.rect) ∧
    (∀ x y, x < drawing.width → y < drawing.height →
      (∀ p ∈ patches, p.rect.Contains x y → drawing.pixel? x y = some p.colour) ∧
      ((∀ p ∈ patches, ¬ p.rect.Contains x y) → drawing.pixel? x y = some background)) ∧
    ∀ other : List Patch, other.Perm patches →
      drawing.rows =
        Patch.paintAll other (blankRows drawing.width drawing.height background) := by
  obtain ⟨width, height, hfree, hwidth, hheight, -, rfl⟩ := rasterise_eq_ok_iff.mp hdrawing
  have hunit : 0 < max unit 1 := by omega
  have horder := InOrder.empty.deliverAll hsizes
  obtain ⟨hw, hh⟩ := size_paint (Event.deliverAll renderer events {}) name (max unit 1) width
    (one_le_of_pixelLength? hheight) background
  refine ⟨horder.apart hunit, ?_, ?_, ?_⟩
  · intro p hp
    rw [hw, hh]
    exact horder.crop_eq_self hunit hwidth hheight hp
  · intro x y hx hy
    rw [hw] at hx
    rw [hh] at hy
    exact horder.pixel?_paint hunit hwidth hheight name background hx hy
  · intro other hperm
    rw [hw, hh, Patch.paintAll_perm (horder.apart hunit) hperm]
    exact horder.paint_eq hunit hwidth hheight background

/-- Two rows with sizes of 0.6, 0.3, 1 and 1.7: no edge but the first falls on a whole pixel. -/
theorem rasterise_keeps_apart_tenths :
    let tenths (n : Nat) : Binary64 := .ofRatio false (n * Binary64.oneUnits) 10
    let events : List Event :=
      [.block (tenths 6) .black, .space (tenths 3), .error "?", .lineBreak,
        .block (tenths 17) .black]
    (∀ e ∈ events, e.HasPositiveSize) ∧
    ∃ drawing,
      (Event.deliverAll renderer events {}).rasterise "steps" 3 .white = .ok drawing ∧
      (drawing.width, drawing.height) = (6, 9) ∧
      drawing.pixel? 3 2 = some .magenta ∧
      drawing.pixel? 2 0 = some .white ∧
      drawing.rows =
        Patch.paintAll ((Event.deliverAll renderer events {}).patches 3).reverse
          (blankRows drawing.width drawing.height .white) := by
  intro tenths events
  have hsizes : ∀ e ∈ events, e.HasPositiveSize := by decide +kernel
  have hsize : ((Event.deliverAll renderer events {}).rasterise "steps" 3 .white).map
      (fun d => (d.width, d.height)) = .ok (6, 9) := by decide +kernel
  refine ⟨hsizes, ?_⟩
  cases hdrawing : (Event.deliverAll renderer events {}).rasterise "steps" 3 .white with
  | error fault =>
    rw [hdrawing] at hsize
    cases hsize
  | ok drawing =>
    rw [hdrawing] at hsize
    obtain ⟨hwidth, hheight⟩ := Prod.mk.inj (Except.ok.inj hsize)
    obtain ⟨-, -, hpixels, hpaint⟩ := rasterise_keeps_apart hsizes hdrawing
    have hheld := (hpixels 3 2 (by omega) (by omega)).1 ⟨⟨3, 6, 0, 3⟩, .magenta⟩
      (by decide +kernel) (by decide)
    have hfree := (hpixels 2 0 (by omega) (by omega)).2 (by decide +kernel)
    exact ⟨drawing, rfl, Except.ok.inj hsize, hheld, hfree,
      hpaint _ (List.reverse_perm _)⟩

end Canvas

end BlockScript
