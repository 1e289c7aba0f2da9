import BlockScript.Proofs.Drawing.DrawnSizes
import BlockScript.Proofs.Drawing.Limits
import BlockScript.Proofs.Script.Joining

namespace BlockScript

/-! # Growth of pictures

A script that goes on never gets a smaller picture. Each event makes the last row larger or begins a
new one (`Canvas.InOrder.isWithin_deliver`), and sums and maxima keep the order of what they are
made from, although they are rounded. The height of a row needs some care: a row without items
counts as one high, until its first item takes over. But a script has no blocks smaller than one
(`Script.isSolid_of_mem_events`).
-/

/-! ## Events without small blocks -/

namespace Event

/-- What the event shows is one wide at least, and a space is not empty. -/
structure IsSolid (e : Event) : Prop where
  hasPositiveSize : e.HasPositiveSize
  one_le : ∀ size colour, e.item? = some (size, colour) → Binary64.oneUnits ≤ size.units

end Event

theorem Script.isSolid_of_mem_events {source : List Char} {e : Event}
    (h : e ∈ (events source).toList) : e.IsSolid := by
  constructor
  · exact hasPositiveSize_of_mem_events h
  · intro size colour hitem
    cases e with
    | block size' colour' =>
      rcases Prod.mk.inj (Option.some.inj hitem) with ⟨rfl, -⟩
      rcases mem_blocks_of_mem_events h with ⟨spec, hspec, rfl⟩
      -- a block is a whole number of units wide, and not none
      rcases isPositiveNat_of_mem_blocks hspec with ⟨-, n, hn, hnat⟩
      rw [hnat.2]
      exact Nat.le_mul_of_pos_left _ hn
    | error message =>
      rcases Prod.mk.inj (Option.some.inj hitem) with ⟨rfl, -⟩
      exact Nat.le_of_eq Binary64.units_one.symm
    | space size' => cases hitem
    | lineBreak => cases hitem

/-! ## Rows -/

namespace Row

/-- A row is neither wider nor higher than another. -/
structure IsWithin (row other : Row) : Prop where
  width : row.width.units ≤ other.width.units
  height : row.height.units ≤ other.height.units

theorem IsWithin.refl (row : Row) : row.IsWithin row := ⟨Nat.le_refl _, Nat.le_refl _⟩

namespace InOrder

variable {row : Row} {size : Binary64}

theorem isWithin_skip (h : row.InOrder) (hsize : size.IsNonneg) : row.IsWithin (row.skip size) where
  width := (Binary64.units_le_units_add h.width hsize).1
  height := Nat.le_refl _

/-- An item makes its row larger, if it is not the first and smaller than one. -/
theorem isWithin_place (h : row.InOrder) (hsize : size.IsNonneg)
    (hone : Binary64.oneUnits ≤ size.units) (colour : Colour) :
    row.IsWithin (row.place size colour) := by
  constructor
  · exact (Binary64.units_le_units_add h.width hsize).1
  · have hpush : (row.place size colour).cells.toList =
        row.cells.toList ++ [⟨row.width, size, colour⟩] := Array.toList_push
    cases hcells : row.cells.toList with
    | nil =>
      rw [hcells] at hpush
      rw [height_of_nil hcells, height_of_cons hpush, Binary64.units_one]
      exact hone
    | cons first rest =>
      rw [hcells, List.cons_append] at hpush
      have htallest : (row.place size colour).height = max row.height size := by
        rw [height_of_cons hpush, height_of_cons hcells, List.map_append, List.foldl_append]
        rfl
      rw [htallest, Binary64.units_max h.height hsize]
      exact Nat.le_max_left ..

end InOrder

end Row

/-! ## The canvas -/

namespace Canvas

/-- A canvas is neither wider nor higher than another, and has dropped no more. -/
structure IsWithin (c d : Canvas) : Prop where
  width : c.width.units ≤ d.width.units
  height : c.height.units ≤ d.height.units
  dropped : c.dropped ≤ d.dropped

theorem IsWithin.refl (c : Canvas) : c.IsWithin c :=
  ⟨Nat.le_refl _, Nat.le_refl _, Nat.le_refl _⟩

theorem IsWithin.trans {c d e : Canvas} (h : c.IsWithin d) (h' : d.IsWithin e) : c.IsWithin e where
  width := h.width.trans h'.width
  height := h.height.trans h'.height
  dropped := h.dropped.trans h'.dropped

variable {c d : Canvas}

/-- A last row makes a canvas larger, if it is new or has grown. -/
theorem InOrder.isWithin_of_rows (h : c.InOrder) (hd : d.InOrder) {last : Row}
    (hrows : d.rows.toList = c.above.toList ++ [last]) (hlast : c.current.IsWithin last)
    (hdropped : c.dropped ≤ d.dropped) : c.IsWithin d := by
  have horder := hd.rows
  rw [hrows] at horder
  rcases List.forall_mem_append.mp horder with ⟨habove, hend⟩
  have hrow : last.InOrder := hend last (List.mem_singleton_self last)
  -- what the rows above amount to
  have hwide : ((c.above.toList.map Row.width).foldl max 0).IsNonneg := by
    refine (Binary64.foldl_max_of_isNonneg ?_ Binary64.isNonneg_zero).1
    intro width hwidth
    rcases List.mem_map.mp hwidth with ⟨row, hmem, rfl⟩
    exact (habove row hmem).width
  have hhigh : (bottomOf Binary64.negativeZero c.above.toList).IsNonneg :=
    isNonneg_bottomOf Binary64.isNonneg_negativeZero habove
  have hwidth : d.width = max ((c.above.toList.map Row.width).foldl max 0) last.width := by
    rw [width_eq, hrows, List.map_append, List.foldl_append]
    rfl
  have hheight : d.height = bottomOf Binary64.negativeZero c.above.toList + last.height := by
    rw [height_eq, hrows, bottomOf_append]
    rfl
  cases hunused : c.current.isUnused with
  | true =>
    have hbefore := toList_rows_of_unused hunused
    refine ⟨?_, ?_, hdropped⟩
    · rw [hwidth, Binary64.units_max hwide hrow.width, width_eq, hbefore]
      exact Nat.le_max_left ..
    · rw [hheight, height_eq, hbefore]
      exact (Binary64.units_le_units_add hhigh hrow.height).1
  | false =>
    have hbefore := toList_rows_of_used hunused
    refine ⟨?_, ?_, hdropped⟩
    · rw [width_eq, hbefore, List.map_append, List.foldl_append]
      show (max _ c.current.width).units ≤ _
      rw [hwidth, Binary64.units_max hwide h.current.width, Binary64.units_max hwide hrow.width]
      exact max_le_max_left _ hlast.width
    · rw [height_eq, hbefore, bottomOf_append]
      show (_ + c.current.height).units ≤ _
      rw [hheight, Binary64.units_add hhigh h.current.height,
        Binary64.units_add hhigh hrow.height]
      exact roundedUnits_mono (Nat.add_le_add_left hlast.height _)

/-- No event makes a canvas smaller. -/
theorem InOrder.isWithin_deliver (h : c.InOrder) {e : Event} (he : e.IsSolid) :
    c.IsWithin (e.deliver renderer c) := by
  have horder := h.deliver he.hasPositiveSize
  rcases c.deliver_cases e with ⟨-, hbreak⟩ | ⟨size, hsize, habove, hend⟩
  · rw [hbreak] at horder ⊢
    have hunused : c.lineBreak.current.isUnused = true := Row.isUnused_empty
    refine h.isWithin_of_rows horder ?_ (Row.IsWithin.refl c.current) (Nat.le_refl _)
    rw [toList_rows_of_unused hunused]
    exact Array.toList_push
  · have hbreak : e ≠ .lineBreak := by
      rintro rfl
      cases hsize
    have hused := h.isUnused_deliver he.hasPositiveSize hbreak
    have hnonneg : size.IsNonneg :=
      Binary64.isNonneg_of_isPositive (he.hasPositiveSize.isPositive_of_advance? hsize)
    have hrows := toList_rows_of_used hused
    rw [habove] at hrows
    rcases hend with ⟨colour, hitem, hcurrent, hdropped⟩ | ⟨hcurrent, hdropped⟩
    · refine h.isWithin_of_rows horder hrows ?_ (Nat.le_of_eq hdropped.symm)
      rw [hcurrent]
      exact h.current.isWithin_place hnonneg (he.one_le size colour hitem) colour
    · refine h.isWithin_of_rows horder hrows ?_ hdropped
      rw [hcurrent]
      exact h.current.isWithin_skip hnonneg

/-- So no run of events does. -/
theorem InOrder.isWithin_deliverAll (h : c.InOrder) {events : List Event}
    (hsolid : ∀ e ∈ events, e.IsSolid) : c.IsWithin (Event.deliverAll renderer events c) := by
  induction events generalizing c with
  | nil => exact IsWithin.refl c
  | cons e events ih =>
    rcases List.forall_mem_cons.mp hsolid with ⟨he, hrest⟩
    exact (h.isWithin_deliver he).trans (ih (h.deliver he.hasPositiveSize) hrest)

end Canvas

/-! ## Scripts -/

namespace Script

theorem inOrder_canvas (source : List Char) : (canvas source).InOrder := by
  rw [canvas_eq_deliverAll]
  exact Canvas.InOrder.empty.deliverAll fun e => hasPositiveSize_of_mem_events

theorem canvas_isWithin_joined (a b : List Char) :
    (canvas a).IsWithin (canvas (a ++ '\n' :: b)) := by
  have hjoined : canvas (a ++ '\n' :: b) =
      Event.deliverAll Canvas.renderer (events b).toList (canvas a) := by
    rw [canvas_eq_deliverAll, toList_events_joined, deliverAll_append, ← canvas_eq_deliverAll]
  rw [hjoined]
  exact (inOrder_canvas a).isWithin_deliverAll fun e => isSolid_of_mem_events

/-- A script with more lines behind it has a picture that is no narrower and no lower. When the
first script alone is too large for a picture, at some number of pixels for one, so are both
together. -/
theorem picture_grows (a b : List Char) :
    (canvas a).width.AtMost (canvas (a ++ '\n' :: b)).width ∧
    (canvas a).height.AtMost (canvas (a ++ '\n' :: b)).height ∧
    ∀ (unit : Nat) (name : String) (background : Colour) (fault : Fault),
      (canvas a).rasterise name unit background = .error fault →
      ∀ name' background', ∃ fault',
        (canvas (a ++ '\n' :: b)).rasterise name' unit background' = .error fault' ∧
          fault'.kind = .render := by
  have horder := inOrder_canvas a
  have horder' := inOrder_canvas (a ++ '\n' :: b)
  have hwithin := canvas_isWithin_joined a b
  refine ⟨horder.width.atMost horder'.width hwithin.width,
    horder.height.atMost horder'.height hwithin.height, ?_⟩
  intro unit name background fault hfault name' background'
  cases hjoined : (canvas (a ++ '\n' :: b)).rasterise name' unit background' with
  | error fault' => exact ⟨fault', rfl, Canvas.kind_of_rasterise hjoined⟩
  | ok larger =>
    -- then the first script alone has a picture too, whatever its name and background are
    rcases horder.rasterise_of_le horder' hwithin.width hwithin.height hwithin.dropped hjoined with
      ⟨drawing, hdrawing, -⟩
    rcases Canvas.exists_rasterise_iff.mpr (Canvas.exists_rasterise_iff.mp ⟨drawing, hdrawing⟩) with
      ⟨other, hother⟩
    cases hother.symm.trans hfault

/-- A space that is too wide for a picture, and a block that stands behind it in the same row. -/
theorem picture_grows_wide :
    let a := "space-20000".toList
    let b := "block.size-3".toList
    ((canvas a).height, (canvas (a ++ '\n' :: b)).height) = (1, 3) ∧
    ∃ fault fault', (canvas a).rasterise "wide" 1 .white = .error fault ∧
      (canvas (a ++ '\n' :: b)).rasterise "wider" 1 .white = .error fault' ∧
      fault'.kind = .render := by
  intro a b
  have hheights : ((canvas a).height, (canvas (a ++ '\n' :: b)).height) = (1, 3) := by
    decide +kernel
  have hlarge : ((canvas a).rasterise "wide" 1 .white).isOk = false := by decide +kernel
  refine ⟨hheights, ?_⟩
  cases hfault : (canvas a).rasterise "wide" 1 .white with
  | ok drawing =>
    rw [hfault] at hlarge
    cases hlarge
  | error fault =>
    rcases (picture_grows a b).2.2 1 "wide" .white fault hfault "wider" .white with
      ⟨fault', hfault', hkind⟩
    exact ⟨fault, fault', rfl, hfault', hkind⟩

end Script

end BlockScript
