import BlockScript.Drawing.Raster
import Mathlib.Data.List.Pairwise

namespace BlockScript

/-! # Painting

Painting a rectangle gives the pixels in it its colour and leaves the others (`paint_eq_mapIdx`).
So a pixel shows the last of the patches that hold it. When no two patches overlap there is at most
one, and the order of painting is of no account (`paintAll_perm`).
-/

namespace PixelRect

/-- The pixel in column `x` and row `y` lies in the rectangle. -/
def Contains (r : PixelRect) (x y : Nat) : Prop :=
  (r.left ≤ x ∧ x < r.right) ∧ r.top ≤ y ∧ y < r.bottom

instance (r : PixelRect) (x y : Nat) : Decidable (r.Contains x y) :=
  inferInstanceAs (Decidable (_ ∧ _))

/-- No pixel lies in both. -/
def Disjoint (r s : PixelRect) : Prop := ∀ x y, r.Contains x y → ¬ s.Contains x y

theorem Disjoint.symm {r s : PixelRect} (h : r.Disjoint s) : s.Disjoint r :=
  fun x y hs hr => h x y hr hs

/-- Rectangles one beside the other. -/
theorem disjoint_of_right_le {r s : PixelRect} (h : r.right ≤ s.left) : r.Disjoint s := by
  rintro x y ⟨⟨-, hr⟩, -⟩ ⟨⟨hs, -⟩, -⟩
  omega

/-- Rectangles one below the other. -/
theorem disjoint_of_bottom_le {r s : PixelRect} (h : r.bottom ≤ s.top) : r.Disjoint s := by
  rintro x y ⟨-, -, hr⟩ ⟨-, hs, -⟩
  omega

/-- Just the rectangles that end inside the picture are not cropped. -/
theorem crop_eq_self_iff {r : PixelRect} {width height : Nat} :
    r.crop width height = r ↔ r.right ≤ width ∧ r.bottom ≤ height := by
  obtain ⟨left, right, top, bottom⟩ := r
  simp only [crop, mk.injEq, true_and]
  omega

end PixelRect

/-! ## One rectangle -/

theorem mapIdx_self {α : Type} (xs : Array α) : (xs.mapIdx fun _ a => a) = xs := by
  apply Array.ext
  · exact Array.size_mapIdx
  · intro i hi _
    exact Array.getElem_mapIdx hi

theorem paintSpan_eq_mapIdx (colour : Colour) (x n : Nat) (row : Array Colour) :
    paintSpan colour x n row =
      row.mapIdx fun i pixel => if x ≤ i ∧ i < x + n then colour else pixel := by
  induction n generalizing x row with
  | zero =>
    have hnone : ∀ i, ¬ (x ≤ i ∧ i < x + 0) := by omega
    simp only [hnone, if_false, mapIdx_self]
    rfl
  | succ n ih =>
    rw [paintSpan, ih]
    apply Array.ext
    · simp
    · intro i hi _
      rw [Array.getElem_mapIdx, Array.getElem_mapIdx, Array.getElem_setIfInBounds]
      -- the first pixel is the one just painted
      repeat' split
      all_goals first | rfl | omega

theorem paintRows_eq_mapIdx (colour : Colour) (x width y n : Nat) (rows : Array (Array Colour)) :
    paintRows colour x width y n rows =
      rows.mapIdx fun j row => if y ≤ j ∧ j < y + n then paintSpan colour x width row else row := by
  induction n generalizing y rows with
  | zero =>
    have hnone : ∀ j, ¬ (y ≤ j ∧ j < y + 0) := by omega
    simp only [hnone, if_false, mapIdx_self]
    rfl
  | succ n ih =>
    rw [paintRows, ih]
    apply Array.ext
    · simp
    · intro j hj _
      rw [Array.getElem_mapIdx, Array.getElem_mapIdx, Array.getElem_modify]
      repeat' split
      all_goals first | rfl | omega

/-- Painting a rectangle changes the colour of the pixels in it, and nothing else. -/
theorem PixelRect.paint_eq_mapIdx (r : PixelRect) (colour : Colour)
    (rows : Array (Array Colour)) :
    r.paint colour rows =
      rows.mapIdx fun y row => row.mapIdx fun x pixel =>
        if r.Contains x y then colour else pixel := by
  rw [paint, paintRows_eq_mapIdx]
  apply Array.ext
  · simp
  · intro y hy _
    rw [Array.getElem_mapIdx, Array.getElem_mapIdx, paintSpan_eq_mapIdx]
    by_cases hrow : r.top ≤ y ∧ y < r.bottom
    · have hheld : ∀ x, (r.left ≤ x ∧ x < r.left + (r.right - r.left)) ↔ r.Contains x y := by
        intro x
        rw [Contains]
        omega
      rw [if_pos (by omega)]
      simp only [hheld]
    · -- none of the pixels in this row lies in the rectangle
      have hnone : ∀ x, ¬ r.Contains x y := fun x hx => hrow hx.2
      rw [if_neg (by omega)]
      simp only [hnone, if_false, mapIdx_self]

/-! ## Many rectangles -/

/-- A rectangle and its colour. -/
structure Patch where
  rect : PixelRect
  colour : Colour
deriving DecidableEq

namespace Patch

/-- Paints patches one after the other. -/
def paintAll (patches : List Patch) (rows : Array (Array Colour)) : Array (Array Colour) :=
  patches.foldl (fun rows p => p.rect.paint p.colour rows) rows

/-- What patches leave of a pixel. -/
def colourAt (patches : List Patch) (x y : Nat) (pixel : Colour) : Colour :=
  patches.foldl (fun pixel p => if p.rect.Contains x y then p.colour else pixel) pixel

/-- No pixel lies in two of the patches. -/
def Apart (patches : List Patch) : Prop :=
  patches.Pairwise fun p q => p.rect.Disjoint q.rect

theorem paintAll_append (patches more : List Patch) (rows : Array (Array Colour)) :
    paintAll (patches ++ more) rows = paintAll more (paintAll patches rows) := List.foldl_append

theorem paintAll_eq_mapIdx (patches : List Patch) (rows : Array (Array Colour)) :
    paintAll patches rows =
      rows.mapIdx fun y row => row.mapIdx fun x pixel => colourAt patches x y pixel := by
  induction patches generalizing rows with
  | nil =>
    simp only [colourAt, List.foldl_nil, mapIdx_self]
    rfl
  | cons p patches ih =>
    have hstep : paintAll (p :: patches) rows =
        paintAll patches (p.rect.paint p.colour rows) := rfl
    rw [hstep, ih, PixelRect.paint_eq_mapIdx, Array.mapIdx_mapIdx]
    congr 1
    funext y row
    exact Array.mapIdx_mapIdx

theorem colourAt_of_forall_not {patches : List Patch} {x y : Nat}
    (h : ∀ p ∈ patches, ¬ p.rect.Contains x y) (pixel : Colour) :
    colourAt patches x y pixel = pixel := by
  induction patches with
  | nil => rfl
  | cons p patches ih =>
    have hrest : ∀ q ∈ patches, ¬ q.rect.Contains x y := fun q hq =>
      h q (List.mem_cons_of_mem _ hq)
    rw [colourAt, List.foldl_cons, if_neg (h p List.mem_cons_self)]
    exact ih hrest

/-- When patches do not overlap, a pixel has the colour of the one that holds it. -/
theorem colourAt_of_mem {patches : List Patch} (h : Apart patches) {p : Patch}
    (hp : p ∈ patches) {x y : Nat} (hxy : p.rect.Contains x y) (pixel : Colour) :
    colourAt patches x y pixel = p.colour := by
  induction patches generalizing pixel with
  | nil => cases hp
  | cons q patches ih =>
    obtain ⟨hq, hrest⟩ := List.pairwise_cons.mp h
    rcases List.mem_cons.mp hp with rfl | hp
    · -- none of the later patches paints over it
      rw [colourAt, List.foldl_cons, if_pos hxy]
      exact colourAt_of_forall_not (fun r hr => hq r hr x y hxy) p.colour
    · exact ih hrest hp _

theorem apart_perm {patches other : List Patch} (h : Apart patches) (hperm : other.Perm patches) :
    Apart other := hperm.symm.pairwise h fun hpq => hpq.symm

/-- When patches do not overlap, a pixel lies in one of them only. -/
theorem eq_of_contains {patches : List Patch} (h : Apart patches) {p q : Patch}
    (hp : p ∈ patches) (hq : q ∈ patches) {x y : Nat} (hpxy : p.rect.Contains x y)
    (hqxy : q.rect.Contains x y) : p = q := by
  have hsymm : Std.Symm fun p q : Patch => p.rect.Disjoint q.rect := ⟨fun _ _ hpq => hpq.symm⟩
  by_contra hne
  exact h.forall hp hq hne x y hpxy hqxy

/-- Patches that do not overlap may be painted in any order. -/
theorem paintAll_perm {patches other : List Patch} (h : Apart patches)
    (hperm : other.Perm patches) (rows : Array (Array Colour)) :
    paintAll other rows = paintAll patches rows := by
  have hcolour : ∀ x y pixel, colourAt other x y pixel = colourAt patches x y pixel := by
    intro x y pixel
    by_cases hheld : ∃ p ∈ patches, p.rect.Contains x y
    · obtain ⟨p, hp, hxy⟩ := hheld
      rw [colourAt_of_mem h hp hxy, colourAt_of_mem (apart_perm h hperm) (hperm.mem_iff.mpr hp) hxy]
    · have hnone : ∀ p ∈ patches, ¬ p.rect.Contains x y := fun p hp hxy => hheld ⟨p, hp, hxy⟩
      rw [colourAt_of_forall_not hnone,
        colourAt_of_forall_not fun p hp => hnone p (hperm.mem_iff.mp hp)]
  simp only [paintAll_eq_mapIdx, hcolour]

end Patch

/-! ## Pixels of a drawing -/

/-- The pixel in column `x` and row `y`, if there is one. -/
def Drawing.pixel? (d : Drawing) (x y : Nat) : Option Colour := d.rows[y]?.bind (·[x]?)

/-- A picture of one colour. -/
def blankRows (width height : Nat) (background : Colour) : Array (Array Colour) :=
  Array.replicate height (Array.replicate width background)

/-- Painting leaves the size of a picture as it is. -/
theorem size_paintAll_blankRows (name : String) (patches : List Patch) (width : Nat)
    {height : Nat} (h : 1 ≤ height) (background : Colour) :
    Drawing.width ⟨name, Patch.paintAll patches (blankRows width height background)⟩ = width ∧
      Drawing.height ⟨name, Patch.paintAll patches (blankRows width height background)⟩ =
        height := by
  have hfirst : 0 < height := h
  simp [Drawing.width, Drawing.height, Patch.paintAll_eq_mapIdx, blankRows, hfirst]

theorem pixel?_paintAll_blankRows (name : String) (patches : List Patch) {width height x y : Nat}
    (hx : x < width) (hy : y < height) (background : Colour) :
    Drawing.pixel? ⟨name, Patch.paintAll patches (blankRows width height background)⟩ x y =
      some (Patch.colourAt patches x y background) := by
  simp [Drawing.pixel?, Patch.paintAll_eq_mapIdx, blankRows, hx, hy]

/-- Beside and below the picture there are no pixels. -/
theorem pixel?_paintAll_eq_none (name : String) (patches : List Patch) {width height x y : Nat}
    (h : ¬ (x < width ∧ y < height)) (background : Colour) :
    Drawing.pixel? ⟨name, Patch.paintAll patches (blankRows width height background)⟩ x y =
      none := by
  by_cases hy : y < height
  · have hx : ¬ x < width := fun hx => h ⟨hx, hy⟩
    simp [Drawing.pixel?, Patch.paintAll_eq_mapIdx, blankRows, hx, hy]
  · simp [Drawing.pixel?, Patch.paintAll_eq_mapIdx, blankRows, hy]

/-- Patches that end above the lower edge of a picture leave everything below it as it was. -/
theorem Patch.paintAll_blankRows_append {patches : List Patch} {width height : Nat}
    (h : ∀ p ∈ patches, p.rect.bottom ≤ height) (more : Nat) (background : Colour) :
    paintAll patches (blankRows width (height + more) background) =
      paintAll patches (blankRows width height background) ++ blankRows width more background := by
  rw [paintAll_eq_mapIdx, paintAll_eq_mapIdx]
  unfold blankRows
  apply Array.ext
  · simp
  · intro y hy _
    simp only [Array.getElem_mapIdx, Array.getElem_append, Array.getElem_replicate,
      Array.size_mapIdx, Array.size_replicate]
    by_cases hinside : y < height
    · rw [dif_pos hinside]
    · rw [dif_neg hinside]
      -- no patch reaches a row below the picture
      have hnone : ∀ x pixel, colourAt patches x y pixel = pixel := by
        intro x pixel
        apply colourAt_of_forall_not
        intro p hp hxy
        exact hinside (Nat.lt_of_lt_of_le hxy.2.2 (h p hp))
      simp only [hnone, mapIdx_self]

/-! ## The patches of a canvas -/

/-- The patches of a row whose top is at `top`. -/
def Row.patches (unit : Nat) (top : Binary64) (row : Row) : List Patch :=
  row.cells.toList.map fun cell => ⟨cell.pixels top unit, cell.colour⟩

/-- Where rows that begin at `top` end. -/
def bottomOf (top : Binary64) (rows : List Row) : Binary64 :=
  rows.foldl (fun top row => top + row.height) top

/-- The patches of rows one below the other. -/
def patchesFrom (unit : Nat) (top : Binary64) : List Row → List Patch
  | [] => []
  | row :: rows => row.patches unit top ++ patchesFrom unit (top + row.height) rows

theorem mem_patchesFrom {unit : Nat} {top : Binary64} {rows : List Row} {p : Patch} :
    p ∈ patchesFrom unit top rows ↔
      ∃ above row below, rows = above ++ row :: below ∧
        p ∈ row.patches unit (bottomOf top above) := by
  induction rows generalizing top with
  | nil => simp [patchesFrom]
  | cons row rows ih =>
    rw [patchesFrom, List.mem_append, ih]
    constructor
    · rintro (hp | ⟨above, row', below, rfl, hp⟩)
      · exact ⟨[], row, rows, rfl, hp⟩
      · exact ⟨row :: above, row', below, rfl, hp⟩
    · rintro ⟨_ | ⟨first, above⟩, row', below, hrows, hp⟩
      · obtain ⟨rfl, rfl⟩ := List.cons.inj hrows
        exact Or.inl hp
      · obtain ⟨rfl, rfl⟩ := List.cons.inj hrows
        exact Or.inr ⟨above, row', below, rfl, hp⟩

/-- A last row without cells adds no patches. -/
theorem patchesFrom_append_empty (unit : Nat) (top : Binary64) (rows : List Row) {last : Row}
    (h : last.cells = #[]) : patchesFrom unit top (rows ++ [last]) = patchesFrom unit top rows := by
  induction rows generalizing top with
  | nil => simp [patchesFrom, Row.patches, h]
  | cons row rows ih => rw [List.cons_append, patchesFrom, ih, patchesFrom]

/-- Leaves out what lies outside the picture. -/
def Patch.crop (width height : Nat) (p : Patch) : Patch := ⟨p.rect.crop width height, p.colour⟩

theorem cells_eq_paintAll (rows : Array (Array Colour)) (top : Binary64)
    (unit width height : Nat) (row : Row) :
    Painting.cells rows top unit width height row =
      Patch.paintAll ((row.patches unit top).map (Patch.crop width height)) rows := by
  rw [Painting.cells, ← Array.foldl_toList, Patch.paintAll, Row.patches, List.map_map,
    List.foldl_map]
  rfl

/-- Painting row by row is painting the patches of all rows. -/
theorem foldl_row_eq_paintAll (unit width height : Nat) (rows : List Row) (p : Painting) :
    (rows.foldl (Painting.row unit width height) p).pixels =
      Patch.paintAll ((patchesFrom unit p.top rows).map (Patch.crop width height)) p.pixels := by
  induction rows generalizing p with
  | nil => rfl
  | cons row rows ih =>
    rw [List.foldl_cons, ih, patchesFrom, List.map_append, Patch.paintAll_append,
      ← cells_eq_paintAll]
    rfl

namespace Canvas

/-- The patches of all recorded cells, in the order in which they are painted. -/
def patches (c : Canvas) (unit : Nat) : List Patch :=
  patchesFrom unit 0 (c.above.toList ++ [c.current])

/-- A last row that is not counted has no cells, so it has no patches either. -/
theorem patchesFrom_rows (c : Canvas) (unit : Nat) :
    patchesFrom unit 0 c.rows.toList = c.patches unit := by
  rw [rows, patches]
  split
  · next h =>
    rw [Row.isUnused, Bool.and_eq_true, Array.isEmpty_iff] at h
    exact (patchesFrom_append_empty unit 0 _ h.1).symm
  · rw [Array.toList_push]

theorem paint_eq_paintAll (c : Canvas) (unit width height : Nat) (background : Colour) :
    c.paint unit width height background =
      Patch.paintAll ((c.patches unit).map (Patch.crop width height))
        (blankRows width height background) := by
  rw [paint, ← Array.foldl_toList, foldl_row_eq_paintAll, patchesFrom_rows]
  rfl

/-- A canvas becomes a drawing when nothing was dropped and both sides and the number of pixels stay
within their limits. -/
theorem rasterise_eq_ok_iff {c : Canvas} {name : String} {unit : Nat} {background : Colour}
    {drawing : Drawing} :
    c.rasterise name unit background = .ok drawing ↔
      ∃ width height, c.isOverflowed = false ∧
        pixelLength? c.width (max unit 1) = some width ∧
        pixelLength? c.height (max unit 1) = some height ∧ width * height ≤ maxPixels ∧
        drawing = ⟨name, c.paint (max unit 1) width height background⟩ := by
  rw [rasterise]
  cases hoverflow : c.isOverflowed with
  | true => simp [pictureSize, hoverflow]
  | false =>
    rcases hwidth : pixelLength? c.width (max unit 1) with _ | width
    · simp [pictureSize, hoverflow, hwidth]
    · rcases hheight : pixelLength? c.height (max unit 1) with _ | height
      · simp [pictureSize, hoverflow, hwidth, hheight]
      · by_cases hpixels : maxPixels < width * height
        · simp [pictureSize, hoverflow, hwidth, hheight, hpixels, Nat.not_le.mpr hpixels]
        · simp [pictureSize, hoverflow, hwidth, hheight, hpixels, Nat.not_lt.mp hpixels, eq_comm]

/-- The length in pixels is rounded up, stays within its limit, and is at least one. -/
theorem pixelLength?_eq_some_iff {extent : Binary64} {unit length : Nat} :
    pixelLength? extent unit = some length ↔
      ∃ pixels, (extent.scale unit).ceilNat? = some pixels ∧ pixels ≤ maxSide ∧
        length = max pixels 1 := by
  rw [pixelLength?]
  cases (extent.scale unit).ceilNat? with
  | none => simp
  | some pixels =>
    by_cases h : pixels ≤ maxSide
    · simp [h, eq_comm]
    · simp [h]

theorem one_le_of_pixelLength? {extent : Binary64} {unit length : Nat}
    (h : pixelLength? extent unit = some length) : 1 ≤ length := by
  obtain ⟨pixels, -, -, rfl⟩ := pixelLength?_eq_some_iff.mp h
  exact Nat.le_max_right ..

/-- A painted canvas has the size that was asked for. -/
theorem size_paint (c : Canvas) (name : String) (unit width : Nat) {height : Nat}
    (h : 1 ≤ height) (background : Colour) :
    Drawing.width ⟨name, c.paint unit width height background⟩ = width ∧
      Drawing.height ⟨name, c.paint unit width height background⟩ = height := by
  rw [paint_eq_paintAll]
  exact size_paintAll_blankRows name _ width h background

end Canvas

end BlockScript
