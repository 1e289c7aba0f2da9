import BlockScript.Proofs.Drawing.Capacity
import BlockScript.Proofs.Drawing.Painting
import BlockScript.Proofs.Number.Whole
import BlockScript.Proofs.Program.SavedPictures
import Mathlib.Algebra.Order.Floor.Ring
import Mathlib.Data.Rat.Floor

namespace BlockScript

/-! # Limits of pictures

Sizes may be negative, infinite or NaN, so the width and the height of a canvas may be any number.
A canvas becomes a picture exactly when it dropped nothing, both sides in pixels are finite and not
too long, and there are not too many pixels (`rasterise_within_limits`). The sides of the picture
are then known numbers, far below what an image file can hold.
-/

/-! ## Rounding up -/

namespace Binary64

/-- What a finite number is worth. -/
def value (x : Binary64) : ℚ := x.rank / oneUnits

theorem value_le_natCast_iff {x : Binary64} {n : Nat} :
    x.value ≤ n ↔ x.rank ≤ n * oneUnits := by
  have hone : (0 : ℚ) < oneUnits := Nat.cast_pos.mpr oneUnits_pos
  rw [value, div_le_iff₀ hone]
  exact_mod_cast Iff.rfl

/-- The count that a number is rounded up to is the least that is not below it. -/
theorem ceil_value_toNat_le_iff {x : Binary64} {n : Nat} :
    ⌈x.value⌉.toNat ≤ n ↔ x.rank ≤ n * oneUnits := by
  rw [Int.toNat_le, Int.ceil_le, Int.cast_natCast, value_le_natCast_iff]

/-- A finite number is rounded up to a count, a number below zero to none. -/
theorem ceilNat?_of_isFinite {x : Binary64} (h : x.isFinite = true) :
    x.ceilNat? = some ⌈x.value⌉.toNat := by
  cases x with
  | nan => cases h
  | infinite negative => cases h
  | finite negative magnitude =>
    cases negative with
    | true =>
      -- no count is below a number that is not above zero
      have hzero : ⌈(finite true magnitude).value⌉.toNat ≤ 0 := by
        have hrank : (finite true magnitude).rank = -(magnitude.units : ℤ) := rfl
        rw [ceil_value_toNat_le_iff, hrank, Nat.cast_zero, zero_mul]
        omega
      rw [Nat.le_zero.mp hzero]
      rfl
    | false =>
      refine congrArg some (eq_of_forall_ge_iff fun n => ?_)
      rw [ceil_value_toNat_le_iff, ← Nat.lt_succ_iff, Nat.div_lt_iff_lt_mul oneUnits_pos,
        Nat.succ_mul]
      have hpos := oneUnits_pos
      show _ ↔ (magnitude.units : ℤ) ≤ n * oneUnits
      generalize oneUnits = one at hpos ⊢
      rw [← Nat.cast_mul, Int.ofNat_le]
      omega

theorem isFinite_of_ceilNat? {x : Binary64} {n : Nat} (h : x.ceilNat? = some n) :
    x.isFinite = true := by
  cases x with
  | nan => cases h
  | infinite negative => cases h
  | finite negative magnitude => rfl

end Binary64

/-! ## Sides -/

namespace Canvas

/-- A side has a length in pixels when it is finite and, rounded up, not too long. It is then the
rounded number, and one at least. -/
theorem pixelLength?_eq_some_iff_ceil {extent : Binary64} {unit length : Nat} :
    pixelLength? extent unit = some length ↔
      (extent.scale unit).isFinite = true ∧ ⌈(extent.scale unit).value⌉ ≤ 16384 ∧
        (length : ℤ) = max 1 ⌈(extent.scale unit).value⌉ := by
  rw [pixelLength?_eq_some_iff]
  constructor
  · rintro ⟨pixels, hceil, hside, rfl⟩
    have hfinite := Binary64.isFinite_of_ceilNat? hceil
    rw [Binary64.ceilNat?_of_isFinite hfinite] at hceil
    obtain rfl := Option.some.inj hceil
    have hlimit : maxSide = 16384 := rfl
    exact ⟨hfinite, by omega, by omega⟩
  · rintro ⟨hfinite, hside, hlength⟩
    have hlimit : maxSide = 16384 := rfl
    exact ⟨_, Binary64.ceilNat?_of_isFinite hfinite, by omega, by omega⟩

end Canvas

/-! ## Colours -/

/-- Painting leaves a pixel as it is, or gives it the colour of a patch. -/
theorem Patch.colourAt_eq_or (patches : List Patch) (x y : Nat) (pixel : Colour) :
    colourAt patches x y pixel = pixel ∨ ∃ p ∈ patches, colourAt patches x y pixel = p.colour := by
  induction patches generalizing pixel with
  | nil => exact Or.inl rfl
  | cons p patches ih =>
    have hstep : colourAt (p :: patches) x y pixel =
        colourAt patches x y (if p.rect.Contains x y then p.colour else pixel) := rfl
    rw [hstep]
    rcases ih (if p.rect.Contains x y then p.colour else pixel) with hsame | ⟨q, hq, hcolour⟩
    · rw [hsame]
      by_cases hxy : p.rect.Contains x y
      · exact Or.inr ⟨p, List.mem_cons_self, if_pos hxy⟩
      · exact Or.inl (if_neg hxy)
    · exact Or.inr ⟨q, List.mem_cons_of_mem _ hq, hcolour⟩

namespace Canvas

variable {c : Canvas} {unit : Nat}

/-- A patch has the colour of a recorded cell. -/
theorem exists_cell_of_mem_patches {p : Patch} (h : p ∈ c.patches unit) :
    ∃ cell ∈ c.cells, cell.colour = p.colour := by
  obtain ⟨above, row, below, hrows, hp⟩ := mem_patchesFrom.mp h
  obtain ⟨cell, hcell, rfl⟩ := List.mem_map.mp hp
  refine ⟨cell, List.mem_flatMap.mpr ⟨row, ?_, hcell⟩, rfl⟩
  rw [allRows, hrows]
  exact List.mem_append_right _ List.mem_cons_self

/-- Every row of a painted canvas has the full width, and shows the background or cells. -/
theorem of_mem_paint {width height : Nat} {background : Colour} {row : Array Colour}
    (h : row ∈ c.paint unit width height background) :
    row.size = width ∧
      ∀ colour ∈ row, colour = background ∨ ∃ cell ∈ c.cells, cell.colour = colour := by
  rw [paint_eq_paintAll, Patch.paintAll_eq_mapIdx, Array.mem_mapIdx] at h
  obtain ⟨y, hy, rfl⟩ := h
  simp only [blankRows, Array.getElem_replicate]
  refine ⟨by simp, ?_⟩
  intro colour hcolour
  rw [Array.mem_mapIdx] at hcolour
  obtain ⟨x, hx, rfl⟩ := hcolour
  rw [Array.getElem_replicate]
  rcases Patch.colourAt_eq_or ((c.patches unit).map (Patch.crop width height)) x y background with
    hsame | ⟨p, hp, hpatch⟩
  · exact Or.inl hsame
  · -- cropping a patch leaves its colour
    obtain ⟨q, hq, rfl⟩ := List.mem_map.mp hp
    obtain ⟨cell, hcell, hcolour⟩ := exists_cell_of_mem_patches hq
    exact Or.inr ⟨cell, hcell, by rw [hpatch]; exact hcolour⟩

end Canvas

/-! ## Files -/

/-- A drawing whose sides are not zero and not too long becomes a picture. -/
theorem Picture.ofDrawing_of_sides {d : Drawing} (hwidth : 1 ≤ d.width) (hheight : 1 ≤ d.height)
    (hwide : d.width ≤ maxFileSide) (hhigh : d.height ≤ maxFileSide) (path : String) :
    ofDrawing d path = .ok (fit d.width d.rows) := by
  have hsome : ¬ (d.width = 0 ∨ d.height = 0) := by omega
  rw [ofDrawing, if_neg (Nat.not_lt.mpr hwide), if_neg (Nat.not_lt.mpr hhigh), if_neg hsome]

namespace Canvas

/-- A canvas becomes a drawing when nothing was dropped, both sides are finite and not too long, and
the pixels are not too many. -/
theorem exists_rasterise_iff {c : Canvas} {name : String} {unit : Nat} {background : Colour} :
    (∃ drawing, c.rasterise name unit background = .ok drawing) ↔
      c.isOverflowed = false ∧
      ∃ width height, pixelLength? c.width (max unit 1) = some width ∧
        pixelLength? c.height (max unit 1) = some height ∧ width * height ≤ maxPixels := by
  constructor
  · rintro ⟨drawing, h⟩
    obtain ⟨width, height, hfree, hwidth, hheight, hpixels, -⟩ := rasterise_eq_ok_iff.mp h
    exact ⟨hfree, width, height, hwidth, hheight, hpixels⟩
  · rintro ⟨hfree, width, height, hwidth, hheight, hpixels⟩
    exact ⟨_, rasterise_eq_ok_iff.mpr ⟨width, height, hfree, hwidth, hheight, hpixels, rfl⟩⟩

/-- A canvas that does not become a drawing is reported as too large. -/
theorem kind_of_rasterise {c : Canvas} {name : String} {unit : Nat} {background : Colour}
    {fault : Fault} (h : c.rasterise name unit background = .error fault) :
    fault.kind = .render := by
  rw [rasterise] at h
  split at h
  · cases h
  · obtain rfl := Except.error.inj h
    rfl

/-- Whatever sizes a canvas received, it becomes a picture exactly when nothing was dropped, its
width and height in pixels are finite and at most 16384 when rounded up, and there are at most 2^25
pixels. The picture then has these sides, one at least, all its rows have the same length, and it
shows the background and the colours of recorded cells; writing it can fail as a file does, but not
for its size. In every other case the canvas is reported as too large. -/
theorem rasterise_within_limits (c : Canvas) (name : String) (unit : Nat) (background : Colour) :
    let width := c.width.scale (max unit 1)
    let height := c.height.scale (max unit 1)
    let result := c.rasterise name unit background
    ((∃ drawing, result = .ok drawing) ↔
      c.isOverflowed = false ∧
      (width.isFinite = true ∧ ⌈width.value⌉ ≤ 16384) ∧
      (height.isFinite = true ∧ ⌈height.value⌉ ≤ 16384) ∧
      max 1 ⌈width.value⌉ * max 1 ⌈height.value⌉ ≤ 2 ^ 25) ∧
    (∀ drawing, result = .ok drawing →
      (drawing.width : ℤ) = max 1 ⌈width.value⌉ ∧
      (drawing.height : ℤ) = max 1 ⌈height.value⌉ ∧
      (1 ≤ drawing.width ∧ drawing.width ≤ 16384) ∧
      (1 ≤ drawing.height ∧ drawing.height ≤ 16384) ∧
      drawing.width * drawing.height ≤ 2 ^ 25 ∧
      (∀ row ∈ drawing.rows, row.size = drawing.width ∧
        ∀ colour ∈ row, colour = background ∨ ∃ cell ∈ c.cells, cell.colour = colour) ∧
      (∀ path, ∃ picture, Picture.ofDrawing drawing path = .ok picture) ∧
      ∀ (s : Session) (p : Path) (fault : Fault), s.writePicture p drawing = .error fault →
        fault.kind ≠ .render) ∧
    ∀ fault, result = .error fault → fault.kind = .render := by
  intro width height result
  have hmost : maxPixels = 2 ^ 25 := rfl
  refine ⟨?_, ?_, fun fault => kind_of_rasterise⟩
  · rw [show result = c.rasterise name unit background from rfl, exists_rasterise_iff]
    simp only [pixelLength?_eq_some_iff_ceil]
    constructor
    · rintro ⟨hfree, w, h, ⟨hfiniteWidth, hwide, hw⟩, ⟨hfiniteHeight, hhigh, hh⟩, hpixels⟩
      refine ⟨hfree, ⟨hfiniteWidth, hwide⟩, ⟨hfiniteHeight, hhigh⟩, ?_⟩
      rw [← hw, ← hh]
      exact_mod_cast hpixels
    · rintro ⟨hfree, ⟨hfiniteWidth, hwide⟩, ⟨hfiniteHeight, hhigh⟩, hpixels⟩
      -- the sides are counts, since one is the least
      have hw : ((max 1 ⌈width.value⌉).toNat : ℤ) = max 1 ⌈width.value⌉ := by omega
      have hh : ((max 1 ⌈height.value⌉).toNat : ℤ) = max 1 ⌈height.value⌉ := by omega
      refine ⟨hfree, _, _, ⟨hfiniteWidth, hwide, hw⟩, ⟨hfiniteHeight, hhigh, hh⟩, ?_⟩
      rw [← hw, ← hh] at hpixels
      exact_mod_cast hpixels
  · intro drawing hdrawing
    obtain ⟨w, h, -, hwidth, hheight, hpixels, rfl⟩ := rasterise_eq_ok_iff.mp hdrawing
    obtain ⟨-, hwide, hw⟩ := pixelLength?_eq_some_iff_ceil.mp hwidth
    obtain ⟨-, hhigh, hh⟩ := pixelLength?_eq_some_iff_ceil.mp hheight
    obtain ⟨hdw, hdh⟩ := size_paint c name (max unit 1) w (one_le_of_pixelLength? hheight) background
    have hsides : (1 ≤ w ∧ w ≤ 16384) ∧ 1 ≤ h ∧ h ≤ 16384 := by omega
    have hpicture : ∀ path, ∃ picture, Picture.ofDrawing
        ⟨name, c.paint (max unit 1) w h background⟩ path = .ok picture := by
      intro path
      have hlimit : Picture.maxFileSide = 4294967295 := rfl
      exact ⟨_, Picture.ofDrawing_of_sides (by omega) (by omega) (by omega) (by omega) path⟩
    rw [hdw, hdh]
    refine ⟨hw, hh, hsides.1, hsides.2, hpixels, fun row hrow => of_mem_paint hrow, hpicture, ?_⟩
    intro s p fault hfault
    obtain ⟨picture, hpicture⟩ := hpicture p.text
    rw [Session.fault_of_writePicture hpicture hfault]
    exact nofun

/-- A row with NaN and one that ends at minus infinity are no wider than nothing, so a block of size
two decides the width. The same canvas with an infinite block is too large. -/
theorem rasterise_within_limits_wild :
    let events : List Event :=
      [.space .nan, .lineBreak, .block 2 .black, .lineBreak, .space (.infinite true)]
    let c := Event.deliverAll renderer events {}
    let larger := Event.deliverAll renderer (events ++ [.block (.infinite false) .black]) {}
    let s : Session := { files := {} }
    (∃ drawing fault, c.rasterise "wild" 0 .white = .ok drawing ∧
      (drawing.width, drawing.height) = (2, 4) ∧
      s.writePicture (Path.ofString "wild") drawing = .error fault ∧ fault.kind ≠ .render) ∧
    ∃ fault, larger.rasterise "wild" 0 .white = .error fault ∧ fault.kind = .render := by
  intro events c larger s
  constructor
  · obtain ⟨hok, hdrawing, -⟩ := rasterise_within_limits c "wild" 0 .white
    obtain ⟨drawing, h⟩ := hok.mpr (by decide +kernel)
    obtain ⟨hwidth, hheight, -, -, -, -, hpicture, hfile⟩ := hdrawing drawing h
    have hceil : ⌈(c.width.scale 1).value⌉ = 2 ∧ ⌈(c.height.scale 1).value⌉ = 4 := by
      decide +kernel
    have hsize : (drawing.width, drawing.height) = (2, 4) := by
      rw [Prod.mk.injEq]
      change (_ : ℤ) = max 1 ⌈(c.width.scale 1).value⌉ at hwidth
      change (_ : ℤ) = max 1 ⌈(c.height.scale 1).value⌉ at hheight
      omega
    -- the name does not say that the file holds a picture
    have hname : Session.isPictureFile (Path.ofString "wild") = false := by decide
    have hwrite : s.writePicture (Path.ofString "wild") drawing =
        .error (.file (Path.ofString "wild").text .writePicture) := by
      obtain ⟨picture, hpicture⟩ := hpicture (Path.ofString "wild").text
      simp [Session.writePicture, Session.savePicture, hpicture, hname]
    exact ⟨drawing, _, h, hsize, hwrite, hfile s _ _ hwrite⟩
  · obtain ⟨hok, -, hfault⟩ := rasterise_within_limits larger "wild" 0 .white
    cases h : larger.rasterise "wild" 0 .white with
    | error fault => exact ⟨fault, rfl, hfault fault h⟩
    | ok drawing => exact absurd (hok.mp ⟨drawing, h⟩) (by decide +kernel)

end Canvas

end BlockScript
