import BlockScript.Drawing.Picture

namespace BlockScript

/-! # Rows of one width

A picture begins transparent, and the colours of a drawing are put into it pixel by pixel. A pixel
keeps the colour that is put at its column and row (`Picture.getElem_putRow`,
`Picture.getElem_putRows`), so the picture shows the drawing as far as both go, and is transparent
where a row of the drawing is too short (`Picture.pixel?_fit`).
-/

namespace Picture

variable {width height : Nat}

/-- A column has the colour that was put there, and all others are as they were. -/
theorem getElem_putRow (x : Nat) (colours : List Colour) (row : Vector Colour width) (i : Nat)
    (hi : i < width) :
    (putRow x colours row)[i] = if x ≤ i then (colours[i - x]?).getD row[i] else row[i] := by
  induction colours generalizing x row with
  | nil => simp [putRow]
  | cons c colours ih =>
    by_cases hx : x < width
    · simp only [putRow, dif_pos hx, ih]
      rcases Nat.lt_trichotomy x i with hlt | rfl | hgt
      · -- the colour is put further left, and one of those behind it here
        have hother : (row.set x c)[i] = row[i] := Vector.getElem_set_ne _ _ (by omega)
        have hbehind : i - x = i - (x + 1) + 1 := by omega
        rw [if_pos (by omega), if_pos (by omega), hother, hbehind, List.getElem?_cons_succ]
      · rw [if_neg (by omega), if_pos (by omega)]
        simp
      · have hother : (row.set x c)[i] = row[i] := Vector.getElem_set_ne _ _ (by omega)
        rw [if_neg (by omega), if_neg (by omega), hother]
    · simp only [putRow, dif_neg hx]
      rw [if_neg (by omega)]

/-- A row has the colours that were put there, and all others are as they were. -/
theorem getElem_putRows (y : Nat) (more : List (Array Colour))
    (rows : Vector (Vector Colour width) height) (j : Nat) (hj : j < height) :
    (putRows y more rows)[j] =
      if y ≤ j then putRow 0 ((more[j - y]?).getD #[]).toList rows[j] else rows[j] := by
  induction more generalizing y rows with
  | nil => simp [putRows, putRow]
  | cons colours more ih =>
    by_cases hy : y < height
    · simp only [putRows, dif_pos hy, ih]
      rcases Nat.lt_trichotomy y j with hlt | rfl | hgt
      · have hother : (rows.set y (putRow 0 colours.toList rows[y]))[j] = rows[j] :=
          Vector.getElem_set_ne _ _ (by omega)
        have hbehind : j - y = j - (y + 1) + 1 := by omega
        rw [if_pos (by omega), if_pos (by omega), hother, hbehind, List.getElem?_cons_succ]
      · rw [if_neg (by omega), if_pos (by omega)]
        simp
      · have hother : (rows.set y (putRow 0 colours.toList rows[y]))[j] = rows[j] :=
          Vector.getElem_set_ne _ _ (by omega)
        rw [if_neg (by omega), if_neg (by omega), hother]
    · simp only [putRows, dif_neg hy]
      rw [if_neg (by omega)]

/-- Every pixel of the picture has the colour of the drawing at its column and row, if there is one,
and is transparent otherwise. -/
theorem pixel?_fit (rows : Array (Array Colour)) (x y : Nat) :
    (fit width rows).pixel? x y =
      if x < width ∧ y < rows.size then
        some ((rows[y]?.bind (·[x]?)).getD .transparent)
      else none := by
  rw [pixel?, fit]
  by_cases hy : y < rows.size
  · simp only [Vector.getElem?_eq_getElem hy, getElem_putRows, Nat.zero_le, if_true,
      Option.bind_some]
    by_cases hx : x < width
    · rw [if_pos ⟨hx, hy⟩, Vector.getElem?_eq_getElem hx, getElem_putRow]
      simp [hy]
    · rw [if_neg fun h => hx h.1]
      exact Vector.getElem?_eq_none (Nat.not_lt.mp hx)
  · rw [if_neg fun h => hy h.2, Vector.getElem?_eq_none (Nat.not_lt.mp hy)]
    rfl

end Picture

end BlockScript
