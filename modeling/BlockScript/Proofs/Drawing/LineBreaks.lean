import BlockScript.Proofs.Drawing.Arrangement
import BlockScript.Proofs.Drawing.Replay

namespace BlockScript

/-! # Trailing line breaks

A line break at the end shows nothing: it ends the current row, and the new one does not count
before something is put into it. Every further line break makes an empty row of height one
(`rows_lineBreaks`). Such rows are no wider than any others and hold no cells, so the picture grows
at its lower edge and the new pixels keep the background (`trailing_breaks_add_background`).
-/

namespace Canvas

variable {c : Canvas}

/-! ## Empty rows below a canvas -/

/-- Rows with nothing in them. -/
def emptyRows (n : Nat) : List Row := List.replicate n {}

/-- After one line break and `n` more, there are `n` empty rows and an unused one. -/
theorem times_lineBreak (c : Canvas) (n : Nat) :
    (times lineBreak (n + 1) c).above.toList = c.above.toList ++ c.current :: emptyRows n ∧
      (times lineBreak (n + 1) c).current = {} ∧
      (times lineBreak (n + 1) c).dropped = c.dropped := by
  induction n generalizing c with
  | zero => exact ⟨Array.toList_push, rfl, rfl⟩
  | succ n ih =>
    rcases ih c.lineBreak with ⟨habove, hcurrent, hdropped⟩
    refine ⟨?_, hcurrent, hdropped⟩
    calc (times lineBreak (n + 2) c).above.toList
        = (c.above.push c.current).toList ++ emptyRows (n + 1) := habove
      _ = c.above.toList ++ c.current :: emptyRows (n + 1) := by
        rw [Array.toList_push, List.append_assoc]
        rfl

/-- Line breaks below a row in use: the first ends it, and each further one leaves an empty row. -/
theorem rows_lineBreaks (h : c.current.isUnused = false) (n : Nat) :
    (Event.deliverAll renderer (List.replicate (n + 1) .lineBreak) c).rows.toList =
        c.rows.toList ++ emptyRows n ∧
      (Event.deliverAll renderer (List.replicate (n + 1) .lineBreak) c).dropped = c.dropped := by
  rw [deliverAll_replicate]
  rcases times_lineBreak c n with ⟨habove, hcurrent, hdropped⟩
  refine ⟨?_, hdropped⟩
  have hunused : (times lineBreak (n + 1) c).current.isUnused = true := by
    rw [hcurrent]
    exact Row.isUnused_empty
  calc (times lineBreak (n + 1) c).rows.toList
      = (times lineBreak (n + 1) c).above.toList := toList_rows_of_unused hunused
    _ = c.rows.toList ++ emptyRows n := by
      rw [habove, toList_rows_of_used h, List.append_assoc]
      rfl

/-- An empty row is one high. -/
theorem bottomOf_emptyRows (top : Binary64) (n : Nat) :
    bottomOf top (emptyRows n) = times (· + 1) n top := by
  induction n generalizing top with
  | zero => rfl
  | succ n ih => exact ih (top + 1)

theorem patchesFrom_append_emptyRows (unit : Nat) (top : Binary64) (rows : List Row) (n : Nat) :
    patchesFrom unit top (rows ++ emptyRows n) = patchesFrom unit top rows := by
  unfold emptyRows
  induction n with
  | zero => rw [List.replicate_zero, List.append_nil]
  | succ n ih =>
    rw [List.replicate_succ', ← List.append_assoc, patchesFrom_append_empty unit top _ rfl, ih]

/-- No number is larger for a zero beside it. -/
theorem foldl_max_zeros {x : Binary64} (h : x.IsNonneg) (n : Nat) :
    (List.replicate n (0 : Binary64)).foldl max x = x := by
  induction n with
  | zero => rfl
  | succ n ih => rw [List.replicate_succ, List.foldl_cons, h.max_zero, ih]

section
variable {d : Canvas} {n : Nat} (hrows : d.rows.toList = c.rows.toList ++ emptyRows n)
include hrows

/-- Empty rows are not wider than others. -/
theorem InOrder.width_of_emptyRows (h : c.InOrder) : d.width = c.width := by
  have hwidths : (emptyRows n).map Row.width = List.replicate n 0 := List.map_replicate
  rw [width_eq d, hrows, List.map_append, List.foldl_append, ← width_eq c, hwidths]
  exact foldl_max_zeros h.width n

theorem height_of_emptyRows : d.height = times (· + 1) n c.height := by
  rw [height_eq d, hrows, bottomOf_append, ← height_eq c, bottomOf_emptyRows]

theorem patches_of_emptyRows (unit : Nat) : d.patches unit = c.patches unit := by
  rw [← patchesFrom_rows d, hrows, patchesFrom_append_emptyRows, patchesFrom_rows]

end

/-- A picture depends on the rows that count, and on whether an item was dropped. -/
theorem rasterise_congr {d : Canvas} (hrows : d.rows = c.rows) (hdropped : d.dropped = c.dropped)
    (name : String) (unit : Nat) (background : Colour) :
    d.rasterise name unit background = c.rasterise name unit background := by
  have hwidth : d.width = c.width := by
    unfold width
    rw [hrows]
  have hheight : d.height = c.height := by
    unfold height
    rw [hrows]
  have hsize : d.pictureSize (max unit 1) = c.pictureSize (max unit 1) := by
    unfold pictureSize isOverflowed
    rw [hwidth, hheight, hdropped]
  have hpaint : ∀ width height, d.paint (max unit 1) width height background =
      c.paint (max unit 1) width height background := by
    intro width height
    unfold paint
    rw [hrows]
  unfold rasterise
  simp only [hsize, hpaint]

/-- A canvas whose picture fits with empty rows below it has a picture without them, and the larger
one is that picture above a stripe of background. -/
theorem InOrder.rasterise_of_emptyRows {d : Canvas} {n : Nat} (h : c.InOrder) (hd : d.InOrder)
    (hrows : d.rows.toList = c.rows.toList ++ emptyRows n) (hdropped : d.dropped = c.dropped)
    {name : String} {unit : Nat} {background : Colour} {larger : Drawing}
    (hlarger : d.rasterise name unit background = .ok larger) :
    ∃ drawing, c.rasterise name unit background = .ok drawing ∧
      drawing.width = larger.width ∧ drawing.height ≤ larger.height ∧
      larger.rows = drawing.rows ++
        blankRows drawing.width (larger.height - drawing.height) background := by
  have hwidth : d.width = c.width := h.width_of_emptyRows hrows
  have hheight : c.height.units ≤ d.height.units := by
    have hbelow := hd.rows
    rw [hrows] at hbelow
    rw [height_eq d, hrows, bottomOf_append, ← height_eq c]
    exact units_le_bottomOf h.height (List.forall_mem_append.mp hbelow).2
  rcases h.rasterise_of_le hd (by rw [hwidth]) hheight (by rw [hdropped]) hlarger with
    ⟨drawing, hdrawing, -, hlow⟩
  refine ⟨drawing, hdrawing, ?_⟩
  rcases rasterise_eq_ok_iff.mp hlarger with ⟨wide, high, -, hwide, hhigh, -, rfl⟩
  rcases rasterise_eq_ok_iff.mp hdrawing with ⟨width, height, -, hw, hh, -, rfl⟩
  have hunit : 0 < max unit 1 := by omega
  -- both are equally wide
  have hsame : wide = width := by
    rw [hwidth] at hwide
    exact Option.some.inj (hwide.symm.trans hw)
  subst hsame
  rcases size_paint d name (max unit 1) wide (one_le_of_pixelLength? hhigh) background with
    ⟨hdw, hdh⟩
  rcases size_paint c name (max unit 1) wide (one_le_of_pixelLength? hh) background with
    ⟨hcw, hch⟩
  rw [hdh, hch] at hlow
  rw [hdw, hdh, hcw, hch]
  refine ⟨rfl, hlow, ?_⟩
  have hinside : ∀ p ∈ c.patches (max unit 1), p.rect.bottom ≤ height := by
    intro p hp
    exact (PixelRect.crop_eq_self_iff.mp (h.crop_eq_self hunit hw hh hp)).2
  calc d.paint (max unit 1) wide high background
      = Patch.paintAll (d.patches (max unit 1)) (blankRows wide high background) :=
        hd.paint_eq hunit hwide hhigh background
    _ = Patch.paintAll (c.patches (max unit 1))
          (blankRows wide (height + (high - height)) background) := by
        rw [patches_of_emptyRows hrows, Nat.add_sub_cancel' hlow]
    _ = Patch.paintAll (c.patches (max unit 1)) (blankRows wide height background) ++
          blankRows wide (high - height) background :=
        Patch.paintAll_blankRows_append hinside (high - height) background
    _ = c.paint (max unit 1) wide height background ++
          blankRows wide (high - height) background := by
        rw [h.paint_eq hunit hw hh background]

/-- A canvas whose last event is no line break. One line break more changes neither its size nor the
result of rasterising it. Of `k` line breaks each but the first adds one to the height, and none
changes the width; if the larger canvas still has a picture, then it is the picture from before
above a stripe of background. -/
theorem trailing_breaks_add_background {events : List Event}
    (hsizes : ∀ e ∈ events, e.HasPositiveSize) {last : Event}
    (hlast : events.getLast? = some last) (hitem : last ≠ .lineBreak) :
    let c := Event.deliverAll renderer events {}
    let broken (k : Nat) := Event.deliverAll renderer (List.replicate k .lineBreak) c
    ((broken 1).width = c.width ∧ (broken 1).height = c.height ∧
      ∀ name unit background,
        (broken 1).rasterise name unit background = c.rasterise name unit background) ∧
    ∀ k, 1 ≤ k →
      (broken k).width = c.width ∧
      (broken k).height = times (· + 1) (k - 1) c.height ∧
      ∀ name unit background larger, (broken k).rasterise name unit background = .ok larger →
        ∃ drawing, c.rasterise name unit background = .ok drawing ∧
          drawing.width = larger.width ∧ drawing.height ≤ larger.height ∧
          larger.rows = drawing.rows ++
            blankRows drawing.width (larger.height - drawing.height) background := by
  intro c broken
  have horder : c.InOrder := InOrder.empty.deliverAll hsizes
  have hused : c.current.isUnused = false := by
    rcases List.getLast?_eq_some_iff.mp hlast with ⟨before, rfl⟩
    rcases List.forall_mem_append.mp hsizes with ⟨hbefore, hend⟩
    have hcanvas : c = last.deliver renderer (Event.deliverAll renderer before {}) :=
      deliverAll_append renderer before [last] {}
    rw [hcanvas]
    exact (InOrder.empty.deliverAll hbefore).isUnused_deliver
      (hend last (List.mem_singleton_self last)) hitem
  constructor
  · rcases rows_lineBreaks hused 0 with ⟨hrows, hdropped⟩
    refine ⟨horder.width_of_emptyRows hrows, height_of_emptyRows hrows, ?_⟩
    have hsame : (broken 1).rows = c.rows := by
      rw [← Array.toList_inj, hrows]
      exact List.append_nil _
    exact rasterise_congr hsame hdropped
  · intro k hk
    obtain ⟨n, rfl⟩ : ∃ n, k = n + 1 := ⟨k - 1, by omega⟩
    rcases rows_lineBreaks hused n with ⟨hrows, hdropped⟩
    have hbroken : (broken (n + 1)).InOrder := by
      apply horder.deliverAll
      intro e he
      rw [List.eq_of_mem_replicate he]
      trivial
    refine ⟨horder.width_of_emptyRows hrows, height_of_emptyRows hrows, ?_⟩
    intro name unit background larger hlarger
    exact horder.rasterise_of_emptyRows hbroken hrows hdropped hlarger

/-- Three line breaks below a row that holds only a space: the first shows nothing, and the other
two add a stripe of two pixels. -/
theorem trailing_breaks_add_background_stripe :
    let events : List Event := [.block 2 .black, .lineBreak, .space 3]
    let c := Event.deliverAll renderer events {}
    let broken := Event.deliverAll renderer (List.replicate 3 .lineBreak) c
    (∀ e ∈ events, e.HasPositiveSize) ∧
    ∃ drawing larger, c.rasterise "stripe" 1 .white = .ok drawing ∧
      broken.rasterise "stripe" 1 .white = .ok larger ∧
      (drawing.width, drawing.height) = (3, 3) ∧
      larger.rows = drawing.rows ++ blankRows 3 2 .white := by
  intro events c broken
  have hsizes : ∀ e ∈ events, e.HasPositiveSize := by decide +kernel
  have hsize : (c.rasterise "stripe" 1 .white).map (fun d => (d.width, d.height)) =
      .ok (3, 3) := by decide +kernel
  have hlarge : (broken.rasterise "stripe" 1 .white).map (fun d => (d.width, d.height)) =
      .ok (3, 5) := by decide +kernel
  refine ⟨hsizes, ?_⟩
  cases hlarger : broken.rasterise "stripe" 1 .white with
  | error fault =>
    rw [hlarger] at hlarge
    cases hlarge
  | ok larger =>
    rcases (trailing_breaks_add_background hsizes rfl (by decide)).2 3 (by decide) with
      ⟨-, -, hstripe⟩
    rcases hstripe "stripe" 1 .white larger hlarger with ⟨drawing, hdrawing, -, -, hrows⟩
    rw [hlarger] at hlarge
    rw [hdrawing] at hsize
    rcases Prod.mk.inj (Except.ok.inj hlarge) with ⟨-, hhigh⟩
    rcases Prod.mk.inj (Except.ok.inj hsize) with ⟨hwidth, hheight⟩
    rw [hwidth, hheight, hhigh] at hrows
    exact ⟨drawing, larger, hdrawing, rfl, Except.ok.inj hsize, hrows⟩

end Canvas

end BlockScript
