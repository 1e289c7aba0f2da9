import BlockScript.Proofs.Program.Pictures

namespace BlockScript

/-! # Pictures that are written

A drawing that may have rows of unequal lengths is written as a picture that is as wide as its first
row and as high as it has rows. Shorter rows are filled up, longer ones are cut, and all else is shown
as it is (`Session.written_picture_shows`).
-/

namespace Session

variable {s s' : Session} {p : Path} {d : Drawing} {fault : Fault}

/-- What a picture file holds after a picture was written to it. -/
theorem find?_of_writePicture (h : s.writePicture p d = .ok s') :
    ∃ place, s'.files.find? p = .ok (place, .file (.picture (Picture.fit d.width d.rows))) := by
  rcases savePicture_eq_ok (writePicture_eq_ok_iff.mp h) with ⟨picture, hpicture, hwrite, -⟩
  rcases FileTree.write_eq_ok hwrite with ⟨place, -, -, -, hfind⟩
  rw [Picture.eq_fit_of_ofDrawing hpicture] at hfind
  exact ⟨place, hfind⟩

/-- A drawing with rows is written unless its file cannot be, when its sides are within limits. -/
theorem writePicture_eq_error_of_sides (hwidth : 1 ≤ d.width)
    (hwide : d.width ≤ Picture.maxFileSide) (hhigh : d.height ≤ Picture.maxFileSide)
    (h : s.writePicture p d = .error fault) : fault = .file p.text .writePicture := by
  have hheight : 1 ≤ d.height := by
    rw [Nat.one_le_iff_ne_zero]
    intro hnone
    have hempty : d.width = 0 := by
      rw [Drawing.width, Array.getElem?_eq_none (Nat.le_of_eq hnone)]
      rfl
    omega
  have hpicture := Picture.ofDrawing_of_sides hwidth hheight hwide hhigh p.text
  exact fault_of_writePicture hpicture h

/-- A drawing with a first row that is not empty, and with sides that a file can count, is written
as a picture with as many columns as the first row and as many rows. A pixel has the colour of the
drawing at its column and row, or is transparent where that row is too short. Only the file can keep
it from being written. -/
theorem written_picture_shows (s : Session) (p : Path) (d : Drawing) (hwidth : 1 ≤ d.width)
    (hwide : d.width ≤ Picture.maxFileSide) (hhigh : d.height ≤ Picture.maxFileSide) :
    (∀ s', s.writePicture p d = .ok s' →
      ∃ place picture, s'.files.find? p = .ok (place, .file (.picture picture)) ∧
        picture.width = d.width ∧ picture.height = d.height ∧
        ∀ x y, picture.pixel? x y =
          if x < d.width ∧ y < d.height then
            some ((d.rows[y]?.bind (·[x]?)).getD .transparent)
          else none) ∧
    ∀ fault, s.writePicture p d = .error fault → fault = .file p.text .writePicture := by
  constructor
  · intro s' h
    rcases find?_of_writePicture h with ⟨place, hfind⟩
    exact ⟨place, _, hfind, rfl, rfl, Picture.pixel?_fit d.rows⟩
  · intro fault h
    exact writePicture_eq_error_of_sides hwidth hwide hhigh h

/-- A first row of two pixels, a shorter second and a longer third one. -/
def ragged : Drawing where
  name := "ragged"
  rows := #[#[.white, ⟨0, 0, 255, 128⟩], #[.black], #[.magenta, .black, .white]]

/-- The second row is filled up, the third is cut, and what shines through is kept. -/
theorem written_picture_shows_ragged :
    ∃ s', ({ files := {} } : Session).writePicture (Path.ofString "r.png") ragged = .ok s' ∧
      ∃ place picture,
        s'.files.find? (Path.ofString "r.png") = .ok (place, .file (.picture picture)) ∧
        picture.width = 2 ∧ picture.height = 3 ∧
        picture.pixel? 1 0 = some ⟨0, 0, 255, 128⟩ ∧ picture.pixel? 0 1 = some .black ∧
        picture.pixel? 1 1 = some .transparent ∧ picture.pixel? 1 2 = some .black ∧
        picture.pixel? 2 2 = none := by
  have hshows := written_picture_shows { files := {} } (Path.ofString "r.png") ragged
    (by decide) (by decide) (by decide)
  rcases hwrite : ({ files := {} } : Session).writePicture (Path.ofString "r.png") ragged with
    fault | s'
  · have hok : (({ files := {} } : Session).writePicture (Path.ofString "r.png") ragged).toBool =
        true := by decide +kernel
    rw [hwrite] at hok
    cases hok
  · rcases hshows.1 s' hwrite with ⟨place, picture, hfind, hwidth, hheight, hpixel⟩
    exact ⟨s', rfl, place, picture, hfind, hwidth, hheight, hpixel 1 0, hpixel 0 1, hpixel 1 1,
      hpixel 1 2, hpixel 2 2⟩

end Session

end BlockScript
