import BlockScript.Program.Build
import Mathlib.Tactic.SplitIfs

namespace BlockScript

/-! # Saved pictures

Saving a drawing makes a picture of it first, and touches no file if that fails. A picture that is
made is written unless its file cannot be (`Session.savePicture_eq_error`).
-/

namespace Session

variable {s s' : Session} {p : Path} {d : Drawing} {picture : Picture} {fault : Fault}

theorem writePicture_eq_ok_iff : s.writePicture p d = .ok s' ↔ s.savePicture p d = (s', .ok ()) := by
  rw [writePicture]
  rcases s.savePicture p d with ⟨t, fault | ⟨⟩⟩ <;> simp

theorem writePicture_eq_error_iff :
    s.writePicture p d = .error fault ↔ ∃ s', s.savePicture p d = (s', .error fault) := by
  rw [writePicture]
  rcases s.savePicture p d with ⟨t, other | ⟨⟩⟩ <;> simp

/-- A drawing that is saved is a picture in a file. -/
theorem savePicture_eq_ok (h : s.savePicture p d = (s', .ok ())) :
    ∃ picture, Picture.ofDrawing d p.text = .ok picture ∧
      s.files.write p (.picture picture) = .ok s'.files ∧ s'.input = s.input := by
  rw [savePicture] at h
  split at h
  · cases h
  · next picture hpicture =>
    split_ifs at h
    · split at h
      · next files hwrite =>
        obtain ⟨rfl, -⟩ := Prod.mk.inj h
        exact ⟨picture, hpicture, hwrite, rfl⟩
      · cases h
    · cases h

/-- A picture is not saved if its name does not tell what it is, or if its file is not written. -/
theorem savePicture_eq_error (hpicture : Picture.ofDrawing d p.text = .ok picture)
    (h : s.savePicture p d = (s', .error fault)) :
    fault = .file p.text .writePicture ∧
      (isPictureFile p = false ∧ s' = s ∨
        ∃ failure, s.files.write p (.picture picture) = .error failure ∧
          s'.files = failure.files) := by
  rw [savePicture, hpicture] at h
  simp only at h
  split_ifs at h with hname
  · split at h
    · cases h
    · next failure hwrite =>
      obtain ⟨rfl, hfault⟩ := Prod.mk.inj h
      exact ⟨(Except.error.inj hfault).symm, Or.inr ⟨failure, hwrite, rfl⟩⟩
  · obtain ⟨rfl, hfault⟩ := Prod.mk.inj h
    exact ⟨(Except.error.inj hfault).symm, Or.inl ⟨by simpa using hname, rfl⟩⟩

/-- Writing what has become a picture can only fail as writing a file does. -/
theorem fault_of_writePicture (hpicture : Picture.ofDrawing d p.text = .ok picture)
    (h : s.writePicture p d = .error fault) : fault = .file p.text .writePicture := by
  obtain ⟨t, hsave⟩ := writePicture_eq_error_iff.mp h
  exact (savePicture_eq_error hpicture hsave).1

end Session

end BlockScript
