import BlockScript.Program.Execute
import BlockScript.Proofs.Program.Pictures

namespace BlockScript

/-! # Files that commands write

A build makes the output directory and writes one picture after the other, and the first script that
fails ends it. So whatever happens, a build changes no place but new directories on the way to the
output and the pictures of the scripts up to the one that failed (`Session.BuildEnd.leaves`). The
one that failed has no picture, unless the device got full while it was written
(`Session.NotBuilt`). Before there is a plan nothing is changed at all. A manifest is written to one
place, and what cannot be opened is left as it was (`Session.InitEnd`).
-/

theorem Canvas.exists_picture_of_rasterise {c : Canvas} {name : String} {unit : Nat}
    {background : Colour} {drawing : Drawing} (h : c.rasterise name unit background = .ok drawing)
    (path : String) : ∃ picture, Picture.ofDrawing drawing path = .ok picture := by
  obtain ⟨width, height, -, hwidth, hheight, -, rfl⟩ := rasterise_eq_ok_iff.mp h
  obtain ⟨-, hwide, hw⟩ := pixelLength?_eq_some_iff_ceil.mp hwidth
  obtain ⟨-, hhigh, hh⟩ := pixelLength?_eq_some_iff_ceil.mp hheight
  obtain ⟨hdw, hdh⟩ :=
    size_paint c name (max unit 1) width (one_le_of_pixelLength? hheight) background
  have hlimit : Picture.maxFileSide = 4294967295 := rfl
  exact ⟨_, Picture.ofDrawing_of_sides (by omega) (by omega) (by omega) (by omega) path⟩

namespace Session

variable {s s' t u : Session} {plan : BuildPlan} {script p : Path} {scripts built : List Path}
  {fault : Fault}

/-! ## Scripts that are not built -/

/-- Why a script is not built, and the files that are left then. Nothing is changed when the script
cannot be read or drawn, or its picture not be opened; a picture that was opened is cut off when the
device gets full. -/
inductive NotBuilt (s : Session) (plan : BuildPlan) (script : Path) : Fault → FileTree → Prop
  | unreadable {fault : Fault} (hread : s.readScript script = .error fault) :
      NotBuilt s plan script fault s.files
  | undrawable {source : List Char} {fault : Fault} (hread : s.readScript script = .ok source)
      (hdraw : plan.draw script source = .error fault) : NotBuilt s plan script fault s.files
  | unopened {source : List Char} {drawing : Drawing} {refusal : SystemRefusal}
      (hread : s.readScript script = .ok source) (hdraw : plan.draw script source = .ok drawing)
      (hopen : s.files.openFile (plan.picturePath script) = .error refusal) :
      NotBuilt s plan script (.file (plan.picturePath script).text .writePicture) s.files
  | cutOff {source : List Char} {drawing : Drawing} {picture : Picture} {q : Place}
      {left : FileTree} (hread : s.readScript script = .ok source)
      (hdraw : plan.draw script source = .ok drawing)
      (hpicture : Picture.ofDrawing drawing (plan.picturePath script).text = .ok picture)
      (hopen : s.files.openFile (plan.picturePath script) = .ok q)
      (hcut : s.files.CutsOff q (.picture picture) left) :
      NotBuilt s plan script (.file (plan.picturePath script).text .writePicture) left

/-- A picture that is not written is not opened, or cut off. -/
theorem notBuilt_of_write {source : List Char} {drawing : Drawing} {picture : Picture}
    {failure : WriteFailure} (hread : s.readScript script = .ok source)
    (hdraw : plan.draw script source = .ok drawing)
    (hpicture : Picture.ofDrawing drawing (plan.picturePath script).text = .ok picture)
    (h : s.files.write (plan.picturePath script) (.picture picture) = .error failure) :
    NotBuilt s plan script (.file (plan.picturePath script).text .writePicture) failure.files := by
  rcases s.files.write_cases (plan.picturePath script) (.picture picture) with
    ⟨refusal, hopen, hwrite⟩ | ⟨q, hopen, ⟨u, hwrite, -⟩ | ⟨u, hwrite, hcut⟩⟩
  · obtain rfl := Except.error.inj (h.symm.trans hwrite)
    exact .unopened hread hdraw hopen
  · rw [h] at hwrite
    cases hwrite
  · obtain rfl := Except.error.inj (h.symm.trans hwrite)
    exact .cutOff hread hdraw hpicture hopen hcut

theorem buildScript_eq_error (h : s.buildScript plan script = (s', .error fault)) :
    NotBuilt s plan script fault s'.files := by
  rw [buildScript] at h
  split at h
  · next hread =>
    obtain ⟨rfl, hfault⟩ := Prod.mk.inj h
    obtain rfl := Except.error.inj hfault
    exact .unreadable hread
  · next source hread =>
    simp only at h
    split at h
    · next hdraw =>
      obtain ⟨rfl, hfault⟩ := Prod.mk.inj h
      obtain rfl := Except.error.inj hfault
      exact .undrawable hread hdraw
    · next drawing hdraw =>
      split at h
      · next hsave =>
        obtain ⟨rfl, hfault⟩ := Prod.mk.inj h
        obtain rfl := Except.error.inj hfault
        obtain ⟨picture, hpicture⟩ :=
          Canvas.exists_picture_of_rasterise hdraw (plan.picturePath script).text
        obtain ⟨rfl, ⟨hname, -⟩ | ⟨failure, hwrite, hfiles⟩⟩ := savePicture_eq_error hpicture hsave
        · rw [plan.isPictureFile_picturePath] at hname
          cases hname
        · rw [hfiles]
          exact notBuilt_of_write hread hdraw hpicture hwrite
      · cases h

/-- Scripts that are not all built are built up to the first that fails. -/
theorem buildScripts_eq_error (h : s.buildScripts plan scripts = (s', .error fault)) :
    ∃ built script after t warnings, scripts = built ++ script :: after ∧
      s.buildScripts plan built = (t, .ok warnings) ∧
      t.buildScript plan script = (s', .error fault) := by
  induction scripts generalizing s with
  | nil => cases h
  | cons first scripts ih =>
    rw [buildScripts] at h
    split at h
    · next t fault' hfirst =>
      obtain ⟨rfl, hfault⟩ := Prod.mk.inj h
      obtain rfl := Except.error.inj hfault
      exact ⟨[], first, scripts, s, 0, rfl, rfl, hfirst⟩
    · next t report hfirst =>
      split at h
      · next u fault' hrest =>
        obtain ⟨rfl, hfault⟩ := Prod.mk.inj h
        obtain rfl := Except.error.inj hfault
        obtain ⟨built, script, after, v, warnings, rfl, hbuilt, hscript⟩ := ih hrest
        refine ⟨first :: built, script, after, v, report.errors.length + warnings, rfl, ?_, hscript⟩
        rw [buildScripts, hfirst]
        simp only [hbuilt]
      · cases h

/-! ## What a build leaves -/

/-- Every place is as it was, or it has a new directory on the way to an output directory that was
missing, or the picture of a script was written to it. -/
def LeavesOnly (s : Session) (plan : BuildPlan) (built : List Path) (t : FileTree) : Prop :=
  ∀ q, t.entry? q = s.files.entry? q ∨
    (s.files.exists? plan.output = false ∧ s.files.entry? q = none ∧
      t.entry? q = some .directory ∧
      ∃ above, plan.output.Passes above ∧ t.directory? above = some q) ∨
    ∃ script ∈ built, t.place? (plan.picturePath script) = some q

/-- The files after the scripts were built, in a session that began with other files. An output
directory that was missing is there, unless it is the empty path. Every script could be read and
drawn, and its picture shows the drawing unless a later script has a picture of the same name, when
no path of a picture ends at a link. -/
structure Built (s : Session) (plan : BuildPlan) (built : List Path) (t : FileTree) : Prop where
  leaves : s.LeavesOnly plan built t
  output : s.files.exists? plan.output = false → plan.output.chars ≠ [] →
    (t.directory? plan.output).isSome = true
  pictures : ∀ before script after, built = before ++ script :: after →
    ∃ source drawing, s.readScript script = .ok source ∧ plan.draw script source = .ok drawing ∧
      ((∀ other ∈ built, ¬ t.IsLink (plan.picturePath other)) →
        (∀ later ∈ after, BuildPlan.pictureName later ≠ BuildPlan.pictureName script) →
        t.pixels? (plan.picturePath script) = some drawing.rows)

/-- Scripts that are built add their pictures to what is left. -/
theorem LeavesOnly.buildScripts {warnings : Nat} (h : s.LeavesOnly plan [] t.files)
    (hbuild : t.buildScripts plan built = (u, .ok warnings)) : s.LeavesOnly plan built u.files := by
  intro q
  rcases buildScripts_entry? hbuild q with hsame | hpicture
  · rcases h q with hkept | ⟨hmissing, hfree, hnew, above, habove, hplace⟩ | ⟨script, hnone, -⟩
    · exact Or.inl (hsame.trans hkept)
    · -- a directory stays where it was made
      have hlater := (buildScripts_extends hbuild).files.directory? hplace
      exact Or.inr (Or.inl ⟨hmissing, hfree, hsame.trans hnew, above, habove, hlater⟩)
    · cases hnone
  · exact Or.inr (Or.inr hpicture)

/-- What a script that is not built leaves, when earlier ones were built. -/
theorem LeavesOnly.notBuilt {left : FileTree} (h : s.LeavesOnly plan built t.files)
    (hnot : NotBuilt t plan script fault left) : s.LeavesOnly plan (built ++ [script]) left := by
  have hmore : ∀ {u : FileTree} {q : Place},
      (∃ earlier ∈ built, u.place? (plan.picturePath earlier) = some q) →
      ∃ earlier ∈ built ++ [script], u.place? (plan.picturePath earlier) = some q :=
    fun ⟨earlier, hmem, hplace⟩ => ⟨earlier, List.mem_append_left _ hmem, hplace⟩
  cases hnot with
  | unreadable | undrawable | unopened =>
    intro q
    exact (h q).imp_right (Or.imp_right hmore)
  | @cutOff _ _ _ place _ _ _ _ hopen hcut =>
    obtain ⟨size, -, -, hputs⟩ := hcut.puts
    have hgrows : FileTree.Grows (fun _ => True) t.files left := .of_openFile hopen hputs trivial
    intro q
    -- the picture that was cut off is at its place, and all else is as it was before
    by_cases hq : q = place
    · subst hq
      exact Or.inr (Or.inr ⟨script, by simp, FileTree.place?_eq_some.mpr
        ⟨_, FileTree.find?_of_openFile hopen hputs⟩⟩)
    · have hkept := (hputs.entry? (FileTree.openFile_eq_ok hopen).1 q).trans (if_neg hq)
      rcases h q with
        hsame | ⟨hmissing, hfree, hnew, above, habove, hplace⟩ | ⟨earlier, hmem, hplace⟩
      · exact Or.inl (hkept.trans hsame)
      · exact Or.inr (Or.inl ⟨hmissing, hfree, hkept.trans hnew, above, habove,
          hgrows.directory? hplace⟩)
      · exact Or.inr (Or.inr (hmore ⟨earlier, hmem, hgrows.place? hplace⟩))

/-! ## How a build ends -/

/-- How a build ends that has a plan, and what it leaves. Without scripts it leaves all files as
they were. If the output directory cannot be made, the directories that were made on the way to it
stay. Otherwise the scripts are built up to the first that fails in the session that there is at its
turn. It reads there as at the start, unless an earlier picture was written in its place. -/
inductive BuildEnd (s : Session) (plan : BuildPlan) (scripts : List Path) :
    Session → Except Fault Unit → Prop
  | noScripts {s' : Session} (hscripts : scripts = []) (hfiles : s'.files = s.files) :
      BuildEnd s plan scripts s' (.error .noScripts)
  | noOutput {s' : Session} {refusal : SystemRefusal} (hscripts : scripts ≠ [])
      (hmissing : s.files.exists? plan.output = false)
      (hrefused : (s.files.makeAll plan.output).2 = some refusal)
      (hleaves : s.LeavesOnly plan [] s'.files) :
      BuildEnd s plan scripts s' (.error (.file plan.output.text (.createOutput refusal)))
  | failed {s' t : Session} {built : List Path} {script : Path} {after : List Path} {fault : Fault}
      (hscripts : scripts = built ++ script :: after) (hbuilt : s.Built plan built t.files)
      (hread : (∀ earlier ∈ built, ∀ q, t.files.place? (plan.picturePath earlier) = some q →
        t.files.place? script ≠ some q) → t.readScript script = s.readScript script)
      (hnot : NotBuilt t plan script fault s'.files) : BuildEnd s plan scripts s' (.error fault)
  | finished {s' : Session} (hscripts : scripts ≠ [])
      (hbuilt : s.Built plan scripts s'.files) : BuildEnd s plan scripts s' (.ok ())

theorem LeavesOnly.mono {more : List Path} {files : FileTree} (h : s.LeavesOnly plan built files)
    (hmore : ∀ script ∈ built, script ∈ more) : s.LeavesOnly plan more files := fun q =>
  (h q).imp_right (Or.imp_right fun ⟨script, hmem, hplace⟩ => ⟨script, hmore script hmem, hplace⟩)

/-- However a build ends, it changes no place but new directories on the way to the output, and
those that pictures of its scripts are written to. -/
theorem BuildEnd.leaves {result : Except Fault Unit} (h : BuildEnd s plan scripts s' result) :
    s.LeavesOnly plan scripts s'.files := by
  cases h with
  | noScripts _ hfiles =>
    rw [hfiles]
    exact fun q => Or.inl rfl
  | noOutput _ _ _ hleaves => exact hleaves.mono nofun
  | failed hscripts hbuilt _ hnot =>
    refine (hbuilt.leaves.notBuilt hnot).mono fun script hmem => ?_
    rw [hscripts]
    rcases List.mem_append.mp hmem with hmem | hmem
    · exact List.mem_append_left _ hmem
    · rw [List.mem_singleton.mp hmem]
      exact List.mem_append_right _ List.mem_cons_self
  | finished _ hbuilt => exact hbuilt.leaves

/-! ## Commands -/

/-- How writing a manifest ends, and what it leaves. One that is there stays unless it is to be
overwritten, and nothing is changed for a file that cannot be opened. A file that was opened holds
the manifest, or its first bytes if the device got full. -/
inductive InitEnd (s : Session) (path : Path) (force : Bool) : Session → Except Fault Unit → Prop
  | refused (hexists : s.files.exists? path = true) (hforce : force = false) :
      InitEnd s path force s (.error .manifestExists)
  | unopened {refusal : SystemRefusal} (hopen : s.files.openFile path = .error refusal) :
      InitEnd s path force s (.error (.file path.text (.writeManifest refusal)))
  | cutOff {s' : Session} {q : Place} (hopen : s.files.openFile path = .ok q)
      (hcut : s.files.CutsOff q (.ofText ({} : Manifest).yaml) s'.files) :
      InitEnd s path force s' (.error (.file path.text (.writeManifest .noSpace)))
  | written {s' : Session} {q : Place} (hopen : s.files.openFile path = .ok q)
      (hputs : s.files.Puts q (.file (.ofText ({} : Manifest).yaml)) s'.files)
      (hfind : s'.files.find? path = .ok (q, .file (.ofText ({} : Manifest).yaml))) :
      InitEnd s path force s' (.ok ())

/-- Writing a manifest changes the place of its file alone. -/
theorem InitEnd.entry? {path : Path} {force : Bool} {result : Except Fault Unit}
    (h : InitEnd s path force s' result) {place : Place}
    (hplace : s.files.openFile path ≠ .ok place) :
    s'.files.entry? place = s.files.entry? place := by
  cases h with
  | refused | unopened => rfl
  | cutOff hopen hcut =>
    obtain ⟨size, -, -, hputs⟩ := hcut.puts
    exact (hputs.entry? (FileTree.openFile_eq_ok hopen).1 place).trans
      (if_neg fun heq => hplace (by rw [heq, hopen]))
  | written hopen hputs =>
    exact (hputs.entry? (FileTree.openFile_eq_ok hopen).1 place).trans
      (if_neg fun heq => hplace (by rw [heq, hopen]))

/-- Two scripts of which the second is too large, and a manifest that is not valid. -/
def workshop : Session where
  files.entries := [
    (["blocks.yaml".toList], .file (.ofText "unit: many")),
    (["plain.yaml".toList], .file (.ofText "unit: 1")),
    (["x.blocks".toList], .file (.ofText "block.color-red")),
    (["y.blocks".toList], .file (.ofText "block.size-99999"))]

def small : Path := Path.ofString "x.blocks"

def plainManifest : Path := Path.ofString "plain.yaml"

theorem manifest_workshop : workshop.manifest (some plainManifest) = .ok { unit := 1 } := by
  decide +kernel

/-- An output directory with a name that is too long, in a directory that is not there. -/
def unnameable : Path := ⟨"a/".toList ++ List.replicate 256 'n'⟩

end Session

end BlockScript
