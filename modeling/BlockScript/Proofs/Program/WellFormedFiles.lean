import BlockScript.Program.Execute
import BlockScript.Proofs.Files.NewDirectories
import BlockScript.Proofs.Files.Writing

namespace BlockScript

/-! # Well-formed files

Commands that only read leave the files as they are (`Session.files_of_execute`), and the others put
entries nowhere but under proper names. So the files stay well-formed through all commands
(`Session.wellFormed_execute`).
-/

namespace Session

variable {s : Session}

/-! ## Commands that only read -/

theorem files_run (s : Session) (file : Path) (format : DumpFormat) :
    (s.run file format).1.files = s.files := by
  rw [run]
  split
  · rfl
  · simp only
    split <;> rfl

theorem files_rerun (s : Session) (file : Path) (format : DumpFormat) :
    (s.rerun file format).files = s.files := by
  have hrun := (s.tell (.running file)).files_run file format
  rw [rerun]
  split
  · rfl
  · split
    · next hend =>
      rw [hend] at hrun
      exact hrun
    · next hend =>
      rw [hend] at hrun
      exact hrun

theorem files_checkScript (s : Session) (script : Path) :
    (s.checkScript script).1.files = s.files := by
  rw [checkScript]
  split <;> rfl

theorem files_checkScripts (s : Session) (scripts : List Path) :
    (s.checkScripts scripts).1.files = s.files := by
  induction scripts generalizing s with
  | nil => rfl
  | cons script scripts ih =>
    have hfirst := s.files_checkScript script
    rw [checkScripts]
    split
    · next hcheck =>
      rw [hcheck] at hfirst
      exact hfirst
    · next t problems hcheck =>
      rw [hcheck] at hfirst
      have hrest := ih t
      split
      · next hmore =>
        rw [hmore] at hrest
        exact hrest.trans hfirst
      · next hmore =>
        rw [hmore] at hrest
        exact hrest.trans hfirst

theorem files_check (s : Session) (m : Manifest) (paths : List Path) :
    (s.check m paths).1.files = s.files := by
  have hscripts := (s.note [.scriptsFound (s.findScripts m paths).length]).files_checkScripts
    (s.findScripts m paths)
  rw [check]
  split
  all_goals
    next hcheck =>
    rw [hcheck] at hscripts
    exact hscripts

/-- No command changes files but builds and the writing of a manifest. -/
theorem files_of_execute (s : Session) (c : CommandLine)
    (hbuild : ∀ paths output unit, c.request ≠ .build paths output unit)
    (hinit : ∀ directory force, c.request ≠ .init directory force) :
    (s.execute c).1.files = s.files := by
  rw [execute]
  split
  · exact s.files_run _ _
  · next hrequest => exact absurd hrequest (hbuild _ _ _)
  · split
    · rfl
    · exact s.files_check _ _
  · rfl
  · next hrequest => exact absurd hrequest (hinit _ _)
  · next file format _ =>
    rw [watch]
    split_ifs
    · exact (s.tell (.watching file)).files_rerun file format
    · rfl
  · rfl

/-! ## Commands that write -/

theorem wellFormed_savePicture (hs : s.files.WellFormed) (p : Path) (d : Drawing) :
    (s.savePicture p d).1.files.WellFormed := by
  rw [savePicture]
  split
  · exact hs
  · next picture _ =>
    split_ifs
    · split
      · next files hwrite => exact (hs.write p (.picture picture)).1 files hwrite
      · next failure hwrite => exact (hs.write p (.picture picture)).2 failure hwrite
    · exact hs

theorem wellFormed_buildScript (hs : s.files.WellFormed) (plan : BuildPlan) (script : Path) :
    (s.buildScript plan script).1.files.WellFormed := by
  rw [buildScript]
  split
  · exact hs
  · next source _ =>
    simp only
    split
    · exact hs
    · next drawing _ =>
      -- the log is written first, which changes no files
      have hsave := wellFormed_savePicture
        (s := s.note (Script.runLog source ++ (Script.canvas source).notes.toList)) hs
        (plan.picturePath script) drawing
      split
      all_goals
        next hsaved =>
        rw [hsaved] at hsave
        exact hsave

theorem wellFormed_buildScripts (hs : s.files.WellFormed) (plan : BuildPlan)
    (scripts : List Path) : (s.buildScripts plan scripts).1.files.WellFormed := by
  induction scripts generalizing s with
  | nil => exact hs
  | cons script scripts ih =>
    have hfirst := wellFormed_buildScript hs plan script
    rw [buildScripts]
    split
    · next hbuild =>
      rw [hbuild] at hfirst
      exact hfirst
    · next t built hbuild =>
      rw [hbuild] at hfirst
      -- telling about a picture changes no files
      have hrest := ih (s := t.tellAll (built.notices script)) hfirst
      split
      all_goals
        next hmore =>
        rw [hmore] at hrest
        exact hrest

theorem wellFormed_makeOutput (hs : s.files.WellFormed) (output : Path) :
    (s.makeOutput output).1.files.WellFormed := by
  have hall := hs.makeAll output
  rw [makeOutput]
  split_ifs
  · exact hs
  · split
    all_goals
      next hmake =>
      rw [hmake] at hall
      exact hall

theorem wellFormed_build (hs : s.files.WellFormed) (m : Manifest) (paths : List Path)
    (output : Option Path) (unit : Option Nat) :
    (s.build m paths output unit).1.files.WellFormed := by
  rw [build]
  split
  · exact hs
  · next plan _ =>
    -- the output directory comes first, then the pictures
    have hmake := wellFormed_makeOutput
      (s := s.note [.scriptsFound (s.findScripts m paths).length]) hs plan.output
    simp only
    split_ifs
    · exact hs
    · split
      · next hmade =>
        rw [hmade] at hmake
        exact hmake
      · next hmade =>
        rw [hmade] at hmake
        have hbuild := wellFormed_buildScripts hmake plan (s.findScripts m paths)
        split
        all_goals
          next hbuilt =>
          rw [hbuilt] at hbuild
          exact hbuild

theorem wellFormed_init (hs : s.files.WellFormed) (directory : Path) (force : Bool) :
    (s.init directory force).1.files.WellFormed := by
  rw [init]
  split_ifs
  · exact hs
  · split
    · next files hwrite => exact (hs.write _ _).1 files hwrite
    · next failure hwrite => exact (hs.write _ _).2 failure hwrite

/-- Every command leaves well-formed files well-formed. -/
theorem wellFormed_execute (hs : s.files.WellFormed) (c : CommandLine) :
    (s.execute c).1.files.WellFormed := by
  by_cases hbuild : ∃ paths output unit, c.request = .build paths output unit
  · obtain ⟨paths, output, unit, hrequest⟩ := hbuild
    rw [execute, hrequest]
    simp only
    split
    · exact hs
    · exact wellFormed_build hs _ paths output unit
  · by_cases hinit : ∃ directory force, c.request = .init directory force
    · obtain ⟨directory, force, hrequest⟩ := hinit
      rw [execute, hrequest]
      exact wellFormed_init hs directory force
    · push Not at hbuild hinit
      rw [s.files_of_execute c hbuild hinit]
      exact hs

end Session

end BlockScript
