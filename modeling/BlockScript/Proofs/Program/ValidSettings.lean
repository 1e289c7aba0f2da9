import BlockScript.Proofs.Program.WrittenFiles

namespace BlockScript

/-! # Settings that make sense

However a command comes by its manifest, the unit is above zero and the background is a colour
(`Manifest.IsValid`): a text is refused otherwise, and the default settings are valid. So a build can
take only two things amiss that are neither files nor pictures: a unit of zero on the command line,
and that there is nothing to build (`Session.manifest_is_valid`).
-/

namespace Manifest

variable {m : Manifest} {text : String} {fault : Fault}

/-- Whether the unit is above zero and the background is the text of a colour. -/
structure IsValid (m : Manifest) : Prop where
  one_le_unit : 1 ≤ m.unit
  background : ∃ colour, m.backgroundColour = .ok colour

theorem validate_eq_ok_iff : m.validate = .ok () ↔ m.IsValid := by
  unfold validate
  constructor
  · intro h
    split_ifs at h with hzero
    split at h
    · next colour hcolour => exact ⟨Nat.one_le_iff_ne_zero.mpr hzero, colour, hcolour⟩
    · cases h
  · rintro ⟨hunit, colour, hcolour⟩
    rw [if_neg (Nat.one_le_iff_ne_zero.mp hunit), hcolour]

theorem isValid_default : ({} : Manifest).IsValid := validate_eq_ok_iff.mp (by decide +kernel)

/-- A text is read as the manifest that its document holds, if this one is valid. -/
theorem parse_eq_ok_iff : parse text = .ok m ↔
    (Yaml.Document.parse? text.toList).bind ofDocument? = some m ∧ m.IsValid := by
  unfold parse
  cases (Yaml.Document.parse? text.toList).bind ofDocument? with
  | none => simp
  | some other =>
    cases hvalid : other.validate with
    | ok done =>
      simp only [hvalid, Except.ok.injEq, Option.some.injEq]
      constructor
      · rintro rfl
        exact ⟨rfl, validate_eq_ok_iff.mp hvalid⟩
      · rintro ⟨rfl, -⟩
        rfl
    | error fault =>
      simp only [hvalid, Option.some.injEq]
      constructor
      · intro h
        cases h
      · rintro ⟨rfl, hm⟩
        rw [validate_eq_ok_iff.mpr hm] at hvalid
        cases hvalid

theorem isValid_of_parse (h : parse text = .ok m) : m.IsValid := (parse_eq_ok_iff.mp h).2

end Manifest

/-- With a valid manifest there is a plan, unless the command line asks for a unit of zero. -/
theorem BuildPlan.make_of_isValid {m : Manifest} (hm : m.IsValid) (output : Option Path)
    (unit : Option Nat) :
    (unit = some 0 ∧ make m output unit = .error .zeroUnitFlag) ∨
      unit ≠ some 0 ∧ ∃ plan, make m output unit = .ok plan := by
  rcases hm with ⟨hunit, colour, hcolour⟩
  by_cases hzero : unit = some 0
  · subst hzero
    exact Or.inl ⟨rfl, rfl⟩
  · refine Or.inr ⟨hzero, ?_⟩
    have hpositive : unit.getD m.unit ≠ 0 := by
      cases unit with
      | none => exact Nat.one_le_iff_ne_zero.mp hunit
      | some n =>
        rintro rfl
        exact hzero rfl
    rw [make, if_neg hpositive, hcolour]
    exact ⟨_, rfl⟩

namespace Session

variable {s s' : Session} {m : Manifest} {plan : BuildPlan} {script p : Path} {fault : Fault}

theorem isValid_of_readManifest (h : s.readManifest p = .ok m) : m.IsValid := by
  unfold readManifest at h
  split at h
  · exact Manifest.isValid_of_parse h
  · cases h

theorem isValid_of_manifest {config : Option Path} (h : s.manifest config = .ok m) : m.IsValid := by
  unfold manifest at h
  split at h
  · exact isValid_of_readManifest h
  · simp only at h
    split_ifs at h
    · exact isValid_of_readManifest h
    · rw [← Except.ok.inj h]
      exact Manifest.isValid_default

/-! ## What can go wrong with a plan -/

theorem kind_of_readScript (h : s.readScript p = .error fault) : fault.kind = .file := by
  unfold readScript at h
  split_ifs at h
  all_goals
    split at h
    · cases h
    · rw [← Except.error.inj h]
      rfl

/-- A script is not built since files or pictures keep it from that. -/
theorem NotBuilt.kind {left : FileTree} (h : s.NotBuilt plan script fault left) :
    fault.kind = .file ∨ fault.kind = .render := by
  cases h with
  | unreadable hread => exact Or.inl (kind_of_readScript hread)
  | undrawable hread hdraw => exact Or.inr (Canvas.kind_of_rasterise hdraw)
  | unopened | cutOff => exact Or.inl rfl

theorem kind_of_buildScripts {scripts : List Path}
    (h : (s.buildScripts plan scripts).2 = .error fault) :
    fault.kind = .file ∨ fault.kind = .render := by
  rcases hbuild : s.buildScripts plan scripts with ⟨t, result⟩
  rw [hbuild] at h
  simp only at h
  subst h
  rcases buildScripts_eq_error hbuild with ⟨-, script, -, u, -, -, -, hscript⟩
  exact (buildScript_eq_error hscript).kind

theorem kind_of_makeOutput {output : Path} (h : (s.makeOutput output).2 = .error fault) :
    fault.kind = .file := by
  rcases s.makeOutput_cases output with ⟨-, hmake⟩ | ⟨-, ⟨-, hmake⟩ | ⟨refusal, -, hmake⟩⟩
  · rw [hmake] at h
    cases h
  · rw [hmake] at h
    cases h
  · rw [hmake] at h
    rw [← Except.error.inj h]
    rfl

/-- A build that has a plan lacks scripts, or files or pictures keep it from its end. -/
theorem kind_of_build {paths : List Path} {output : Option Path} {unit : Option Nat}
    (hplan : BuildPlan.make m output unit = .ok plan)
    (h : (s.build m paths output unit).2 = .error fault) :
    (s.findScripts m paths = [] ∧ fault = .noScripts) ∨
      s.findScripts m paths ≠ [] ∧ (fault.kind = .file ∨ fault.kind = .render) := by
  unfold build at h
  rw [hplan] at h
  simp only at h
  split_ifs at h with hnone
  · exact Or.inl ⟨List.isEmpty_iff.mp hnone, (Except.error.inj h).symm⟩
  · refine Or.inr ⟨fun hempty => hnone (List.isEmpty_iff.mpr hempty), ?_⟩
    split at h
    · next t fault' hmake =>
      obtain rfl := Except.error.inj h
      exact Or.inl (kind_of_makeOutput (congrArg Prod.snd hmake))
    · split at h
      · next u fault' hbuild =>
        obtain rfl := Except.error.inj h
        exact kind_of_buildScripts (congrArg Prod.snd hbuild)
      · cases h

/-- A build with a valid manifest ends with a fault of configuration in two cases: the command line
asks for a unit of zero, or else no script is found. -/
theorem config_fault_of_build_iff (hm : m.IsValid) (paths : List Path) (output : Option Path)
    (unit : Option Nat) :
    ((s.build m paths output unit).2 = .error fault ∧ fault.kind = .config) ↔
      unit = some 0 ∧ fault = .zeroUnitFlag ∨
        unit ≠ some 0 ∧ s.findScripts m paths = [] ∧ fault = .noScripts := by
  rcases BuildPlan.make_of_isValid hm output unit with ⟨hzero, hplan⟩ | ⟨hunit, plan, hplan⟩
  · have hbuild : s.build m paths output unit = (s, .error .zeroUnitFlag) := by
      rw [build, hplan]
    rw [hbuild]
    constructor
    · rintro ⟨hfault, -⟩
      exact Or.inl ⟨hzero, (Except.error.inj hfault).symm⟩
    · rintro (⟨-, rfl⟩ | ⟨hnot, -⟩)
      · exact ⟨rfl, rfl⟩
      · exact absurd hzero hnot
  · constructor
    · rintro ⟨hfault, hkind⟩
      rcases kind_of_build hplan hfault with ⟨hnone, rfl⟩ | ⟨-, hother | hother⟩
      · exact Or.inr ⟨hunit, hnone, rfl⟩
      · rw [hkind] at hother
        cases hother
      · rw [hkind] at hother
        cases hother
    · rintro (⟨hzero, -⟩ | ⟨-, hnone, rfl⟩)
      · exact absurd hzero hunit
      · refine ⟨?_, rfl⟩
        rw [build, hplan, hnone]
        rfl

/-- A manifest that is read from a text, from a file, or found by a command is valid. So a build with
the manifest that its command line leads to takes configuration amiss in two cases only: a unit of
zero on the command line, or no script to be found. -/
theorem manifest_is_valid :
    (∀ text m, Manifest.parse text = .ok m → m.IsValid) ∧
    (∀ (s : Session) p m, s.readManifest p = .ok m → m.IsValid) ∧
    ∀ (s : Session) config m, s.manifest config = .ok m → m.IsValid ∧
      (∀ (t : Session) paths output unit fault,
        ((t.build m paths output unit).2 = .error fault ∧ fault.kind = .config) ↔
          unit = some 0 ∧ fault = .zeroUnitFlag ∨
            unit ≠ some 0 ∧ t.findScripts m paths = [] ∧ fault = .noScripts) ∧
      ∀ c paths output unit, c.config = config → c.request = .build paths output unit →
        s.execute c = s.build m paths output unit := by
  refine ⟨fun text m => Manifest.isValid_of_parse, fun s p m => isValid_of_readManifest, ?_⟩
  intro s config m hm
  have hvalid : m.IsValid := isValid_of_manifest hm
  refine ⟨hvalid, fun t paths output unit fault => t.config_fault_of_build_iff hvalid _ _ _, ?_⟩
  rintro c paths output unit rfl hrequest
  rw [execute, hrequest]
  simp only [hm]

/-- Of the two builds with this manifest one has a unit of zero, and the other nothing to build. -/
theorem manifest_is_valid_workshop :
    workshop.manifest (some plainManifest) = .ok { unit := 1 } ∧
      ({ unit := 1 } : Manifest).IsValid ∧
      (workshop.build { unit := 1 } [small] none (some 0)).2 = .error .zeroUnitFlag ∧
      (workshop.build { unit := 1 } [unnameable] none none).2 = .error .noScripts := by
  rcases manifest_is_valid.2.2 workshop _ _ manifest_workshop with ⟨hvalid, hbuilds, -⟩
  have hnone : workshop.findScripts { unit := 1 } [unnameable] = [] := by
    have hroots : [unnameable].flatMap (workshop.files.scriptsAt { unit := 1 }) = [] := by
      decide +kernel
    show workshop.files.findScripts { unit := 1 } [unnameable] = _
    rw [FileTree.findScripts, hroots, List.mergeSort_nil]
    rfl
  refine ⟨manifest_workshop, hvalid, ?_, ?_⟩
  · exact ((hbuilds workshop [small] none (some 0) _).mpr (Or.inl ⟨rfl, rfl⟩)).1
  · exact ((hbuilds workshop [unnameable] none none _).mpr (Or.inr ⟨by simp, hnone, rfl⟩)).1

end Session

end BlockScript
