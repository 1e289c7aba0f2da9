import BlockScript.Proofs.Drawing.FittedRows
import BlockScript.Proofs.Drawing.Limits
import BlockScript.Proofs.Files.FoundScripts
import BlockScript.Proofs.Files.NewDirectories
import BlockScript.Proofs.Files.Writing

namespace BlockScript

/-! # Pictures of a build

A build makes directories and writes pictures, one for each script in turn. So the scripts read the
same from the first to the last (`Extends.readScript`), and a picture stays as it was written unless
that of a later script is written to the same file (`buildScripts_pixels?`). Pictures are named after
the stems of their scripts alone, so of the scripts with one stem only the last has its picture
(`pictures_of_build`).
-/

/-! ## Image files -/

/-- A drawing whose rows have its width becomes a picture with the same pixels. -/
theorem Picture.pixelRows_fit {width : Nat} {rows : Array (Array Colour)}
    (h : ∀ row ∈ rows, row.size = width) : (fit width rows).pixelRows = rows := by
  refine Array.ext (by simp [pixelRows, fit]) fun y _ hy => ?_
  have hrow : rows[y].size = width := h _ (Array.getElem_mem hy)
  refine Array.ext (by simp [pixelRows, hrow]; rfl) fun x _ hx => ?_
  have hpixel : (rows[y]?.getD #[])[x]?.getD Colour.transparent = rows[y][x] := by
    rw [Array.getElem?_eq_getElem hy, Option.getD_some, Array.getElem?_eq_getElem hx,
      Option.getD_some]
  simpa [pixelRows, fit, getElem_putRows, getElem_putRow] using hpixel

theorem Picture.eq_fit_of_ofDrawing {d : Drawing} {path : String} {picture : Picture}
    (h : ofDrawing d path = .ok picture) : picture = fit d.width d.rows := by
  rw [ofDrawing] at h
  split_ifs at h
  exact (Except.ok.inj h).symm

/-- The rows of a rasterised canvas have the width of the drawing. -/
theorem Canvas.size_of_mem_rows {c : Canvas} {name : String} {unit : Nat} {background : Colour}
    {drawing : Drawing} (h : c.rasterise name unit background = .ok drawing) {row : Array Colour}
    (hrow : row ∈ drawing.rows) : row.size = drawing.width := by
  obtain ⟨width, height, -, -, hheight, -, rfl⟩ := rasterise_eq_ok_iff.mp h
  rw [(size_paint c name _ width (one_le_of_pixelLength? hheight) background).1]
  exact (of_mem_paint hrow).1

/-- The picture of a rasterised canvas has the pixels of the drawing. -/
theorem Canvas.pixelRows_of_rasterise {c : Canvas} {name : String} {unit : Nat}
    {background : Colour} {drawing : Drawing} (h : c.rasterise name unit background = .ok drawing)
    {path : String} {picture : Picture} (hpicture : Picture.ofDrawing drawing path = .ok picture) :
    picture.pixelRows = drawing.rows := by
  obtain rfl := Picture.eq_fit_of_ofDrawing hpicture
  exact Picture.pixelRows_fit fun row => size_of_mem_rows h

namespace FileTree

/-- The place of the entry that a path leads to. -/
def place? (t : FileTree) (p : Path) : Option Place :=
  match t.find? p with
  | .ok (place, _) => some place
  | .error _ => none

/-- The pixels of the image file that a path leads to, row by row. -/
def pixels? (t : FileTree) (p : Path) : Option (Array (Array Colour)) :=
  match t.find? p with
  | .ok (_, .file (.picture picture)) => some picture.pixelRows
  | _ => none

variable {t u : FileTree} {sort : Entry → Prop} {p : Path} {q : Place}

theorem place?_eq_some : t.place? p = some q ↔ ∃ entry, t.find? p = .ok (q, entry) := by
  rw [place?]
  cases t.find? p with
  | error refusal => simp
  | ok found => obtain ⟨place, entry⟩ := found; simp

theorem Grows.place? (h : Grows sort t u) (ht : t.place? p = some q) : u.place? p = some q := by
  obtain ⟨entry, hfind⟩ := place?_eq_some.mp ht
  obtain ⟨hlookup, hentry⟩ := find?_eq_ok hfind
  have hlookup' := h.lookup_found hlookup
  obtain ⟨entry', hentry'⟩ := h.exists_entry hentry
  exact place?_eq_some.mpr ⟨entry', find?_of_lookup hlookup' hentry'⟩

end FileTree

namespace BuildPlan

/-- The drawing of a script with the given source. -/
def draw (plan : BuildPlan) (script : Path) (source : List Char) : Except Fault Drawing :=
  (Script.canvas source).rasterise (pictureName script) plan.unit plan.background

end BuildPlan

/-! ## Names of pictures -/

theorem FileName.splitExtension_subset (name : FileName) : name.splitExtension.1 ⊆ name := by
  rw [splitExtension]
  split_ifs
  · exact List.Subset.refl name
  · simp only
    split
    · exact List.Subset.refl name
    · next c before hdrop =>
      split_ifs
      · exact List.Subset.refl name
      · -- the stem is what stands before the last dot
        intro x hx
        have hmem : x ∈ name.reverse.drop (name.reverse.takeWhile (· != '.')).length := by
          rw [hdrop]
          exact List.mem_cons_of_mem c (List.mem_reverse.mp hx)
        exact List.mem_reverse.mp (List.mem_of_mem_drop hmem)

/-- What stands in front of the extension of a name is not empty. -/
theorem FileName.splitExtension_ne_nil {name : FileName} (hname : name ≠ []) :
    name.splitExtension.1 ≠ [] := by
  rw [splitExtension]
  split_ifs
  · exact hname
  · simp only
    split
    · exact hname
    · next before hdrop =>
      split_ifs with hnone
      · exact hname
      · simpa using hnone

/-- What is put behind a name with a dot is its extension. -/
theorem FileName.splitExtension_append {stem extension : FileName} (hstem : stem ≠ [])
    (hsome : extension ≠ []) (hdot : '.' ∉ extension) :
    FileName.splitExtension (stem ++ '.' :: extension) = (stem, some extension) := by
  have hlong : stem ++ '.' :: extension ≠ dotDot := by
    intro heq
    have hlength := congrArg List.length heq
    have hstemLength := List.length_pos_iff.mpr hstem
    have hextensionLength := List.length_pos_iff.mpr hsome
    simp [dotDot] at hlength
    omega
  -- from the end, the characters up to the first dot are the extension
  have hreverse : (stem ++ '.' :: extension).reverse = extension.reverse ++ '.' :: stem.reverse := by
    simp
  have hafter : (extension.reverse ++ '.' :: stem.reverse).takeWhile (· != '.') =
      extension.reverse := by
    rw [List.takeWhile_append_of_pos]
    · simp
    · intro c hc
      simp only [bne_iff_ne]
      rintro rfl
      exact hdot (List.mem_reverse.mp hc)
  rw [splitExtension, if_neg hlong]
  simp only [hreverse, hafter, List.drop_left]
  simp [hstem]

theorem Path.mem_pieces_of_fileName? {p : Path} {name : FileName} (h : p.fileName? = some name) :
    name ∈ p.pieces ∧ isIdle name = false := by
  have hmem : Component.named name ∈ p.components := by
    rw [fileName?] at h
    split at h
    · next last hlast =>
      obtain rfl := Option.some.inj h
      exact List.mem_of_getLast? hlast
    · cases h
  -- a component with a name is a piece of the path
  rw [components, List.mem_append, List.mem_map] at hmem
  rcases hmem with hlead | ⟨piece, hpiece, hcomponent⟩
  · split_ifs at hlead <;> simp at hlead
  · rw [pieceComponent] at hcomponent
    split_ifs at hcomponent
    obtain rfl := Component.named.inj hcomponent
    simpa using List.mem_filter.mp hpiece

theorem Path.not_slash_of_fileName? {p : Path} {name : FileName} (h : p.fileName? = some name) :
    '/' ∉ name :=
  not_mem_of_mem_splitOn (mem_pieces_of_fileName? h).1

theorem Path.fileName?_join {name : FileName} (hslash : '/' ∉ name) (hname : name.IsOrdinary)
    (p : Path) : (p.join ⟨name⟩).fileName? = some name := by
  obtain ⟨front, hpieces⟩ := exists_pieces_join hslash p
  have hlast : isIdle name = false := by simp [isIdle, hname.ne_nil, hname.ne_dot]
  rw [fileName?, components, hpieces]
  simp [hlast, pieceComponent, hname.ne_dotDot]

namespace BuildPlan

/-- The name of a picture file. -/
def pictureFileName (script : Path) : FileName := (pictureName script ++ ".png").toList

theorem pictureFileName_eq (script : Path) :
    pictureFileName script = (pictureName script).toList ++ ['.', 'p', 'n', 'g'] :=
  String.toList_append ..

theorem not_slash_pictureFileName (script : Path) : '/' ∉ pictureFileName script := by
  have hstem : '/' ∉ (pictureName script).toList := by
    rw [pictureName, Path.stem?]
    cases hname : script.fileName? with
    | none => decide
    | some name =>
      simp only [Option.map_some, String.toList_ofList]
      intro hslash
      exact Path.not_slash_of_fileName? hname (name.splitExtension_subset hslash)
  rw [pictureFileName_eq, List.mem_append]
  rintro (hslash | hslash)
  · exact hstem hslash
  · revert hslash
    decide

theorem isOrdinary_pictureFileName (script : Path) : (pictureFileName script).IsOrdinary := by
  have hne : ∀ short : FileName, short.length < 4 → pictureFileName script ≠ short := by
    intro short hshort heq
    have hlong : (pictureFileName script).length = (pictureName script).toList.length + 4 := by
      rw [pictureFileName_eq, List.length_append]
      rfl
    rw [heq] at hlong
    omega
  exact ⟨hne [] (by decide), hne FileName.dot (by decide), hne FileName.dotDot (by decide)⟩

theorem toList_pictureName_ne_nil (script : Path) : (pictureName script).toList ≠ [] := by
  rw [pictureName, Path.stem?]
  cases hname : script.fileName? with
  | none => decide
  | some name =>
    simp only [Option.map_some, String.toList_ofList]
    have hidle := (Path.mem_pieces_of_fileName? hname).2
    refine name.splitExtension_ne_nil ?_
    rintro rfl
    cases hidle

/-- A picture is always written under a name that tells what it is. -/
theorem isPictureFile_picturePath (plan : BuildPlan) (script : Path) :
    Session.isPictureFile (plan.picturePath script) = true := by
  have hname : (plan.picturePath script).fileName? = some (pictureFileName script) :=
    Path.fileName?_join (not_slash_pictureFileName script) (isOrdinary_pictureFileName script)
      plan.output
  have hextension : (plan.picturePath script).extension? = some "png".toList := by
    rw [Path.extension?, hname, Option.bind_some, pictureFileName_eq]
    exact congrArg Prod.snd
      (FileName.splitExtension_append (toList_pictureName_ne_nil script) (by decide) (by decide))
  rw [Session.isPictureFile, hextension]
  decide

/-- Pictures at one place have one name, unless their paths end at links. -/
theorem pictureName_eq {t : FileTree} {plan : BuildPlan} {a b : Path} {q : Place}
    (ha : t.place? (plan.picturePath a) = some q) (hb : t.place? (plan.picturePath b) = some q) :
    pictureName a = pictureName b ∨
      t.IsLink (plan.picturePath a) ∨ t.IsLink (plan.picturePath b) := by
  have hlast : ∀ script, t.place? (plan.picturePath script) = some q →
      ¬ t.IsLink (plan.picturePath script) → q.getLast? = some (pictureFileName script) := by
    intro script hplace hlink
    obtain ⟨entry, hfind⟩ := FileTree.place?_eq_some.mp hplace
    obtain ⟨front, hpieces⟩ := Path.exists_pieces_join (not_slash_pictureFileName script) plan.output
    exact FileTree.getLast?_of_lookup hpieces (isOrdinary_pictureFileName script)
      (FileTree.find?_eq_ok hfind).1 hlink
  by_cases hlinkA : t.IsLink (plan.picturePath a)
  · exact Or.inr (Or.inl hlinkA)
  by_cases hlinkB : t.IsLink (plan.picturePath b)
  · exact Or.inr (Or.inr hlinkB)
  have hfiles : pictureFileName a = pictureFileName b := by
    have hboth := (hlast a ha hlinkA).symm.trans (hlast b hb hlinkB)
    exact Option.some.inj hboth
  rw [pictureFileName_eq, pictureFileName_eq] at hfiles
  exact Or.inl (String.toList_inj.mp (List.append_cancel_right hfiles))

end BuildPlan

/-! ## What a build changes -/

/-- Whether a build makes entries of this kind. -/
def Entry.IsOutput : Entry → Prop
  | .directory => True
  | .file (.picture _) => True
  | _ => False

namespace Session

variable {s s' t : Session} {plan : BuildPlan} {script p : Path}

/-- The other session has more directories and pictures, and the same standard input. -/
structure Extends (s t : Session) : Prop where
  files : FileTree.Grows Entry.IsOutput s.files t.files
  input : t.input = s.input

namespace Extends

theorem refl (s : Session) : Extends s s := ⟨.refl _ _, rfl⟩

theorem trans {u : Session} (h : Extends s t) (h' : Extends t u) : Extends s u :=
  ⟨h.files.trans h'.files, h'.input.trans h.input⟩

/-- Notices change nothing that a build reads. -/
theorem tellAll (h : Extends s t) (ns : List Notice) : Extends s (t.tellAll ns) :=
  h.trans ⟨.refl _ _, rfl⟩

/-- A script that can be read later could be read before, and was the same. -/
theorem readScript (h : Extends s t) {source : List Char}
    (hfile : ¬ s.files.Refuses p → s.files.isFile p = true) (ht : t.readScript p = .ok source) :
    s.readScript p = .ok source := by
  rw [Session.readScript] at ht ⊢
  rw [h.input] at ht
  split_ifs at ht ⊢ with hinput
  · exact ht
  · split at ht
    · next text htext =>
      -- the path leads where it led before, and only pictures are new
      have hnew : ∀ bytes, ¬ Entry.IsOutput (.file (.bytes bytes)) := fun bytes hout => hout
      rw [h.files.readText hnew (FileTree.isSettled_of_isFile hfile) htext]
      exact ht
    · cases ht

end Extends

/-- A script that is built is read and drawn, and its drawing is written as a picture. -/
theorem buildScript_eq_ok {built : BuiltScript} (h : s.buildScript plan script = (s', .ok built)) :
    ∃ source drawing, s.readScript script = .ok source ∧ plan.draw script source = .ok drawing ∧
      ∃ picture, Picture.ofDrawing drawing (plan.picturePath script).text = .ok picture ∧
        s.files.write (plan.picturePath script) (.picture picture) = .ok s'.files ∧
        s'.input = s.input ∧
        built = ⟨plan.picturePath script, drawing.width, drawing.height,
          (Script.canvas source).blockCount, (Script.canvas source).errors.toList⟩ := by
  rw [buildScript] at h
  split at h
  · cases h
  · next source hread =>
    simp only at h
    split at h
    · cases h
    · next drawing hdraw =>
      split at h
      · cases h
      · next t _ hsave =>
        obtain ⟨rfl, hbuilt⟩ := Prod.mk.inj h
        obtain ⟨picture, hpicture, hfiles, hinput⟩ := savePicture_eq_ok hsave
        exact ⟨source, drawing, hread, hdraw, picture, hpicture, hfiles, hinput,
          (Except.ok.inj hbuilt).symm⟩

theorem buildScript_extends {built : BuiltScript}
    (h : s.buildScript plan script = (s', .ok built)) : Extends s s' := by
  obtain ⟨source, drawing, -, -, picture, -, hwrite, hinput, -⟩ := buildScript_eq_ok h
  exact ⟨.write hwrite trivial, hinput⟩

/-- Building scripts builds the first and then the rest. -/
theorem buildScripts_cons_eq_ok {scripts : List Path} {warnings : Nat}
    (h : s.buildScripts plan (script :: scripts) = (s', .ok warnings)) :
    ∃ t built more, s.buildScript plan script = (t, .ok built) ∧
      (t.tellAll (built.notices script)).buildScripts plan scripts = (s', .ok more) ∧
      warnings = built.errors.length + more := by
  rw [buildScripts] at h
  split at h
  · cases h
  · next t built hscript =>
    split at h
    · cases h
    · next u more hrest =>
      obtain ⟨rfl, hwarnings⟩ := Prod.mk.inj h
      exact ⟨t, built, more, hscript, hrest, (Except.ok.inj hwarnings).symm⟩

theorem buildScripts_extends {scripts : List Path} {warnings : Nat}
    (h : s.buildScripts plan scripts = (s', .ok warnings)) : Extends s s' := by
  induction scripts generalizing s warnings with
  | nil =>
    obtain ⟨rfl, -⟩ := Prod.mk.inj h
    exact .refl s
  | cons script scripts ih =>
    obtain ⟨t, built, more, hscript, hrest, -⟩ := buildScripts_cons_eq_ok h
    have hfirst := (buildScript_extends hscript).tellAll (built.notices script)
    exact hfirst.trans (ih hrest)

/-- Every place is as it was, or a picture was written to it. -/
theorem buildScripts_entry? {scripts : List Path} {warnings : Nat}
    (h : s.buildScripts plan scripts = (s', .ok warnings)) (q : Place) :
    s'.files.entry? q = s.files.entry? q ∨
      ∃ script ∈ scripts, s'.files.place? (plan.picturePath script) = some q := by
  induction scripts generalizing s warnings with
  | nil =>
    obtain ⟨rfl, -⟩ := Prod.mk.inj h
    exact Or.inl rfl
  | cons script scripts ih =>
    obtain ⟨t, built, more, hscript, hrest, -⟩ := buildScripts_cons_eq_ok h
    rcases ih hrest with hsame | ⟨later, hlater, hplace⟩
    · obtain ⟨source, drawing, -, -, picture, -, hwrite, -⟩ := buildScript_eq_ok hscript
      obtain ⟨place, hsome, hputs, -, hfind⟩ := FileTree.write_eq_ok hwrite
      by_cases hq : q = place
      · -- later scripts leave the path of the picture where it leads
        have hhere : t.files.place? (plan.picturePath script) = some q :=
          FileTree.place?_eq_some.mpr ⟨_, hq ▸ hfind⟩
        exact Or.inr ⟨script, List.mem_cons_self, (buildScripts_extends hrest).files.place? hhere⟩
      · have hother : t.files.entry? q = s.files.entry? q := by
          rw [hputs.entry? hsome, if_neg hq]
        exact Or.inl (hsame.trans hother)
    · exact Or.inr ⟨later, List.mem_cons_of_mem _ hlater, hplace⟩

/-- A written picture stays, unless that of a later script is written to the same file. -/
theorem buildScripts_pixels? {scripts before after : List Path} {warnings : Nat}
    (h : s.buildScripts plan scripts = (s', .ok warnings))
    (hscripts : scripts = before ++ script :: after) :
    ∃ t source drawing, Extends s t ∧ t.readScript script = .ok source ∧
      plan.draw script source = .ok drawing ∧
      (∃ place, s'.files.place? (plan.picturePath script) = some place) ∧
      ((∀ later ∈ after, s'.files.place? (plan.picturePath later) ≠
          s'.files.place? (plan.picturePath script)) →
        s'.files.pixels? (plan.picturePath script) = some drawing.rows) := by
  -- the scripts in front are built first, and whatever they write is there at the script's turn
  induction before generalizing s scripts warnings with
  | cons first before ih =>
    subst hscripts
    obtain ⟨t, built, more, hfirst, hrest, -⟩ := buildScripts_cons_eq_ok h
    obtain ⟨u, source, drawing, hu, hread, hdraw, hplace, hpixels⟩ := ih hrest rfl
    have hextends := (buildScript_extends hfirst).tellAll (built.notices first)
    exact ⟨u, source, drawing, hextends.trans hu, hread, hdraw, hplace, hpixels⟩
  | nil =>
    subst hscripts
    obtain ⟨t, built, more, hscript, hrest, -⟩ := buildScripts_cons_eq_ok h
    obtain ⟨source, drawing, hread, hdraw, picture, hpicture, hwrite, -⟩ :=
      buildScript_eq_ok hscript
    obtain ⟨place, -, -, -, hfind⟩ := FileTree.write_eq_ok hwrite
    have hlast := (buildScripts_extends hrest).files
    have hplace : s'.files.place? (plan.picturePath script) = some place :=
      hlast.place? (FileTree.place?_eq_some.mpr ⟨_, hfind⟩)
    refine ⟨s, source, drawing, .refl s, hread, hdraw, ⟨place, hplace⟩, fun hlater => ?_⟩
    -- the path leads where it did, and no later script writes there: the picture is still there
    obtain ⟨hlookup, hentry⟩ := FileTree.find?_eq_ok hfind
    have hkept : s'.files.entry? place = some (.file (.picture picture)) := by
      rcases buildScripts_entry? hrest place with hsame | ⟨later, hmem, hother⟩
      · rw [hsame]
        exact hentry
      · rw [hplace] at hlater
        exact absurd hother (hlater later hmem)
    have hfind' : s'.files.find? (plan.picturePath script) = .ok (place, .file (.picture picture)) :=
      FileTree.find?_of_lookup (hlast.lookup_found hlookup) hkept
    rw [FileTree.pixels?, hfind']
    exact congrArg some (Canvas.pixelRows_of_rasterise hdraw hpicture)

/-- The output directory is there, or it is made, or something keeps it from being made. -/
theorem makeOutput_cases (s : Session) (output : Path) :
    (s.files.exists? output = true ∧ s.makeOutput output = (s, .ok ())) ∨
    s.files.exists? output = false ∧
      ((s.files.makeAll output).2 = none ∧
          s.makeOutput output = ({ s with files := (s.files.makeAll output).1 }, .ok ()) ∨
        ∃ refusal, (s.files.makeAll output).2 = some refusal ∧
          s.makeOutput output = ({ s with files := (s.files.makeAll output).1 },
            .error (.file output.text (.createOutput refusal)))) := by
  rw [makeOutput]
  split_ifs with hexists
  · exact Or.inl ⟨hexists, rfl⟩
  · refine Or.inr ⟨by simpa using hexists, ?_⟩
    rcases s.files.makeAll output with ⟨files, _ | refusal⟩
    · exact Or.inl ⟨rfl, rfl⟩
    · exact Or.inr ⟨refusal, rfl, rfl⟩

theorem makeOutput_extends {output : Path} {u : Except Fault Unit}
    (h : s.makeOutput output = (s', u)) : Extends s s' := by
  have hgrows : FileTree.Grows Entry.IsOutput s.files (s.files.makeAll output).1 := by
    refine (s.files.makeAll_new output).grows.mono ?_
    rintro _ rfl
    trivial
  rcases s.makeOutput_cases output with ⟨-, hmake⟩ | ⟨-, ⟨-, hmake⟩ | ⟨refusal, -, hmake⟩⟩
  · rw [hmake] at h
    obtain ⟨rfl, -⟩ := Prod.mk.inj h
    exact .refl s
  · rw [hmake] at h
    obtain ⟨rfl, -⟩ := Prod.mk.inj h
    exact ⟨hgrows, rfl⟩
  · rw [hmake] at h
    obtain ⟨rfl, -⟩ := Prod.mk.inj h
    exact ⟨hgrows, rfl⟩

/-- A build that succeeds builds the scripts it finds, when the output directory is there. -/
theorem build_eq_ok {m : Manifest} {paths : List Path} {output : Option Path} {unit : Option Nat}
    (h : s.build m paths output unit = (s', .ok ())) :
    ∃ plan t u warnings, BuildPlan.make m output unit = .ok plan ∧ Extends s t ∧
      t.buildScripts plan (s.findScripts m paths) = (u, .ok warnings) ∧ s'.files = u.files := by
  rw [build] at h
  split at h
  · cases h
  · next plan hplan =>
    simp only at h
    split_ifs at h with hnone
    · cases h
    split at h
    · cases h
    · next t _ hmake =>
      split at h
      · cases h
      · next u warnings hscripts =>
        obtain ⟨rfl, -⟩ := Prod.mk.inj h
        have hnote : Extends s (s.note [.scriptsFound (s.findScripts m paths).length]) :=
          ⟨.refl _ _, rfl⟩
        exact ⟨plan, t, u, warnings, hplan, hnote.trans (makeOutput_extends hmake), hscripts, rfl⟩

/-- When a build succeeds, each script that is found can be read and drawn. After the build the
picture of a script shows its drawing, unless the picture of a later script went to the same file.
Only pictures with one name go to the same file, and those whose paths end at links. -/
theorem pictures_of_build {m : Manifest} {paths : List Path} {output : Option Path}
    {unit : Option Nat} (hfiles : s.files.WellFormed)
    (h : s.build m paths output unit = (s', .ok ())) :
    ∃ plan, BuildPlan.make m output unit = .ok plan ∧
      ∀ before script after, s.findScripts m paths = before ++ script :: after →
        ∃ source drawing, s.readScript script = .ok source ∧
          plan.draw script source = .ok drawing ∧
          ((∀ later ∈ after, s'.files.place? (plan.picturePath later) ≠
              s'.files.place? (plan.picturePath script)) →
            s'.files.pixels? (plan.picturePath script) = some drawing.rows) ∧
          ∀ later ∈ after, s'.files.place? (plan.picturePath later) =
              s'.files.place? (plan.picturePath script) →
            BuildPlan.pictureName later = BuildPlan.pictureName script ∨
              s'.files.IsLink (plan.picturePath later) ∨
              s'.files.IsLink (plan.picturePath script) := by
  obtain ⟨plan, t, u, warnings, hplan, ht, hbuild, hlast⟩ := build_eq_ok h
  refine ⟨plan, hplan, fun before script after hscripts => ?_⟩
  -- the script is read when it is its turn, and reads as it did at the start
  obtain ⟨v, source, drawing, hv, hread, hdraw, ⟨place, hplace⟩, hpixels⟩ :=
    buildScripts_pixels? hbuild hscripts
  have hmem : script ∈ s.findScripts m paths := by
    rw [hscripts]
    exact List.mem_append_right before List.mem_cons_self
  have hstart := (ht.trans hv).readScript (hfiles.isFile_of_mem_findScripts hmem) hread
  rw [hlast]
  refine ⟨source, drawing, hstart, hdraw, hpixels, fun later _ hsame => ?_⟩
  exact BuildPlan.pictureName_eq (hsame.trans hplace) hplace

/-- Two scripts with one stem in two directories, and a third with another stem. -/
def twins : Session where
  files.entries := [
    (["a".toList], .directory),
    (["a".toList, "x.blocks".toList], .file (.ofText "block.color-red")),
    (["b".toList], .directory),
    (["b".toList, "x.blocks".toList], .file (.ofText "block.color-blue")),
    (["b".toList, "y.blocks".toList], .file (.ofText "block.color-green"))]

def firstTwin : Path := Path.ofString "a/x.blocks"

def secondTwin : Path := Path.ofString "b/x.blocks"

def sister : Path := Path.ofString "b/y.blocks"

def twinPlan : BuildPlan := ⟨Path.ofString "dist", 1, .white⟩

theorem findScripts_twins :
    twins.findScripts {} [firstTwin, secondTwin, sister] = [firstTwin, secondTwin, sister] := by
  have hroots : [firstTwin, secondTwin, sister].flatMap (twins.files.scriptsAt {}) =
      [firstTwin, secondTwin, sister] := by decide +kernel
  have hsorted : [firstTwin, secondTwin, sister].mergeSort Path.le =
      [firstTwin, secondTwin, sister] := List.mergeSort_of_pairwise (by decide)
  show twins.files.findScripts {} [firstTwin, secondTwin, sister] = _
  rw [FileTree.findScripts, hroots, hsorted]
  decide

theorem build_twins :
    ∃ s', twins.build {} [firstTwin, secondTwin, sister] none (some 1) = (s', .ok ()) ∧
      s'.files.place? (twinPlan.picturePath sister) ≠
        s'.files.place? (twinPlan.picturePath secondTwin) ∧
      s'.files.pixels? (twinPlan.picturePath firstTwin) = some #[#[⟨0, 0, 255, 255⟩]] := by
  have hplan : BuildPlan.make {} none (some 1) = .ok twinPlan := by decide +kernel
  have hbuild : ∀ result, twins.build {} [firstTwin, secondTwin, sister] none (some 1) = result →
      result.2 = .ok () ∧
      result.1.files.place? (twinPlan.picturePath sister) ≠
        result.1.files.place? (twinPlan.picturePath secondTwin) ∧
      result.1.files.pixels? (twinPlan.picturePath firstTwin) =
        some #[#[⟨0, 0, 255, 255⟩]] := by
    rintro result rfl
    rw [build, hplan]
    simp only [findScripts_twins]
    decide +kernel
  obtain ⟨hok, hplace, hpixels⟩ := hbuild _ rfl
  exact ⟨_, Prod.ext rfl hok, hplace, hpixels⟩

/-- The second script has its picture, since the third is drawn to another file. -/
theorem picture_of_second_twin :
    ∃ s' source drawing, twins.files.WellFormed ∧
      twins.build {} [firstTwin, secondTwin, sister] none (some 1) = (s', .ok ()) ∧
      twins.readScript secondTwin = .ok source ∧ twinPlan.draw secondTwin source = .ok drawing ∧
      s'.files.pixels? (twinPlan.picturePath secondTwin) = some drawing.rows := by
  have hfiles : twins.files.WellFormed := by decide +kernel
  obtain ⟨s', hbuild, hplace, -⟩ := build_twins
  obtain ⟨plan, hplan, hscripts⟩ := pictures_of_build hfiles hbuild
  obtain rfl : twinPlan = plan := by
    have hmake : BuildPlan.make {} none (some 1) = .ok twinPlan := by decide +kernel
    exact Except.ok.inj (hmake.symm.trans hplan)
  obtain ⟨source, drawing, hread, hdraw, hpixels, -⟩ :=
    hscripts [firstTwin] secondTwin [sister] findScripts_twins
  refine ⟨s', source, drawing, hfiles, hbuild, hread, hdraw, hpixels fun later hlater => ?_⟩
  rw [List.mem_singleton.mp hlater]
  exact hplace

/-- The first script has no picture: that of the second went to the same file. -/
theorem first_twin_has_no_picture :
    ∃ s' source drawing, twins.files.WellFormed ∧
      twins.build {} [firstTwin, secondTwin, sister] none (some 1) = (s', .ok ()) ∧
      BuildPlan.make {} none (some 1) = .ok twinPlan ∧
      firstTwin ∈ twins.findScripts {} [firstTwin, secondTwin, sister] ∧
      twins.readScript firstTwin = .ok source ∧ twinPlan.draw firstTwin source = .ok drawing ∧
      s'.files.pixels? (twinPlan.picturePath firstTwin) ≠ some drawing.rows := by
  obtain ⟨s', hbuild, -, hpixels⟩ := build_twins
  refine ⟨s', "block.color-red".toList, ⟨"x", #[#[⟨255, 0, 0, 255⟩]]⟩, by decide +kernel, hbuild,
    by decide +kernel, ?_, by decide +kernel, by decide +kernel, ?_⟩
  · rw [findScripts_twins]
    exact List.mem_cons_self
  · rw [hpixels]
    decide

end Session

end BlockScript
