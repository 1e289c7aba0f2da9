import BlockScript.Proofs.Drawing.BlockCount
import BlockScript.Proofs.Drawing.DrawnSizes
import BlockScript.Proofs.Program.Pictures

namespace BlockScript

/-! # Building one script

What building a script reports is what the script draws: the picture in the file shows the canvas of
the source, the sides are those of this picture, and the messages are those of its error events. The
number of blocks is taken from a canvas that only counts cells and errors. It is right since a canvas
that dropped an item is never drawn (`Canvas.blockCount_of_not_overflowed`). A script that cannot be
read or drawn leaves every file as it was (`Session.buildScript_reports`).
-/

/-! ## Blocks of a script -/

/-- How many blocks a token asks for. -/
def Token.repeats (token : List Char) : Nat :=
  match parse token with
  | some (.block spec) => spec.repetitions
  | _ => 0

theorem Token.countP_isBlock_events (token : List Char) :
    (events token).countP Event.isBlock = repeats token := by
  rw [events, repeats]
  cases parse token with
  | none => rfl
  | some command =>
    cases command with
    | block spec => simp [Command.events, List.countP_replicate, Event.isBlock]
    | space size => rfl
    | newline => rfl
    | mistake message => rfl

/-- A script draws as many blocks as its tokens ask for. -/
theorem Script.countP_isBlock_events (source : List Char) :
    (events source).toList.countP Event.isBlock =
      ((tokens source).map fun o => Token.repeats o.text).sum := by
  rw [toList_events_eq_flatMap_tokens, List.countP_flatMap]
  congr 1
  exact List.map_congr_left fun o _ => Token.countP_isBlock_events o.text

namespace Canvas

/-- A canvas that dropped nothing counts every block. -/
theorem blockCount_of_not_overflowed {events : List Event}
    (h : (Event.deliverAll renderer events {}).isOverflowed = false) :
    (Event.deliverAll renderer events {}).blockCount = events.countP Event.isBlock := by
  have hfits : (Event.items events).length ≤ maxItems := by
    have hoverflow := (CutOff.empty.deliverAll events).isOverflowed_iff
    rw [h, length_cells_unlimited, ← Event.length_items] at hoverflow
    exact Nat.not_lt.mp fun hlt => Bool.false_ne_true (hoverflow.mpr hlt)
  -- all items are recorded, so no error is late
  have hrecorded : Event.recordedBlocks events = (Event.items events).countP Event.isBlock := by
    rw [Event.recordedBlocks, List.take_of_length_le hfits]
  have hlate : Event.lateErrors events = 0 := by
    rw [Event.lateErrors, List.drop_of_length_le hfits, List.countP_nil]
  rw [blockCount_eq_sub, hlate, Nat.sub_zero, hrecorded, Event.items, List.countP_filter]
  refine List.countP_congr fun e _ => ?_
  cases e <;> simp [Event.isBlock, Event.isItem, Event.item?]

theorem blockCount_of_rasterise {source : List Char} {name : String} {unit : Nat}
    {background : Colour} {drawing : Drawing}
    (h : (Script.canvas source).rasterise name unit background = .ok drawing) :
    (Script.canvas source).blockCount = (Script.events source).toList.countP Event.isBlock := by
  obtain ⟨width, height, hfree, -⟩ := rasterise_eq_ok_iff.mp h
  rw [Script.canvas_eq_deliverAll] at hfree ⊢
  exact blockCount_of_not_overflowed hfree

end Canvas

/-! ## Building -/

namespace Session

variable {s s' : Session} {plan : BuildPlan} {script : Path}

/-- The picture of a script that is built shows its drawing. -/
theorem pixels?_of_buildScript {built : BuiltScript}
    (h : s.buildScript plan script = (s', .ok built)) {source : List Char} {drawing : Drawing}
    (hread : s.readScript script = .ok source) (hdraw : plan.draw script source = .ok drawing) :
    s'.files.pixels? (plan.picturePath script) = some drawing.rows := by
  obtain ⟨source', drawing', hread', hdraw', picture, hpicture, hwrite, -⟩ := buildScript_eq_ok h
  obtain rfl := Except.ok.inj (hread.symm.trans hread')
  obtain rfl := Except.ok.inj (hdraw.symm.trans hdraw')
  obtain ⟨place, -, -, -, hfind⟩ := FileTree.write_eq_ok hwrite
  rw [FileTree.pixels?, hfind]
  exact congrArg some (Canvas.pixelRows_of_rasterise hdraw hpicture)

theorem buildScript_of_unreadable {fault : Fault} (h : s.readScript script = .error fault) :
    s.buildScript plan script = (s, .error fault) := by
  rw [buildScript, h]

/-- A script that cannot be drawn only leaves notes in the log. -/
theorem buildScript_of_undrawable {source : List Char} {fault : Fault}
    (hread : s.readScript script = .ok source) (hdraw : plan.draw script source = .error fault) :
    s.buildScript plan script =
      (s.note (Script.runLog source ++ (Script.canvas source).notes.toList), .error fault) := by
  rw [BuildPlan.draw] at hdraw
  rw [buildScript, hread]
  simp only [hdraw]

/-- A script that is built reports what it draws. The picture is named after the stem of the script
and shows the canvas of its source, pixel for pixel, at the width and the height that are told; the
blocks are the block events, as many as the tokens ask for; and the errors are the messages in their
order. A script that cannot be read or drawn leaves the files as they were. -/
theorem buildScript_reports (s : Session) (plan : BuildPlan) (script : Path) :
    (∀ s' built, s.buildScript plan script = (s', .ok built) →
      ∃ source drawing, s.readScript script = .ok source ∧
        plan.draw script source = .ok drawing ∧
        (∀ stem, script.stem? = some stem →
          built.picture = plan.output.join (Path.ofString (String.ofList stem ++ ".png"))) ∧
        s'.files.pixels? built.picture = some drawing.rows ∧
        built.width = drawing.width ∧ built.height = drawing.height ∧
        drawing.rows.size = built.height ∧ (∀ row ∈ drawing.rows, row.size = built.width) ∧
        built.blocks = (Script.events source).toList.countP Event.isBlock ∧
        built.blocks = ((Script.tokens source).map fun o => Token.repeats o.text).sum ∧
        built.errors = Script.messages source) ∧
    (∀ fault, s.readScript script = .error fault →
      s.buildScript plan script = (s, .error fault)) ∧
    ∀ source fault, s.readScript script = .ok source → plan.draw script source = .error fault →
      ∃ s', s.buildScript plan script = (s', .error fault) ∧ s'.files = s.files := by
  refine ⟨?_, fun _ => buildScript_of_unreadable, ?_⟩
  · intro s' built h
    obtain ⟨source, drawing, hread, hdraw, -, -, -, -, hbuilt⟩ := buildScript_eq_ok h
    have hblocks := Canvas.blockCount_of_rasterise hdraw
    have hpixels := pixels?_of_buildScript h hread hdraw
    subst hbuilt
    refine ⟨source, drawing, hread, hdraw, ?_, hpixels, rfl, rfl, rfl,
      fun _ => Canvas.size_of_mem_rows hdraw, hblocks, ?_, toList_errors_canvas source⟩
    · intro stem hstem
      rw [BuildPlan.picturePath, BuildPlan.pictureName, hstem]
    · rw [hblocks, Script.countP_isBlock_events]
  · intro source fault hread hdraw
    exact ⟨_, buildScript_of_undrawable hread hdraw, rfl⟩

/-- A script with a mistake, and one that is too large to be drawn. -/
def sketches : Session where
  files.entries := [
    (["dist".toList], .directory),
    (["row.blocks".toList], .file (.ofText "block.color-red.repeat-2 oops")),
    (["wide.blocks".toList], .file (.ofText "block.size-99999"))]

def sketchPlan : BuildPlan := ⟨Path.ofString "dist", 1, .white⟩

/-- Two red blocks and the magenta square of the mistake; the other script leaves no file. -/
theorem buildScript_reports_sketches :
    (∃ s' built, sketches.buildScript sketchPlan (Path.ofString "row.blocks") = (s', .ok built) ∧
      s'.files.pixels? built.picture =
        some #[#[⟨255, 0, 0, 255⟩, ⟨255, 0, 0, 255⟩, ⟨255, 0, 255, 255⟩]] ∧
      (Script.events "block.color-red.repeat-2 oops".toList).toList.countP Event.isBlock =
        built.blocks) ∧
    ∃ s' fault, sketches.buildScript sketchPlan (Path.ofString "wide.blocks") = (s', .error fault) ∧
      s'.files = sketches.files := by
  have hread : sketches.readScript (Path.ofString "row.blocks") =
      .ok "block.color-red.repeat-2 oops".toList := by decide +kernel
  have hdraw : sketchPlan.draw (Path.ofString "row.blocks")
      "block.color-red.repeat-2 oops".toList =
      .ok ⟨"row", #[#[⟨255, 0, 0, 255⟩, ⟨255, 0, 0, 255⟩, ⟨255, 0, 255, 255⟩]]⟩ := by
    decide +kernel
  have hresult : (sketches.buildScript sketchPlan (Path.ofString "row.blocks")).2 =
      .ok ⟨Path.ofString "dist/row.png", 3, 1, 2, ["unknown command: oops"]⟩ := by decide +kernel
  have hreadWide : sketches.readScript (Path.ofString "wide.blocks") =
      .ok "block.size-99999".toList := by decide +kernel
  have hdrawWide : sketchPlan.draw (Path.ofString "wide.blocks") "block.size-99999".toList =
      .error (.tooLarge "wide" (.side "99999" "99999" "1")) := by decide +kernel
  obtain ⟨s', hbuild⟩ : ∃ s', sketches.buildScript sketchPlan (Path.ofString "row.blocks") =
      (s', .ok ⟨Path.ofString "dist/row.png", 3, 1, 2, ["unknown command: oops"]⟩) :=
    ⟨(sketches.buildScript sketchPlan (Path.ofString "row.blocks")).1, by rw [← hresult]⟩
  obtain ⟨source, drawing, hsource, hdrawing, -, hpixels, -, -, -, -, hblocks, -⟩ :=
    (buildScript_reports sketches sketchPlan (Path.ofString "row.blocks")).1 _ _ hbuild
  obtain rfl := Except.ok.inj (hread.symm.trans hsource)
  obtain rfl := Except.ok.inj (hdraw.symm.trans hdrawing)
  obtain ⟨t, hwide, hfiles⟩ :=
    (buildScript_reports sketches sketchPlan (Path.ofString "wide.blocks")).2.2 _ _ hreadWide
      hdrawWide
  exact ⟨⟨s', _, hbuild, hpixels, hblocks.symm⟩, t, _, hwide, hfiles⟩

end Session

end BlockScript
