import BlockScript.Drawing.Raster
import BlockScript.Program.Session
import BlockScript.Text.Basic

namespace BlockScript

/-! # Building pictures

A build draws every script to a picture that is named after it. Mistakes in a script do not fail
the build: they are drawn, and told as warnings.
-/

/-- How pictures are drawn, and where they go. -/
structure BuildPlan where
  output : Path
  unit : Nat
  background : Colour
deriving DecidableEq

namespace BuildPlan

/-- The plan of a build. What the command line gives wins over the manifest. -/
def make (m : Manifest) (output : Option Path) (unit : Option Nat) : Except Fault BuildPlan :=
  if unit.getD m.unit = 0 then .error .zeroUnitFlag
  else
    match m.backgroundColour with
    | .error fault => .error fault
    | .ok background =>
      .ok ⟨output.getD (Path.ofString m.output), unit.getD m.unit, background⟩

/-- The name of a script's picture: the name of the script without its extension, and `script` for a
path that has no name at its end. The stem that is not UTF-8, which `script` stands for as well, is
left out: names are texts. -/
def pictureName (script : Path) : String :=
  match script.stem? with
  | some stem => String.ofList stem
  | none => "script"

/-- Where the picture of a script goes. -/
def picturePath (plan : BuildPlan) (script : Path) : Path :=
  plan.output.join (Path.ofString (pictureName script ++ ".png"))

end BuildPlan

/-- What building a script gave. -/
structure BuiltScript where
  picture : Path
  width : Nat
  height : Nat
  blocks : Nat
  errors : List String
deriving DecidableEq

namespace BuiltScript

/-- What the user is told about it. -/
def notices (b : BuiltScript) (script : Path) : List Notice :=
  .rendered script b.width b.height b.blocks b.picture :: b.errors.map (.warning script)

end BuiltScript

namespace Session

/-- Whether the name of a file says that it holds a picture. -/
def isPictureFile (p : Path) : Bool :=
  match p.extension? with
  | some extension => lowerAscii extension == "png".toList || lowerAscii extension == "apng".toList
  | none => false

/-- Writes a picture file. -/
def savePicture (s : Session) (p : Path) (d : Drawing) : Session × Except Fault Unit :=
  match Picture.ofDrawing d p.text with
  | .error fault => (s, .error fault)
  | .ok picture =>
    if isPictureFile p then
      match s.files.write p (.picture picture) with
      | .ok files => ({ s with files }, .ok ())
      | .error failure => ({ s with files := failure.files }, .error (.file p.text .writePicture))
    else (s, .error (.file p.text .writePicture))

/-- The session with a picture file, if all of it is written. -/
def writePicture (s : Session) (p : Path) (d : Drawing) : Except Fault Session :=
  match s.savePicture p d with
  | (s, .ok _) => .ok s
  | (_, .error fault) => .error fault

/-- Draws one script and writes its picture. -/
def buildScript (s : Session) (plan : BuildPlan) (script : Path) :
    Session × Except Fault BuiltScript :=
  match s.readScript script with
  | .error fault => (s, .error fault)
  | .ok source =>
    let canvas := Script.canvas source
    let s := s.note (Script.runLog source ++ canvas.notes.toList)
    match canvas.rasterise (BuildPlan.pictureName script) plan.unit plan.background with
    | .error fault => (s, .error fault)
    | .ok drawing =>
      match s.savePicture (plan.picturePath script) drawing with
      | (s, .error fault) => (s, .error fault)
      | (s, .ok _) =>
        (s, .ok {
          picture := plan.picturePath script
          width := drawing.width
          height := drawing.height
          blocks := canvas.blockCount
          errors := canvas.errors.toList })

/-- Builds scripts in order, and counts their mistakes. The first that fails ends it. -/
def buildScripts (s : Session) (plan : BuildPlan) : List Path → Session × Except Fault Nat
  | [] => (s, .ok 0)
  | script :: rest =>
    match s.buildScript plan script with
    | (s, .error fault) => (s, .error fault)
    | (s, .ok built) =>
      match buildScripts (s.tellAll (built.notices script)) plan rest with
      | (s, .error fault) => (s, .error fault)
      | (s, .ok warnings) => (s, .ok (built.errors.length + warnings))

/-- Makes the output directory unless something is there. -/
def makeOutput (s : Session) (output : Path) : Session × Except Fault Unit :=
  if s.files.exists? output then (s, .ok ())
  else
    match s.files.makeAll output with
    | (files, none) => ({ s with files }, .ok ())
    | (files, some refusal) =>
      ({ s with files }, .error (.file output.text (.createOutput refusal)))

/-- Builds the scripts that the paths lead to. -/
def build (s : Session) (m : Manifest) (paths : List Path) (output : Option Path)
    (unit : Option Nat) : Session × Except Fault Unit :=
  match BuildPlan.make m output unit with
  | .error fault => (s, .error fault)
  | .ok plan =>
    let scripts := s.findScripts m paths
    let s := s.note [.scriptsFound scripts.length]
    if scripts.isEmpty then (s, .error .noScripts)
    else
      match s.makeOutput plan.output with
      | (s, .error fault) => (s, .error fault)
      | (s, .ok _) =>
        match s.buildScripts plan scripts with
        | (s, .error fault) => (s, .error fault)
        | (s, .ok warnings) => (s.tell (.finished scripts.length plan.output warnings), .ok ())

end Session

end BlockScript
