import BlockScript.CommandLine.Grammar
import BlockScript.Program.Build
import BlockScript.Program.Check

namespace BlockScript

/-! # Requests

What each request does to a session: running, watching and listing colours here, builds and checks
in modules of their own.
-/

namespace Session

/-- Writes the events of a script to the standard output. -/
def run (s : Session) (file : Path) (format : DumpFormat) : Session × Except Fault Unit :=
  match s.readScript file with
  | .error fault => (s, .error fault)
  | .ok source =>
    let s := s.note (Script.runLog source)
    match writeEvents source format s.output with
    | (output, some failure) => ({ s with output }, .error (.stream failure))
    | (output, none) => ({ s with output }, .ok ())

/-- Lists the colours that scripts can name. -/
def listColours (s : Session) : Session × Except Fault Unit :=
  let s := s.tell (.defaultColour .default)
  ({ s with output := (s.output.write Colour.table).1 }, .ok ())

/-- The directory that changes of a file show in. -/
def watchedDirectory (file : Path) : Path :=
  match file.parent? with
  | some parent => if parent.chars.isEmpty then ⟨FileName.dot⟩ else parent
  | none => ⟨FileName.dot⟩

/-- Runs a script as often as it changes: a run that fails is told, and does not end the watch. -/
def rerun (s : Session) (file : Path) (format : DumpFormat) : Session :=
  match s.readScript file with
  | .error fault => s.tell (.failed fault)
  | .ok _ =>
    match (s.tell (.running file)).run file format with
    | (s, .ok _) => s
    | (s, .error fault) => s.tell (.failed fault)

/-- Begins to watch a script, with its first run. Its directory must be there. -/
def watch (s : Session) (file : Path) (format : DumpFormat) : Session × Except Fault Unit :=
  let directory := watchedDirectory file
  if s.files.exists? directory then ((s.tell (.watching file)).rerun file format, .ok ())
  else (s, .error (.file directory.text .watch))

/-- Writes a manifest with the default settings. One that is there stays, unless `force` is set. -/
def init (s : Session) (directory : Path) (force : Bool) : Session × Except Fault Unit :=
  let path := directory.join (Path.ofString Manifest.fileName)
  if s.files.exists? path && !force then (s, .error .manifestExists)
  else
    match s.files.write path (.ofText ({} : Manifest).yaml) with
    | .ok files => (({ s with files } : Session).tell (.created path), .ok ())
    | .error failure =>
      ({ s with files := failure.files }, .error (.file path.text (.writeManifest failure.refusal)))

/-- Does what a command line asks for. Builds and checks use a manifest. -/
def execute (s : Session) (c : CommandLine) : Session × Except Fault Unit :=
  match c.request with
  | .run file format => s.run file format
  | .build paths output unit =>
    match s.manifest c.config with
    | .error fault => (s, .error fault)
    | .ok m => s.build m paths output unit
  | .check paths =>
    match s.manifest c.config with
    | .error fault => (s, .error fault)
    | .ok m => s.check m paths
  | .colours => s.listColours
  | .init directory force => s.init directory force
  | .watch file format => s.watch file format
  | .completions shell =>
    ({ s with output := (s.output.write shell.completion).1 }, .ok ())

end Session

end BlockScript
