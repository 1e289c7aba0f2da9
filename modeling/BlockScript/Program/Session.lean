import BlockScript.Files.Discovery
import BlockScript.Log
import BlockScript.Manifest.Yaml
import BlockScript.Output.Notice
import BlockScript.Output.TextWriter

namespace BlockScript

/-! # Sessions

All that a command can see and change: files, the standard input and output, the notices shown to
the user, and the log.
-/

structure Session where
  files : FileTree
  /-- The bytes of the standard input. -/
  input : Array UInt8 := #[]
  /-- The standard output. -/
  output : Sink := {}
  notices : Array Notice := #[]
  log : Array LogEntry := #[]

namespace Session

/-- Shows a notice. -/
def tell (s : Session) (n : Notice) : Session := { s with notices := s.notices.push n }

/-- Shows notices in order. -/
def tellAll (s : Session) (ns : List Notice) : Session :=
  { s with notices := s.notices ++ ns.toArray }

/-- Writes entries to the log. -/
def note (s : Session) (entries : List LogEntry) : Session :=
  { s with log := s.log ++ entries.toArray }

/-- The working directory as a path. -/
def here (s : Session) : Path := ⟨'/' :: joinWith '/' s.files.here⟩

/-- The notices as the user sees them. -/
def noticeText (s : Session) : String := String.join (s.notices.toList.map fun n => n.line s.here)

/-- The path that stands for the standard input. -/
def inputPath : Path := ⟨['-']⟩

/-- The text of a script. -/
def readScript (s : Session) (p : Path) : Except Fault (List Char) :=
  if p.same inputPath then
    match utf8Text? s.input with
    | some text => .ok text.toList
    | none => .error (.file p.text (.readInput .notUtf8))
  else
    match s.files.readText p with
    | .ok text => .ok text.toList
    | .error refusal => .error (.file p.text (.readScript refusal))

/-- The manifest in a file. -/
def readManifest (s : Session) (p : Path) : Except Fault Manifest :=
  match s.files.readText p with
  | .ok text => Manifest.parse text
  | .error refusal => .error (.file p.text (.readManifest refusal))

/-- The manifest that a command uses: the one it is given, else the one in the working directory,
else the default settings. -/
def manifest (s : Session) (config : Option Path) : Except Fault Manifest :=
  match config with
  | some path => s.readManifest path
  | none =>
    let path := Path.ofString Manifest.fileName
    if s.files.exists? path then s.readManifest path else .ok {}

/-- The scripts that a command works on. -/
def findScripts (s : Session) (m : Manifest) (explicit : List Path) : List Path :=
  s.files.findScripts m (m.sourcePaths explicit)

end Session

end BlockScript
