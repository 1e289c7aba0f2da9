import BlockScript.CommandLine.Parse
import BlockScript.Drawing.Png
import BlockScript.Program.Execute

/-! # The program

Reads from the disk what a command may look at, lets the command work on it, and writes back what it
changed. Links are followed while reading, so a command sees files and directories only. Rights and
the room on the device are not read: what the system refuses ends the program.
-/

namespace BlockScript.Disk

/-- The path of a place as the system takes it. -/
def pathText (place : Place) : String := String.ofList ('/' :: joinWith '/' place)

/-- The names of an absolute path. -/
def placeOf (path : Path) : Place := path.pieces.filter fun piece => !Path.isIdle piece

/-- The tree with the directories that lead to a place. -/
def addParents (t : FileTree) (place : Place) : FileTree :=
  (List.range place.length).foldl (fun t n =>
    if n = 0 then t else t.put (place.take n) .directory) t

/-- Adds what is at a place of the disk, with all that is below it. The bytes of a file are read if
it is wanted. -/
partial def load (wanted : Path → Bool) (opened : List String) (t : FileTree) (place : Place) :
    IO FileTree := do
  let real ← try pure (some (← IO.FS.realPath (pathText place))) catch _ => pure none
  match real with
  | none => return t
  | some real =>
    if ← real.isDir then
      if opened.contains real.toString then return t
      let mut t := t.put place .directory
      for entry in ← real.readDir do
        t ← load wanted (real.toString :: opened) t (place ++ [entry.fileName.toList])
      return t
    else if ← real.pathExists then
      let isWanted := wanted (Path.ofString (pathText place))
      let bytes ← if isWanted then IO.FS.readBinFile real else pure .empty
      return t.put place (.file (.bytes bytes.data))
    else return t

/-- Adds what a path leads to. -/
def loadPath (wanted : Path → Bool) (t : FileTree) (path : Path) : IO FileTree := do
  let here : Path := ⟨(pathText t.here).toList⟩
  let parent := (here.join path).parent?.getD ⟨['/']⟩
  let real ← try pure (some (← IO.FS.realPath parent.text)) catch _ => pure none
  match real, path.fileName? with
  | some real, some name =>
    let place := placeOf (Path.ofString real.toString) ++ [name]
    load wanted [] (addParents t place) place
  | _, _ =>
    let whole ← try pure (some (← IO.FS.realPath (here.join path).text)) catch _ => pure none
    match whole with
    | some whole =>
      let place := placeOf (Path.ofString whole.toString)
      load wanted [] (addParents t place) place
    | none => return t

/-- The tree that a command needs. Scripts and files that are named are read in full. -/
def loadFor (c : CommandLine) (t : FileTree) : IO FileTree := do
  let all : Path → Bool := fun _ => true
  match c.request with
  | .run file _ => loadPath all t file
  | .watch file _ =>
    loadPath (fun _ => false) t (Session.watchedDirectory file) >>= (loadPath all · file)
  | .init directory _ => loadPath all t (directory.join (Path.ofString Manifest.fileName))
  | .colours | .completions _ => return t
  | .build paths _ _ | .check paths =>
    let t ← loadPath all t (c.config.getD (Path.ofString Manifest.fileName))
    match ({ files := t } : Session).manifest c.config with
    | .error _ => return t
    | .ok m =>
      let mut t := t
      for root in m.sourcePaths paths do
        let isRoot : Path → Bool := fun p => p.fileName? == root.fileName?
        t ← loadPath (fun p => isScript p || isRoot p) t root
      let output := match c.request with
        | .build _ output _ => output.getD (Path.ofString m.output)
        | _ => Path.ofString m.output
      loadPath (fun _ => false) t output

/-- Writes what is new or different. -/
def writeBack (old new : FileTree) : IO Unit := do
  for (place, entry) in new.changesSince old do
    match entry with
    | .directory => IO.FS.createDirAll (pathText place)
    | .file (.bytes bytes) => IO.FS.writeBinFile (pathText place) ⟨bytes⟩
    | .file (.picture picture) => IO.FS.writeBinFile (pathText place) ⟨picture.fileBytes⟩
    | .link _ => pure ()

/-- Shows what a session wrote, told and logged. -/
def display (c : CommandLine) (s : Session) : IO Unit := do
  let stdout ← IO.getStdout
  stdout.write ⟨s.output.bytes⟩
  stdout.flush
  IO.eprint s.noticeText
  for line in logLines c.logLevel s.log.toList do IO.eprintln line

/-- The milliseconds between two looks at a watched file. -/
def watchPause : UInt32 := 50

/-- Runs a script again whenever its text is another one. -/
partial def watch (c : CommandLine) (empty : FileTree) (file : Path) (format : DumpFormat)
    (last : Except SystemRefusal String) : IO Unit := do
  IO.sleep watchPause
  let files ← loadFor c empty
  let text := files.readText file
  if text.toOption != last.toOption then
    display c (({ files } : Session).rerun file format)
  watch c empty file format text

/-- Does what a command line asks for, and gives the exit code. -/
def execute (c : CommandLine) : IO UInt32 := do
  let here := placeOf (Path.ofString (← IO.currentDir).toString)
  let empty := (addParents { here } here).put here .directory
  let files ← loadFor c empty
  let named := match c.request with
    | .run file _ | .watch file _ => [file]
    | .build paths _ _ | .check paths => paths
    | _ => []
  let input ← if named.any (Path.same Session.inputPath) then (← IO.getStdin).readBinToEnd
    else pure .empty
  let (s, result) := ({ files, input := input.data } : Session).execute c
  writeBack files s.files
  display c s
  match c.request, result with
  | .watch file format, .ok _ => watch c empty file format (files.readText file)
  | _, _ => pure ()
  match result with
  | .ok _ => return 0
  | .error fault =>
    IO.eprintln fault.message
    for help in fault.help do IO.eprintln ("help: " ++ help)
    return 1

end BlockScript.Disk

def main (args : List String) : IO UInt32 := do
  match BlockScript.CommandLine.parse args with
  | .ok c => BlockScript.Disk.execute c
  | .error fault =>
    if fault.exitCode = 0 then IO.print fault.message else IO.eprint fault.message
    return UInt32.ofNat fault.exitCode
