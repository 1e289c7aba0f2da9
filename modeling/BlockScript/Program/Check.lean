import BlockScript.Program.Session

namespace BlockScript

/-! # Checking scripts

A check reports every mistake with its place in the script.
-/

/-- A mistake in a script. -/
structure Problem where
  place : Location
  message : String
deriving DecidableEq

namespace Script

/-- The mistakes of a script, in order. -/
def problems (source : List Char) : List Problem :=
  (spannedCommands source).filterMap fun c =>
    match c.command with
    | .mistake message => some ⟨c.start, message⟩
    | _ => none

end Script

namespace Session

/-- Checks one script, and gives its mistakes. -/
def checkScript (s : Session) (script : Path) : Session × Except Fault (List Problem) :=
  match s.readScript script with
  | .error fault => (s, .error fault)
  | .ok source =>
    let problems := Script.problems source
    ((s.note (Script.log source)).tellAll
      (problems.map fun p => .problem script p.place p.message), .ok problems)

/-- Checks scripts in order, and counts their mistakes. The first that cannot be read ends it. -/
def checkScripts (s : Session) : List Path → Session × Except Fault Nat
  | [] => (s, .ok 0)
  | script :: rest =>
    match s.checkScript script with
    | (s, .error fault) => (s, .error fault)
    | (s, .ok problems) =>
      match checkScripts s rest with
      | (s, .error fault) => (s, .error fault)
      | (s, .ok total) => (s, .ok (problems.length + total))

/-- Checks the scripts that the paths lead to. -/
def check (s : Session) (m : Manifest) (paths : List Path) : Session × Except Fault Unit :=
  let scripts := s.findScripts m paths
  match (s.note [.scriptsFound scripts.length]).checkScripts scripts with
  | (s, .error fault) => (s, .error fault)
  | (s, .ok 0) => (s.tell (.checked scripts.length), .ok ())
  | (s, .ok total) => (s, .error (.problems total scripts.length))

end Session

end BlockScript
