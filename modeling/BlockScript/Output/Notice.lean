import BlockScript.Colour.Basic
import BlockScript.Fault
import BlockScript.Files.Path
import BlockScript.Script.Basic

namespace BlockScript

/-! # Notices

What a command tells its user while it works, one line each: a word aligned to the right and a
message. Paths are shown from the working directory.
-/

/-- The column that the words of notices end at. -/
def noticeColumn : Nat := 12

/-- A line with a word and a message. -/
def noticeLine (word message : String) : String :=
  "".pushn ' ' (noticeColumn - word.length) ++ word ++ " " ++ message ++ "\n"

inductive Notice where
  /-- A picture was drawn. -/
  | rendered (script : Path) (width height blocks : Nat) (picture : Path)
  /-- The picture of a script shows a mistake. -/
  | warning (script : Path) (message : String)
  | finished (scripts : Nat) (output : Path) (warnings : Nat)
  /-- A mistake in a script, and where it is. -/
  | problem (script : Path) (place : Location) (message : String)
  | checked (scripts : Nat)
  | created (manifest : Path)
  | defaultColour (colour : Colour)
  | watching (script : Path)
  | running (script : Path)
  | failed (fault : Fault)
deriving DecidableEq

namespace Notice

def word : Notice → String
  | rendered .. => "Rendered"
  | warning .. => "Warning"
  | finished .. => "Finished"
  | problem .. => "error"
  | checked _ => "Checked"
  | created _ => "Created"
  | defaultColour _ => "Default"
  | watching _ => "Watching"
  | running _ => "Running"
  | failed _ => "Error"

/-- The message, with paths as seen from the directory `here`. -/
def message (here : Path) : Notice → String
  | rendered script width height blocks picture =>
    script.displayFrom here ++ " (" ++ toString width ++ "x" ++ toString height ++ ", " ++
      countText blocks "block" ++ ") " ++ picture.displayFrom here
  | warning script message => script.displayFrom here ++ ": " ++ message
  | finished scripts output warnings =>
    countText scripts "script" ++ " to " ++ output.displayFrom here ++
      if warnings = 0 then "" else " (" ++ countText warnings "warning" ++ ")"
  | problem script place message =>
    script.displayFrom here ++ ":" ++ place.text ++ ": " ++ message
  | checked scripts => countText scripts "script" ++ ", no errors"
  | created manifest => manifest.displayFrom here
  | defaultColour colour => colour.text
  | watching script | running script => script.displayFrom here
  | failed fault => fault.message

def line (here : Path) (n : Notice) : String := noticeLine n.word (n.message here)

end Notice

end BlockScript
