import BlockScript.Drawing.Event
import BlockScript.Text.Quoted

namespace BlockScript

/-! # Dumps

Events as text, one line each, and as a JSON array with an object for each.
-/

namespace Event

/-- The event with the end of its line. -/
def line (e : Event) : String := e.text ++ "\n"

/-- One line for each event. -/
def linesText (events : List Event) : String := events.foldl (fun out e => out ++ e.line) ""

end Event

namespace Json

/-- How a character is written inside a JSON string. -/
def charText (c : Char) : List Char :=
  if c == '"' || c == '\\' then ['\\', c]
  else if c == '\n' then ['\\', 'n']
  else if c == '\r' then ['\\', 'r']
  else if c == '\t' then ['\\', 't']
  else if c == '\x08' then ['\\', 'b']
  else if c == '\x0c' then ['\\', 'f']
  else if c.toNat < 0x20 then
    ['\\', 'u', '0', '0'] ++ (if c.toNat < 0x10 then ['0'] else []) ++ hexText c.toNat
  else [c]

/-- A JSON string. -/
def stringText (text : String) : String :=
  String.ofList ('"' :: text.toList.flatMap charText ++ ['"'])

/-- A field of an object in an array: name and value, on a line of its own. -/
def fieldText (field : String × String) : String :=
  "    " ++ stringText field.1 ++ ": " ++ field.2

/-- An object in an array, with a line for each field. -/
def objectText (fields : List (String × String)) : String :=
  "  \x7b\n" ++ ",\n".intercalate (fields.map fieldText) ++ "\n  \x7d"

/-- An array with each element on lines of its own. -/
def arrayText (elements : List String) : String :=
  match elements with
  | [] => "[]"
  | first :: rest =>
    rest.foldl (fun out element => out ++ ",\n" ++ element) ("[\n" ++ first) ++ "\n]"

end Json

namespace Colour

/-- The colour as a JSON string. -/
def jsonText (c : Colour) : String := Json.stringText c.text

end Colour

namespace Event

/-- The fields of the event, with their JSON values. -/
def fields : Event → List (String × String)
  | block size colour =>
    [("event", Json.stringText "draw_block"), ("size", NumberLayout.json.text size),
      ("colour", colour.jsonText)]
  | space size =>
    [("event", Json.stringText "draw_space"), ("size", NumberLayout.json.text size)]
  | lineBreak => [("event", Json.stringText "line_break")]
  | error message =>
    [("event", Json.stringText "display_error"), ("message", Json.stringText message)]

/-- The events as a JSON array. -/
def jsonText (events : List Event) : String :=
  Json.arrayText (events.map fun e => Json.objectText e.fields)

end Event

end BlockScript
