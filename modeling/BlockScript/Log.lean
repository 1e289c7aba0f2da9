import BlockScript.Number.Layout
import BlockScript.Script.Basic
import BlockScript.Text.Quoted

namespace BlockScript

/-! # Log

What the program notes while it works. Each entry has a level and the part of the program it comes
from; a reader asks for the entries at one level or graver ones.
-/

inductive LogLevel where
  | error
  | warn
  | info
  | debug
  | trace
deriving DecidableEq, Repr

namespace LogLevel

/-- Graver levels come first. -/
def rank : LogLevel → Nat
  | error => 0
  | warn => 1
  | info => 2
  | debug => 3
  | trace => 4

def name : LogLevel → String
  | error => "ERROR"
  | warn => "WARN"
  | info => "INFO"
  | debug => "DEBUG"
  | trace => "TRACE"

/-- The level that the flags ask for, if they ask for one. -/
def ofFlags? (verbose quiet : Bool) : Option LogLevel :=
  if verbose then some debug else if quiet then some error else none

end LogLevel

inductive LogEntry where
  | tokenRead (token : List Char) (command : Command)
  | scriptRead (commands mistakes : Nat)
  | executing (commands : Nat)
  | canvasFull
  | scriptsFound (scripts : Nat)
deriving DecidableEq

namespace LogEntry

def level : LogEntry → LogLevel
  | tokenRead .. => .trace
  | scriptRead .. | executing _ | scriptsFound _ => .debug
  | canvasFull => .warn

/-- The part of the program that an entry comes from. -/
def origin : LogEntry → String
  | tokenRead .. => "blocks::parser::command"
  | scriptRead .. => "blocks::parser::script"
  | executing _ => "blocks::exec"
  | canvasFull => "blocks::render::canvas"
  | scriptsFound _ => "blocks::discovery"

/-- The fields of a colour by name. -/
def colourText (c : Colour) : String :=
  "Colour \x7b r: " ++ toString c.r.toNat ++ ", g: " ++ toString c.g.toNat ++
    ", b: " ++ toString c.b.toNat ++ ", a: " ++ toString c.a.toNat ++ " \x7d"

/-- The fields of a command by name. -/
def commandText : Command → String
  | .block spec =>
    "Block(BlockSpec \x7b size: " ++ NumberLayout.explicit.text spec.size ++
      ", colour: " ++ colourText spec.colour ++
      ", repeat: " ++ toString spec.repetitions ++ " \x7d)"
  | .space size => "Space \x7b size: " ++ NumberLayout.explicit.text size ++ " \x7d"
  | .newline => "Newline"
  | .mistake message => "ParseError \x7b message: " ++ quotedText message.toList ++ " \x7d"

def message : LogEntry → String
  | tokenRead token command => "token " ++ quotedText token ++ " -> " ++ commandText command
  | scriptRead commands mistakes =>
    "parsed " ++ toString commands ++ " command(s), " ++ toString mistakes ++ " error(s)"
  | executing commands => "executing " ++ toString commands ++ " command(s)"
  | canvasFull =>
    "canvas is full after " ++ toString maxItems ++ " items, dropping the rest"
  | scriptsFound scripts => "discovered " ++ toString scripts ++ " script(s)"

/-- The entry as a line. -/
def text (e : LogEntry) : String := e.level.name ++ " " ++ e.origin ++ ": " ++ e.message

end LogEntry

/-- The lines that a reader at `level` sees. -/
def logLines (level : LogLevel) (entries : List LogEntry) : List String :=
  (entries.filter fun e => decide (e.level.rank ≤ level.rank)).map LogEntry.text

namespace Token

/-- What reading a token notes. -/
def log (token : List Char) : List LogEntry :=
  match parse token with
  | none => []
  | some command => [.tokenRead (trim token) command]

end Token

namespace Script

/-- What reading a script notes: every token, and the counts at the end. -/
def log (source : List Char) : List LogEntry :=
  let found := spannedCommands source
  found.map (fun c => .tokenRead c.token c.command) ++
    [.scriptRead found.length (found.filter (·.command.isMistake)).length]

/-- What reading and running a script notes, apart from the notes of its renderer. -/
def runLog (source : List Char) : List LogEntry :=
  log source ++ [.executing (commands source).length]

end Script

end BlockScript
