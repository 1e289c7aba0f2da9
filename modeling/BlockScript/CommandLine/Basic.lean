import BlockScript.Files.Path
import BlockScript.Log
import BlockScript.Output.TextWriter

namespace BlockScript

/-! # Command lines

What a user asks for: a request, and the settings that every request shares.
-/

/-- The shells that completions can be asked for. -/
inductive Shell where
  | bash
  | elvish
  | fish
  | powershell
  | zsh
deriving DecidableEq, Repr

namespace Shell

def name : Shell → String
  | bash => "bash"
  | elvish => "elvish"
  | fish => "fish"
  | powershell => "powershell"
  | zsh => "zsh"

def all : List Shell := [bash, elvish, fish, powershell, zsh]

end Shell

namespace DumpFormat

def name : DumpFormat → String
  | text => "text"
  | json => "json"

def all : List DumpFormat := [text, json]

end DumpFormat

inductive Request where
  /-- Write the events of a script. -/
  | run (file : Path) (format : DumpFormat)
  /-- Draw the scripts that the paths lead to. -/
  | build (paths : List Path) (output : Option Path) (unit : Option Nat)
  /-- Report the mistakes in the scripts that the paths lead to. -/
  | check (paths : List Path)
  /-- List the colours that scripts can name. -/
  | colours
  /-- Write a manifest with the default settings. -/
  | init (directory : Path) (force : Bool)
  /-- Run a script whenever it changes. -/
  | watch (file : Path) (format : DumpFormat)
  | completions (shell : Shell)
deriving DecidableEq

structure CommandLine where
  request : Request
  /-- The manifest to use in place of the one in the working directory. -/
  config : Option Path := none
  verbose : Bool := false
  quiet : Bool := false
deriving DecidableEq

namespace CommandLine

/-- The level that log entries are shown from. -/
def logLevel (c : CommandLine) : LogLevel := (LogLevel.ofFlags? c.verbose c.quiet).getD .warn

end CommandLine

/-- Why a command line is no request. The last two are wishes rather than mistakes. -/
inductive UsageFault where
  | noArguments
  | missingCommand
  | unknownCommand (word : String)
  | missingArgument
  | unknownArgument (word : String)
  | badValue (value : String)
  | badNumber (value : String)
  /-- A flag is given twice, or with one that excludes it. -/
  | conflict
  | unneededValue (value : String)
  | helpAsked
  | versionAsked
deriving DecidableEq, Repr

namespace UsageFault

def programVersion : String := "blocks 0.4.1\n"

/-- The exit code that tells the fault. -/
def exitCode : UsageFault → Nat
  | helpAsked | versionAsked => 0
  | _ => 2

def message : UsageFault → String
  | noArguments | helpAsked =>
    "Usage: blocks [--config <path>] [--verbose | --quiet] <command>\n" ++
      "Commands: run, build, check, colours, init, watch, completions, help\n"
  | versionAsked => programVersion
  | missingCommand => "error: a command is missing\n"
  | unknownCommand word => "error: there is no command '" ++ word ++ "'\n"
  | missingArgument => "error: an argument is missing\n"
  | unknownArgument word => "error: unexpected argument '" ++ word ++ "'\n"
  | badValue value | badNumber value => "error: invalid value '" ++ value ++ "'\n"
  | conflict => "error: these flags exclude each other, or one is given twice\n"
  | unneededValue value => "error: unexpected value '" ++ value ++ "'\n"

end UsageFault

end BlockScript
