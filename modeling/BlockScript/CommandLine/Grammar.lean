import BlockScript.CommandLine.Basic
import BlockScript.Manifest.Basic

namespace BlockScript

/-! # The grammar of command lines

Which flags and operands each command takes, and what their values may be.
-/

/-- An argument that is given by its name. -/
inductive Flag where
  | config
  | verbose
  | quiet
  | help
  | version
  | format
  | output
  | unit
  | force
deriving DecidableEq, Repr

namespace Flag

/-- The name behind two dashes. -/
def long : Flag → String
  | config => "config"
  | verbose => "verbose"
  | quiet => "quiet"
  | help => "help"
  | version => "version"
  | format => "format"
  | output => "output"
  | unit => "unit"
  | force => "force"

/-- The letter behind one dash. -/
def short? : Flag → Option Char
  | verbose => some 'v'
  | quiet => some 'q'
  | help => some 'h'
  | version => some 'V'
  | output => some 'o'
  | _ => none

def takesValue : Flag → Bool
  | config | format | output | unit => true
  | _ => false

/-- The flags that every command takes, and that may also stand in front of it. -/
def shared : List Flag := [config, verbose, quiet, help]

end Flag

inductive CommandName where
  | run
  | build
  | check
  | colours
  | init
  | watch
  | completions
deriving DecidableEq, Repr

/-- How many arguments without a name a command takes. -/
inductive Operands where
  | none
  | one
  | many
deriving DecidableEq, Repr

namespace CommandName

def name : CommandName → String
  | run => "run"
  | build => "build"
  | check => "check"
  | colours => "colours"
  | init => "init"
  | watch => "watch"
  | completions => "completions"

def all : List CommandName := [run, build, check, colours, init, watch, completions]

def named? (word : String) : Option CommandName := all.find? fun c => c.name == word

/-- The flags that the command takes. -/
def flags : CommandName → List Flag
  | run | watch => Flag.shared ++ [.format]
  | build => Flag.shared ++ [.output, .unit]
  | init => Flag.shared ++ [.force]
  | check | colours | completions => Flag.shared

def operands : CommandName → Operands
  | run | watch | init | completions => .one
  | build | check => .many
  | colours => .none

end CommandName

/-- The word that asks for help on a command. -/
def helpWord : String := "help"

/-- What was given in front of a command, or behind it. -/
structure Given where
  config : Option Path := none
  verbose : Bool := false
  quiet : Bool := false
  format : Option DumpFormat := none
  output : Option Path := none
  unit : Option Nat := none
  force : Bool := false
  shell : Option Shell := none
  paths : List Path := []
deriving DecidableEq

/-! ## Values -/

/-- A path is any text but the empty one. -/
def pathOf (value : String) : Except UsageFault Path :=
  if value.isEmpty then .error (.badValue value) else .ok (Path.ofString value)

def formatOf (value : String) : Except UsageFault DumpFormat :=
  match DumpFormat.all.find? fun f => f.name == value with
  | some format => .ok format
  | none => .error (.badValue value)

def shellOf (value : String) : Except UsageFault Shell :=
  match Shell.all.find? fun s => s.name == value with
  | some shell => .ok shell
  | none => .error (.badValue value)

/-- A number of pixels is a whole number up to `maxUnit`, with or without a sign. -/
def unitOf (value : String) : Except UsageFault Nat :=
  let (negative, digits) := Numeral.sign value.toList
  match (Numeral.digits? digits).filter fun n => if negative then n = 0 else n ≤ maxUnit with
  | some unit => .ok unit
  | none => .error (.badNumber value)

namespace Given

/-- Adds a flag with its value. No flag is given twice. -/
def setFlag (g : Given) (flag : Flag) (value : String) : Except UsageFault Given :=
  match flag with
  | .config =>
    if g.config.isSome then .error .conflict
    else (pathOf value).map fun config => { g with config := some config }
  | .output =>
    if g.output.isSome then .error .conflict
    else (pathOf value).map fun output => { g with output := some output }
  | .format =>
    if g.format.isSome then .error .conflict
    else (formatOf value).map fun format => { g with format := some format }
  | .unit =>
    if g.unit.isSome then .error .conflict
    else (unitOf value).map fun unit => { g with unit := some unit }
  | .verbose => if g.verbose then .error .conflict else .ok { g with verbose := true }
  | .quiet => if g.quiet then .error .conflict else .ok { g with quiet := true }
  | .force => if g.force then .error .conflict else .ok { g with force := true }
  | .help => .error .helpAsked
  | .version => .error .versionAsked

/-- Adds operands of a command. -/
def addOperands (g : Given) (command : CommandName) (values : List String) :
    Except UsageFault Given :=
  let add (g : Given) (value : String) : Except UsageFault Given :=
    match command with
    | .completions => (shellOf value).map fun shell => { g with shell := some shell }
    | _ => (pathOf value).map fun path => { g with paths := g.paths ++ [path] }
  values.foldlM add g

/-- What excludes what. -/
def check (g : Given) : Except UsageFault Unit :=
  if g.verbose && g.quiet then .error .conflict else .ok ()

/-- The request that a command makes with what was given behind it. -/
def request (g : Given) (command : CommandName) : Except UsageFault Request :=
  match command, g.paths with
  | .run, file :: _ => .ok (.run file (g.format.getD .text))
  | .watch, file :: _ => .ok (.watch file (g.format.getD .text))
  | .run, [] | .watch, [] => .error .missingArgument
  | .build, paths => .ok (.build paths g.output g.unit)
  | .check, paths => .ok (.check paths)
  | .colours, _ => .ok .colours
  | .init, paths => .ok (.init (paths.head?.getD (Path.ofString ".")) g.force)
  | .completions, _ =>
    match g.shell with
    | some shell => .ok (.completions shell)
    | none => .error .missingArgument

end Given

/-! ## Completions -/

namespace Shell

/-- The line for a shell. -/
def completion (shell : Shell) : String :=
  let names := CommandName.all.map CommandName.name ++ [helpWord]
  let words := " ".intercalate names
  match shell with
  | bash => "complete -W '" ++ words ++ "' blocks\n"
  | elvish => "set edit:completion:arg-completer[blocks] = \x7b|@args| put " ++ words ++ " \x7d\n"
  | fish => "complete -c blocks -f -a '" ++ words ++ "'\n"
  | powershell =>
    "Register-ArgumentCompleter -Native -CommandName blocks -ScriptBlock \x7b '" ++
      "', '".intercalate names ++ "' \x7d\n"
  | zsh => "compctl -k '(" ++ words ++ ")' blocks\n"

end Shell

end BlockScript
