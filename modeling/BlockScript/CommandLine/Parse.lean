import BlockScript.CommandLine.Grammar

namespace BlockScript

/-! # Reading command lines

The words are read from left to right. A value is looked at only when the next argument begins, so
of two faults the one that shows first wins. Behind `--` every word is an operand.
-/

/-- An argument whose value is not settled yet. -/
inductive Pending where
  | flag (flag : Flag) (value : Option String)
  | operands (values : List String)
deriving DecidableEq

/-- How far reading has got on one side of the command. -/
structure ArgumentReader where
  /-- The command, once it is known. -/
  command : Option CommandName := none
  given : Given := {}
  pending : Option Pending := none
  /-- Whether a `--` was read. -/
  isTrailing : Bool := false
  operandSeen : Bool := false

namespace ArgumentReader

/-- The flags that may stand here. -/
def flags (r : ArgumentReader) : List Flag :=
  match r.command with
  | none => Flag.shared ++ [.version]
  | some command => command.flags

/-- The value that was read for a flag is taken into account. -/
def settle (r : ArgumentReader) : Except UsageFault ArgumentReader :=
  match r.pending with
  | none => .ok r
  | some (.flag _ none) => .error (.badValue "")
  | some (.flag flag (some value)) =>
    (r.given.setFlag flag value).map fun given => { r with given, pending := none }
  | some (.operands values) =>
    match r.command with
    | none => .ok { r with pending := none }
    | some command =>
      (r.given.addOperands command values).map fun given => { r with given, pending := none }

/-- A flag that comes with its value, or has none. -/
def takeFlag (r : ArgumentReader) (flag : Flag) (value : String) :
    Except UsageFault ArgumentReader :=
  match r.settle with
  | .error fault => .error fault
  | .ok r => (r.given.setFlag flag value).map fun given => { r with given }

/-- A flag whose value is the next word. -/
def awaitValue (r : ArgumentReader) (flag : Flag) : Except UsageFault ArgumentReader :=
  r.settle.map fun r => { r with pending := some (.flag flag none) }

/-- A flag by its long name, with what stands behind an equals sign. -/
def longFlag (r : ArgumentReader) (name : List Char) (value : Option String) :
    Except UsageFault ArgumentReader :=
  match r.flags.find? fun f => f.long.toList == name with
  | none => .error (.unknownArgument (String.ofList ('-' :: '-' :: name)))
  | some flag =>
    match flag.takesValue, value with
    | true, some value => r.takeFlag flag value
    | true, none => r.awaitValue flag
    | false, some value => .error (.unneededValue value)
    | false, none => r.takeFlag flag ""

/-- Flags by their letters. Behind the first one that takes a value stands its value. -/
def shortFlags (r : ArgumentReader) : List Char → Except UsageFault ArgumentReader
  | [] => .ok r
  | c :: rest =>
    match r.flags.find? fun f => f.short? == some c with
    | none => .error (.unknownArgument (String.ofList ['-', c]))
    | some flag =>
      if flag.takesValue then
        match rest with
        | [] => r.awaitValue flag
        | '=' :: value => r.takeFlag flag (String.ofList value)
        | value => r.takeFlag flag (String.ofList value)
      else
        match r.takeFlag flag "" with
        | .error fault => .error fault
        | .ok r => shortFlags r rest

/-- A word that has no place here. -/
def misplaced (r : ArgumentReader) (word : String) : UsageFault :=
  match r.command with
  | some _ => .unknownArgument word
  | none =>
    if r.isTrailing && (word == helpWord || (CommandName.named? word).isSome) then
      .unknownArgument word
    else .unknownCommand word

/-- An argument without a name. -/
def operand (r : ArgumentReader) (word : String) : Except UsageFault ArgumentReader :=
  let start : Except UsageFault ArgumentReader :=
    r.settle.map fun r => { r with pending := some (.operands [word]), operandSeen := true }
  match r.command.map CommandName.operands, r.pending with
  | none, _ | some .none, _ => .error (r.misplaced word)
  | some .one, _ => if r.operandSeen then .error (r.misplaced word) else start
  | some .many, some (.operands values) =>
    .ok { r with pending := some (.operands (values ++ [word])) }
  | some .many, _ => start

/-- Whether the last word was a flag that takes a value. -/
def isAwaiting (r : ArgumentReader) : Bool :=
  match r.pending with
  | some (.flag _ none) => true
  | _ => false

/-- A word that is no command. -/
def argument (r : ArgumentReader) (word : String) : Except UsageFault ArgumentReader :=
  if r.isTrailing then r.operand word
  else
    match word.toList with
    | ['-', '-'] => .ok { r with isTrailing := true }
    | '-' :: '-' :: body =>
      let name := body.takeWhile (· != '=')
      let value := (body.drop name.length).tail?.map String.ofList
      r.longFlag name value
    | '-' :: c :: rest => r.shortFlags (c :: rest)
    | _ =>
      match r.pending with
      | some (.flag flag none) => .ok { r with pending := some (.flag flag (some word)) }
      | _ => r.operand word

/-- Reads what stands behind a command. -/
def readAll (r : ArgumentReader) : List String → Except UsageFault ArgumentReader
  | [] => r.settle
  | word :: rest =>
    match r.argument word with
    | .error fault => .error fault
    | .ok r => r.readAll rest

/-- Reads what stands in front of the command, and finds it with the words behind it. -/
def findCommand (r : ArgumentReader) :
    List String → Except UsageFault (ArgumentReader × Option (CommandName × List String))
  | [] => r.settle.map fun r => (r, none)
  | word :: rest =>
    if !r.isTrailing && !r.isAwaiting && word == helpWord then .error (helpOn rest)
    else
      match if r.isTrailing || r.isAwaiting then none else CommandName.named? word with
      | some command => .ok (r, some (command, rest))
      | none =>
        match r.argument word with
        | .error fault => .error fault
        | .ok r => r.findCommand rest
where
  /-- The answer to a call for help on the words: they name one command at most. -/
  helpOn : List String → UsageFault
    | [] => .helpAsked
    | [word] =>
      if word == helpWord || (CommandName.named? word).isSome then .helpAsked
      else .unknownCommand word
    | word :: next :: _ =>
      if word == helpWord || (CommandName.named? word).isSome then .unknownCommand next
      else .unknownCommand word

end ArgumentReader

namespace CommandLine

/-- What was given behind a command, and the request it makes. -/
def parseCommand (command : CommandName) (words : List String) :
    Except UsageFault (Given × Request) := do
  let r ← ({ command := some command } : ArgumentReader).readAll words
  r.given.check
  let request ← r.given.request command
  return (r.given, request)

/-- Reads the words of a command line. What is given behind the command wins over what is given in
front of it. -/
def parse (words : List String) : Except UsageFault CommandLine := do
  let (front, found) ← ({} : ArgumentReader).findCommand words
  match found with
  | none => .error (if front.given = {} then .noArguments else .missingCommand)
  | some (command, rest) =>
    let (behind, request) ← parseCommand command rest
    let front ← front.settle
    front.given.check
    return {
      request
      config := behind.config <|> front.given.config
      verbose := behind.verbose || front.given.verbose
      quiet := behind.quiet || front.given.quiet }

end CommandLine

end BlockScript
