import BlockScript.Colour.Basic
import BlockScript.Files.Path

namespace BlockScript

/-! # Manifests

The settings of a project. Every one has a default, and the command line overrides them. A manifest
excludes paths by patterns on their text. A pattern is one of four shapes: everything below a
directory, an ending, or a text anywhere in the path.
-/

/-! ## Patterns -/

inductive Pattern where
  /-- Below a directory of this name: the name and a slash at the start, or after a slash. -/
  | below (directory : List Char)
  | ending (text : List Char)
  | anywhere (text : List Char)
deriving DecidableEq, Repr

namespace Pattern

/-- The text before an ending, if the text has that ending. -/
def beforeEnd? (ending text : List Char) : Option (List Char) :=
  if ending.isSuffixOf text then some (text.take (text.length - ending.length)) else none

/-- Whether `part` stands somewhere in the text. -/
def occursIn (part : List Char) : List Char → Bool
  | [] => part.isEmpty
  | c :: cs => part.isPrefixOf (c :: cs) || occursIn part cs

/-- What is left of a pattern that is tried without `**/` and without an ending after `*`. -/
def ofPlain (text : List Char) : Pattern :=
  match beforeEnd? ['/', '*'] text with
  | some directory => below directory
  | none => anywhere text

/-- The shape of a pattern. `**/` at the start changes nothing but its own meaning; a leading `*`
gives an ending only when there is no slash. -/
def parse : List Char → Pattern
  | '*' :: '*' :: '/' :: rest => ofPlain rest
  | '*' :: rest => if rest.contains '/' then ofPlain ('*' :: rest) else ending rest
  | text => ofPlain text

def excludes (p : Pattern) (path : List Char) : Bool :=
  match p with
  | below directory =>
    (directory ++ ['/']).isPrefixOf path || occursIn ('/' :: directory ++ ['/']) path
  | ending text => text.isSuffixOf path
  | anywhere text => occursIn text path

end Pattern

/-! ## Settings -/

/-- The largest number of pixels per size unit. -/
def maxUnit : Nat := 0xFFFFFFFF

structure Manifest where
  /-- Files and directories that scripts are looked for in, when the command line names none. -/
  sources : List String := ["."]
  /-- Where pictures go. -/
  output : String := "dist"
  /-- Pixels per size unit. -/
  unit : Nat := 16
  /-- Written colour of the background. -/
  background : String := "#FFFFFF"
  /-- Patterns of paths that are left out. -/
  excludes : List String := []
deriving DecidableEq, Repr

namespace Manifest

/-- The file that a manifest is looked for in. -/
def fileName : String := "blocks.yaml"

def backgroundColour (m : Manifest) : Except Fault Colour :=
  match Colour.parse? m.background.toList with
  | some colour => .ok colour
  | none => .error (.badBackground m.background)

/-- Whether the settings make sense: first the unit, then the background. -/
def validate (m : Manifest) : Except Fault Unit :=
  if m.unit = 0 then .error .zeroUnit
  else
    match m.backgroundColour with
    | .ok _ => .ok ()
    | .error fault => .error fault

/-- Whether a pattern excludes the path, by its text. -/
def isExcluded (m : Manifest) (path : Path) : Bool :=
  m.excludes.any fun pattern => (Pattern.parse pattern.toList).excludes path.chars

/-- The paths to look in: the explicit ones if there are any. -/
def sourcePaths (m : Manifest) (explicit : List Path) : List Path :=
  if explicit.isEmpty then m.sources.map Path.ofString else explicit

end Manifest

end BlockScript
