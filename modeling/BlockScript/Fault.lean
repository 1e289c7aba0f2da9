namespace BlockScript

/-! # Faults

Everything that can stop a command, as causes. The wording is in `Fault.message` and `Fault.help`.
-/

/-- Why the system refused a file operation. -/
inductive SystemRefusal where
  | notFound
  | alreadyExists
  | notADirectory
  | isADirectory
  | invalidInput
  | tooManyLinks
  | nameTooLong
  | notUtf8
  | permissionDenied
  | noSpace
deriving DecidableEq, Repr

/-- The system's own words for a refusal. -/
def SystemRefusal.message : SystemRefusal → String
  | notFound => "No such file or directory (os error 2)"
  | alreadyExists => "File exists (os error 17)"
  | notADirectory => "Not a directory (os error 20)"
  | isADirectory => "Is a directory (os error 21)"
  | invalidInput => "file name contained an unexpected NUL byte"
  | tooManyLinks => "Too many levels of symbolic links (os error 40)"
  | nameTooLong => "File name too long (os error 36)"
  | notUtf8 => "stream did not contain valid UTF-8"
  | permissionDenied => "Permission denied (os error 13)"
  | noSpace => "No space left on device (os error 28)"

/-- What was being done with a file when it failed. -/
inductive FileAction where
  | readScript (refusal : SystemRefusal)
  | readInput (refusal : SystemRefusal)
  | readManifest (refusal : SystemRefusal)
  | writeManifest (refusal : SystemRefusal)
  | createOutput (refusal : SystemRefusal)
  | writePicture
  | watch
deriving DecidableEq, Repr

/-- Why an output stream took no more. -/
inductive StreamFailure where
  | closed
  | flushFailed
deriving DecidableEq, Repr

def StreamFailure.message : StreamFailure → String
  | closed => "closed"
  | flushFailed => "flush failed"

/-- Which limit a picture goes over. -/
inductive PictureLimit where
  | items
  /-- A side is too long: the extent in size units, as text, and the pixels per unit. -/
  | side (width height unit : String)
  | pixels (width height : Nat)
deriving DecidableEq, Repr

/-- What stops a command. -/
inductive Fault where
  | stream (failure : StreamFailure)
  | file (path : String) (action : FileAction)
  | badColour (text : String)
  | badManifest
  | zeroUnit
  | zeroUnitFlag
  | badBackground (text : String)
  | noScripts
  | manifestExists
  | tooLarge (name : String) (limit : PictureLimit)
  | tooManyPixelsAcross (name : String) (pixels : Nat)
  | problems (errors scripts : Nat)
deriving DecidableEq, Repr

/-- The families that faults are reported under. -/
inductive FaultKind where
  | stream
  | file
  | parse
  | config
  | render
  | check
deriving DecidableEq, Repr

def Fault.kind : Fault → FaultKind
  | stream _ => .stream
  | file .. => .file
  | badColour _ | badManifest => .parse
  | zeroUnit | zeroUnitFlag | badBackground _ | noScripts | manifestExists => .config
  | tooLarge .. | tooManyPixelsAcross .. => .render
  | problems .. => .check

/-- The code that a report names the family by. -/
def FaultKind.code : FaultKind → String
  | stream | file => "blocks::io"
  | parse => "blocks::parse"
  | config => "blocks::config"
  | render => "blocks::render"
  | check => "blocks::check"

/-- The word that a report of the family begins with. -/
def FaultKind.heading : FaultKind → String
  | stream | file => "IO error"
  | parse => "Parse error"
  | config => "Config error"
  | render => "Render error"
  | check => "Check failed"

/-- The count and its noun, which takes an `s` unless the count is one. -/
def countText (n : Nat) (noun : String) : String :=
  toString n ++ " " ++ noun ++ (if n = 1 then "" else "s")

/-- Largest width or height of a picture, in pixels. -/
def maxSide : Nat := 16384

/-- Largest number of pixels in a picture. -/
def maxPixels : Nat := 33554432

/-- Items that a canvas keeps before it stops recording. -/
def maxItems : Nat := 1048576

def FileAction.message : FileAction → String
  | readScript refusal => "Failed to read file: " ++ refusal.message
  | readInput refusal => "Failed to read stdin: " ++ refusal.message
  | readManifest refusal => "Failed to read manifest: " ++ refusal.message
  | writeManifest refusal => "Failed to write manifest: " ++ refusal.message
  | createOutput refusal => "Failed to create output directory: " ++ refusal.message
  | writePicture => "Failed to write PNG: "
  | watch => "Failed to watch: "

def PictureLimit.message : PictureLimit → String
  | items => "more than " ++ toString maxItems ++ " items to draw"
  | side width height unit => width ++ " x " ++ height ++ " units at " ++ unit ++ " px per unit"
  | pixels width height => toString width ++ " x " ++ toString height ++ " pixels"

namespace Fault

/-- The fault in words, without its heading. -/
def detail : Fault → String
  | stream failure => failure.message
  | file _ action => action.message
  | badColour text => "Invalid hex colour: " ++ text
  | badManifest => "Invalid manifest: "
  | zeroUnit => "unit must be greater than zero"
  | zeroUnitFlag => "--unit must be greater than zero"
  | badBackground text => "Invalid background colour: " ++ text
  | noScripts => "No scripts found"
  | manifestExists => "blocks.yaml already exists"
  | tooLarge name limit => name ++ " is too large to rasterise (" ++ limit.message ++ ")"
  | tooManyPixelsAcross name pixels =>
    name ++ " is " ++ toString pixels ++ " pixels across, too large for PNG"
  | problems errors scripts =>
    countText errors "error" ++ " in " ++ countText scripts "script"

/-- The line that reports the fault. -/
def message (fault : Fault) : String :=
  match fault with
  | file path _ => fault.kind.heading ++ " with " ++ path ++ ": " ++ fault.detail
  | _ => fault.kind.heading ++ ": " ++ fault.detail

/-- What the user may do about it. -/
def help : Fault → Option String
  | badColour _ | badBackground _ => some "Use #RGB, #RRGGBB, or #RRGGBBAA format"
  | badManifest => some "Check blocks.yaml syntax"
  | zeroUnit => some "unit is the number of pixels per block size"
  | noScripts => some "Pass .blocks files or directories, or set sources in blocks.yaml"
  | manifestExists => some "Use --force to overwrite"
  | tooLarge .. =>
    some ("Images are limited to " ++ toString maxSide ++ " pixels per side and " ++
      toString maxPixels ++ " pixels in total; lower the unit or the block sizes")
  | problems .. => some "Run `blocks colours` to list valid colour names"
  | _ => none

def code (fault : Fault) : String := fault.kind.code

end Fault

end BlockScript
