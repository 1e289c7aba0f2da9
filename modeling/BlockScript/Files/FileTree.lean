import BlockScript.Drawing.Png
import BlockScript.Fault
import BlockScript.Files.Path
import BlockScript.Text.Basic

namespace BlockScript

/-! # File trees

Files, directories and symbolic links, each under its place: the list of names that leads to it from
the root. The root is always a directory. Paths are looked up from a working directory; links are
followed up to `maxLinks` times. The system refuses what the user has no right to, and a device that
is full cuts a file off while it is written.
-/

/-- The names that lead from the root to an entry. -/
abbrev Place := List FileName

/-- What a file holds: bytes, or a picture as an image file. -/
inductive Content where
  | bytes (bytes : Array UInt8)
  | picture (picture : Picture)

namespace Content

/-- The text of the file. An image file begins with a byte that no text has. -/
def text? : Content → Option String
  | bytes b => utf8Text? b
  | picture _ => none

def ofText (text : String) : Content := bytes (utf8Bytes text)

/-- The bytes of the file. -/
def fileBytes : Content → Array UInt8
  | bytes b => b
  | picture p => p.fileBytes

/-- The first bytes of the file. -/
def cut (content : Content) (size : Nat) : Content := bytes (content.fileBytes.extract 0 size)

def same : Content → Content → Bool
  | bytes a, bytes b => a == b
  | picture p, picture q => p.same q
  | _, _ => false

end Content

/-- What is at a place. Left out are devices, pipes and sockets, and files with more than one place
(hard links): a file that is written to changes at its own place only. -/
inductive Entry where
  | file (content : Content)
  | directory
  | link (target : Path)

/-- What a user may do with an entry. -/
inductive Right where
  /-- Reading a file, and listing the names in a directory. -/
  | read
  /-- Writing to a file, and making entries in a directory. -/
  | write
  /-- Looking up names in a directory. -/
  | search
deriving DecidableEq, Repr

/-- The entries of a file system, as one user finds them. Nothing but commands changes it, and what
they make belongs to the user. Left out, besides what `Entry` leaves out, are devices of which only
some are full or read-only, and limits on the number of entries. -/
structure FileTree where
  entries : List (Place × Entry) := []
  /-- The working directory. -/
  here : Place := []
  /-- The rights that the user does not have. -/
  denied : List (Place × Right) := []
  /-- How many more bytes the device takes, if there is a limit. What a file loses when it is
  written anew is not given back, and a picture takes the bytes of `Picture.fileBytes`: with another
  compression a device would get full elsewhere. -/
  room : Option Nat := none

/-- Why a file was not written as a whole, and the files that the attempt leaves. -/
structure WriteFailure where
  refusal : SystemRefusal
  files : FileTree

/-- Links that one look-up follows at most. -/
def maxLinks : Nat := 40

/-- Bytes in a name at most. -/
def maxNameLength : Nat := 255

/-- Bytes in a path at most. -/
def maxPathLength : Nat := 4095

/-- What a look-up is for. -/
inductive Purpose where
  /-- Reading what the path leads to. -/
  | reading
  /-- The entry itself: a link that ends the path is not followed. -/
  | naming
  /-- Writing a file, which may be new. Its name ends the path: no slash stands behind it. -/
  | writing
deriving DecidableEq, Repr

/-- Where a look-up ends. -/
inductive Lookup where
  | found (place : Place)
  /-- The last name is not there, but its directory is. -/
  | missing (place : Place)
  | refused (refusal : SystemRefusal)
deriving DecidableEq

/-- What a piece of a path asks for in a directory. -/
inductive Move where
  | stay
  | up
  | down
  | refused (refusal : SystemRefusal)

/-- Where a look-up gets without following a link. -/
inductive Stretch where
  | ended (lookup : Lookup)
  /-- A link in `directory`, with the pieces of the path behind it. -/
  | linked (directory : Place) (target : Path) (rest : List FileName)

namespace FileTree

def entry? (t : FileTree) (place : Place) : Option Entry :=
  match place with
  | [] => some .directory
  | _ => (t.entries.find? fun e => e.1 == place).map (·.2)

/-- Puts an entry at a place, in place of the one that was there. -/
def put (t : FileTree) (place : Place) (entry : Entry) : FileTree :=
  if t.entries.any fun e => e.1 == place then
    { t with entries := t.entries.map fun e => if e.1 == place then (place, entry) else e }
  else { t with entries := t.entries ++ [(place, entry)] }

/-- Whether the user has a right at a place. -/
def allows (t : FileTree) (place : Place) (right : Right) : Bool :=
  !t.denied.contains (place, right)

/-- The names in a directory, with what they lead to, if the directory may be read. Nothing is
looked up: it need not be searched for this. -/
def children (t : FileTree) (place : Place) : List (FileName × Entry) :=
  if t.allows place .read then
    t.entries.filterMap fun (p, entry) =>
      match p.getLast? with
      | some name => if p.dropLast == place then some (name, entry) else none
      | none => none
  else []

/-- What a piece asks for in the directory at `place`, with `rest` behind it. Every piece needs the
right to search the directory, but for the empty ones between slashes. -/
def move (t : FileTree) (purpose : Purpose) (place : Place) (piece : FileName)
    (rest : List FileName) : Move :=
  if piece.isEmpty then .stay
  -- the right is asked for before the piece is looked at, also for the dots
  else if !t.allows place .search then .refused .permissionDenied
  else if piece = FileName.dot then .stay
  else if piece = FileName.dotDot then .up
  -- with slashes behind it the name would be that of a directory
  else if purpose = .writing ∧ rest ≠ [] ∧ rest.all (·.isEmpty) then .refused .isADirectory
  else if piece.contains '\x00' then .refused .invalidInput
  else if maxNameLength < utf8Length piece then .refused .nameTooLong
  else .down

/-- Follows pieces from a directory up to the first link. -/
def stretch (t : FileTree) (purpose : Purpose) (place : Place) : List FileName → Stretch
  | [] => .ended (.found place)
  | piece :: rest =>
    match t.entry? place with
    | none => .ended (.refused .notFound)
    | some (.file _) | some (.link _) => .ended (.refused .notADirectory)
    | some .directory =>
      match t.move purpose place piece rest with
      | .stay => stretch t purpose place rest
      | .up => stretch t purpose place.dropLast rest
      | .refused refusal => .ended (.refused refusal)
      | .down =>
        match t.entry? (place ++ [piece]) with
        | none => .ended (if rest.isEmpty then .missing (place ++ [piece]) else .refused .notFound)
        | some (.link target) =>
          if rest.isEmpty && purpose = .naming then .ended (.found (place ++ [piece]))
          else .linked place target rest
        | some _ => stretch t purpose (place ++ [piece]) rest

/-- Follows pieces, and at most `links` links on the way. -/
def follow (t : FileTree) (purpose : Purpose) : Nat → Place → List FileName → Lookup
  | 0, place, pieces =>
    match t.stretch purpose place pieces with
    | .ended lookup => lookup
    | .linked .. => .refused .tooManyLinks
  | links + 1, place, pieces =>
    match t.stretch purpose place pieces with
    | .ended lookup => lookup
    | .linked directory target rest =>
      t.follow purpose links (if target.isAbsolute then [] else directory)
        (target.pieces ++ rest)

/-- Looks up a path from the working directory. -/
def lookup (t : FileTree) (purpose : Purpose) (p : Path) : Lookup :=
  if p.chars.isEmpty then .refused .notFound
  else if p.chars.contains '\x00' then .refused .invalidInput
  else if maxPathLength < utf8Length p.chars then .refused .nameTooLong
  else t.follow purpose maxLinks (if p.isAbsolute then [] else t.here) p.pieces

/-- The entry that a path leads to, and its place. -/
def find? (t : FileTree) (p : Path) : Except SystemRefusal (Place × Entry) :=
  match t.lookup .reading p with
  | .found place =>
    match t.entry? place with
    | some entry => .ok (place, entry)
    | none => .error .notFound
  | .missing _ => .error .notFound
  | .refused refusal => .error refusal

def exists? (t : FileTree) (p : Path) : Bool := (t.find? p).isOk

def isFile (t : FileTree) (p : Path) : Bool :=
  match t.find? p with
  | .ok (_, .file _) => true
  | _ => false

/-- The place of the directory that a path leads to. -/
def directory? (t : FileTree) (p : Path) : Option Place :=
  match t.find? p with
  | .ok (place, .directory) => some place
  | _ => none

/-- The text of the file that a path leads to. -/
def readText (t : FileTree) (p : Path) : Except SystemRefusal String :=
  match t.find? p with
  | .ok (place, entry) =>
    if t.allows place .read then
      match entry with
      | .file content =>
        match content.text? with
        | some text => .ok text
        | none => .error .notUtf8
      | _ => .error .isADirectory
    else .error .permissionDenied
  | .error refusal => .error refusal

/-- Opens a file for writing: the one that the path leads to, or a new one in a directory that is
there. Gives its place. -/
def openFile (t : FileTree) (p : Path) : Except SystemRefusal Place :=
  match t.lookup .writing p with
  | .found place =>
    match t.entry? place with
    | some (.file _) => if t.allows place .write then .ok place else .error .permissionDenied
    | _ => .error .isADirectory
  | .missing place =>
    if t.allows place.dropLast .write then .ok place else .error .permissionDenied
  | .refused refusal => .error refusal

/-- Writes to a file that is open. What the file held is gone by then, so on a device that gets full
the file holds the first bytes only. -/
def fill (t : FileTree) (place : Place) (content : Content) : Except WriteFailure FileTree :=
  match t.room with
  | none => .ok (t.put place (.file content))
  | some room =>
    if content.fileBytes.size ≤ room then
      .ok { t.put place (.file content) with room := some (room - content.fileBytes.size) }
    else .error ⟨.noSpace, { t.put place (.file (content.cut room)) with room := some 0 }⟩

/-- Writes a file. -/
def write (t : FileTree) (p : Path) (content : Content) : Except WriteFailure FileTree :=
  match t.openFile p with
  | .ok place => t.fill place content
  | .error refusal => .error ⟨refusal, t⟩

/-- The path without the slashes that end it. -/
def dropSlashes (p : Path) : Path :=
  ⟨match (p.chars.reverse.dropWhile (· == '/')).reverse with
    | [] => p.chars
    | chars => chars⟩

/-- Makes one directory. Its parent must be there, and itself not. The slashes that end the path do
not name anything, but they count for its length. -/
def makeDirectory (t : FileTree) (p : Path) : Except SystemRefusal FileTree :=
  match t.lookup .naming (if maxPathLength < utf8Length p.chars then p else dropSlashes p) with
  | .found _ => .error .alreadyExists
  | .missing place =>
    if t.allows place.dropLast .write then .ok (t.put place .directory)
    else .error .permissionDenied
  | .refused refusal => .error refusal

/-- The outcome of making a directory, where one that is there already is as good as a new one. -/
def ensureDirectory (t : FileTree) (p : Path) : FileTree × Option SystemRefusal :=
  match t.makeDirectory p with
  | .ok t => (t, none)
  | .error refusal => (t, if (t.directory? p).isSome then none else some refusal)

/-- Makes a directory, and first its parents if they are missing; `fuel` bounds the components. What
was made stays when a later one is refused. -/
def makeDirectories : Nat → FileTree → Path → FileTree × Option SystemRefusal
  | 0, t, _ => (t, some .notFound)
  | fuel + 1, t, p =>
    if p.chars.isEmpty then (t, none)
    else
      match t.makeDirectory p, p.parent? with
      -- only a parent that is missing is made first; any other refusal is final
      | .error .notFound, some parent =>
        match makeDirectories fuel t parent with
        | (t, none) => t.ensureDirectory p
        | (t, some refusal) => (t, some refusal)
      | .error .notFound, none => (t, some .notFound)
      | _, _ => t.ensureDirectory p

/-- Makes a directory and every parent it lacks, and tells why it could not. -/
def makeAll (t : FileTree) (p : Path) : FileTree × Option SystemRefusal :=
  makeDirectories (p.components.length + 1) t p

/-! ## Changes -/

/-- Whether the other tree has the same at a place. -/
def hasSame (t : FileTree) (place : Place) (entry : Entry) : Bool :=
  match t.entry? place, entry with
  | some .directory, .directory => true
  | some (.file a), .file b => a.same b
  | some (.link a), .link b => a == b
  | _, _ => false

/-- The entries that are new or different since another tree. -/
def changesSince (t old : FileTree) : List (Place × Entry) :=
  t.entries.filter fun (place, entry) => !old.hasSame place entry

end FileTree

end BlockScript
