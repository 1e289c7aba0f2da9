import BlockScript.Text.Basic

namespace BlockScript

/-! # Paths

A path keeps the text it was given, and means its components: empty pieces are skipped, and so is
every `.` but one that begins a relative path. Two paths with the same components name the same
file; `Path.compare` orders paths by their components.
-/

/-- One name in a path. Names are texts: files whose names are not UTF-8 are left out. -/
abbrev FileName := List Char

namespace FileName

def dot : FileName := ['.']

def dotDot : FileName := ['.', '.']

/-- The name without its extension, and the extension. The dot that separates them is the last one
and not the first character. -/
def splitExtension (name : FileName) : FileName × Option FileName :=
  if name = dotDot then (name, none)
  else
    let reversed := name.reverse
    let after := reversed.takeWhile (· != '.')
    match reversed.drop after.length with
    | [] => (name, none)
    | _ :: before => if before.isEmpty then (name, none) else (before.reverse, some after.reverse)

end FileName

/-- What a piece of a path means. -/
inductive Component where
  | root
  | current
  | parent
  | named (name : FileName)
deriving DecidableEq, Repr

namespace Component

/-- Components of different kinds stand in the order of this number. -/
def rank : Component → Nat
  | root => 0
  | current => 1
  | parent => 2
  | named _ => 3

/-- Order of components; names go by their characters. -/
def compare : Component → Component → Ordering
  | named a, named b => compareOfLessAndEq a b
  | a, b => Ord.compare a.rank b.rank

end Component

structure Path where
  chars : List Char
deriving DecidableEq, Repr, Inhabited

namespace Path

def ofString (s : String) : Path := ⟨s.toList⟩

def text (p : Path) : String := String.ofList p.chars

def isAbsolute (p : Path) : Bool := p.chars.head? == some '/'

/-- The pieces between the slashes. -/
def pieces (p : Path) : List FileName := p.chars.splitOn '/'

/-- Whether a piece, not counting a first one, stands for nothing. -/
def isIdle (piece : FileName) : Bool := piece.isEmpty || piece == FileName.dot

/-- The component of a piece that is not idle. -/
def pieceComponent (piece : FileName) : Component :=
  if piece = FileName.dotDot then .parent else .named piece

def components (p : Path) : List Component :=
  let lead := if p.isAbsolute then [Component.root]
    else if p.pieces.head? == some FileName.dot then [.current]
    else []
  lead ++ (p.pieces.filter fun piece => !isIdle piece).map pieceComponent

/-- Lexicographic order of component lists. -/
def compareComponents : List Component → List Component → Ordering
  | [], [] => .eq
  | [], _ :: _ => .lt
  | _ :: _, [] => .gt
  | a :: as, b :: bs => (a.compare b).then (compareComponents as bs)

def compare (p q : Path) : Ordering := compareComponents p.components q.components

/-- Whether `p` comes before `q` or has the same components. -/
def le (p q : Path) : Bool := p.compare q != .gt

/-- Whether the two paths have the same components. -/
def same (p q : Path) : Bool := p.components == q.components

/-- `q` as seen from `p`: an absolute path stays, any other is put behind a slash. -/
def join (p q : Path) : Path :=
  if q.isAbsolute || p.chars.isEmpty then q
  else if p.chars.getLast? == some '/' then ⟨p.chars ++ q.chars⟩
  else ⟨p.chars ++ '/' :: q.chars⟩

/-- The last component, if it is a name. -/
def fileName? (p : Path) : Option FileName :=
  match p.components.getLast? with
  | some (.named name) => some name
  | _ => none

/-- The file name without its extension. -/
def stem? (p : Path) : Option FileName := p.fileName?.map fun name => name.splitExtension.1

def extension? (p : Path) : Option FileName := p.fileName?.bind fun name => name.splitExtension.2

/-- The pieces without the idle ones that end them. -/
def dropIdleEnd (pieces : List FileName) : List FileName :=
  (pieces.reverse.dropWhile isIdle).reverse

/-- The path without its last component; nothing for a path that is empty or only the root. -/
def parent? (p : Path) : Option Path :=
  match p.components with
  | [] | [.root] => none
  | [.root, _] => some ⟨['/']⟩
  | [_] => some ⟨[]⟩
  | [.current, _] => some ⟨FileName.dot⟩
  | _ => some ⟨joinWith '/' (dropIdleEnd (dropIdleEnd p.pieces).dropLast)⟩

/-- The pieces that remain behind the given names, if these come first. -/
def behind? : List FileName → List FileName → Option (List FileName)
  | [], pieces => some pieces
  | _ :: _, [] => none
  | name :: names, piece :: pieces =>
    if isIdle piece then behind? (name :: names) pieces
    else if piece = name then behind? names pieces
    else none

/-- The path as seen from the absolute directory `here`, when its components begin with those of
`here`: `.` for the directory itself. Any other path is given as it is. -/
def displayFrom (p here : Path) : String :=
  let names := here.pieces.filter fun piece => !isIdle piece
  match if p.isAbsolute then behind? names p.pieces else none with
  | none => p.text
  | some rest =>
    match dropIdleEnd (rest.dropWhile isIdle) with
    | [] => "."
    | pieces => String.ofList (joinWith '/' pieces)

end Path

end BlockScript
