import BlockScript.Yaml.Token

namespace BlockScript.Yaml

/-! # From text to tokens

`Lexer.next?` reads one token. In block context indentation is told by tokens of its own: a deeper
column opens a collection, a lesser one closes it. A key is known only by the `:` behind it, so
every token that might begin one is remembered, and `Token.key` goes in front of it afterwards.
-/

/-- A token that may turn out to be a key. -/
structure PossibleKey where
  /-- Tokens in front of it. -/
  before : Nat
  mark : Mark
  /-- Whether nothing else can stand here. -/
  isRequired : Bool
deriving DecidableEq

namespace PossibleKey

/-- Bytes from the start of a key to the `:` at most, if `:` alone marks it. -/
def maxLength : Nat := 1024

/-- Whether reading has got too far: a key ends in the line it begins in. -/
def isStale (k : PossibleKey) (now : Mark) : Bool :=
  k.mark.line < now.line || k.mark.bytes + maxLength < now.bytes

end PossibleKey

structure Lexer where
  cursor : Cursor
  /-- The tokens so far, the last one first. -/
  tokens : List Token := []
  /-- The columns of the open block collections, the innermost first. -/
  columns : List Nat := []
  /-- The possible key of the innermost flow collection, or of the block context. -/
  key : Option PossibleKey := none
  /-- Those around it, one for each flow collection. -/
  outerKeys : List (Option PossibleKey) := []
  keyAllowed : Bool := true
deriving DecidableEq

namespace Lexer

def inFlow (s : Lexer) : Bool := !s.outerKeys.isEmpty

def mark (s : Lexer) : Mark := s.cursor.mark

def emit (s : Lexer) (t : Token) : Lexer := { s with tokens := t :: s.tokens }

/-- Goes over `n` characters and emits the token that they are. -/
def take (s : Lexer) (n : Nat) (t : Token) : Lexer := { s.emit t with cursor := s.cursor.drop n }

/-- Emits a token that was read, and goes on behind it. -/
def accept (s : Lexer) (t : Token) (c : Cursor) : Lexer := { s.emit t with cursor := c }

/-! ## Possible keys -/

/-- Forgets the possible key; no good if one had to stand there. -/
def dropKey? (s : Lexer) : Option Lexer :=
  if s.key.any (·.isRequired) then none else some { s with key := none }

/-- Whether a block collection is open at exactly this column. -/
def isOpenAt (s : Lexer) (column : Nat) : Bool := s.columns.head? == some column

/-- Remembers that a key may begin here. -/
def saveKey? (s : Lexer) : Option Lexer :=
  if s.keyAllowed then
    s.dropKey?.map fun s =>
      { s with key := some ⟨s.tokens.length, s.mark, !s.inFlow && s.isOpenAt s.mark.column⟩ }
  else some s

/-- Forgets the possible keys that reading has got too far from. -/
def dropStaleKeys? (s : Lexer) : Option Lexer :=
  let isLost (k : Option PossibleKey) : Bool := k.any fun k => k.isRequired && k.isStale s.mark
  let fresh (k : Option PossibleKey) : Option PossibleKey := k.filter fun k => !k.isStale s.mark
  if isLost s.key || s.outerKeys.any isLost then none
  else some { s with key := fresh s.key, outerKeys := s.outerKeys.map fresh }

/-! ## Block collections -/

/-- Closes the block collections whose columns are inside. -/
def closeBlocks (s : Lexer) (isInside : Nat → Bool) : Lexer :=
  if s.inFlow then s
  else
    let closed := s.columns.takeWhile isInside
    { s with
      columns := s.columns.drop closed.length
      tokens := List.replicate closed.length .blockEnd ++ s.tokens }

/-- Whether a token in this column opens a block collection. -/
def opensBlock (s : Lexer) (column : Nat) : Bool := !s.inFlow && s.columns.head?.all (· < column)

/-- Opens a block collection here if the column asks for one. -/
def openBlock (s : Lexer) (start : Token) : Lexer :=
  if s.opensBlock s.mark.column then
    { s.emit start with columns := s.mark.column :: s.columns }
  else s

/-! ## Between tokens -/

/-- Goes over white space and comments. A new line in block context may begin with a key, and in
any context with a byte order mark, which takes up a column. Spaces indent; a tab may only stand
where no key may. -/
def skipBlanks (inFlow : Bool) : Bool → Bool → Mark → List Char → Bool × Cursor
  | keyAllowed, _, mark, [] => (keyAllowed, ⟨mark, []⟩)
  | keyAllowed, inComment, mark, c :: rest =>
    if isBreak c then skipBlanks inFlow (keyAllowed || !inFlow) false mark.nextLine rest
    else if inComment || c == '#' then skipBlanks inFlow keyAllowed true (mark.after [c]) rest
    else if c == ' ' || (c == '\t' && (inFlow || !keyAllowed)) ||
        (c == byteOrderMark && mark.column == 0) then
      skipBlanks inFlow keyAllowed false (mark.after [c]) rest
    else (keyAllowed, ⟨mark, c :: rest⟩)

/-- Goes over white space and comments to the next token. -/
def skipToToken (s : Lexer) : Lexer :=
  let (keyAllowed, cursor) := skipBlanks s.inFlow s.keyAllowed false s.mark s.cursor.rest
  { s with keyAllowed, cursor }

/-! ## The tokens -/

/-- A directive, or the start or end of a document: everything open is closed before it. -/
def closeAll? (s : Lexer) : Option Lexer :=
  (s.closeBlocks fun _ => true).dropKey?.map fun s => { s with keyAllowed := false }

def flowStart? (s : Lexer) (t : Token) : Option Lexer :=
  s.saveKey?.map fun s =>
    { s.take 1 t with key := none, outerKeys := s.key :: s.outerKeys, keyAllowed := true }

def flowEnd? (s : Lexer) (t : Token) : Option Lexer :=
  s.dropKey?.map fun s =>
    let s := match s.outerKeys with
      | [] => s
      | key :: outerKeys => { s with key, outerKeys }
    { s.take 1 t with keyAllowed := false }

def flowEntry? (s : Lexer) : Option Lexer :=
  s.dropKey?.map fun s => { s.take 1 .flowEntry with keyAllowed := true }

def blockEntry? (s : Lexer) : Option Lexer :=
  if !s.inFlow && !s.keyAllowed then none
  else (s.openBlock .sequenceStart).dropKey?.map fun s =>
    { s.take 1 .blockEntry with keyAllowed := true }

/-- A key that `?` marks. -/
def markedKey? (s : Lexer) : Option Lexer :=
  if !s.inFlow && !s.keyAllowed then none
  else (s.openBlock .mappingStart).dropKey?.map fun s =>
    { s.take 1 .key with keyAllowed := !s.inFlow }

/-- Puts `Token.key` in front of the token that turned out to be one, and before that the start of
a block mapping if the key opens it. -/
def insertKey (s : Lexer) (k : PossibleKey) : Lexer :=
  let newer := s.tokens.take (s.tokens.length - k.before)
  let older := s.tokens.drop (s.tokens.length - k.before)
  if s.opensBlock k.mark.column then
    { s with
      tokens := newer ++ .key :: .mappingStart :: older
      columns := k.mark.column :: s.columns }
  else { s with tokens := newer ++ .key :: older }

def value? (s : Lexer) : Option Lexer :=
  match s.key with
  | some k => some { (s.insertKey k).take 1 .value with key := none, keyAllowed := false }
  | none =>
    if !s.inFlow && !s.keyAllowed then none
    else some { (s.openBlock .mappingStart).take 1 .value with keyAllowed := !s.inFlow }

/-- The token that `read` reads. A key may begin with it, but not behind it. -/
def label? (s : Lexer) (read : Cursor → Option (Token × Cursor)) : Option Lexer := do
  let s ← s.saveKey?
  let (token, cursor) ← read s.cursor
  return { s.accept token cursor with keyAllowed := false }

def alias? (s : Lexer) : Option Lexer :=
  s.label? fun c => (anchorName? (c.drop 1)).map fun (name, c) => (.alias name, c)

def anchor? (s : Lexer) : Option Lexer :=
  s.label? fun c => (anchorName? (c.drop 1)).map fun (name, c) => (.anchor name, c)

def tag? (s : Lexer) : Option Lexer :=
  s.label? fun c => (writtenTag? s.inFlow c).map fun (tag, c) => (.tag tag, c)

def quoted? (s : Lexer) (double : Bool) : Option Lexer :=
  s.label? fun c =>
    (QuotedScalar.read? double {} (c.drop 1).mark (c.drop 1).rest).map fun read =>
      (.scalar (if double then .doubleQuoted else .singleQuoted) read.text, read.cursor)

def block? (s : Lexer) (folded : Bool) : Option Lexer := do
  let s ← s.dropKey?
  let read ← BlockScalar.read? folded s.columns.head? (s.cursor.drop 1)
  let token := .scalar (if folded then .folded else .literal) read.text
  return { s.accept token read.cursor with keyAllowed := true }

/-- The column that the lines of a plain scalar are indented to. -/
def plainIndent (s : Lexer) : Nat :=
  match s.columns with
  | [] => 0
  | column :: _ => column + 1

def plain? (s : Lexer) : Option Lexer := do
  let s ← s.saveKey?
  let read ← PlainScalar.read? s.inFlow s.plainIndent {} s.mark s.cursor.rest
  return { s.accept (.scalar .plain read.text) read.cursor with keyAllowed := read.endsLine }

/-- Whether a plain scalar may begin with `c` before `rest`. -/
def startsPlain (inFlow : Bool) (c : Char) (rest : List Char) : Bool :=
  (!isIndicator c && !isSpacing c) || (c == '-' && !rest.head?.any isSpacing) ||
    (!inFlow && (c == '?' || c == ':') && !endsWord rest)

/-- The token that begins with `c`. -/
def token? (s : Lexer) (c : Char) (rest : List Char) : Option Lexer :=
  let atStart := s.mark.column == 0
  let isMarker := s.inFlow || endsWord rest
  if atStart && c == '%' then
    s.closeAll?.bind fun s => (directive? s.cursor).map fun (token, cursor) => s.accept token cursor
  else if atStart && isTripled '-' (c :: rest) then s.closeAll?.map (·.take 3 .documentStart)
  else if atStart && isTripled '.' (c :: rest) then s.closeAll?.map (·.take 3 .documentEnd)
  else if c == '[' then s.flowStart? .flowSequenceStart
  else if c == '\x7b' then s.flowStart? .flowMappingStart
  else if c == ']' then s.flowEnd? .flowSequenceEnd
  else if c == '\x7d' then s.flowEnd? .flowMappingEnd
  else if c == ',' then s.flowEntry?
  else if c == '-' && endsWord rest then s.blockEntry?
  else if c == '?' && isMarker then s.markedKey?
  else if c == ':' && isMarker then s.value?
  else if c == '*' then s.alias?
  else if c == '&' then s.anchor?
  else if c == '!' then s.tag?
  else if c == '|' && !s.inFlow then s.block? false
  else if c == '>' && !s.inFlow then s.block? true
  else if c == '\'' then s.quoted? false
  else if c == '"' then s.quoted? true
  else if startsPlain s.inFlow c rest then s.plain?
  else none

/-- Reads all tokens from here on. -/
def run? : Nat → Lexer → Option (List Token)
  | 0, _ => none
  | fuel + 1, s => do
    let s ← s.skipToToken.dropStaleKeys?
    match s.cursor.rest with
    | [] => (← s.closeAll?).tokens.reverse
    | c :: rest => run? fuel (← (s.closeBlocks (s.mark.column < ·)).token? c rest)

end Lexer

/-- The tokens of a text. -/
def tokens? (text : List Char) : Option (List Token) :=
  if text.all isAllowed then
    let text := unifyBreaks text
    Lexer.run? (text.length + 1) { cursor := { rest := text } }
  else none

end BlockScript.Yaml
