import BlockScript.Yaml.Lexer
import BlockScript.Yaml.Node

namespace BlockScript.Yaml

/-! # Documents

Nodes are built from tokens by the grammar of YAML, one function for each kind of collection. Where
the grammar leaves a node out, `Node.nothing` stands. A text holds one document at most.
-/

/-- What the directives of a document say. -/
structure Directives where
  version : Option (Nat × Nat) := none
  handles : List (List Char × Octets) := []

namespace Directives

/-- Handles that mean something without a directive. -/
def standardHandles : List (List Char × Octets) :=
  [(['!'], loneTag), (['!', '!'], coreTag)]

/-- The tag in full, if its handle is known. -/
def complete? (d : Directives) (tag : WrittenTag) : Option Octets :=
  if tag.handle.isEmpty then some tag.suffix
  else ((d.handles ++ standardHandles).lookup tag.handle).map (· ++ tag.suffix)

/-- Reads the directives at the start. None may be given twice, and the version is 1.1 or 1.2. -/
def read? (d : Directives) : List Token → Option (Directives × List Token)
  | .version major minor :: rest =>
    if d.version.isSome || major != 1 || (minor != 1 && minor != 2) then none
    else read? { d with version := some (major, minor) } rest
  | .tagHandle handle start :: rest =>
    if (d.handles.lookup handle).isSome then none
    else read? { d with handles := (handle, start) :: d.handles } rest
  | tokens => some (d, tokens)

end Directives

/-- The labels in front of a node. -/
structure Labels where
  anchor : Option (List Char) := none
  tag : Option WrittenTag := none

namespace Labels

/-- Reads an anchor and a tag, in either order. -/
def read : List Token → Labels × List Token
  | .anchor name :: .tag tag :: rest => (⟨some name, some tag⟩, rest)
  | .tag tag :: .anchor name :: rest => (⟨some name, some tag⟩, rest)
  | .anchor name :: rest => (⟨some name, none⟩, rest)
  | .tag tag :: rest => (⟨none, some tag⟩, rest)
  | tokens => ({}, tokens)

def isEmpty (l : Labels) : Bool := l.anchor.isNone && l.tag.isNone

/-- The tag in full, if there is one; fails when its handle is unknown. -/
def fullTag? (l : Labels) (d : Directives) : Option (Option Octets) :=
  match l.tag with
  | none => some none
  | some tag => (d.complete? tag).map some

end Labels

/-- Where a node stands. -/
structure Place where
  /-- Whether it may be a block collection. -/
  block : Bool
  /-- Whether it may be a sequence that is not indented. -/
  entries : Bool

namespace Place

def inFlow : Place := ⟨false, false⟩

def inBlock : Place := ⟨true, false⟩

/-- The keys and values of block mappings. -/
def inMapping : Place := ⟨true, true⟩

end Place

/-- What is left to read, and the anchors so far. -/
structure Reading where
  tokens : List Token
  anchors : Anchors := {}

namespace Reading

/-- The same with other tokens. -/
def goTo (r : Reading) (tokens : List Token) : Reading := { r with tokens }

/-- Whether the next token is one of these; the end counts as none. -/
def isAt (r : Reading) (tokens : List Token) : Bool := r.tokens.head?.any tokens.contains

/-- The tokens from the next item of a flow collection on, or from `close`. A comma stands before
every item but the first, and may stand before `close`. -/
def atItem? (first : Bool) (close : Token) (tokens : List Token) : Option (List Token) :=
  if first || tokens.head? == some close then some tokens
  else
    match tokens with
    | .flowEntry :: rest => some rest
    | _ => none

end Reading

/-! ## The grammar -/

/-- The items as a node. -/
def sequenceOf (read : List Node × Reading) : Node × Reading := (.sequence read.1, read.2)

/-- The entries as a node. -/
def mappingOf (read : List (Node × Node) × Reading) : Node × Reading := (.mapping read.1, read.2)

/-- A node that is not written. It may be left out only behind a label. -/
def leftOut? (labels : Labels) (tag : Option Octets) (r : Reading) : Option (Node × Reading) :=
  if labels.isEmpty then none else some (.scalar ⟨.plain, tag, []⟩, r)

section Grammar

variable (directives : Directives)

mutual

/-- A node with its labels. -/
def node? (place : Place) : Nat → Reading → Option (Node × Reading)
  | 0, _ => none
  | fuel + 1, r =>
    match r.tokens with
    | .alias name :: rest => do
      let number ← r.anchors.number? name
      return (.alias number, r.goTo rest)
    | _ => do
      let (labels, rest) := Labels.read r.tokens
      let tag ← labels.fullTag? directives
      match labels.anchor with
      | none => content? place labels tag fuel (r.goTo rest)
      | some name =>
        let (node, after) ← content? place labels tag fuel ⟨rest, r.anchors.start name⟩
        return (node, { after with anchors := after.anchors.finish r.anchors.begun.length node })

/-- A node without its labels. -/
def content? (place : Place) (labels : Labels) (tag : Option Octets) :
    Nat → Reading → Option (Node × Reading)
  | 0, _ => none
  | fuel + 1, r =>
    match r.tokens with
    | .scalar style text :: rest => some (.scalar ⟨style, tag, text⟩, r.goTo rest)
    | .flowSequenceStart :: rest => (flowItems? true fuel (r.goTo rest)).map sequenceOf
    | .flowMappingStart :: rest => (flowEntries? true fuel (r.goTo rest)).map mappingOf
    | .blockEntry :: _ =>
      if place.entries then (openItems? fuel r).map sequenceOf else leftOut? labels tag r
    | .sequenceStart :: rest =>
      if place.block then (items? fuel (r.goTo rest)).map sequenceOf else leftOut? labels tag r
    | .mappingStart :: rest =>
      if place.block then (entries? fuel (r.goTo rest)).map mappingOf else leftOut? labels tag r
    | _ => leftOut? labels tag r

/-- A node, or nothing in front of one of the tokens `ends`. -/
def nodeBefore? (place : Place) (ends : List Token) : Nat → Reading → Option (Node × Reading)
  | 0, _ => none
  | fuel + 1, r => if r.isAt ends then some (.nothing, r) else node? place fuel r

/-- The items of an indented block sequence. -/
def items? : Nat → Reading → Option (List Node × Reading)
  | 0, _ => none
  | fuel + 1, r =>
    match r.tokens with
    | .blockEntry :: rest => do
      let (item, r) ← nodeBefore? .inBlock [.blockEntry, .blockEnd] fuel (r.goTo rest)
      let (items, r) ← items? fuel r
      return (item :: items, r)
    | .blockEnd :: rest => some ([], r.goTo rest)
    | _ => none

/-- The items of a block sequence that is a value and not indented. -/
def openItems? : Nat → Reading → Option (List Node × Reading)
  | 0, _ => none
  | fuel + 1, r =>
    match r.tokens with
    | .blockEntry :: rest => do
      let ends := [.blockEntry, .key, .value, .blockEnd]
      let (item, r) ← nodeBefore? .inBlock ends fuel (r.goTo rest)
      let (items, r) ← openItems? fuel r
      return (item :: items, r)
    | _ => some ([], r)

/-- The entries of a block mapping. -/
def entries? : Nat → Reading → Option (List (Node × Node) × Reading)
  | 0, _ => none
  | fuel + 1, r =>
    match r.tokens with
    | .key :: rest => do
      let ends := [.key, .value, .blockEnd]
      let (key, r) ← nodeBefore? .inMapping ends fuel (r.goTo rest)
      let (value, r) ← valueBefore? .inMapping ends fuel r
      let (entries, r) ← entries? fuel r
      return ((key, value) :: entries, r)
    | .blockEnd :: rest => some ([], r.goTo rest)
    | _ => none

/-- The value of an entry, or nothing if none is given. -/
def valueBefore? (place : Place) (ends : List Token) : Nat → Reading → Option (Node × Reading)
  | 0, _ => none
  | fuel + 1, r =>
    match r.tokens with
    | .value :: rest => nodeBefore? place ends fuel (r.goTo rest)
    | _ => some (.nothing, r)

/-- The items of a flow sequence; a comma stands before every one but the first. An item with a key
is a mapping of one entry. -/
def flowItems? (first : Bool) : Nat → Reading → Option (List Node × Reading)
  | 0, _ => none
  | fuel + 1, r => do
    match ← Reading.atItem? first .flowSequenceEnd r.tokens with
    | .flowSequenceEnd :: rest => return ([], r.goTo rest)
    | .key :: rest =>
      let (entry, r) ← flowPair? fuel (r.goTo rest)
      let (items, r) ← flowItems? false fuel r
      return (.mapping [entry] :: items, r)
    | tokens =>
      let (item, r) ← node? .inFlow fuel (r.goTo tokens)
      let (items, r) ← flowItems? false fuel r
      return (item :: items, r)

/-- An entry that is an item of a flow sequence. Where its key is left out, the token behind is
too. -/
def flowPair? : Nat → Reading → Option ((Node × Node) × Reading)
  | 0, _ => none
  | fuel + 1, r => do
    let (key, r) ←
      if r.isAt [.value, .flowEntry, .flowSequenceEnd] then
        some (.nothing, r.goTo r.tokens.tail)
      else node? .inFlow fuel r
    let (value, r) ← valueBefore? .inFlow [.flowEntry, .flowSequenceEnd] fuel r
    return ((key, value), r)

/-- The entries of a flow mapping; a comma stands before every one but the first. -/
def flowEntries? (first : Bool) : Nat → Reading → Option (List (Node × Node) × Reading)
  | 0, _ => none
  | fuel + 1, r => do
    match ← Reading.atItem? first .flowMappingEnd r.tokens with
    | .flowMappingEnd :: rest => return ([], r.goTo rest)
    | .key :: rest =>
      let (key, r) ← nodeBefore? .inFlow [.value, .flowEntry, .flowMappingEnd] fuel (r.goTo rest)
      let (value, r) ← valueBefore? .inFlow [.flowEntry, .flowMappingEnd] fuel r
      let (entries, r) ← flowEntries? false fuel r
      return ((key, value) :: entries, r)
    | tokens =>
      let (key, r) ← node? .inFlow fuel (r.goTo tokens)
      let (entries, r) ← flowEntries? false fuel r
      return ((key, .nothing) :: entries, r)

end

end Grammar

namespace Document

/-- Steps that suffice for a list of tokens: no more than three functions call each other before
one of them takes a token. -/
def fuel (tokens : List Token) : Nat := 4 * tokens.length + 8

/-- Whether nothing but marks of the document's end is left. -/
def isOver (tokens : List Token) : Bool := tokens.all (· == .documentEnd)

/-- What stands in front of the content of a document: the directives, and whether the content may
be left out, as it may behind `---` and in an empty text. Directives need a `---` behind them. -/
def preface? (tokens : List Token) : Option (Directives × Bool × List Token) :=
  match Directives.read? {} tokens with
  | some (directives, .documentStart :: rest) => some (directives, true, rest)
  | some (directives, rest) =>
    if rest = tokens then some (directives, tokens.isEmpty, tokens) else none
  | none => none

/-- The document that the tokens make. -/
def ofTokens? (tokens : List Token) : Option Document := do
  let (directives, isOptional, body) ← preface? tokens
  if isOptional && isOver body then return { root := .nothing }
  let (root, r) ← node? directives .inBlock (fuel body) { tokens := body }
  if isOver r.tokens then return { root, anchors := r.anchors } else none

/-- Reads a text of one document at most. -/
def parse? (text : List Char) : Option Document := (tokens? text).bind ofTokens?

end Document

end BlockScript.Yaml
