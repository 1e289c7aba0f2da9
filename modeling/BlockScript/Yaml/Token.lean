import BlockScript.Yaml.Scalar

namespace BlockScript.Yaml

/-! # Tokens

What the text of a YAML stream consists of, and reading the tokens that need no more than the text
they stand in: labels of nodes, and directives. The end of the stream is the end of the token list.
-/

/-- Text of a tag. The octets that it writes with `%` need not be the octets of characters. -/
abbrev Octets := List UInt8

/-- How a tag is written: a handle, which stands for what a directive says, and the rest. A tag
without a handle is complete. -/
structure WrittenTag where
  handle : List Char
  suffix : Octets
deriving DecidableEq

inductive Token where
  | version (major minor : Nat)
  | tagHandle (handle : List Char) (start : Octets)
  | documentStart
  | documentEnd
  | sequenceStart
  | mappingStart
  | blockEnd
  | flowSequenceStart
  | flowSequenceEnd
  | flowMappingStart
  | flowMappingEnd
  | blockEntry
  | flowEntry
  | key
  | value
  | alias (name : List Char)
  | anchor (name : List Char)
  | tag (written : WrittenTag)
  | scalar (style : ScalarStyle) (text : List Char)
deriving DecidableEq

/-! ## Anchors and aliases -/

/-- Whether a name may end here. -/
def endsName (cs : List Char) : Bool :=
  endsWord cs || cs.head?.any fun c => "?:,]\x7d%@\x60".toList.contains c

/-- Reads the name of an anchor or an alias behind its sign. -/
def anchorName? (c : Cursor) : Option (List Char × Cursor) :=
  let name := c.lineWhile isNameChar
  let c := c.drop name.length
  if name.isEmpty || !endsName c.rest then none else some (name, c)

/-! ## Tags -/

/-- The octet that `%` and two digits write. -/
def octet? : List Char → Option Nat
  | '%' :: rest => hexNumber? 2 rest
  | _ => none

/-- How many octets a character takes that begins with this one; nothing if none does. -/
def octetsOf (first : Nat) : Option Nat :=
  if first < 0x80 then some 1
  else if 0xC0 ≤ first ∧ first < 0xE0 then some 2
  else if 0xE0 ≤ first ∧ first < 0xF0 then some 3
  else if 0xF0 ≤ first ∧ first < 0xF8 then some 4
  else none

/-- The `n` octets at the start of the text, if all may stand behind the first of a character. -/
def furtherOctets? : Nat → List Char → Option Octets
  | 0, _ => some []
  | n + 1, cs => do
    let octet ← octet? cs
    if 0x80 ≤ octet ∧ octet < 0xC0 then
      let octets ← furtherOctets? n (cs.drop 3)
      return octet.toUInt8 :: octets
    else none

/-- The octets at the start of the text that have the shape of one character. -/
def octets? (cs : List Char) : Option Octets := do
  let first ← octet? cs
  let n ← octetsOf first
  let further ← furtherOctets? (n - 1) (cs.drop 3)
  return first.toUInt8 :: further

/-- Text of a tag, and the cursor behind it. -/
def tagText? (verbatim : Bool) (mark : Mark) (cs : List Char) : Option (Octets × Cursor) :=
  match cs with
  | [] => some ([], ⟨mark, []⟩)
  | c :: rest =>
    if c == '%' then do
      let octets ← octets? (c :: rest)
      let n := 3 * octets.length
      let (text, cursor) ← tagText? verbatim (mark.after ((c :: rest).take n)) (rest.drop (n - 1))
      return (octets ++ text, cursor)
    else if isTagChar verbatim c then do
      let (text, cursor) ← tagText? verbatim (mark.after [c]) rest
      return (c.toUInt8 :: text, cursor)
    else some ([], ⟨mark, c :: rest⟩)
termination_by cs.length
decreasing_by all_goals simp only [List.length_cons, List.length_drop]; omega

/-- The octets of an ASCII text. -/
def asciiOctets (text : List Char) : Octets := text.map Char.toUInt8

/-- What the tags that every reader knows begin with. -/
def coreTag : Octets := asciiOctets "tag:yaml.org,2002:".toList

/-- The tag of whole numbers. -/
def intTag : Octets := coreTag ++ asciiOctets "int".toList

/-- The tag that a lone `!` is. -/
def loneTag : Octets := asciiOctets ['!']

/-- The text as far as it counts: a zero octet ends it. -/
def upToZero (text : Octets) : Octets := text.takeWhile (· != 0)

/-- The `!`, the name and the `!` that ends it, as far as they are there. -/
def tagHandle (c : Cursor) : List Char × Cursor :=
  let name := (c.drop 1).lineWhile isNameChar
  let c := c.drop (name.length + 1)
  if c.rest.head? == some '!' then ('!' :: name ++ ['!'], c.drop 1) else ('!' :: name, c)

/-- Reads a tag between `<` and `>`. -/
def verbatimTag? (c : Cursor) : Option (WrittenTag × Cursor) := do
  let (uri, c) ← tagText? true (c.drop 2).mark (c.drop 2).rest
  if uri.isEmpty || c.rest.head? != some '>' then none else return (⟨[], upToZero uri⟩, c.drop 1)

/-- Reads a tag that may have a handle. A lone `!` is a tag of its own. -/
def shorthandTag? (c : Cursor) : Option (WrittenTag × Cursor) := do
  let (handle, c) := tagHandle c
  let (suffix, c) ← tagText? false c.mark c.rest
  if 1 < handle.length && handle.getLast? == some '!' then
    if suffix.isEmpty then none else return (⟨handle, upToZero suffix⟩, c)
  else
    match upToZero (asciiOctets (handle.drop 1) ++ suffix) with
    | [] => return (⟨[], loneTag⟩, c)
    | text => return (⟨['!'], text⟩, c)

/-- Reads a tag. Behind it stands white space, or in a flow collection a comma. -/
def writtenTag? (flow : Bool) (c : Cursor) : Option (WrittenTag × Cursor) := do
  let (tag, c) ← if c.rest[1]? == some '<' then verbatimTag? c else shorthandTag? c
  if endsWord c.rest || (flow && c.rest.head? == some ',') then return (tag, c) else none

/-! ## Directives -/

/-- Reads a number of one to nine digits. -/
def shortNumber? (c : Cursor) : Option (Nat × Cursor) :=
  let digits := c.lineWhile Char.isDigit
  if digits.isEmpty || 9 < digits.length then none
  else some ((digits.foldl fun n d => n * 10 + (d.toNat - '0'.toNat)) 0, c.drop digits.length)

/-- Reads the version that a directive asks for. -/
def version? (c : Cursor) : Option (Token × Cursor) := do
  let (major, c) ← shortNumber? c.skipSpacing
  if c.rest.head? != some '.' then none
  else
    let (minor, c) ← shortNumber? (c.drop 1)
    return (.version major minor, c)

/-- Reads a tag handle and what it stands for. -/
def handleMeaning? (c : Cursor) : Option (Token × Cursor) := do
  let c := c.skipSpacing
  if c.rest.head? != some '!' then none
  else
    let (handle, c) := tagHandle c
    if handle != ['!'] && handle.getLast? != some '!' then none
    else if !c.rest.head?.any isSpacing then none
    else
      let (start, c) ← tagText? true c.skipSpacing.mark c.skipSpacing.rest
      if start.isEmpty || !endsWord c.rest then none
      else return (.tagHandle handle (upToZero start), c)

/-- Reads a directive to the end of its line. -/
def directive? (c : Cursor) : Option (Token × Cursor) := do
  let name := (c.drop 1).lineWhile isNameChar
  let c := c.drop (name.length + 1)
  if !endsWord c.rest then none
  else
    let (token, c) ←
      if name = "YAML".toList then version? c
      else if name = "TAG".toList then handleMeaning? c
      else none
    let c := c.skipSpacing.skipComment
    if c.atLineEnd then return (token, c.skipBreak) else none

end BlockScript.Yaml
