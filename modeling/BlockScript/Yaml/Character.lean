import BlockScript.Text.Basic

namespace BlockScript.Yaml

/-! # Characters of YAML

The classes that the rules of YAML are written in. Line breaks come in five spellings; a text is
brought to three of them (line feed, line separator and paragraph separator) before it is read.
-/

/-- Whether a text may hold the character at all. -/
def isAllowed (c : Char) : Bool :=
  let n := c.toNat
  n == 0x09 || n == 0x0A || n == 0x0D || (0x20 ≤ n && n ≤ 0x7E) || n == 0x85 ||
    (0xA0 ≤ n && n ≤ 0xFFFD) || 0x10000 ≤ n

/-- The mark that may stand before the first character of a line, and means nothing there. -/
def byteOrderMark : Char := '\uFEFF'

/-- The text with every line break that means a line feed written as one. -/
def unifyBreaks : List Char → List Char
  | [] => []
  | '\r' :: rest =>
    match rest with
    | '\n' :: _ => unifyBreaks rest
    | _ => '\n' :: unifyBreaks rest
  | c :: rest => (if c == '\u0085' then '\n' else c) :: unifyBreaks rest

/-- Whether the character breaks the line. -/
def isBreak (c : Char) : Bool := c == '\n' || c == '\u2028' || c == '\u2029'

/-- Whether the character is a space or a tab. -/
def isSpacing (c : Char) : Bool := c == ' ' || c == '\t'

/-- Whether the text ends here, or goes on with spacing or a line break. -/
def endsWord : List Char → Bool
  | [] => true
  | c :: _ => isSpacing c || isBreak c

/-- Whether the character may stand in the name of an anchor, a tag handle or a directive. -/
def isNameChar (c : Char) : Bool := c.isAlphanum || c == '_' || c == '-'

/-- Whether the character may stand in a tag. Brackets and commas may only between `<` and `>`. -/
def isTagChar (verbatim : Bool) (c : Char) : Bool :=
  isNameChar c || ";/?:@&=+$.%!~*'()".toList.contains c || (verbatim && ",[]".toList.contains c)

/-- Whether the character ends a plain scalar in a flow collection. -/
def isFlowIndicator (c : Char) : Bool := ",[]\x7b\x7d".toList.contains c

/-- Whether the character means something of its own at the start of a token. -/
def isIndicator (c : Char) : Bool := "-?:,[]\x7b\x7d#&*!|>'\"%@\x60".toList.contains c

/-- Whether the text begins with three of these characters and a word end. -/
def isTripled (c : Char) : List Char → Bool
  | a :: b :: d :: rest => a == c && b == c && d == c && endsWord rest
  | _ => false

/-- Whether the text begins with `---` or `...` and a word end. -/
def isDocumentMark (cs : List Char) : Bool := isTripled '-' cs || isTripled '.' cs

/-- The number that exactly `n` hexadecimal digits at the start of the text write. -/
def hexNumber? (n : Nat) (cs : List Char) : Option Nat :=
  if cs.length < n then none else numberIn? 16 (cs.take n)

end BlockScript.Yaml
