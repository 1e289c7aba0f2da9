import BlockScript.Yaml.Cursor

namespace BlockScript.Yaml

/-! # Scalars

Reading the five ways to write a scalar. Plain and quoted scalars go over line ends, where the
white space is folded: a single break becomes a space, and of more the first is dropped.
-/

inductive ScalarStyle where
  | plain
  | singleQuoted
  | doubleQuoted
  | literal
  | folded
deriving DecidableEq, Repr

/-! ## White space inside a scalar -/

/-- White space between two words. Spacing around a break is not kept. -/
structure Gap where
  spacing : List Char := []
  breaks : List Char := []
  /-- Whether the gap began with an escaped break, which stands for nothing. -/
  escaped : Bool := false
deriving DecidableEq

namespace Gap

def hasBreaks (g : Gap) : Bool := !g.breaks.isEmpty

def isEmpty (g : Gap) : Bool := g.spacing.isEmpty && g.breaks.isEmpty && !g.escaped

def addSpacing (g : Gap) (c : Char) : Gap :=
  if g.hasBreaks || g.escaped then g else { g with spacing := g.spacing ++ [c] }

def addBreak (g : Gap) (c : Char) : Gap := { g with spacing := [], breaks := g.breaks ++ [c] }

/-- What the gap stands for. -/
def text (g : Gap) : List Char :=
  if g.escaped then g.breaks
  else
    match g.breaks with
    | [] => g.spacing
    | ['\n'] => [' ']
    | '\n' :: more => more
    | breaks => breaks

end Gap

/-! ## Plain scalars -/

/-- A plain scalar that was read. -/
structure PlainScalar where
  text : List Char
  /-- Whether a line break follows it directly, apart from spacing. -/
  endsLine : Bool
  cursor : Cursor

namespace PlainScalar

def push (front : List Char) (s : PlainScalar) : PlainScalar := { s with text := front ++ s.text }

/-- Whether a plain scalar ends before the character `c`, which stands at `mark` behind `gap`. In
block context the lines of the scalar begin at column `indent` or later. -/
def endsBefore (flow : Bool) (indent : Nat) (gap : Gap) (mark : Mark) (c : Char)
    (rest : List Char) : Bool :=
  (!gap.isEmpty &&
    ((!flow && mark.column < indent) || (mark.column == 0 && isDocumentMark (c :: rest)) ||
      c == '#')) ||
    (c == ':' && endsWord rest) || (flow && isFlowIndicator c)

/-- Reads a plain scalar, `gap` being the white space just before. -/
def read? (flow : Bool) (indent : Nat) : Gap → Mark → List Char → Option PlainScalar
  | gap, mark, [] => some ⟨[], gap.hasBreaks, ⟨mark, []⟩⟩
  | gap, mark, c :: rest =>
    if isBreak c then read? flow indent (gap.addBreak c) mark.nextLine rest
    else if isSpacing c then
      if c == '\t' && gap.hasBreaks && mark.column < indent then none
      else read? flow indent (gap.addSpacing c) (mark.after [c]) rest
    else if endsBefore flow indent gap mark c rest then
      some ⟨[], gap.hasBreaks, ⟨mark, c :: rest⟩⟩
    else if flow && c == ':' && rest.head?.any fun d => d == '?' || isFlowIndicator d then none
    else (read? flow indent {} (mark.after [c]) rest).map (push (gap.text ++ [c]))

end PlainScalar

/-! ## Quoted scalars -/

/-- The characters that one letter or sign behind a backslash writes. -/
def escapeLetters : List (Char × Char) :=
  [('0', '\x00'), ('a', '\x07'), ('b', '\x08'), ('t', '\t'), ('\t', '\t'), ('n', '\n'),
    ('v', '\x0B'), ('f', '\x0C'), ('r', '\r'), ('e', '\x1B'), (' ', ' '), ('"', '"'), ('/', '/'),
    ('\\', '\\'), ('N', '\u0085'), ('_', '\u00A0'), ('L', '\u2028'), ('P', '\u2029')]

/-- The digits that follow a letter for a code point. -/
def escapeDigits : Char → Option Nat
  | 'x' => some 2
  | 'u' => some 4
  | 'U' => some 8
  | _ => none

/-- The character with a code point, if it is one. -/
def charOfNumber? (n : Nat) : Option Char :=
  if n.isValidChar then some (Char.ofNat n) else none

/-- The character that is written behind a backslash by `letter` and what follows, and how many of
the following characters belong to it. -/
def escaped? (letter : Char) (following : List Char) : Option (Char × Nat) :=
  match escapeDigits letter with
  | some n => ((hexNumber? n following).bind charOfNumber?).map (·, n)
  | none => (escapeLetters.lookup letter).map (·, 0)

/-- A quoted scalar that was read. -/
structure QuotedScalar where
  text : List Char
  cursor : Cursor

namespace QuotedScalar

def push (front : List Char) (s : QuotedScalar) : QuotedScalar := { s with text := front ++ s.text }

/-- Reads a quoted scalar behind its first quote, `gap` being the white space just before. -/
def read? (double : Bool) (gap : Gap) (mark : Mark) (cs : List Char) : Option QuotedScalar :=
  match cs with
  | [] => none
  | c :: rest =>
    if isBreak c then read? double (gap.addBreak c) mark.nextLine rest
    else if isSpacing c then read? double (gap.addSpacing c) (mark.after [c]) rest
    else if mark.column == 0 && isDocumentMark (c :: rest) then none
    else if c == (if double then '"' else '\'') then
      if !double && rest.head? == some '\'' then
        (read? double {} (mark.after [c, c]) (rest.drop 1)).map (push (gap.text ++ [c]))
      else some ⟨gap.text, ⟨mark.after [c], rest⟩⟩
    else if double && c == '\\' then
      match rest with
      | [] => none
      | letter :: following =>
        if isBreak letter then
          (read? double { escaped := true } mark.nextLine following).map (push gap.text)
        else
          match escaped? letter following with
          | none => none
          | some (x, n) =>
            let mark := mark.after (c :: letter :: following.take n)
            (read? double {} mark (following.drop n)).map (push (gap.text ++ [x]))
    else (read? double {} (mark.after [c]) rest).map (push (gap.text ++ [c]))
termination_by cs.length
decreasing_by all_goals simp only [List.length_cons, List.length_drop]; omega

end QuotedScalar

/-! ## Block scalars -/

/-- What becomes of the line breaks that end a block scalar. -/
inductive Chomping where
  | strip
  | clip
  | keep
deriving DecidableEq, Repr

/-- What stands behind `|` or `>`: the chomping, and how far the lines are indented, if it says. -/
structure BlockHeader where
  chomping : Chomping
  indent : Option Nat

namespace BlockHeader

def chomping? : Char → Option Chomping
  | '+' => some .keep
  | '-' => some .strip
  | _ => none

/-- Reads the header and the line break behind it. -/
def read? (c : Cursor) : Option (BlockHeader × Cursor) :=
  let (chomping, c) := match c.rest.head?.bind chomping? with
    | some chomping => (some chomping, c.drop 1)
    | none => (none, c)
  let (indent, c) := match c.rest.head?.filter Char.isDigit with
    | some digit => (some (digit.toNat - '0'.toNat), c.drop 1)
    | none => (none, c)
  let (chomping, c) := match chomping, indent, c.rest.head?.bind chomping? with
    | none, some _, some late => (some late, c.drop 1)
    | _, _, _ => (chomping, c)
  let c := c.skipSpacing.skipComment
  if indent == some 0 || !c.atLineEnd then none
  else some (⟨chomping.getD .clip, indent⟩, c.skipBreak)

end BlockHeader

/-- Empty lines between the lines of a block scalar. -/
structure BlockGap where
  breaks : List Char
  /-- The longest indentation seen. -/
  widest : Nat
  cursor : Cursor

namespace BlockGap

def push (c : Char) (g : BlockGap) : BlockGap := { g with breaks := c :: g.breaks }

/-- Reads indentation, up to column `limit` if there is one, and empty lines. -/
def read? (limit : Option Nat) (widest : Nat) : Mark → List Char → Option BlockGap
  | mark, [] => some ⟨[], max widest mark.column, ⟨mark, []⟩⟩
  | mark, c :: rest =>
    let indenting := limit.all (mark.column < ·)
    if indenting && c == ' ' then read? limit widest (mark.after [c]) rest
    else if indenting && c == '\t' then none
    else if isBreak c then
      (read? limit (max widest mark.column) mark.nextLine rest).map (push c)
    else some ⟨[], max widest mark.column, ⟨mark, c :: rest⟩⟩

end BlockGap

/-- The lines of a block scalar that was read. -/
structure BlockScalar where
  text : List Char
  cursor : Cursor

namespace BlockScalar

def push (front : List Char) (s : BlockScalar) : BlockScalar := { s with text := front ++ s.text }

/-- What the breaks between two lines stand for. A folded scalar joins lines that begin with no
spacing. -/
def joint (folded : Bool) (lastBreak gap : List Char) (spaced : Bool) : List Char :=
  if folded && lastBreak == ['\n'] && !spaced then
    if gap.isEmpty then [' '] else gap
  else lastBreak ++ gap

/-- The end of a scalar: `lastBreak` ended its last line, and `gap` are the empty lines behind. -/
def finish (chomping : Chomping) (lastBreak : List Char) (gap : BlockGap) : BlockScalar :=
  match chomping with
  | .strip => ⟨[], gap.cursor⟩
  | .clip => ⟨lastBreak, gap.cursor⟩
  | .keep => ⟨lastBreak ++ gap.breaks, gap.cursor⟩

/-- Reads lines that begin at column `indent`. `lastBreak` ended the line before, `gap` are the
empty lines since, and `spaced` says whether that line began with spacing. -/
def readLines? (folded : Bool) (chomping : Chomping) (indent : Nat) :
    Nat → List Char → Bool → BlockGap → Option BlockScalar
  | 0, _, _, _ => none
  | fuel + 1, lastBreak, spaced, gap =>
    match gap.cursor.rest with
    | c :: _ =>
      if gap.cursor.mark.column = indent then do
        let line := gap.cursor.lineWhile fun _ => true
        let lineEnd := gap.cursor.skipLine
        let next ← BlockGap.read? (some indent) 0 lineEnd.skipBreak.mark lineEnd.skipBreak.rest
        let rest ← readLines? folded chomping indent fuel (lineEnd.rest.take 1) (isSpacing c) next
        return rest.push (joint folded lastBreak gap.breaks (spaced || isSpacing c) ++ line)
      else some (finish chomping lastBreak gap)
    | [] => some (finish chomping lastBreak gap)

/-- Reads a block scalar behind its indicator. `outer` is the column that its lines must exceed. -/
def read? (folded : Bool) (outer : Option Nat) (c : Cursor) : Option BlockScalar := do
  let (header, c) ← BlockHeader.read? c
  let limit := header.indent.map (outer.getD 0 + ·)
  let gap ← BlockGap.read? limit 0 c.mark c.rest
  let least := match outer with
    | some column => column + 1
    | none => 1
  readLines? folded header.chomping (limit.getD (max gap.widest least)) (c.rest.length + 1) []
    false gap

end BlockScalar

end BlockScript.Yaml
