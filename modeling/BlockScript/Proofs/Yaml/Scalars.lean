import BlockScript.Proofs.Colour.Text
import BlockScript.Yaml.Writer

namespace BlockScript.Yaml

/-! # Scalars on one line

What `scalarLine` writes for a text without line breaks is one line, and reading it gives the text
back. A plain scalar is read over spaces, since none of its characters would end it
(`PlainScalar.read?_inside`), to the end of its line (`read?_value`) or to the colon that makes it
a key (`read?_key`). Between quotes one lemma says what a character and its escape are read as
(`QuotedScalar.read?_quotedChar`), and the whole follows (`read?_quoted`).
-/

variable {c : Char} {cs text : List Char}

/-! ## Marks -/

namespace Mark

@[simp] theorem after_after (m : Mark) (cs ds : List Char) :
    (m.after cs).after ds = m.after (cs ++ ds) := by
  simp [after, Nat.add_assoc]

@[simp] theorem line_after (m : Mark) (cs : List Char) : (m.after cs).line = m.line := rfl

@[simp] theorem column_after (m : Mark) (cs : List Char) :
    (m.after cs).column = m.column + cs.length := rfl

@[simp] theorem bytes_after (m : Mark) (cs : List Char) :
    (m.after cs).bytes = m.bytes + utf8Length cs := rfl

theorem column_beq_zero {m : Mark} (h : 0 < m.column) : (m.column == 0) = false :=
  beq_eq_false_iff_ne.mpr (Nat.pos_iff_ne_zero.mp h)

@[simp] theorem nextLine_after (m : Mark) (cs : List Char) : (m.after cs).nextLine = m.nextLine :=
  rfl

end Mark

/-! ## Characters -/

/-- A character that a scalar may hold as it is, and that does not end the line. -/
def IsInline (c : Char) : Prop := isPrintable c = true ∧ isBreak c = false

instance (c : Char) : Decidable (IsInline c) :=
  inferInstanceAs (Decidable (isPrintable c = true ∧ isBreak c = false))

theorem eq_space_of_isSpacing (hc : IsInline c) (h : isSpacing c = true) : c = ' ' := by
  rcases (Bool.or_eq_true _ _).mp h with hspace | htab
  · exact eq_of_beq hspace
  · rw [eq_of_beq htab] at hc
    exact absurd hc.1 (by decide)

theorem isSpacing_eq_false (hc : IsInline c) (hspace : c ≠ ' ') : isSpacing c = false := by
  rw [← Bool.not_eq_true]
  intro h
  exact hspace (eq_space_of_isSpacing hc h)

/-- A word that goes on here goes on, whatever stands behind. -/
theorem endsWord_append (h : endsWord cs = false) (tail : List Char) :
    endsWord (cs ++ tail) = false := by
  cases cs with
  | nil => cases h
  | cons c cs => exact h

/-- What may follow a line: nothing, or a line that begins with a token. -/
def BeginsLine (rest : List Char) : Prop :=
  ∀ x ∈ rest.head?, isBreak x = false ∧ isSpacing x = false ∧ x ≠ '#' ∧ x ≠ byteOrderMark

theorem beginsLine_nil : BeginsLine [] := fun _ h => absurd h (by simp)

/-! ## Plain scalars -/

theorem allowsPlain_cons_iff {rest : List Char} :
    allowsPlain (c :: rest) = true ↔
      (c ≠ ' ' ∧ (c :: rest).getLast? ≠ some ' ') ∧ (∀ x ∈ c :: rest, IsInline x) ∧
        startsOtherwise (c :: rest) = false ∧ endsInside c rest = false := by
  simp only [allowsPlain, IsInline, Bool.and_eq_true, bne_iff_ne, Bool.not_eq_true',
    List.all_eq_true, List.any_eq_false, Bool.not_eq_true]
  constructor
  · rintro ⟨⟨⟨⟨⟨hc, hlast⟩, hbreak⟩, hprint⟩, hstart⟩, hinside⟩
    exact ⟨⟨hc, hlast⟩, fun x hx => ⟨hprint x hx, hbreak x hx⟩, hstart, hinside⟩
  · rintro ⟨⟨hc, hlast⟩, hinline, hstart, hinside⟩
    exact ⟨⟨⟨⟨⟨hc, hlast⟩, fun x hx => (hinline x hx).2⟩, fun x hx => (hinline x hx).1⟩, hstart⟩,
      hinside⟩

/-- What no plain scalar begins with, unless the character goes on a word. -/
theorem isIndicator_of_startsOtherwise {rest : List Char}
    (h : startsOtherwise (c :: rest) = false) :
    isIndicator c = false ∨ (c = '-' ∨ c = '?' ∨ c = ':') ∧ endsWord rest = false := by
  unfold startsOtherwise at h
  split at h
  · exact absurd h (by decide)
  · exact absurd h (by decide)
  · next heq =>
    rcases List.cons.inj heq with ⟨rfl, rfl⟩
    split at h
    · next hsign =>
      right
      simp only [Bool.or_eq_true, beq_iff_eq, or_assoc] at hsign
      exact ⟨hsign, h⟩
    · exact Or.inl h
  · next heq => exact absurd heq (List.cons_ne_nil _ _)

/-- The first character does not end a plain scalar either. -/
theorem endsInside_of_allowsPlain (h : allowsPlain text = true) (before : Char)
    (hbefore : isSpacing before = false ∧ isBreak before = false) :
    endsInside before text = false := by
  cases text with
  | nil => rfl
  | cons c rest =>
    rcases allowsPlain_cons_iff.mp h with ⟨-, -, hstart, hinside⟩
    have hcolon : (c == ':' && endsWord rest) = false := by
      rcases isIndicator_of_startsOtherwise hstart with hplain | ⟨-, hword⟩
      · rw [Bool.and_eq_false_iff]
        left
        rw [beq_eq_false_iff_ne]
        rintro rfl
        exact absurd hplain (by decide)
      · rw [hword, Bool.and_false]
    simp [endsInside, hcolon, hinside, hbefore]

namespace PlainScalar

variable {indent : Nat} {mark : Mark}

@[simp] theorem push_push (front cs : List Char) (s : PlainScalar) :
    push front (push cs s) = push (front ++ cs) s := by
  simp [push]

/-- A character that stands inside, behind spaces of the same line, does not end the scalar. -/
theorem endsBefore_eq_false {before : Char} {rest tail spaces : List Char} (hindent : indent ≤ 1)
    (hinside : endsInside before (c :: rest) = false)
    (hspaces : spaces ≠ [] → 0 < mark.column ∧ isSpacing before = true) :
    endsBefore false indent { spacing := spaces } mark c (rest ++ tail) = false := by
  simp only [endsInside, Bool.or_eq_false_iff, Bool.and_eq_false_iff] at hinside
  rcases hinside with ⟨⟨hcolon, hhash⟩, -⟩
  have hword : (c == ':' && endsWord (rest ++ tail)) = false := by
    rw [Bool.and_eq_false_iff]
    rcases hcolon with hc | hrest
    · exact Or.inl hc
    · exact Or.inr (endsWord_append hrest tail)
  by_cases hnil : spaces = []
  · simp [endsBefore, hword, hnil, Gap.isEmpty]
  · rcases hspaces hnil with ⟨hcolumn, hspacing⟩
    have hc : (c == '#') = false := by
      rcases hhash with hc | hbefore
      · exact hc
      · rw [hspacing] at hbefore
        exact absurd hbefore.1 (by decide)
    have hdeep : ¬ mark.column < indent := by omega
    simp [endsBefore, hword, hc, hdeep, Nat.pos_iff_ne_zero.mp hcolumn]

/-- Reading goes over characters that do not end the scalar. The induction is on them; `spaces`
are the ones just before, which belong to the scalar since it does not end with a space. -/
theorem read?_inside (hindent : indent ≤ 1) (tail : List Char) (before : Char)
    (spaces : List Char) (hinline : ∀ x ∈ cs, IsInline x) (hinside : endsInside before cs = false)
    (hlast : cs.getLast? ≠ some ' ') (hnil : cs = [] → spaces = [])
    (hspaces : spaces ≠ [] → 0 < mark.column ∧ isSpacing before = true) :
    read? false indent { spacing := spaces } mark (cs ++ tail) =
      (read? false indent {} (mark.after cs) tail).map (push (spaces ++ cs)) := by
  induction cs generalizing before spaces mark with
  | nil =>
    rw [hnil rfl]
    exact Option.map_id'.symm
  | cons c rest ih =>
    rcases List.forall_mem_cons.mp hinline with ⟨hc, hrest⟩
    have hinside' : endsInside c rest = false := by
      simp only [endsInside, Bool.or_eq_false_iff] at hinside
      exact hinside.2
    have hlast' : rest.getLast? ≠ some ' ' := by
      intro h
      exact hlast (by rw [List.getLast?_cons, h]; rfl)
    rw [List.cons_append, read?]
    by_cases hspace : isSpacing c = true
    · -- a space waits for the next word, which there is
      obtain rfl := eq_space_of_isSpacing hc hspace
      have hne : rest ≠ [] := by
        rintro rfl
        exact hlast rfl
      have hadd : Gap.addSpacing { spacing := spaces } ' ' = { spacing := spaces ++ [' '] } := rfl
      rw [if_neg (by decide), if_pos hspace, if_neg (by simp), hadd,
        ih ' ' (spaces ++ [' ']) hrest hinside' hlast' (fun h => absurd h hne)
          (fun _ => ⟨Nat.succ_pos _, hspace⟩)]
      simp
    · -- any other character takes the spaces with it
      rw [if_neg (by simp [hc.2]), if_neg hspace,
        if_neg (by simp [endsBefore_eq_false hindent hinside hspaces]), if_neg (by simp),
        ih c [] hrest hinside' hlast' (fun _ => rfl) (fun h => absurd rfl h)]
      simp [Gap.text, Function.comp_def]

theorem read?_of_allowsPlain (h : allowsPlain text = true) (hindent : indent ≤ 1)
    (tail : List Char) :
    read? false indent {} mark (text ++ tail) =
      (read? false indent {} (mark.after text) tail).map (push text) := by
  -- no gap is in front of the text, so any character that is no spacing may stand for what is
  have hinside := endsInside_of_allowsPlain h 'a' (by decide)
  cases text with
  | nil => exact Option.map_id'.symm
  | cons c rest =>
    rcases allowsPlain_cons_iff.mp h with ⟨⟨-, hlast⟩, hinline, -⟩
    exact read?_inside hindent tail 'a' [] hinline hinside hlast (fun _ => rfl)
      (fun hne => absurd rfl hne)

/-- A value ends with its line if the next one is not indented. -/
theorem read?_value (mark : Mark) (h : allowsPlain text = true) {rest : List Char}
    (hrest : BeginsLine rest) :
    read? false 1 {} mark (text ++ '\n' :: rest) = some ⟨text, true, ⟨mark.nextLine, rest⟩⟩ := by
  rw [read?_of_allowsPlain h le_rfl, read?, if_pos (by decide), Mark.nextLine_after]
  cases rest with
  | nil => simp [read?, push, Gap.addBreak, Gap.hasBreaks]
  | cons c rest =>
    rcases hrest c rfl with ⟨hbreak, hspacing, -⟩
    -- the next line begins in the first column, and that is in front of `indent`
    rw [read?, if_neg (by simp [hbreak]), if_neg (by simp [hspacing]),
      if_pos (by simp [endsBefore, Gap.isEmpty, Gap.addBreak, Mark.nextLine])]
    simp [push, Gap.addBreak, Gap.hasBreaks]

/-- A key ends at its colon. -/
theorem read?_key (mark : Mark) (h : allowsPlain text = true) (hindent : indent ≤ 1)
    {rest : List Char} (hrest : endsWord rest = true) :
    read? false indent {} mark (text ++ ':' :: rest) =
      some ⟨text, false, ⟨mark.after text, ':' :: rest⟩⟩ := by
  rw [read?_of_allowsPlain h hindent, read?, if_neg (by decide), if_neg (by decide),
    if_pos (by simp [endsBefore, hrest])]
  simp [push, Gap.hasBreaks]

end PlainScalar

/-! ## Quoted scalars -/

/-- A digit and its place, from the right. -/
theorem foldlM_hexPadded (width n : Nat) :
    (hexPadded width n).foldlM
        (fun n c => ((hexValue? c).filter (· < 16)).map (16 * n + ·)) 0 =
      some (n % 16 ^ width) := by
  induction width generalizing n with
  | zero => simp [hexPadded, Nat.mod_one]
  | succ width ih =>
    have hdigit : n % 16 < 16 := Nat.mod_lt n (by decide)
    have hvalue : 16 * (n / 16 % 16 ^ width) + n % 16 = n % 16 ^ (width + 1) := by
      rw [Nat.pow_succ', Nat.mod_mul, Nat.add_comm]
    rw [hexPadded, List.foldlM_append, ih]
    simp [hexValue?_hexDigit hdigit, Option.filter, hdigit, hvalue]

theorem length_hexPadded (width n : Nat) : (hexPadded width n).length = width := by
  induction width generalizing n with
  | zero => rfl
  | succ width ih => simp [hexPadded, ih]

theorem hexNumber?_hexPadded {width n : Nat} (hwidth : 0 < width) (hn : n < 16 ^ width)
    (tail : List Char) : hexNumber? width (hexPadded width n ++ tail) = some n := by
  have hlength := length_hexPadded width n
  have hne : (hexPadded width n).isEmpty = false := by
    rw [List.isEmpty_eq_false_iff]
    rintro hnil
    rw [hnil, List.length_nil] at hlength
    omega
  rw [hexNumber?, if_neg (by simp [hlength]), List.take_append_of_le_length (by omega),
    List.take_of_length_le (by omega), numberIn?, hne, if_neg (by decide), foldlM_hexPadded,
    Nat.mod_eq_of_lt hn]

theorem isPrintable_hexDigit {n : Nat} (h : n < 16) : isPrintable (hexDigit n) = true := by
  decide +revert

theorem isPrintable_of_mem_hexPadded {width n : Nat} (h : c ∈ hexPadded width n) :
    isPrintable c = true := by
  induction width generalizing n with
  | zero => exact absurd h List.not_mem_nil
  | succ width ih =>
    rcases List.mem_append.mp h with hfront | hlast
    · exact ih hfront
    · rw [List.mem_singleton.mp hlast]
      exact isPrintable_hexDigit (Nat.mod_lt n (by decide))

theorem charOfNumber?_toNat (c : Char) : charOfNumber? c.toNat = some c := by
  have hvalid : c.toNat.isValidChar := c.valid
  rw [charOfNumber?, if_pos hvalid, Char.ofNat_toNat]

/-- The letters behind a backslash are told apart, and none of them breaks the line. -/
theorem escaped?_of_mem_escapeLetters :
    ∀ e ∈ escapeLetters, escapeDigits e.1 = none ∧ escapeLetters.lookup e.1 = some e.2 ∧
      isBreak e.1 = false ∧ (e.1 ≠ '\t' → isPrintable e.1 = true) := by
  decide

/-- An escape that stands for `c`: behind the backslash a letter, maybe with digits. -/
structure Escapes (c : Char) (letter : Char) (digits : List Char) : Prop where
  printable : ∀ x ∈ letter :: digits, isPrintable x = true
  not_isBreak : isBreak letter = false
  escaped?_eq : ∀ tail, escaped? letter (digits ++ tail) = some (c, digits.length)

theorem escapes_of_letterFor? {letter : Char} (h : letterFor? c = some letter) :
    Escapes c letter [] := by
  rcases Option.map_eq_some_iff.mp h with ⟨e, hfind, rfl⟩
  have hmatch := List.find?_some hfind
  simp only [Bool.and_eq_true, beq_iff_eq, bne_iff_ne] at hmatch
  rcases hmatch with ⟨rfl, htab⟩
  rcases escaped?_of_mem_escapeLetters e (List.mem_of_find?_eq_some hfind) with
    ⟨hdigits, hlookup, hbreak, hprint⟩
  constructor
  · simpa using hprint htab
  · exact hbreak
  · intro tail
    simp [escaped?, hdigits, hlookup]

theorem escapes_of_digits {letter : Char} {width : Nat}
    (hletter : isPrintable letter = true ∧ isBreak letter = false)
    (hdigits : escapeDigits letter = some width) (hwidth : 0 < width)
    (hc : c.toNat < 16 ^ width) : Escapes c letter (hexPadded width c.toNat) := by
  constructor
  · rw [List.forall_mem_cons]
    exact ⟨hletter.1, fun x hx => isPrintable_of_mem_hexPadded hx⟩
  · exact hletter.2
  · intro tail
    simp [escaped?, hdigits, hexNumber?_hexPadded hwidth hc, charOfNumber?_toNat,
      length_hexPadded]

/-- Between double quotes a character stands as it is, or there is an escape for it. -/
theorem doubleQuotedChar_cases (c : Char) :
    (IsInline c ∧ c ≠ '"' ∧ c ≠ '\\' ∧ doubleQuotedChar c = [c]) ∨
      ∃ letter digits, Escapes c letter digits ∧
        doubleQuotedChar c = '\\' :: letter :: digits := by
  unfold doubleQuotedChar
  split
  · next h =>
    simp only [Bool.and_eq_true, Bool.not_eq_true', bne_iff_ne, and_assoc] at h
    exact Or.inl ⟨⟨h.1, h.2.1⟩, h.2.2.1, h.2.2.2, rfl⟩
  · right
    split
    · next letter hletter => exact ⟨letter, [], escapes_of_letterFor? hletter, rfl⟩
    · split
      · exact ⟨'x', _, escapes_of_digits (by decide) rfl (by decide) ‹_›, rfl⟩
      · split
        · exact ⟨'u', _, escapes_of_digits (by decide) rfl (by decide) ‹_›, rfl⟩
        · have hc : c.toNat < 16 ^ 8 := by
            rcases c.valid with hlow | ⟨-, hhigh⟩
            · exact lt_trans hlow (by decide)
            · exact lt_trans hhigh (by decide)
          exact ⟨'U', _, escapes_of_digits (by decide) rfl (by decide) hc, rfl⟩

/-- A character between quotes. -/
def quotedChar (double : Bool) (c : Char) : List Char :=
  if double then doubleQuotedChar c else if c == '\'' then ['\'', '\''] else [c]

/-- The quote that a scalar stands between. -/
def quote (double : Bool) : Char := if double then '"' else '\''

/-- Whether the character can stand between such quotes; between double ones each can. -/
def Fits (double : Bool) (c : Char) : Prop := double = true ∨ IsInline c

theorem quotedChar_space (double : Bool) : quotedChar double ' ' = [' '] := by
  cases double
  · rfl
  · decide

theorem singleQuotedChars_eq (h : ∀ x ∈ text, isBreak x = false) :
    singleQuotedChars false text = text.flatMap (quotedChar false) := by
  induction text with
  | nil => rfl
  | cons c rest ih =>
    rcases List.forall_mem_cons.mp h with ⟨hc, hrest⟩
    simp [singleQuotedChars, hc, ih hrest, quotedChar]

namespace QuotedScalar

variable {double : Bool} {mark : Mark}

@[simp] theorem push_push (front cs : List Char) (s : QuotedScalar) :
    push front (push cs s) = push (front ++ cs) s := by
  simp [push]

theorem read?_space (spaces rest : List Char) :
    read? double { spacing := spaces } mark (' ' :: rest) =
      read? double { spacing := spaces ++ [' '] } (mark.after [' ']) rest := by
  rw [read?.eq_def]
  dsimp only
  rw [if_neg (by decide), if_pos (by decide)]
  rfl

/-- A character that means nothing between the quotes stands for itself. -/
theorem read?_inline (spaces rest : List Char) (hmark : 0 < mark.column) (hc : IsInline c)
    (hspace : c ≠ ' ') (hquote : c ≠ quote double) (hslash : double = true → c ≠ '\\') :
    read? double { spacing := spaces } mark (c :: rest) =
      (read? double {} (mark.after [c]) rest).map (push (spaces ++ [c])) := by
  have hspacing := isSpacing_eq_false hc hspace
  have hcolumn := Mark.column_beq_zero hmark
  rw [read?.eq_def]
  dsimp only
  rw [if_neg (by simp [hc.2]), if_neg (by simp [hspacing]), if_neg (by simp [hcolumn]), if_neg,
    if_neg]
  · rfl
  · rw [Bool.and_eq_true, beq_iff_eq]
    rintro ⟨hdouble, hc⟩
    exact hslash hdouble hc
  · rw [beq_iff_eq]
    exact hquote

/-- An escape stands for its character. -/
theorem read?_escape {letter : Char} {digits : List Char} (spaces rest : List Char)
    (hmark : 0 < mark.column) (h : Escapes c letter digits) :
    read? true { spacing := spaces } mark ('\\' :: letter :: digits ++ rest) =
      (read? true {} (mark.after ('\\' :: letter :: digits)) rest).map (push (spaces ++ [c])) := by
  have hcolumn := Mark.column_beq_zero hmark
  rw [List.cons_append, List.cons_append, read?.eq_def]
  dsimp only
  rw [if_neg (by decide), if_neg (by decide),
    if_neg (by simp [hcolumn]), if_neg (by decide), if_pos (by decide)]
  simp [h.not_isBreak, h.escaped?_eq, Gap.text]

/-- A quote between single quotes is written twice. -/
theorem read?_twice (spaces rest : List Char) (hmark : 0 < mark.column) :
    read? false { spacing := spaces } mark ('\'' :: '\'' :: rest) =
      (read? false {} (mark.after ['\'', '\'']) rest).map (push (spaces ++ ['\''])) := by
  have hcolumn := Mark.column_beq_zero hmark
  rw [read?, if_neg (by decide), if_neg (by decide), if_neg (by simp [hcolumn]),
    if_pos (by decide), if_pos (by simp)]
  rfl

/-- One character between quotes. -/
theorem read?_quotedChar (spaces rest : List Char) (hmark : 0 < mark.column)
    (hc : Fits double c) (hspace : c ≠ ' ') :
    read? double { spacing := spaces } mark (quotedChar double c ++ rest) =
      (read? double {} (mark.after (quotedChar double c)) rest).map (push (spaces ++ [c])) := by
  cases double with
  | true =>
    rcases doubleQuotedChar_cases c with
      ⟨hinline, hquote, hslash, heq⟩ | ⟨letter, digits, hesc, heq⟩
    · simp only [quotedChar, if_true, heq]
      exact read?_inline spaces rest hmark hinline hspace hquote (fun _ => hslash)
    · simp only [quotedChar, if_true, heq]
      exact read?_escape spaces rest hmark hesc
  | false =>
    have hinline : IsInline c := hc.resolve_left (by decide)
    by_cases hquote : c = '\''
    · rw [hquote]
      exact read?_twice spaces rest hmark
    · have heq : quotedChar false c = [c] := by simp [quotedChar, hquote]
      rw [heq]
      exact read?_inline spaces rest hmark hinline hspace hquote (fun h => absurd h (by decide))

/-- Reading goes to the closing quote. The induction is on the text; `spaces` are the ones just
before. -/
theorem read?_text (spaces : List Char) {tail : List Char} (hmark : 0 < mark.column)
    (htext : ∀ x ∈ text, Fits double x) (htail : tail.head? ≠ some '\'') :
    read? double { spacing := spaces } mark
        (text.flatMap (quotedChar double) ++ quote double :: tail) =
      some ⟨spaces ++ text,
        ⟨mark.after (text.flatMap (quotedChar double) ++ [quote double]), tail⟩⟩ := by
  induction text generalizing spaces mark with
  | nil =>
    have hcolumn := Mark.column_beq_zero hmark
    have hsign : isBreak (quote double) = false ∧ isSpacing (quote double) = false := by
      cases double <;> decide
    rw [List.flatMap_nil, List.nil_append, read?.eq_def]
    dsimp only
    rw [if_neg (by simp [hsign.1]),
      if_neg (by simp [hsign.2]), if_neg (by simp [hcolumn]), if_pos (by simp [quote]),
      if_neg (by simp [htail])]
    simp [Gap.text]
  | cons c rest ih =>
    rcases List.forall_mem_cons.mp htext with ⟨hc, hrest⟩
    rw [List.flatMap_cons, List.append_assoc]
    by_cases hspace : c = ' '
    · rw [hspace, quotedChar_space, List.singleton_append, read?_space,
        ih (spaces ++ [' ']) (Nat.succ_pos _) hrest]
      simp
    · rw [read?_quotedChar spaces _ hmark hc hspace, ih [] (by simp; omega) hrest]
      simp [push]

/-- A quoted scalar is its text. -/
theorem read?_quoted (tail : List Char) (hmark : 0 < mark.column)
    (htext : ∀ x ∈ text, Fits double x) (htail : tail.head? ≠ some '\'') :
    read? double {} mark (text.flatMap (quotedChar double) ++ quote double :: tail) =
      some ⟨text, ⟨mark.after (text.flatMap (quotedChar double) ++ [quote double]), tail⟩⟩ :=
  read?_text [] hmark htext htail

end QuotedScalar

/-! ## Lines -/

/-- A text as a scalar in one of the styles of a single line, with the break that ends it. -/
inductive WritesScalar : List Char → ScalarStyle → List Char → Prop where
  | plain {text : List Char} (hne : text ≠ []) (h : allowsPlain text = true) :
      WritesScalar (text ++ ['\n']) .plain text
  | quoted {text : List Char} (double : Bool) (h : ∀ x ∈ text, Fits double x) :
      WritesScalar
        (quote double :: text.flatMap (quotedChar double) ++ [quote double, '\n'])
        (if double then .doubleQuoted else .singleQuoted) text

/-- A text without line breaks is written in one of three styles, each of which is good for it. -/
theorem styleOf_cases (h : ∀ x ∈ text, isBreak x = false) :
    (styleOf text = .plain ∧ text ≠ [] ∧ allowsPlain text = true) ∨
      (styleOf text = .singleQuoted ∧ ∀ x ∈ text, IsInline x) ∨
      styleOf text = .doubleQuoted := by
  have hline : text.contains '\n' = false := by
    rw [← Bool.not_eq_true, List.contains_iff_mem]
    intro hmem
    exact absurd (h '\n' hmem) (by decide)
  unfold styleOf
  rw [hline, if_neg (by decide)]
  by_cases hquotes : (isAmbiguous text || !allowsPlain text) = true
  · rw [if_pos hquotes]
    right
    by_cases hsingle : allowsSingleQuotes text = true
    · rw [if_pos hsingle]
      simp only [allowsSingleQuotes, Bool.and_eq_true, List.all_eq_true] at hsingle
      exact Or.inl ⟨rfl, fun x hx => ⟨hsingle.1.1 x hx, h x hx⟩⟩
    · rw [if_neg hsingle]
      exact Or.inr rfl
  · rw [if_neg hquotes]
    simp only [Bool.or_eq_true, Bool.not_eq_true', not_or, Bool.not_eq_false] at hquotes
    refine Or.inl ⟨rfl, ?_, hquotes.2⟩
    -- the empty text would be read as null
    rintro rfl
    exact absurd hquotes.1 (by decide)

theorem writesScalar_scalarLine (h : ∀ x ∈ text, isBreak x = false) :
    WritesScalar (scalarLine text) (styleOf text) text := by
  rcases styleOf_cases h with ⟨hstyle, hne, hplain⟩ | ⟨hstyle, hinline⟩ | hstyle
  · rw [scalarLine, hstyle]
    exact WritesScalar.plain hne hplain
  · rw [scalarLine, hstyle]
    dsimp only
    rw [singleQuotedChars_eq h]
    exact WritesScalar.quoted false (fun x hx => Or.inr (hinline x hx))
  · rw [scalarLine, hstyle]
    exact WritesScalar.quoted true (fun _ _ => Or.inl rfl)

theorem isPrintable_of_allowsPlain (h : allowsPlain text = true) :
    ∀ x ∈ text, isPrintable x = true := by
  intro x hx
  cases text with
  | nil => exact absurd hx List.not_mem_nil
  | cons c rest =>
    rcases allowsPlain_cons_iff.mp h with ⟨-, hinline, -⟩
    exact (hinline x hx).1

theorem isPrintable_of_mem_quotedChar {double : Bool} {x : Char} (hc : Fits double c)
    (hx : x ∈ quotedChar double c) : isPrintable x = true := by
  cases double with
  | true =>
    rw [quotedChar, if_pos rfl] at hx
    rcases doubleQuotedChar_cases c with ⟨hinline, -, -, heq⟩ | ⟨letter, digits, hesc, heq⟩
    · rw [heq, List.mem_singleton] at hx
      exact hx ▸ hinline.1
    · rw [heq, List.mem_cons] at hx
      rcases hx with rfl | hx
      · decide
      · exact hesc.printable x hx
  | false =>
    have hmem : x = c := by
      rw [quotedChar, if_neg (by decide)] at hx
      split at hx <;> simp_all
    exact hmem ▸ (hc.resolve_left (by decide)).1

/-- Nothing is written that needs an escape. -/
theorem WritesScalar.isPrintable {line : List Char} {style : ScalarStyle}
    (h : WritesScalar line style text) : ∀ x ∈ line, isPrintable x = true := by
  intro x hx
  cases h with
  | plain hne h =>
    rcases List.mem_append.mp hx with hx | hx
    · exact isPrintable_of_allowsPlain h x hx
    · rw [List.mem_singleton.mp hx]
      decide
  | quoted double h =>
    have hquote : Yaml.isPrintable (quote double) = true := by cases double <;> decide
    simp only [List.cons_append, List.mem_cons, List.mem_append, List.mem_flatMap,
      List.not_mem_nil, or_false] at hx
    rcases hx with rfl | ⟨c, hc, hx⟩ | rfl | rfl
    · exact hquote
    · exact isPrintable_of_mem_quotedChar (h c hc) hx
    · exact hquote
    · decide

end BlockScript.Yaml
