import BlockScript.Proofs.Script.Joining
import Mathlib.Logic.Relation

namespace BlockScript

/-! # The spacing of a script

What a script asks for is decided by its tokens, and these are the same however the script is laid
out: with carriage returns in front of its line breaks, wider gaps, other margins, and more lines
that are blank or comments. Each such change leaves the words of the script as they are
(`Script.words_of_respaced`), since it is made within one line or between two lines, and the words
of a script are those of its lines. Carriage returns also leave every token in its line and column;
its offset grows by one byte for each line break in front of it (`Script.tokens_withReturns`).
-/

/-- The text with a carriage return in front of every line break. -/
def withReturns (cs : List Char) : List Char :=
  cs.flatMap fun c => if c = '\n' then ['\r', '\n'] else [c]

/-- The characters that begin within the first `count` bytes. -/
def takeBytes : Nat → List Char → List Char
  | _, [] => []
  | count, c :: cs => if count = 0 then [] else c :: takeBytes (count - c.utf8Size) cs

/-- A line ends in front of the text, which begins with the line break or with a carriage return in
front of it. -/
def IsLineEnd (below : List Char) : Prop :=
  below = [] ∨ ∃ rest, below = '\n' :: rest ∨ below = '\r' :: '\n' :: rest

/-- Blanks that stay on one line, such as spaces and tabs. -/
def IsPadding (blanks : List Char) : Prop := AllBlank blanks ∧ '\n' ∉ blanks

/-- A line that holds no tokens: a blank one, or one whose first character that is no blank is
`#`. -/
def IsSilent (line : List Char) : Prop :=
  '\n' ∉ line ∧ ∀ c, line.find? (fun c => !isBlank c) = some c → c = '#'

/-! ## Texts and their lines -/

/-- Every place in a text is in a line; this is what stands in front of it there. -/
theorem exists_line_before (before : List Char) :
    ∃ above front, before = above ++ front ∧ IsLineStart above ∧ '\n' ∉ front := by
  induction before using splitOn_induction '\n' with
  | last piece hpiece => exact ⟨[], piece, rfl, Or.inl rfl, hpiece⟩
  | more piece rest hpiece ih =>
    rcases ih with ⟨above, front, rfl, habove, hfront⟩
    refine ⟨piece ++ '\n' :: above, front, by simp, Or.inr ?_, hfront⟩
    rcases habove with rfl | ⟨lines, rfl⟩
    · exact ⟨piece, rfl⟩
    · exact ⟨piece ++ '\n' :: lines, by simp⟩

/-- Every place in a text is in a line; this is what stands behind it there. -/
theorem exists_line_after (after : List Char) :
    ∃ back below, after = back ++ below ∧ IsLineEnd below ∧ '\n' ∉ back := by
  rcases not_mem_or_cut '\n' after with h | ⟨back, rest, hback, rfl⟩
  · exact ⟨after, [], by simp, Or.inl rfl, h⟩
  · exact ⟨back, '\n' :: rest, rfl, Or.inr ⟨rest, Or.inl rfl⟩, hback⟩

theorem takeBytes_utf8Length (before after : List Char) :
    takeBytes (utf8Length before) (before ++ after) = before := by
  induction before with
  | nil => cases after <;> rfl
  | cons c before ih =>
    have hsize : c.utf8Size + utf8Length before ≠ 0 := by
      have hpos := Char.utf8Size_pos c
      omega
    rw [List.cons_append, takeBytes, utf8Length_cons, if_neg hsize, Nat.add_sub_cancel_left, ih]

theorem isPadding_singleton {c : Char} (h : isBlank c = true) (hne : '\n' ≠ c) :
    IsPadding [c] :=
  ⟨allBlank_cons.mpr ⟨h, allBlank_nil⟩, fun hmem => hne (List.mem_singleton.mp hmem)⟩

/-! ## Carriage returns -/

theorem isPadding_return : IsPadding ['\r'] := isPadding_singleton rfl (by decide)

theorem withReturns_append (a b : List Char) :
    withReturns (a ++ b) = withReturns a ++ withReturns b :=
  List.flatMap_append

theorem withReturns_of_not_mem {cs : List Char} (h : '\n' ∉ cs) : withReturns cs = cs := by
  have hkeep : ∀ c ∈ cs, (if c = '\n' then ['\r', '\n'] else [c]) = [c] := by
    intro c hc
    rw [if_neg]
    rintro rfl
    exact h hc
  rw [withReturns, List.flatMap_congr hkeep, List.flatMap_singleton']

theorem withReturns_append_lineBreak {piece : List Char} (h : '\n' ∉ piece) (rest : List Char) :
    withReturns (piece ++ '\n' :: rest) = piece ++ ['\r'] ++ '\n' :: withReturns rest := by
  have hbreak : withReturns ('\n' :: rest) = '\r' :: '\n' :: withReturns rest := rfl
  rw [withReturns_append, withReturns_of_not_mem h, hbreak]
  simp

theorem utf8Length_withReturns (cs : List Char) :
    utf8Length (withReturns cs) = utf8Length cs + cs.count '\n' := by
  induction cs using splitOn_induction '\n' with
  | last piece hpiece =>
    rw [withReturns_of_not_mem hpiece, List.count_eq_zero_of_not_mem hpiece, Nat.add_zero]
  | more piece rest hpiece ih =>
    have hbyte : '\r'.utf8Size = 1 := rfl
    rw [withReturns_append_lineBreak hpiece, List.count_append, List.count_cons_self,
      List.count_eq_zero_of_not_mem hpiece]
    simp only [utf8Length_append, utf8Length_cons, utf8Length_nil, ih, hbyte]
    omega

theorem count_withReturns (cs : List Char) : (withReturns cs).count '\n' = cs.count '\n' := by
  induction cs using splitOn_induction '\n' with
  | last piece hpiece => rw [withReturns_of_not_mem hpiece]
  | more piece rest hpiece ih =>
    rw [withReturns_append_lineBreak hpiece]
    simp [ih]

/-- A carriage return is on the line that it ends. -/
theorem lastLine_withReturns (cs : List Char) : lastLine (withReturns cs) = lastLine cs := by
  induction cs using splitOn_induction '\n' with
  | last piece hpiece => rw [withReturns_of_not_mem hpiece]
  | more piece rest hpiece ih =>
    rw [withReturns_append_lineBreak hpiece, lastLine_append_lineBreak, ih,
      lastLine_append_lineBreak]

theorem Location.after_withReturns (before : List Char) :
    Location.after (withReturns before) =
      { Location.after before with offset := utf8Length before + before.count '\n' } := by
  rw [Location.after, utf8Length_withReturns, count_withReturns, lastLine_withReturns]
  rfl

/-- The same part of a text, once the text in front has carriage returns. -/
def Occurrence.withReturns (o : Occurrence) : Occurrence :=
  ⟨BlockScript.withReturns o.before, o.text⟩

/-- A command of the script, once this has carriage returns: its offset grows by those in front. -/
def SpannedCommand.withReturns (source : List Char) (c : SpannedCommand) : SpannedCommand :=
  { c with
    start :=
      { c.start with
        offset := c.start.offset + (takeBytes c.start.offset source).count '\n' } }

namespace Script

/-! ## The tokens of one line -/

/-- Blanks do not show whether a line holds tokens, wherever they stand in it. -/
theorem holdsTokens_append_blanks {blanks : List Char} (h : AllBlank blanks)
    (front back : List Char) :
    holdsTokens (front ++ (blanks ++ back)) = holdsTokens (front ++ back) := by
  have hnone : blanks.find? (fun c => !isBlank c) = none := by
    rw [List.find?_eq_none]
    intro c hc
    simp [h c hc]
  rw [holdsTokens, holdsTokens, List.find?_append, List.find?_append, hnone, Option.none_or,
    List.find?_append]

theorem tokens_of_not_mem {line : List Char} (h : '\n' ∉ line) :
    tokens line = if holdsTokens line then lineTokens ⟨[], line⟩ else [] := by
  rw [tokens, Occurrence.cut_of_not_mem h]
  cases hholds : holdsTokens line with
  | false => simp [hholds]
  | true => simp [hholds]

theorem tokens_of_isSilent {line : List Char} (h : IsSilent line) : tokens line = [] := by
  rcases h with ⟨hline, hfirst⟩
  have hholds : holdsTokens line = false := by
    rw [holdsTokens]
    split
    · rfl
    · next c hc => simp [hfirst c hc]
  rw [tokens_of_not_mem hline, hholds]
  rfl

/-- Blanks at the end of a line do not count. -/
theorem tokens_append_padding {line blanks : List Char} (h : '\n' ∉ line)
    (hblanks : IsPadding blanks) : tokens (line ++ blanks) = tokens line := by
  have hboth : '\n' ∉ line ++ blanks := by simp [h, hblanks.2]
  have hholds := holdsTokens_append_blanks hblanks.1 line []
  simp only [List.append_nil] at hholds
  rw [tokens_of_not_mem hboth, tokens_of_not_mem h, hholds,
    lineTokens_append_blanks [] line hblanks.1]

/-! ## Carriage returns and tokens -/

/-- No carriage returns are put into a line. -/
theorem map_withReturns_tokens {line : List Char} (h : '\n' ∉ line) :
    (tokens line).map Occurrence.withReturns = tokens line := by
  have hsame : ∀ o ∈ tokens line, o.withReturns = o := by
    intro o ho
    rcases (within_of_mem_tokens ho).exists_eq with ⟨after, hafter⟩
    have hbefore : '\n' ∉ o.before := by
      intro hmem
      apply h
      rw [hafter]
      simp [hmem]
    rw [Occurrence.withReturns, withReturns_of_not_mem hbefore]
  rw [List.map_congr_left hsame, List.map_id']

/-- The tokens of a script with carriage returns are the same parts of it. -/
theorem tokens_withReturns (source : List Char) :
    tokens (withReturns source) = (tokens source).map Occurrence.withReturns := by
  induction source using splitOn_induction '\n' with
  | last line hline => rw [withReturns_of_not_mem hline, map_withReturns_tokens hline]
  | more line rest hline ih =>
    have hbehind : Occurrence.behind (line ++ ['\r'] ++ ['\n']) ∘ Occurrence.withReturns =
        Occurrence.withReturns ∘ Occurrence.behind (line ++ ['\n']) := by
      funext o
      simp [Occurrence.withReturns, Occurrence.behind, withReturns_append_lineBreak hline]
    rw [withReturns_append_lineBreak hline, tokens_joined, tokens_joined, ih,
      tokens_append_padding hline isPadding_return, List.map_append, List.map_map, List.map_map,
      hbehind, map_withReturns_tokens hline]

/-- The command of a token, with the place that it has once there are carriage returns. -/
theorem commandAt_withReturns {o : Occurrence} {source after : List Char}
    (hsource : source = o.before ++ after) :
    commandAt o.withReturns = (commandAt o).map (SpannedCommand.withReturns source) := by
  have htake : takeBytes (utf8Length o.before) source = o.before := by
    rw [hsource, takeBytes_utf8Length]
  rw [commandAt, commandAt, Option.map_map, Occurrence.withReturns, Location.after_withReturns]
  simp only [Location.after, Function.comp_def, SpannedCommand.withReturns, htake]

theorem spannedCommands_withReturns (source : List Char) :
    spannedCommands (withReturns source) =
      (spannedCommands source).map (SpannedCommand.withReturns source) := by
  rw [spannedCommands_eq, spannedCommands_eq, tokens_withReturns, List.filterMap_map,
    List.map_filterMap]
  apply List.filterMap_congr
  intro o ho
  rcases (within_of_mem_tokens ho).exists_eq with ⟨after, hafter⟩
  exact commandAt_withReturns (hafter.trans (List.append_assoc ..))

/-! ## Words -/

/-- The texts of the tokens. -/
def words (source : List Char) : List (List Char) := (tokens source).map Occurrence.text

theorem commands_eq (source : List Char) :
    commands source = (words source).filterMap Token.parse := by
  have hcommand : ∀ o, (commandAt o).map SpannedCommand.command = Token.parse o.text := by
    intro o
    rw [commandAt, Option.map_map]
    exact Option.map_id' (x := Token.parse o.text)
  rw [commands, spannedCommands_eq, List.map_filterMap, words, List.filterMap_map]
  exact List.filterMap_congr fun o _ => hcommand o

theorem map_text_behind (front : List Char) (os : List Occurrence) :
    (os.map (Occurrence.behind front)).map Occurrence.text = os.map Occurrence.text := by
  rw [List.map_map]
  rfl

theorem words_nil : words [] = [] := rfl

theorem words_joined (a b : List Char) : words (a ++ '\n' :: b) = words a ++ words b := by
  rw [words, tokens_joined, List.map_append, map_text_behind]
  rfl

theorem words_append_of_isLineStart {above : List Char} (h : IsLineStart above)
    (rest : List Char) : words (above ++ rest) = words above ++ words rest := by
  rcases h with rfl | ⟨front, rfl⟩
  · rfl
  · rw [List.append_assoc, List.singleton_append, words_joined, words_joined, words_nil,
      List.append_nil]

/-- Blanks at the end of a text do not count. -/
theorem words_append_padding (text : List Char) {blanks : List Char} (h : IsPadding blanks) :
    words (text ++ blanks) = words text := by
  rcases exists_line_before text with ⟨above, line, rfl, habove, hline⟩
  have hlast : words (line ++ blanks) = words line := by
    rw [words, tokens_append_padding hline h, words]
  rw [List.append_assoc, words_append_of_isLineStart habove, words_append_of_isLineStart habove,
    hlast]

theorem words_append_of_isLineEnd {below : List Char} (h : IsLineEnd below)
    (front : List Char) : words (front ++ below) = words front ++ words below := by
  rcases h with rfl | ⟨rest, rfl | rfl⟩
  · rw [List.append_nil, words_nil, List.append_nil]
  · rw [words_joined, ← List.nil_append ('\n' :: rest), words_joined, words_nil, List.nil_append]
  · have hreturn : words ['\r'] = [] := words_append_padding [] isPadding_return
    rw [← List.singleton_append, ← List.append_assoc, words_joined, words_joined, hreturn,
      words_append_padding front isPadding_return, List.nil_append]

/-- What is done to one line is of no account if the line keeps its words. -/
theorem words_congr_line {above below line line' : List Char} (habove : IsLineStart above)
    (hbelow : IsLineEnd below) (h : words line' = words line) :
    words (above ++ (line' ++ below)) = words (above ++ (line ++ below)) := by
  rw [words_append_of_isLineStart habove, words_append_of_isLineStart habove,
    words_append_of_isLineEnd hbelow, words_append_of_isLineEnd hbelow, h]

theorem words_of_isSilent {line : List Char} (h : IsSilent line) : words line = [] := by
  rw [words, tokens_of_isSilent h]
  rfl

/-! ## Words of a line -/

/-- The texts of the tokens of a line, were it no comment. -/
def lineWords (line : List Char) : List (List Char) :=
  (lineTokens ⟨[], line⟩).map Occurrence.text

theorem words_of_not_mem {line : List Char} (h : '\n' ∉ line) :
    words line = if holdsTokens line then lineWords line else [] := by
  rw [words, tokens_of_not_mem h, apply_ite (List.map Occurrence.text)]
  rfl

/-- Where a line stands is of no account for its words. -/
theorem map_text_lineTokens (before line : List Char) :
    (lineTokens ⟨before, line⟩).map Occurrence.text = lineWords line := by
  have hbehind : (⟨before, line⟩ : Occurrence) = Occurrence.behind before ⟨[], line⟩ := by
    simp [Occurrence.behind]
  rw [hbehind, lineTokens_behind, map_text_behind, lineWords]

/-- A line may be cut at any of its spaces. -/
theorem lineWords_append (front back : List Char) :
    lineWords (front ++ ' ' :: back) = lineWords front ++ lineWords back := by
  rw [lineWords, lineTokens, Occurrence.cut_append, trimmed, List.map_append, List.filter_append,
    List.map_append, ← map_text_lineTokens ([] ++ front ++ [' ']) back]
  rfl

theorem lineWords_blanks_append {blanks : List Char} (h : AllBlank blanks) (line : List Char) :
    lineWords (blanks ++ line) = lineWords line := by
  rw [lineWords, lineTokens_append_of_allBlank h, map_text_lineTokens]

/-- Blanks at the start of a line do not count. -/
theorem words_padding_append {line blanks : List Char} (h : '\n' ∉ line)
    (hblanks : IsPadding blanks) : words (blanks ++ line) = words line := by
  have hboth : '\n' ∉ blanks ++ line := by simp [h, hblanks.2]
  have hholds : holdsTokens (blanks ++ line) = holdsTokens line :=
    holdsTokens_append_blanks hblanks.1 [] line
  rw [words_of_not_mem hboth, words_of_not_mem h, hholds, lineWords_blanks_append hblanks.1]

/-- Blanks behind a space do not count. -/
theorem words_widened {front back blanks : List Char} (hfront : '\n' ∉ front)
    (hback : '\n' ∉ back) (hblanks : IsPadding blanks) :
    words (front ++ ' ' :: (blanks ++ back)) = words (front ++ ' ' :: back) := by
  have hwide : '\n' ∉ front ++ ' ' :: (blanks ++ back) := by simp [hfront, hback, hblanks.2]
  have hnarrow : '\n' ∉ front ++ ' ' :: back := by simp [hfront, hback]
  have hholds : holdsTokens (front ++ ' ' :: (blanks ++ back)) =
      holdsTokens (front ++ ' ' :: back) := by
    have hspace := holdsTokens_append_blanks hblanks.1 (front ++ [' ']) back
    simpa using hspace
  rw [words_of_not_mem hwide, words_of_not_mem hnarrow, hholds, lineWords_append,
    lineWords_append, lineWords_blanks_append hblanks.1]

/-! ## Changes of the spacing -/

/-- One change of how a script is laid out. -/
inductive Respaced : List Char → List Char → Prop
  /-- Every line break gets a carriage return in front of it. -/
  | returns (source : List Char) : Respaced source (withReturns source)
  /-- A run of spaces gets longer. -/
  | gap {before blanks after : List Char} (hblanks : IsPadding blanks) :
      Respaced (before ++ ' ' :: after) (before ++ ' ' :: (blanks ++ after))
  /-- Blanks are put in front of a line. -/
  | leading {above blanks rest : List Char} (habove : IsLineStart above)
      (hblanks : IsPadding blanks) : Respaced (above ++ rest) (above ++ (blanks ++ rest))
  /-- Blanks are put behind a line. -/
  | trailing {front blanks below : List Char} (hbelow : IsLineEnd below)
      (hblanks : IsPadding blanks) : Respaced (front ++ below) (front ++ (blanks ++ below))
  /-- A blank line or a comment is put above a line. -/
  | line {above line below : List Char} (habove : IsLineStart above) (hline : IsSilent line) :
      Respaced (above ++ below) (above ++ (line ++ '\n' :: below))
  /-- A blank line or a comment is put below the last line. -/
  | lastLine {source line : List Char} (hline : IsSilent line) :
      Respaced source (source ++ '\n' :: line)

/-- Each change leaves the words as they are. -/
theorem words_of_respaced {source other : List Char} (h : Respaced source other) :
    words other = words source := by
  cases h with
  | returns =>
    rw [words, tokens_withReturns, List.map_map]
    rfl
  | @gap before blanks after hblanks =>
    rcases exists_line_before before with ⟨above, front, rfl, habove, hfront⟩
    rcases exists_line_after after with ⟨back, below, rfl, hbelow, hback⟩
    have hwords := words_congr_line habove hbelow (words_widened hfront hback hblanks)
    simpa using hwords
  | @leading above blanks rest habove hblanks =>
    rcases exists_line_after rest with ⟨line, below, rfl, hbelow, hline⟩
    have hwords := words_congr_line habove hbelow (words_padding_append hline hblanks)
    simpa using hwords
  | @trailing front blanks below hbelow hblanks =>
    rw [← List.append_assoc, words_append_of_isLineEnd hbelow, words_append_of_isLineEnd hbelow,
      words_append_padding front hblanks]
  | @line above line below habove hline =>
    rw [words_append_of_isLineStart habove, words_append_of_isLineStart habove, words_joined,
      words_of_isSilent hline, List.nil_append]
  | lastLine hline =>
    rw [words_joined, words_of_isSilent hline, List.append_nil]

/-- So does any number of them. -/
theorem words_of_respacings {source other : List Char}
    (h : Relation.ReflTransGen Respaced source other) : words other = words source := by
  induction h with
  | refl => rfl
  | tail _ hstep ih => rw [words_of_respaced hstep, ih]

/-- However often the spacing of a script is changed, its commands stay as they are, the messages of
those that are mistakes included. Carriage returns also keep the line, the column and the length of
every command; its offset grows by the number of line breaks in front of it. -/
theorem respacings_keep_commands :
    (∀ source other, Relation.ReflTransGen Respaced source other →
      commands other = commands source) ∧
    ∀ source, spannedCommands (withReturns source) = (spannedCommands source).map fun c =>
      { c with
        start :=
          { c.start with
            offset := c.start.offset + (takeBytes c.start.offset source).count '\n' } } := by
  refine ⟨?_, spannedCommands_withReturns⟩
  intro source other h
  rw [commands_eq, commands_eq, words_of_respacings h]

/-- A comment above, a tab in front, a wider gap and a carriage return. -/
theorem respacings_keep_commands_commented :
    Relation.ReflTransGen Respaced "block end\nspace-2".toList
      "# top\n\tblock  end\r\nspace-2".toList ∧
    commands "# top\n\tblock  end\r\nspace-2".toList = [.block {}, .newline, .space 2] := by
  have hgap : Respaced "block end\nspace-2".toList "block  end\nspace-2".toList := by
    convert @Respaced.gap "block".toList [' '] "end\nspace-2".toList
      (isPadding_singleton rfl (by decide)) using 1
    · decide +kernel
    · decide +kernel
  have hreturns : Respaced "block  end\nspace-2".toList "block  end\r\nspace-2".toList := by
    convert Respaced.returns "block  end\nspace-2".toList using 1
    decide +kernel
  have hleading : Respaced "block  end\r\nspace-2".toList
      "\tblock  end\r\nspace-2".toList := by
    convert @Respaced.leading [] ['\t'] "block  end\r\nspace-2".toList (Or.inl rfl)
      (isPadding_singleton rfl (by decide)) using 1
    · decide +kernel
    · decide +kernel
  have hsilent : IsSilent "# top".toList := by
    have hfirst : "# top".toList.find? (fun c => !isBlank c) = some '#' := by decide +kernel
    exact ⟨by decide +kernel, fun c hc => Option.some.inj (hc.symm.trans hfirst)⟩
  have hcomment : Respaced "\tblock  end\r\nspace-2".toList
      "# top\n\tblock  end\r\nspace-2".toList := by
    convert @Respaced.line [] "# top".toList "\tblock  end\r\nspace-2".toList (Or.inl rfl) hsilent
      using 1
    · decide +kernel
    · decide +kernel
  have hsteps := (((Relation.ReflTransGen.single hgap).tail hreturns).tail hleading).tail hcomment
  refine ⟨hsteps, ?_⟩
  rw [respacings_keep_commands.1 _ _ hsteps]
  decide +kernel

end Script

end BlockScript
