import BlockScript.Proofs.Script.Grammar
import BlockScript.Proofs.Script.Position
import BlockScript.Proofs.Text.Occurrence
import BlockScript.Script.Basic
import Mathlib.Data.List.Basic

namespace BlockScript

/-! # The tokens of a script

`Script.tokens` says which parts of a script are its tokens, and where they stand: the lines are cut
out, those that hold no tokens are left out, the others are cut at their spaces, and the pieces are
trimmed. Reading a script gives the commands of these tokens and nothing else, in their order and at
their places (`spannedCommands_eq`). The reader trims a line before it cuts it and keeps count of
bytes and columns; cutting the whole line and measuring the text in front comes to the same.
-/

namespace Script

/-- A line holds tokens when it has a character that is no blank, and the first such is not `#`. -/
def holdsTokens (line : List Char) : Bool :=
  match line.find? (fun c => !isBlank c) with
  | none => false
  | some c => c != '#'

/-- Trims pieces, and keeps those of which something is left. -/
def trimmed (pieces : List Occurrence) : List Occurrence :=
  (pieces.map Occurrence.trim).filter (fun o => !o.text.isEmpty)

/-- The tokens of a line stand between its spaces. -/
def lineTokens (line : Occurrence) : List Occurrence := trimmed (line.cut ' ')

/-- The tokens of a script, each with the text in front of it. -/
def tokens (source : List Char) : List Occurrence :=
  ((Occurrence.cut '\n' ⟨[], source⟩).filter fun line => holdsTokens line.text).flatMap lineTokens

/-- The command that a token asks for, at the place of the token. -/
def commandAt (o : Occurrence) : Option SpannedCommand :=
  (Token.parse o.text).map fun command => ⟨command, o.text, .after o.before⟩

/-! ## Trimming the pieces of a line -/

theorem trimmed_cons (piece : Occurrence) (pieces : List Occurrence) :
    trimmed (piece :: pieces) = trimmed [piece] ++ trimmed pieces := by
  rw [trimmed, List.map_cons, List.filter_cons]
  simp only [trimmed, List.map_cons, List.map_nil, List.filter_cons, List.filter_nil]
  split <;> rfl

theorem trimmed_of_allBlank {text : List Char} (h : AllBlank text) (before : List Char) :
    trimmed [⟨before, text⟩] = [] := by
  simp [trimmed, Occurrence.trim, trim_eq_nil h]

theorem lineTokens_of_not_mem {piece : List Char} (h : ' ' ∉ piece) (before : List Char) :
    lineTokens ⟨before, piece⟩ = trimmed [⟨before, piece⟩] := by
  rw [lineTokens, Occurrence.cut_of_not_mem h]

theorem lineTokens_append_space {piece : List Char} (h : ' ' ∉ piece) (before rest : List Char) :
    lineTokens ⟨before, piece ++ ' ' :: rest⟩ =
      trimmed [⟨before, piece⟩] ++ lineTokens ⟨before ++ piece ++ [' '], rest⟩ := by
  rw [lineTokens, Occurrence.cut_append_separator h, trimmed_cons, lineTokens]

/-- A blank at the start of a piece may as well be counted to the text in front of it. -/
theorem trimmed_cons_of_isBlank {c : Char} (h : isBlank c = true) (before text : List Char) :
    trimmed [⟨before, c :: text⟩] = trimmed [⟨before ++ [c], text⟩] := by
  simp [trimmed, Occurrence.trim, trim_cons_of_isBlank h, h]

/-- A blank at the start of a line may as well be counted to the text in front of it. -/
theorem lineTokens_cons_of_isBlank {c : Char} (h : isBlank c = true) (before text : List Char) :
    lineTokens ⟨before, c :: text⟩ = lineTokens ⟨before ++ [c], text⟩ := by
  by_cases hc : c = ' '
  · subst hc
    -- the space ends an empty piece, of which nothing is left
    have hempty := lineTokens_append_space (List.not_mem_nil (a := ' ')) before text
    rw [trimmed_of_allBlank allBlank_nil] at hempty
    simpa using hempty
  · have hne : ' ' ≠ c := fun heq => hc heq.symm
    rcases not_mem_or_cut ' ' text with htext | ⟨piece, rest, hpiece, rfl⟩
    · have hcons : ' ' ∉ c :: text := by simp [hne, htext]
      rw [lineTokens_of_not_mem hcons, lineTokens_of_not_mem htext, trimmed_cons_of_isBlank h]
    · have hcons : ' ' ∉ c :: piece := by simp [hne, hpiece]
      rw [← List.cons_append, lineTokens_append_space hcons, lineTokens_append_space hpiece,
        trimmed_cons_of_isBlank h]
      simp

/-- Blanks at the start of a line may as well be counted to the text in front of it. -/
theorem lineTokens_append_of_allBlank {blanks : List Char} (h : AllBlank blanks)
    (before text : List Char) :
    lineTokens ⟨before, blanks ++ text⟩ = lineTokens ⟨before ++ blanks, text⟩ := by
  induction blanks generalizing before with
  | nil => simp
  | cons c blanks ih =>
    obtain ⟨hc, hblanks⟩ := allBlank_cons.mp h
    rw [List.cons_append, lineTokens_cons_of_isBlank hc, ih hblanks]
    simp

theorem lineTokens_of_allBlank {text : List Char} (h : AllBlank text) (before : List Char) :
    lineTokens ⟨before, text⟩ = [] := by
  have hshift := lineTokens_append_of_allBlank h before []
  rw [List.append_nil] at hshift
  rw [hshift, lineTokens_of_not_mem List.not_mem_nil]
  exact trimmed_of_allBlank allBlank_nil _

/-- Blanks behind a piece do not count. -/
theorem trimmed_append_of_allBlank (before piece : List Char) {blanks : List Char}
    (h : AllBlank blanks) :
    trimmed [⟨before, piece ++ blanks⟩] = trimmed [⟨before, piece⟩] := by
  by_cases hpiece : AllBlank piece
  · rw [trimmed_of_allBlank hpiece, trimmed_of_allBlank (allBlank_append.mpr ⟨hpiece, h⟩)]
  · have hne : trim piece ≠ [] := fun hnil => hpiece (trim_eq_nil_iff.mp hnil)
    simp only [trimmed, List.map_cons, List.map_nil, Occurrence.trim]
    rw [trim_append_of_allBlank piece h, takeWhile_isBlank_append hne]

/-- Blanks behind the last space of a line do not count. -/
theorem lineTokens_piece_append_of_allBlank {piece : List Char} (hpiece : ' ' ∉ piece)
    (before : List Char) {blanks : List Char} (h : AllBlank blanks) :
    lineTokens ⟨before, piece ++ blanks⟩ = lineTokens ⟨before, piece⟩ := by
  rw [lineTokens_of_not_mem hpiece]
  rcases not_mem_or_cut ' ' blanks with hblanks | ⟨front, rest, hfront, rfl⟩
  · have hboth : ' ' ∉ piece ++ blanks := by simp [hpiece, hblanks]
    rw [lineTokens_of_not_mem hboth]
    exact trimmed_append_of_allBlank before piece h
  · -- behind the first of these spaces there are only blanks, and so no tokens
    obtain ⟨hfrontBlank, hspaceRest⟩ := allBlank_append.mp h
    obtain ⟨-, hrest⟩ := allBlank_cons.mp hspaceRest
    have hboth : ' ' ∉ piece ++ front := by simp [hpiece, hfront]
    rw [← List.append_assoc, lineTokens_append_space hboth, lineTokens_of_allBlank hrest,
      List.append_nil]
    exact trimmed_append_of_allBlank before piece hfrontBlank

/-- Blanks at the end of a line do not count. -/
theorem lineTokens_append_blanks (before text : List Char) {blanks : List Char}
    (h : AllBlank blanks) :
    lineTokens ⟨before, text ++ blanks⟩ = lineTokens ⟨before, text⟩ := by
  induction text using splitOn_induction ' ' generalizing before with
  | last piece hpiece => exact lineTokens_piece_append_of_allBlank hpiece before h
  | more piece rest hpiece ih =>
    rw [List.append_assoc, List.cons_append, lineTokens_append_space hpiece,
      lineTokens_append_space hpiece, ih]

/-- Trimming a line before it is cut gives the same tokens at the same places. -/
theorem lineTokens_trim (line : Occurrence) : lineTokens line.trim = lineTokens line := by
  obtain ⟨before, text⟩ := line
  obtain ⟨tail, htail, htext⟩ := exists_eq_trim_append text
  calc lineTokens ⟨before ++ text.takeWhile isBlank, trim text⟩
      = lineTokens ⟨before ++ text.takeWhile isBlank, trim text ++ tail⟩ :=
        (lineTokens_append_blanks _ _ htail).symm
    _ = lineTokens ⟨before, text.takeWhile isBlank ++ (trim text ++ tail)⟩ :=
        (lineTokens_append_of_allBlank (allBlank_takeWhile text) _ _).symm
    _ = lineTokens ⟨before, text⟩ := by rw [← List.append_assoc, ← htext]

/-! ## Reading a line -/

/-- The blanks that begin a piece move its place to the first character of its token. -/
theorem advance_indent (before : List Char) {text : List Char} (h : '\n' ∉ text) :
    (Location.after before).advance (text.takeWhile isBlank) =
      .after (before ++ text.takeWhile isBlank) :=
  Location.advance_after before fun hmem => h (List.takeWhile_subset _ hmem)

theorem commandAt_trim (piece : Occurrence) :
    commandAt piece.trim =
      (Token.parse piece.text).map fun command =>
        ⟨command, trim piece.text, .after (piece.before ++ piece.text.takeWhile isBlank)⟩ := by
  rw [commandAt, Occurrence.trim, Token.parse_trim]

/-- Blank pieces ask for nothing, so it does not matter whether they are kept. -/
theorem filterMap_commandAt_trimmed (pieces : List Occurrence) :
    (trimmed pieces).filterMap commandAt = pieces.filterMap fun piece => commandAt piece.trim := by
  rw [trimmed, List.filterMap_filter, List.filterMap_map]
  congr 1
  funext piece
  by_cases h : piece.trim.text = []
  · have hnone : commandAt piece.trim = none := by
      rw [commandAt, h]
      rfl
    simp [hnone]
  · simp [h]

/-- The commands of the pieces of a text stand at the places of its tokens. -/
theorem pieceCommands_eq (before : List Char) {text : List Char} (h : '\n' ∉ text) :
    pieceCommands (.after before) (text.splitOn ' ') =
      (lineTokens ⟨before, text⟩).filterMap commandAt := by
  rw [lineTokens, filterMap_commandAt_trimmed]
  -- the reader keeps the place of the next piece, which is always behind the text before it
  induction text using splitOn_induction ' ' generalizing before with
  | last piece hpiece =>
    rw [List.splitOn_eq_singleton hpiece, Occurrence.cut_of_not_mem hpiece, pieceCommands,
      pieceCommands, advance_indent before h, List.filterMap_cons, commandAt_trim]
    cases Token.parse piece <;> rfl
  | more piece rest hpiece ih =>
    simp only [List.mem_append, List.mem_cons, not_or] at h
    obtain ⟨hpieceLine, -, hrestLine⟩ := h
    have hstep : '\n' ∉ piece ++ [' '] := by simp [hpieceLine]
    have hrest := ih (before ++ (piece ++ [' '])) hrestLine
    rw [List.splitOn_append_cons_self_of_not_mem hpiece, Occurrence.cut_append_separator hpiece,
      pieceCommands, advance_indent before hpieceLine, Location.advance_after before hstep, hrest,
      List.filterMap_cons, commandAt_trim, List.append_assoc before]
    cases Token.parse piece <;> rfl

theorem isSkipped_eq (line : List Char) : isSkipped line = !holdsTokens line := by
  rw [holdsTokens, ← head?_trim, isSkipped]
  cases trim line with
  | nil => rfl
  | cons c rest => simp [bne]

/-- The commands of a line are those of its tokens. -/
theorem lineCommands_eq (before : List Char) {line : List Char} (h : '\n' ∉ line) :
    lineCommands (.after before) line =
      if holdsTokens line then (lineTokens ⟨before, line⟩).filterMap commandAt else [] := by
  rw [lineCommands, isSkipped_eq]
  cases holdsTokens line with
  | false => rfl
  | true =>
    have htrim : '\n' ∉ trim line := fun hmem => h ((trim_isInfix line).mem hmem)
    rw [advance_indent before h]
    simp only [Bool.not_true, Bool.false_eq_true, if_false, if_true]
    rw [pieceCommands_eq _ htrim, ← lineTokens_trim ⟨before, line⟩]
    rfl

/-! ## Reading all lines -/

/-- The offset and the index that are kept from line to line measure the text above. -/
theorem linesCommands_eq (before text : List Char) :
    linesCommands (utf8Length before) (before.count '\n') (text.splitOn '\n') =
      (Occurrence.cut '\n' ⟨before, text⟩).flatMap fun line =>
        lineCommands (.lineStart (utf8Length line.before) (line.before.count '\n')) line.text := by
  induction text using splitOn_induction '\n' generalizing before with
  | last line hline =>
    rw [List.splitOn_eq_singleton hline, Occurrence.cut_of_not_mem hline, linesCommands,
      linesCommands]
    rfl
  | more line rest hline ih =>
    have hrest := ih (before ++ line ++ ['\n'])
    -- one more line break, which is one byte
    have hoffset : utf8Length (before ++ line ++ ['\n']) =
        utf8Length before + utf8Length line + 1 := by
      simp only [utf8Length_append, utf8Length_cons, utf8Length_nil]
      rfl
    have hindex : (before ++ line ++ ['\n']).count '\n' = before.count '\n' + 1 := by
      simp [List.count_eq_zero_of_not_mem hline]
    rw [hoffset, hindex] at hrest
    rw [List.splitOn_append_cons_self_of_not_mem hline, Occurrence.cut_append_separator hline,
      linesCommands, hrest, List.flatMap_cons]

/-- Leaving lines out is the same as taking nothing from them. -/
theorem flatMap_filter {α : Type} (p : Occurrence → Bool) (f : Occurrence → List α)
    (lines : List Occurrence) :
    (lines.filter p).flatMap f = lines.flatMap fun line => if p line then f line else [] := by
  induction lines with
  | nil => rfl
  | cons line lines ih =>
    cases h : p line with
    | false => simp [h, ih]
    | true => simp [h, ih]

/-- A script's commands are those of its tokens, in order and at their places. -/
theorem spannedCommands_eq (source : List Char) :
    spannedCommands source = (tokens source).filterMap commandAt := by
  have hlines : ∀ line ∈ Occurrence.cut '\n' ⟨[], source⟩,
      lineCommands (.lineStart (utf8Length line.before) (line.before.count '\n')) line.text =
        if holdsTokens line.text then (lineTokens line).filterMap commandAt else [] := by
    intro line hline
    -- a line begins the script or stands behind a line break, so its first column is one
    have hstart : IsLineStart line.before := Occurrence.before_of_mem_cut hline
    rw [Location.lineStart_eq_after hstart]
    exact lineCommands_eq line.before (Occurrence.not_mem_of_mem_cut hline)
  have hread : spannedCommands source = (Occurrence.cut '\n' ⟨[], source⟩).flatMap fun line =>
      lineCommands (.lineStart (utf8Length line.before) (line.before.count '\n')) line.text :=
    linesCommands_eq [] source
  rw [hread, List.flatMap_congr hlines, tokens, List.filterMap_flatMap, flatMap_filter]

/-! ## What the tokens of a script are -/

theorem mem_trimmed {o : Occurrence} {pieces : List Occurrence} (h : o ∈ trimmed pieces) :
    o.text ≠ [] ∧ ∃ piece ∈ pieces, o = piece.trim := by
  rw [trimmed, List.mem_filter] at h
  obtain ⟨hmem, htext⟩ := h
  obtain ⟨piece, hpiece, rfl⟩ := List.mem_map.mp hmem
  refine ⟨?_, piece, hpiece, rfl⟩
  simpa using htext

theorem within_of_mem_lineTokens {o line : Occurrence} (h : o ∈ lineTokens line) :
    o.Within line := by
  obtain ⟨-, piece, hpiece, rfl⟩ := mem_trimmed h
  exact (Occurrence.within_trim piece).trans (Occurrence.within_of_mem_cut hpiece)

theorem mem_tokens {o : Occurrence} {source : List Char} (h : o ∈ tokens source) :
    ∃ line ∈ Occurrence.cut '\n' ⟨[], source⟩, o ∈ lineTokens line := by
  obtain ⟨line, hline, ho⟩ := List.mem_flatMap.mp h
  exact ⟨line, List.mem_of_mem_filter hline, ho⟩

/-- Every token stands in the script. -/
theorem within_of_mem_tokens {o : Occurrence} {source : List Char} (h : o ∈ tokens source) :
    o.Within ⟨[], source⟩ := by
  obtain ⟨line, hline, ho⟩ := mem_tokens h
  exact (within_of_mem_lineTokens ho).trans (Occurrence.within_of_mem_cut hline)

/-- Every token is trimmed, and something is left of it. -/
theorem trim_of_mem_tokens {o : Occurrence} {source : List Char} (h : o ∈ tokens source) :
    trim o.text = o.text ∧ o.text ≠ [] := by
  obtain ⟨line, -, ho⟩ := mem_tokens h
  obtain ⟨hne, piece, -, rfl⟩ := mem_trimmed ho
  exact ⟨trim_trim piece.text, hne⟩

/-- Pieces that stand one after the other still do so once they are trimmed. -/
theorem pairwise_trimmed {pieces : List Occurrence} (h : pieces.Pairwise Occurrence.Precedes) :
    (trimmed pieces).Pairwise Occurrence.Precedes := by
  have hmap : (pieces.map Occurrence.trim).Pairwise Occurrence.Precedes := by
    rw [List.pairwise_map]
    exact h.imp fun hop => hop.of_within (Occurrence.within_trim _) (Occurrence.within_trim _)
  exact hmap.filter _

/-- Tokens stand one after the other, with a character between each two. -/
theorem pairwise_tokens (source : List Char) : (tokens source).Pairwise Occurrence.Precedes := by
  rw [tokens, List.pairwise_flatMap]
  constructor
  · -- within one line
    intro line _
    exact pairwise_trimmed (Occurrence.pairwise_cut ' ' line)
  · -- in different lines
    apply List.Pairwise.filter
    refine (Occurrence.pairwise_cut '\n' _).imp ?_
    intro line other hlines o ho p hp
    exact hlines.of_within (within_of_mem_lineTokens ho) (within_of_mem_lineTokens hp)

/-- Without their places, the tokens are the trimmed pieces of the lines. -/
theorem map_text_tokens (source : List Char) :
    (tokens source).map Occurrence.text =
      ((source.splitOn '\n').filter holdsTokens).flatMap fun line =>
        ((line.splitOn ' ').map trim).filter fun token => !token.isEmpty := by
  have hpieces : ∀ line : Occurrence, (lineTokens line).map Occurrence.text =
      ((line.text.splitOn ' ').map trim).filter fun token => !token.isEmpty := by
    intro line
    have hcomp : trim ∘ Occurrence.text = Occurrence.text ∘ Occurrence.trim := rfl
    rw [← Occurrence.map_text_cut ' ' line, List.map_map, hcomp, ← List.map_map, List.filter_map]
    rfl
  have hlines : (source.splitOn '\n').filter holdsTokens =
      ((Occurrence.cut '\n' ⟨[], source⟩).filter fun line => holdsTokens line.text).map
        Occurrence.text := by
    rw [← Occurrence.map_text_cut '\n' ⟨[], source⟩, List.filter_map]
    rfl
  rw [tokens, List.map_flatMap, hlines, List.flatMap_map]
  exact List.flatMap_congr fun line _ => hpieces line

/-! ## What the commands of a script are -/

theorem commandAt_eq_some {o : Occurrence} {c : SpannedCommand} :
    commandAt o = some c ↔
      Token.parse o.text = some c.command ∧ c.token = o.text ∧ c.start = .after o.before := by
  obtain ⟨command, token, start⟩ := c
  simp only [commandAt, Option.map_eq_some_iff, SpannedCommand.mk.injEq]
  constructor
  · rintro ⟨_, hparse, rfl, rfl, rfl⟩
    exact ⟨hparse, rfl, rfl⟩
  · rintro ⟨hparse, rfl, rfl⟩
    exact ⟨command, hparse, rfl, rfl, rfl⟩

theorem mem_spannedCommands {c : SpannedCommand} {source : List Char} :
    c ∈ spannedCommands source ↔ ∃ o ∈ tokens source, commandAt o = some c := by
  rw [spannedCommands_eq, List.mem_filterMap]

/-- Every token of a script asks for something. -/
theorem exists_commandAt {o : Occurrence} {source : List Char} (h : o ∈ tokens source) :
    ∃ c, commandAt o = some c := by
  obtain ⟨htrim, hne⟩ := trim_of_mem_tokens h
  cases hparse : Token.parse o.text with
  | none =>
    rw [Token.parse_eq_none_iff, htrim] at hparse
    exact absurd hparse hne
  | some command =>
    exact ⟨⟨command, o.text, .after o.before⟩, commandAt_eq_some.mpr ⟨hparse, rfl, rfl⟩⟩

/-- No token is left out: the commands match the tokens one by one. -/
theorem map_spannedCommands (source : List Char) :
    (spannedCommands source).map (fun c => (c.token, c.start, some c.command)) =
      (tokens source).map fun o => (o.text, Location.after o.before, Token.parse o.text) := by
  have hall : ∀ o ∈ tokens source, ∃ c, commandAt o = some c := fun o ho => exists_commandAt ho
  rw [spannedCommands_eq]
  -- that a token asks for something is all that is needed to know about tokens here
  generalize tokens source = os at hall ⊢
  induction os with
  | nil => rfl
  | cons o rest ih =>
    obtain ⟨c, hc⟩ := hall o (List.mem_cons_self ..)
    obtain ⟨hparse, htoken, hstart⟩ := commandAt_eq_some.mp hc
    rw [List.filterMap_cons_some hc, List.map_cons, List.map_cons, hparse, htoken, hstart,
      ih fun p hp => hall p (List.mem_cons_of_mem _ hp)]

/-- A command ends before the next one begins. -/
theorem stop_lt_start {o p : Occurrence} {c d : SpannedCommand} (h : o.Precedes p)
    (hc : commandAt o = some c) (hd : commandAt p = some d) : c.stop < d.start.offset := by
  obtain ⟨-, htoken, hstart⟩ := commandAt_eq_some.mp hc
  obtain ⟨-, -, hstart'⟩ := commandAt_eq_some.mp hd
  obtain ⟨between, rest, hrest⟩ := h
  have hsize : 0 < between.utf8Size := Char.utf8Size_pos between
  rw [SpannedCommand.stop, SpannedCommand.length, htoken, hstart, hstart', Location.after,
    Location.after, ← hrest]
  simp only [Occurrence.upTo, utf8Length_append, utf8Length_cons, utf8Length_nil]
  omega

/-- The commands of a script are those of its tokens: the lines that hold tokens, cut at their
spaces and trimmed, in order. Each has the place and the value of its token. -/
theorem spannedCommands_locate_tokens (source : List Char) :
    (spannedCommands source).map (·.token) =
      (((source.splitOn '\n').filter holdsTokens).flatMap fun line =>
        ((line.splitOn ' ').map trim).filter fun token => !token.isEmpty) ∧
    (spannedCommands source).map (fun c => (c.token, c.start, some c.command)) =
      (tokens source).map (fun o => (o.text, Location.after o.before, Token.parse o.text)) ∧
    (∀ c ∈ spannedCommands source, ∃ before after,
      source = before ++ c.token ++ after ∧
        c.start.offset = utf8Length before ∧
        c.stop = utf8Length (before ++ c.token) ∧
        c.start.line = min maxPosition (1 + before.count '\n') ∧
        c.start.column = min maxPosition (1 + (lastLine before).length) ∧
        Token.parse c.token = some c.command) ∧
    (spannedCommands source).Pairwise (fun c d => c.stop < d.start.offset) ∧
    commands source = (spannedCommands source).map (·.command) := by
  refine ⟨?_, map_spannedCommands source, ?_, ?_, rfl⟩
  · have hmap := congrArg (List.map Prod.fst) (map_spannedCommands source)
    rw [List.map_map, List.map_map] at hmap
    exact hmap.trans (map_text_tokens source)
  · intro c hc
    obtain ⟨o, ho, hcommand⟩ := mem_spannedCommands.mp hc
    obtain ⟨hparse, htoken, hstart⟩ := commandAt_eq_some.mp hcommand
    obtain ⟨after, hsource⟩ := (within_of_mem_tokens ho).exists_eq
    refine ⟨o.before, after, ?_, ?_, ?_, ?_, ?_, ?_⟩
    · rw [htoken, hsource]
    · rw [hstart, Location.after]
    · rw [SpannedCommand.stop, SpannedCommand.length, hstart, Location.after, utf8Length_append]
    · simp only [hstart, Location.after]
      omega
    · simp only [hstart, Location.after]
      omega
    · rw [htoken, hparse]
  · rw [spannedCommands_eq, List.pairwise_filterMap]
    exact (pairwise_tokens source).imp fun h c hc d hd => stop_lt_start h hc hd

end Script

end BlockScript
