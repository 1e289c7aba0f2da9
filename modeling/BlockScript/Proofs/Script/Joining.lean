import BlockScript.Output.Dump
import BlockScript.Proofs.Drawing.Replay
import BlockScript.Proofs.Script.Tokens

namespace BlockScript

/-! # Joining scripts

Two scripts with a line break between them are one script. Its tokens are those of the first and
those of the second moved behind it (`tokens_joined`), since a line break ends every line, comment
and token of the first. Everything that is made of the tokens is joined likewise: the commands with
their places, the calls to a renderer, and the dumped lines.
-/

/-! ## Occurrences behind a text -/

namespace Occurrence

/-- The same part when the text that holds it stands behind `front`. -/
def behind (front : List Char) (o : Occurrence) : Occurrence := ⟨front ++ o.before, o.text⟩

theorem cut_behind (separator : Char) (front : List Char) (o : Occurrence) :
    cut separator (o.behind front) = (cut separator o).map (behind front) := by
  obtain ⟨before, text⟩ := o
  induction text using splitOn_induction separator generalizing before with
  | last piece hpiece => rw [behind, cut_of_not_mem hpiece, cut_of_not_mem hpiece]; rfl
  | more piece rest hpiece ih =>
    have hrest := ih (before ++ piece ++ [separator])
    rw [behind, cut_append_separator hpiece, cut_append_separator hpiece, List.map_cons, ← hrest]
    simp [behind]

/-- A separator between two texts is cut like one within a text. -/
theorem cut_append (separator : Char) (before text rest : List Char) :
    cut separator ⟨before, text ++ separator :: rest⟩ =
      cut separator ⟨before, text⟩ ++ cut separator ⟨before ++ text ++ [separator], rest⟩ := by
  induction text using splitOn_induction separator generalizing before with
  | last piece hpiece =>
    rw [cut_append_separator hpiece, cut_of_not_mem hpiece, List.singleton_append]
  | more piece more hpiece ih =>
    have hassoc : before ++ piece ++ [separator] ++ more =
        before ++ (piece ++ separator :: more) := by
      simp
    rw [List.append_assoc, List.cons_append, cut_append_separator hpiece, ih, hassoc,
      cut_append_separator hpiece, List.cons_append]

theorem trim_behind (front : List Char) (o : Occurrence) :
    (o.behind front).trim = o.trim.behind front := by
  simp [trim, behind]

end Occurrence

/-! ## Tokens -/

namespace Script

theorem trimmed_behind (front : List Char) (pieces : List Occurrence) :
    trimmed (pieces.map (Occurrence.behind front)) =
      (trimmed pieces).map (Occurrence.behind front) := by
  have hcomm : Occurrence.trim ∘ Occurrence.behind front =
      Occurrence.behind front ∘ Occurrence.trim := funext (Occurrence.trim_behind front)
  rw [trimmed, trimmed, List.map_map, hcomm, ← List.map_map, List.filter_map]
  rfl

theorem lineTokens_behind (front : List Char) (line : Occurrence) :
    lineTokens (line.behind front) = (lineTokens line).map (Occurrence.behind front) := by
  rw [lineTokens, Occurrence.cut_behind, trimmed_behind, lineTokens]

/-- The tokens of joined scripts: those of the first, then those of the second behind it. -/
theorem tokens_joined (a b : List Char) :
    tokens (a ++ '\n' :: b) =
      tokens a ++ (tokens b).map (Occurrence.behind (a ++ ['\n'])) := by
  have hlines : Occurrence.cut '\n' ⟨a ++ ['\n'], b⟩ =
      (Occurrence.cut '\n' ⟨[], b⟩).map (Occurrence.behind (a ++ ['\n'])) := by
    rw [← Occurrence.cut_behind, Occurrence.behind, List.append_nil]
  rw [tokens, Occurrence.cut_append, List.filter_append, List.flatMap_append, List.nil_append,
    hlines, List.filter_map, List.flatMap_map, tokens, tokens, List.map_flatMap]
  exact congrArg _ (List.flatMap_congr fun line _ => lineTokens_behind _ line)

end Script

/-! ## Places -/

/-- The place of a token of the second script, once the script `a` stands before it. -/
def Location.below (a : List Char) (place : Location) : Location where
  offset := place.offset + (utf8Length a + 1)
  line := min (place.line + (1 + a.count '\n')) maxPosition
  column := place.column

/-- A command of the second script, once the script `a` stands before it. -/
def SpannedCommand.below (a : List Char) (c : SpannedCommand) : SpannedCommand :=
  { c with start := c.start.below a }

theorem lastLine_append_lineBreak (a before : List Char) :
    lastLine (a ++ '\n' :: before) = lastLine before := by
  simp only [lastLine, List.reverse_append, List.reverse_cons, List.append_assoc]
  rw [List.takeWhile_append]
  split
  · next h =>
    -- the second text is one line, which ends at the line break in front of it
    have hline : before.reverse.takeWhile (· != '\n') = before.reverse :=
      (List.takeWhile_prefix _).eq_of_length h
    simp [hline]
  · rfl

theorem Location.after_behind (a before : List Char) :
    Location.after (a ++ ['\n'] ++ before) = (Location.after before).below a := by
  have hlast : lastLine (a ++ ['\n'] ++ before) = lastLine before := by
    simpa using lastLine_append_lineBreak a before
  have hbyte : utf8Length ['\n'] = 1 := rfl
  rw [Location.after, hlast]
  simp only [Location.below, Location.after, utf8Length_append, List.count_append,
    List.count_singleton_self, hbyte, Location.mk.injEq, and_true]
  constructor
  · omega
  · -- a line number that has stopped at the bound stays there
    omega

namespace Script

theorem commandAt_behind (a : List Char) (o : Occurrence) :
    commandAt (o.behind (a ++ ['\n'])) = (commandAt o).map (SpannedCommand.below a) := by
  have hplace : Location.after (o.behind (a ++ ['\n'])).before =
      (Location.after o.before).below a := Location.after_behind a o.before
  rw [commandAt, hplace, commandAt, Option.map_map]
  rfl

/-- The commands of joined scripts: those of the first, then those of the second further down. -/
theorem spannedCommands_joined (a b : List Char) :
    spannedCommands (a ++ '\n' :: b) =
      spannedCommands a ++ (spannedCommands b).map (SpannedCommand.below a) := by
  have hbehind : commandAt ∘ Occurrence.behind (a ++ ['\n']) =
      fun o => (commandAt o).map (SpannedCommand.below a) := funext (commandAt_behind a)
  rw [spannedCommands_eq, tokens_joined, List.filterMap_append, List.filterMap_map, hbehind,
    spannedCommands_eq, spannedCommands_eq, List.map_filterMap]

theorem commands_joined (a b : List Char) :
    commands (a ++ '\n' :: b) = commands a ++ commands b := by
  have hcommand : SpannedCommand.command ∘ SpannedCommand.below a = SpannedCommand.command := rfl
  rw [commands, spannedCommands_joined, List.map_append, List.map_map, hcommand]
  rfl

/-! ## Runs and dumps -/

theorem toList_events_joined (a b : List Char) :
    (events (a ++ '\n' :: b)).toList = (events a).toList ++ (events b).toList := by
  rw [toList_events, commands_joined, List.flatMap_append, ← toList_events, ← toList_events]

end Script

theorem Event.linesText_append (events more : List Event) :
    linesText (events ++ more) = linesText events ++ linesText more := by
  have hstart : ∀ (out : String), more.foldl (fun out e => out ++ e.line) out =
      out ++ linesText more := by
    unfold linesText
    induction more with
    | nil => intro out; simp
    | cons e more ih =>
      intro out
      rw [List.foldl_cons, ih, List.foldl_cons, ih ("" ++ e.line)]
      simp [String.append_assoc]
  rw [linesText, List.foldl_append, hstart]
  rfl

/-- Running joined scripts is running one after the other: nothing at the end of the first changes
what the second does. So their dumps are joined, and so are their commands; those of the second
keep their columns and lengths, and move down by the bytes and the lines of the first. -/
theorem Script.run_joined {σ : Type} (r : Renderer σ) (s : σ) (a b : List Char) :
    run r (a ++ '\n' :: b) s = run r b (run r a s) ∧
    Event.linesText (events (a ++ '\n' :: b)).toList =
      Event.linesText (events a).toList ++ Event.linesText (events b).toList ∧
    spannedCommands (a ++ '\n' :: b) =
      spannedCommands a ++ (spannedCommands b).map fun c =>
        { c with
          start :=
            { offset := c.start.offset + (utf8Length a + 1)
              line := min (c.start.line + (1 + a.count '\n')) maxPosition
              column := c.start.column } } := by
  refine ⟨?_, ?_, spannedCommands_joined a b⟩
  · rw [run, commands_joined, execute, List.foldl_append]
    rfl
  · rw [toList_events_joined, Event.linesText_append]

end BlockScript
