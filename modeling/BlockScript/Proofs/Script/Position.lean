import BlockScript.Proofs.Text.Split
import BlockScript.Script.Basic

namespace BlockScript

/-! # Positions

The place behind a text, read off the text itself: its bytes, its line breaks, and the characters
of its last line. Advancing along a line moves from the place behind a text to the place behind a
longer one (`advance_after`), so places that are kept up to date step by step are always of this
form.
-/

/-- The characters behind the last line break. -/
def lastLine (cs : List Char) : List Char := (cs.reverse.takeWhile (· != '\n')).reverse

/-- A line begins behind the text. -/
def IsLineStart (before : List Char) : Prop := before = [] ∨ ∃ front, before = front ++ ['\n']

/-- The place behind a text that begins the script. -/
def Location.after (before : List Char) : Location where
  offset := utf8Length before
  line := min (before.count '\n' + 1) maxPosition
  column := min ((lastLine before).length + 1) maxPosition

theorem lastLine_append_of_not_mem (before : List Char) {cs : List Char} (h : '\n' ∉ cs) :
    lastLine (before ++ cs) = lastLine before ++ cs := by
  have hcs : ∀ c ∈ cs.reverse, (c != '\n') = true :=
    bne_of_not_mem fun hmem => h (List.mem_reverse.mp hmem)
  simp only [lastLine, List.reverse_append]
  rw [List.takeWhile_append_of_pos hcs]
  simp

/-- Nothing stands on the line that a text begins or that a line break opens. -/
theorem lastLine_of_isLineStart {before : List Char} (h : IsLineStart before) :
    lastLine before = [] := by
  rcases h with rfl | ⟨front, rfl⟩
  · rfl
  · simp [lastLine]

namespace Location

/-- Columns are counted one by one, and stop at the same bound as when they are counted at once. -/
theorem advance_after (before : List Char) {cs : List Char} (h : '\n' ∉ cs) :
    (after before).advance cs = after (before ++ cs) := by
  have hlines : (before ++ cs).count '\n' = before.count '\n' := by
    rw [List.count_append, List.count_eq_zero_of_not_mem h]
    omega
  have hcolumn : (lastLine (before ++ cs)).length = (lastLine before).length + cs.length := by
    rw [lastLine_append_of_not_mem before h, List.length_append]
  simp only [advance, after, hlines, hcolumn, utf8Length_append, Location.mk.injEq, true_and]
  -- a column that has stopped at the bound stays there
  omega

/-- The start of a line is behind the text of the lines above. -/
theorem lineStart_eq_after {before : List Char} (h : IsLineStart before) :
    lineStart (utf8Length before) (before.count '\n') = after before := by
  rw [lineStart, after, lastLine_of_isLineStart h]
  rfl

end Location

end BlockScript
