import BlockScript.Text.Basic
import Mathlib.Data.List.TakeWhile

namespace BlockScript

/-! # The pieces of a text

A text is either one piece, or a piece, a separator and a further text. `List.splitOn` follows these
two shapes, and `splitOn_induction` is the induction along them. Pieces hold no separator and stand
in the text as they are.
-/

@[simp] theorem splitOn_cons_self (separator : Char) (cs : List Char) :
    (separator :: cs).splitOn separator = [] :: cs.splitOn separator := by
  rw [List.splitOn_cons_eq_if_modifyHead, if_pos (beq_self_eq_true separator)]

/-- Any other character belongs to the first piece. -/
theorem splitOn_cons_of_ne {separator c : Char} (h : c ≠ separator) (cs : List Char) :
    ∃ piece rest, cs.splitOn separator = piece :: rest ∧
      (c :: cs).splitOn separator = (c :: piece) :: rest := by
  obtain ⟨piece, rest, hpieces⟩ :=
    List.exists_cons_of_ne_nil (List.splitOn_ne_nil separator cs)
  refine ⟨piece, rest, hpieces, ?_⟩
  rw [List.splitOn_cons_eq_if_modifyHead, hpieces, if_neg (by simpa using h), List.modifyHead_cons]

/-- A text holds no separator, or it is cut at the first one. -/
theorem not_mem_or_cut (separator : Char) (cs : List Char) :
    separator ∉ cs ∨ ∃ piece rest, separator ∉ piece ∧ cs = piece ++ separator :: rest := by
  by_cases h : separator ∈ cs
  · obtain ⟨piece, rest, hcs, hpiece⟩ := List.eq_append_cons_of_mem h
    exact Or.inr ⟨piece, rest, hpiece, hcs⟩
  · exact Or.inl h

/-- Induction along the pieces of a text. -/
theorem splitOn_induction (separator : Char) {P : List Char → Prop}
    (last : ∀ piece, separator ∉ piece → P piece)
    (more : ∀ piece rest, separator ∉ piece → P rest → P (piece ++ separator :: rest))
    (cs : List Char) : P cs := by
  rcases not_mem_or_cut separator cs with h | ⟨piece, rest, hpiece, hcs⟩
  · exact last cs h
  · have hshorter : rest.length < cs.length := by
      rw [hcs, List.length_append, List.length_cons]
      omega
    rw [hcs]
    exact more piece rest hpiece (splitOn_induction separator last more rest)
termination_by cs.length

theorem not_mem_of_mem_splitOn {separator : Char} {cs piece : List Char}
    (h : piece ∈ cs.splitOn separator) : separator ∉ piece := by
  induction cs using splitOn_induction separator with
  | last first hfirst =>
    rw [List.splitOn_eq_singleton hfirst, List.mem_singleton] at h
    rwa [h]
  | more first rest hfirst ih =>
    rw [List.splitOn_append_cons_self_of_not_mem hfirst, List.mem_cons] at h
    rcases h with rfl | h
    · exact hfirst
    · exact ih h

/-- A piece is a contiguous part of the text. -/
theorem infix_of_mem_splitOn {separator : Char} {cs piece : List Char}
    (h : piece ∈ cs.splitOn separator) : piece <:+: cs := by
  induction cs using splitOn_induction separator with
  | last first hfirst =>
    rw [List.splitOn_eq_singleton hfirst, List.mem_singleton] at h
    subst h
    exact List.infix_rfl
  | more first rest hfirst ih =>
    rw [List.splitOn_append_cons_self_of_not_mem hfirst, List.mem_cons] at h
    rcases h with rfl | h
    · exact (List.prefix_append ..).isInfix
    · have hrest : rest <:+: first ++ separator :: rest :=
        (List.suffix_append_of_suffix (List.suffix_cons ..)).isInfix
      exact (ih h).trans hrest

theorem bne_of_not_mem {separator : Char} {cs : List Char} (h : separator ∉ cs) :
    ∀ c ∈ cs, (c != separator) = true := by
  intro c hc
  exact bne_iff_ne.mpr fun heq => h (heq ▸ hc)

/-- The first piece is the text before the first separator. -/
theorem splitOn_eq_takeWhile_cons (separator : Char) (cs : List Char) :
    cs.splitOn separator = cs.takeWhile (· != separator) :: (cs.splitOn separator).tail := by
  rcases not_mem_or_cut separator cs with h | ⟨first, rest, hfirst, rfl⟩
  · have htake : cs.takeWhile (· != separator) = cs :=
      List.takeWhile_eq_self_iff.mpr (bne_of_not_mem h)
    rw [List.splitOn_eq_singleton h, htake, List.tail_cons]
  · rw [List.splitOn_append_cons_self_of_not_mem hfirst,
      List.takeWhile_append_of_pos (bne_of_not_mem hfirst)]
    simp

/-! ## Joining pieces -/

theorem joinWith_cons_of_ne_nil (separator : Char) (piece : List Char) {rest : List (List Char)}
    (h : rest ≠ []) :
    joinWith separator (piece :: rest) = piece ++ separator :: joinWith separator rest := by
  rw [joinWith, List.intercalate_cons_of_ne_nil h, List.append_assoc, List.singleton_append]

/-- Joined pieces have a separator between each two. -/
theorem joinWith_append (separator : Char) {front back : List (List Char)} (hfront : front ≠ [])
    (hback : back ≠ []) :
    joinWith separator (front ++ back) =
      joinWith separator front ++ separator :: joinWith separator back := by
  induction front with
  | nil => exact absurd rfl hfront
  | cons piece rest ih =>
    rcases eq_or_ne rest [] with rfl | hrest
    · have hpiece : joinWith separator [piece] = piece := List.intercalate_singleton
      rw [List.singleton_append, joinWith_cons_of_ne_nil separator piece hback, hpiece]
    · have hmore : rest ++ back ≠ [] := List.append_ne_nil_of_left_ne_nil hrest back
      rw [List.cons_append, joinWith_cons_of_ne_nil separator piece hmore, ih hrest,
        joinWith_cons_of_ne_nil separator piece hrest, List.append_assoc, List.cons_append]

/-- Joined pieces hold their own characters, and separators. -/
theorem mem_joinWith {separator c : Char} {pieces : List (List Char)}
    (h : c ∈ joinWith separator pieces) : c = separator ∨ ∃ piece ∈ pieces, c ∈ piece := by
  induction pieces with
  | nil => cases h
  | cons piece rest ih =>
    rcases eq_or_ne rest [] with rfl | hrest
    · exact Or.inr ⟨piece, List.mem_singleton_self piece, by simpa using h⟩
    · rw [joinWith_cons_of_ne_nil separator piece hrest] at h
      rcases List.mem_append.mp h with h | h
      · exact Or.inr ⟨piece, List.mem_cons_self, h⟩
      · rcases List.mem_cons.mp h with rfl | h
        · exact Or.inl rfl
        · rcases ih h with hc | ⟨other, hother, hc⟩
          · exact Or.inl hc
          · exact Or.inr ⟨other, List.mem_cons_of_mem piece hother, hc⟩

end BlockScript
