import BlockScript.Proofs.Text.Split
import BlockScript.Proofs.Text.Trim

namespace BlockScript

/-! # Occurrences

A part of a text together with what stands before it, so that two equal parts at different places
are told apart. Cutting and trimming keep the places: the pieces of an occurrence lie within it and
stand one after the other, and so does what is left of them after trimming.
-/

structure Occurrence where
  /-- The text in front. -/
  before : List Char
  text : List Char

namespace Occurrence

/-- The whole text up to the end of the occurrence. -/
def upTo (o : Occurrence) : List Char := o.before ++ o.text

/-- Pieces at their places; the first stands behind `before`. -/
def place (separator : Char) (before : List Char) : List (List Char) → List Occurrence
  | [] => []
  | piece :: rest => ⟨before, piece⟩ :: place separator (before ++ piece ++ [separator]) rest

/-- Cuts an occurrence at every separator. -/
def cut (separator : Char) (o : Occurrence) : List Occurrence :=
  place separator o.before (o.text.splitOn separator)

/-- Leaves the blanks at both ends out. -/
def trim (o : Occurrence) : Occurrence :=
  ⟨o.before ++ o.text.takeWhile isBlank, BlockScript.trim o.text⟩

/-- `o` is a part of `whole`. -/
def Within (o whole : Occurrence) : Prop := whole.before <+: o.before ∧ o.upTo <+: whole.upTo

/-- `o` ends before `p` begins, with a character between them. -/
def Precedes (o p : Occurrence) : Prop := ∃ c, o.upTo ++ [c] <+: p.before

/-! ## Cutting -/

theorem cut_of_not_mem {separator : Char} {text : List Char} (h : separator ∉ text)
    (before : List Char) : cut separator ⟨before, text⟩ = [⟨before, text⟩] := by
  rw [cut, List.splitOn_eq_singleton h]
  rfl

theorem cut_append_separator {separator : Char} {piece : List Char} (h : separator ∉ piece)
    (before rest : List Char) :
    cut separator ⟨before, piece ++ separator :: rest⟩ =
      ⟨before, piece⟩ :: cut separator ⟨before ++ piece ++ [separator], rest⟩ := by
  rw [cut, List.splitOn_append_cons_self_of_not_mem h]
  rfl

theorem map_text_place (separator : Char) (before : List Char) (pieces : List (List Char)) :
    (place separator before pieces).map text = pieces := by
  induction pieces generalizing before with
  | nil => rfl
  | cons piece rest ih => rw [place, List.map_cons, ih]

/-- Without their places, the pieces are those of the text. -/
theorem map_text_cut (separator : Char) (o : Occurrence) :
    (o.cut separator).map text = o.text.splitOn separator := map_text_place ..

theorem not_mem_of_mem_cut {separator : Char} {o p : Occurrence} (h : p ∈ o.cut separator) :
    separator ∉ p.text := by
  have htext : p.text ∈ o.text.splitOn separator := by
    rw [← map_text_cut]
    exact List.mem_map_of_mem h
  exact not_mem_of_mem_splitOn htext

/-- The first piece stands where the whole does; every other one stands behind a separator. -/
theorem before_of_mem_cut {separator : Char} {o p : Occurrence} (h : p ∈ o.cut separator) :
    p.before = o.before ∨ ∃ front, p.before = front ++ [separator] := by
  obtain ⟨before, text⟩ := o
  induction text using splitOn_induction separator generalizing before with
  | last piece hpiece =>
    rw [cut_of_not_mem hpiece, List.mem_singleton] at h
    exact Or.inl (congrArg Occurrence.before h)
  | more piece rest hpiece ih =>
    rw [cut_append_separator hpiece, List.mem_cons] at h
    rcases h with rfl | h
    · exact Or.inl rfl
    · rcases ih _ h with hbefore | hbefore
      · exact Or.inr ⟨_, hbefore⟩
      · exact Or.inr hbefore

/-! ## Being within, and preceding -/

theorem Within.refl (o : Occurrence) : o.Within o := ⟨List.prefix_rfl, List.prefix_rfl⟩

theorem Within.trans {o p q : Occurrence} (hop : o.Within p) (hpq : p.Within q) : o.Within q :=
  ⟨hpq.1.trans hop.1, hop.2.trans hpq.2⟩

/-- A part of the whole text stands in it, with something behind. -/
theorem Within.exists_eq {o : Occurrence} {source : List Char} (h : o.Within ⟨[], source⟩) :
    ∃ after, source = o.before ++ o.text ++ after := by
  obtain ⟨after, hafter⟩ := h.2
  exact ⟨after, hafter.symm⟩

/-- Parts of two occurrences stand as these do. -/
theorem Precedes.of_within {o o' p p' : Occurrence} (h : o.Precedes p) (ho : o'.Within o)
    (hp : p'.Within p) : o'.Precedes p' := by
  obtain ⟨c, hc⟩ := h
  obtain ⟨tail, htail⟩ := ho.2
  -- the character that follows `o'` is the first of what `o` still holds, or the one after `o`
  have hnext : ∃ d, o'.upTo ++ [d] <+: o.upTo ++ [c] := by
    rw [← htail]
    cases tail with
    | nil => exact ⟨c, by simp⟩
    | cons d tail => exact ⟨d, tail ++ [c], by simp⟩
  obtain ⟨d, hd⟩ := hnext
  exact ⟨d, (hd.trans hc).trans hp.1⟩

theorem within_of_mem_cut {separator : Char} {o p : Occurrence} (h : p ∈ o.cut separator) :
    p.Within o := by
  obtain ⟨before, text⟩ := o
  induction text using splitOn_induction separator generalizing before with
  | last piece hpiece =>
    rw [cut_of_not_mem hpiece, List.mem_singleton] at h
    rw [h]
    exact Within.refl _
  | more piece rest hpiece ih =>
    rw [cut_append_separator hpiece, List.mem_cons] at h
    rcases h with rfl | h
    · exact ⟨List.prefix_rfl, separator :: rest, by simp [upTo]⟩
    · -- the text behind the separator is itself a part of the whole
      have hrest : Within ⟨before ++ piece ++ [separator], rest⟩
          ⟨before, piece ++ separator :: rest⟩ := by
        constructor
        · exact ⟨piece ++ [separator], by simp⟩
        · simp [upTo]
      exact (ih _ h).trans hrest

/-- The pieces stand one after the other. -/
theorem pairwise_cut (separator : Char) (o : Occurrence) :
    (o.cut separator).Pairwise Precedes := by
  obtain ⟨before, text⟩ := o
  induction text using splitOn_induction separator generalizing before with
  | last piece hpiece =>
    rw [cut_of_not_mem hpiece]
    exact List.pairwise_singleton ..
  | more piece rest hpiece ih =>
    rw [cut_append_separator hpiece, List.pairwise_cons]
    constructor
    · intro p hp
      -- the separator is the character between the first piece and all others
      exact ⟨separator, (within_of_mem_cut hp).1⟩
    · exact ih _

theorem within_trim (o : Occurrence) : o.trim.Within o := by
  obtain ⟨tail, -, htext⟩ := exists_eq_trim_append o.text
  constructor
  · exact List.prefix_append ..
  · refine ⟨tail, ?_⟩
    calc o.before ++ o.text.takeWhile isBlank ++ BlockScript.trim o.text ++ tail
        = o.before ++ (o.text.takeWhile isBlank ++ BlockScript.trim o.text ++ tail) := by simp
      _ = o.upTo := by rw [← htext]; rfl

end Occurrence

end BlockScript
