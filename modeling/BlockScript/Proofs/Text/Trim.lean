import BlockScript.Text.Basic
import Mathlib.Data.List.TakeWhile

namespace BlockScript

/-! # Trimming

A text is some blanks, what it is trimmed to, and blanks again (`exists_eq_trim_append`). So blanks
added at either end do not change what it is trimmed to, and trimming twice is trimming once.
-/

/-- Every character is a blank. -/
def AllBlank (cs : List Char) : Prop := ∀ c ∈ cs, isBlank c = true

theorem allBlank_nil : AllBlank [] := by
  intro c hc
  cases hc

theorem allBlank_cons {c : Char} {cs : List Char} :
    AllBlank (c :: cs) ↔ isBlank c = true ∧ AllBlank cs := by
  simp [AllBlank]

theorem allBlank_append {cs ds : List Char} :
    AllBlank (cs ++ ds) ↔ AllBlank cs ∧ AllBlank ds := by
  simp only [AllBlank, List.mem_append]
  constructor
  · intro h
    exact ⟨fun c hc => h c (Or.inl hc), fun c hc => h c (Or.inr hc)⟩
  · rintro ⟨hcs, hds⟩ c (hc | hc)
    · exact hcs c hc
    · exact hds c hc

/-- The blanks that begin a text are blanks. -/
theorem allBlank_takeWhile (cs : List Char) : AllBlank (cs.takeWhile isBlank) := by
  intro c hc
  exact List.all_eq_true.mp List.all_takeWhile c hc

/-! ## The end of a text -/

theorem trimEnd_eq_nil {cs : List Char} (h : AllBlank cs) : trimEnd cs = [] := by
  induction cs with
  | nil => rfl
  | cons c cs ih =>
    obtain ⟨hc, hcs⟩ := allBlank_cons.mp h
    rw [trimEnd_cons, ih hcs]
    simp [hc]

/-- Blanks at the end do not count. -/
theorem trimEnd_append_of_allBlank (cs : List Char) {ds : List Char} (h : AllBlank ds) :
    trimEnd (cs ++ ds) = trimEnd cs := by
  induction cs with
  | nil => exact trimEnd_eq_nil h
  | cons c cs ih => rw [List.cons_append, trimEnd_cons, trimEnd_cons, ih]

/-- What is cut off the end are blanks. -/
theorem exists_eq_trimEnd_append (cs : List Char) :
    ∃ tail, AllBlank tail ∧ cs = trimEnd cs ++ tail := by
  induction cs with
  | nil => exact ⟨[], allBlank_nil, rfl⟩
  | cons c cs ih =>
    obtain ⟨tail, htail, hcs⟩ := ih
    rw [trimEnd_cons]
    split
    · next h =>
      -- the text is blank to its end, so all of it is cut off
      simp only [Bool.and_eq_true, List.isEmpty_iff] at h
      rw [h.1, List.nil_append] at hcs
      exact ⟨c :: cs, allBlank_cons.mpr ⟨h.2, hcs ▸ htail⟩, rfl⟩
    · exact ⟨tail, htail, congrArg (c :: ·) hcs⟩

theorem trimEnd_cons_of_not_isBlank {c : Char} (h : isBlank c = false) (cs : List Char) :
    trimEnd (c :: cs) = c :: trimEnd cs := by
  rw [trimEnd_cons]
  simp [h]

/-- Text without blanks stays in front. -/
theorem trimEnd_append_of_forall_not_isBlank {cs : List Char} (h : ∀ c ∈ cs, isBlank c = false)
    (ds : List Char) : trimEnd (cs ++ ds) = cs ++ trimEnd ds := by
  induction cs with
  | nil => rfl
  | cons c cs ih =>
    rw [List.cons_append, trimEnd_cons_of_not_isBlank (h c List.mem_cons_self),
      ih fun d hd => h d (List.mem_cons_of_mem c hd), List.cons_append]

theorem trimEnd_of_forall_not_isBlank {cs : List Char} (h : ∀ c ∈ cs, isBlank c = false) :
    trimEnd cs = cs := by
  have happend := trimEnd_append_of_forall_not_isBlank h []
  rwa [trimEnd_nil, List.append_nil] at happend

/-! ## Both ends -/

theorem trim_eq_nil {cs : List Char} (h : AllBlank cs) : trim cs = [] := by
  have hstart : trimStart cs = [] := by
    unfold trimStart
    rw [List.dropWhile_eq_nil_iff]
    exact h
  rw [trim, hstart]
  rfl

/-- A text that does not begin with a blank loses nothing at its start. -/
theorem trim_cons_of_not_isBlank {c : Char} (h : isBlank c = false) (cs : List Char) :
    trim (c :: cs) = c :: trimEnd cs := by
  have hstart : trimStart (c :: cs) = c :: cs := by simp [trimStart, h]
  rw [trim, hstart, trimEnd_cons_of_not_isBlank h]

/-- Blanks at the end do not count. -/
theorem trim_append_of_allBlank (cs : List Char) {ds : List Char} (h : AllBlank ds) :
    trim (cs ++ ds) = trim cs := by
  induction cs with
  | nil =>
    rw [List.nil_append, trim_eq_nil h]
    rfl
  | cons c cs ih =>
    cases hc : isBlank c with
    | true => simpa [trim, trimStart, hc] using ih
    | false =>
      -- from here on only the end is trimmed
      rw [List.cons_append, trim_cons_of_not_isBlank hc, trim_cons_of_not_isBlank hc,
        trimEnd_append_of_allBlank cs h]

/-- Blanks at the start do not count. -/
theorem trim_cons_of_isBlank {c : Char} (h : isBlank c = true) (cs : List Char) :
    trim (c :: cs) = trim cs := by
  simp [trim, trimStart, h]

/-- A text is blanks, what it is trimmed to, and blanks. -/
theorem exists_eq_trim_append (cs : List Char) :
    ∃ tail, AllBlank tail ∧ cs = cs.takeWhile isBlank ++ trim cs ++ tail := by
  obtain ⟨tail, htail, h⟩ := exists_eq_trimEnd_append (trimStart cs)
  refine ⟨tail, htail, ?_⟩
  calc cs = cs.takeWhile isBlank ++ trimStart cs := List.takeWhile_append_dropWhile.symm
    _ = cs.takeWhile isBlank ++ (trim cs ++ tail) := congrArg _ h
    _ = cs.takeWhile isBlank ++ trim cs ++ tail := (List.append_assoc ..).symm

/-- What a text is trimmed to is a contiguous part of it. -/
theorem trim_isInfix (cs : List Char) : trim cs <:+: cs := by
  obtain ⟨tail, -, h⟩ := exists_eq_trim_append cs
  exact ⟨_, tail, h.symm⟩

theorem trim_eq_nil_iff {cs : List Char} : trim cs = [] ↔ AllBlank cs := by
  constructor
  · intro h
    obtain ⟨tail, htail, hcs⟩ := exists_eq_trim_append cs
    rw [h, List.append_nil] at hcs
    rw [hcs]
    exact allBlank_append.mpr ⟨allBlank_takeWhile cs, htail⟩
  · exact trim_eq_nil

/-- A trimmed text begins with the first character that is no blank. -/
theorem head?_trim (cs : List Char) : (trim cs).head? = cs.find? (fun c => !isBlank c) := by
  induction cs with
  | nil => rfl
  | cons c cs ih =>
    cases hc : isBlank c with
    | true =>
      rw [trim_cons_of_isBlank hc, List.find?_cons_of_neg (by simp [hc]), ih]
    | false =>
      rw [trim_cons_of_not_isBlank hc, List.find?_cons_of_pos (by simp [hc])]
      rfl

/-- A text without blanks is not cut. -/
theorem trim_of_forall_not_isBlank {cs : List Char} (h : ∀ c ∈ cs, isBlank c = false) :
    trim cs = cs := by
  cases cs with
  | nil => rfl
  | cons c cs =>
    rw [trim_cons_of_not_isBlank (h c List.mem_cons_self),
      trimEnd_of_forall_not_isBlank fun d hd => h d (List.mem_cons_of_mem c hd)]

/-- Trimming twice is trimming once. -/
@[simp] theorem trim_trim (cs : List Char) : trim (trim cs) = trim cs := by
  induction cs with
  | nil => rfl
  | cons c cs ih =>
    cases hc : isBlank c with
    | true => rw [trim_cons_of_isBlank hc, ih]
    | false =>
      obtain ⟨tail, htail, hcs⟩ := exists_eq_trimEnd_append cs
      have htwice : trimEnd (trimEnd cs) = trimEnd cs := by
        conv => rhs; rw [hcs]
        exact (trimEnd_append_of_allBlank _ htail).symm
      rw [trim_cons_of_not_isBlank hc, trim_cons_of_not_isBlank hc, htwice]

/-- The blanks that begin a text are the same when something follows that is not all of it. -/
theorem takeWhile_isBlank_append {cs : List Char} (h : trim cs ≠ []) (ds : List Char) :
    (cs ++ ds).takeWhile isBlank = cs.takeWhile isBlank := by
  induction cs with
  | nil => exact absurd rfl h
  | cons c cs ih =>
    cases hc : isBlank c with
    | true =>
      rw [trim_cons_of_isBlank hc] at h
      simp [hc, ih h]
    | false => simp [hc]

end BlockScript
