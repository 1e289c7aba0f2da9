import BlockScript.Proofs.Text.Split
import BlockScript.Text.Basic
import Mathlib.Data.List.Forall2

namespace BlockScript

/-! # Texts in either case

Two texts that differ only in the case of ASCII letters, told without lowering any of them. Such
texts are those that are the same in lower case (`sameLetters_iff`). Cutting or trimming them gives
such texts again (`SameLetters.splitOn`, `SameLetters.trimEnd`), since neither separators nor blanks
have a case.
-/

/-! ## Characters -/

/-- The characters are the same, or the two cases of one ASCII letter. -/
def SameLetter (c d : Char) : Prop :=
  c = d ∨ (c.isUpper = true ∧ d.toNat = c.toNat + 32) ∨
    (d.isUpper = true ∧ c.toNat = d.toNat + 32)

/-- A character of ASCII that is seen on paper: neither a blank nor a control character. -/
def IsGraphic (c : Char) : Prop := 33 ≤ c.toNat ∧ c.toNat ≤ 126

instance : DecidablePred IsGraphic := fun _ => inferInstanceAs (Decidable (_ ∧ _))

section
variable {c d : Char}

theorem isUpper_iff : c.isUpper = true ↔ 65 ≤ c.toNat ∧ c.toNat ≤ 90 := by
  unfold Char.isUpper
  rw [decide_eq_true_iff]
  exact Iff.rfl

/-- Capitals move up by 32, and nothing else moves. -/
theorem toNat_toLower (c : Char) :
    c.toLower.toNat = if c.isUpper then c.toNat + 32 else c.toNat := by
  unfold Char.toLower
  by_cases h : 65 ≤ c.toNat ∧ c.toNat ≤ 90
  · have hrange : c.val ≥ 'A'.val ∧ c.val ≤ 'Z'.val := h
    rw [if_pos (isUpper_iff.mpr h), dif_pos hrange]
    show (c.val + 32).toNat = c.toNat + 32
    rw [UInt32.toNat_add]
    show (c.toNat + 32) % 2 ^ 32 = c.toNat + 32
    omega
  · have hrange : ¬ (c.val ≥ 'A'.val ∧ c.val ≤ 'Z'.val) := h
    have hupper : ¬ c.isUpper = true := fun hupper => h (isUpper_iff.mp hupper)
    rw [if_neg hupper, dif_neg hrange]

/-- Just such characters are the same in lower case. -/
theorem sameLetter_iff : SameLetter c d ↔ c.toLower = d.toLower := by
  unfold SameLetter
  rw [← Char.toNat_inj, ← Char.toNat_inj, toNat_toLower, toNat_toLower]
  by_cases hc : c.isUpper = true
  · have hcrange := isUpper_iff.mp hc
    by_cases hd : d.isUpper = true
    · have hdrange := isUpper_iff.mp hd
      simp only [hc, hd, if_true, true_and]
      omega
    · simp only [hc, hd, if_true, if_false, true_and, false_and, or_false, Bool.false_eq_true]
      rw [isUpper_iff] at hd
      omega
  · by_cases hd : d.isUpper = true
    · have hdrange := isUpper_iff.mp hd
      rw [isUpper_iff] at hc
      simp only [isUpper_iff, hc, hd, if_true, if_false, true_and, false_and, false_or]
      omega
    · simp [hc, hd]

/-- What stands before the letters in ASCII has no case. -/
theorem SameLetter.eq_of_lt (h : SameLetter c d) (hc : c.toNat < 65) : c = d := by
  unfold SameLetter at h
  rw [isUpper_iff, isUpper_iff] at h
  rcases h with rfl | ⟨hrange, -⟩ | ⟨hrange, heq⟩
  · rfl
  · omega
  · omega

theorem SameLetter.symm (h : SameLetter c d) : SameLetter d c :=
  sameLetter_iff.mpr (sameLetter_iff.mp h).symm

theorem IsGraphic.isBlank (h : IsGraphic c) : isBlank c = false := by
  unfold IsGraphic at h
  simp only [BlockScript.isBlank, Bool.or_eq_false_iff, Bool.and_eq_false_iff,
    decide_eq_false_iff_not, beq_eq_false_iff_ne]
  omega

/-- Words that are known are looked through. -/
theorem isGraphic_of_all {word : List Char} (h : (word.all fun c => decide (IsGraphic c)) = true) :
    ∀ c ∈ word, IsGraphic c :=
  fun c hc => of_decide_eq_true (List.all_eq_true.mp h c hc)

/-- A letter is graphic in either case. -/
theorem SameLetter.isGraphic (h : SameLetter c d) (hd : IsGraphic d) : IsGraphic c := by
  unfold SameLetter at h
  unfold IsGraphic at hd ⊢
  rw [isUpper_iff, isUpper_iff] at h
  rcases h with rfl | ⟨hrange, -⟩ | ⟨hrange, heq⟩
  · exact hd
  · omega
  · omega

/-- Blanks have no case. -/
theorem SameLetter.isBlank_eq (h : SameLetter c d) : isBlank c = isBlank d := by
  have hletter : ∀ {c d : Char}, c.isUpper = true → d.toNat = c.toNat + 32 →
      IsGraphic c ∧ IsGraphic d := by
    intro c d hupper heq
    have hrange := isUpper_iff.mp hupper
    unfold IsGraphic
    omega
  rcases h with rfl | ⟨hupper, heq⟩ | ⟨hupper, heq⟩
  · rfl
  · rcases hletter hupper heq with ⟨hc, hd⟩
    rw [hc.isBlank, hd.isBlank]
  · rcases hletter hupper heq with ⟨hd, hc⟩
    rw [hc.isBlank, hd.isBlank]

end

/-! ## Texts -/

/-- The texts differ at most in the case of ASCII letters. -/
def SameLetters (a b : List Char) : Prop := List.Forall₂ SameLetter a b

section
variable {a b : List Char}

/-- Just such texts are the same in lower case. -/
theorem sameLetters_iff : SameLetters a b ↔ lowerAscii a = lowerAscii b := by
  have hlower : SameLetters a b ↔
      List.Forall₂ (fun c d => Char.toLower c = Char.toLower d) a b := by
    unfold SameLetters
    constructor
    · exact List.Forall₂.imp fun c d => sameLetter_iff.mp
    · exact List.Forall₂.imp fun c d => sameLetter_iff.mpr
  rw [hlower]
  unfold lowerAscii
  rw [← List.forall₂_eq_eq_eq, List.forall₂_map_left_iff, List.forall₂_map_right_iff]

/-- The forms of a word without capitals are the texts that lower to it. -/
theorem sameLetters_lower_iff {word : List Char} (hword : lowerAscii word = word) :
    SameLetters a word ↔ lowerAscii a = word := by
  rw [sameLetters_iff, hword]

theorem SameLetters.symm (h : SameLetters a b) : SameLetters b a :=
  sameLetters_iff.mpr (sameLetters_iff.mp h).symm

theorem SameLetters.trans {c : List Char} (h : SameLetters a b) (h' : SameLetters b c) :
    SameLetters a c :=
  sameLetters_iff.mpr ((sameLetters_iff.mp h).trans (sameLetters_iff.mp h'))

theorem SameLetters.length_eq (h : SameLetters a b) : a.length = b.length :=
  List.Forall₂.length_eq h

/-- A text without letters has one form only. -/
theorem SameLetters.eq_of_lt (h : SameLetters a b) (ha : ∀ c ∈ a, c.toNat < 65) : a = b := by
  induction h with
  | nil => rfl
  | @cons c d a b hcd _ ih =>
    rcases List.forall_mem_cons.mp ha with ⟨hc, hrest⟩
    rw [hcd.eq_of_lt hc, ih hrest]

/-- The two parts of a text, found in the other. -/
theorem SameLetters.append_cases {front back : List Char} (h : SameLetters (front ++ back) b) :
    ∃ front' back', b = front' ++ back' ∧ SameLetters front front' ∧ SameLetters back back' := by
  induction front generalizing b with
  | nil => exact ⟨[], b, rfl, List.Forall₂.nil, h⟩
  | cons c front ih =>
    rcases List.forall₂_cons_left_iff.mp h with ⟨d, rest, hcd, hrest, rfl⟩
    rcases ih hrest with ⟨front', back', rfl, hfront, hback⟩
    exact ⟨d :: front', back', rfl, List.Forall₂.cons hcd hfront, hback⟩

/-- The pieces between separators differ at most in case, if the separator is no letter. -/
theorem SameLetters.splitOn (h : SameLetters a b) (separator : Char)
    (hseparator : separator.toNat < 65) :
    List.Forall₂ SameLetters (a.splitOn separator) (b.splitOn separator) := by
  induction h with
  | nil => exact List.Forall₂.cons List.Forall₂.nil List.Forall₂.nil
  | @cons c d a b hcd _ ih =>
    by_cases hc : c = separator
    · -- the separator is the same on both sides
      subst hc
      rw [← hcd.eq_of_lt hseparator, splitOn_cons_self, splitOn_cons_self]
      exact List.Forall₂.cons List.Forall₂.nil ih
    · have hd : d ≠ separator := by
        rintro rfl
        exact hc (hcd.symm.eq_of_lt hseparator).symm
      rcases splitOn_cons_of_ne hc a with ⟨piece, rest, hpieces, hmore⟩
      rcases splitOn_cons_of_ne hd b with ⟨piece', rest', hpieces', hmore'⟩
      rw [hpieces, hpieces'] at ih
      rw [hmore, hmore']
      cases ih with
      | cons hpiece hrest => exact List.Forall₂.cons (List.Forall₂.cons hcd hpiece) hrest

theorem SameLetters.trimEnd (h : SameLetters a b) : SameLetters (trimEnd a) (trimEnd b) := by
  induction h with
  | nil => exact List.Forall₂.nil
  | @cons c d a b hcd _ ih =>
    have hempty : (BlockScript.trimEnd a).isEmpty = (BlockScript.trimEnd b).isEmpty := by
      rw [Bool.eq_iff_iff, List.isEmpty_iff_length_eq_zero, List.isEmpty_iff_length_eq_zero,
        SameLetters.length_eq ih]
    rw [trimEnd_cons, trimEnd_cons, hempty, hcd.isBlank_eq]
    split
    · exact List.Forall₂.nil
    · exact List.Forall₂.cons hcd ih

/-- A text is graphic if it is a graphic one in another case. -/
theorem SameLetters.isGraphic (h : SameLetters a b) (hb : ∀ c ∈ b, IsGraphic c) :
    ∀ c ∈ a, IsGraphic c := by
  induction h with
  | nil => exact hb
  | cons hcd _ ih =>
    rcases List.forall_mem_cons.mp hb with ⟨hd, hrest⟩
    exact List.forall_mem_cons.mpr ⟨hcd.isGraphic hd, ih hrest⟩

end

end BlockScript
