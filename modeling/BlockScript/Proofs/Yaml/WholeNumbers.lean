import BlockScript.Proofs.Number.Printing
import BlockScript.Proofs.Yaml.Scalars

namespace BlockScript.Yaml

/-! # Whole numbers as plain scalars

The digits of a number can stand as a plain scalar (`writesScalar_toString`), and a plain scalar
with these digits stands for the number (`unsigned?_toString`): they begin with no zero unless they
are one, so they are not taken for a padded or a based number.
-/

variable {c : Char} {cs : List Char} {n : Nat}

/-! ## Digits are plain -/

theorem exists_eq_of_isDigit (h : c.isDigit = true) : ∃ d < 10, c = Char.ofNat (48 + d) := by
  simp only [Char.isDigit, Bool.and_eq_true, decide_eq_true_eq] at h
  have hlow : 48 ≤ c.toNat := h.1
  have hhigh : c.toNat ≤ 57 := h.2
  refine ⟨c.toNat - 48, by omega, ?_⟩
  rw [Nat.add_sub_cancel' hlow, Char.ofNat_toNat]

/-- A digit means nothing of its own. -/
theorem isInline_of_isDigit (h : c.isDigit = true) :
    IsInline c ∧ isIndicator c = false ∧ c ≠ ' ' ∧ c ≠ '.' := by
  rcases exists_eq_of_isDigit h with ⟨d, hd, rfl⟩
  decide +revert

theorem ne_of_isIndicator {sign : Char} (hsign : isIndicator sign = true)
    (h : isIndicator c = false) : c ≠ sign := by
  rintro rfl
  rw [hsign] at h
  cases h

theorem endsInside_of_allDigits (h : AllDigits cs) (before : Char) :
    endsInside before cs = false := by
  induction cs generalizing before with
  | nil => rfl
  | cons c cs ih =>
    rcases List.forall_mem_cons.mp h with ⟨hc, hcs⟩
    rcases isInline_of_isDigit hc with ⟨-, hindicator, -⟩
    have hcolon : c ≠ ':' := ne_of_isIndicator (by decide) hindicator
    have hhash : c ≠ '#' := ne_of_isIndicator (by decide) hindicator
    simp [endsInside, hcolon, hhash, ih hcs]

theorem allowsPlain_of_allDigits (h : AllDigits cs) : allowsPlain cs = true := by
  cases cs with
  | nil => rfl
  | cons c rest =>
    rcases List.forall_mem_cons.mp h with ⟨hc, hrest⟩
    rcases isInline_of_isDigit hc with ⟨-, hindicator, hspace, hdot⟩
    refine allowsPlain_cons_iff.mpr ⟨⟨hspace, ?_⟩, ?_, ?_, endsInside_of_allDigits hrest c⟩
    · intro hlast
      exact absurd (h ' ' (List.mem_of_getLast? hlast)) (by decide)
    · exact fun x hx => (isInline_of_isDigit (h x hx)).1
    · have hdash : c ≠ '-' := ne_of_isIndicator (by decide) hindicator
      have hquestion : c ≠ '?' := ne_of_isIndicator (by decide) hindicator
      have hcolon : c ≠ ':' := ne_of_isIndicator (by decide) hindicator
      unfold startsOtherwise
      split <;> simp_all

/-- A number can be written as a plain scalar. -/
theorem writesScalar_toString (n : Nat) :
    WritesScalar ((toString n).toList ++ ['\n']) .plain (toString n).toList :=
  WritesScalar.plain (toString_ne_nil n) (allowsPlain_of_allDigits (AllDigits.toString n))

/-! ## What digits stand for -/

theorem hexValue?_of_isDigit (h : c.isDigit = true) :
    hexValue? c = some (c.toNat - '0'.toNat) ∧ c.toNat - '0'.toNat < 10 := by
  rcases exists_eq_of_isDigit h with ⟨d, hd, rfl⟩
  decide +revert

theorem foldlM_of_allDigits (h : AllDigits cs) (start : Nat) :
    cs.foldlM (fun n c => ((hexValue? c).filter (· < 10)).map (10 * n + ·)) start =
      some (cs.foldl (fun n c => 10 * n + (c.toNat - '0'.toNat)) start) := by
  induction cs generalizing start with
  | nil => rfl
  | cons c cs ih =>
    rcases List.forall_mem_cons.mp h with ⟨hc, hcs⟩
    rcases hexValue?_of_isDigit hc with ⟨hvalue, hlt⟩
    rw [List.foldlM_cons, hvalue]
    simp only [Option.filter, hlt, decide_true, if_true, Option.map_some, Option.bind_eq_bind,
      Option.bind_some, List.foldl_cons]
    exact ih hcs _

theorem numberIn?_of_allDigits (h : AllDigits cs) (hne : cs ≠ []) :
    numberIn? 10 cs = some (Numeral.digitsValue cs) := by
  rw [numberIn?, if_neg (by simp [hne]), foldlM_of_allDigits h]
  rfl

/-- A number above zero begins with another digit. -/
theorem head?_toDigits_ne_zero (hn : 0 < n) : (Nat.toDigits 10 n).head? ≠ some '0' := by
  induction n using Nat.strong_induction_on with
  | _ n ih =>
    rcases Nat.lt_or_ge n 10 with hsmall | hlarge
    · have hdigit : ∀ d < 10, 0 < d → [Nat.digitChar d].head? ≠ some '0' := by decide
      rw [Nat.toDigits_of_lt_base hsmall]
      exact hdigit n hsmall hn
    · have hfront : 0 < n / 10 := by omega
      have hcut := Nat.toDigits_append_toDigits (b := 10) (by decide) hfront
        (Nat.mod_lt n (by decide))
      rw [Nat.div_add_mod] at hcut
      rw [← hcut]
      rcases List.exists_cons_of_ne_nil (Nat.toDigits_ne_nil (n := n / 10) (b := 10)) with
        ⟨c, rest, hcons⟩
      have hhead := ih (n / 10) (by omega) hfront
      rw [hcons] at hhead ⊢
      exact hhead

theorem sign_of_allDigits (h : AllDigits cs) : Numeral.sign cs = (false, cs) := by
  unfold Numeral.sign
  split
  · exact absurd (h '-' List.mem_cons_self) (by decide)
  · exact absurd (h '+' List.mem_cons_self) (by decide)
  · rfl

theorem isPaddedDigits_toString (n : Nat) : isPaddedDigits (toString n).toList = false := by
  rw [isPaddedDigits, sign_of_allDigits (AllDigits.toString n), Nat.toString_eq_ofList_toDigits,
    String.toList_ofList]
  rcases Nat.eq_zero_or_pos n with rfl | hn
  · rfl
  · split
    · next rest heq =>
      have hhead := congrArg List.head? (Prod.mk.inj heq).2
      exact absurd hhead (head?_toDigits_ne_zero hn)
    · rfl

theorem basedNumber?_of_allDigits (h : AllDigits cs) : basedNumber? cs = none := by
  have hletter : ∀ x, x ∈ cs → x ≠ 'x' ∧ x ≠ 'o' ∧ x ≠ 'b' := by
    intro x hx
    have hdigit := h x hx
    refine ⟨?_, ?_, ?_⟩ <;> rintro rfl <;> exact absurd hdigit (by decide)
  unfold basedNumber?
  split
  · exact absurd rfl (hletter 'x' (by simp)).1
  · exact absurd rfl (hletter 'o' (by simp)).2.1
  · exact absurd rfl (hletter 'b' (by simp)).2.2
  · rfl

theorem dropPlus_of_allDigits (h : AllDigits cs) : dropPlus cs = cs := by
  unfold dropPlus
  split
  · exact absurd (h '+' List.mem_cons_self) (by decide)
  · rfl

/-- The digits of a number stand for it. -/
theorem unsigned?_toString (n : Nat) : unsigned? (toString n).toList = some n := by
  have hdigits := AllDigits.toString n
  rw [unsigned?, dropPlus_of_allDigits hdigits, basedNumber?_of_allDigits hdigits]
  simp only [isPaddedDigits_toString, Bool.false_eq_true, if_false]
  rw [numberIn?_of_allDigits hdigits (toString_ne_nil n), Numeral.digitsValue_toString]

end BlockScript.Yaml
