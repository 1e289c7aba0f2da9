import BlockScript.Number.Layout
import BlockScript.Number.Numeral
import BlockScript.Proofs.Number.Decimal
import Mathlib.Data.List.Induction
import Mathlib.Data.List.TakeDrop

namespace BlockScript

/-! # Reading what was printed

Every layout writes a finite number as a numeral that is read as this number again
(`NumberLayout.binary64?_text`). All three forms, with all digits, with a point and with an
exponent, are a row of digits, digits behind a point, and maybe an exponent; the decimal that is
read from them is worth the same as the one that was written. So a text has one number
(`NumberLayout.text_injective`).
-/

/-- Only decimal digits. -/
def AllDigits (cs : List Char) : Prop := ∀ c ∈ cs, c.isDigit = true

namespace AllDigits

variable {cs ds : List Char}

theorem nil : AllDigits [] := fun _ hc => absurd hc List.not_mem_nil

theorem append (hcs : AllDigits cs) (hds : AllDigits ds) : AllDigits (cs ++ ds) := by
  intro c hc
  rcases List.mem_append.mp hc with h | h
  · exact hcs c h
  · exact hds c h

theorem sublist (h : AllDigits ds) (hsub : cs.Sublist ds) : AllDigits cs :=
  fun c hc => h c (hsub.subset hc)

theorem zeros (n : Nat) : AllDigits (NumberLayout.zeros n) := by
  intro c hc
  obtain rfl : c = '0' := List.eq_of_mem_replicate hc
  decide

/-- The digits that a natural number is printed with. -/
theorem toString (n : Nat) : AllDigits (ToString.toString n).toList := by
  intro c hc
  rw [Nat.toString_eq_ofList_toDigits, String.toList_ofList] at hc
  exact Nat.isDigit_of_mem_toDigits (by decide) (by decide) hc

end AllDigits

theorem toString_ne_nil (n : Nat) : (toString n).toList ≠ [] := by
  rw [Nat.toString_eq_ofList_toDigits, String.toList_ofList]
  exact Nat.toDigits_ne_nil

namespace Numeral

variable {cs whole part tail : List Char}

/-! ## Rows of digits -/

theorem digitsValue_toString (n : Nat) : digitsValue (toString n).toList = n := by
  rw [Nat.toString_eq_ofList_toDigits, String.toList_ofList]
  exact Nat.ofDigitChars_ten_toDigits

theorem digitsValue_append (cs ds : List Char) :
    digitsValue (cs ++ ds) = digitsValue cs * 10 ^ ds.length + digitsValue ds := by
  induction ds using List.reverseRecOn with
  | nil => simp [digitsValue]
  | append_singleton ds d ih =>
    have hlast : ∀ front : List Char,
        digitsValue (front ++ [d]) = 10 * digitsValue front + (d.toNat - '0'.toNat) := by
      intro front
      rw [digitsValue, List.foldl_append]
      rfl
    rw [← List.append_assoc, hlast, hlast, ih, List.length_append, List.length_singleton]
    ring

theorem digitsValue_zeros (n : Nat) : digitsValue (NumberLayout.zeros n) = 0 := by
  induction n with
  | zero => rfl
  | succ n ih =>
    rw [NumberLayout.zeros, List.replicate_succ', digitsValue_append, ← NumberLayout.zeros, ih]
    rfl

theorem digits?_of_allDigits (h : AllDigits cs) (hne : cs ≠ []) :
    digits? cs = some (digitsValue cs) := by
  have hall : cs.all Char.isDigit = true := List.all_eq_true.mpr h
  simp [digits?, hne, hall]

theorem allDigits_of_digits? {n : Nat} (h : digits? cs = some n) :
    cs ≠ [] ∧ AllDigits cs ∧ digitsValue cs = n := by
  rw [digits?] at h
  split_ifs at h with hnone
  rw [Bool.or_eq_true, not_or, Bool.not_eq_true', Bool.not_eq_false] at hnone
  exact ⟨fun hnil => hnone.1 (List.isEmpty_iff.mpr hnil), List.all_eq_true.mp hnone.2,
    Option.some.inj h⟩

/-- A digit is no sign. -/
theorem ne_sign_of_isDigit {c : Char} (h : c.isDigit = true) : c ≠ '-' ∧ c ≠ '+' := by
  constructor
  · rintro rfl
    exact absurd h (by decide)
  · rintro rfl
    exact absurd h (by decide)

theorem exponent?_of_allDigits (h : AllDigits cs) (hne : cs ≠ []) :
    exponent? cs = some (digitsValue cs : Int) := by
  have hread : (digits? cs).map Int.ofNat = some (digitsValue cs : Int) := by
    rw [digits?_of_allDigits h hne]
    rfl
  obtain ⟨c, rest, rfl⟩ := List.exists_cons_of_ne_nil hne
  obtain ⟨hminus, hplus⟩ := ne_sign_of_isDigit (h c List.mem_cons_self)
  unfold exponent?
  split
  · next heq => exact absurd (List.cons.inj heq).1 hminus
  · next heq => exact absurd (List.cons.inj heq).1 hplus
  · exact hread

/-! ## Decimals -/

/-- Digits behind a point, or nothing when there are none. -/
def pointed : List Char → List Char
  | [] => []
  | c :: cs => '.' :: c :: cs

theorem pointed_of_ne_nil (h : cs ≠ []) : pointed cs = '.' :: cs := by
  obtain ⟨c, rest, rfl⟩ := List.exists_cons_of_ne_nil h
  rfl

/-- Reads what stands behind the digits of a decimal: nothing, or an exponent to the end. -/
def exponentPart? : List Char → Option Int
  | [] => some 0
  | c :: rest => if c == 'e' || c == 'E' then exponent? rest else none

theorem takeWhile_isDigit_append (h : AllDigits cs)
    (htail : ∀ c ∈ tail.head?, c.isDigit = false) :
    (cs ++ tail).takeWhile Char.isDigit = cs ∧ (cs ++ tail).dropWhile Char.isDigit = tail := by
  rw [List.takeWhile_append_of_pos h, List.dropWhile_append_of_pos h]
  cases tail with
  | nil => simp
  | cons c rest =>
    have hc : c.isDigit = false := htail c rfl
    simp [hc]

/-- Digits, a point with digits, and maybe an exponent are read as the digits in one row, with the
exponent lowered by the places behind the point. -/
theorem decimal?_pointed (tail : List Char) (hwhole : AllDigits whole) (hne : whole ≠ [])
    (hpart : AllDigits part) (htail : ∀ c ∈ tail.head?, c.isDigit = false ∧ c ≠ '.') :
    decimal? (whole ++ pointed part ++ tail) = (exponentPart? tail).map fun exponent =>
      ⟨digitsValue (whole ++ part), exponent - part.length⟩ := by
  have hbehind : ∀ c ∈ (pointed part ++ tail).head?, c.isDigit = false := by
    cases part with
    | nil => exact fun c hc => (htail c hc).1
    | cons d ds =>
      intro c hc
      obtain rfl : '.' = c := Option.some.inj hc
      decide
  have hfraction : fraction (pointed part ++ tail) = (part, tail) := by
    cases part with
    | nil =>
      rw [pointed, List.nil_append]
      unfold fraction
      split
      · next c rest => exact absurd rfl (htail '.' rfl).2
      · rfl
    | cons d ds =>
      obtain ⟨htake, hdrop⟩ := takeWhile_isDigit_append hpart fun c hc => (htail c hc).1
      show ((d :: ds) ++ tail).span Char.isDigit = _
      rw [List.span_eq_takeWhile_dropWhile, htake, hdrop]
  obtain ⟨htake, hdrop⟩ := takeWhile_isDigit_append hwhole hbehind
  rw [List.append_assoc, decimal?, List.span_eq_takeWhile_dropWhile, htake, hdrop]
  simp only [hfraction]
  have hsome : (whole.isEmpty && part.isEmpty) = false := by simp [hne]
  rw [hsome, if_neg Bool.false_ne_true]
  cases tail with
  | nil => rfl
  | cons c rest =>
    by_cases he : (c == 'e' || c == 'E') = true
    · simp only [exponentPart?, if_pos he]
    · simp only [exponentPart?, if_neg he, Option.map_none]

end Numeral

/-! ## Layouts -/

namespace NumberLayout

open Numeral

variable {layout : NumberLayout} {digits whole part : List Char}

/-- A text is read as a decimal that is worth the same as `d`. -/
def ReadsAs (cs : List Char) (d : Decimal) : Prop := ∃ e, decimal? cs = some e ∧ e.SameValue d

/-- Digits with a point, with or without places behind it. -/
theorem decimal?_point (hwhole : AllDigits whole) (hne : whole ≠ []) (hpart : AllDigits part) :
    decimal? (whole ++ pointed part) =
      some ⟨digitsValue (whole ++ part), 0 - part.length⟩ := by
  have hread := decimal?_pointed [] hwhole hne hpart nofun
  rw [List.append_nil] at hread
  exact hread

theorem digitsValue_append_zeros (digits : List Char) (k : Nat) :
    digitsValue (digits ++ zeros k) = digitsValue digits * 10 ^ k := by
  rw [digitsValue_append, digitsValue_zeros, zeros, List.length_replicate, Nat.add_zero]

/-- With all digits written out. -/
theorem readsAs_whole (layout : NumberLayout) (hdigits : AllDigits digits) (hne : digits ≠ [])
    (k : Nat) : ReadsAs (layout.positionalText digits k) ⟨digitsValue digits, k⟩ := by
  have hwhole := hdigits.append (AllDigits.zeros k)
  have hsome : digits ++ zeros k ≠ [] := List.append_ne_nil_of_left_ne_nil hne _
  have hvalue := (Decimal.sameValue_natCast (digitsValue digits) k).symm
  cases hpoint : layout.wholeWithPoint with
  | false =>
    have htext : layout.positionalText digits k = digits ++ zeros k ++ pointed [] := by
      simp [positionalText, hpoint, pointed]
    have hread := decimal?_point hwhole hsome AllDigits.nil
    rw [List.append_nil, digitsValue_append_zeros] at hread
    exact ⟨_, htext ▸ hread, hvalue⟩
  | true =>
    -- the zero behind the point is one more digit
    have htext : layout.positionalText digits k = digits ++ zeros k ++ pointed (zeros 1) := by
      simp [positionalText, hpoint, pointed, zeros]
    have hread := decimal?_point hwhole hsome (AllDigits.zeros 1)
    have hlower : (0 : Int) - (zeros 1).length = -1 := rfl
    have hstep := Decimal.sameValue_succ (digitsValue digits * 10 ^ k) (-1)
    rw [digitsValue_append_zeros, digitsValue_append_zeros, Nat.pow_one, hlower] at hread
    exact ⟨_, htext ▸ hread, hstep.symm.trans hvalue⟩

/-- With a point among the digits, or in front of them. -/
theorem readsAs_places (layout : NumberLayout) (hdigits : AllDigits digits) (hne : digits ≠ [])
    (k : Nat) :
    ReadsAs (layout.positionalText digits (.negSucc k)) ⟨digitsValue digits, .negSucc k⟩ := by
  have hexponent : (.negSucc k : Int) = 0 - (k + 1 : Nat) := by omega
  have hlength : 0 < digits.length := List.length_pos_iff.mpr hne
  rw [positionalText]
  split_ifs with hplaces
  · generalize hfront : digits.length - (k + 1) = front
    have hwhole : AllDigits (digits.take front) := hdigits.sublist (List.take_sublist ..)
    have hpart : AllDigits (digits.drop front) := hdigits.sublist (List.drop_sublist ..)
    have hsome : digits.take front ≠ [] := by
      rw [← List.length_pos_iff, List.length_take]
      omega
    have hcount : (digits.drop front).length = k + 1 := by
      rw [List.length_drop]
      omega
    have htext : pointed (digits.drop front) = '.' :: digits.drop front :=
      pointed_of_ne_nil (List.length_pos_iff.mp (by omega))
    have hread := decimal?_point hwhole hsome hpart
    rw [htext, List.take_append_drop, hcount, ← hexponent] at hread
    exact ⟨_, hread, .refl _⟩
  · -- zeros stand between the point and the digits
    have hpart := (AllDigits.zeros (k + 1 - digits.length)).append hdigits
    have hcount : (zeros (k + 1 - digits.length) ++ digits).length = k + 1 := by
      rw [List.length_append, zeros, List.length_replicate]
      omega
    have htext : pointed (zeros (k + 1 - digits.length) ++ digits) =
        '.' :: (zeros (k + 1 - digits.length) ++ digits) :=
      pointed_of_ne_nil (List.append_ne_nil_of_right_ne_nil _ hne)
    have hread := decimal?_point (AllDigits.zeros 1) (by simp [zeros]) hpart
    have hvalue : digitsValue (zeros 1 ++ (zeros (k + 1 - digits.length) ++ digits)) =
        digitsValue digits := by
      rw [digitsValue_append, digitsValue_append, digitsValue_zeros, digitsValue_zeros,
        Nat.zero_mul, Nat.zero_mul, Nat.zero_add, Nat.zero_add]
    rw [htext, hvalue, hcount, ← hexponent] at hread
    exact ⟨_, hread, .refl _⟩

/-- The exponent of a text, behind its letter. -/
def exponentChars (layout : NumberLayout) (leading : Int) : List Char :=
  (match leading with
    | .ofNat k => layout.exponentPlus ++ toString k
    | .negSucc k => "-" ++ toString (k + 1)).toList

theorem exponentText_cons (layout : NumberLayout) (c : Char) (cs : List Char) (leading : Int) :
    layout.exponentText (c :: cs) leading =
      [c] ++ pointed cs ++ 'e' :: layout.exponentChars leading := by
  cases cs <;> rfl

/-- An exponent is read as it is written. A plus sign in front of it does not matter. -/
theorem exponent?_exponentChars (hplus : layout.exponentPlus = "" ∨ layout.exponentPlus = "+")
    (leading : Int) : exponent? (layout.exponentChars leading) = some leading := by
  have hdigits : ∀ n : Nat, digits? (toString n).toList = some n := by
    intro n
    rw [digits?_of_allDigits (AllDigits.toString n) (toString_ne_nil n), digitsValue_toString]
  cases leading with
  | ofNat k =>
    rcases hplus with hnone | hplus
    · have hread := exponent?_of_allDigits (AllDigits.toString k) (toString_ne_nil k)
      rw [digitsValue_toString] at hread
      simpa [exponentChars, hnone] using hread
    · have htext : ("+" ++ toString k).toList = '+' :: (toString k).toList := by simp
      simp only [exponentChars, hplus, htext, exponent?, hdigits]
      rfl
  | negSucc k =>
    have htext : ("-" ++ toString (k + 1)).toList = '-' :: (toString (k + 1)).toList := by simp
    simp only [exponentChars, htext, exponent?, hdigits]
    rfl

/-- With one digit in front of the point and an exponent. -/
theorem readsAs_exponent (hplus : layout.exponentPlus = "" ∨ layout.exponentPlus = "+")
    (hdigits : AllDigits digits) (hne : digits ≠ []) (exponent : Int) :
    ReadsAs (layout.exponentText digits (exponent + (digits.length - 1 : Nat)))
      ⟨digitsValue digits, exponent⟩ := by
  obtain ⟨c, cs, rfl⟩ := List.exists_cons_of_ne_nil hne
  have hhead : AllDigits [c] := hdigits.sublist (by simp)
  have htail : AllDigits cs := hdigits.sublist (List.sublist_cons_self ..)
  generalize hleading : exponent + ((c :: cs).length - 1 : Nat) = leading
  have hletter : ∀ d ∈ ('e' :: layout.exponentChars leading).head?,
      d.isDigit = false ∧ d ≠ '.' := by
    rintro d ⟨⟩
    decide
  have hread := decimal?_pointed _ hhead (List.cons_ne_nil _ _) htail hletter
  have hmark : ('e' == 'e' || 'e' == 'E') = true := by decide
  have hexponent : leading - cs.length = exponent := by
    rw [List.length_cons, Nat.add_sub_cancel] at hleading
    omega
  rw [exponentPart?, if_pos hmark, exponent?_exponentChars hplus, Option.map_some,
    List.singleton_append, hexponent] at hread
  rw [exponentText_cons]
  exact ⟨_, hread, .refl _⟩

/-- A decimal is read as one of the same worth, in every layout. -/
theorem readsAs_decimalText (hplus : layout.exponentPlus = "" ∨ layout.exponentPlus = "+")
    (d : Decimal) : ReadsAs (layout.decimalText d) d := by
  obtain ⟨n, exponent⟩ := d
  have hdigits := AllDigits.toString n
  have hne := toString_ne_nil n
  have hvalue := digitsValue_toString n
  simp only [decimalText]
  split_ifs
  · cases exponent with
    | ofNat k =>
      have hread := readsAs_whole layout hdigits hne k
      rwa [hvalue] at hread
    | negSucc k =>
      have hread := readsAs_places layout hdigits hne k
      rwa [hvalue] at hread
  · have hread := readsAs_exponent hplus hdigits hne exponent
    rwa [hvalue] at hread

end NumberLayout

/-! ## Numbers -/

namespace Numeral

variable {cs : List Char} {d : Decimal}

/-- A decimal begins with a digit or a point. -/
theorem head_of_decimal? (h : decimal? cs = some d) :
    ∃ c rest, cs = c :: rest ∧ (c.isDigit = true ∨ c = '.') := by
  cases cs with
  | nil => cases h
  | cons c rest =>
    refine ⟨c, rest, rfl, ?_⟩
    by_contra hnot
    rw [not_or, Bool.not_eq_true] at hnot
    obtain ⟨hdigit, hpoint⟩ := hnot
    have hfraction : fraction (c :: rest) = ([], c :: rest) := by
      unfold fraction
      split
      · next heq => exact absurd (List.cons.inj heq).1 hpoint
      · rfl
    rw [decimal?, List.span_eq_takeWhile_dropWhile, List.takeWhile_cons_of_neg (by simp [hdigit]),
      List.dropWhile_cons_of_neg (by simp [hdigit])] at h
    simp only [hfraction, List.isEmpty_nil, Bool.and_self, if_true] at h
    cases h

/-- The characters of numerals. -/
def IsMark (c : Char) : Prop := c.isDigit = true ∨ c ∈ ['.', 'e', 'E', '+', '-']

instance (c : Char) : Decidable (IsMark c) := inferInstanceAs (Decidable (_ ∨ _))

theorem isMark_of_digits? {n : Nat} (h : digits? cs = some n) : ∀ c ∈ cs, IsMark c :=
  fun c hc => Or.inl ((allDigits_of_digits? h).2.1 c hc)

theorem isMark_of_exponent? {exponent : Int} (h : exponent? cs = some exponent) :
    ∀ c ∈ cs, IsMark c := by
  have hsome : ∀ {text : List Char} {f : Nat → Int}, (digits? text).map f = some exponent →
      ∀ c ∈ text, IsMark c := by
    intro text f htext
    obtain ⟨n, hn, -⟩ := Option.map_eq_some_iff.mp htext
    exact isMark_of_digits? hn
  unfold exponent? at h
  split at h
  · next rest =>
    refine List.forall_mem_cons.mpr ⟨Or.inr (by simp), ?_⟩
    cases hn : digits? rest with
    | none => simp [hn] at h
    | some n => exact isMark_of_digits? hn
  · exact List.forall_mem_cons.mpr ⟨Or.inr (by simp), hsome h⟩
  · exact hsome h

theorem isMark_of_takeWhile (hrest : ∀ c ∈ cs.dropWhile Char.isDigit, IsMark c) :
    ∀ c ∈ cs, IsMark c := by
  intro c hc
  rw [← @List.takeWhile_append_dropWhile _ Char.isDigit cs, List.mem_append] at hc
  rcases hc with hc | hc
  · exact Or.inl (List.all_eq_true.mp List.all_takeWhile c hc)
  · exact hrest c hc

/-- Everything in a text that is read as a decimal belongs to it. -/
theorem isMark_of_decimal? (h : decimal? cs = some d) : ∀ c ∈ cs, IsMark c := by
  have hfraction : ∀ text : List Char, (∀ c ∈ (fraction text).2, IsMark c) →
      ∀ c ∈ text, IsMark c := by
    intro text hrest
    unfold fraction at hrest
    split at hrest
    · rw [List.span_eq_takeWhile_dropWhile] at hrest
      exact List.forall_mem_cons.mpr ⟨Or.inr (by simp), isMark_of_takeWhile hrest⟩
    · exact hrest
  refine isMark_of_takeWhile (hfraction _ ?_)
  rw [decimal?, List.span_eq_takeWhile_dropWhile] at h
  simp only at h
  split_ifs at h
  split at h
  · next hnil =>
    rw [hnil]
    exact fun c hc => absurd hc List.not_mem_nil
  · next c rest hcons =>
    rw [hcons]
    split_ifs at h with he
    obtain ⟨exponent, hexponent, -⟩ := Option.map_eq_some_iff.mp h
    refine List.forall_mem_cons.mpr ⟨?_, isMark_of_exponent? hexponent⟩
    rw [Bool.or_eq_true, beq_iff_eq, beq_iff_eq] at he
    rcases he with rfl | rfl <;> exact Or.inr (by simp)

theorem toLower_of_isDigit {c : Char} (h : c.isDigit = true) : c.toLower = c := by
  simp only [Char.isDigit, Bool.and_eq_true, decide_eq_true_eq] at h
  have hupper : ¬ (c.val ≥ 'A'.val ∧ c.val ≤ 'Z'.val) := by
    rintro ⟨hlow, -⟩
    have hnine : 'A'.val ≤ '9'.val := UInt32.le_trans hlow h.2
    exact absurd hnine (by decide)
  exact dif_neg hupper

/-- Every word for a number begins with one of two letters. -/
theorem binary64?_of_sign {negative : Bool} {c : Char} {rest : List Char}
    (hsign : sign cs = (negative, c :: rest)) (hn : c.toLower ≠ 'n') (hi : c.toLower ≠ 'i') :
    binary64? cs = (decimal? (c :: rest)).map (Binary64.ofDecimal negative) := by
  have hword : ∀ (word : String) (letter : Char), word.toList.head? = some letter →
      c.toLower ≠ letter → (String.ofList ((c :: rest).map Char.toLower) == word) = false := by
    intro word letter hletter hne
    rw [beq_eq_false_iff_ne]
    rintro rfl
    rw [String.toList_ofList] at hletter
    exact hne (Option.some.inj hletter)
  have hnan := hword "nan" 'n' rfl hn
  have hinf := hword "inf" 'i' rfl hi
  have hinfinity := hword "infinity" 'i' rfl hi
  rw [binary64?, hsign]
  simp only [hnan, hinf, hinfinity, Bool.or_self, Bool.false_eq_true, if_false]

/-- A decimal begins with none of the letters of a word, and with no sign. -/
theorem first_of_decimal? (h : decimal? cs = some d) :
    ∃ c rest, cs = c :: rest ∧ c.toLower ≠ 'n' ∧ c.toLower ≠ 'i' ∧ c ≠ '-' ∧ c ≠ '+' := by
  obtain ⟨c, rest, rfl, hc⟩ := head_of_decimal? h
  refine ⟨c, rest, rfl, ?_⟩
  rcases hc with hdigit | rfl
  · rw [toLower_of_isDigit hdigit]
    refine ⟨?_, ?_, ne_sign_of_isDigit hdigit⟩
    · rintro rfl
      exact absurd hdigit (by decide)
    · rintro rfl
      exact absurd hdigit (by decide)
  · decide

theorem sign_of_decimal? (h : decimal? cs = some d) : sign cs = (false, cs) := by
  obtain ⟨c, rest, rfl, -, -, hminus, hplus⟩ := first_of_decimal? h
  unfold sign
  split
  · next heq => exact absurd (List.cons.inj heq).1 hminus
  · next heq => exact absurd (List.cons.inj heq).1 hplus
  · rfl

/-- What is read as a decimal is no word, and a sign in front of it is its sign. -/
theorem binary64?_of_sign_of_decimal? {negative : Bool} {body : List Char}
    (hsign : sign cs = (negative, body)) (h : decimal? body = some d) :
    binary64? cs = some (.ofDecimal negative d) := by
  obtain ⟨c, rest, rfl, hn, hi, -, -⟩ := first_of_decimal? h
  rw [binary64?_of_sign hsign hn hi, h]
  rfl

theorem binary64?_of_decimal? (h : decimal? cs = some d) :
    binary64? cs = some (.ofDecimal false d) ∧
      binary64? ('-' :: cs) = some (.ofDecimal true d) :=
  ⟨binary64?_of_sign_of_decimal? (sign_of_decimal? h) h, binary64?_of_sign_of_decimal? rfl h⟩

end Numeral

namespace NumberLayout

variable {layout : NumberLayout}

/-- The text of a finite number holds characters of numerals only. -/
theorem isMark_of_mem_text (hplus : layout.exponentPlus = "" ∨ layout.exponentPlus = "+")
    {x : Binary64} (hx : x.isFinite = true) : ∀ c ∈ (layout.text x).toList, Numeral.IsMark c := by
  cases x with
  | nan => cases hx
  | infinite negative => cases hx
  | finite negative m =>
    obtain ⟨e, hread, -⟩ := readsAs_decimalText hplus (m.shortest layout.tie)
    have hbody := Numeral.isMark_of_decimal? hread
    cases negative with
    | false => simpa [text] using hbody
    | true =>
      have hminus : Numeral.IsMark '-' := Or.inr (by simp)
      simpa [text] using ⟨hminus, hbody⟩

/-- A finite number is read from its text again. -/
theorem binary64?_text (hplus : layout.exponentPlus = "" ∨ layout.exponentPlus = "+")
    {x : Binary64} (hx : x.isFinite = true) :
    Numeral.binary64? (layout.text x).toList = some x := by
  cases x with
  | nan => cases hx
  | infinite negative => cases hx
  | finite negative m =>
    obtain ⟨e, hread, hvalue⟩ := readsAs_decimalText hplus (m.shortest layout.tie)
    have hback : m.ReadsBack e := hvalue.magnitude?_eq.trans (m.readsBack_shortest layout.tie)
    obtain ⟨hpositive, hnegative⟩ := Numeral.binary64?_of_decimal? hread
    rw [Binary64.ofDecimal_of_readsBack hback] at hpositive hnegative
    cases negative with
    | false => simpa [text] using hpositive
    | true => simpa [text] using hnegative

/-- A text stands for one finite number. -/
theorem text_injective (hplus : layout.exponentPlus = "" ∨ layout.exponentPlus = "+")
    {x y : Binary64} (hx : x.isFinite = true) (hy : y.isFinite = true)
    (h : layout.text x = layout.text y) : x = y := by
  have hread := binary64?_text hplus hx
  rw [h, binary64?_text hplus hy] at hread
  exact (Option.some.inj hread).symm

/-- The text of a number ends before the first character that occurs in no numeral. -/
theorem text_append_inj (hplus : layout.exponentPlus = "" ∨ layout.exponentPlus = "+")
    {x y : Binary64} (hx : x.isFinite = true) (hy : y.isFinite = true) {rest rest' : List Char}
    (hrest : ∀ c, rest.head? = some c → ¬ Numeral.IsMark c)
    (hrest' : ∀ c, rest'.head? = some c → ¬ Numeral.IsMark c)
    (h : (layout.text x).toList ++ rest = (layout.text y).toList ++ rest') :
    x = y ∧ rest = rest' := by
  have hmarks : ∀ {x : Binary64} {rest : List Char}, x.isFinite = true →
      (∀ c, rest.head? = some c → ¬ Numeral.IsMark c) →
      ((layout.text x).toList ++ rest).takeWhile (fun c => decide (Numeral.IsMark c)) =
        (layout.text x).toList := by
    intro x rest hx hrest
    rw [List.takeWhile_append_of_pos fun c hc => decide_eq_true (isMark_of_mem_text hplus hx c hc)]
    cases rest with
    | nil => exact List.append_nil _
    | cons c rest =>
      rw [List.takeWhile_cons_of_neg (by simpa using hrest c rfl), List.append_nil]
  have htext := hmarks hx hrest
  rw [h, hmarks hy hrest'] at htext
  obtain rfl := text_injective hplus hx hy (String.toList_injective htext.symm)
  exact ⟨rfl, List.append_cancel_left h⟩

end NumberLayout

end BlockScript
