import BlockScript.Proofs.Number.WholeNumeral

namespace BlockScript

/-! # The grammar of numerals

Which texts are numbers, told without reading them. A decimal is digits, maybe with a point in front
of, among or behind them, and maybe an exponent (`decimal?_eq_some_iff`). A size is a decimal, maybe
with a plus sign, for which the nearest binary64 number is finite and greater than zero
(`size?_eq_some_iff`): the words for infinity and NaN are no sizes, and nothing with a minus sign is
one. A whole number is digits, maybe with a plus sign (`natUpTo?_eq_some_iff`).
-/

namespace Numeral

variable {cs tail : List Char} {d : Decimal} {exponent : Int}

/-- The text writes what stands behind the digits of a decimal: nothing, or a letter and digits with
a sign or without one. -/
inductive WritesExponent : List Char → Int → Prop
  | none : WritesExponent [] 0
  | positive {cs digits : List Char} {e : Char} (he : e = 'e' ∨ e = 'E')
      (h : IsUnsigned cs digits) : WritesExponent (e :: cs) (digitsValue digits)
  | negative {digits : List Char} {e : Char} (he : e = 'e' ∨ e = 'E') (hne : digits ≠ [])
      (h : AllDigits digits) : WritesExponent (e :: '-' :: digits) (-digitsValue digits)

/-- The text writes the decimal: digits and an exponent, without a point or with one. There is a
digit on one side of the point at least. -/
inductive WritesDecimal : List Char → Decimal → Prop
  | whole {digits tail : List Char} {exponent : Int} (hdigits : AllDigits digits)
      (hne : digits ≠ []) (htail : WritesExponent tail exponent) :
      WritesDecimal (digits ++ tail) ⟨digitsValue digits, exponent⟩
  | point {whole part tail : List Char} {exponent : Int} (hwhole : AllDigits whole)
      (hpart : AllDigits part) (hne : whole ++ part ≠ []) (htail : WritesExponent tail exponent) :
      WritesDecimal (whole ++ '.' :: (part ++ tail))
        ⟨digitsValue (whole ++ part), exponent - part.length⟩

/-- The text writes the size: a decimal, maybe with a plus sign in front, and the number nearest to
it, which is finite and greater than zero. -/
structure WritesSize (cs : List Char) (x : Binary64) : Prop where
  decimal : ∃ body d, (cs = body ∨ cs = '+' :: body) ∧ WritesDecimal body d ∧ x = .ofDecimal false d
  finite : x.isFinite = true
  positive : (0 : Binary64).lt x = true

/-! ## Exponents -/

theorem digits?_eq_some_iff {n : Nat} :
    digits? cs = some n ↔ cs ≠ [] ∧ AllDigits cs ∧ digitsValue cs = n := by
  constructor
  · exact allDigits_of_digits?
  · rintro ⟨hne, hall, rfl⟩
    exact digits?_of_allDigits hall hne

theorem writesExponent_of_exponent? {e : Char} (he : e = 'e' ∨ e = 'E')
    (h : exponent? cs = some exponent) : WritesExponent (e :: cs) exponent := by
  unfold exponent? at h
  split at h
  · next rest =>
    cases hn : digits? rest with
    | none => simp [hn] at h
    | some n =>
      obtain rfl : -(n : Int) = exponent := by simpa [hn] using h
      obtain ⟨hne, hall, rfl⟩ := digits?_eq_some_iff.mp hn
      exact .negative he hne hall
  · next rest =>
    obtain ⟨n, hn, rfl⟩ := Option.map_eq_some_iff.mp h
    obtain ⟨hne, hall, rfl⟩ := digits?_eq_some_iff.mp hn
    exact .positive he ⟨Or.inr rfl, hne, hall⟩
  · obtain ⟨n, hn, rfl⟩ := Option.map_eq_some_iff.mp h
    obtain ⟨hne, hall, rfl⟩ := digits?_eq_some_iff.mp hn
    exact .positive he ⟨Or.inl rfl, hne, hall⟩

theorem exponentPart?_eq_some_iff : exponentPart? tail = some exponent ↔
    WritesExponent tail exponent := by
  have hletter : ∀ {e : Char}, e = 'e' ∨ e = 'E' → (e == 'e' || e == 'E') = true := by
    rintro e (rfl | rfl) <;> decide
  constructor
  · intro h
    cases tail with
    | nil =>
      obtain rfl := Option.some.inj h
      exact .none
    | cons e rest =>
      rw [exponentPart?] at h
      split_ifs at h with he
      rw [Bool.or_eq_true, beq_iff_eq, beq_iff_eq] at he
      exact writesExponent_of_exponent? he h
  · intro h
    cases h with
    | none => rfl
    | positive he h =>
      rw [exponentPart?, if_pos (hletter he)]
      rcases h.sign with rfl | rfl
      · exact exponent?_of_allDigits h.allDigits h.ne_nil
      · rw [exponent?, digits?_of_allDigits h.allDigits h.ne_nil]
        rfl
    | negative he hne hall =>
      rw [exponentPart?, if_pos (hletter he), exponent?, digits?_of_allDigits hall hne]
      rfl

/-- An exponent begins with its letter, which is neither a digit nor the point. -/
theorem WritesExponent.head (h : WritesExponent tail exponent) :
    ∀ c ∈ tail.head?, c.isDigit = false ∧ c ≠ '.' := by
  have hletter : ∀ {e : Char}, e = 'e' ∨ e = 'E' → e.isDigit = false ∧ e ≠ '.' := by
    rintro e (rfl | rfl) <;> decide
  cases h with
  | none => exact nofun
  | positive he h =>
    rintro c ⟨⟩
    exact hletter he
  | negative he hne h =>
    rintro c ⟨⟩
    exact hletter he

/-! ## Decimals -/

/-- A decimal is read in three parts: the digits, those behind a point, and the exponent. -/
theorem decimal?_eq (cs : List Char) :
    decimal? cs =
      let rest := fraction (cs.dropWhile Char.isDigit)
      if (cs.takeWhile Char.isDigit).isEmpty && rest.1.isEmpty then none
      else (exponentPart? rest.2).map fun exponent =>
        ⟨digitsValue (cs.takeWhile Char.isDigit ++ rest.1), exponent - rest.1.length⟩ := by
  rw [decimal?, List.span_eq_takeWhile_dropWhile]
  simp only
  congr 1
  rcases (fraction (cs.dropWhile Char.isDigit)).2 with _ | ⟨e, rest⟩
  · rfl
  · simp only [exponentPart?]
    split_ifs <;> rfl

theorem fraction_cases (cs : List Char) :
    (∃ behind, cs = '.' :: behind ∧
      fraction cs = (behind.takeWhile Char.isDigit, behind.dropWhile Char.isDigit)) ∨
    fraction cs = ([], cs) := by
  unfold fraction
  split
  · next behind => exact Or.inl ⟨behind, rfl, List.span_eq_takeWhile_dropWhile ..⟩
  · exact Or.inr rfl

theorem writesDecimal_of_decimal? (h : decimal? cs = some d) : WritesDecimal cs d := by
  have hcut : cs.takeWhile Char.isDigit ++ cs.dropWhile Char.isDigit = cs :=
    List.takeWhile_append_dropWhile
  have hwhole : AllDigits (cs.takeWhile Char.isDigit) := List.all_eq_true.mp List.all_takeWhile
  rw [decimal?_eq] at h
  simp only at h
  split_ifs at h with hnone
  obtain ⟨exponent, hexponent, rfl⟩ := Option.map_eq_some_iff.mp h
  rw [Bool.and_eq_true, List.isEmpty_iff, List.isEmpty_iff] at hnone
  generalize cs.takeWhile Char.isDigit = whole at hcut hwhole hnone ⊢
  rcases fraction_cases (cs.dropWhile Char.isDigit) with ⟨behind, hbehind, hfraction⟩ | hfraction
  · -- a point, with the digits behind it
    rw [hfraction] at hexponent hnone ⊢
    have hpart : AllDigits (behind.takeWhile Char.isDigit) :=
      List.all_eq_true.mp List.all_takeWhile
    have hne : whole ++ behind.takeWhile Char.isDigit ≠ [] := by
      rw [ne_eq, List.append_eq_nil_iff]
      exact hnone
    have hwrites := WritesDecimal.point hwhole hpart hne (exponentPart?_eq_some_iff.mp hexponent)
    rw [List.takeWhile_append_dropWhile, ← hbehind, hcut] at hwrites
    exact hwrites
  · rw [hfraction] at hexponent hnone ⊢
    have hne : whole ≠ [] := fun hnil => hnone ⟨hnil, rfl⟩
    have hwrites := WritesDecimal.whole hwhole hne (exponentPart?_eq_some_iff.mp hexponent)
    rw [hcut] at hwrites
    simpa using hwrites

theorem decimal?_of_writesDecimal (h : WritesDecimal cs d) : decimal? cs = some d := by
  cases h with
  | @whole digits tail exponent hdigits hne htail =>
    obtain ⟨htake, hdrop⟩ := takeWhile_isDigit_append hdigits fun c hc => (htail.head c hc).1
    have hfraction : fraction tail = ([], tail) := by
      unfold fraction
      split
      · exact absurd rfl (htail.head '.' rfl).2
      · rfl
    rw [decimal?_eq, htake, hdrop, hfraction]
    simp [hne, exponentPart?_eq_some_iff.mpr htail]
  | @point whole part tail exponent hwhole hpart hne htail =>
    have hpoint : ∀ c ∈ ('.' :: (part ++ tail)).head?, c.isDigit = false := by
      rintro c ⟨⟩
      decide
    obtain ⟨htake, hdrop⟩ := takeWhile_isDigit_append hwhole hpoint
    obtain ⟨htakePart, hdropPart⟩ :=
      takeWhile_isDigit_append hpart fun c hc => (htail.head c hc).1
    have hfraction : fraction ('.' :: (part ++ tail)) = (part, tail) := by
      rw [fraction, List.span_eq_takeWhile_dropWhile, htakePart, hdropPart]
    have hsome : (whole.isEmpty && part.isEmpty) = false := by
      rw [Bool.eq_false_iff, ne_eq, Bool.and_eq_true, List.isEmpty_iff, List.isEmpty_iff,
        ← List.append_eq_nil_iff]
      exact hne
    rw [decimal?_eq, htake, hdrop, hfraction]
    simp only [hsome, Bool.false_eq_true, if_false, exponentPart?_eq_some_iff.mpr htail,
      Option.map_some]

/-- The texts that are read as a decimal are those that write it. -/
theorem decimal?_eq_some_iff : decimal? cs = some d ↔ WritesDecimal cs d :=
  ⟨writesDecimal_of_decimal?, decimal?_of_writesDecimal⟩

end Numeral

/-! ## Sizes -/

theorem Binary64.isPositive_iff {x : Binary64} :
    x.isPositive = true ↔ x.isFinite = true ∧ (0 : Binary64).lt x = true := by
  have hzero : (0 : Binary64).rank = 0 := by decide +kernel
  have hnan : (0 : Binary64).isNaN = false := isNonneg_zero.1
  cases x with
  | nan => simp [isPositive, isFinite]
  | infinite negative => simp [isPositive, isFinite]
  | finite negative magnitude =>
    rw [lt, hnan, hzero]
    -- below zero and at zero nothing is positive
    cases negative <;> simp [isPositive, isFinite, isNaN, rank]

namespace Numeral

variable {cs : List Char} {x : Binary64}

/-- A number that is read with a minus sign is not above zero. -/
theorem isPositive_ofDecimal_true (d : Decimal) :
    (Binary64.ofDecimal true d).isPositive = false := by
  rw [Binary64.ofDecimal]
  split <;> rfl

theorem sign_cases (cs : List Char) :
    (∃ body, sign cs = (true, body)) ∨
      ∃ body, sign cs = (false, body) ∧ (cs = body ∨ cs = '+' :: body) := by
  unfold sign
  split
  · exact Or.inl ⟨_, rfl⟩
  · exact Or.inr ⟨_, rfl, Or.inr rfl⟩
  · exact Or.inr ⟨_, rfl, Or.inl rfl⟩

/-- A positive number is written as a decimal, not as a word. -/
theorem exists_decimal_of_binary64? (h : binary64? cs = some x) (hx : x.isPositive = true) :
    ∃ d, decimal? (sign cs).2 = some d ∧ x = .ofDecimal (sign cs).1 d := by
  simp only [binary64?] at h
  split_ifs at h
  · obtain rfl := Option.some.inj h
    cases hx
  · obtain rfl := Option.some.inj h
    cases hx
  · obtain ⟨d, hd, rfl⟩ := Option.map_eq_some_iff.mp h
    exact ⟨d, hd, rfl⟩

/-- The texts that are read as a size are those that write it. -/
theorem size?_eq_some_iff : size? cs = some x ↔ WritesSize cs x := by
  rw [size?, Option.filter_eq_some_iff]
  constructor
  · rintro ⟨hread, hpositive⟩
    obtain ⟨d, hd, hx⟩ := exists_decimal_of_binary64? hread hpositive
    obtain ⟨hfinite, hlt⟩ := Binary64.isPositive_iff.mp hpositive
    rcases sign_cases cs with ⟨body, hsign⟩ | ⟨body, hsign, hbody⟩
    · rw [hx, hsign, isPositive_ofDecimal_true] at hpositive
      cases hpositive
    · rw [hsign] at hd hx
      exact ⟨⟨body, d, hbody, decimal?_eq_some_iff.mp hd, hx⟩, hfinite, hlt⟩
  · rintro ⟨⟨body, d, hbody, hd, rfl⟩, hfinite, hlt⟩
    have hread := decimal?_eq_some_iff.mpr hd
    refine ⟨?_, Binary64.isPositive_iff.mpr ⟨hfinite, hlt⟩⟩
    rcases hbody with rfl | rfl
    · exact binary64?_of_sign_of_decimal? (sign_of_decimal? hread) hread
    · exact binary64?_of_sign_of_decimal? rfl hread

/-! ## Whole numbers -/

/-- The texts that are read as a whole number are its digits, maybe with a plus sign in front. -/
theorem natUpTo?_eq_some_iff {limit n : Nat} :
    natUpTo? limit cs = some n ↔
      ∃ digits, IsUnsigned cs digits ∧ digitsValue digits = n ∧ n ≤ limit := by
  unfold natUpTo?
  rw [Option.filter_eq_some_iff, digits?_eq_some_iff, decide_eq_true_iff]
  constructor
  · rintro ⟨⟨hne, hall, hvalue⟩, hle⟩
    refine ⟨_, ⟨?_, hne, hall⟩, hvalue, hle⟩
    split
    · exact Or.inr rfl
    · exact Or.inl rfl
  · rintro ⟨digits, ⟨hsign, hne, hall⟩, hvalue, hle⟩
    rcases hsign with rfl | rfl
    · -- digits do not begin with a plus sign
      obtain ⟨c, rest, rfl⟩ := List.exists_cons_of_ne_nil hne
      have hplus := (ne_sign_of_isDigit (hall c List.mem_cons_self)).2
      split
      · next heq => exact absurd (List.cons.inj heq).1 hplus
      · exact ⟨⟨hne, hall, hvalue⟩, hle⟩
    · exact ⟨⟨hne, hall, hvalue⟩, hle⟩

end Numeral

end BlockScript
