import BlockScript.Proofs.Number.Printing
import BlockScript.Proofs.Number.Whole

namespace BlockScript

/-! # Numerals of natural numbers

A numeral without a point and a minus sign writes a natural number: digits, and maybe a power of ten
(`WritesNat`). As a size it stands for the nearest binary64 number, and it must not be zero
(`exists_writesNat_of_size?`).
-/

namespace Numeral

/-- Digits, maybe with a plus sign in front. -/
structure IsUnsigned (cs digits : List Char) : Prop where
  sign : cs = digits ∨ cs = '+' :: digits
  ne_nil : digits ≠ []
  allDigits : AllDigits digits

/-- The text writes the natural number: digits, maybe with a plus sign in front, and behind them
maybe an exponent, which is digits, maybe with a plus sign in front. -/
inductive WritesNat : List Char → Nat → Prop
  | plain {cs digits : List Char} (h : IsUnsigned cs digits) : WritesNat cs (digitsValue digits)
  | power {cs digits exponent zeros : List Char} {e : Char} (h : IsUnsigned cs digits)
      (he : e = 'e' ∨ e = 'E') (hexponent : IsUnsigned exponent zeros) :
      WritesNat (cs ++ e :: exponent) (digitsValue digits * 10 ^ digitsValue zeros)

variable {cs : List Char}

/-- Without a dash an exponent is a natural number. -/
theorem isUnsigned_of_exponent? (hdash : '-' ∉ cs) {exponent : Int}
    (h : exponent? cs = some exponent) :
    ∃ zeros, IsUnsigned cs zeros ∧ exponent = digitsValue zeros := by
  have hdigits : ∀ text, (digits? text).map Int.ofNat = some exponent →
      text ≠ [] ∧ AllDigits text ∧ exponent = digitsValue text := by
    intro text htext
    obtain ⟨k, hread, hk⟩ := Option.map_eq_some_iff.mp htext
    obtain ⟨hne, hall, hvalue⟩ := allDigits_of_digits? hread
    refine ⟨hne, hall, ?_⟩
    rw [hvalue, ← hk]
    rfl
  unfold exponent? at h
  split at h
  · exact absurd List.mem_cons_self hdash
  · next rest =>
    obtain ⟨hne, hall, hvalue⟩ := hdigits rest h
    exact ⟨rest, ⟨Or.inr rfl, hne, hall⟩, hvalue⟩
  · obtain ⟨hne, hall, hvalue⟩ := hdigits _ h
    exact ⟨_, ⟨Or.inl rfl, hne, hall⟩, hvalue⟩

/-- Without a point there is no fraction. -/
theorem fraction_of_not_mem (hpoint : '.' ∉ cs) : fraction cs = ([], cs) := by
  unfold fraction
  split
  · exact absurd List.mem_cons_self hpoint
  · rfl

/-- Without a point and a dash a decimal is digits, and maybe a power of ten. -/
theorem eq_of_decimal? (hpoint : '.' ∉ cs) (hdash : '-' ∉ cs) {d : Decimal}
    (h : decimal? cs = some d) :
    ∃ digits, digits ≠ [] ∧ AllDigits digits ∧
      (cs = digits ∧ d = ⟨digitsValue digits, (0 : Nat)⟩ ∨
        ∃ e exponent zeros, cs = digits ++ e :: exponent ∧ (e = 'e' ∨ e = 'E') ∧
          IsUnsigned exponent zeros ∧ d = ⟨digitsValue digits, digitsValue zeros⟩) := by
  have hcut : cs.takeWhile Char.isDigit ++ cs.dropWhile Char.isDigit = cs :=
    List.takeWhile_append_dropWhile
  have hrest : ∀ c ∈ cs.dropWhile Char.isDigit, c ∈ cs :=
    fun _ hc => (List.dropWhile_suffix _).mem hc
  have hfraction := fraction_of_not_mem fun hmem => hpoint (hrest _ hmem)
  rw [decimal?, List.span_eq_takeWhile_dropWhile] at h
  simp only [hfraction, List.isEmpty_nil, Bool.and_true, List.length_nil, List.append_nil] at h
  split_ifs at h with hnone
  refine ⟨cs.takeWhile Char.isDigit, fun hnil => hnone (List.isEmpty_iff.mpr hnil),
    List.all_eq_true.mp List.all_takeWhile, ?_⟩
  split at h
  · next heq =>
    rw [heq, List.append_nil] at hcut
    exact Or.inl ⟨hcut.symm, (Option.some.inj h).symm⟩
  · next e exponent heq =>
    split_ifs at h with he
    obtain ⟨k, hexponent, rfl⟩ := Option.map_eq_some_iff.mp h
    have hdashRest : '-' ∉ exponent := fun hmem =>
      hdash (hrest _ (heq ▸ List.mem_cons_of_mem _ hmem))
    obtain ⟨zeros, hzeros, rfl⟩ := isUnsigned_of_exponent? hdashRest hexponent
    rw [Bool.or_eq_true, beq_iff_eq, beq_iff_eq] at he
    refine Or.inr ⟨e, exponent, zeros, ?_, he, hzeros, ?_⟩
    · rw [← heq, hcut]
    · rw [Nat.cast_zero, Int.sub_zero]

end Numeral

namespace Binary64

/-- A decimal with a natural exponent is read as the number nearest to the natural number. -/
theorem ofDecimal_natCast (digits k : Nat) :
    ofDecimal false ⟨digits, (k : Int)⟩ = ofNat (digits * 10 ^ k) := by
  rw [ofDecimal_eq, Decimal.units_ofNat, ofNat]

theorem isFinite_of_isPositive {x : Binary64} (h : x.isPositive = true) : x.isFinite = true := by
  obtain ⟨magnitude, rfl, -⟩ := exists_eq_of_isPositive h
  rfl

/-- The nearest number to a natural number is a whole number, unless it is too large. -/
theorem isWhole_ofNat {n : Nat} (h : (ofNat n).isFinite = true) : (ofNat n).isWhole = true := by
  rw [ofNat, ofRatio, Magnitude.round?] at h ⊢
  split_ifs at h ⊢ with hlt
  · exact decide_eq_true (oneUnits_dvd_roundUnits n)
  · cases h

/-- A whole number above zero is one at least. -/
theorem one_le_whole {x : Binary64} (hpos : x.isPositive = true) (hwhole : x.isWhole = true) :
    1 ≤ x.whole := by
  have hunits := units_pos_of_isPositive hpos
  rw [(isNat_whole hpos hwhole).2] at hunits
  exact Nat.pos_of_mul_pos_right hunits

/-- The number is a natural number that is not zero. -/
def IsPositiveNat (x : Binary64) : Prop := x.isFinite = true ∧ ∃ n, 1 ≤ n ∧ x.IsNat n

theorem isPositiveNat_of_isWhole {x : Binary64} (hpos : x.isPositive = true)
    (hwhole : x.isWhole = true) : x.IsPositiveNat :=
  ⟨isFinite_of_isPositive hpos, x.whole, one_le_whole hpos hwhole, isNat_whole hpos hwhole⟩

end Binary64

namespace Numeral

variable {cs : List Char} {x : Binary64}

theorem isPositive_of_size? (h : size? cs = some x) : x.isPositive = true :=
  (Option.filter_eq_some_iff.mp h).2

/-- A size that is written without a point and a dash is the number nearest to a natural number
that is not zero. -/
theorem exists_writesNat_of_size? (hpoint : '.' ∉ cs) (hdash : '-' ∉ cs) (h : size? cs = some x) :
    ∃ n, WritesNat cs n ∧ 1 ≤ n ∧ x = .ofNat n := by
  have hpositive := isPositive_of_size? h
  have hfinite := Binary64.isFinite_of_isPositive hpositive
  have hread := (Option.filter_eq_some_iff.mp h).1
  -- the body of the numeral, behind its sign
  obtain ⟨body, hbody, hsign⟩ :
      ∃ body, (cs = body ∨ cs = '+' :: body) ∧ sign cs = (false, body) := by
    unfold sign
    split
    · exact absurd List.mem_cons_self hdash
    · exact ⟨_, Or.inr rfl, rfl⟩
    · exact ⟨_, Or.inl rfl, rfl⟩
  have hmem : ∀ c ∈ body, c ∈ cs := by
    rcases hbody with rfl | rfl
    · exact fun c hc => hc
    · exact fun c hc => List.mem_cons_of_mem _ hc
  simp only [binary64?, hsign] at hread
  split at hread
  · obtain rfl := Option.some.inj hread
    cases hfinite
  split at hread
  · obtain rfl := Option.some.inj hread
    cases hfinite
  obtain ⟨d, hd, rfl⟩ := Option.map_eq_some_iff.mp hread
  have hwrites : ∃ n, WritesNat cs n ∧ Binary64.ofDecimal false d = .ofNat n := by
    obtain ⟨digits, hne, hall, ⟨rfl, rfl⟩ | ⟨e, exponent, zeros, rfl, he, hexponent, rfl⟩⟩ :=
      eq_of_decimal? (fun hc => hpoint (hmem _ hc)) (fun hc => hdash (hmem _ hc)) hd
    · refine ⟨_, .plain ⟨hbody, hne, hall⟩, ?_⟩
      rw [Binary64.ofDecimal_natCast, Nat.pow_zero, Nat.mul_one]
    · rcases hbody with rfl | rfl
      · exact ⟨_, .power ⟨Or.inl rfl, hne, hall⟩ he hexponent, Binary64.ofDecimal_natCast ..⟩
      · exact ⟨_, .power ⟨Or.inr rfl, hne, hall⟩ he hexponent, Binary64.ofDecimal_natCast ..⟩
  obtain ⟨n, hn, hvalue⟩ := hwrites
  refine ⟨n, hn, Nat.pos_of_ne_zero ?_, hvalue⟩
  rintro rfl
  rw [hvalue] at hpositive
  exact absurd hpositive (by decide +kernel)

end Numeral

end BlockScript
