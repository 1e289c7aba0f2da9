namespace BlockScript

/-! # Rounding to 53 significant bits

Magnitudes are counted in units of 2^-1074, the least positive binary64 number. A count is
representable when its lowest bits vanish below the leading 53, and below `overflowUnits`. The main
statements: `roundUnits` always lands on a representable count or overflows
(`spacing_dvd_roundUnits`), and it leaves representable counts alone (`roundUnits_eq_self`).
-/

/-- The natural number nearest to `num / den`; halfway between two, the even one. -/
def roundDiv (num den : Nat) : Nat :=
  let quotient := num / den
  let twice := 2 * (num % den)
  if twice < den then quotient
  else if den < twice then quotient + 1
  else quotient + quotient % 2

/-- Distance between neighbouring numbers of 53 significant bits, at the size of `units`. -/
def spacing (units : Nat) : Nat := Nat.pow 2 (units.log2 + 1 - 53)

/-- How many bits the units of 2^-1074 that make 2^1024 have, less one. -/
def overflowExponent : Nat := 2098

/-- The first count too large for binary64. -/
@[irreducible] def overflowUnits : Nat := Nat.pow 2 overflowExponent

theorem overflowUnits_pos : 0 < overflowUnits := by
  unfold overflowUnits
  generalize overflowExponent = k
  exact Nat.two_pow_pos k

/-- `num / den` units, rounded to 53 significant bits with ties to even. -/
def roundUnits (num den : Nat) : Nat :=
  let gap := spacing (num / den)
  roundDiv num (den * gap) * gap

/-- A count of units that binary64 holds exactly. -/
def Representable (units : Nat) : Prop :=
  spacing units ∣ units ∧ units < overflowUnits

theorem spacing_pos (n : Nat) : 0 < spacing n := Nat.two_pow_pos _

theorem roundDiv_le_succ (num den : Nat) : roundDiv num den ≤ num / den + 1 := by
  simp only [roundDiv]
  split
  · omega
  · split
    · omega
    · have := Nat.mod_lt (num / den) (show 0 < 2 by decide)
      omega

theorem le_roundDiv (num den : Nat) : num / den ≤ roundDiv num den := by
  simp only [roundDiv]
  split
  · omega
  · split <;> omega

/-- An exact quotient is not changed by rounding. -/
theorem roundDiv_mul_right (n : Nat) {den : Nat} (hden : 0 < den) :
    roundDiv (n * den) den = n := by
  simp [roundDiv, Nat.mul_div_cancel n hden, hden]

/-- The rounded quotient at the spacing of the whole part has at most 53 bits, or is 2^53. -/
theorem roundDiv_spacing_le (num den : Nat) :
    roundDiv num (den * spacing (num / den)) ≤ Nat.pow 2 53 := by
  rw [Nat.pow_eq]
  have hle := roundDiv_le_succ num (den * spacing (num / den))
  rw [← Nat.div_div_eq_div_mul] at hle
  have hlt : num / den / spacing (num / den) < 2 ^ 53 := by
    apply (Nat.div_lt_iff_lt_mul (spacing_pos _)).2
    have h := Nat.lt_log2_self (n := num / den)
    rw [spacing, Nat.pow_eq, ← Nat.pow_add]
    exact Nat.lt_of_lt_of_le h (Nat.pow_le_pow_right (by decide) (by omega))
  omega

theorem spacing_dvd_mul {q gapBits : Nat} (hq : q ≤ Nat.pow 2 53) :
    spacing (q * Nat.pow 2 gapBits) ∣ q * Nat.pow 2 gapBits := by
  rw [Nat.pow_eq] at hq ⊢
  rcases Nat.eq_zero_or_pos q with rfl | hpos
  · simp
  · rcases Nat.lt_or_eq_of_le hq with hlt | rfl
    · have hbits : (q * 2 ^ gapBits).log2 < 53 + gapBits := by
        apply (Nat.log2_lt (Nat.ne_of_gt (Nat.mul_pos hpos (Nat.two_pow_pos _)))).2
        rw [Nat.pow_add]
        exact Nat.mul_lt_mul_of_pos_right hlt (Nat.two_pow_pos _)
      exact Nat.dvd_trans (Nat.pow_dvd_pow 2 (by omega)) (Nat.dvd_mul_left _ _)
    · rw [← Nat.pow_add, spacing, Nat.log2_two_pow, Nat.pow_eq]
      exact Nat.pow_dvd_pow 2 (by omega)

/-- Rounding lands on a count whose bits below the leading 53 vanish. -/
theorem spacing_dvd_roundUnits (num den : Nat) :
    spacing (roundUnits num den) ∣ roundUnits num den :=
  spacing_dvd_mul (roundDiv_spacing_le num den)

/-- Rounding leaves a representable count alone. -/
theorem roundUnits_eq_self {n : Nat} (h : spacing n ∣ n) : roundUnits n 1 = n := by
  obtain ⟨q, hq⟩ := h
  have hmul : n = q * (1 * spacing n) := by rw [Nat.one_mul, Nat.mul_comm]; exact hq
  have hround : roundDiv n (1 * spacing n) = q := by
    conv => lhs; arg 1; rw [hmul]
    exact roundDiv_mul_right q (by simpa using spacing_pos n)
  simp only [roundUnits, Nat.div_one, hround]
  rw [Nat.mul_comm]
  exact hq.symm

end BlockScript
