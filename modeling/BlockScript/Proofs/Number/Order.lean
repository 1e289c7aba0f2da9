import BlockScript.Number.Binary64
import Mathlib.Algebra.Order.Group.Nat
import Mathlib.Data.Nat.Log

namespace BlockScript

/-! # Order of numbers that are not negative

Rounding keeps the order of what it rounds (`roundUnits_mono`). So on numbers that are not negative
sums, products and pixel counts keep the order of their arguments, even where they are inexact. A
number is compared by its `units`, and every operation is the exact one on units, rounded once
(`units_add`, `units_scale`); infinity takes the place of `overflowUnits`.
-/

/-! ## Rounding -/

theorem roundDiv_mono {m n : Nat} (h : m ≤ n) (den : Nat) : roundDiv m den ≤ roundDiv n den := by
  have hquot : m / den ≤ n / den := Nat.div_le_div_right h
  rcases Nat.lt_or_eq_of_le hquot with hlt | heq
  · calc roundDiv m den ≤ m / den + 1 := roundDiv_le_succ m den
      _ ≤ n / den := hlt
      _ ≤ roundDiv n den := le_roundDiv n den
  · -- with one quotient, the remainders decide
    have hm := Nat.div_add_mod m den
    have hn := Nat.div_add_mod n den
    rw [heq] at hm
    have hrem : m % den ≤ n % den := by omega
    simp only [roundDiv, heq]
    repeat' split
    all_goals omega

theorem spacing_eq_one {n : Nat} (h : n < 2 ^ 53) : spacing n = 1 := by
  have hlog : n.log2 + 1 - 53 = 0 := by
    rcases Nat.eq_zero_or_pos n with rfl | hpos
    · rfl
    · have := (Nat.log2_lt (Nat.ne_of_gt hpos)).mpr h
      omega
  rw [spacing, hlog, Nat.pow_eq, Nat.pow_zero]

/-- Rounding does not pass a power of two. -/
theorem roundUnits_le_two_pow {n k : Nat} (h : n < 2 ^ k) : roundUnits n 1 ≤ 2 ^ k := by
  rcases Nat.lt_or_ge n (2 ^ 53) with hsmall | hlarge
  · rw [roundUnits_eq_self (by rw [spacing_eq_one hsmall]; exact Nat.one_dvd _)]
    exact Nat.le_of_lt h
  · have hne : n ≠ 0 := by
      have := Nat.two_pow_pos 53
      omega
    have hlog : n.log2 < k := (Nat.log2_lt hne).mpr h
    have hbits : 53 ≤ n.log2 := (Nat.le_log2 hne).mpr hlarge
    have hmul := Nat.mul_le_mul_right (spacing n) (roundDiv_spacing_le n 1)
    rw [Nat.div_one] at hmul
    calc roundUnits n 1 = roundDiv n (1 * spacing n) * spacing n := by rw [roundUnits, Nat.div_one]
      _ ≤ 2 ^ 53 * 2 ^ (n.log2 + 1 - 53) := hmul
      _ = 2 ^ (n.log2 + 1) := by rw [← Nat.pow_add]; congr 1; omega
      _ ≤ 2 ^ k := Nat.pow_le_pow_right (by decide) hlog

/-- Rounding does not go below the power of two that a number reaches. -/
theorem two_pow_log2_le_roundUnits {n : Nat} (h : n ≠ 0) : 2 ^ n.log2 ≤ roundUnits n 1 := by
  have hpow : 2 ^ n.log2 ≤ n := Nat.log2_self_le h
  -- the spacing divides that power of two
  obtain ⟨q, hq⟩ : spacing n ∣ 2 ^ n.log2 := Nat.pow_dvd_pow 2 (by omega)
  have hquot : q ≤ n / spacing n := by
    rw [Nat.le_div_iff_mul_le (spacing_pos n), Nat.mul_comm, ← hq]
    exact hpow
  calc 2 ^ n.log2 = q * spacing n := by rw [hq, Nat.mul_comm]
    _ ≤ roundDiv n (1 * spacing n) * spacing n := by
      apply Nat.mul_le_mul_right
      rw [Nat.one_mul]
      exact hquot.trans (le_roundDiv ..)
    _ = roundUnits n 1 := by rw [roundUnits, Nat.div_one]

/-- Rounding keeps the order. -/
theorem roundUnits_mono {m n : Nat} (h : m ≤ n) : roundUnits m 1 ≤ roundUnits n 1 := by
  rcases Nat.eq_zero_or_pos m with rfl | hpos
  · exact Nat.zero_le _
  have hm : m ≠ 0 := Nat.ne_of_gt hpos
  have hn : n ≠ 0 := by omega
  have hlog : m.log2 ≤ n.log2 := (Nat.le_log2 hn).mpr ((Nat.log2_self_le hm).trans h)
  rcases Nat.lt_or_eq_of_le hlog with hlt | heq
  · -- a power of two lies between them
    calc roundUnits m 1 ≤ 2 ^ n.log2 :=
          roundUnits_le_two_pow ((Nat.log2_lt hm).mp hlt)
      _ ≤ roundUnits n 1 := two_pow_log2_le_roundUnits hn
  · have hspacing : spacing m = spacing n := by rw [spacing, heq, spacing]
    simp only [roundUnits, Nat.div_one, hspacing]
    exact Nat.mul_le_mul_right _ (roundDiv_mono h _)

theorem roundUnits_two_pow (k : Nat) : roundUnits (2 ^ k) 1 = 2 ^ k := by
  apply roundUnits_eq_self
  rw [spacing, Nat.log2_two_pow]
  exact Nat.pow_dvd_pow 2 (by omega)

theorem roundUnits_overflowUnits : roundUnits overflowUnits 1 = overflowUnits := by
  unfold overflowUnits
  generalize overflowExponent = k
  exact roundUnits_two_pow k

/-- What a count of units is rounded to; everything too large becomes `overflowUnits`. -/
def roundedUnits (n : Nat) : Nat := min (roundUnits n 1) overflowUnits

theorem roundedUnits_mono {m n : Nat} (h : m ≤ n) : roundedUnits m ≤ roundedUnits n := by
  have := roundUnits_mono h
  rw [roundedUnits, roundedUnits]
  omega

theorem roundedUnits_of_representable {n : Nat} (h : Representable n) : roundedUnits n = n := by
  rw [roundedUnits, roundUnits_eq_self h.1]
  exact Nat.min_eq_left (Nat.le_of_lt h.2)

theorem roundedUnits_of_overflow {n : Nat} (h : overflowUnits ≤ n) :
    roundedUnits n = overflowUnits := by
  have hmono := roundUnits_mono h
  rw [roundUnits_overflowUnits] at hmono
  exact Nat.min_eq_right hmono

namespace Binary64

/-! ## Numbers that are not negative -/

/-- Neither NaN nor below zero. -/
def IsNonneg (x : Binary64) : Prop := x.isNaN = false ∧ 0 ≤ x.rank

/-- The place of a number that is not negative, as a count of units. -/
def units (x : Binary64) : Nat := x.rank.toNat

variable {x y : Binary64}

theorem IsNonneg.rank_eq (h : IsNonneg x) : x.rank = x.units := by
  have := h.2
  rw [units]
  omega

theorem isNonneg_zero : IsNonneg 0 := by
  constructor <;> decide +kernel

theorem units_zero : units 0 = 0 := by decide +kernel

theorem units_eq_of_same (h : x.same y = true) : x.units = y.units := by
  rw [same, Bool.and_eq_true] at h
  exact congrArg Int.toNat (of_decide_eq_true h.2)

theorem isNonneg_negativeZero : IsNonneg negativeZero := ⟨rfl, by decide⟩

theorem units_negativeZero : units negativeZero = 0 := by decide

/-- A size that a script may ask for is a count of units, and not none. -/
theorem exists_eq_of_isPositive (h : x.isPositive = true) :
    ∃ magnitude, x = finite false magnitude ∧ 0 < magnitude.units := by
  cases x with
  | nan => cases h
  | infinite negative => cases h
  | finite negative magnitude =>
    cases negative with
    | true => cases h
    | false => exact ⟨magnitude, rfl, of_decide_eq_true h⟩

theorem isNonneg_of_isPositive (h : x.isPositive = true) : IsNonneg x := by
  obtain ⟨magnitude, rfl, -⟩ := exists_eq_of_isPositive h
  exact ⟨rfl, Int.natCast_nonneg _⟩

theorem units_pos_of_isPositive (h : x.isPositive = true) : 0 < x.units := by
  obtain ⟨magnitude, rfl, hpos⟩ := exists_eq_of_isPositive h
  simpa [units, rank] using hpos

/-- Such sizes are equal as numbers only if they are the same. -/
theorem same_iff_of_isPositive (hx : x.isPositive = true) (hy : y.isPositive = true) :
    x.same y = true ↔ x = y := by
  obtain ⟨m, rfl, -⟩ := exists_eq_of_isPositive hx
  obtain ⟨m', rfl, -⟩ := exists_eq_of_isPositive hy
  constructor
  · intro h
    have hunits := units_eq_of_same h
    simp only [units, rank, Bool.false_eq_true, if_false, Int.toNat_natCast] at hunits
    rw [Magnitude.ext hunits]
  · intro h
    rw [h]
    simp [same, isNaN]

/-- The shapes of a number that is not negative: a count of units, maybe the negative zero, or
infinity. -/
theorem IsNonneg.cases (h : IsNonneg x) :
    (∃ negative magnitude, x = finite negative magnitude ∧ x.units = magnitude.units) ∨
      x = infinite false ∧ x.units = overflowUnits := by
  obtain ⟨hnan, hrank⟩ := h
  cases x with
  | nan => cases hnan
  | infinite negative =>
    cases negative with
    | false => exact Or.inr ⟨rfl, by simp [units, rank]⟩
    | true =>
      have := overflowUnits_pos
      simp only [rank, if_true] at hrank
      omega
  | finite negative magnitude =>
    refine Or.inl ⟨negative, magnitude, rfl, ?_⟩
    cases negative with
    | false => simp [units, rank]
    | true =>
      simp only [rank, if_true] at hrank
      simp only [units, rank, if_true]
      omega

/-- A number with a minus sign that is not below zero is zero. -/
theorem IsNonneg.units_eq_zero {magnitude : Magnitude} (h : IsNonneg (finite true magnitude)) :
    magnitude.units = 0 := by
  have hrank := h.2
  simp only [rank, if_true] at hrank
  omega

/-- A number is rounded already. -/
theorem IsNonneg.roundedUnits_units (h : IsNonneg x) : roundedUnits x.units = x.units := by
  rcases h.cases with ⟨negative, magnitude, -, hunits⟩ | ⟨-, hunits⟩
  · rw [hunits, roundedUnits_of_representable magnitude.representable]
  · rw [hunits, roundedUnits_of_overflow (Nat.le_refl _)]

/-- Less or equal, as numbers compare; NaN is neither. -/
def AtMost (x y : Binary64) : Prop := x.lt y = true ∨ x.same y = true

/-- Numbers are compared by their units. -/
theorem IsNonneg.atMost (hx : IsNonneg x) (hy : IsNonneg y) (h : x.units ≤ y.units) :
    x.AtMost y := by
  unfold AtMost lt same
  rw [hx.1, hy.1, hx.rank_eq, hy.rank_eq]
  simp only [Bool.not_false, Bool.true_and, decide_eq_true_eq]
  omega

/-! ## Operations -/

theorem rank_ofRatio (n : Nat) : (ofRatio false n 1).rank = roundedUnits n := by
  rw [ofRatio, Magnitude.round?, roundedUnits]
  by_cases h : roundUnits n 1 < overflowUnits
  · simp only [h, dite_true, rank, Bool.false_eq_true, if_false]
    omega
  · simp only [h, dite_false, rank, Bool.false_eq_true, if_false]
    omega

theorem isNonneg_ofRatio (n : Nat) : IsNonneg (ofRatio false n 1) := by
  constructor
  · rw [ofRatio]
    cases Magnitude.round? n 1 <;> rfl
  · rw [rank_ofRatio]
    exact Int.natCast_nonneg _

theorem units_ofRatio (n : Nat) : (ofRatio false n 1).units = roundedUnits n := by
  rw [units, rank_ofRatio, Int.toNat_natCast]

theorem isNonneg_ofNat (n : Nat) : IsNonneg (ofNat n) := isNonneg_ofRatio _

theorem roundedUnits_zero : roundedUnits 0 = 0 := Nat.le_zero.mp (Nat.min_le_left ..)

/-- A sum is the exact sum of units, rounded. -/
theorem add_of_isNonneg (hx : IsNonneg x) (hy : IsNonneg y) :
    IsNonneg (x + y) ∧ (x + y).units = roundedUnits (x.units + y.units) := by
  have hinf : ∀ n, overflowUnits ≤ n → IsNonneg (infinite false) ∧
      (infinite false).units = roundedUnits n := by
    intro n hn
    rw [roundedUnits_of_overflow hn]
    exact ⟨⟨rfl, by simp [rank]⟩, by simp [units, rank]⟩
  rcases hx.cases with ⟨a, m, rfl, hxu⟩ | ⟨rfl, hxu⟩
  · rcases hy.cases with ⟨b, n, rfl, hyu⟩ | ⟨rfl, hyu⟩
    · show IsNonneg (add _ _) ∧ (add _ _).units = _
      simp only [add, hx.rank_eq, hy.rank_eq]
      split
      · next hsum =>
        -- both are zero, and so is the sum
        have hzero : (finite a m).units + (finite b n).units = 0 := by omega
        rw [hzero, roundedUnits_zero]
        cases a && b <;> exact ⟨⟨rfl, by decide⟩, by decide⟩
      · have hsign : decide (((finite a m).units : Int) + (finite b n).units < 0) = false := by
          rw [decide_eq_false_iff_not]
          omega
        have habs : (((finite a m).units : Int) + (finite b n).units).natAbs =
            (finite a m).units + (finite b n).units := by omega
        rw [hsign, habs]
        exact ⟨isNonneg_ofRatio _, units_ofRatio _⟩
    · exact hinf _ (by omega)
  · rcases hy.cases with ⟨b, n, rfl, hyu⟩ | ⟨rfl, hyu⟩
    · exact hinf _ (by omega)
    · exact hinf _ (by omega)

theorem IsNonneg.add (hx : IsNonneg x) (hy : IsNonneg y) : IsNonneg (x + y) :=
  (add_of_isNonneg hx hy).1

theorem units_add (hx : IsNonneg x) (hy : IsNonneg y) :
    (x + y).units = roundedUnits (x.units + y.units) := (add_of_isNonneg hx hy).2

/-- A sum is not below its parts, although it is rounded. -/
theorem units_le_units_add (hx : IsNonneg x) (hy : IsNonneg y) :
    x.units ≤ (x + y).units ∧ y.units ≤ (x + y).units := by
  rw [units_add hx hy]
  constructor
  · calc x.units = roundedUnits x.units := hx.roundedUnits_units.symm
      _ ≤ roundedUnits (x.units + y.units) := roundedUnits_mono (Nat.le_add_right ..)
  · calc y.units = roundedUnits y.units := hy.roundedUnits_units.symm
      _ ≤ roundedUnits (x.units + y.units) := roundedUnits_mono (Nat.le_add_left ..)

/-- A product is the exact product of units, rounded. -/
theorem scale_of_isNonneg (hx : IsNonneg x) {n : Nat} (hn : 0 < n) :
    IsNonneg (x.scale n) ∧ (x.scale n).units = roundedUnits (x.units * n) := by
  rcases hx.cases with ⟨a, m, rfl, hxu⟩ | ⟨rfl, hxu⟩
  · rw [hxu]
    cases a with
    | false => exact ⟨isNonneg_ofRatio _, units_ofRatio _⟩
    | true =>
      have hmul : m.units * n = 0 := by rw [hx.units_eq_zero, Nat.zero_mul]
      rw [scale, hmul, roundedUnits_zero]
      exact ⟨⟨by decide +kernel, by decide +kernel⟩, by decide +kernel⟩
  · have hscale : (infinite false).scale n = infinite false := if_neg (Nat.ne_of_gt hn)
    have hlarge : overflowUnits ≤ (infinite false).units * n := by
      rw [hxu]
      exact Nat.le_mul_of_pos_right _ hn
    rw [hscale, roundedUnits_of_overflow hlarge]
    exact ⟨hx, hxu⟩

theorem IsNonneg.scale (hx : IsNonneg x) {n : Nat} (hn : 0 < n) : IsNonneg (x.scale n) :=
  (scale_of_isNonneg hx hn).1

theorem units_scale (hx : IsNonneg x) {n : Nat} (hn : 0 < n) :
    (x.scale n).units = roundedUnits (x.units * n) := (scale_of_isNonneg hx hn).2

theorem max_eq_of_isNonneg (hx : IsNonneg x) (hy : IsNonneg y) :
    Max.max x y = if x.units < y.units then y else x := by
  have hmax : Max.max x y = if x.lt y then y else x := by
    show Binary64.max x y = _
    cases x with
    | nan => cases hx.1
    | _ =>
      cases y with
      | nan => cases hy.1
      | _ => rfl
  have hlt : x.lt y = decide (x.units < y.units) := by
    simp [lt, hx.1, hy.1, hx.rank_eq, hy.rank_eq]
  rw [hmax, hlt]
  simp only [decide_eq_true_eq]

/-- The larger of two numbers is the one with more units. -/
theorem max_of_isNonneg (hx : IsNonneg x) (hy : IsNonneg y) :
    IsNonneg (Max.max x y) ∧ (Max.max x y).units = Max.max x.units y.units := by
  rw [max_eq_of_isNonneg hx hy]
  by_cases h : x.units < y.units
  · rw [if_pos h]
    exact ⟨hy, by omega⟩
  · rw [if_neg h]
    exact ⟨hx, by omega⟩

theorem IsNonneg.max (hx : IsNonneg x) (hy : IsNonneg y) : IsNonneg (Max.max x y) :=
  (max_of_isNonneg hx hy).1

theorem units_max (hx : IsNonneg x) (hy : IsNonneg y) :
    (Max.max x y).units = Max.max x.units y.units := (max_of_isNonneg hx hy).2

/-- Zero is larger than none of these numbers, and the first of two equals wins. -/
theorem IsNonneg.max_zero (hx : IsNonneg x) : Max.max x 0 = x := by
  rw [max_eq_of_isNonneg hx isNonneg_zero, units_zero]
  exact if_neg (Nat.not_lt_zero _)

/-- The largest of many numbers is the one with the most units. -/
theorem foldl_max_of_isNonneg {sizes : List Binary64} (hsizes : ∀ size ∈ sizes, IsNonneg size)
    (hx : IsNonneg x) :
    IsNonneg (sizes.foldl Max.max x) ∧
      (sizes.foldl Max.max x).units = (sizes.map units).foldl Max.max x.units := by
  induction sizes generalizing x with
  | nil => exact ⟨hx, rfl⟩
  | cons size sizes ih =>
    have hsize : IsNonneg size := hsizes size List.mem_cons_self
    have hrest := ih (fun s hs => hsizes s (List.mem_cons_of_mem _ hs)) (hx.max hsize)
    rw [units_max hx hsize] at hrest
    exact hrest

theorem units_le_foldl_max {sizes : List Binary64} (hsizes : ∀ size ∈ sizes, IsNonneg size)
    (hx : IsNonneg x) {size : Binary64} (hsize : size ∈ x :: sizes) :
    size.units ≤ (sizes.foldl Max.max x).units := by
  rw [(foldl_max_of_isNonneg hsizes hx).2]
  have hmax : (x.units :: sizes.map units).max? =
      some ((sizes.map units).foldl Max.max x.units) := List.max?_cons'
  exact (List.max?_eq_some_iff.mp hmax).2 _ (List.mem_map_of_mem (f := units) hsize)

/-! ## Pixel counts -/

theorem roundNat_le_countLimit (x : Binary64) : x.roundNat ≤ countLimit := by
  cases x with
  | nan => exact Nat.zero_le _
  | infinite negative => cases negative <;> simp [roundNat]
  | finite negative magnitude =>
    cases negative with
    | false => exact Nat.min_le_right ..
    | true => exact Nat.zero_le _

/-- The pixel nearest to a finite number. -/
theorem roundNat_of_units_lt (hx : IsNonneg x) (h : x.units < overflowUnits) :
    x.roundNat = min ((x.units + oneUnits / 2) / oneUnits) countLimit := by
  rcases hx.cases with ⟨negative, magnitude, rfl, hunits⟩ | ⟨rfl, hunits⟩
  · rw [hunits]
    cases negative with
    | false => rfl
    | true =>
      rw [hx.units_eq_zero]
      show 0 = _
      decide +kernel
  · omega

/-- Rounding to pixels keeps the order. -/
theorem roundNat_mono (hx : IsNonneg x) (hy : IsNonneg y) (h : x.units ≤ y.units) :
    x.roundNat ≤ y.roundNat := by
  rcases Nat.lt_or_ge y.units overflowUnits with hlt | hge
  · rw [roundNat_of_units_lt hx (Nat.lt_of_le_of_lt h hlt), roundNat_of_units_lt hy hlt]
    have hdiv : (x.units + oneUnits / 2) / oneUnits ≤ (y.units + oneUnits / 2) / oneUnits :=
      Nat.div_le_div_right (Nat.add_le_add_right h _)
    generalize oneUnits = one at hdiv ⊢
    omega
  · -- everything is at most the count that infinity is rounded to
    rcases hy.cases with ⟨negative, magnitude, rfl, hunits⟩ | ⟨rfl, -⟩
    · have := magnitude.representable.2
      omega
    · exact roundNat_le_countLimit x

/-- Rounding to the nearest pixel never exceeds rounding up. -/
theorem roundNat_le_ceilNat? (hx : IsNonneg x) {n : Nat} (h : x.ceilNat? = some n) :
    x.roundNat ≤ n := by
  cases x with
  | nan => cases h
  | infinite negative => cases h
  | finite negative magnitude =>
    cases negative with
    | true => exact Nat.zero_le _
    | false =>
      obtain rfl := Option.some.inj h
      have hhalf : oneUnits / 2 ≤ oneUnits - 1 := by decide +kernel
      calc roundNat (finite false magnitude) ≤ (magnitude.units + oneUnits / 2) / oneUnits :=
            Nat.min_le_left ..
        _ ≤ (magnitude.units + (oneUnits - 1)) / oneUnits :=
            Nat.div_le_div_right (Nat.add_le_add_left hhalf _)

/-- A finite number is rounded up on its units. -/
theorem ceilNat?_of_units_lt (hx : IsNonneg x) (h : x.units < overflowUnits) :
    x.ceilNat? = some ((x.units + (oneUnits - 1)) / oneUnits) := by
  rcases hx.cases with ⟨negative, magnitude, rfl, hunits⟩ | ⟨rfl, hunits⟩
  · rw [hunits]
    cases negative with
    | false => rfl
    | true =>
      rw [hx.units_eq_zero]
      show some 0 = _
      decide +kernel
  · omega

/-- Rounding up keeps the order, so what lies below a finite number is finite too. -/
theorem ceilNat?_mono (hx : IsNonneg x) (hy : IsNonneg y) (h : x.units ≤ y.units) {n : Nat}
    (hceil : y.ceilNat? = some n) : ∃ m ≤ n, x.ceilNat? = some m := by
  have hlt : y.units < overflowUnits := by
    rcases hy.cases with ⟨negative, magnitude, rfl, hunits⟩ | ⟨rfl, -⟩
    · rw [hunits]
      exact magnitude.representable.2
    · cases hceil
  rw [ceilNat?_of_units_lt hy hlt] at hceil
  obtain rfl := Option.some.inj hceil
  refine ⟨_, ?_, ceilNat?_of_units_lt hx (Nat.lt_of_le_of_lt h hlt)⟩
  exact Nat.div_le_div_right (Nat.add_le_add_right h _)

/-- The pixel at which a place falls, at `unit` pixels for one. -/
def edge (x : Binary64) (unit : Nat) : Nat := (x.scale unit).roundNat

theorem edge_mono {unit : Nat} (hunit : 0 < unit) (hx : IsNonneg x) (hy : IsNonneg y)
    (h : x.units ≤ y.units) : x.edge unit ≤ y.edge unit := by
  apply roundNat_mono (hx.scale hunit) (hy.scale hunit)
  rw [units_scale hx hunit, units_scale hy hunit]
  exact roundedUnits_mono (Nat.mul_le_mul_right unit h)

end Binary64

end BlockScript
