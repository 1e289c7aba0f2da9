import BlockScript.Number.Shortest
import BlockScript.Proofs.Number.Order
import Mathlib.Tactic.Ring

namespace BlockScript

/-! # What decimals are read as

Reading a decimal rounds an exact quotient of units, and nothing else: the answers that are given
from the size of a decimal alone are the rounded ones (`Decimal.magnitude?_eq`). So decimals of equal
worth are read as the same number (`Decimal.SameValue.magnitude?_eq`), and the decimal with the
fewest digits, which is found by a search, is always read as the number it was made for
(`Magnitude.readsBack_shortest`).
-/

/-! ## Rounding equal quotients -/

theorem roundDiv_mul_mul (num den : Nat) {k : Nat} (hk : 0 < k) :
    roundDiv (num * k) (den * k) = roundDiv num den := by
  have hless : 2 * (num % den * k) < den * k ↔ 2 * (num % den) < den := by
    rw [← Nat.mul_assoc, Nat.mul_lt_mul_right hk]
  have hmore : den * k < 2 * (num % den * k) ↔ den < 2 * (num % den) := by
    rw [← Nat.mul_assoc, Nat.mul_lt_mul_right hk]
  simp only [roundDiv, Nat.mul_div_mul_right num den hk, Nat.mul_mod_mul_right, hless, hmore]

theorem roundUnits_mul_mul (num den : Nat) {k : Nat} (hk : 0 < k) :
    roundUnits (num * k) (den * k) = roundUnits num den := by
  have hgap : den * k * spacing (num / den) = den * spacing (num / den) * k := Nat.mul_right_comm ..
  simp only [roundUnits, Nat.mul_div_mul_right num den hk]
  rw [hgap, roundDiv_mul_mul num _ hk]

/-- Only the quotient counts, not how it is written. -/
theorem roundUnits_congr {num den num' den' : Nat} (hden : 0 < den) (hden' : 0 < den')
    (h : num * den' = num' * den) : roundUnits num den = roundUnits num' den' := by
  rw [← roundUnits_mul_mul num den hden', ← roundUnits_mul_mul num' den' hden, h,
    Nat.mul_comm den den']

/-- Less than half a unit is rounded to nothing. -/
theorem roundUnits_eq_zero {num den : Nat} (h : 2 * num < den) : roundUnits num den = 0 := by
  have hquot : num / den = 0 := Nat.div_eq_of_lt (by omega)
  have hrem : num % den = num := Nat.mod_eq_of_lt (by omega)
  have hspacing : spacing 0 = 1 := spacing_eq_one (Nat.two_pow_pos 53)
  simp only [roundUnits, hquot, hspacing, Nat.mul_one, roundDiv, hrem, if_pos h]

namespace Magnitude

theorem round?_congr {num den num' den' : Nat} (hden : 0 < den) (hden' : 0 < den')
    (h : num * den' = num' * den) : round? num den = round? num' den' := by
  simp only [round?, roundUnits_congr hden hden' h]

theorem round?_eq_none {n : Nat} (h : overflowUnits ≤ n) : round? n 1 = none := by
  have hmono := roundUnits_mono h
  rw [roundUnits_overflowUnits] at hmono
  exact dif_neg (Nat.not_lt.mpr hmono)

theorem round?_eq_zero {num den : Nat} (h : roundUnits num den = 0) :
    round? num den = some zero := by
  have hlt : roundUnits num den < overflowUnits := h ▸ overflowUnits_pos
  simp only [round?, dif_pos hlt, Option.some.injEq]
  exact Magnitude.ext h

/-- A magnitude is rounded to itself. -/
theorem round?_units (m : Magnitude) : round? m.units 1 = some m := by
  have hself := roundUnits_eq_self m.representable.1
  have hlt : roundUnits m.units 1 < overflowUnits := hself.symm ▸ m.representable.2
  simp only [round?, dif_pos hlt, Option.some.injEq]
  exact Magnitude.ext hself

end Magnitude

/-! ## Decimals of equal worth -/

/-- One and the first number that is too large are powers of two. -/
theorem exists_unit_exponent :
    ∃ k, k = 1074 ∧ Binary64.oneUnits = Nat.pow 2 k ∧ overflowExponent = 1024 + k := by
  unfold Binary64.oneUnits
  exact ⟨1074, rfl, rfl, rfl⟩

theorem two_pow_le_ten_pow (k : Nat) : 2 ^ (3 * k) ≤ 10 ^ k := by
  rw [Nat.pow_mul]
  exact Nat.pow_le_pow_left (by decide) k

namespace Decimal

variable {d e : Decimal}

theorem units_ofNat (digits k : Nat) :
    units ⟨digits, (k : Int)⟩ = (digits * 10 ^ k * Binary64.oneUnits, 1) := rfl

theorem units_negSucc (digits k : Nat) :
    units ⟨digits, .negSucc k⟩ = (digits * Binary64.oneUnits, 10 ^ (k + 1)) := rfl

theorem units_pos (d : Decimal) : 0 < d.units.2 := by
  obtain ⟨digits, exponent⟩ := d
  cases exponent with
  | ofNat k => exact Nat.one_pos
  | negSucc k => exact Nat.pow_pos (by decide)

theorem overflow_le_of_isHuge (h : d.isHuge = true) :
    d.units.2 = 1 ∧ overflowUnits ≤ d.units.1 := by
  obtain ⟨digits, exponent⟩ := d
  cases exponent with
  | negSucc k => cases h
  | ofNat k =>
    simp only [isHuge, Bool.and_eq_true, bne_iff_ne, ne_eq, decide_eq_true_eq] at h
    obtain ⟨hne, hlog⟩ := h
    obtain ⟨bits, -, hone, hover⟩ := exists_unit_exponent
    refine ⟨rfl, ?_⟩
    show _ ≤ digits * 10 ^ k * Binary64.oneUnits
    unfold overflowUnits
    rw [hone, hover, Nat.pow_eq, Nat.pow_eq]
    calc 2 ^ (1024 + bits) ≤ 2 ^ (digits.log2 + 3 * k + bits) :=
          Nat.pow_le_pow_right (by decide) (by omega)
      _ = 2 ^ digits.log2 * 2 ^ (3 * k) * 2 ^ bits := by rw [Nat.pow_add, Nat.pow_add]
      _ ≤ digits * 10 ^ k * 2 ^ bits :=
          Nat.mul_le_mul_right _ (Nat.mul_le_mul (Nat.log2_self_le hne) (two_pow_le_ten_pow k))

theorem lt_half_of_isTiny (h : d.isTiny = true) : 2 * d.units.1 < d.units.2 := by
  obtain ⟨digits, exponent⟩ := d
  cases exponent with
  | ofNat k =>
    obtain rfl : digits = 0 := by simpa [isTiny] using h
    simp [units]
  | negSucc k =>
    have hlog : digits.log2 + 1 + 1076 ≤ 3 * (k + 1) := by simpa [isTiny] using h
    have hdigits : digits < 2 ^ (digits.log2 + 1) := Nat.lt_log2_self
    obtain ⟨bits, hbits, hone, -⟩ := exists_unit_exponent
    show 2 * (digits * Binary64.oneUnits) < 10 ^ (k + 1)
    rw [hone, Nat.pow_eq]
    calc 2 * (digits * 2 ^ bits) = digits * 2 ^ (bits + 1) := by ring
      _ < 2 ^ (digits.log2 + 1) * 2 ^ (bits + 1) :=
          Nat.mul_lt_mul_of_pos_right hdigits (Nat.two_pow_pos _)
      _ = 2 ^ (digits.log2 + 1 + (bits + 1)) := (Nat.pow_add ..).symm
      _ ≤ 2 ^ (3 * (k + 1)) := Nat.pow_le_pow_right (by decide) (by omega)
      _ ≤ 10 ^ (k + 1) := two_pow_le_ten_pow _

/-- Answering from the size of a decimal alone gives what rounding it would give. -/
theorem magnitude?_eq (d : Decimal) : d.magnitude? = Magnitude.round? d.units.1 d.units.2 := by
  rw [magnitude?]
  split_ifs with hhuge htiny
  · obtain ⟨hone, hover⟩ := overflow_le_of_isHuge hhuge
    rw [hone, Magnitude.round?_eq_none hover]
  · rw [Magnitude.round?_eq_zero (roundUnits_eq_zero (lt_half_of_isTiny htiny))]
  · rfl

/-- Two decimals are worth the same: their quotients of units are equal. -/
def SameValue (d e : Decimal) : Prop := d.units.1 * e.units.2 = e.units.1 * d.units.2

theorem SameValue.refl (d : Decimal) : d.SameValue d := rfl

theorem SameValue.symm (h : d.SameValue e) : e.SameValue d := Eq.symm h

theorem SameValue.trans {f : Decimal} (h : d.SameValue e) (h' : e.SameValue f) : d.SameValue f := by
  have hpos := e.units_pos
  rw [SameValue] at h h' ⊢
  refine Nat.eq_of_mul_eq_mul_right hpos ?_
  calc d.units.1 * f.units.2 * e.units.2 = d.units.1 * e.units.2 * f.units.2 := by ring
    _ = e.units.1 * f.units.2 * d.units.2 := by rw [h]; ring
    _ = f.units.1 * d.units.2 * e.units.2 := by rw [h']; ring

theorem SameValue.magnitude?_eq (h : d.SameValue e) : d.magnitude? = e.magnitude? := by
  rw [Decimal.magnitude?_eq, Decimal.magnitude?_eq,
    Magnitude.round?_congr d.units_pos e.units_pos h]

/-- A zero at the end of the digits is as good as an exponent that is one higher. -/
theorem sameValue_succ (digits : Nat) (exponent : Int) :
    SameValue ⟨digits, exponent + 1⟩ ⟨digits * 10, exponent⟩ := by
  rcases exponent with k | _ | k
  · have hexponent : Int.ofNat k + 1 = (k + 1 : Nat) := rfl
    rw [SameValue, hexponent, Int.ofNat_eq_natCast, units_ofNat, units_ofNat]
    generalize Binary64.oneUnits = one
    ring
  · have hexponent : Int.negSucc 0 + 1 = (0 : Nat) := rfl
    rw [SameValue, hexponent, units_ofNat, units_negSucc]
    generalize Binary64.oneUnits = one
    ring
  · have hexponent : Int.negSucc (k + 1) + 1 = .negSucc k := rfl
    rw [SameValue, hexponent, units_negSucc, units_negSucc]
    generalize Binary64.oneUnits = one
    ring

/-- So are more zeros, for an exponent that is as many higher. -/
theorem sameValue_natCast (digits k : Nat) :
    SameValue ⟨digits, (k : Int)⟩ ⟨digits * 10 ^ k, 0⟩ := by
  have hzero : (0 : Int) = (0 : Nat) := rfl
  rw [SameValue, hzero, units_ofNat, units_ofNat]
  generalize Binary64.oneUnits = one
  ring

theorem sameValue_zero (exponent exponent' : Int) : SameValue ⟨0, exponent⟩ ⟨0, exponent'⟩ := by
  have hzero : ∀ exponent : Int, (units ⟨0, exponent⟩).1 = 0 := by
    intro exponent
    cases exponent with
    | ofNat k => simp [units]
    | negSucc k => simp [units]
  rw [SameValue, hzero, hzero, Nat.zero_mul, Nat.zero_mul]

/-- Dropping the zeros that end the digits does not change what a decimal is worth. -/
theorem sameValue_dropZeros (fuel : Nat) (d : Decimal) : (d.dropZeros fuel).SameValue d := by
  induction fuel generalizing d with
  | zero => exact SameValue.refl d
  | succ fuel ih =>
    rw [dropZeros]
    split_ifs with hzero
    · have hdigits : d.digits / 10 * 10 = d.digits :=
        Nat.div_mul_cancel (Nat.dvd_of_mod_eq_zero hzero)
      have hstep := sameValue_succ (d.digits / 10) d.exponent
      rw [hdigits] at hstep
      exact (ih _).trans hstep
    · exact SameValue.refl d

end Decimal

/-! ## Shortest decimals -/

namespace Magnitude

variable {tie : TieRule} {m : Magnitude} {d : Decimal}

/-- Five times two is ten, so every magnitude is a decimal with as many places as units have
bits. -/
theorem readsBack_exact (m : Magnitude) : m.ReadsBack ⟨m.units * Nat.pow 5 1074, -1074⟩ := by
  obtain ⟨bits, hbits, hone, -⟩ := exists_unit_exponent
  have hexponent : (-1074 : Int) = .negSucc 1073 := rfl
  have hbits' : 1073 + 1 = bits := by omega
  rw [ReadsBack, Decimal.magnitude?_eq, hexponent, Decimal.units_negSucc, ← round?_units m, hbits',
    ← hbits, hone]
  refine round?_congr (Nat.pow_pos (by decide)) Nat.one_pos ?_
  simp only [Nat.pow_eq, Nat.mul_one, Nat.mul_assoc, ← Nat.mul_pow]

theorem readsBack_of_neighbour? {exponent : Int} (h : neighbour? tie m exponent = some d) :
    m.ReadsBack d := by
  simp only [neighbour?] at h
  have hfound := List.find?_some h
  exact of_decide_eq_true hfound

/-- Whatever the search ends at reads back. -/
theorem readsBack_search (tie : TieRule) (m : Magnitude) (fuel : Nat) (exponent : Int) :
    m.ReadsBack (search tie m fuel exponent) := by
  induction fuel generalizing exponent with
  | zero => exact readsBack_exact m
  | succ fuel ih =>
    rw [search]
    cases hneighbour : neighbour? tie m exponent with
    | none => exact ih (exponent - 1)
    | some d => exact readsBack_of_neighbour? hneighbour

/-- The shortest decimal of a magnitude is read as this magnitude. -/
theorem readsBack_shortest (tie : TieRule) (m : Magnitude) : m.ReadsBack (m.shortest tie) := by
  rw [shortest]
  split_ifs with hzero
  · have hexact := readsBack_exact m
    generalize Nat.pow 5 1074 = power at hexact
    rw [hzero, Nat.zero_mul] at hexact
    rw [ReadsBack, ← hexact, (Decimal.sameValue_zero 0 _).magnitude?_eq]
  · rw [ReadsBack, (Decimal.sameValue_dropZeros 17 _).magnitude?_eq]
    exact readsBack_search tie m 17 _

end Magnitude

theorem Binary64.ofDecimal_eq (negative : Bool) (d : Decimal) :
    ofDecimal negative d = ofRatio negative d.units.1 d.units.2 := by
  cases hround : Magnitude.round? d.units.1 d.units.2 <;>
    simp only [ofDecimal, ofRatio, Decimal.magnitude?_eq, hround]

/-- A decimal that reads back is read as the number with the same sign. -/
theorem Binary64.ofDecimal_of_readsBack {m : Magnitude} {d : Decimal} (h : m.ReadsBack d)
    (negative : Bool) : ofDecimal negative d = finite negative m := by
  rw [ofDecimal, h]

end BlockScript
