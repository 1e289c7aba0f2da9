import BlockScript.Proofs.Number.Order

namespace BlockScript

/-! # Whole numbers

Arithmetic on whole numbers is exact as long as the results stay below 2^53, and rounding never
turns a whole number into a fraction. So a place that is a whole number falls on a pixel of its own,
and nothing is lost when places are added up.
-/

/-- One is a power of two, with room for 53 bits above it. -/
theorem exists_oneUnits_eq :
    ∃ k, Binary64.oneUnits = Nat.pow 2 k ∧ 53 + k < overflowExponent := by
  unfold Binary64.oneUnits
  exact ⟨1074, rfl, by decide⟩

theorem oneUnits_pos : 0 < Binary64.oneUnits := by
  obtain ⟨k, hk, -⟩ := exists_oneUnits_eq
  rw [hk]
  exact Nat.two_pow_pos k

/-- Whole numbers up to 2^53 are held exactly. -/
theorem representable_mul_oneUnits {n : Nat} (h : n ≤ 2 ^ 53) :
    Representable (n * Binary64.oneUnits) := by
  obtain ⟨k, hk, hexponent⟩ := exists_oneUnits_eq
  rw [hk]
  refine ⟨spacing_dvd_mul h, ?_⟩
  unfold overflowUnits
  generalize overflowExponent = top at hexponent ⊢
  calc n * 2 ^ k ≤ 2 ^ 53 * 2 ^ k := Nat.mul_le_mul_right _ h
    _ = 2 ^ (53 + k) := (Nat.pow_add 2 53 k).symm
    _ < 2 ^ top := Nat.pow_lt_pow_right (by decide) hexponent

/-- A whole number is rounded to a whole number, however large it is. -/
theorem oneUnits_dvd_roundUnits (n : Nat) :
    Binary64.oneUnits ∣ roundUnits (n * Binary64.oneUnits) 1 := by
  rcases Nat.lt_or_ge n (2 ^ 53) with hsmall | hlarge
  · rw [roundUnits_eq_self (representable_mul_oneUnits (Nat.le_of_lt hsmall)).1]
    exact Nat.dvd_mul_left ..
  · -- a number with more than 53 bits is rounded at a spacing above one
    obtain ⟨k, hk, -⟩ := exists_oneUnits_eq
    rw [hk]
    have hlog : 53 + k ≤ (n * Nat.pow 2 k).log2 := by
      have hpos : 0 < n * Nat.pow 2 k :=
        Nat.mul_pos (Nat.lt_of_lt_of_le (Nat.two_pow_pos 53) hlarge) (Nat.two_pow_pos k)
      refine (Nat.le_log2 (Nat.ne_of_gt hpos)).mpr ?_
      rw [Nat.pow_add]
      exact Nat.mul_le_mul_right _ hlarge
    have hspacing : Nat.pow 2 k ∣ spacing (n * Nat.pow 2 k) := Nat.pow_dvd_pow 2 (by omega)
    rw [roundUnits, Nat.div_one]
    exact Nat.dvd_trans hspacing (Nat.dvd_mul_left ..)

namespace Binary64

/-- A finite number without a fraction. -/
def isWhole : Binary64 → Bool
  | finite _ magnitude => decide (oneUnits ∣ magnitude.units)
  | _ => false

/-- The natural number that a whole number is. -/
def whole (x : Binary64) : Nat := x.units / oneUnits

/-- The number is the natural number `n`. -/
def IsNat (x : Binary64) (n : Nat) : Prop := x.IsNonneg ∧ x.units = n * oneUnits

variable {x y : Binary64} {m n : Nat}

theorem isNat_whole (hpos : x.isPositive = true) (hwhole : x.isWhole = true) :
    x.IsNat x.whole := by
  refine ⟨isNonneg_of_isPositive hpos, ?_⟩
  rcases (isNonneg_of_isPositive hpos).cases with ⟨negative, magnitude, rfl, hunits⟩ | ⟨rfl, -⟩
  · have hdvd : oneUnits ∣ magnitude.units := of_decide_eq_true hwhole
    rw [whole, hunits, Nat.div_mul_cancel hdvd]
  · cases hwhole

theorem isNat_zero : IsNat 0 0 := ⟨isNonneg_zero, by rw [units_zero, Nat.zero_mul]⟩

theorem isNat_negativeZero : IsNat negativeZero 0 :=
  ⟨isNonneg_negativeZero, by rw [units_negativeZero, Nat.zero_mul]⟩

theorem isNat_ofNat (h : n ≤ 2 ^ 53) : (ofNat n).IsNat n := by
  refine ⟨isNonneg_ofNat n, ?_⟩
  rw [ofNat, units_ofRatio, roundedUnits_of_representable (representable_mul_oneUnits h)]

theorem isNat_one : IsNat 1 1 := isNat_ofNat (Nat.one_le_two_pow)

theorem units_one : units 1 = oneUnits := by rw [isNat_one.2, Nat.one_mul]

example : whole 1 = 1 := by decide +kernel

/-- Sums are exact up to 2^53. -/
theorem IsNat.add (hx : x.IsNat m) (hy : y.IsNat n) (h : m + n ≤ 2 ^ 53) :
    (x + y).IsNat (m + n) := by
  refine ⟨hx.1.add hy.1, ?_⟩
  rw [units_add hx.1 hy.1, hx.2, hy.2, ← Nat.add_mul,
    roundedUnits_of_representable (representable_mul_oneUnits h)]

/-- Products are exact up to 2^53. -/
theorem IsNat.scale (hx : x.IsNat m) (hn : 0 < n) (h : m * n ≤ 2 ^ 53) :
    (x.scale n).IsNat (m * n) := by
  refine ⟨hx.1.scale hn, ?_⟩
  rw [units_scale hx.1 hn, hx.2, Nat.mul_right_comm,
    roundedUnits_of_representable (representable_mul_oneUnits h)]

theorem IsNat.le_of_units_le (hx : x.IsNat m) (h : x.units ≤ n * oneUnits) : m ≤ n := by
  rw [hx.2] at h
  exact Nat.le_of_mul_le_mul_right h oneUnits_pos

/-- A whole number that rounds to `n` at most is itself at most `n`. -/
theorem le_of_roundedUnits_le (hn : n < 2 ^ 53)
    (h : roundedUnits (m * oneUnits) ≤ n * oneUnits) : m ≤ n := by
  by_contra hlt
  have hmono := roundedUnits_mono (Nat.mul_le_mul_right oneUnits (Nat.not_le.mp hlt))
  rw [roundedUnits_of_representable (representable_mul_oneUnits hn)] at hmono
  have hle := Nat.le_of_mul_le_mul_right (hmono.trans h) oneUnits_pos
  omega

/-- A sum that is not too large is exact, for then its parts are not too large either. -/
theorem IsNat.add_of_units_le (hx : x.IsNat m) (hy : y.IsNat n)
    (h : (x + y).units ≤ 2 ^ 52 * oneUnits) : (x + y).IsNat (m + n) := by
  obtain ⟨hleft, hright⟩ := units_le_units_add hx.1 hy.1
  have hm : m ≤ 2 ^ 52 := hx.le_of_units_le (hleft.trans h)
  have hn : n ≤ 2 ^ 52 := hy.le_of_units_le (hright.trans h)
  exact hx.add hy (by omega)

/-- Of natural numbers the largest is the largest. -/
theorem isNat_foldl_max {α : Type} {f : α → Binary64} {g : α → Nat} {items : List α}
    (h : ∀ a ∈ items, (f a).IsNat (g a)) (hx : x.IsNat n) :
    ((items.map f).foldl Max.max x).IsNat ((items.map g).foldl Max.max n) := by
  induction items generalizing x n with
  | nil => exact hx
  | cons a items ih =>
    obtain ⟨ha, hitems⟩ := List.forall_mem_cons.mp h
    apply ih hitems
    refine ⟨hx.1.max ha.1, ?_⟩
    rw [units_max hx.1 ha.1, hx.2, ha.2, Nat.mul_max_mul_right]

/-! ## Pixels -/

theorem roundNat_of_isNat (hx : x.IsNat n) (h : n ≤ 2 ^ 53) : x.roundNat = n := by
  have hlt : x.units < overflowUnits := by
    rw [hx.2]
    exact (representable_mul_oneUnits h).2
  have hhalf : oneUnits / 2 < oneUnits := Nat.div_lt_self oneUnits_pos (by decide)
  rw [roundNat_of_units_lt hx.1 hlt, hx.2, Nat.add_comm, Nat.add_mul_div_right _ _ oneUnits_pos,
    Nat.div_eq_of_lt hhalf, Nat.zero_add, Nat.min_eq_left]
  exact h.trans (by decide)

theorem ceilNat?_of_isNat (hx : x.IsNat n) (h : n ≤ 2 ^ 53) : x.ceilNat? = some n := by
  have hlt : x.units < overflowUnits := by
    rw [hx.2]
    exact (representable_mul_oneUnits h).2
  have hless : oneUnits - 1 < oneUnits := Nat.sub_lt oneUnits_pos Nat.one_pos
  rw [ceilNat?_of_units_lt hx.1 hlt, hx.2, Nat.add_comm, Nat.add_mul_div_right _ _ oneUnits_pos,
    Nat.div_eq_of_lt hless, Nat.zero_add]

/-- Rounding up to a pixel rounds up. -/
theorem units_le_of_ceilNat? (hx : x.IsNonneg) (h : x.ceilNat? = some n) :
    x.units ≤ n * oneUnits := by
  rcases hx.cases with ⟨negative, magnitude, rfl, hunits⟩ | ⟨rfl, -⟩
  · cases negative with
    | false =>
      obtain rfl := Option.some.inj h
      rw [hunits]
      have hdiv := Nat.lt_mul_div_succ (magnitude.units + (oneUnits - 1)) oneUnits_pos
      have hpos := oneUnits_pos
      rw [Nat.mul_add, Nat.mul_one, Nat.mul_comm] at hdiv
      omega
    | true =>
      rw [hunits, hx.units_eq_zero]
      exact Nat.zero_le _
  · cases h

/-- A whole number falls on the pixel that it counts. -/
theorem edge_of_isNat (hx : x.IsNat m) (hn : 0 < n) (h : m * n ≤ 2 ^ 53) : x.edge n = n * m := by
  rw [Nat.mul_comm]
  exact roundNat_of_isNat (hx.scale hn h) h

/-- The edges of something that begins at `x` and ends before `k`, where `k` is not too far. -/
theorem edges_of_isNat (hx : x.IsNat m) (hy : y.IsNat n) {unit k : Nat} (hunit : 0 < unit)
    (hk : k * unit ≤ 2 ^ 52) (h : (x + y).units ≤ k * oneUnits) :
    x.edge unit = unit * m ∧ (x + y).edge unit = unit * (m + n) := by
  have hfar : k ≤ 2 ^ 52 := (Nat.le_mul_of_pos_right k hunit).trans hk
  have hsum := hx.add_of_units_le hy (h.trans (Nat.mul_le_mul_right _ hfar))
  have hend : (m + n) * unit ≤ 2 ^ 52 :=
    (Nat.mul_le_mul_right unit (hsum.le_of_units_le h)).trans hk
  have hbegin : m * unit ≤ (m + n) * unit := Nat.mul_le_mul_right unit (Nat.le_add_right m n)
  exact ⟨edge_of_isNat hx hunit (by omega), edge_of_isNat hsum hunit (by omega)⟩

end Binary64

end BlockScript
