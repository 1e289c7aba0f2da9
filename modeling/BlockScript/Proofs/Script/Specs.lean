import BlockScript.Proofs.Script.Sizes

namespace BlockScript

/-! # What a block can be asked for

A block has a size that is finite and greater than zero, and is drawn once at least and `maxRepeat`
times at most (`BlockSpec.IsDrawable`). The block of a token without properties is such, and every
property that can be written keeps it so. A token with a segment that is no property asks for no
block at all, however many properties stand before and behind that segment.
-/

/-- A size that can be drawn. -/
structure Binary64.IsDrawable (size : Binary64) : Prop where
  finite : size.isFinite = true
  positive : (0 : Binary64).lt size = true

theorem Binary64.isDrawable_of_isPositive {size : Binary64} (h : size.isPositive = true) :
    size.IsDrawable := by
  obtain ⟨magnitude, rfl, hpos⟩ := exists_eq_of_isPositive h
  have hzero : (0 : Binary64).rank = 0 := by decide +kernel
  have hnan : (0 : Binary64).isNaN = false := isNonneg_zero.1
  have hlt : (0 : Binary64).rank < (finite false magnitude).rank := by
    rw [hzero]
    exact Int.natCast_pos.mpr hpos
  refine ⟨rfl, ?_⟩
  rw [lt, hnan, decide_eq_true hlt]
  rfl

structure BlockSpec.IsDrawable (spec : BlockSpec) : Prop where
  size : spec.size.IsDrawable
  one_le : 1 ≤ spec.repetitions
  le_max : spec.repetitions ≤ maxRepeat

/-- A value that a block may have. -/
def Property.IsDrawable : Property → Prop
  | size value => value.IsDrawable
  | colour _ => True
  | repetitions value => 1 ≤ value ∧ value ≤ maxRepeat

theorem Numeral.le_of_natUpTo? {limit n : Nat} {cs : List Char} (h : natUpTo? limit cs = some n) :
    n ≤ limit := by
  simp only [natUpTo?] at h
  exact of_decide_eq_true (Option.filter_eq_some_iff.mp h).2

namespace Property

/-- Only such values can be written. -/
theorem isDrawable_of_parse {segment : List Char} {property : Property}
    (h : parse segment = .ok property) : property.IsDrawable := by
  unfold parse at h
  split at h
  · simp only [parseSize, parseColour, parseRepeat] at h
    -- one case for each name
    split at h
    · split at h
      · next x hsize =>
        obtain rfl := Except.ok.inj h
        exact Binary64.isDrawable_of_isPositive (Numeral.isPositive_of_size? hsize)
      · cases h
    split at h
    · split at h
      · obtain rfl := Except.ok.inj h
        trivial
      · cases h
    split at h
    · split at h
      · next n hrepeat =>
        obtain rfl := Except.ok.inj h
        obtain ⟨hread, hpos⟩ := Option.filter_eq_some_iff.mp hrepeat
        exact ⟨of_decide_eq_true hpos, Numeral.le_of_natUpTo? hread⟩
      · cases h
    · cases h
  · cases h

end Property

namespace BlockSpec

theorem isDrawable_default : ({} : BlockSpec).IsDrawable where
  size := Binary64.isDrawable_of_isPositive (by decide +kernel)
  one_le := Nat.le_refl 1
  le_max := by decide

namespace IsDrawable

variable {spec : BlockSpec}

/-- A property changes one field, to a value that it may have. -/
theorem apply (h : spec.IsDrawable) {property : Property} (hproperty : property.IsDrawable) :
    (property.apply spec).IsDrawable := by
  cases property with
  | size value => exact { h with size := hproperty }
  | colour value => exact { h with }
  | repetitions value => exact { h with one_le := hproperty.1, le_max := hproperty.2 }

/-- So do many of them, in any order. -/
theorem foldl_apply (h : spec.IsDrawable) {properties : List Property}
    (hproperties : ∀ property ∈ properties, property.IsDrawable) :
    (properties.foldl Property.apply spec).IsDrawable := by
  induction properties generalizing spec with
  | nil => exact h
  | cons property properties ih =>
    rw [List.foldl_cons]
    refine ih (h.apply (hproperties property List.mem_cons_self)) fun other hother => ?_
    exact hproperties other (List.mem_cons_of_mem _ hother)

end IsDrawable

end BlockSpec

namespace Token

theorem isDrawable_of_parse_block {token : List Char} {spec : BlockSpec}
    (h : parse token = some (.block spec)) : spec.IsDrawable := by
  obtain ⟨-, properties, hproperties, rfl⟩ := parse_eq_block_iff.mp h
  refine BlockSpec.isDrawable_default.foldl_apply fun property hproperty => ?_
  have hread : Except.ok property ∈ (segments (trim token)).map Property.parse := by
    rw [hproperties]
    exact List.mem_map_of_mem hproperty
  obtain ⟨segment, -, hsegment⟩ := List.mem_map.mp hread
  exact Property.isDrawable_of_parse hsegment

/-- A block token with a segment that is no property is a mistake. -/
theorem exists_mistake_of_rejected {token segment : List Char}
    (hblock : keyword (trim token) = "block".toList) (hsegment : segment ∈ segments (trim token))
    (hrejected : ¬ Property.Accepts segment) :
    ∃ e, FirstRejected (segments (trim token)) e ∧ parse token = some (.mistake e.message) := by
  obtain ⟨e, he⟩ := exists_firstRejected_iff.mpr ⟨segment, hsegment, hrejected⟩
  exact ⟨e, he, (parse_eq_badBlock_iff he).mpr hblock⟩

end Token

namespace Script

theorem isDrawable_of_mem_blocks {source : List Char} {spec : BlockSpec}
    (h : .block spec ∈ commands source) : spec.IsDrawable := by
  obtain ⟨o, -, htoken⟩ := exists_token_of_mem_commands h
  exact Token.isDrawable_of_parse_block htoken

theorem isDrawable_of_mem_spaces {source : List Char} {size : Binary64}
    (h : .space size ∈ commands source) : size.IsDrawable :=
  Binary64.isDrawable_of_isPositive (isPositive_of_mem_spaces h)

end Script

end BlockScript
