import BlockScript.Proofs.Number.WholeNumeral
import BlockScript.Proofs.Script.Tokens

namespace BlockScript

/-! # Sizes in scripts

Every size that a script asks for is positive and finite. The size of a block is moreover a whole
number: it is written between the points of its token and behind the dash of its segment, so it has
neither a fraction nor a negative exponent. Only spaces can have fractions.
-/

/-! ## Blocks and spaces -/

/-- A size stands behind the dash of its segment. -/
theorem Property.exists_value_of_parse {segment : List Char} {x : Binary64}
    (h : parse segment = .ok (size x)) :
    ∃ name value, segment.splitOn '-' = [name, value] ∧ lowerAscii name = "size".toList ∧
      Numeral.size? value = some x := by
  unfold parse at h
  split at h
  · next name value hsplit =>
    simp only [parseSize, parseColour, parseRepeat] at h
    -- only the first of the three names gives a size
    split at h
    · next hname =>
      split at h
      · next y hsize =>
        obtain rfl := Property.size.inj (Except.ok.inj h)
        exact ⟨name, value, hsplit, hname, hsize⟩
      · cases h
    split at h
    · split at h <;> cases h
    split at h
    · split at h <;> cases h
    · cases h
  · cases h

/-- In a segment without a point a size is written as a natural number. -/
theorem Property.writesNat_of_parse {segment : List Char} (hpoint : '.' ∉ segment) {x : Binary64}
    (h : parse segment = .ok (size x)) :
    ∃ name value n, segment.splitOn '-' = [name, value] ∧ lowerAscii name = "size".toList ∧
      '.' ∉ value ∧ '-' ∉ value ∧ Numeral.WritesNat value n ∧ 1 ≤ n ∧ x = .ofNat n := by
  obtain ⟨name, value, hsplit, hname, hsize⟩ := exists_value_of_parse h
  have hvalue : value ∈ segment.splitOn '-' := by
    rw [hsplit]
    simp
  have hdash : '-' ∉ value := not_mem_of_mem_splitOn hvalue
  have hpointValue : '.' ∉ value := fun hmem => hpoint ((infix_of_mem_splitOn hvalue).mem hmem)
  obtain ⟨n, hn⟩ := Numeral.exists_writesNat_of_size? hpointValue hdash hsize
  exact ⟨name, value, n, hsplit, hname, hpointValue, hdash, hn⟩

/-- A size that can be written in a segment, which has no point. -/
theorem Property.size_of_parse {segment : List Char} (hpoint : '.' ∉ segment) {x : Binary64}
    (h : parse segment = .ok (size x)) : x.isPositive = true ∧ x.isWhole = true := by
  obtain ⟨name, value, -, -, hsize⟩ := exists_value_of_parse h
  have hpositive := Numeral.isPositive_of_size? hsize
  obtain ⟨-, -, n, -, -, -, -, -, -, rfl⟩ := writesNat_of_parse hpoint h
  exact ⟨hpositive, Binary64.isWhole_ofNat (Binary64.isFinite_of_isPositive hpositive)⟩

/-- The size after some properties is the last that they set, or the one from before. -/
theorem Property.size_foldl_apply (properties : List Property) (spec : BlockSpec) :
    (properties.foldl apply spec).size = spec.size ∨
      size (properties.foldl apply spec).size ∈ properties := by
  induction properties generalizing spec with
  | nil => exact Or.inl rfl
  | cons property properties ih =>
    rw [List.foldl_cons]
    rcases ih (property.apply spec) with heq | hmem
    · rw [heq]
      cases property with
      | size value => exact Or.inr List.mem_cons_self
      | colour value => exact Or.inl rfl
      | repetitions value => exact Or.inl rfl
    · exact Or.inr (List.mem_cons_of_mem _ hmem)

namespace Token

theorem size_of_parse_block {token : List Char} {spec : BlockSpec}
    (h : parse token = some (.block spec)) :
    spec.size.isPositive = true ∧ spec.size.isWhole = true := by
  obtain ⟨-, properties, hproperties, rfl⟩ := parse_eq_block_iff.mp h
  rcases Property.size_foldl_apply properties {} with heq | hmem
  · rw [heq]
    constructor <;> decide +kernel
  · have hread : Except.ok (.size (properties.foldl Property.apply {}).size) ∈
        (segments (trim token)).map Property.parse := by
      rw [hproperties]
      exact List.mem_map_of_mem hmem
    obtain ⟨segment, hsegment, hparse⟩ := List.mem_map.mp hread
    exact Property.size_of_parse (not_mem_of_mem_splitOn (List.mem_of_mem_tail hsegment)) hparse

theorem isPositiveNat_of_parse_block {token : List Char} {spec : BlockSpec}
    (h : parse token = some (.block spec)) : spec.size.IsPositiveNat :=
  Binary64.isPositiveNat_of_isWhole (size_of_parse_block h).1 (size_of_parse_block h).2

theorem isPositive_of_parse_space {token : List Char} {size : Binary64}
    (h : parse token = some (.space size)) : size.isPositive = true := by
  obtain ⟨value, -, hsize⟩ := parse_eq_space_iff.mp h
  exact Numeral.isPositive_of_size? hsize

end Token

namespace Script

variable {source : List Char}

/-- Every command of a script is what some token is read as. -/
theorem exists_token_of_mem_commands {c : Command} (h : c ∈ commands source) :
    ∃ o ∈ tokens source, Token.parse o.text = some c := by
  obtain ⟨spanned, hspanned, rfl⟩ := List.mem_map.mp h
  obtain ⟨o, ho, hcommand⟩ := mem_spannedCommands.mp hspanned
  exact ⟨o, ho, (commandAt_eq_some.mp hcommand).1⟩

/-- The blocks of a script have whole sizes. -/
theorem size_of_mem_blocks {spec : BlockSpec} (h : .block spec ∈ commands source) :
    spec.size.isPositive = true ∧ spec.size.isWhole = true := by
  obtain ⟨o, -, htoken⟩ := exists_token_of_mem_commands h
  exact Token.size_of_parse_block htoken

theorem isPositiveNat_of_mem_blocks {spec : BlockSpec} (h : .block spec ∈ commands source) :
    spec.size.IsPositiveNat :=
  Binary64.isPositiveNat_of_isWhole (size_of_mem_blocks h).1 (size_of_mem_blocks h).2

/-- The spaces of a script are not empty. -/
theorem isPositive_of_mem_spaces {size : Binary64} (h : .space size ∈ commands source) :
    size.isPositive = true := by
  obtain ⟨o, -, htoken⟩ := exists_token_of_mem_commands h
  exact Token.isPositive_of_parse_space htoken

end Script

end BlockScript
