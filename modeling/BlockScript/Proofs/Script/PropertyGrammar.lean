import BlockScript.Proofs.Number.Grammar
import BlockScript.Proofs.Text.LetterCase
import BlockScript.Proofs.Text.Split
import BlockScript.Script.Token
import Mathlib.Data.List.Count
import Mathlib.Data.List.Nodup

namespace BlockScript

/-! # The grammar of properties

A property is a name and a value with the only dash of the segment between them. `Property.Writes`
tells which names and values write which property, and `Property.FailsWith` tells what is wrong with
any other segment: its dashes come first, then its name, then its value. Each segment is one or the
other (`writes_or_failsWith`), and it is read accordingly.
-/

/-! ## Names of colours -/

namespace Colour

variable {name : List Char} {c : Colour}

/-- No two names of the table are the same up to the case of their letters. -/
theorem nodup_lowerAscii_namedColours :
    (namedColours.map fun entry => lowerAscii entry.1.toList).Nodup := by decide

/-- A colour is found by its name, whatever the case of the letters. -/
theorem named?_eq_some_iff : named? name = some c ↔
    ∃ known, (known, c) ∈ namedColours ∧ SameLetters name known.toList := by
  simp only [named?, Option.map_eq_some_iff, sameLetters_iff]
  constructor
  · rintro ⟨⟨known, _⟩, hfind, rfl⟩
    have hsame := List.find?_some hfind
    exact ⟨known, List.mem_of_find?_eq_some hfind, (beq_iff_eq.mp hsame).symm⟩
  · rintro ⟨known, hmem, hname⟩
    obtain ⟨found, hfind⟩ : ∃ found, namedColours.find?
        (fun entry => lowerAscii entry.1.toList == lowerAscii name) = some found := by
      rw [← Option.isSome_iff_exists, List.find?_isSome]
      exact ⟨_, hmem, beq_iff_eq.mpr hname.symm⟩
    -- the first entry that fits is the only one
    have hsame : lowerAscii found.1.toList = lowerAscii name := by
      simpa using List.find?_some hfind
    obtain rfl := List.inj_on_of_nodup_map nodup_lowerAscii_namedColours
      (List.mem_of_find?_eq_some hfind) hmem (hsame.trans hname)
    exact ⟨_, hfind, rfl⟩

end Colour

namespace Property

variable {segment name value : List Char} {property : Property} {e : TokenError}

/-! ## Names and values -/

/-- The segment is a name, a dash and a value, and holds no other dash. -/
structure IsPair (segment name value : List Char) : Prop where
  segment_eq : segment = name ++ '-' :: value
  name_dash : '-' ∉ name
  value_dash : '-' ∉ value

/-- The name and the value write the property. -/
inductive Writes (name value : List Char) : Property → Prop
  | size {x : Binary64} (hname : SameLetters name "size".toList)
      (hvalue : Numeral.WritesSize value x) : Writes name value (.size x)
  | colour {known : String} {c : Colour} (hname : SameLetters name "color".toList)
      (hknown : (known, c) ∈ namedColours) (hvalue : SameLetters value known.toList) :
      Writes name value (.colour c)
  | repetitions {digits : List Char} (hname : SameLetters name "repeat".toList)
      (hvalue : Numeral.IsUnsigned value digits) (hone : 1 ≤ Numeral.digitsValue digits)
      (hmax : Numeral.digitsValue digits ≤ 4294967295) :
      Writes name value (.repetitions (Numeral.digitsValue digits))

/-- What is wrong with a segment that is no property. -/
inductive FailsWith : List Char → TokenError → Prop
  | dashes {segment : List Char} (h : segment.count '-' ≠ 1) :
      FailsWith segment (.invalidPropertySyntax (String.ofList segment))
  | name {segment name value : List Char} (h : IsPair segment name value)
      (hsize : ¬ SameLetters name "size".toList) (hcolour : ¬ SameLetters name "color".toList)
      (hrepeat : ¬ SameLetters name "repeat".toList) :
      FailsWith segment (.unknownProperty (String.ofList name))
  | size {segment name value : List Char} (h : IsPair segment name value)
      (hname : SameLetters name "size".toList) (hvalue : ∀ x, ¬ Numeral.WritesSize value x) :
      FailsWith segment (.invalidSizeValue (String.ofList value))
  | colour {segment name value : List Char} (h : IsPair segment name value)
      (hname : SameLetters name "color".toList)
      (hvalue : ∀ entry ∈ namedColours, ¬ SameLetters value entry.1.toList) :
      FailsWith segment (.unknownColour (String.ofList value))
  | repetitions {segment name value : List Char} (h : IsPair segment name value)
      (hname : SameLetters name "repeat".toList)
      (hvalue : ∀ digits, Numeral.IsUnsigned value digits →
        Numeral.digitsValue digits = 0 ∨ 4294967295 < Numeral.digitsValue digits) :
      FailsWith segment (.invalidRepeatValue (String.ofList value))

/-- A segment is a name and a value exactly when it has one dash. -/
theorem count_eq_one_iff : segment.count '-' = 1 ↔ ∃ name value, IsPair segment name value := by
  constructor
  · intro h
    have hmem : '-' ∈ segment := List.count_pos_iff.mp (by omega)
    obtain ⟨name, value, rfl, hname⟩ := List.eq_append_cons_of_mem hmem
    rw [List.count_append, List.count_cons_self, List.count_eq_zero_of_not_mem hname] at h
    exact ⟨name, value, rfl, hname, List.count_eq_zero.mp (by omega)⟩
  · rintro ⟨name, value, rfl, hname, hvalue⟩
    rw [List.count_append, List.count_cons_self, List.count_eq_zero_of_not_mem hname,
      List.count_eq_zero_of_not_mem hvalue]

theorem IsPair.splitOn_eq (h : IsPair segment name value) :
    segment.splitOn '-' = [name, value] := by
  rw [h.segment_eq, List.splitOn_append_cons_self_of_not_mem h.name_dash,
    List.splitOn_eq_singleton h.value_dash]

theorem isPair_of_splitOn_eq (h : segment.splitOn '-' = [name, value]) :
    IsPair segment name value := by
  have hmem : ∀ piece ∈ [name, value], '-' ∉ piece := by
    rw [← h]
    exact fun piece => not_mem_of_mem_splitOn
  have hsegment : ['-'].intercalate (segment.splitOn '-') = segment := List.intercalate_splitOn '-'
  refine ⟨?_, hmem name (by simp), hmem value (by simp)⟩
  rw [← hsegment, h]
  simp

/-! ## Reading -/

/-- A name and a value are read by the name. -/
theorem IsPair.parse_eq (h : IsPair segment name value) :
    (SameLetters name "size".toList → parse segment = parseSize value) ∧
    (SameLetters name "color".toList → parse segment = parseColour value) ∧
    (SameLetters name "repeat".toList → parse segment = parseRepeat value) ∧
    (¬ SameLetters name "size".toList → ¬ SameLetters name "color".toList →
      ¬ SameLetters name "repeat".toList →
      parse segment = .error (.unknownProperty (String.ofList name))) := by
  have hread : parse segment =
      if lowerAscii name = "size".toList then parseSize value
      else if lowerAscii name = "color".toList then parseColour value
      else if lowerAscii name = "repeat".toList then parseRepeat value
      else .error (.unknownProperty (String.ofList name)) := by rw [parse, h.splitOn_eq]
  have hsize : SameLetters name "size".toList ↔ lowerAscii name = "size".toList :=
    sameLetters_lower_iff (by decide)
  have hcolour : SameLetters name "color".toList ↔ lowerAscii name = "color".toList :=
    sameLetters_lower_iff (by decide)
  have hrepeat : SameLetters name "repeat".toList ↔ lowerAscii name = "repeat".toList :=
    sameLetters_lower_iff (by decide)
  rw [hread, hsize, hcolour, hrepeat]
  refine ⟨fun hname => ?_, fun hname => ?_, fun hname => ?_, fun hnot hnot' hnot'' => ?_⟩
  · rw [if_pos hname]
  · rw [hname]
    rfl
  · rw [hname]
    rfl
  · rw [if_neg hnot, if_neg hnot', if_neg hnot'']

theorem parse_of_count_ne_one (h : segment.count '-' ≠ 1) :
    parse segment = .error (.invalidPropertySyntax (String.ofList segment)) := by
  unfold parse
  split
  · next name value hsplit =>
    exact absurd (count_eq_one_iff.mpr ⟨name, value, isPair_of_splitOn_eq hsplit⟩) h
  · rfl

/-- The repeat of a value: whole numbers from one on. -/
theorem filter_natUpTo?_eq_some_iff {n : Nat} :
    (Numeral.natUpTo? maxRepeat value).filter (0 < ·) = some n ↔
      ∃ digits, Numeral.IsUnsigned value digits ∧ Numeral.digitsValue digits = n ∧ 1 ≤ n ∧
        n ≤ 4294967295 := by
  rw [Option.filter_eq_some_iff, Numeral.natUpTo?_eq_some_iff, decide_eq_true_iff]
  constructor
  · rintro ⟨⟨digits, hdigits, hvalue, hmax⟩, hone⟩
    exact ⟨digits, hdigits, hvalue, hone, hmax⟩
  · rintro ⟨digits, hdigits, hvalue, hone, hmax⟩
    exact ⟨⟨digits, hdigits, hvalue, hmax⟩, hone⟩

theorem parse_of_writes (h : IsPair segment name value) (hwrites : Writes name value property) :
    parse segment = .ok property := by
  obtain ⟨hsize, hcolour, hrepeat, -⟩ := h.parse_eq
  cases hwrites with
  | size hname hvalue => rw [hsize hname, parseSize, Numeral.size?_eq_some_iff.mpr hvalue]
  | colour hname hknown hvalue =>
    rw [hcolour hname, parseColour, Colour.named?_eq_some_iff.mpr ⟨_, hknown, hvalue⟩]
  | repetitions hname hvalue hone hmax =>
    rw [hrepeat hname, parseRepeat,
      filter_natUpTo?_eq_some_iff.mpr ⟨_, hvalue, rfl, hone, hmax⟩]

theorem parse_of_failsWith (h : FailsWith segment e) : parse segment = .error e := by
  cases h with
  | dashes h => exact parse_of_count_ne_one h
  | name h hsize hcolour hrepeat => exact h.parse_eq.2.2.2 hsize hcolour hrepeat
  | @size _ value h hname hvalue =>
    have hnone : Numeral.size? value = none :=
      Option.eq_none_iff_forall_ne_some.mpr fun x hx => hvalue x (Numeral.size?_eq_some_iff.mp hx)
    rw [h.parse_eq.1 hname, parseSize, hnone]
  | @colour _ value h hname hvalue =>
    have hnone : Colour.named? value = none := by
      refine Option.eq_none_iff_forall_ne_some.mpr fun c hc => ?_
      obtain ⟨known, hknown, hsame⟩ := Colour.named?_eq_some_iff.mp hc
      exact hvalue _ hknown hsame
    rw [h.parse_eq.2.1 hname, parseColour, hnone]
  | @repetitions _ value h hname hvalue =>
    have hnone : (Numeral.natUpTo? maxRepeat value).filter (0 < ·) = none := by
      refine Option.eq_none_iff_forall_ne_some.mpr fun n hn => ?_
      obtain ⟨digits, hdigits, rfl, hone, hmax⟩ := filter_natUpTo?_eq_some_iff.mp hn
      rcases hvalue digits hdigits with hzero | hlarge
      · omega
      · omega
    rw [h.parse_eq.2.2.1 hname, parseRepeat, hnone]

/-- Every segment writes a property, or something is wrong with it. -/
theorem writes_or_failsWith (segment : List Char) :
    (∃ name value property, IsPair segment name value ∧ Writes name value property) ∨
      ∃ e, FailsWith segment e := by
  by_cases hcount : segment.count '-' = 1
  · obtain ⟨name, value, h⟩ := count_eq_one_iff.mp hcount
    by_cases hsize : SameLetters name "size".toList
    · by_cases hvalue : ∃ x, Numeral.WritesSize value x
      · obtain ⟨x, hx⟩ := hvalue
        exact Or.inl ⟨name, value, _, h, .size hsize hx⟩
      · exact Or.inr ⟨_, .size h hsize (not_exists.mp hvalue)⟩
    by_cases hcolour : SameLetters name "color".toList
    · by_cases hvalue : ∃ entry ∈ namedColours, SameLetters value entry.1.toList
      · obtain ⟨entry, hentry, hsame⟩ := hvalue
        exact Or.inl ⟨name, value, _, h, .colour hcolour hentry hsame⟩
      · exact Or.inr ⟨_, .colour h hcolour fun entry hentry hsame => hvalue ⟨entry, hentry, hsame⟩⟩
    by_cases hrepeat : SameLetters name "repeat".toList
    · by_cases hvalue : ∃ digits, Numeral.IsUnsigned value digits ∧
          1 ≤ Numeral.digitsValue digits ∧ Numeral.digitsValue digits ≤ 4294967295
      · obtain ⟨digits, hdigits, hone, hmax⟩ := hvalue
        exact Or.inl ⟨name, value, _, h, .repetitions hrepeat hdigits hone hmax⟩
      · refine Or.inr ⟨_, .repetitions h hrepeat fun digits hdigits => ?_⟩
        by_contra hrange
        exact hvalue ⟨digits, hdigits, by omega, by omega⟩
    · exact Or.inr ⟨_, .name h hsize hcolour hrepeat⟩
  · exact Or.inr ⟨_, .dashes hcount⟩

theorem parse_eq_ok_iff : parse segment = .ok property ↔
    ∃ name value, IsPair segment name value ∧ Writes name value property := by
  constructor
  · intro h
    rcases writes_or_failsWith segment with ⟨name, value, written, hpair, hwrites⟩ | ⟨e, he⟩
    · rw [parse_of_writes hpair hwrites] at h
      obtain rfl := Except.ok.inj h
      exact ⟨name, value, hpair, hwrites⟩
    · rw [parse_of_failsWith he] at h
      cases h
  · rintro ⟨name, value, hpair, hwrites⟩
    exact parse_of_writes hpair hwrites

theorem parse_eq_error_iff : parse segment = .error e ↔ FailsWith segment e := by
  constructor
  · intro h
    rcases writes_or_failsWith segment with ⟨name, value, written, hpair, hwrites⟩ | ⟨f, hf⟩
    · rw [parse_of_writes hpair hwrites] at h
      cases h
    · rw [parse_of_failsWith hf] at h
      obtain rfl := Except.error.inj h
      exact hf
  · exact parse_of_failsWith

/-- A segment is a property when it has one dash and the parts around it write one; the property
is the one that they write. Otherwise its error is that of its dashes, else that of its name, else
that of its value, and quotes what is wrong as it is written. The sizes are the numerals that are
read as a number which is finite and greater than zero. -/
theorem parse_eq_iff_written (segment : List Char) :
    (∀ property, parse segment = .ok property ↔
      ∃ name value, IsPair segment name value ∧ Writes name value property) ∧
    (∀ e, parse segment = .error e ↔ FailsWith segment e) ∧
    (segment.count '-' = 1 ↔ ∃ name value, IsPair segment name value) ∧
    ∀ value x, Numeral.WritesSize value x ↔
      Numeral.binary64? value = some x ∧ x.isFinite = true ∧ (0 : Binary64).lt x = true := by
  refine ⟨fun _ => parse_eq_ok_iff, fun _ => parse_eq_error_iff, count_eq_one_iff, ?_⟩
  intro value x
  rw [← Numeral.size?_eq_some_iff, Numeral.size?, Option.filter_eq_some_iff,
    Binary64.isPositive_iff]

end Property

/-! ## Characters of a property -/

namespace Numeral

variable {c : Char} {cs : List Char}

theorem isGraphic_of_isMark (h : IsMark c) : IsGraphic c := by
  rcases h with hdigit | hmark
  · simp only [Char.isDigit, Bool.and_eq_true, decide_eq_true_eq] at hdigit
    have hlow : 48 ≤ c.toNat := hdigit.1
    have hhigh : c.toNat ≤ 57 := hdigit.2
    unfold IsGraphic
    omega
  · simp only [List.mem_cons, List.not_mem_nil, or_false] at hmark
    rcases hmark with rfl | rfl | rfl | rfl | rfl <;> decide

theorem IsUnsigned.isGraphic {digits : List Char} (h : IsUnsigned cs digits) :
    ∀ c ∈ cs, IsGraphic c := by
  have hdigits : ∀ c ∈ digits, IsGraphic c := fun c hc =>
    isGraphic_of_isMark (Or.inl (h.allDigits c hc))
  rcases h.sign with rfl | rfl
  · exact hdigits
  · exact List.forall_mem_cons.mpr ⟨by decide, hdigits⟩

theorem WritesSize.isGraphic {x : Binary64} (h : WritesSize cs x) : ∀ c ∈ cs, IsGraphic c := by
  rcases h.decimal with ⟨body, d, hbody, hd, -⟩
  have hmarks : ∀ c ∈ body, IsGraphic c := fun c hc =>
    isGraphic_of_isMark (isMark_of_decimal? (decimal?_eq_some_iff.mpr hd) c hc)
  rcases hbody with rfl | rfl
  · exact hmarks
  · exact List.forall_mem_cons.mpr ⟨by decide, hmarks⟩

end Numeral

/-- The names of the table are words. -/
theorem isGraphic_namedColours {entry : String × Colour} (h : entry ∈ namedColours) :
    ∀ c ∈ entry.1.toList, IsGraphic c := by
  have hall : (namedColours.all fun entry =>
      entry.1.toList.all fun c => decide (IsGraphic c)) = true := by decide
  exact isGraphic_of_all (List.all_eq_true.mp hall entry h)

namespace Property

variable {segment : List Char} {property : Property}

/-- A property is written in ASCII, without blanks and control characters. -/
theorem isGraphic_of_parse (h : parse segment = .ok property) : ∀ c ∈ segment, IsGraphic c := by
  rcases parse_eq_ok_iff.mp h with ⟨name, value, hpair, hwrites⟩
  have hboth : (∀ c ∈ name, IsGraphic c) ∧ ∀ c ∈ value, IsGraphic c := by
    cases hwrites with
    | size hsize hvalue =>
      exact ⟨hsize.isGraphic (isGraphic_of_all (by decide)), hvalue.isGraphic⟩
    | colour hcolour hknown hvalue =>
      exact ⟨hcolour.isGraphic (isGraphic_of_all (by decide)),
        hvalue.isGraphic (isGraphic_namedColours hknown)⟩
    | repetitions hrepeat hvalue =>
      exact ⟨hrepeat.isGraphic (isGraphic_of_all (by decide)), hvalue.isGraphic⟩
  rw [hpair.segment_eq, List.forall_mem_append, List.forall_mem_cons]
  exact ⟨hboth.1, by decide, hboth.2⟩

end Property

end BlockScript
