import BlockScript.Proofs.Script.Grammar
import BlockScript.Proofs.Script.PropertyGrammar

namespace BlockScript

/-! # Properties in either case

The case of ASCII letters is of no account in a property: two segments that differ only in it are
the same property, or fail alike (`Property.parse_of_sameLetters`). The name of a property, the name
of a colour and the letter of an exponent are all read so, and nothing else in a segment has a case.
It follows for block tokens, segment by segment (`Token.applySegments_of_sameLetters`). No other
characters are taken for letters, for a property is written in ASCII.
-/

/-! ## Numerals -/

namespace Numeral

variable {a b : List Char}

theorem toNat_lt_of_isDigit {c : Char} (h : c.isDigit = true) : c.toNat < 65 := by
  simp only [Char.isDigit, Bool.and_eq_true, decide_eq_true_eq] at h
  have hhigh : c.toNat ≤ 57 := h.2
  omega

theorem eq_of_allDigits (hdigits : AllDigits a) (h : SameLetters a b) : a = b :=
  h.eq_of_lt fun c hc => toNat_lt_of_isDigit (hdigits c hc)

/-- Whole numbers have one form only. -/
theorem IsUnsigned.eq_of_sameLetters {digits : List Char} (hwritten : IsUnsigned a digits)
    (h : SameLetters a b) : a = b := by
  apply h.eq_of_lt
  rcases hwritten with ⟨rfl | rfl, -, hdigits⟩
  · intro c hc
    exact toNat_lt_of_isDigit (hdigits c hc)
  · intro c hc
    rcases List.mem_cons.mp hc with rfl | hc
    · decide
    · exact toNat_lt_of_isDigit (hdigits c hc)

/-- The letter of an exponent may be written in either case. -/
theorem exponentLetter_of_sameLetter {c d : Char} (hc : c = 'e' ∨ c = 'E') (h : SameLetter c d) :
    d = 'e' ∨ d = 'E' := by
  have hlower : d.toLower = 'e' := by
    rw [← sameLetter_iff.mp h]
    rcases hc with rfl | rfl
    · decide
    · decide
  rw [← Char.toNat_inj, toNat_toLower] at hlower
  rw [← Char.toNat_inj, ← Char.toNat_inj]
  by_cases hupper : d.isUpper = true
  · rw [if_pos hupper] at hlower
    exact Or.inr (Nat.add_right_cancel hlower)
  · rw [if_neg hupper] at hlower
    exact Or.inl hlower

theorem WritesExponent.of_sameLetters {exponent : Int} (hwritten : WritesExponent a exponent)
    (h : SameLetters a b) : WritesExponent b exponent := by
  cases hwritten with
  | none =>
    rw [List.forall₂_nil_left_iff.mp h]
    exact .none
  | positive he hdigits =>
    rcases List.forall₂_cons_left_iff.mp h with ⟨e, rest, hletter, hrest, rfl⟩
    rw [← hdigits.eq_of_sameLetters hrest]
    exact .positive (exponentLetter_of_sameLetter he hletter) hdigits
  | negative he hne hdigits =>
    rcases List.forall₂_cons_left_iff.mp h with ⟨e, rest, hletter, hrest, rfl⟩
    rcases List.forall₂_cons_left_iff.mp hrest with ⟨minus, digits, hminus, hsame, rfl⟩
    rw [← hminus.eq_of_lt (by decide), ← eq_of_allDigits hdigits hsame]
    exact .negative (exponentLetter_of_sameLetter he hletter) hne hdigits

theorem WritesDecimal.of_sameLetters {d : Decimal} (hwritten : WritesDecimal a d)
    (h : SameLetters a b) : WritesDecimal b d := by
  cases hwritten with
  | whole hdigits hne htail =>
    rcases h.append_cases with ⟨digits, tail, rfl, hsame, hrest⟩
    rw [← eq_of_allDigits hdigits hsame]
    exact .whole hdigits hne (htail.of_sameLetters hrest)
  | point hwhole hpart hne htail =>
    rcases h.append_cases with ⟨whole, behind, rfl, hsameWhole, hbehind⟩
    rcases List.forall₂_cons_left_iff.mp hbehind with ⟨point, rest, hpoint, hrest, rfl⟩
    rcases SameLetters.append_cases hrest with ⟨part, tail, rfl, hsamePart, hsameTail⟩
    rw [← eq_of_allDigits hwhole hsameWhole, ← hpoint.eq_of_lt (by decide),
      ← eq_of_allDigits hpart hsamePart]
    exact .point hwhole hpart hne (htail.of_sameLetters hsameTail)

theorem WritesSize.of_sameLetters {x : Binary64} (hwritten : WritesSize a x)
    (h : SameLetters a b) : WritesSize b x := by
  rcases hwritten with ⟨⟨body, d, hbody, hd, hx⟩, hfinite, hpositive⟩
  refine ⟨?_, hfinite, hpositive⟩
  rcases hbody with rfl | rfl
  · exact ⟨b, d, Or.inl rfl, hd.of_sameLetters h, hx⟩
  · rcases List.forall₂_cons_left_iff.mp h with ⟨plus, rest, hplus, hrest, rfl⟩
    rw [← hplus.eq_of_lt (by decide)]
    exact ⟨rest, d, Or.inr rfl, hd.of_sameLetters hrest, hx⟩

end Numeral

/-! ## Errors that are alike -/

/-- The parts stand at the same place of their texts. -/
def SamePlace (a b part part' : List Char) : Prop :=
  ∃ before after before' after', a = before ++ part ++ after ∧ b = before' ++ part' ++ after' ∧
    before.length = before'.length

theorem SamePlace.refl (a b : List Char) : SamePlace a b a b :=
  ⟨[], [], [], [], by simp, by simp, rfl⟩

/-- A place within a place. -/
theorem SamePlace.trans {a b c d part part' : List Char} (h : SamePlace a b c d)
    (h' : SamePlace c d part part') : SamePlace a b part part' := by
  rcases h with ⟨before, after, before', after', rfl, rfl, hlength⟩
  rcases h' with ⟨front, back, front', back', rfl, rfl, hfront⟩
  refine ⟨before ++ front, back ++ after, before' ++ front', back' ++ after', ?_, ?_, ?_⟩
  · simp
  · simp
  · rw [List.length_append, List.length_append, hlength, hfront]

namespace TokenError

/-- The same error about another part of a token. -/
def requote (quote : String) : TokenError → TokenError
  | invalidPropertySyntax _ => invalidPropertySyntax quote
  | invalidSizeValue _ => invalidSizeValue quote
  | invalidRepeatValue _ => invalidRepeatValue quote
  | unknownColour _ => unknownColour quote
  | unknownProperty _ => unknownProperty quote
  | unknownCommand _ => unknownCommand quote
  | invalidSpaceValue _ => invalidSpaceValue quote

/-- Two texts fail in the same way, and each error quotes its own text, both at the same place. What
they quote differs at most in the case of letters. -/
structure Alike (a b : List Char) (e f : TokenError) : Prop where
  kind : f = e.requote f.quoted
  letters : SameLetters e.quoted.toList f.quoted.toList
  place : SamePlace a b e.quoted.toList f.quoted.toList

/-- Errors of one kind that quote such texts. -/
theorem alike_of_quotes {kind : String → TokenError}
    (hkind : ∀ quote other, (kind quote).requote other = kind other)
    (hquoted : ∀ quote, (kind quote).quoted = quote) {a b part part' : List Char}
    (hletters : SameLetters part part') (hplace : SamePlace a b part part') :
    Alike a b (kind (String.ofList part)) (kind (String.ofList part')) := by
  constructor
  · rw [hkind, hquoted]
  · rw [hquoted, hquoted, String.toList_ofList, String.toList_ofList]
    exact hletters
  · rw [hquoted, hquoted, String.toList_ofList, String.toList_ofList]
    exact hplace

/-- Errors about parts of texts are errors about the texts. -/
theorem Alike.within {a b c d : List Char} {e f : TokenError} (h : Alike c d e f)
    (hplace : SamePlace a b c d) : Alike a b e f where
  kind := h.kind
  letters := h.letters
  place := hplace.trans h.place

end TokenError

/-! ## Segments -/

namespace Property

variable {a b name value name' value' : List Char} {property : Property} {e : TokenError}

/-- The dash of a segment is found in the other, and what stands around it. -/
theorem IsPair.of_sameLetters (hpair : IsPair a name value) (h : SameLetters a b) :
    ∃ name' value', IsPair b name' value' ∧ SameLetters name name' ∧ SameLetters value value' := by
  have hpieces := h.splitOn '-' (by decide)
  rw [hpair.splitOn_eq] at hpieces
  rcases List.forall₂_cons_left_iff.mp hpieces with ⟨name', rest, hname, hrest, hsplit⟩
  rcases List.forall₂_cons_left_iff.mp hrest with ⟨value', last, hvalue, hlast, rfl⟩
  rw [List.forall₂_nil_left_iff.mp hlast] at hsplit
  exact ⟨name', value', isPair_of_splitOn_eq hsplit, hname, hvalue⟩

theorem count_of_sameLetters (hcount : a.count '-' ≠ 1) (h : SameLetters a b) :
    b.count '-' ≠ 1 := by
  intro hone
  rcases count_eq_one_iff.mp hone with ⟨name, value, hpair⟩
  rcases hpair.of_sameLetters h.symm with ⟨name', value', hpair', -⟩
  exact hcount (count_eq_one_iff.mpr ⟨name', value', hpair'⟩)

theorem Writes.of_sameLetters (hwritten : Writes name value property)
    (hname : SameLetters name name') (hvalue : SameLetters value value') :
    Writes name' value' property := by
  cases hwritten with
  | size hsize hwritten =>
    exact .size (hname.symm.trans hsize) (hwritten.of_sameLetters hvalue)
  | colour hcolour hknown hsame =>
    exact .colour (hname.symm.trans hcolour) hknown (hvalue.symm.trans hsame)
  | repetitions hrepeat hdigits hone hmax =>
    rw [← hdigits.eq_of_sameLetters hvalue]
    exact .repetitions (hname.symm.trans hrepeat) hdigits hone hmax

/-- The names of two such segments stand at the same place, and so do their values. -/
theorem IsPair.samePlace (hpair : IsPair a name value) (hpair' : IsPair b name' value')
    (hname : SameLetters name name') : SamePlace a b name name' ∧ SamePlace a b value value' := by
  constructor
  · refine ⟨[], '-' :: value, [], '-' :: value', ?_, ?_, rfl⟩
    · exact hpair.segment_eq
    · exact hpair'.segment_eq
  · refine ⟨name ++ ['-'], [], name' ++ ['-'], [], ?_, ?_, ?_⟩
    · rw [hpair.segment_eq]
      simp
    · rw [hpair'.segment_eq]
      simp
    · rw [List.length_append, List.length_append, hname.length_eq]

/-- A segment that is no property fails in any case of its letters, for the same reason. -/
theorem FailsWith.of_sameLetters (hfails : FailsWith a e) (h : SameLetters a b) :
    ∃ f, FailsWith b f ∧ TokenError.Alike a b e f := by
  cases hfails with
  | dashes hcount =>
    refine ⟨_, .dashes (count_of_sameLetters hcount h), ?_⟩
    exact TokenError.alike_of_quotes (fun _ _ => rfl) (fun _ => rfl) h (SamePlace.refl a b)
  | name hpair hsize hcolour hrepeat =>
    rcases hpair.of_sameLetters h with ⟨name', value', hpair', hname, -⟩
    refine ⟨_, .name hpair' (mt hname.trans hsize) (mt hname.trans hcolour)
      (mt hname.trans hrepeat), ?_⟩
    exact TokenError.alike_of_quotes (fun _ _ => rfl) (fun _ => rfl) hname
      (hpair.samePlace hpair' hname).1
  | size hpair hsize hvalue =>
    rcases hpair.of_sameLetters h with ⟨name', value', hpair', hname, hsame⟩
    refine ⟨_, .size hpair' (hname.symm.trans hsize) ?_, ?_⟩
    · intro x hx
      exact hvalue x (hx.of_sameLetters hsame.symm)
    · exact TokenError.alike_of_quotes (fun _ _ => rfl) (fun _ => rfl) hsame
        (hpair.samePlace hpair' hname).2
  | colour hpair hcolour hvalue =>
    rcases hpair.of_sameLetters h with ⟨name', value', hpair', hname, hsame⟩
    refine ⟨_, .colour hpair' (hname.symm.trans hcolour) ?_, ?_⟩
    · intro entry hentry hknown
      exact hvalue entry hentry (hsame.trans hknown)
    · exact TokenError.alike_of_quotes (fun _ _ => rfl) (fun _ => rfl) hsame
        (hpair.samePlace hpair' hname).2
  | repetitions hpair hrepeat hvalue =>
    rcases hpair.of_sameLetters h with ⟨name', value', hpair', hname, hsame⟩
    refine ⟨_, .repetitions hpair' (hname.symm.trans hrepeat) ?_, ?_⟩
    · intro digits hdigits
      rw [hdigits.eq_of_sameLetters hsame.symm] at hdigits
      exact hvalue digits hdigits
    · exact TokenError.alike_of_quotes (fun _ _ => rfl) (fun _ => rfl) hsame
        (hpair.samePlace hpair' hname).2

/-- Segments that differ only in the case of letters are the same property, or fail alike. -/
theorem parse_of_sameLetters (h : SameLetters a b) :
    (∃ property, parse a = .ok property ∧ parse b = .ok property) ∨
      ∃ e f, parse a = .error e ∧ parse b = .error f ∧ TokenError.Alike a b e f := by
  rcases writes_or_failsWith a with ⟨name, value, property, hpair, hwritten⟩ | ⟨e, hfails⟩
  · rcases hpair.of_sameLetters h with ⟨name', value', hpair', hname, hvalue⟩
    refine Or.inl ⟨property, parse_of_writes hpair hwritten, ?_⟩
    exact parse_of_writes hpair' (hwritten.of_sameLetters hname hvalue)
  · rcases hfails.of_sameLetters h with ⟨f, hfails', halike⟩
    exact Or.inr ⟨e, f, parse_of_failsWith hfails, parse_of_failsWith hfails', halike⟩

end Property

/-! ## Block tokens -/

/-- The first of joined pieces stands at the front of them. -/
theorem samePlace_joinWith_head (separator : Char) (piece piece' : List Char)
    (rest rest' : List (List Char)) :
    SamePlace (joinWith separator (piece :: rest)) (joinWith separator (piece' :: rest'))
      piece piece' := by
  have hfront : ∀ piece rest, ∃ after, joinWith separator (piece :: rest) = piece ++ after := by
    intro piece rest
    rcases eq_or_ne rest [] with rfl | hrest
    · exact ⟨[], by simp⟩
    · exact ⟨separator :: joinWith separator rest, joinWith_cons_of_ne_nil separator piece hrest⟩
  rcases hfront piece rest with ⟨after, hjoined⟩
  rcases hfront piece' rest' with ⟨after', hjoined'⟩
  exact ⟨[], after, [], after', hjoined, hjoined', rfl⟩

/-- The others stand behind it. -/
theorem samePlace_joinWith_tail (separator : Char) {piece piece' : List Char}
    (hpiece : SameLetters piece piece') {rest rest' : List (List Char)}
    (hrest : List.Forall₂ SameLetters rest rest') :
    SamePlace (joinWith separator (piece :: rest)) (joinWith separator (piece' :: rest'))
      (joinWith separator rest) (joinWith separator rest') := by
  cases hrest with
  | nil => exact ⟨piece, [], piece', [], by simp, by simp, hpiece.length_eq⟩
  | @cons next next' rest rest' =>
    refine ⟨piece ++ [separator], [], piece' ++ [separator], [], ?_, ?_, ?_⟩
    · simp
    · simp
    · rw [List.length_append, List.length_append, hpiece.length_eq]

namespace Token

/-- Segments that differ only in the case of letters give the same block, or the first that is no
property fails alike. -/
theorem applySegments_of_sameLetters {segments segments' : List (List Char)}
    (h : List.Forall₂ SameLetters segments segments') (spec : BlockSpec) :
    (∃ block, applySegments spec segments = .ok block ∧ applySegments spec segments' = .ok block) ∨
      ∃ e f, applySegments spec segments = .error e ∧ applySegments spec segments' = .error f ∧
        TokenError.Alike (joinWith '.' segments) (joinWith '.' segments') e f := by
  induction h generalizing spec with
  | nil => exact Or.inl ⟨spec, rfl, rfl⟩
  | @cons segment segment' rest rest' hsegment hrest ih =>
    unfold applySegments
    rcases Property.parse_of_sameLetters hsegment with
      ⟨property, hread, hread'⟩ | ⟨e, f, hread, hread', halike⟩
    · rw [hread, hread']
      rcases ih (property.apply spec) with hblock | ⟨e, f, he, hf, halike⟩
      · exact Or.inl hblock
      · exact Or.inr ⟨e, f, he, hf, halike.within (samePlace_joinWith_tail '.' hsegment hrest)⟩
    · rw [hread, hread']
      exact Or.inr ⟨e, f, rfl, rfl,
        halike.within (samePlace_joinWith_head '.' segment segment' rest rest')⟩

/-- What begins like a block token is read by its segments. -/
theorem parse_append_block (rest : List Char) :
    parse ("block.".toList ++ rest) =
      match applySegments {} ((trimEnd rest).splitOn '.') with
      | .ok spec => some (.block spec)
      | .error e => some (.mistake e.message) := by
  have htrim : trim ("block.".toList ++ rest) = "block".toList ++ '.' :: trimEnd rest := by
    have hword : ∀ c ∈ "lock.".toList, isBlank c = false := fun c hc =>
      (isGraphic_of_all (by decide) c hc).isBlank
    show trim ('b' :: ("lock.".toList ++ rest)) = _
    rw [trim_cons_of_not_isBlank (by decide), trimEnd_append_of_forall_not_isBlank hword]
    rfl
  have hspace : ∀ value, ¬ IsSpaceForm ("block".toList ++ '.' :: trimEnd rest) value := by
    rintro value ⟨htoken, -⟩
    cases (List.cons.inj htoken).1
  have hsplit : ("block".toList ++ '.' :: trimEnd rest).splitOn '.' =
      "block".toList :: (trimEnd rest).splitOn '.' :=
    List.splitOn_append_cons_self_of_not_mem (by decide) _
  have hread : parseTrimmed ("block".toList ++ '.' :: trimEnd rest) =
      match applySegments {} ((trimEnd rest).splitOn '.') with
      | .ok spec => .ok (.block spec)
      | .error e => .error e := by
    rw [parseTrimmed_of_not_isSpaceForm hspace]
    unfold parseKeyword
    rw [hsplit]
    rfl
  have hne : trim ("block.".toList ++ rest) ≠ [] := by
    rw [htrim]
    exact List.cons_ne_nil _ _
  rw [← htrim] at hread
  cases hsegments : applySegments {} ((trimEnd rest).splitOn '.') with
  | ok spec =>
    rw [hsegments] at hread
    exact parse_of_parseTrimmed_ok hne hread
  | error e =>
    rw [hsegments] at hread
    exact parse_of_parseTrimmed_error hne hread

/-- Tokens that begin like a block token and differ only in the case of letters. -/
theorem parse_of_sameLetters {rest rest' : List Char} (h : SameLetters rest rest') :
    (∃ spec, parse ("block.".toList ++ rest) = some (.block spec) ∧
      parse ("block.".toList ++ rest') = some (.block spec)) ∨
    ∃ e f, parse ("block.".toList ++ rest) = some (.mistake e.message) ∧
      parse ("block.".toList ++ rest') = some (.mistake f.message) ∧
      TokenError.Alike ("block.".toList ++ rest) ("block.".toList ++ rest') e f := by
  rw [parse_append_block, parse_append_block]
  have hsegments := h.trimEnd.splitOn '.' (by decide)
  rcases applySegments_of_sameLetters hsegments {} with
    ⟨spec, hblock, hblock'⟩ | ⟨e, f, he, hf, halike⟩
  · rw [hblock, hblock']
    exact Or.inl ⟨spec, rfl, rfl⟩
  · rw [he, hf]
    refine Or.inr ⟨e, f, rfl, rfl, ?_⟩
    simp only [List.intercalate_splitOn] at halike
    apply halike.within
    -- what is trimmed stands behind the keyword, and before the blanks at the end
    rcases exists_eq_trimEnd_append rest with ⟨tail, -, hrest⟩
    rcases exists_eq_trimEnd_append rest' with ⟨tail', -, hrest'⟩
    refine ⟨"block.".toList, tail, "block.".toList, tail', ?_, ?_, rfl⟩
    · rw [List.append_assoc, ← hrest]
    · rw [List.append_assoc, ← hrest']

/-- The case of ASCII letters is of no account. Segments that differ only in it are the same
property, or fail with the same kind of error, which quotes the same part of each as it is written.
So do tokens that begin like a block token. Nothing else is taken for a letter: a segment that is a
property is written in ASCII. -/
theorem reads_either_case :
    (∀ a b, SameLetters a b →
      (∃ property, Property.parse a = .ok property ∧ Property.parse b = .ok property) ∨
      ∃ e f, Property.parse a = .error e ∧ Property.parse b = .error f ∧
        TokenError.Alike a b e f) ∧
    (∀ a b, "block.".toList <+: a → "block.".toList <+: b → SameLetters a b →
      (∃ spec, parse a = some (.block spec) ∧ parse b = some (.block spec)) ∨
      ∃ e f, parse a = some (.mistake e.message) ∧ parse b = some (.mistake f.message) ∧
        TokenError.Alike a b e f) ∧
    ∀ segment property, Property.parse segment = .ok property → ∀ c ∈ segment, c.toNat < 128 := by
  refine ⟨fun a b => Property.parse_of_sameLetters, ?_, ?_⟩
  · rintro a b ⟨rest, rfl⟩ ⟨rest', rfl⟩ h
    exact parse_of_sameLetters (List.forall₂_drop 6 h)
  · intro segment property h c hc
    have hgraphic := Property.isGraphic_of_parse h c hc
    unfold IsGraphic at hgraphic
    omega

/-- Two ways to write one block. A Kelvin sign is no letter of a colour, although its lower case is
one. -/
theorem reads_either_case_pink :
    (∃ spec, parse "block.SIZE-2e1.color-Pink".toList = some (.block spec) ∧
      parse "block.size-2E1.Color-PINK".toList = some (.block spec)) ∧
    ∀ property, Property.parse ("color-pin".toList ++ [Char.ofNat 0x212A]) ≠ .ok property := by
  rcases reads_either_case with ⟨-, htokens, hascii⟩
  constructor
  · have hsame : SameLetters "block.SIZE-2e1.color-Pink".toList
        "block.size-2E1.Color-PINK".toList := sameLetters_iff.mpr (by decide)
    rcases htokens _ _ (by decide) (by decide) hsame with hblock | ⟨e, f, he, -⟩
    · exact hblock
    · have hmistake : (parse "block.SIZE-2e1.color-Pink".toList).bind Command.mistake? = none := by
        decide +kernel
      rw [he] at hmistake
      cases hmistake
  · intro property h
    exact absurd (hascii _ property h (Char.ofNat 0x212A) (by simp)) (by decide)

end Token

end BlockScript
