import BlockScript.Proofs.Text.Split
import BlockScript.Proofs.Text.Trim
import BlockScript.Script.Token

namespace BlockScript

/-! # The grammar of tokens

What a trimmed token is read as depends on its shape alone. `space-` with a text without dashes is
the space form, and comes first; otherwise the keyword before the first point decides, and after
`block` the segments between the points. `TokenForm` lists the seven shapes. Every token has exactly
one of them, and each shape has its own answer.
-/

/-! ## Errors -/

namespace TokenError

/-- The words that the message of an error begins with. -/
def label : TokenError → String
  | invalidPropertySyntax _ => "invalid property syntax: "
  | invalidSizeValue _ => "invalid size value: "
  | invalidRepeatValue _ => "invalid repeat value: "
  | unknownColour _ => "unknown color: "
  | unknownProperty _ => "unknown property: "
  | unknownCommand _ => "unknown command: "
  | invalidSpaceValue _ => "invalid space value: "

/-- The part of the token that the message quotes. -/
def quoted : TokenError → String
  | invalidPropertySyntax segment => segment
  | invalidSizeValue value => value
  | invalidRepeatValue value => value
  | unknownColour name => name
  | unknownProperty name => name
  | unknownCommand keyword => keyword
  | invalidSpaceValue value => value

theorem message_eq (e : TokenError) : e.message = e.label ++ e.quoted := by
  cases e <;> rfl

/-- The first and the eleventh character of a message. No two kinds of error share both. -/
def marks : TokenError → Char × Char
  | invalidPropertySyntax _ => ('i', 'o')
  | invalidSizeValue _ => ('i', 'z')
  | invalidRepeatValue _ => ('i', 'p')
  | unknownColour _ => ('u', 'l')
  | unknownProperty _ => ('u', 'o')
  | unknownCommand _ => ('u', 'm')
  | invalidSpaceValue _ => ('i', 'a')

theorem marks_of_message (e : TokenError) :
    e.message.toList[0]? = some e.marks.1 ∧ e.message.toList[10]? = some e.marks.2 := by
  rw [message_eq, String.toList_append]
  cases e <;> simp [label, marks]

/-- A message has one cause. -/
theorem message_injective {e f : TokenError} (h : e.message = f.message) : e = f := by
  have hmarks : e.marks = f.marks := by
    obtain ⟨hfirst, hsecond⟩ := marks_of_message e
    rw [h, (marks_of_message f).1] at hfirst
    rw [h, (marks_of_message f).2] at hsecond
    exact (Prod.ext (Option.some.inj hfirst) (Option.some.inj hsecond)).symm
  rw [message_eq, message_eq] at h
  -- two kinds of error have different marks, and errors of one kind have the same label
  cases e <;> cases f <;> simp [marks] at hmarks
  all_goals simpa [label, quoted] using h

end TokenError

/-! ## Properties -/

namespace Property

/-- The segment is a property. -/
def Accepts (segment : List Char) : Prop := ∃ property, parse segment = .ok property

theorem accepts_or_rejected (segment : List Char) :
    Accepts segment ∨ ∃ e, parse segment = .error e := by
  cases h : parse segment with
  | ok property => exact Or.inl ⟨property, h⟩
  | error e => exact Or.inr ⟨e, rfl⟩

/-- Why a segment is no property: it does not have one dash, or its name or its value is wrong. -/
theorem error_of_parse {segment : List Char} {e : TokenError} (h : parse segment = .error e) :
    e = .invalidPropertySyntax (String.ofList segment) ∨
      ∃ name value, segment.splitOn '-' = [name, value] ∧
        (e = .invalidSizeValue (String.ofList value) ∨ e = .unknownColour (String.ofList value) ∨
          e = .invalidRepeatValue (String.ofList value) ∨
          e = .unknownProperty (String.ofList name)) := by
  unfold parse at h
  split at h
  · next name value hsplit =>
    refine Or.inr ⟨name, value, hsplit, ?_⟩
    simp only [parseSize, parseColour, parseRepeat] at h
    -- one case for each name, and one for all other names
    split at h
    · split at h <;> cases h
      exact Or.inl rfl
    split at h
    · split at h <;> cases h
      exact Or.inr (Or.inl rfl)
    split at h
    · split at h <;> cases h
      exact Or.inr (Or.inr (Or.inl rfl))
    · cases h
      exact Or.inr (Or.inr (Or.inr rfl))
  · cases h
    exact Or.inl rfl

/-- What the error of a segment quotes is a part of the segment. -/
theorem quoted_infix_of_parse {segment : List Char} {e : TokenError}
    (h : parse segment = .error e) : e.quoted.toList <:+: segment := by
  rcases error_of_parse h with rfl | ⟨name, value, hsplit, he⟩
  · simp [TokenError.quoted]
  · have hname : name <:+: segment := infix_of_mem_splitOn (by rw [hsplit]; simp)
    have hvalue : value <:+: segment := infix_of_mem_splitOn (by rw [hsplit]; simp)
    rcases he with rfl | rfl | rfl | rfl <;> simpa [TokenError.quoted]

/-- A segment never fails in the ways that a whole token does. -/
theorem ne_of_parse {segment : List Char} {e : TokenError} (h : parse segment = .error e) :
    (∀ value, e ≠ .invalidSpaceValue value) ∧ ∀ keyword, e ≠ .unknownCommand keyword := by
  rcases error_of_parse h with rfl | ⟨name, value, -, rfl | rfl | rfl | rfl⟩ <;> simp

end Property

/-! ## Parts of a token -/

namespace Token

/-- The text before the first point. -/
def keyword (token : List Char) : List Char := token.takeWhile (· != '.')

/-- The texts between the points behind the keyword. -/
def segments (token : List Char) : List (List Char) := (token.splitOn '.').tail

/-- The token is `space-` and a value without dashes. -/
def IsSpaceForm (token value : List Char) : Prop :=
  token = "space-".toList ++ value ∧ '-' ∉ value

/-- The first segment that is no property fails with `e`. -/
def FirstRejected (segments : List (List Char)) (e : TokenError) : Prop :=
  ∃ accepted rejected rest, segments = accepted ++ rejected :: rest ∧
    (∀ segment ∈ accepted, Property.Accepts segment) ∧ Property.parse rejected = .error e

theorem keyword_isPrefix (token : List Char) : keyword token <+: token :=
  List.takeWhile_prefix ..

theorem infix_of_mem_segments {token segment : List Char} (h : segment ∈ segments token) :
    segment <:+: token :=
  infix_of_mem_splitOn (List.mem_of_mem_tail h)

/-- The space form is what has one dash, behind the word `space`. -/
theorem isSpaceForm_iff {token value : List Char} :
    IsSpaceForm token value ↔ token.splitOn '-' = ["space".toList, value] := by
  have hword : '-' ∉ "space".toList := by decide
  constructor
  · rintro ⟨htoken, hvalue⟩
    have hcut : token = "space".toList ++ '-' :: value := by simpa using htoken
    rw [hcut, List.splitOn_append_cons_self_of_not_mem hword, List.splitOn_eq_singleton hvalue]
  · intro h
    have hvalue : value ∈ token.splitOn '-' := by rw [h]; simp
    have htoken : ['-'].intercalate (token.splitOn '-') = token := List.intercalate_splitOn '-'
    refine ⟨?_, not_mem_of_mem_splitOn hvalue⟩
    rw [← htoken, h]
    simp

/-- Behind the prefix of the space form there is no other word of the grammar. -/
theorem exists_keyword_space (value : List Char) :
    ∃ rest, keyword ("space-".toList ++ value) = 's' :: rest := by
  simp [keyword]

/-! ## Segments -/

theorem applySegments_of_accepted {segments : List (List Char)} {properties : List Property}
    (h : segments.map Property.parse = properties.map .ok) (spec : BlockSpec) :
    applySegments spec segments = .ok (properties.foldl Property.apply spec) := by
  induction segments generalizing properties spec with
  | nil =>
    cases properties with
    | nil => rfl
    | cons property properties => cases h
  | cons segment segments ih =>
    cases properties with
    | nil => cases h
    | cons property properties =>
      simp only [List.map_cons, List.cons.injEq] at h
      rw [applySegments, h.1, List.foldl_cons]
      exact ih h.2 (property.apply spec)

theorem applySegments_of_firstRejected {segments : List (List Char)} {e : TokenError}
    (h : FirstRejected segments e) (spec : BlockSpec) : applySegments spec segments = .error e := by
  obtain ⟨accepted, rejected, rest, rfl, haccepted, hrejected⟩ := h
  induction accepted generalizing spec with
  | nil => rw [List.nil_append, applySegments, hrejected]
  | cons segment accepted ih =>
    obtain ⟨property, hproperty⟩ := haccepted segment (List.mem_cons_self ..)
    rw [List.cons_append, applySegments, hproperty]
    exact ih (property.apply spec) fun segment h => haccepted segment (List.mem_cons_of_mem _ h)

/-- Either every segment is a property, or there is a first one that is not. -/
theorem accepted_or_firstRejected (segments : List (List Char)) :
    (∃ properties : List Property, segments.map Property.parse = properties.map .ok) ∨
      ∃ e, FirstRejected segments e := by
  induction segments with
  | nil => exact Or.inl ⟨[], rfl⟩
  | cons segment segments ih =>
    rcases Property.accepts_or_rejected segment with ⟨property, hproperty⟩ | ⟨e, he⟩
    -- an accepted segment is put in front of what the others come to
    · rcases ih with ⟨properties, hproperties⟩ | ⟨e, accepted, rejected, rest, rfl, hacc, hrej⟩
      · exact Or.inl ⟨property :: properties, by simp [hproperty, hproperties]⟩
      · refine Or.inr ⟨e, segment :: accepted, rejected, rest, rfl, ?_, hrej⟩
        intro s hs
        rcases List.mem_cons.mp hs with rfl | hs
        · exact ⟨property, hproperty⟩
        · exact hacc s hs
    · exact Or.inr ⟨e, [], segment, segments, rfl, by simp, he⟩

theorem forall_accepts_iff {segments : List (List Char)} :
    (∀ segment ∈ segments, Property.Accepts segment) ↔
      ∃ properties : List Property, segments.map Property.parse = properties.map .ok := by
  constructor
  · intro h
    rcases accepted_or_firstRejected segments with hproperties | ⟨e, hfirst⟩
    · exact hproperties
    · obtain ⟨accepted, rejected, rest, rfl, -, hrej⟩ := hfirst
      obtain ⟨property, hproperty⟩ := h rejected (by simp)
      rw [hrej] at hproperty
      cases hproperty
  · rintro ⟨properties, h⟩ segment hsegment
    have hmem : Property.parse segment ∈ properties.map .ok := by
      rw [← h]
      exact List.mem_map_of_mem hsegment
    obtain ⟨property, -, hproperty⟩ := List.mem_map.mp hmem
    exact ⟨property, hproperty.symm⟩

/-- A segment is rejected exactly when there is a first one. -/
theorem exists_firstRejected_iff {segments : List (List Char)} :
    (∃ e, FirstRejected segments e) ↔ ∃ segment ∈ segments, ¬ Property.Accepts segment := by
  constructor
  · rintro ⟨e, accepted, rejected, rest, rfl, -, hrej⟩
    refine ⟨rejected, by simp, ?_⟩
    rintro ⟨property, hproperty⟩
    rw [hrej] at hproperty
    cases hproperty
  · rintro ⟨segment, hsegment, hrejected⟩
    rcases accepted_or_firstRejected segments with hproperties | h
    · exact absurd (forall_accepts_iff.mpr hproperties segment hsegment) hrejected
    · exact h

/-! ## Reading a trimmed token -/

theorem parseTrimmed_of_isSpaceForm {token value : List Char} (h : IsSpaceForm token value) :
    parseTrimmed token =
      match Numeral.size? value with
      | some size => .ok (.space size)
      | none => .error (.invalidSpaceValue (String.ofList value)) := by
  rw [parseTrimmed, isSpaceForm_iff.mp h]
  exact if_pos rfl

theorem parseTrimmed_of_not_isSpaceForm {token : List Char}
    (h : ∀ value, ¬ IsSpaceForm token value) : parseTrimmed token = parseKeyword token := by
  unfold parseTrimmed
  split
  · next word value hsplit =>
    have hword : word ≠ "space".toList := by
      rintro rfl
      exact h value (isSpaceForm_iff.mpr hsplit)
    rw [if_neg hword]
  · rfl

theorem parseKeyword_eq (token : List Char) :
    parseKeyword token =
      if keyword token = "end".toList then .ok .newline
      else if keyword token = "block".toList then
        match applySegments {} (segments token) with
        | .ok spec => .ok (.block spec)
        | .error e => .error e
      else .error (.unknownCommand (String.ofList (keyword token))) := by
  rw [parseKeyword, splitOn_eq_takeWhile_cons]
  rfl

/-! ## Whole tokens -/

theorem parse_of_trim_eq_nil {token : List Char} (h : trim token = []) : parse token = none := by
  rw [parse, h]

theorem parse_of_parseTrimmed_ok {token : List Char} {command : Command} (hne : trim token ≠ [])
    (h : parseTrimmed (trim token) = .ok command) : parse token = some command := by
  unfold parse
  split
  · next hnil => exact absurd hnil hne
  · rw [h]

theorem parse_of_parseTrimmed_error {token : List Char} {e : TokenError} (hne : trim token ≠ [])
    (h : parseTrimmed (trim token) = .error e) : parse token = some (.mistake e.message) := by
  unfold parse
  split
  · next hnil => exact absurd hnil hne
  · rw [h]

/-- Only what is left after trimming counts. -/
@[simp] theorem parse_trim (token : List Char) : parse (trim token) = parse token := by
  rw [parse, parse, trim_trim]

/-- Every token that is not blank asks for something. -/
theorem parse_eq_none_iff {token : List Char} : parse token = none ↔ trim token = [] := by
  constructor
  · intro h
    by_contra hne
    cases hread : parseTrimmed (trim token) with
    | ok command =>
      rw [parse_of_parseTrimmed_ok hne hread] at h
      cases h
    | error e =>
      rw [parse_of_parseTrimmed_error hne hread] at h
      cases h
  · exact parse_of_trim_eq_nil

end Token

/-! ## The seven shapes -/

/-- The shapes of a trimmed token, with what a token of the shape holds. -/
inductive TokenForm where
  | blank
  | lineEnd
  | space (value : List Char) (size : Binary64)
  | badSpace (value : List Char)
  | block (properties : List Property)
  | badBlock (e : TokenError)
  | unknown

namespace TokenForm

open Token

/-- What makes a trimmed token one of a shape. -/
def Fits (token : List Char) : TokenForm → Prop
  | blank => token = []
  | lineEnd => keyword token = "end".toList
  | space value size => IsSpaceForm token value ∧ Numeral.size? value = some size
  | badSpace value => IsSpaceForm token value ∧ Numeral.size? value = none
  | block properties =>
    keyword token = "block".toList ∧ (segments token).map Property.parse = properties.map .ok
  | badBlock e => keyword token = "block".toList ∧ FirstRejected (segments token) e
  | unknown =>
    token ≠ [] ∧ keyword token ≠ "end".toList ∧ keyword token ≠ "block".toList ∧
      ∀ value, ¬ IsSpaceForm token value

/-- What a trimmed token of a shape is read as. -/
def answer (token : List Char) : TokenForm → Option Command
  | blank => none
  | lineEnd => some .newline
  | space _ size => some (.space size)
  | badSpace value => some (.mistake (TokenError.invalidSpaceValue (String.ofList value)).message)
  | block properties => some (.block (properties.foldl Property.apply {}))
  | badBlock e => some (.mistake e.message)
  | unknown => some (.mistake (TokenError.unknownCommand (String.ofList (keyword token))).message)

/-- Every token has a shape. -/
theorem exists_fits (token : List Char) : ∃ form : TokenForm, form.Fits token := by
  by_cases hblank : token = []
  · exact ⟨blank, hblank⟩
  -- the space form comes before the keyword
  by_cases hspace : ∃ value, IsSpaceForm token value
  · obtain ⟨value, hvalue⟩ := hspace
    cases hsize : Numeral.size? value with
    | some size => exact ⟨space value size, hvalue, hsize⟩
    | none => exact ⟨badSpace value, hvalue, hsize⟩
  by_cases hend : keyword token = "end".toList
  · exact ⟨lineEnd, hend⟩
  by_cases hblock : keyword token = "block".toList
  · rcases accepted_or_firstRejected (segments token) with ⟨properties, h⟩ | ⟨e, h⟩
    · exact ⟨block properties, hblock, h⟩
    · exact ⟨badBlock e, hblock, h⟩
  · exact ⟨unknown, hblank, hend, hblock, fun value h => hspace ⟨value, h⟩⟩

/-- A keyword that is a word of the grammar belongs to no blank token and to no space form. -/
theorem of_keyword_eq {token word : List Char} (h : keyword token = word) (hne : word ≠ [])
    (hs : word.head? ≠ some 's') : token ≠ [] ∧ ∀ value, ¬ IsSpaceForm token value := by
  constructor
  · rintro rfl
    exact hne h.symm
  · intro value hvalue
    -- the keyword of a space form begins with the letter of `space`
    obtain ⟨rest, hrest⟩ := exists_keyword_space value
    rw [← h, hvalue.1, hrest] at hs
    exact hs rfl

/-- A token is read as its shape says. -/
theorem parse_of_fits {token : List Char} (form : TokenForm) (h : form.Fits (trim token)) :
    parse token = form.answer (trim token) := by
  cases form with
  | blank => exact parse_of_trim_eq_nil h
  | lineEnd =>
    have hend : keyword (trim token) = "end".toList := h
    obtain ⟨hne, hspace⟩ := of_keyword_eq hend (by decide) (by decide)
    apply parse_of_parseTrimmed_ok hne
    rw [parseTrimmed_of_not_isSpaceForm hspace, parseKeyword_eq, if_pos hend]
  | space value size =>
    have hne : trim token ≠ [] := by
      rw [h.1.1]
      simp
    apply parse_of_parseTrimmed_ok hne
    rw [parseTrimmed_of_isSpaceForm h.1, h.2]
  | badSpace value =>
    have hne : trim token ≠ [] := by
      rw [h.1.1]
      simp
    apply parse_of_parseTrimmed_error hne
    rw [parseTrimmed_of_isSpaceForm h.1, h.2]
  | block properties =>
    obtain ⟨hne, hspace⟩ := of_keyword_eq h.1 (by decide) (by decide)
    have hend : keyword (trim token) ≠ "end".toList := by
      rw [h.1]
      decide
    apply parse_of_parseTrimmed_ok hne
    rw [parseTrimmed_of_not_isSpaceForm hspace, parseKeyword_eq, if_neg hend, if_pos h.1,
      applySegments_of_accepted h.2]
  | badBlock e =>
    obtain ⟨hne, hspace⟩ := of_keyword_eq h.1 (by decide) (by decide)
    have hend : keyword (trim token) ≠ "end".toList := by
      rw [h.1]
      decide
    apply parse_of_parseTrimmed_error hne
    rw [parseTrimmed_of_not_isSpaceForm hspace, parseKeyword_eq, if_neg hend, if_pos h.1,
      applySegments_of_firstRejected h.2]
  | unknown =>
    obtain ⟨hne, hend, hblock, hspace⟩ := h
    apply parse_of_parseTrimmed_error hne
    rw [parseTrimmed_of_not_isSpaceForm hspace, parseKeyword_eq, if_neg hend, if_neg hblock]

/-- What a token is read as comes from its shape. -/
theorem exists_fits_of_parse {token : List Char} {read : Option Command}
    (h : parse token = read) :
    ∃ form : TokenForm, form.Fits (trim token) ∧ form.answer (trim token) = read := by
  obtain ⟨form, hfits⟩ := exists_fits (trim token)
  exact ⟨form, hfits, (parse_of_fits form hfits).symm.trans h⟩

/-- A segment's error is no error of a whole token. -/
theorem ne_of_firstRejected {segments : List (List Char)} {e : TokenError}
    (h : FirstRejected segments e) :
    (∀ value, e ≠ .invalidSpaceValue value) ∧ ∀ keyword, e ≠ .unknownCommand keyword := by
  obtain ⟨accepted, rejected, rest, -, -, hrejected⟩ := h
  exact Property.ne_of_parse hrejected

/-- No token has two shapes: they would be read differently, or hold the same. -/
theorem fits_unique {token : List Char} {form other : TokenForm} (h : form.Fits (trim token))
    (hother : other.Fits (trim token)) : form = other := by
  have hanswer : form.answer (trim token) = other.answer (trim token) := by
    rw [← parse_of_fits form h, ← parse_of_fits other hother]
  cases form with
  | blank => cases other <;> simp [answer] at hanswer ⊢
  | lineEnd => cases other <;> simp [answer] at hanswer ⊢
  | space value size =>
    cases other <;> simp [answer] at hanswer
    next value' size' =>
      have hvalue : value = value' := List.append_cancel_left (h.1.1.symm.trans hother.1.1)
      rw [hvalue, hanswer]
  | badSpace value =>
    -- three shapes are answered with a message, and no two with the same
    cases other <;> simp [answer] at hanswer
    · next value' =>
      have hvalue : value = value' := List.append_cancel_left (h.1.1.symm.trans hother.1.1)
      rw [hvalue]
    · exact absurd (TokenError.message_injective hanswer).symm ((ne_of_firstRejected hother.2).1 _)
    · cases TokenError.message_injective hanswer
  | block properties =>
    cases other <;> simp [answer] at hanswer
    next properties' =>
      have hmap := h.2.symm.trans hother.2
      have hproperties : properties = properties' :=
        (List.map_inj_right fun _ _ heq => Except.ok.inj heq).mp hmap
      rw [hproperties]
  | badBlock e =>
    cases other <;> simp [answer] at hanswer
    · exact absurd (TokenError.message_injective hanswer) ((ne_of_firstRejected h.2).1 _)
    · next e' => rw [TokenError.message_injective hanswer]
    · exact absurd (TokenError.message_injective hanswer) ((ne_of_firstRejected h.2).2 _)
  | unknown =>
    -- unknown tokens have one keyword, so only the kind of the error can differ
    cases other <;> simp [answer] at hanswer
    · cases TokenError.message_injective hanswer
    · exact absurd (TokenError.message_injective hanswer).symm ((ne_of_firstRejected hother.2).2 _)
    · rfl

end TokenForm

/-! ## Answers and shapes -/

namespace Token

open TokenForm

theorem parse_eq_newline_iff {token : List Char} :
    parse token = some .newline ↔ keyword (trim token) = "end".toList := by
  constructor
  · intro h
    obtain ⟨form, hfits, hanswer⟩ := exists_fits_of_parse h
    cases form <;> simp [answer] at hanswer
    exact hfits
  · intro h
    exact parse_of_fits .lineEnd h

theorem parse_eq_space_iff {token : List Char} {size : Binary64} :
    parse token = some (.space size) ↔
      ∃ value, IsSpaceForm (trim token) value ∧ Numeral.size? value = some size := by
  constructor
  · intro h
    obtain ⟨form, hfits, hanswer⟩ := exists_fits_of_parse h
    cases form <;> simp [answer] at hanswer
    next value size' => exact ⟨value, hfits.1, hanswer ▸ hfits.2⟩
  · rintro ⟨value, h⟩
    exact parse_of_fits (.space value size) h

theorem parse_eq_block_iff {token : List Char} {spec : BlockSpec} :
    parse token = some (.block spec) ↔
      keyword (trim token) = "block".toList ∧
        ∃ properties : List Property,
          (segments (trim token)).map Property.parse = properties.map .ok ∧
            spec = properties.foldl Property.apply {} := by
  constructor
  · intro h
    obtain ⟨form, hfits, hanswer⟩ := exists_fits_of_parse h
    cases form <;> simp [answer] at hanswer
    next properties => exact ⟨hfits.1, properties, hfits.2, hanswer.symm⟩
  · rintro ⟨hblock, properties, hproperties, rfl⟩
    exact parse_of_fits (.block properties) ⟨hblock, hproperties⟩

/-! ## Mistakes -/

/-- Why a trimmed token is not understood. -/
def FailsWith (token : List Char) (e : TokenError) : Prop :=
  (∃ value, e = .invalidSpaceValue (String.ofList value) ∧ (badSpace value).Fits token) ∨
    (badBlock e).Fits token ∨
    e = .unknownCommand (String.ofList (keyword token)) ∧ unknown.Fits token

/-- Only the last three shapes are mistakes. -/
theorem exists_failsWith_of_parse {token : List Char} {message : String}
    (h : parse token = some (.mistake message)) :
    ∃ e : TokenError, message = e.message ∧ FailsWith (trim token) e := by
  obtain ⟨form, hfits, hanswer⟩ := exists_fits_of_parse h
  cases form <;>
    simp only [answer, reduceCtorEq, Option.some.injEq, Command.mistake.injEq] at hanswer
  · next value => exact ⟨_, hanswer.symm, Or.inl ⟨value, rfl, hfits⟩⟩
  · next e => exact ⟨e, hanswer.symm, Or.inr (Or.inl hfits)⟩
  · exact ⟨_, hanswer.symm, Or.inr (Or.inr ⟨rfl, hfits⟩)⟩

theorem parse_of_failsWith {token : List Char} {e : TokenError}
    (h : FailsWith (trim token) e) : parse token = some (.mistake e.message) := by
  rcases h with ⟨value, rfl, hfits⟩ | hfits | ⟨rfl, hfits⟩
  · exact parse_of_fits (.badSpace value) hfits
  · exact parse_of_fits (.badBlock e) hfits
  · exact parse_of_fits .unknown hfits

/-- A message tells exactly why the token is not understood. -/
theorem parse_eq_mistake_iff {token : List Char} {e : TokenError} :
    parse token = some (.mistake e.message) ↔ FailsWith (trim token) e := by
  constructor
  · intro h
    obtain ⟨f, hmessage, hf⟩ := exists_failsWith_of_parse h
    rw [TokenError.message_injective hmessage]
    exact hf
  · exact parse_of_failsWith

theorem parse_eq_badSpace_iff {token value : List Char} :
    parse token = some (.mistake (TokenError.invalidSpaceValue (String.ofList value)).message) ↔
      IsSpaceForm (trim token) value ∧ Numeral.size? value = none := by
  rw [parse_eq_mistake_iff]
  constructor
  · rintro (⟨value', hvalue, hfits⟩ | hfits | ⟨hunknown, -⟩)
    · rw [String.ofList_injective (TokenError.invalidSpaceValue.inj hvalue)]
      exact hfits
    · exact absurd rfl ((ne_of_firstRejected hfits.2).1 _)
    · cases hunknown
  · intro h
    exact Or.inl ⟨value, rfl, h⟩

/-- The first rejected segment is told about exactly when the token is a block. -/
theorem parse_eq_badBlock_iff {token : List Char} {e : TokenError}
    (he : FirstRejected (segments (trim token)) e) :
    parse token = some (.mistake e.message) ↔ keyword (trim token) = "block".toList := by
  rw [parse_eq_mistake_iff]
  constructor
  · rintro (⟨value, rfl, -⟩ | hfits | ⟨rfl, -⟩)
    · exact absurd rfl ((ne_of_firstRejected he).1 _)
    · exact hfits.1
    · exact absurd rfl ((ne_of_firstRejected he).2 _)
  · intro h
    exact Or.inr (Or.inl ⟨h, he⟩)

theorem parse_eq_unknown_iff {token : List Char} {name : String} :
    parse token = some (.mistake (TokenError.unknownCommand name).message) ↔
      name = String.ofList (keyword (trim token)) ∧ TokenForm.unknown.Fits (trim token) := by
  rw [parse_eq_mistake_iff]
  constructor
  · rintro (⟨value, hspace, -⟩ | hfits | ⟨hname, hfits⟩)
    · cases hspace
    · exact absurd rfl ((ne_of_firstRejected hfits.2).2 _)
    · exact ⟨TokenError.unknownCommand.inj hname, hfits⟩
  · rintro ⟨rfl, h⟩
    exact Or.inr (Or.inr ⟨rfl, h⟩)

/-- An error quotes a contiguous part of the token, as written. -/
theorem quoted_infix_of_failsWith {token : List Char} {e : TokenError} (h : FailsWith token e) :
    e.quoted.toList <:+: token := by
  rcases h with ⟨value, rfl, hfits⟩ | hfits | ⟨rfl, -⟩
  -- the value ends the token, the segment stands in it, and the keyword begins it
  · have hsuffix : value <:+ token := ⟨"space-".toList, hfits.1.1.symm⟩
    simpa [TokenError.quoted] using hsuffix.isInfix
  · obtain ⟨accepted, rejected, rest, hsegments, -, hrejected⟩ := hfits.2
    have hsegment : rejected <:+: token := infix_of_mem_segments (by rw [hsegments]; simp)
    exact (Property.quoted_infix_of_parse hrejected).trans hsegment
  · have hkeyword := keyword_isPrefix token
    simpa [TokenError.quoted] using hkeyword.isInfix

/-- A further dash makes a token that begins like the space form an unknown command. -/
theorem unknown_of_second_dash {token rest : List Char} (h : token = "space-".toList ++ rest)
    (hdash : '-' ∈ rest) : TokenForm.unknown.Fits token := by
  obtain ⟨tail, htail⟩ := exists_keyword_space rest
  rw [← h] at htail
  refine ⟨?_, ?_, ?_, ?_⟩
  · rw [h]
    simp
  · rw [htail]
    simp
  · rw [htail]
    simp
  · rintro value ⟨htoken, hvalue⟩
    have hrest : value = rest := List.append_cancel_left (htoken.symm.trans h)
    exact hvalue (hrest ▸ hdash)

/-- What a token is read as, for every token: it has exactly one shape, and each answer is given to
the tokens of its shape and to no others. -/
theorem parse_eq_iff_form (token : List Char) :
    (∃! form : TokenForm, form.Fits (trim token)) ∧
    (parse token = none ↔ trim token = []) ∧
    (parse token = some .newline ↔ keyword (trim token) = "end".toList) ∧
    (∀ size, parse token = some (.space size) ↔
      ∃ value, IsSpaceForm (trim token) value ∧ Numeral.size? value = some size) ∧
    (∀ value, parse token = some (.mistake ("invalid space value: " ++ String.ofList value)) ↔
      IsSpaceForm (trim token) value ∧ Numeral.size? value = none) ∧
    ((∃ spec, parse token = some (.block spec)) ↔
      keyword (trim token) = "block".toList ∧
        ∀ segment ∈ segments (trim token), Property.Accepts segment) ∧
    ((∃ e, FirstRejected (segments (trim token)) e ∧
        parse token = some (.mistake e.message)) ↔
      keyword (trim token) = "block".toList ∧
        ∃ segment ∈ segments (trim token), ¬ Property.Accepts segment) ∧
    (∀ name, parse token = some (.mistake ("unknown command: " ++ name)) ↔
      name = String.ofList (keyword (trim token)) ∧ TokenForm.unknown.Fits (trim token)) ∧
    (∀ rest, trim token = "space-".toList ++ rest → '-' ∈ rest →
      parse token =
        some (.mistake ("unknown command: " ++ String.ofList (keyword (trim token))))) ∧
    (∀ message, parse token = some (.mistake message) →
      ∃ e : TokenError, message = e.message ∧ e.quoted.toList <:+: trim token) := by
  refine ⟨?_, parse_eq_none_iff, parse_eq_newline_iff, fun _ => parse_eq_space_iff,
    fun _ => parse_eq_badSpace_iff, ?_, ?_, fun _ => parse_eq_unknown_iff, ?_, ?_⟩
  · obtain ⟨form, h⟩ := exists_fits (trim token)
    exact ⟨form, h, fun other hother => fits_unique hother h⟩
  · rw [forall_accepts_iff]
    constructor
    · rintro ⟨spec, h⟩
      obtain ⟨hblock, properties, hproperties, -⟩ := parse_eq_block_iff.mp h
      exact ⟨hblock, properties, hproperties⟩
    · rintro ⟨hblock, properties, hproperties⟩
      exact ⟨_, parse_eq_block_iff.mpr ⟨hblock, properties, hproperties, rfl⟩⟩
  · rw [← exists_firstRejected_iff]
    constructor
    · rintro ⟨e, he, h⟩
      exact ⟨(parse_eq_badBlock_iff he).mp h, e, he⟩
    · rintro ⟨hblock, e, he⟩
      exact ⟨e, he, (parse_eq_badBlock_iff he).mpr hblock⟩
  · intro rest htoken hdash
    exact parse_eq_unknown_iff.mpr ⟨rfl, unknown_of_second_dash htoken hdash⟩
  · intro message h
    obtain ⟨e, hmessage, he⟩ := exists_failsWith_of_parse h
    exact ⟨e, hmessage, quoted_infix_of_failsWith he⟩

end Token

end BlockScript
