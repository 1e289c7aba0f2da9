import BlockScript.Proofs.Yaml.Scalars
import BlockScript.Yaml.Lexer

namespace BlockScript.Yaml

/-! # Written mappings

A mapping is written with its keys in the first column, each in front of a scalar, of `[]`, or of
items on lines of their own. `WritesEntries text entries` says that `text` is such a mapping, and
`mappingTokens entries` are its tokens. Every character of the text can be read
(`WritesEntries.isPrintable`), and lines begin with tokens (`WritesEntries.beginsLine`).
-/

variable {c : Char} {text line lines rest : List Char} {style : ScalarStyle}

/-! ## What is written -/

/-- The value of a key. -/
inductive Value where
  | scalar (style : ScalarStyle) (text : List Char)
  | list (items : List (ScalarStyle × List Char))

/-- The tokens of an item. -/
def itemTokens (item : ScalarStyle × List Char) : List Token :=
  [.blockEntry, .scalar item.1 item.2]

def Value.tokens : Value → List Token
  | .scalar style text => [.scalar style text]
  | .list [] => [.flowSequenceStart, .flowSequenceEnd]
  | .list items => items.flatMap itemTokens

/-- The tokens of a key and its value. -/
def entryTokens (entry : List Char × Value) : List Token :=
  .key :: .scalar .plain entry.1 :: .value :: entry.2.tokens

/-- The tokens of a mapping. -/
def mappingTokens (entries : List (List Char × Value)) : List Token :=
  .mappingStart :: entries.flatMap entryTokens ++ [.blockEnd]

/-- Items, each on a line of its own. -/
inductive WritesItems : List Char → List (ScalarStyle × List Char) → Prop where
  | nil : WritesItems [] []
  | cons {line lines : List Char} {style : ScalarStyle} {text : List Char}
      {items : List (ScalarStyle × List Char)} (hline : WritesScalar line style text)
      (hlines : WritesItems lines items) :
      WritesItems ('-' :: ' ' :: line ++ lines) ((style, text) :: items)

/-- A value, from behind the colon to the end of its last line. -/
inductive WritesValue : List Char → Value → Prop where
  | scalar {line : List Char} {style : ScalarStyle} {text : List Char}
      (hline : WritesScalar line style text) : WritesValue (' ' :: line) (.scalar style text)
  | empty : WritesValue [' ', '[', ']', '\n'] (.list [])
  | items {lines : List Char} {items : List (ScalarStyle × List Char)} (hne : items ≠ [])
      (hlines : WritesItems lines items) : WritesValue ('\n' :: lines) (.list items)

/-- A text that can be a key and need not be quoted. -/
structure IsKeyName (name : List Char) : Prop where
  ne_nil : name ≠ []
  allowsPlain : allowsPlain name = true
  short : utf8Length name ≤ PossibleKey.maxLength

/-- The entries of a mapping. -/
inductive WritesEntries : List Char → List (List Char × Value) → Prop where
  | nil : WritesEntries [] []
  | cons {name lines rest : List Char} {value : Value} {entries : List (List Char × Value)}
      (hname : IsKeyName name) (hvalue : WritesValue lines value)
      (hrest : WritesEntries rest entries) :
      WritesEntries (name ++ ':' :: lines ++ rest) ((name, value) :: entries)

/-! ## How it begins and goes on -/

/-- What begins a plain scalar is no white space, and no sign but three. -/
theorem beginsLine_of_allowsPlain (hne : text ≠ []) (h : allowsPlain text = true)
    (rest : List Char) : BeginsLine (text ++ rest) := by
  cases text with
  | nil => exact absurd rfl hne
  | cons c more =>
    rcases allowsPlain_cons_iff.mp h with ⟨⟨hspace, -⟩, hinline, hstart, -⟩
    have hc := hinline c List.mem_cons_self
    rintro x hx
    obtain rfl : c = x := Option.some.inj hx
    refine ⟨hc.2, isSpacing_eq_false hc hspace, ?_, ?_⟩
    · rintro rfl
      exact absurd (isIndicator_of_startsOtherwise hstart) (by simp [isIndicator])
    · rintro rfl
      exact absurd hc.1 (by decide)

theorem beginsLine_cons (hc : isBreak c = false ∧ isSpacing c = false ∧ c ≠ '#' ∧ c ≠ byteOrderMark)
    (rest : List Char) : BeginsLine (c :: rest) := by
  rintro x hx
  obtain rfl : c = x := Option.some.inj hx
  exact hc

theorem WritesScalar.beginsLine (h : WritesScalar line style text) (rest : List Char) :
    BeginsLine (line ++ rest) := by
  cases h with
  | plain hne h =>
    rw [List.append_assoc]
    exact beginsLine_of_allowsPlain hne h _
  | quoted double h =>
    rw [List.cons_append, List.cons_append]
    refine beginsLine_cons ?_ _
    cases double <;> decide

theorem WritesItems.beginsLine {items : List (ScalarStyle × List Char)}
    (h : WritesItems lines items) (hrest : BeginsLine rest) : BeginsLine (lines ++ rest) := by
  cases h with
  | nil => exact hrest
  | cons hline hlines => exact beginsLine_cons (by decide) _

theorem WritesEntries.beginsLine {entries : List (List Char × Value)}
    (h : WritesEntries text entries) : BeginsLine text := by
  cases h with
  | nil => exact beginsLine_nil
  | cons hname hvalue hrest =>
    rw [List.append_assoc]
    exact beginsLine_of_allowsPlain hname.ne_nil hname.allowsPlain _

theorem WritesValue.endsWord_append {value : Value} (h : WritesValue lines value)
    (rest : List Char) : endsWord (lines ++ rest) = true := by
  cases h <;> rfl

/-! ## The characters of a text -/

theorem isAllowed_of_isPrintable (h : isPrintable c = true) : isAllowed c = true := by
  simp only [isPrintable, isAllowed, Bool.or_eq_true, Bool.and_eq_true, beq_iff_eq, bne_iff_ne,
    decide_eq_true_eq] at h ⊢
  omega

theorem unifyBreaks_of_isPrintable (h : ∀ x ∈ text, isPrintable x = true) :
    unifyBreaks text = text := by
  induction text with
  | nil => rfl
  | cons c rest ih =>
    rcases List.forall_mem_cons.mp h with ⟨hc, hrest⟩
    have hreturn : c ≠ '\r' := by
      rintro rfl
      exact absurd hc (by decide)
    have hnext : (c == '\u0085') = false := by
      rw [beq_eq_false_iff_ne]
      rintro rfl
      exact absurd hc (by decide)
    rw [unifyBreaks, hnext, ih hrest]
    · rfl
    · exact hreturn

theorem WritesItems.isPrintable {items : List (ScalarStyle × List Char)}
    (h : WritesItems lines items) : ∀ x ∈ lines, isPrintable x = true := by
  induction h with
  | nil => exact fun x hx => absurd hx List.not_mem_nil
  | cons hline hlines ih =>
    intro x hx
    simp only [List.cons_append, List.mem_cons, List.mem_append] at hx
    rcases hx with rfl | rfl | hx | hx
    · decide
    · decide
    · exact hline.isPrintable x hx
    · exact ih x hx

theorem WritesValue.isPrintable {value : Value} (h : WritesValue lines value) :
    ∀ x ∈ lines, isPrintable x = true := by
  cases h with
  | scalar hline => exact List.forall_mem_cons.mpr ⟨by decide, hline.isPrintable⟩
  | empty => exact List.all_eq_true.mp (by decide)
  | items hne hlines => exact List.forall_mem_cons.mpr ⟨by decide, hlines.isPrintable⟩

theorem WritesEntries.isPrintable {entries : List (List Char × Value)}
    (h : WritesEntries text entries) : ∀ x ∈ text, isPrintable x = true := by
  induction h with
  | nil => exact fun x hx => absurd hx List.not_mem_nil
  | cons hname hvalue hrest ih =>
    intro x hx
    simp only [List.append_assoc, List.cons_append, List.mem_cons, List.mem_append] at hx
    rcases hx with hx | rfl | hx | hx
    · exact isPrintable_of_allowsPlain hname.allowsPlain x hx
    · decide
    · exact hvalue.isPrintable x hx
    · exact ih x hx

end BlockScript.Yaml
