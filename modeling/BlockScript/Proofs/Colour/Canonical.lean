import BlockScript.Proofs.Colour.Hexadecimal

namespace BlockScript

/-! # The canonical text of a colour

The spellings of a colour differ in the blanks around them, in the `#`, in the case of their digits,
in how often a digit is written and in whether a full alpha is. `Colour.canonical` settles each of
these on the text alone, without reading it. What it gives for a text that is read as a colour is
the text that the colour is written as (`Colour.Writes.chars_eq`), so two such texts are spellings
of one colour exactly when they have one canonical form.
-/

/-- A digit is written in upper case. -/
theorem WritesDigit.hexDigit_eq {c : Char} {value : Nat} (h : WritesDigit c value) :
    hexDigit value = c.toUpper := by
  have htable : ∀ code < 128, ∀ value < 16, WritesDigit (Char.ofNat code) value →
      hexDigit value = (Char.ofNat code).toUpper := by decide +kernel
  rcases exists_code h.isHexDigit.lt with ⟨code, hcode, rfl⟩
  exact htable code hcode value h.lt h

namespace Colour

/-- Digits in upper case, each of three twice, and an alpha of `FF` left out. -/
def canonicalDigits (body : List Char) : List Char :=
  let digits := body.map Char.toUpper
  if digits.length = 3 then digits.flatMap fun digit => [digit, digit]
  else if digits.drop 6 = ['F', 'F'] then digits.take 6
  else digits

/-- The canonical form of a text: its canonical digits behind a `#`. -/
def canonical (text : String) : String :=
  String.ofList ('#' :: canonicalDigits (withoutHash (trim text.toList)))

theorem WritesByte.hexPair_eq {high low : Char} {byte : UInt8} (h : WritesByte high low byte) :
    hexPair byte = [high.toUpper, low.toUpper] := by
  rcases h with ⟨upper, lower, hhigh, hlow, hbyte⟩
  have hlt := hlow.lt
  have hdiv : byte.toNat / 16 = upper := by omega
  have hmod : byte.toNat % 16 = lower := by omega
  rw [hexPair, hdiv, hmod, hhigh.hexDigit_eq, hlow.hexDigit_eq]

/-- No two bytes are written alike. -/
theorem hexPair_injective {byte byte' : UInt8} (h : hexPair byte = hexPair byte') :
    byte = byte' := by
  have hread := mapM_hexPair_append byte (List.mapM_nil (m := Option))
  rw [h, mapM_hexPair_append byte' (List.mapM_nil (m := Option)), Option.some.injEq] at hread
  simp only [List.cons.injEq, and_true] at hread
  rw [← byteOf_hexPair byte, ← byteOf_hexPair byte', hread.1, hread.2]

theorem hexPair_eq_full_iff {byte : UInt8} : hexPair byte = ['F', 'F'] ↔ byte = 255 := by
  have hfull : hexPair 255 = ['F', 'F'] := by decide
  rw [← hfull]
  exact ⟨hexPair_injective, fun h => h ▸ rfl⟩

/-- A colour is written with the canonical digits of any digits that write it. -/
theorem Writes.chars_eq {body : List Char} {c : Colour} (h : Writes body c) :
    c.chars = '#' :: canonicalDigits body := by
  cases h with
  | three hr hg hb =>
    rw [chars, if_pos rfl, hr.hexPair_eq, hg.hexPair_eq, hb.hexPair_eq]
    rfl
  | six hr hg hb =>
    rw [chars, if_pos rfl, hr.hexPair_eq, hg.hexPair_eq, hb.hexPair_eq]
    rfl
  | @eight r₁ r₂ g₁ g₂ b₁ b₂ a₁ a₂ _ _ _ a hr hg hb ha =>
    have hdigits : canonicalDigits [r₁, r₂, g₁, g₂, b₁, b₂, a₁, a₂] =
        [r₁.toUpper, r₂.toUpper, g₁.toUpper, g₂.toUpper, b₁.toUpper, b₂.toUpper] ++
          if hexPair a = ['F', 'F'] then [] else hexPair a := by
      rw [ha.hexPair_eq]
      -- the digits are not three, and those behind the sixth are the two of the alpha
      show (if [a₁.toUpper, a₂.toUpper] = ['F', 'F'] then
          [r₁.toUpper, r₂.toUpper, g₁.toUpper, g₂.toUpper, b₁.toUpper, b₂.toUpper]
        else [r₁, r₂, g₁, g₂, b₁, b₂, a₁, a₂].map Char.toUpper) = _
      split_ifs
      · rfl
      · rfl
    rw [hdigits, chars, hr.hexPair_eq, hg.hexPair_eq, hb.hexPair_eq]
    simp only [hexPair_eq_full_iff]
    rfl

/-! ## Reading and writing -/

/-- What a text that is read as a colour is written as again. -/
theorem text_eq_canonical {text : String} {c : Colour} (h : parse text = .ok c) :
    c.text = canonical text := by
  rw [Colour.text, (parse_eq_ok_iff.mp h).chars_eq, canonical]

theorem parse_text (c : Colour) : parse c.text = .ok c := by
  unfold parse
  rw [Colour.text, String.toList_ofList, parse?_chars]

/-- The text of a colour is read as the colour, so that no two colours share a text. What is read
from any text is written as the canonical form of this text, which is itself read as the same
colour and is its own canonical form. Two texts that are read have one canonical form just if they
are read as one colour. -/
theorem text_faithful :
    (∀ c : Colour, parse c.text = .ok c) ∧
    (∀ c c' : Colour, c ≠ c' → c.text ≠ c'.text) ∧
    (∀ text c, parse text = .ok c →
      c.text = canonical text ∧ parse (canonical text) = .ok c ∧
        canonical (canonical text) = canonical text) ∧
    ∀ text text' c c', parse text = .ok c → parse text' = .ok c' →
      (canonical text = canonical text' ↔ c = c') := by
  refine ⟨parse_text, ?_, ?_, ?_⟩
  · intro c c' hne htext
    exact hne (text_injective htext)
  · intro text c h
    have hagain : parse (canonical text) = .ok c := by
      rw [← text_eq_canonical h, parse_text]
    exact ⟨text_eq_canonical h, hagain,
      (text_eq_canonical hagain).symm.trans (text_eq_canonical h)⟩
  · intro text text' c c' h h'
    rw [← text_eq_canonical h, ← text_eq_canonical h']
    constructor
    · exact text_injective
    · intro heq
      rw [heq]

/-- Two spellings of one colour have one canonical form, which a colour that is not opaque does not
share. -/
theorem text_faithful_spellings :
    parse " #f0A" = .ok ⟨255, 0, 170, 255⟩ ∧ parse "FF00aaff" = .ok ⟨255, 0, 170, 255⟩ ∧
    parse "#ff00aaFE" = .ok ⟨255, 0, 170, 254⟩ ∧
    canonical " #f0A" = "#FF00AA" ∧ canonical " #f0A" = canonical "FF00aaff" ∧
    canonical "FF00aaff" ≠ canonical "#ff00aaFE" := by
  have hthree : parse " #f0A" = .ok ⟨255, 0, 170, 255⟩ := by decide +kernel
  have height : parse "FF00aaff" = .ok ⟨255, 0, 170, 255⟩ := by decide +kernel
  have hclear : parse "#ff00aaFE" = .ok ⟨255, 0, 170, 254⟩ := by decide +kernel
  rcases text_faithful with ⟨-, -, hform, hsame⟩
  refine ⟨hthree, height, hclear, ?_, ?_, ?_⟩
  · rw [← (hform _ _ hthree).1]
    decide +kernel
  · exact (hsame _ _ _ _ hthree height).mpr rfl
  · intro heq
    exact absurd ((hsame _ _ _ _ height hclear).mp heq) (by decide)

end Colour

end BlockScript
