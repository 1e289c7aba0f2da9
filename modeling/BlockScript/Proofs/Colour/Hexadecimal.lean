import BlockScript.Proofs.Colour.Text
import BlockScript.Proofs.Text.LetterCase
import BlockScript.Text.Basic

namespace BlockScript

/-! # Which texts are colours

The written forms of a colour, told by digits of base sixteen and not by how they are read:
`Colour.Writes` has three, six or eight of them, two for each byte. A text is read as a colour
exactly when it has one of these forms between its blanks and behind at most one `#`, and then as
the colour that is written (`Colour.parse?_eq_some_iff`). Any other text is refused as a whole.
Since a digit is one byte, cutting such a text by bytes cuts it by digits
(`isSlice_of_forall_isHexDigit`).
-/

/-! ## Digits -/

/-- The digits of base sixteen, each at the place of its value. -/
def hexDigits : List Char := "0123456789abcdef".toList

/-- The character is the digit of this value, in either case. -/
def WritesDigit (c : Char) (value : Nat) : Prop := hexDigits[value]? = some c.toLower

/-- The character is a digit of base sixteen, in either case. -/
def IsHexDigit (c : Char) : Prop := c.toLower ∈ hexDigits

instance (c : Char) (value : Nat) : Decidable (WritesDigit c value) :=
  inferInstanceAs (Decidable (_ = _))

instance : DecidablePred IsHexDigit := fun _ => inferInstanceAs (Decidable (_ ∈ _))

theorem isHexDigit_iff {c : Char} : IsHexDigit c ↔ ∃ value, WritesDigit c value :=
  List.mem_iff_getElem?

theorem WritesDigit.isHexDigit {c : Char} {value : Nat} (h : WritesDigit c value) :
    IsHexDigit c :=
  isHexDigit_iff.mpr ⟨value, h⟩

theorem WritesDigit.lt {c : Char} {value : Nat} (h : WritesDigit c value) : value < 16 := by
  obtain ⟨hlt, -⟩ := List.getElem?_eq_some_iff.mp h
  exact hlt

theorem IsHexDigit.lt {c : Char} (h : IsHexDigit c) : c.toNat < 128 := by
  have hall : (hexDigits.all fun d => decide (d.toNat < 128)) = true := by decide +kernel
  have hlower := of_decide_eq_true (List.all_eq_true.mp hall _ h)
  rw [toNat_toLower] at hlower
  split_ifs at hlower
  · omega
  · exact hlower

/-- A character of ASCII by its code, so that a table can be looked up. -/
theorem exists_code {c : Char} (h : c.toNat < 128) : ∃ code < 128, Char.ofNat code = c :=
  ⟨c.toNat, h, Char.ofNat_toNat c⟩

theorem lt_of_hexValue? {c : Char} {value : Nat} (h : hexValue? c = some value) :
    c.toNat < 128 ∧ value < 16 := by
  unfold hexValue? at h
  split_ifs at h with hdigit hsmall hcapital
  · have hlow : 48 ≤ c.toNat := hdigit.1
    have hhigh : c.toNat ≤ 57 := hdigit.2
    have hvalue : c.toNat - 48 = value := Option.some.inj h
    omega
  · have hlow : 97 ≤ c.toNat := hsmall.1
    have hhigh : c.toNat ≤ 102 := hsmall.2
    have hvalue : c.toNat - 97 + 10 = value := Option.some.inj h
    omega
  · have hlow : 65 ≤ c.toNat := hcapital.1
    have hhigh : c.toNat ≤ 70 := hcapital.2
    have hvalue : c.toNat - 65 + 10 = value := Option.some.inj h
    omega

/-- The value of a digit is its place among the digits. -/
theorem hexValue?_eq_some_iff {c : Char} {value : Nat} :
    hexValue? c = some value ↔ WritesDigit c value := by
  have htable : ∀ code < 128, ∀ value < 16,
      hexValue? (Char.ofNat code) = some value ↔ WritesDigit (Char.ofNat code) value := by
    decide +kernel
  -- both sides speak of ASCII only
  constructor
  · intro h
    rcases lt_of_hexValue? h with ⟨hascii, hvalue⟩
    rcases exists_code hascii with ⟨code, hcode, rfl⟩
    exact (htable code hcode value hvalue).mp h
  · intro h
    rcases exists_code h.isHexDigit.lt with ⟨code, hcode, rfl⟩
    exact (htable code hcode value h.lt).mpr h

theorem WritesDigit.unique {c : Char} {value value' : Nat} (h : WritesDigit c value)
    (h' : WritesDigit c value') : value = value' :=
  Option.some.inj ((hexValue?_eq_some_iff.mpr h).symm.trans (hexValue?_eq_some_iff.mpr h'))

theorem mapM_hexValue?_eq_some_iff {cs : List Char} {values : List Nat} :
    cs.mapM hexValue? = some values ↔ List.Forall₂ WritesDigit cs values := by
  induction cs generalizing values with
  | nil => simp [eq_comm]
  | cons c cs ih =>
    simp only [List.mapM_cons, List.forall₂_cons_left_iff, Option.bind_eq_bind,
      Option.bind_eq_some_iff, Option.pure_def, Option.some.injEq, hexValue?_eq_some_iff, ih]
    constructor
    · rintro ⟨value, hvalue, rest, hrest, rfl⟩
      exact ⟨value, rest, hvalue, hrest, rfl⟩
    · rintro ⟨value, rest, hvalue, hrest, rfl⟩
      exact ⟨value, hvalue, rest, hrest, rfl⟩

/-! ## Slices -/

/-- `part` takes up the bytes of the text from `start` up to `stop`, and both of these stand between
characters. -/
def IsSlice (text : List Char) (start stop : Nat) (part : List Char) : Prop :=
  ∃ before after, text = before ++ part ++ after ∧ utf8Length before = start ∧
    utf8Length (before ++ part) = stop

theorem utf8Length_of_ascii {cs : List Char} (h : ∀ c ∈ cs, c.toNat < 128) :
    utf8Length cs = cs.length := by
  induction cs with
  | nil => rfl
  | cons c cs ih =>
    rcases List.forall_mem_cons.mp h with ⟨hc, hcs⟩
    have hsize : c.utf8Size = 1 := by
      have hval : c.val ≤ 127 := Nat.le_of_lt_succ hc
      exact if_pos hval
    rw [utf8Length_cons, hsize, ih hcs, List.length_cons, Nat.add_comm]

/-- In a text of digits any two byte offsets cut out the digits between them. -/
theorem isSlice_of_forall_isHexDigit {cs : List Char} (h : ∀ c ∈ cs, IsHexDigit c)
    {start stop : Nat} (hle : start ≤ stop) (hstop : stop ≤ utf8Length cs) :
    IsSlice cs start stop ((cs.drop start).take (stop - start)) := by
  have hascii : ∀ part, part ⊆ cs → utf8Length part = part.length := by
    intro part hpart
    exact utf8Length_of_ascii fun c hc => (h c (hpart hc)).lt
  have hlength : utf8Length cs = cs.length := hascii cs (List.Subset.refl cs)
  have hfront : cs.take start ++ (cs.drop start).take (stop - start) = cs.take stop := by
    rw [← List.take_add, Nat.add_sub_cancel' hle]
  refine ⟨cs.take start, cs.drop stop, ?_, ?_, ?_⟩
  · rw [hfront, List.take_append_drop]
  · rw [hascii _ (List.take_subset start cs), List.length_take]
    omega
  · rw [hfront, hascii _ (List.take_subset stop cs), List.length_take]
    omega

/-! ## Colours -/

namespace Colour

/-- The two characters write the byte in base sixteen. -/
def WritesByte (high low : Char) (byte : UInt8) : Prop :=
  ∃ upper lower, WritesDigit high upper ∧ WritesDigit low lower ∧
    byte.toNat = 16 * upper + lower

/-- The digits write the colour: red, green, blue and alpha in this order, two digits for each. Of
three digits each counts twice, and where the alpha is left out it is 255. -/
inductive Writes : List Char → Colour → Prop
  | three {red green blue : Char} {r g b : UInt8} (hr : WritesByte red red r)
      (hg : WritesByte green green g) (hb : WritesByte blue blue b) :
      Writes [red, green, blue] ⟨r, g, b, 255⟩
  | six {r₁ r₂ g₁ g₂ b₁ b₂ : Char} {r g b : UInt8} (hr : WritesByte r₁ r₂ r)
      (hg : WritesByte g₁ g₂ g) (hb : WritesByte b₁ b₂ b) :
      Writes [r₁, r₂, g₁, g₂, b₁, b₂] ⟨r, g, b, 255⟩
  | eight {r₁ r₂ g₁ g₂ b₁ b₂ a₁ a₂ : Char} {r g b a : UInt8} (hr : WritesByte r₁ r₂ r)
      (hg : WritesByte g₁ g₂ g) (hb : WritesByte b₁ b₂ b) (ha : WritesByte a₁ a₂ a) :
      Writes [r₁, r₂, g₁, g₂, b₁, b₂, a₁, a₂] ⟨r, g, b, a⟩

/-- Three, six or eight digits and nothing else. -/
def IsHexadecimal (body : List Char) : Prop :=
  (body.length = 3 ∨ body.length = 6 ∨ body.length = 8) ∧ ∀ ch ∈ body, IsHexDigit ch

/-- The text without the `#` that begins it, if there is one. -/
def withoutHash : List Char → List Char
  | '#' :: digits => digits
  | cs => cs

theorem parse?_eq (cs : List Char) :
    parse? cs = ((withoutHash (trim cs)).mapM hexValue?).bind ofDigits? := by
  unfold parse? withoutHash
  generalize trim cs = trimmed
  rcases trimmed with _ | ⟨c, rest⟩
  · rfl
  · by_cases hc : c = '#'
    · rw [hc]
      rfl
    · simp [hc]

theorem writesByte_byteOf {high low : Char} {upper lower : Nat} (hhigh : WritesDigit high upper)
    (hlow : WritesDigit low lower) : WritesByte high low (byteOf upper lower) := by
  have hupper := hhigh.lt
  have hlower := hlow.lt
  refine ⟨upper, lower, hhigh, hlow, ?_⟩
  rw [byteOf, UInt8.toNat_ofNat']
  omega

/-- A byte is written by the digits that it is read from. -/
theorem WritesByte.exists_byteOf {high low : Char} {byte : UInt8} (h : WritesByte high low byte) :
    ∃ upper lower, WritesDigit high upper ∧ WritesDigit low lower ∧ byte = byteOf upper lower := by
  rcases h with ⟨upper, lower, hhigh, hlow, hbyte⟩
  refine ⟨upper, lower, hhigh, hlow, ?_⟩
  rw [byteOf, ← hbyte, UInt8.ofNat_toNat]

/-- The digits that are read as a colour are those that write it. -/
theorem ofDigits?_eq_some_iff {body : List Char} {c : Colour} :
    (body.mapM hexValue?).bind ofDigits? = some c ↔ Writes body c := by
  rw [Option.bind_eq_some_iff]
  simp only [mapM_hexValue?_eq_some_iff]
  constructor
  · rintro ⟨values, hvalues, hc⟩
    unfold ofDigits? at hc
    split at hc
    · obtain rfl := Option.some.inj hc
      rcases hvalues with _ | ⟨hr, _ | ⟨hg, _ | ⟨hb, _ | _⟩⟩⟩
      exact .three (writesByte_byteOf hr hr) (writesByte_byteOf hg hg) (writesByte_byteOf hb hb)
    · obtain rfl := Option.some.inj hc
      rcases hvalues with _ | ⟨hr, _ | ⟨hr', _ | ⟨hg, _ | ⟨hg', _ | ⟨hb, _ | ⟨hb', _ | _⟩⟩⟩⟩⟩⟩
      exact .six (writesByte_byteOf hr hr') (writesByte_byteOf hg hg') (writesByte_byteOf hb hb')
    · obtain rfl := Option.some.inj hc
      rcases hvalues with _ | ⟨hr, _ | ⟨hr', _ | ⟨hg, _ | ⟨hg', _ | ⟨hb, _ | ⟨hb', _ |
        ⟨ha, _ | ⟨ha', _ | _⟩⟩⟩⟩⟩⟩⟩⟩
      exact .eight (writesByte_byteOf hr hr') (writesByte_byteOf hg hg')
        (writesByte_byteOf hb hb') (writesByte_byteOf ha ha')
    · cases hc
  · intro h
    cases h with
    | three hr hg hb =>
      rcases hr.exists_byteOf with ⟨r, r', hr₁, hr₂, rfl⟩
      rcases hg.exists_byteOf with ⟨g, g', hg₁, hg₂, rfl⟩
      rcases hb.exists_byteOf with ⟨b, b', hb₁, hb₂, rfl⟩
      obtain rfl := hr₁.unique hr₂
      obtain rfl := hg₁.unique hg₂
      obtain rfl := hb₁.unique hb₂
      exact ⟨[r, g, b], .cons hr₁ (.cons hg₁ (.cons hb₁ .nil)), rfl⟩
    | six hr hg hb =>
      rcases hr.exists_byteOf with ⟨r, r', hr₁, hr₂, rfl⟩
      rcases hg.exists_byteOf with ⟨g, g', hg₁, hg₂, rfl⟩
      rcases hb.exists_byteOf with ⟨b, b', hb₁, hb₂, rfl⟩
      exact ⟨[r, r', g, g', b, b'],
        .cons hr₁ (.cons hr₂ (.cons hg₁ (.cons hg₂ (.cons hb₁ (.cons hb₂ .nil))))), rfl⟩
    | eight hr hg hb ha =>
      rcases hr.exists_byteOf with ⟨r, r', hr₁, hr₂, rfl⟩
      rcases hg.exists_byteOf with ⟨g, g', hg₁, hg₂, rfl⟩
      rcases hb.exists_byteOf with ⟨b, b', hb₁, hb₂, rfl⟩
      rcases ha.exists_byteOf with ⟨a, a', ha₁, ha₂, rfl⟩
      exact ⟨[r, r', g, g', b, b', a, a'], .cons hr₁ (.cons hr₂ (.cons hg₁ (.cons hg₂
        (.cons hb₁ (.cons hb₂ (.cons ha₁ (.cons ha₂ .nil))))))), rfl⟩

theorem parse?_eq_some_iff {cs : List Char} {c : Colour} :
    parse? cs = some c ↔ Writes (withoutHash (trim cs)) c := by
  rw [parse?_eq, ofDigits?_eq_some_iff]

theorem WritesByte.isHexDigit {high low : Char} {byte : UInt8} (h : WritesByte high low byte) :
    IsHexDigit high ∧ IsHexDigit low := by
  rcases h with ⟨upper, lower, hhigh, hlow, -⟩
  exact ⟨hhigh.isHexDigit, hlow.isHexDigit⟩

theorem exists_writesByte {high low : Char} (hhigh : IsHexDigit high) (hlow : IsHexDigit low) :
    ∃ byte, WritesByte high low byte := by
  rcases isHexDigit_iff.mp hhigh with ⟨upper, hupper⟩
  rcases isHexDigit_iff.mp hlow with ⟨lower, hlower⟩
  exact ⟨byteOf upper lower, writesByte_byteOf hupper hlower⟩

/-- Just such texts write a colour. -/
theorem exists_writes_iff {body : List Char} : (∃ c, Writes body c) ↔ IsHexadecimal body := by
  constructor
  · rintro ⟨c, h⟩
    cases h with
    | three hr hg hb =>
      exact ⟨Or.inl rfl, by simp [hr.isHexDigit, hg.isHexDigit, hb.isHexDigit]⟩
    | six hr hg hb =>
      exact ⟨Or.inr (Or.inl rfl), by simp [hr.isHexDigit, hg.isHexDigit, hb.isHexDigit]⟩
    | eight hr hg hb ha =>
      exact ⟨Or.inr (Or.inr rfl),
        by simp [hr.isHexDigit, hg.isHexDigit, hb.isHexDigit, ha.isHexDigit]⟩
  · rintro ⟨hthree | hsix | height, hdigits⟩
    · rcases List.length_eq_three.mp hthree with ⟨red, green, blue, rfl⟩
      simp only [List.forall_mem_cons] at hdigits
      rcases hdigits with ⟨hred, hgreen, hblue, -⟩
      rcases exists_writesByte hred hred with ⟨r, hr⟩
      rcases exists_writesByte hgreen hgreen with ⟨g, hg⟩
      rcases exists_writesByte hblue hblue with ⟨b, hb⟩
      exact ⟨⟨r, g, b, 255⟩, .three hr hg hb⟩
    · match body, hsix, hdigits with
      | [r₁, r₂, g₁, g₂, b₁, b₂], _, hdigits =>
        simp only [List.forall_mem_cons] at hdigits
        rcases hdigits with ⟨hr₁, hr₂, hg₁, hg₂, hb₁, hb₂, -⟩
        rcases exists_writesByte hr₁ hr₂ with ⟨r, hr⟩
        rcases exists_writesByte hg₁ hg₂ with ⟨g, hg⟩
        rcases exists_writesByte hb₁ hb₂ with ⟨b, hb⟩
        exact ⟨⟨r, g, b, 255⟩, .six hr hg hb⟩
    · match body, height, hdigits with
      | [r₁, r₂, g₁, g₂, b₁, b₂, a₁, a₂], _, hdigits =>
        simp only [List.forall_mem_cons] at hdigits
        rcases hdigits with ⟨hr₁, hr₂, hg₁, hg₂, hb₁, hb₂, ha₁, ha₂, -⟩
        rcases exists_writesByte hr₁ hr₂ with ⟨r, hr⟩
        rcases exists_writesByte hg₁ hg₂ with ⟨g, hg⟩
        rcases exists_writesByte hb₁ hb₂ with ⟨b, hb⟩
        rcases exists_writesByte ha₁ ha₂ with ⟨a, ha⟩
        exact ⟨⟨r, g, b, a⟩, .eight hr hg hb ha⟩

theorem parse_eq_ok_iff {text : String} {c : Colour} :
    parse text = .ok c ↔ Writes (withoutHash (trim text.toList)) c := by
  rw [← parse?_eq_some_iff]
  unfold parse
  cases parse? text.toList with
  | none => simp
  | some colour => simp

/-- A text that is refused is quoted as it is between its blanks, with its `#`. -/
theorem parse_eq_error_iff {text : String} {fault : Fault} :
    parse text = .error fault ↔
      ¬ IsHexadecimal (withoutHash (trim text.toList)) ∧
        fault = .badColour (String.ofList (trim text.toList)) := by
  rw [← exists_writes_iff]
  simp only [← parse?_eq_some_iff]
  unfold parse
  cases parse? text.toList with
  | none => simp [eq_comm]
  | some colour => simp

/-- A text is a colour if, between its blanks and behind at most one `#`, it is three, six or eight
digits of base sixteen in either case, and then it is the colour that these write. Any other text is
an error that quotes it without its blanks; so is every text with a sign or with a character outside
ASCII. Between two digits any cut by bytes is a cut between characters. -/
theorem reads_hexadecimal (text : String) :
    let trimmed := trim text.toList
    let body := withoutHash trimmed
    (∀ c, parse text = .ok c ↔ Writes body c) ∧
    ((∃ c, parse text = .ok c) ↔ IsHexadecimal body) ∧
    (∀ fault, parse text = .error fault ↔
      ¬ IsHexadecimal body ∧ fault = .badColour (String.ofList trimmed)) ∧
    (Fault.badColour (String.ofList trimmed)).detail =
      "Invalid hex colour: " ++ String.ofList trimmed ∧
    (∀ ch ∈ body, 128 ≤ ch.toNat ∨ ch = '+' ∨ ch = '-' →
      parse text = .error (.badColour (String.ofList trimmed))) ∧
    ((∀ ch ∈ body, IsHexDigit ch) → utf8Length body = body.length ∧
      ∀ start stop, start ≤ stop → stop ≤ utf8Length body →
        IsSlice body start stop ((body.drop start).take (stop - start))) := by
  intro trimmed body
  refine ⟨fun c => parse_eq_ok_iff, ?_, fun fault => parse_eq_error_iff, rfl, ?_, ?_⟩
  · simp only [parse_eq_ok_iff]
    exact exists_writes_iff
  · intro ch hch hother
    rw [parse_eq_error_iff]
    refine ⟨?_, rfl⟩
    rintro ⟨-, hdigits⟩
    have hdigit := hdigits ch hch
    rcases hother with hwide | rfl | rfl
    · have hascii := hdigit.lt
      omega
    · revert hdigit
      decide +kernel
    · revert hdigit
      decide +kernel
  · intro hdigits
    refine ⟨utf8Length_of_ascii fun ch hch => (hdigits ch hch).lt, ?_⟩
    intro start stop
    exact isSlice_of_forall_isHexDigit hdigits

/-- Six digits in both cases between wide blanks are a colour, and their bytes may be cut anywhere.
A letter of two bytes with one digit is none, although these are three bytes; nor are digits with
signs. -/
theorem reads_hexadecimal_mixed_case :
    parse "\u2003#1a2B3c\n" = .ok ⟨26, 43, 60, 255⟩ ∧
    (∀ ch ∈ "1a2B3c".toList, IsHexDigit ch) ∧ IsSlice "1a2B3c".toList 2 4 "2B".toList ∧
    parse "#é1" = .error (.badColour "#é1") ∧
    parse " #+1+" = .error (.badColour "#+1+") := by
  have hsix : withoutHash (trim "\u2003#1a2B3c\n".toList) = "1a2B3c".toList := by decide +kernel
  have hall : ("1a2B3c".toList.all fun ch => decide (IsHexDigit ch)) = true := by decide +kernel
  have hdigits : ∀ ch ∈ "1a2B3c".toList, IsHexDigit ch :=
    fun ch hch => of_decide_eq_true (List.all_eq_true.mp hall ch hch)
  rcases reads_hexadecimal "\u2003#1a2B3c\n" with ⟨hread, -, -, -, -, hslices⟩
  rw [hsix] at hread hslices
  rcases hslices hdigits with ⟨-, hslice⟩
  rcases reads_hexadecimal "#é1" with ⟨-, -, -, -, hwide, -⟩
  rcases reads_hexadecimal " #+1+" with ⟨-, -, -, -, hsigned, -⟩
  refine ⟨?_, hdigits, ?_, ?_, ?_⟩
  · rw [hread]
    exact .six ⟨1, 10, by decide +kernel⟩ ⟨2, 11, by decide +kernel⟩ ⟨3, 12, by decide +kernel⟩
  · exact hslice 2 4 (by decide) (by decide +kernel)
  · exact hwide 'é' (by decide +kernel) (Or.inl (by decide))
  · exact hsigned '+' (by decide +kernel) (Or.inr (Or.inl rfl))

end Colour

end BlockScript
