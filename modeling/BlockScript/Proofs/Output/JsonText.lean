import BlockScript.Output.Dump
import BlockScript.Proofs.Output.Lines
import Mathlib.Data.List.Basic

namespace BlockScript

/-! # JSON dumps

A character in a JSON string can be read back, whatever follows it (`Json.readChar?_charText`). So
the strings end where they seem to end, and the text of an event in an array tells the event, and
where it ends (`Event.delimits_objectText`). A JSON dump therefore has one list of events
(`Event.jsonText_injective`).
-/

namespace Json

/-- What the letter behind a backslash stands for. -/
def unescape? : Char → Option Char
  | '"' => some '"'
  | '\\' => some '\\'
  | 'n' => some '\n'
  | 'r' => some '\r'
  | 't' => some '\t'
  | 'b' => some '\x08'
  | 'f' => some '\x0c'
  | _ => none

/-- Reads one character of a JSON string. There is none at the quote that ends it. -/
def readChar? : List Char → Option (Char × List Char)
  | '\\' :: 'u' :: a :: b :: c :: d :: rest =>
    (numberIn? 16 [a, b, c, d]).map fun n => (Char.ofNat n, rest)
  | '\\' :: letter :: rest => (unescape? letter).map fun c => (c, rest)
  | '"' :: _ => none
  | c :: rest => some (c, rest)
  | [] => none

/-- The last two digits of the escape of a control character. -/
def controlDigits (n : Nat) : List Char := (if n < 0x10 then ['0'] else []) ++ hexText n

theorem controlDigits_spec : ∀ n < 0x20, (controlDigits n).length = 2 ∧
    numberIn? 16 (['0', '0'] ++ controlDigits n) = some n := by
  decide

/-- A character is escaped by a letter or by its number, or it stands for itself. -/
theorem charText_cases (c : Char) :
    (∃ letter, charText c = ['\\', letter] ∧ unescape? letter = some c) ∨
    (∃ n < 0x20, charText c = ['\\', 'u'] ++ (['0', '0'] ++ controlDigits n) ∧ c = Char.ofNat n) ∨
    (charText c = [c] ∧ c ≠ '"' ∧ c ≠ '\\') := by
  by_cases hmarked : c ∈ ['"', '\\', '\n', '\r', '\t', '\x08', '\x0c']
  · left
    simp only [List.mem_cons, List.not_mem_nil, or_false] at hmarked
    rcases hmarked with rfl | rfl | rfl | rfl | rfl | rfl | rfl <;> exact ⟨_, rfl, rfl⟩
  · right
    simp only [List.mem_cons, List.not_mem_nil, or_false, not_or] at hmarked
    obtain ⟨hquote, hslash, hn, hr, ht, hb, hf⟩ := hmarked
    rw [charText, if_neg (by simp [hquote, hslash]), if_neg (by simpa using hn),
      if_neg (by simpa using hr), if_neg (by simpa using ht), if_neg (by simpa using hb),
      if_neg (by simpa using hf)]
    by_cases hcontrol : c.toNat < 0x20
    · rw [if_pos hcontrol, List.append_assoc]
      exact Or.inl ⟨c.toNat, hcontrol, rfl, (Char.ofNat_toNat c).symm⟩
    · rw [if_neg hcontrol]
      exact Or.inr ⟨rfl, hquote, hslash⟩

theorem readChar?_charText (c : Char) (rest : List Char) :
    readChar? (charText c ++ rest) = some (c, rest) := by
  rcases charText_cases c with ⟨letter, htext, hletter⟩ | ⟨n, hn, htext, rfl⟩ |
      ⟨htext, hquote, hslash⟩
  · have hu : letter ≠ 'u' := by
      rintro rfl
      cases hletter
    rw [htext]
    simp [readChar?, hu, hletter]
  · obtain ⟨hlength, hnumber⟩ := controlDigits_spec n hn
    obtain ⟨a, b, hdigits⟩ := List.length_eq_two.mp hlength
    rw [hdigits] at hnumber
    rw [htext, hdigits]
    show (numberIn? 16 (['0', '0'] ++ [a, b])).map (fun n => (Char.ofNat n, rest)) = _
    rw [hnumber]
    rfl
  · rw [htext]
    simp [readChar?, hslash]

theorem charText_append_inj {c d : Char} {x y : List Char}
    (h : charText c ++ x = charText d ++ y) : c = d ∧ x = y := by
  have hread := readChar?_charText c x
  rw [h, readChar?_charText] at hread
  obtain ⟨hc, hx⟩ := Prod.mk.inj (Option.some.inj hread)
  exact ⟨hc.symm, hx.symm⟩

/-- A quote does not begin a character. -/
theorem charText_append_ne {c : Char} {x y : List Char} : charText c ++ x ≠ '"' :: y := by
  intro h
  have hread := readChar?_charText c x
  rw [h] at hread
  cases hread

theorem flatMap_charText_inj {cs ds : List Char} {x y : List Char}
    (h : cs.flatMap charText ++ '"' :: x = ds.flatMap charText ++ '"' :: y) : cs = ds ∧ x = y := by
  induction cs generalizing ds with
  | nil =>
    cases ds with
    | nil => exact ⟨rfl, (List.cons.inj h).2⟩
    | cons d ds =>
      rw [List.flatMap_cons, List.append_assoc] at h
      exact absurd h.symm charText_append_ne
  | cons c cs ih =>
    cases ds with
    | nil =>
      rw [List.flatMap_cons, List.append_assoc] at h
      exact absurd h charText_append_ne
    | cons d ds =>
      rw [List.flatMap_cons, List.flatMap_cons, List.append_assoc, List.append_assoc] at h
      obtain ⟨rfl, hrest⟩ := charText_append_inj h
      obtain ⟨rfl, hbehind⟩ := ih hrest
      exact ⟨rfl, hbehind⟩

/-- A JSON string is one text, and ends where it seems to end. -/
theorem stringText_append_inj {a b : String} {x y : List Char}
    (h : (stringText a).toList ++ x = (stringText b).toList ++ y) : a = b ∧ x = y := by
  rw [stringText, stringText, String.toList_ofList, String.toList_ofList, List.cons_append,
    List.cons_append, List.append_assoc, List.append_assoc] at h
  obtain ⟨htext, hbehind⟩ := flatMap_charText_inj (List.cons.inj h).2
  exact ⟨String.toList_injective htext, hbehind⟩

/-- Fields with a comma in front of each, and the end of an object. -/
def fieldsText (fields : List (String × String)) : List Char :=
  (fields.flatMap fun field => ",\n".toList ++ (fieldText field).toList) ++ "\n  \x7d".toList

theorem toList_fieldText (name value : String) : (fieldText (name, value)).toList =
    "    ".toList ++ ((stringText name).toList ++ (": ".toList ++ value.toList)) := by
  rw [fieldText, String.toList_append, String.toList_append, String.toList_append,
    List.append_assoc, List.append_assoc]

theorem fieldsText_cons (field : String × String) (fields : List (String × String)) :
    fieldsText (field :: fields) =
      ",\n".toList ++ ((fieldText field).toList ++ fieldsText fields) := by
  rw [fieldsText, List.flatMap_cons, List.append_assoc, List.append_assoc, fieldsText]

theorem toList_objectText_cons (first : String × String) (rest : List (String × String)) :
    (objectText (first :: rest)).toList =
      "  \x7b\n".toList ++ ((fieldText first).toList ++ fieldsText rest) := by
  have hrest : ∀ (first : String × String) (rest : List (String × String)),
      (",\n".intercalate ((first :: rest).map fieldText) ++ "\n  \x7d").toList =
        (fieldText first).toList ++ fieldsText rest := by
    intro first rest
    induction rest generalizing first with
    | nil =>
      rw [List.map_singleton, String.intercalate_singleton, String.toList_append, fieldsText,
        List.flatMap_nil, List.nil_append]
    | cons second rest ih =>
      rw [List.map_cons, List.map_cons, String.intercalate_cons_cons, ← List.map_cons,
        String.append_assoc, String.toList_append, ih second, String.toList_append, fieldsText_cons,
        List.append_assoc]
  rw [objectText, String.append_assoc, String.toList_append, hrest]

/-- Behind a value stands the comma of the next field, or the end of the line. -/
theorem head?_fieldsText_append (fields : List (String × String)) (x : List Char) :
    ∀ c, (fieldsText fields ++ x).head? = some c → ¬ Numeral.IsMark c := by
  intro c hc
  cases fields with
  | nil =>
    obtain rfl : '\n' = c := Option.some.inj hc
    decide
  | cons field fields =>
    rw [fieldsText_cons] at hc
    obtain rfl : ',' = c := Option.some.inj hc
    decide

section
variable {name a b : String} {fields fields' : List (String × String)} {x y : List Char}

theorem fieldsText_cons_append (name value : String) (fields : List (String × String))
    (x : List Char) : fieldsText ((name, value) :: fields) ++ x =
      ",\n".toList ++ (fieldText (name, "")).toList ++
        (value.toList ++ (fieldsText fields ++ x)) := by
  rw [fieldsText_cons, toList_fieldText, toList_fieldText]
  simp only [List.append_assoc, String.toList_empty, List.nil_append]

/-- A field that is a string tells the string. -/
theorem fieldsText_string_inj (h : fieldsText ((name, stringText a) :: fields) ++ x =
    fieldsText ((name, stringText b) :: fields') ++ y) :
    a = b ∧ fieldsText fields ++ x = fieldsText fields' ++ y := by
  rw [fieldsText_cons_append, fieldsText_cons_append] at h
  exact stringText_append_inj (List.append_cancel_left h)

/-- A field that is a number tells the number. -/
theorem fieldsText_number_inj {size size' : Binary64} (hsize : size.isFinite = true)
    (hsize' : size'.isFinite = true)
    (h : fieldsText ((name, NumberLayout.json.text size) :: fields) ++ x =
      fieldsText ((name, NumberLayout.json.text size') :: fields') ++ y) :
    size = size' ∧ fieldsText fields ++ x = fieldsText fields' ++ y := by
  rw [fieldsText_cons_append, fieldsText_cons_append] at h
  exact NumberLayout.text_append_inj (Or.inr rfl) hsize hsize' (head?_fieldsText_append fields x)
    (head?_fieldsText_append fields' y) (List.append_cancel_left h)

/-- The first field of an object has a brace in front of it instead of a comma. -/
theorem objectText_append_inj (h : (objectText ((name, stringText a) :: fields)).toList ++ x =
    (objectText ((name, stringText b) :: fields')).toList ++ y) :
    fieldsText ((name, stringText a) :: fields) ++ x =
      fieldsText ((name, stringText b) :: fields') ++ y := by
  rw [toList_objectText_cons, toList_objectText_cons] at h
  rw [fieldsText_cons, fieldsText_cons]
  simp only [List.append_assoc] at h ⊢
  rw [List.append_cancel_left h]

end

/-- Elements with a comma in front of each, and the end of an array. -/
def elementsText (elements : List String) : List Char :=
  (elements.flatMap fun element => ',' :: '\n' :: element.toList) ++ ['\n', ']']

/-- The first element of an array has a bracket in front of it instead of a comma. -/
theorem toList_arrayText_cons (first : String) (rest : List String) :
    (arrayText (first :: rest)).toList = '[' :: (elementsText (first :: rest)).tail := by
  have hrest : ∀ (out : String) (rest : List String),
      (rest.foldl (fun out element => out ++ ",\n" ++ element) out ++ "\n]").toList =
        out.toList ++ elementsText rest := by
    intro out rest
    induction rest generalizing out with
    | nil => simp [elementsText]
    | cons element rest ih =>
      rw [List.foldl_cons, ih]
      simp [elementsText]
  rw [arrayText, hrest]
  simp [elementsText]

/-- Whether the texts of elements tell where they end. -/
def Delimits {α : Type} (P : α → Prop) (f : α → String) : Prop :=
  ∀ a b x y, P a → P b → (f a).toList ++ x = (f b).toList ++ y → a = b ∧ x = y

section
variable {α : Type} {P : α → Prop} {f : α → String} {xs ys : List α}

theorem elementsText_inj (hf : Delimits P f) (hxs : ∀ a ∈ xs, P a) (hys : ∀ a ∈ ys, P a)
    (h : elementsText (xs.map f) = elementsText (ys.map f)) : xs = ys := by
  induction xs generalizing ys with
  | nil =>
    cases ys with
    | nil => rfl
    | cons b ys => cases h
  | cons a xs ih =>
    cases ys with
    | nil => cases h
    | cons b ys =>
      have hcons : ∀ (c : α) (zs : List α), elementsText ((c :: zs).map f) =
          ',' :: '\n' :: ((f c).toList ++ elementsText (zs.map f)) := by
        intro c zs
        simp [elementsText]
      rw [hcons, hcons, List.cons_inj_right, List.cons_inj_right] at h
      obtain ⟨rfl, hrest⟩ := hf a b _ _ (hxs a List.mem_cons_self) (hys b List.mem_cons_self) h
      rw [ih (fun c hc => hxs c (List.mem_cons_of_mem a hc))
        (fun c hc => hys c (List.mem_cons_of_mem a hc)) hrest]

/-- An array is one list of elements, if their texts tell where they end. -/
theorem arrayText_inj (hf : Delimits P f) (hxs : ∀ a ∈ xs, P a) (hys : ∀ a ∈ ys, P a)
    (h : arrayText (xs.map f) = arrayText (ys.map f)) : xs = ys := by
  have hchars := congrArg String.toList h
  cases xs with
  | nil =>
    cases ys with
    | nil => rfl
    | cons b ys =>
      rw [List.map_cons, toList_arrayText_cons] at hchars
      simp [arrayText, elementsText] at hchars
  | cons a xs =>
    cases ys with
    | nil =>
      rw [List.map_cons, toList_arrayText_cons] at hchars
      simp [arrayText, elementsText] at hchars
    | cons b ys =>
      rw [List.map_cons, List.map_cons, toList_arrayText_cons, toList_arrayText_cons,
        List.cons_inj_right] at hchars
      -- the commas that the brackets stand for are no difference
      exact elementsText_inj hf hxs hys (congrArg (',' :: ·) hchars)

end

end Json

namespace Event

variable {events events' : List Event}

/-- What the object of an event calls it. -/
def kind : Event → String
  | block _ _ => "draw_block"
  | space _ => "draw_space"
  | lineBreak => "line_break"
  | error _ => "display_error"

theorem fields_eq (e : Event) : e.fields = ("event", Json.stringText e.kind) :: e.fields.tail := by
  cases e <;> rfl

/-- The object of an event tells the event, and where it ends. -/
theorem delimits_objectText : Json.Delimits HasFiniteSize fun e => Json.objectText e.fields := by
  intro e e' x y he he' h
  change (Json.objectText e.fields).toList ++ x = (Json.objectText e'.fields).toList ++ y at h
  rw [fields_eq e, fields_eq e'] at h
  obtain ⟨hkind, hrest⟩ := Json.fieldsText_string_inj (Json.objectText_append_inj h)
  cases e <;> cases e' <;> simp [kind] at hkind <;>
    simp only [fields, List.tail_cons, Colour.jsonText] at hrest
  case block.block size colour size' colour' =>
    obtain ⟨hsize, hcolours⟩ := Json.fieldsText_number_inj he he' hrest
    obtain ⟨hcolour, hend⟩ := Json.fieldsText_string_inj hcolours
    rw [hsize, Colour.text_injective hcolour]
    exact ⟨rfl, List.append_cancel_left hend⟩
  case space.space size size' =>
    obtain ⟨hsize, hend⟩ := Json.fieldsText_number_inj he he' hrest
    rw [hsize]
    exact ⟨rfl, List.append_cancel_left hend⟩
  case lineBreak.lineBreak => exact ⟨rfl, List.append_cancel_left hrest⟩
  case error.error message message' =>
    obtain ⟨hmessage, hend⟩ := Json.fieldsText_string_inj hrest
    rw [hmessage]
    exact ⟨rfl, List.append_cancel_left hend⟩

/-- A JSON dump has one list of events. -/
theorem jsonText_injective (h : ∀ e ∈ events, e.HasFiniteSize) (h' : ∀ e ∈ events', e.HasFiniteSize)
    (htext : jsonText events = jsonText events') : events = events' :=
  Json.arrayText_inj delimits_objectText h h' htext

end Event

end BlockScript
