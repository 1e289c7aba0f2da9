import BlockScript.Proofs.Colour.Text
import BlockScript.Proofs.Number.Printing
import BlockScript.Proofs.Script.Joining

namespace BlockScript

/-! # Lines of events

An event with a finite size, or none, has a text that no other such event has
(`Event.text_injective`). If its message is on one line too (`Event.IsPlain`), the text is without
line breaks. So the lines of a dump of such events are their texts, one by one
(`Event.splitOn_linesText`), and the dump tells which events they were
(`Event.linesText_injective`).
-/

/-- No other character occurs in the text of a finite number. -/
theorem NumberLayout.not_mem_text {layout : NumberLayout} {x : Binary64} {c : Char}
    (hplus : layout.exponentPlus = "" ∨ layout.exponentPlus = "+") (hx : x.isFinite = true)
    (hc : ¬ Numeral.IsMark c) : c ∉ (layout.text x).toList :=
  fun hmem => hc (isMark_of_mem_text hplus hx c hmem)

theorem Colour.not_mem_text {c : Colour} {ch : Char} (h : isBlank ch = true) :
    ch ∉ c.text.toList := by
  intro hmem
  rw [Colour.text, String.toList_ofList] at hmem
  rw [Colour.isBlank_of_mem_chars hmem] at h
  cases h

namespace Event

variable {e e' : Event} {events events' : List Event}

/-- Whether the size of an event is finite, if it has one. -/
def HasFiniteSize : Event → Prop
  | block size _ => size.isFinite = true
  | space size => size.isFinite = true
  | lineBreak => True
  | error _ => True

/-- Whether the text of an event is one line. -/
structure IsPlain (e : Event) : Prop where
  finite : e.HasFiniteSize
  oneLine : ∀ message, e = error message → '\n' ∉ message.toList

theorem not_mem_text (h : e.IsPlain) : '\n' ∉ e.text.toList := by
  obtain ⟨hfinite, hline⟩ := h
  have hcolour : ∀ colour : Colour, '\n' ∉ colour.text.toList := fun _ =>
    Colour.not_mem_text (by decide)
  cases e with
  | block size colour =>
    have hsize : '\n' ∉ (NumberLayout.plain.text size).toList :=
      NumberLayout.not_mem_text (Or.inl rfl) hfinite (by decide)
    simp [text, hsize, hcolour colour]
  | space size =>
    have hsize : '\n' ∉ (NumberLayout.plain.text size).toList :=
      NumberLayout.not_mem_text (Or.inl rfl) hfinite (by decide)
    simp [text, hsize]
  | lineBreak => decide
  | error message => simp [text, hline message rfl]

/-- A line has one event: its words say of which kind, and no number has a blank in it. -/
theorem text_injective (h : e.HasFiniteSize) (h' : e'.HasFiniteSize) (htext : e.text = e'.text) :
    e = e' := by
  have hchars := congrArg String.toList htext
  cases e <;> cases e' <;> simp [text] at hchars
  case block.block size colour size' colour' =>
    have hblank : ∀ cs : List Char, ∀ c, (' ' :: cs).head? = some c → ¬ Numeral.IsMark c := by
      rintro cs c ⟨⟩
      decide
    obtain ⟨rfl, hcolour⟩ :=
      NumberLayout.text_append_inj (Or.inl rfl) h h' (hblank _) (hblank _) hchars
    rw [Colour.text_injective (String.toList_injective (List.cons.inj hcolour).2)]
  case space.space size size' =>
    rw [NumberLayout.text_injective (Or.inl rfl) h h' (String.toList_injective hchars)]
  case lineBreak.lineBreak => rfl
  case error.error message message' => rw [String.toList_injective hchars]

/-- Where events can be told apart by their texts, lists of them can by the lists of texts. -/
theorem map_injective {β : Type} {P : Event → Prop} {f : Event → β}
    (hf : ∀ e e', P e → P e' → f e = f e' → e = e') (h : ∀ e ∈ events, P e)
    (h' : ∀ e ∈ events', P e) (hmap : events.map f = events'.map f) : events = events' := by
  induction events generalizing events' with
  | nil => exact (List.map_eq_nil_iff.mp hmap.symm).symm
  | cons e events ih =>
    cases events' with
    | nil => cases hmap
    | cons e' events' =>
      obtain ⟨hhead, htail⟩ := List.cons.inj hmap
      rw [hf e e' (h e List.mem_cons_self) (h' e' List.mem_cons_self) hhead,
        ih (fun e he => h e (List.mem_cons_of_mem _ he))
          (fun e he => h' e (List.mem_cons_of_mem _ he)) htail]

theorem toList_linesText_cons (e : Event) (events : List Event) :
    (linesText (e :: events)).toList = e.text.toList ++ '\n' :: (linesText events).toList := by
  have hline : linesText [e] = e.line := String.empty_append
  rw [← List.singleton_append, linesText_append, hline, line, String.toList_append,
    String.toList_append, List.append_assoc]
  rfl

/-- A dump has a line for each event, and nothing behind the last line. -/
theorem splitOn_linesText (h : ∀ e ∈ events, e.IsPlain) :
    (linesText events).toList.splitOn '\n' = events.map (fun e => e.text.toList) ++ [[]] := by
  induction events with
  | nil => rfl
  | cons e events ih =>
    rw [toList_linesText_cons,
      List.splitOn_append_cons_self_of_not_mem (not_mem_text (h e List.mem_cons_self)),
      ih fun e he => h e (List.mem_cons_of_mem _ he)]
    rfl

theorem count_linesText (h : ∀ e ∈ events, e.IsPlain) :
    (linesText events).toList.count '\n' = events.length := by
  induction events with
  | nil => rfl
  | cons e events ih =>
    rw [toList_linesText_cons, List.count_append, List.count_cons_self,
      List.count_eq_zero_of_not_mem (not_mem_text (h e List.mem_cons_self)),
      ih fun e he => h e (List.mem_cons_of_mem _ he), List.length_cons, Nat.zero_add]

/-- A dump has one list of events. -/
theorem linesText_injective (h : ∀ e ∈ events, e.IsPlain) (h' : ∀ e ∈ events', e.IsPlain)
    (htext : linesText events = linesText events') : events = events' := by
  have hlines := splitOn_linesText h
  rw [htext, splitOn_linesText h', List.append_cancel_right_eq] at hlines
  refine map_injective (fun e e' he he' heq => ?_) h h' hlines.symm
  exact text_injective he.finite he'.finite (String.toList_injective heq)

end Event

end BlockScript
