import BlockScript.Proofs.Drawing.Arrangement
import BlockScript.Proofs.Drawing.DrawnSizes
import BlockScript.Proofs.Output.JsonText

namespace BlockScript

/-! # Dumps of scripts

The events of a script can be read from its dumps. Its sizes are finite, and its messages quote
parts of tokens, which stand on one line (`Script.isPlain_of_mem_events`). So scripts with the same
dump, as text or as JSON, have the same events (`Script.dumps_lossless`).
-/

/-! ## Equal events -/

namespace Event

variable {e e' : Event} {events events' : List Event}

theorem HasPositiveSize.hasFiniteSize (h : e.HasPositiveSize) : e.HasFiniteSize := by
  cases e with
  | block size colour => exact Binary64.isFinite_of_isPositive h
  | space size => exact Binary64.isFinite_of_isPositive h
  | lineBreak => trivial
  | error message => trivial

theorem same_iff (h : e.HasPositiveSize) (h' : e'.HasPositiveSize) : e.same e' = true ↔ e = e' := by
  cases e <;> cases e' <;> simp [same]
  case block.block size colour size' colour' =>
    rw [Binary64.same_iff_of_isPositive h h']
    exact fun _ => Iff.rfl
  case space.space size size' => exact Binary64.same_iff_of_isPositive h h'

theorem sameAll_iff (h : ∀ e ∈ events, e.HasPositiveSize) (h' : ∀ e ∈ events', e.HasPositiveSize) :
    sameAll events events' = true ↔ events = events' := by
  induction events generalizing events' with
  | nil => cases events' <;> simp [sameAll]
  | cons e events ih =>
    cases events' with
    | nil => simp [sameAll]
    | cons e' events' =>
      rw [sameAll, Bool.and_eq_true, same_iff (h e List.mem_cons_self) (h' e' List.mem_cons_self),
        ih (fun e he => h e (List.mem_cons_of_mem _ he))
          (fun e he => h' e (List.mem_cons_of_mem _ he)), List.cons.injEq]

end Event

/-! ## Messages -/

/-- A message has no line break but one that it quotes. -/
theorem TokenError.not_mem_message {e : TokenError} (h : '\n' ∉ e.quoted.toList) :
    '\n' ∉ e.message.toList := by
  rw [message_eq, String.toList_append, List.mem_append, not_or]
  refine ⟨?_, h⟩
  cases e <;> simp [label]

/-- The message of a token on one line is on one line. -/
theorem Token.not_mem_of_parse_mistake {token : List Char} {message : String} (hline : '\n' ∉ token)
    (h : parse token = some (.mistake message)) : '\n' ∉ message.toList := by
  obtain ⟨e, rfl, hfails⟩ := exists_failsWith_of_parse h
  have hquoted := (quoted_infix_of_failsWith hfails).trans (trim_isInfix token)
  exact TokenError.not_mem_message fun hmem => hline (hquoted.subset hmem)

/-! ## Events of scripts -/

namespace Script

variable {source : List Char} {e : Event}

theorem not_mem_of_mem_tokens {o : Occurrence} (h : o ∈ tokens source) : '\n' ∉ o.text := by
  have htext : o.text ∈ (tokens source).map Occurrence.text := List.mem_map_of_mem h
  rw [map_text_tokens, List.mem_flatMap] at htext
  obtain ⟨line, hline, htext⟩ := htext
  obtain ⟨piece, hpiece, heq⟩ := List.mem_map.mp (List.mem_of_mem_filter htext)
  have hpart : o.text <:+: line := by
    rw [← heq]
    exact (trim_isInfix piece).trans (infix_of_mem_splitOn hpiece)
  have hbreak := not_mem_of_mem_splitOn (List.mem_of_mem_filter hline)
  exact fun hmem => hbreak (hpart.subset hmem)

/-- An error event is the answer to a token. -/
theorem exists_token_of_error_mem_events {message : String}
    (h : .error message ∈ (events source).toList) :
    ∃ o ∈ tokens source, Token.parse o.text = some (.mistake message) := by
  rw [toList_events] at h
  obtain ⟨c, hc, hmem⟩ := List.mem_flatMap.mp h
  obtain rfl := Command.eq_of_error_mem_events hmem
  exact exists_token_of_mem_commands hc

theorem isPlain_of_mem_events (h : e ∈ (events source).toList) : e.IsPlain := by
  refine ⟨(hasPositiveSize_of_mem_events h).hasFiniteSize, ?_⟩
  rintro message rfl
  obtain ⟨o, ho, hparse⟩ := exists_token_of_error_mem_events h
  exact Token.not_mem_of_parse_mistake (not_mem_of_mem_tokens ho) hparse

/-- Scripts have the same dump as text just if they have the same events, and so for their dumps as
JSON. The dump as text has a line for each event, since no message has a line break in it. -/
theorem dumps_lossless (source other : List Char) :
    (Event.linesText (events source).toList = Event.linesText (events other).toList ↔
      events source = events other) ∧
    (Event.jsonText (events source).toList = Event.jsonText (events other).toList ↔
      events source = events other) ∧
    (Event.sameAll (events source).toList (events other).toList = true ↔
      events source = events other) ∧
    (∀ message, .error message ∈ (events source).toList → '\n' ∉ message.toList) ∧
    (Event.linesText (events source).toList).toList.count '\n' = (events source).size ∧
    (Event.linesText (events source).toList).toList.splitOn '\n' =
      (events source).toList.map (fun e => e.text.toList) ++ [[]] := by
  have hplain : ∀ {source : List Char}, ∀ e ∈ (events source).toList, e.IsPlain :=
    fun _ => isPlain_of_mem_events
  have hfinite : ∀ {source : List Char}, ∀ e ∈ (events source).toList, e.HasFiniteSize :=
    fun _ h => (isPlain_of_mem_events h).finite
  have hpositive : ∀ {source : List Char}, ∀ e ∈ (events source).toList, e.HasPositiveSize :=
    fun _ => hasPositiveSize_of_mem_events
  refine ⟨?_, ?_, ?_, ?_, ?_, Event.splitOn_linesText hplain⟩
  · constructor
    · intro h
      exact Array.toList_inj.mp (Event.linesText_injective hplain hplain h)
    · intro h
      rw [h]
  · constructor
    · intro h
      exact Array.toList_inj.mp (Event.jsonText_injective hfinite hfinite h)
    · intro h
      rw [h]
  · rw [Event.sameAll_iff hpositive hpositive, Array.toList_inj]
  · intro message h
    exact (isPlain_of_mem_events h).oneLine message rfl
  · rw [Event.count_linesText hplain, Array.length_toList]

end Script

end BlockScript
