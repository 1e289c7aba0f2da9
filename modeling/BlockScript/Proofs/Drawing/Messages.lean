import BlockScript.Drawing.Canvas
import BlockScript.Proofs.Drawing.Replay

namespace BlockScript

/-! # Messages

The messages of the error events of a script are those of its mistakes, in order. A canvas keeps
every message that reaches it, whether it still records items or is full.
-/

/-- The message of an error event. -/
def Event.mistake? : Event → Option String
  | error message => some message
  | _ => none

/-- The messages of the error events of a script, in order. -/
def Script.messages (source : List Char) : List String :=
  (events source).toList.filterMap Event.mistake?

/-! ## Events -/

/-- A command shows its mistake once, and a command without one shows none. -/
theorem filterMap_mistake?_command (c : Command) :
    c.events.filterMap Event.mistake? = c.mistake?.toList := by
  cases c with
  | block spec =>
    simp only [Command.events, List.filterMap_replicate, Event.mistake?]
    rfl
  | space size => rfl
  | newline => rfl
  | mistake message => rfl

theorem filterMap_mistake?_flatMap (commands : List Command) :
    (commands.flatMap Command.events).filterMap Event.mistake? =
      commands.filterMap Command.mistake? := by
  induction commands with
  | nil => rfl
  | cons c commands ih =>
    rw [List.flatMap_cons, List.filterMap_append, ih, filterMap_mistake?_command]
    cases h : c.mistake? with
    | none => rw [List.filterMap_cons_none h, Option.toList_none, List.nil_append]
    | some message => rw [List.filterMap_cons_some h, Option.toList_some, List.singleton_append]

/-- The error events of a script tell of the mistakes among its commands. -/
theorem messages_eq (source : List Char) :
    Script.messages source = (Script.commands source).filterMap Command.mistake? := by
  rw [Script.messages, toList_events, filterMap_mistake?_flatMap]

theorem mem_messages {message : String} {source : List Char} :
    message ∈ Script.messages source ↔ Event.error message ∈ (Script.events source).toList := by
  rw [Script.messages, List.mem_filterMap]
  constructor
  · rintro ⟨e, he, hmessage⟩
    cases e <;> simp [Event.mistake?] at hmessage
    rw [← hmessage]
    exact he
  · intro h
    exact ⟨.error message, h, rfl⟩

/-! ## Canvases -/

namespace Canvas

/-- A canvas that is not full records the item. -/
theorem place_of_lt {c : Canvas} (h : c.placed < maxItems) (size : Binary64) (colour : Colour) :
    c.place size colour =
      { c with current := c.current.place size colour, placed := c.placed + 1 } := by
  cases c
  exact if_pos h

/-- A full canvas only moves its cursor, and notes the first item it drops. -/
theorem place_of_le {c : Canvas} (h : maxItems ≤ c.placed) (size : Binary64) (colour : Colour) :
    c.place size colour =
      { c with
        current := c.current.skip size
        dropped := c.dropped + 1
        notes := if c.dropped = 0 then c.notes.push .canvasFull else c.notes } := by
  cases c
  exact if_neg (Nat.not_lt.mpr h)

/-- Placing an item touches no messages, even when the item is dropped. -/
theorem errors_place (c : Canvas) (size : Binary64) (colour : Colour) :
    (c.place size colour).errors = c.errors := by
  rcases Nat.lt_or_ge c.placed maxItems with h | h
  · rw [place_of_lt h]
  · rw [place_of_le h]

/-- An event adds its message, if it has one, whether the canvas is full or not. -/
theorem toList_errors_deliver (e : Event) (c : Canvas) :
    (e.deliver renderer c).errors.toList = c.errors.toList ++ e.mistake?.toList := by
  cases e with
  | block size colour =>
    show (c.place size colour).errors.toList = c.errors.toList ++ []
    rw [errors_place, List.append_nil]
  | space size => exact (List.append_nil _).symm
  | lineBreak => exact (List.append_nil _).symm
  | error message =>
    -- the square may be dropped, the message is not
    show ((c.place 1 .magenta).errors.push message).toList = c.errors.toList ++ [message]
    rw [errors_place, Array.toList_push]

/-- A run of events adds their messages in order. -/
theorem toList_errors_deliverAll (events : List Event) (c : Canvas) :
    (Event.deliverAll renderer events c).errors.toList =
      c.errors.toList ++ events.filterMap Event.mistake? := by
  induction events generalizing c with
  | nil => exact (List.append_nil _).symm
  | cons e events ih =>
    have hstep : Event.deliverAll renderer (e :: events) c =
        Event.deliverAll renderer events (e.deliver renderer c) := rfl
    rw [hstep, ih, toList_errors_deliver, List.append_assoc]
    cases h : e.mistake? with
    | none => rw [List.filterMap_cons_none h, Option.toList_none, List.nil_append]
    | some message => rw [List.filterMap_cons_some h, Option.toList_some, List.singleton_append]

end Canvas

/-- The canvas of a script has received its events. -/
theorem Script.canvas_eq_deliverAll (source : List Char) :
    canvas source = Event.deliverAll Canvas.renderer (events source).toList {} := by
  rw [canvas, run, execute_eq_deliverAll, toList_events]

/-- The canvas of a script keeps the messages of its error events. -/
theorem toList_errors_canvas (source : List Char) :
    (Script.canvas source).errors.toList = Script.messages source := by
  rw [Script.canvas_eq_deliverAll, Canvas.toList_errors_deliverAll, Script.messages]
  rfl

end BlockScript
