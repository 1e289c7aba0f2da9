import BlockScript.Drawing.Event

namespace BlockScript

/-! # Replaying events

Running commands is delivering their events one by one (`execute_eq_deliverAll`), and the recorder
keeps just these events (`toList_execute_recorder`). So a renderer cannot tell a run from a replay
of the recorded events, nor a block that is repeated from as many single blocks.
-/

namespace Command

/-- The events of a command: a block is drawn once for each repetition. -/
def events : Command → List Event
  | block spec => List.replicate spec.repetitions (.block spec.size spec.colour)
  | space size => [.space size]
  | newline => [.lineBreak]
  | mistake message => [.error message]

section
variable {c : Command} {size : Binary64} {colour : Colour} {message : String}

theorem eq_of_block_mem_events (h : .block size colour ∈ c.events) :
    ∃ spec, c = block spec ∧ spec.size = size ∧ spec.colour = colour := by
  cases c with
  | block spec =>
    obtain ⟨rfl, rfl⟩ := Event.block.inj (List.eq_of_mem_replicate h)
    exact ⟨spec, rfl, rfl, rfl⟩
  | space size => cases List.mem_singleton.mp h
  | newline => cases List.mem_singleton.mp h
  | mistake message => cases List.mem_singleton.mp h

theorem eq_of_space_mem_events (h : .space size ∈ c.events) : c = space size := by
  cases c with
  | block spec => cases List.eq_of_mem_replicate h
  | space size' => rw [Event.space.inj (List.mem_singleton.mp h)]
  | newline => cases List.mem_singleton.mp h
  | mistake message => cases List.mem_singleton.mp h

theorem eq_of_error_mem_events (h : .error message ∈ c.events) : c = mistake message := by
  cases c with
  | block spec => cases List.eq_of_mem_replicate h
  | space size => cases List.mem_singleton.mp h
  | newline => cases List.mem_singleton.mp h
  | mistake message' => rw [Event.error.inj (List.mem_singleton.mp h)]

end

end Command

section
variable {σ : Type} (r : Renderer σ)

theorem deliverAll_append (events more : List Event) (s : σ) :
    Event.deliverAll r (events ++ more) s =
      Event.deliverAll r more (Event.deliverAll r events s) :=
  List.foldl_append

/-- Equal events in a row are one call made several times. -/
theorem deliverAll_replicate (n : Nat) (e : Event) (s : σ) :
    Event.deliverAll r (List.replicate n e) s = times (e.deliver r) n s := by
  induction n generalizing s with
  | zero => rfl
  | succ n ih =>
    rw [List.replicate_succ, times, ← ih]
    rfl

/-- One command makes the calls of its events. -/
theorem run_eq_deliverAll (c : Command) (s : σ) :
    c.run r s = Event.deliverAll r c.events s := by
  cases c with
  | block spec =>
    exact (deliverAll_replicate r spec.repetitions (.block spec.size spec.colour) s).symm
  | space size => rfl
  | newline => rfl
  | mistake message => rfl

/-- A run makes the calls of its events, command by command. -/
theorem execute_eq_deliverAll (commands : List Command) (s : σ) :
    execute r commands s = Event.deliverAll r (commands.flatMap Command.events) s := by
  induction commands generalizing s with
  | nil => rfl
  | cons c commands ih =>
    rw [List.flatMap_cons, deliverAll_append, ← run_eq_deliverAll, ← ih]
    rfl

end

/-! ## Recording -/

theorem deliver_recorder (e : Event) (log : Array Event) : e.deliver recorder log = log.push e := by
  cases e <;> rfl

theorem toList_deliverAll_recorder (events : List Event) (log : Array Event) :
    (Event.deliverAll recorder events log).toList = log.toList ++ events := by
  induction events generalizing log with
  | nil => exact (List.append_nil _).symm
  | cons e events ih =>
    have hstep : Event.deliverAll recorder (e :: events) log =
        Event.deliverAll recorder events (log.push e) := by
      rw [← deliver_recorder]
      rfl
    rw [hstep, ih, Array.toList_push, List.append_assoc, List.singleton_append]

/-- The recorder keeps the events of the commands, in order. -/
theorem toList_execute_recorder (commands : List Command) :
    (execute recorder commands #[]).toList = commands.flatMap Command.events := by
  rw [execute_eq_deliverAll, toList_deliverAll_recorder]
  rfl

/-- The events of a script are those of its commands. -/
theorem toList_events (source : List Char) :
    (Script.events source).toList = (Script.commands source).flatMap Command.events :=
  toList_execute_recorder _

/-! ## Repetitions -/

/-- The events of a block that is repeated are those of as many single blocks. -/
theorem events_of_repetitions (spec : BlockSpec) (n : Nat) :
    (List.replicate n (Command.block { spec with repetitions := 1 })).flatMap Command.events =
      (Command.block { spec with repetitions := n }).events := by
  induction n with
  | zero => rfl
  | succ n ih =>
    rw [List.replicate_succ, List.flatMap_cons, ih]
    rfl

/-- No renderer can tell a run from a replay of the recorded events: both make the same calls, each
block once for every repetition. -/
theorem execute_eq_replay {σ : Type} (r : Renderer σ) (s : σ) (commands : List Command)
    (source : List Char) (before after : List Command) (spec : BlockSpec) (n : Nat) :
    execute r commands s = Event.deliverAll r (execute recorder commands #[]).toList s ∧
    (execute recorder commands #[]).toList = commands.flatMap Command.events ∧
    Script.run r source s = Event.deliverAll r (Script.events source).toList s ∧
    execute r (before ++ .block { spec with repetitions := n } :: after) s =
      execute r
        (before ++ List.replicate n (.block { spec with repetitions := 1 }) ++ after) s := by
  refine ⟨?_, toList_execute_recorder commands, ?_, ?_⟩
  · rw [toList_execute_recorder]
    exact execute_eq_deliverAll r commands s
  · rw [toList_events]
    exact execute_eq_deliverAll r (Script.commands source) s
  · -- the events are the same, and a run depends on nothing else
    have hevents := events_of_repetitions spec n
    rw [execute_eq_deliverAll, execute_eq_deliverAll]
    simp only [List.flatMap_append, List.flatMap_cons, hevents, List.append_assoc]

end BlockScript
