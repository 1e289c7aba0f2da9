import BlockScript.Proofs.Output.Streaming

namespace BlockScript

/-! # A dump while it is written

A text writer followed event by event. After any events its sink holds as much of their dump as its
budget takes, and the first write that fails is the last one that is tried
(`TextWriter.streams_dump`): from then on the writer stays as it is, whatever events still come, and
closing it does not flush. How the line of an event is cut into pieces for the sink is of no account
(`emitPieces_eq_emit`), since a sink that is full in the middle of a line takes no later piece.
-/

namespace Sink

/-- Writes pieces one after the other, up to the first that does not fit. -/
def writePieces (s : Sink) : List String → Sink × Option StreamFailure
  | [] => (s, none)
  | piece :: rest =>
    match s.write piece with
    | (t, none) => t.writePieces rest
    | (t, some failure) => (t, some failure)

/-- Pieces leave what the whole text leaves. -/
theorem writePieces_eq_write (s : Sink) (pieces : List String) :
    s.writePieces pieces = s.write (String.join pieces) := by
  induction pieces generalizing s with
  | nil => exact (write_empty s).symm
  | cons piece rest ih =>
    rw [writePieces, String.join_cons, write_append]
    rcases s.write piece with ⟨t, _ | failure⟩
    · exact ih t
    · rfl

/-- Writing does not flush the sink, nor change how it takes a flush. -/
theorem write_keeps_flush (s : Sink) (text : String) :
    (s.write text).1.flushes = s.flushes ∧ (s.write text).1.flushFails = s.flushFails := by
  cases hroom : s.room with
  | none =>
    rw [write_of_room_none hroom]
    exact ⟨rfl, rfl⟩
  | some left =>
    rcases Nat.lt_or_ge left (utf8Bytes text).size with h | h
    · rw [write_of_lt hroom h]
      exact ⟨rfl, rfl⟩
    · rw [write_of_le hroom h]
      exact ⟨rfl, rfl⟩

theorem flush_snd_eq_none_iff (s : Sink) : s.flush.2 = none ↔ s.flushFails = false := by
  rcases s with ⟨bytes, room, flushFails, flushes⟩
  cases flushFails <;> simp [flush]

end Sink

namespace TextWriter

/-- Writes the line of an event in pieces, unless writing has failed before. -/
def emitPieces (w : TextWriter) (pieces : List String) : TextWriter :=
  match w.failure with
  | some _ => w
  | none => ⟨(w.sink.writePieces pieces).1, (w.sink.writePieces pieces).2⟩

theorem emitPieces_eq_emit (w : TextWriter) {e : Event} {pieces : List String}
    (h : String.join pieces = e.line) : w.emitPieces pieces = w.emit e := by
  rw [emit_eq_put, ← h]
  unfold emitPieces put
  cases w.failure with
  | some f => rfl
  | none => rw [Sink.writePieces_eq_write]

/-- A writer that has failed leaves its sink alone, even one that has room. -/
theorem deliverAll_of_failed (events : List Event) (sink : Sink) (failure : StreamFailure) :
    Event.deliverAll renderer events ⟨sink, some failure⟩ = ⟨sink, some failure⟩ := by
  rw [deliverAll_eq_put]
  rfl

theorem deliverAll_eq_self {w : TextWriter} {failure : StreamFailure}
    (h : w.failure = some failure) (events : List Event) :
    Event.deliverAll renderer events w = w := by
  rcases w with ⟨sink, _ | f⟩
  · cases h
  · exact deliverAll_of_failed events sink f

/-- A writer that ends up failed has met the failure at one event, where it was the first. -/
theorem exists_first_failure {events : List Event} {w : TextWriter} {failure : StreamFailure}
    (hstart : w.failure = none)
    (hend : (Event.deliverAll renderer events w).failure = some failure) :
    ∃ before e rest, events = before ++ e :: rest ∧
      (Event.deliverAll renderer before w).failure = none ∧
      ((Event.deliverAll renderer before w).sink.write e.line).2 = some failure := by
  induction events generalizing w with
  | nil =>
    rw [show Event.deliverAll renderer [] w = w from rfl, hstart] at hend
    cases hend
  | cons e events ih =>
    have hstep : Event.deliverAll renderer (e :: events) w =
        Event.deliverAll renderer events (e.deliver renderer w) := rfl
    have hemit : e.deliver renderer w = ⟨(w.sink.write e.line).1, (w.sink.write e.line).2⟩ := by
      rw [deliver_eq_put]
      unfold put
      rw [hstart]
    rw [hstep] at hend
    cases hnext : (e.deliver renderer w).failure with
    | some f =>
      -- this event fails, and nothing changes after it
      rw [deliverAll_eq_self hnext, hnext] at hend
      refine ⟨[], e, events, rfl, hstart, ?_⟩
      rw [hemit] at hnext
      exact hnext.trans hend
    | none =>
      rcases ih hnext hend with ⟨before, e', rest, rfl, hbefore, hwrite⟩
      exact ⟨e :: before, e', rest, rfl, hbefore, hwrite⟩

theorem finish_eq_ok_iff {w : TextWriter} {sink : Sink} :
    w.finish = .ok sink ↔ w.failure = none ∧ w.sink.flush = (sink, none) := by
  rcases w with ⟨s, _ | failure⟩
  · unfold finish close
    rcases s.flush with ⟨t, _ | failure⟩ <;> simp
  · simp [finish, close]

/-- A sink with a budget of bytes, while events are written to it. After any events it holds as much
of their dump as fits, and writing has failed if that is not all of it. The failure is that of the
first event whose line did not fit; it is what the writer finishes with, and until then nothing more
is written or flushed, whatever sink stands there and whatever events come. Without a failure the
writer finishes with the sink if it can be flushed. The lines may go out in any pieces. -/
theorem streams_dump (budget : Nat) (flushFails : Bool) (events : List Event) :
    let start : TextWriter := { sink := { room := some budget, flushFails } }
    let w := Event.deliverAll renderer events start
    let dump := utf8Bytes (Event.linesText events)
    w.sink.bytes = dump.take (min budget dump.size) ∧
    (w.failure = none ↔ dump.size ≤ budget) ∧
    w.sink.flushes = 0 ∧
    (∀ failure, w.failure = some failure →
      (∃ before e rest, events = before ++ e :: rest ∧
        (Event.deliverAll renderer before start).failure = none ∧
        ((Event.deliverAll renderer before start).sink.write e.line).2 = some failure) ∧
      ∀ after : List Event,
        Event.deliverAll renderer (events ++ after) start = w ∧
        (Event.deliverAll renderer (events ++ after) start).close = (w.sink, some failure) ∧
        (Event.deliverAll renderer (events ++ after) start).finish = .error (.stream failure) ∧
        ∀ other : Sink,
          Event.deliverAll renderer after ⟨other, some failure⟩ = ⟨other, some failure⟩ ∧
          close ⟨other, some failure⟩ = (other, some failure)) ∧
    (∀ sink, w.finish = .ok sink ↔ w.failure = none ∧ w.sink.flush = (sink, none)) ∧
    (w.sink.flush.2 = none ↔ flushFails = false) ∧
    ∀ (e : Event) (pieces : List String), String.join pieces = e.line →
      w.emitPieces pieces = e.deliver renderer w := by
  intro start w dump
  -- the writer has written the dump at once
  have hw : w = ⟨(start.sink.write (Event.linesText events)).1,
      (start.sink.write (Event.linesText events)).2⟩ := deliverAll_eq_put events start
  have hfailed : ∀ failure, w.failure = some failure → ∀ after : List Event,
      Event.deliverAll renderer (events ++ after) start = w := by
    intro failure h after
    rw [deliverAll_append]
    exact deliverAll_eq_self h after
  have hbytes : w.sink.bytes = dump.take (min budget dump.size) ∧
      (w.failure = none ↔ dump.size ≤ budget) := by
    rw [hw]
    rcases Nat.lt_or_ge budget dump.size with h | h
    · rw [Sink.write_of_lt rfl h, Nat.min_eq_left (Nat.le_of_lt h)]
      refine ⟨Array.empty_append, ?_⟩
      simp [Nat.not_le.mpr h]
    · rw [Sink.write_of_le rfl h, Nat.min_eq_right h, Array.take_eq_extract, Array.extract_size]
      refine ⟨Array.empty_append, ?_⟩
      simp [h]
  have hflush := Sink.write_keeps_flush start.sink (Event.linesText events)
  refine ⟨hbytes.1, hbytes.2, ?_, ?_, fun sink => finish_eq_ok_iff, ?_, ?_⟩
  · rw [hw]
    exact hflush.1
  · intro failure h
    refine ⟨exists_first_failure rfl h, ?_⟩
    intro after
    rw [hfailed failure h after]
    refine ⟨rfl, ?_, ?_, ?_⟩
    · unfold close
      rw [h]
    · unfold finish close
      rw [h]
    · intro other
      exact ⟨deliverAll_of_failed after other failure, rfl⟩
  · rw [Sink.flush_snd_eq_none_iff, hw, hflush.2]
  · intro e pieces h
    rw [emitPieces_eq_emit w h, emit_eq_put, deliver_eq_put]

/-- The line of the error is cut in its first word. The line break behind it is not written, and the
flush, which would fail too, is not tried. -/
theorem streams_dump_cut :
    let start : TextWriter := { sink := { room := some 10, flushFails := true } }
    let events : List Event := [.space 3, .error "oops"]
    let w := Event.deliverAll renderer events start
    w.sink.bytes = utf8Bytes "space 3\ner" ∧
    w.failure = some .closed ∧
    Event.deliverAll renderer (events ++ [.lineBreak]) start = w ∧
    (Event.deliverAll renderer (events ++ [.lineBreak]) start).finish = .error (.stream .closed) ∧
    w.sink.flushes = 0 := by
  intro start events w
  have hclosed : w.failure = some .closed := by decide +kernel
  rcases streams_dump 10 true events with ⟨hbytes, -, hflushes, hfirst, -⟩
  rcases (hfirst .closed hclosed).2 [.lineBreak] with ⟨hsame, -, hfinish, -⟩
  refine ⟨?_, hclosed, hsame, hfinish, ?_⟩
  · rw [hbytes]
    decide +kernel
  · rw [hflushes]

end TextWriter

end BlockScript
