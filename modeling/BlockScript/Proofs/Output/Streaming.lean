import BlockScript.Program.Execute
import BlockScript.Proofs.Drawing.Replay
import BlockScript.Proofs.Script.Joining
import Mathlib

namespace BlockScript

/-! # Streaming

A dump goes to its sink in pieces, and the sink may fill up in the middle of any of them. How a text
is cut into pieces does not matter (`Sink.write_append`), and a writer that has failed stays as it
is. So a stream of events leaves in the sink what one write of the whole dump would leave
(`deliverAll_eq_put`): as much of it as fits.
-/

/-! ## Bytes -/

theorem utf8Bytes_append (a b : String) : utf8Bytes (a ++ b) = utf8Bytes a ++ utf8Bytes b := by
  rw [utf8Bytes, String.toUTF8, String.toByteArray_append, ByteArray.data_append]
  rfl

theorem take_append_of_size_le {α : Type} {n : Nat} {xs : Array α} (h : xs.size ≤ n)
    (ys : Array α) : (xs ++ ys).take n = xs ++ ys.take (n - xs.size) := by
  rw [Array.take_eq_extract, Array.take_eq_extract, Array.extract_append,
    Array.extract_eq_self_of_le h, Nat.zero_sub]

/-! ## Sinks -/

namespace Sink

variable {s : Sink} {left : Nat} {text : String}

/-- A sink without an end takes everything. -/
theorem write_of_room_none (hroom : s.room = none) (text : String) :
    s.write text = ({ s with bytes := s.bytes ++ utf8Bytes text }, none) := by
  obtain ⟨bytes, room, flushFails, flushes⟩ := s
  obtain rfl : room = none := hroom
  rfl

/-- A text that fits is taken. -/
theorem write_of_le (hroom : s.room = some left) (h : (utf8Bytes text).size ≤ left) :
    s.write text =
      ({ s with
        bytes := s.bytes ++ utf8Bytes text
        room := some (left - (utf8Bytes text).size) }, none) := by
  obtain ⟨bytes, room, flushFails, flushes⟩ := s
  obtain rfl : room = some left := hroom
  exact if_pos h

/-- Of a text that does not fit the first part is taken, and the sink is full. -/
theorem write_of_lt (hroom : s.room = some left) (h : left < (utf8Bytes text).size) :
    s.write text =
      ({ s with bytes := s.bytes ++ (utf8Bytes text).take left, room := some 0 },
        some .closed) := by
  obtain ⟨bytes, room, flushFails, flushes⟩ := s
  obtain rfl : room = some left := hroom
  exact if_neg (Nat.not_le.mpr h)

theorem write_empty (s : Sink) : s.write "" = (s, none) := by
  obtain ⟨bytes, room, flushFails, flushes⟩ := s
  cases room <;> simp [write, utf8Bytes]

/-- Two texts written one after the other leave what both in one leave: if the first does not fit,
the second is not tried, and nothing of it would fit. -/
theorem write_append (s : Sink) (a b : String) :
    s.write (a ++ b) =
      match s.write a with
      | (t, none) => t.write b
      | (t, some failure) => (t, some failure) := by
  have hsize : (utf8Bytes (a ++ b)).size = (utf8Bytes a).size + (utf8Bytes b).size := by
    rw [utf8Bytes_append, Array.size_append]
  cases hroom : s.room with
  | none =>
    rw [write_of_room_none hroom, write_of_room_none hroom, utf8Bytes_append, ← Array.append_assoc]
    exact (write_of_room_none (s := { s with bytes := s.bytes ++ utf8Bytes a }) hroom b).symm
  | some left =>
    rcases Nat.lt_or_ge left (utf8Bytes a).size with hfirst | hfirst
    · -- the first text fills the sink
      rw [write_of_lt hroom hfirst, write_of_lt hroom (by omega), utf8Bytes_append,
        Array.take_eq_extract, Array.take_eq_extract,
        Array.extract_append_of_stop_le_size_left (Nat.le_of_lt hfirst)]
    · rw [write_of_le hroom hfirst]
      show _ = Sink.write _ b
      rcases Nat.lt_or_ge (left - (utf8Bytes a).size) (utf8Bytes b).size with hsecond | hsecond
      · rw [write_of_lt rfl hsecond, write_of_lt hroom (by omega), utf8Bytes_append,
          take_append_of_size_le hfirst, Array.append_assoc]
      · rw [write_of_le rfl hsecond, write_of_le hroom (by omega), hsize, Nat.sub_sub,
          utf8Bytes_append, Array.append_assoc]

end Sink

/-! ## Writers -/

namespace TextWriter

/-- Writes a text, unless writing has failed before. -/
def put (w : TextWriter) (text : String) : TextWriter :=
  match w.failure with
  | some _ => w
  | none => ⟨(w.sink.write text).1, (w.sink.write text).2⟩

theorem emit_eq_put (w : TextWriter) (e : Event) : w.emit e = w.put e.line := by
  obtain ⟨sink, failure⟩ := w
  cases failure <;> rfl

theorem deliver_eq_put (e : Event) (w : TextWriter) : e.deliver renderer w = w.put e.line := by
  rw [← emit_eq_put]
  cases e <;> rfl

theorem put_empty (w : TextWriter) : w.put "" = w := by
  obtain ⟨sink, failure⟩ := w
  cases failure with
  | some f => rfl
  | none =>
    show TextWriter.mk (sink.write "").1 (sink.write "").2 = _
    rw [Sink.write_empty]

theorem put_append (w : TextWriter) (a b : String) : w.put (a ++ b) = (w.put a).put b := by
  obtain ⟨sink, failure⟩ := w
  cases failure with
  | some f => rfl
  | none =>
    show TextWriter.mk (sink.write (a ++ b)).1 (sink.write (a ++ b)).2 =
      (TextWriter.mk (sink.write a).1 (sink.write a).2).put b
    rw [Sink.write_append]
    rcases sink.write a with ⟨t, _ | failure⟩ <;> rfl

/-- A stream of events leaves what one write of its dump leaves. -/
theorem deliverAll_eq_put (events : List Event) (w : TextWriter) :
    Event.deliverAll renderer events w = w.put (Event.linesText events) := by
  induction events generalizing w with
  | nil => exact (put_empty w).symm
  | cons e events ih =>
    have hstep : Event.deliverAll renderer (e :: events) w =
        Event.deliverAll renderer events (e.deliver renderer w) := rfl
    have hline : Event.linesText (e :: events) = e.line ++ Event.linesText events := by
      have happend := Event.linesText_append [e] events
      rwa [List.singleton_append] at happend
    rw [hstep, ih, deliver_eq_put, hline, put_append]

end TextWriter

/-! ## Dumps of scripts -/

namespace Script

/-- The whole dump of a script. -/
def dump (source : List Char) : DumpFormat → String
  | .text => Event.linesText (events source).toList
  | .json => Event.jsonText (events source).toList ++ "\n"

end Script

/-- Whatever the format, a dump goes out as if it were written at once, and then the sink is flushed
if it took everything. -/
theorem writeEvents_eq_write (source : List Char) (format : DumpFormat) (sink : Sink) :
    writeEvents source format sink =
      match sink.write (Script.dump source format) with
      | (t, some failure) => (t, some failure)
      | (t, none) => t.flush := by
  cases format with
  | json => rfl
  | text =>
    -- the writer gets the events one by one, which is as good as their lines at once
    have hrun : Script.run TextWriter.renderer source { sink } =
        TextWriter.put { sink } (Script.dump source .text) := by
      rw [Script.run, execute_eq_deliverAll, TextWriter.deliverAll_eq_put, ← toList_events]
      rfl
    show TextWriter.close (Script.run TextWriter.renderer source { sink }) = _
    rw [hrun]
    show TextWriter.close ⟨(sink.write _).1, (sink.write _).2⟩ = _
    rcases sink.write (Script.dump source .text) with ⟨t, _ | failure⟩ <;> rfl

section
variable {source : List Char} {format : DumpFormat} {budget : Nat}

/-- A dump that fits is taken whole, and the sink is flushed once. -/
theorem writeEvents_of_le (h : (utf8Bytes (Script.dump source format)).size ≤ budget)
    (flushFails : Bool) :
    writeEvents source format { room := some budget, flushFails } =
      ({ bytes := utf8Bytes (Script.dump source format)
         room := some (budget - (utf8Bytes (Script.dump source format)).size)
         flushFails
         flushes := 1 },
        if flushFails then some .flushFailed else none) := by
  rw [writeEvents_eq_write, Sink.write_of_le rfl h, Array.empty_append]
  rfl

/-- A dump that does not fit fills the sink, which is not flushed. -/
theorem writeEvents_of_lt (h : budget < (utf8Bytes (Script.dump source format)).size)
    (flushFails : Bool) :
    writeEvents source format { room := some budget, flushFails } =
      ({ bytes := (utf8Bytes (Script.dump source format)).take budget
         room := some 0
         flushFails },
        some .closed) := by
  rw [writeEvents_eq_write, Sink.write_of_lt rfl h, Array.empty_append]

end

/-! ## Runs -/

/-- What a command reports when its output ends so. -/
def StreamFailure.report : Option StreamFailure → Except Fault Unit
  | none => .ok ()
  | some failure => .error (.stream failure)

theorem StreamFailure.report_eq_ok_iff {failure : Option StreamFailure} :
    report failure = .ok () ↔ failure = none := by
  cases failure <;> simp [report]

/-- A run of a script writes to the standard output, and reports how that went. -/
theorem Session.run_of_readScript {s : Session} {file : Path} {source : List Char}
    (h : s.readScript file = .ok source) (format : DumpFormat) :
    (s.run file format).1.output = (writeEvents source format s.output).1 ∧
      (s.run file format).2 = StreamFailure.report (writeEvents source format s.output).2 := by
  have houtput : (s.note (Script.runLog source)).output = s.output := rfl
  simp only [Session.run, h, houtput]
  rcases writeEvents source format s.output with ⟨output, _ | failure⟩ <;> exact ⟨rfl, rfl⟩

/-- A sink with a budget of bytes ends up with as much of the dump as fits. Writing succeeds when
that is all of it and the flush at the end does; of a dump that does not fit the sink reports the
end of its budget, and is not flushed. A run of the script fails as the sink does, with a fault of
the stream. -/
theorem writeEvents_within_budget (source : List Char) (format : DumpFormat) (budget : Nat)
    (flushFails : Bool) :
    let sink : Sink := { room := some budget, flushFails }
    let dump := utf8Bytes (Script.dump source format)
    let result := writeEvents source format sink
    result.1.bytes = dump.take (min budget dump.size) ∧
    (result.2 = none ↔ dump.size ≤ budget ∧ flushFails = false) ∧
    (budget < dump.size → result.2 = some .closed ∧ result.1.flushes = 0) ∧
    (dump.size ≤ budget → flushFails = true → result.2 = some .flushFailed) ∧
    (dump.size ≤ budget → result.1.flushes = 1) ∧
    ∀ (s : Session) (file : Path), s.readScript file = .ok source → s.output = sink →
      (s.run file format).1.output = result.1 ∧
      ((s.run file format).2 = .ok () ↔ result.2 = none) ∧
      ∀ failure, result.2 = some failure →
        ∃ fault, (s.run file format).2 = .error fault ∧ fault.kind = .stream ∧
          fault.message = "IO error: " ++ failure.message := by
  intro sink dump result
  have hreport : ∀ (s : Session) (file : Path), s.readScript file = .ok source →
      s.output = sink →
      (s.run file format).1.output = result.1 ∧
      ((s.run file format).2 = .ok () ↔ result.2 = none) ∧
      ∀ failure, result.2 = some failure →
        ∃ fault, (s.run file format).2 = .error fault ∧ fault.kind = .stream ∧
          fault.message = "IO error: " ++ failure.message := by
    intro s file hread hsink
    obtain ⟨houtput, hresult⟩ := Session.run_of_readScript hread format
    rw [hsink] at houtput hresult
    refine ⟨houtput, ?_, ?_⟩
    · rw [hresult]
      exact StreamFailure.report_eq_ok_iff
    · intro failure hfailure
      refine ⟨.stream failure, ?_, rfl, rfl⟩
      rw [hresult]
      exact congrArg StreamFailure.report hfailure
  rcases Nat.lt_or_ge budget dump.size with h | h
  · -- the dump does not fit: the last write fails, and nothing after it is tried
    have hresult := writeEvents_of_lt h flushFails
    have hfailure : result.2 = some .closed := congrArg Prod.snd hresult
    refine ⟨?_, ?_, fun _ => ⟨hfailure, congrArg (·.1.flushes) hresult⟩, ?_, ?_, hreport⟩
    · rw [Nat.min_eq_left (Nat.le_of_lt h)]
      exact congrArg (·.1.bytes) hresult
    · rw [hfailure]
      simp [Nat.not_le.mpr h]
    · exact fun hle => absurd h (Nat.not_lt.mpr hle)
    · exact fun hle => absurd h (Nat.not_lt.mpr hle)
  · -- the dump fits: only the flush can fail
    have hresult := writeEvents_of_le h flushFails
    have hfailure : result.2 = if flushFails then some .flushFailed else none :=
      congrArg Prod.snd hresult
    refine ⟨?_, ?_, ?_, ?_, fun _ => congrArg (·.1.flushes) hresult, hreport⟩
    · have hbytes : result.1.bytes = dump := congrArg (·.1.bytes) hresult
      rw [hbytes, Nat.min_eq_right h, Array.take_eq_extract, Array.extract_size]
    · rw [hfailure]
      cases flushFails <;> simp [h]
    · exact fun hlt => absurd hlt (Nat.not_lt.mpr h)
    · intro _ hfails
      rw [hfailure, if_pos hfails]

/-- The sink is full in the middle of the first word of the second line, so that its flush, which
would fail too, is not reached. -/
theorem writeEvents_within_budget_cut :
    let source := "space-3 oops".toList
    let s : Session :=
      { files := {}
        input := utf8Bytes "space-3 oops"
        output := { room := some 10, flushFails := true } }
    s.readScript Session.inputPath = .ok source ∧
    10 < (utf8Bytes (Script.dump source .text)).size ∧
    (s.run Session.inputPath .text).1.output.bytes = utf8Bytes "space 3\ner" ∧
    (s.run Session.inputPath .text).1.output.flushes = 0 ∧
    ∃ fault, (s.run Session.inputPath .text).2 = .error fault ∧
      fault.message = "IO error: closed" := by
  intro source s
  have hread : s.readScript Session.inputPath = .ok source := by decide +kernel
  have hlong : 10 < (utf8Bytes (Script.dump source .text)).size := by decide +kernel
  obtain ⟨hbytes, -, hshort, -, -, hrun⟩ := writeEvents_within_budget source .text 10 true
  obtain ⟨hclosed, hflushes⟩ := hshort hlong
  obtain ⟨houtput, -, hfault⟩ := hrun s Session.inputPath hread rfl
  obtain ⟨fault, hresult, -, hmessage⟩ := hfault .closed hclosed
  refine ⟨hread, hlong, ?_, ?_, fault, hresult, hmessage⟩
  · rw [houtput, hbytes]
    decide +kernel
  · rw [houtput, hflushes]

end BlockScript
