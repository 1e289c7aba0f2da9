import BlockScript.Fault
import BlockScript.Output.Dump
import BlockScript.Text.Basic

namespace BlockScript

/-! # Streaming the text dump

Dumps are written to sinks. A sink may have a budget of bytes: it takes what fits, and refuses every
further byte. It may also fail when it is flushed, and it counts how often that is tried. The text
dump is written by a renderer, the line of each event as it is drawn. The first failure is kept:
after it nothing more is written.
-/

/-! ## Sinks -/

structure Sink where
  bytes : Array UInt8 := #[]
  /-- Bytes that the sink still takes; nothing for no end. -/
  room : Option Nat := none
  flushFails : Bool := false
  /-- How often the sink was flushed. -/
  flushes : Nat := 0

namespace Sink

/-- Writes a text. When not all of it fits, the part that does is taken and the sink fails. -/
def write (s : Sink) (text : String) : Sink × Option StreamFailure :=
  let new := utf8Bytes text
  let { bytes, room, flushFails, flushes } := s
  match room with
  | none => ({ bytes := bytes ++ new, room := none, flushFails, flushes }, none)
  | some left =>
    if new.size ≤ left then
      ({ bytes := bytes ++ new, room := some (left - new.size), flushFails, flushes }, none)
    else ({ bytes := bytes ++ new.take left, room := some 0, flushFails, flushes }, some .closed)

/-- Flushes the sink, which changes nothing that it holds. -/
def flush (s : Sink) : Sink × Option StreamFailure :=
  let { bytes, room, flushFails, flushes } := s
  ({ bytes, room, flushFails, flushes := flushes + 1 },
    if flushFails then some .flushFailed else none)

end Sink

/-! ## The renderer -/

structure TextWriter where
  sink : Sink
  failure : Option StreamFailure := none

namespace TextWriter

/-- Writes the line of an event, unless writing has failed before. -/
def emit (w : TextWriter) (e : Event) : TextWriter :=
  let { sink, failure } := w
  match failure with
  | some f => { sink, failure := some f }
  | none =>
    let (sink, failure) := sink.write e.line
    { sink, failure }

/-- The writer as a renderer. -/
def renderer : Renderer TextWriter where
  drawBlock size colour w := w.emit (.block size colour)
  drawSpace size w := w.emit (.space size)
  lineBreak w := w.emit .lineBreak
  displayError message w := w.emit (.error message)

/-- Flushes the sink, unless writing has failed. Gives the sink and the first failure. -/
def close (w : TextWriter) : Sink × Option StreamFailure :=
  match w.failure with
  | some failure => (w.sink, some failure)
  | none => w.sink.flush

/-- The sink, or the first failure of writing or of the last flush. -/
def finish (w : TextWriter) : Except Fault Sink :=
  match w.close with
  | (_, some failure) => .error (.stream failure)
  | (sink, none) => .ok sink

end TextWriter

inductive DumpFormat where
  | text
  | json
deriving DecidableEq, Repr

/-- Runs a script and writes its events to a sink. Text goes out event by event; JSON, being one
value, goes out at the end. Gives the sink and what went wrong. -/
def writeEvents (source : List Char) (format : DumpFormat) (sink : Sink) :
    Sink × Option StreamFailure :=
  match format with
  | .text => (Script.run TextWriter.renderer source { sink }).close
  | .json =>
    match sink.write (Event.jsonText (Script.events source).toList ++ "\n") with
    | (sink, some failure) => (sink, some failure)
    | (sink, none) => sink.flush

end BlockScript
