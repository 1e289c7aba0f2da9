import BlockScript.Number.Layout
import BlockScript.Script.Basic

namespace BlockScript

/-! # Draw events

Running a script delivers draw events to a renderer, in order. A renderer is what it does to its
state on each kind of event; `Event.deliver` sends one event, and `execute` those of a command list.
-/

inductive Event where
  | block (size : Binary64) (colour : Colour)
  | space (size : Binary64)
  | lineBreak
  | error (message : String)
deriving DecidableEq, Inhabited

/-- What a renderer does to its state `σ` on each kind of event. -/
structure Renderer (σ : Type) where
  drawBlock : Binary64 → Colour → σ → σ
  drawSpace : Binary64 → σ → σ
  lineBreak : σ → σ
  displayError : String → σ → σ

namespace Event

/-- Delivers one event. -/
def deliver {σ : Type} (r : Renderer σ) : Event → σ → σ
  | block size colour => r.drawBlock size colour
  | space size => r.drawSpace size
  | lineBreak => r.lineBreak
  | error message => r.displayError message

/-- Delivers events in order. -/
def deliverAll {σ : Type} (r : Renderer σ) (events : List Event) (s : σ) : σ :=
  events.foldl (fun s e => e.deliver r s) s

/-- The event as a line. -/
def text : Event → String
  | block size colour => "block " ++ NumberLayout.plain.text size ++ " " ++ colour.text
  | space size => "space " ++ NumberLayout.plain.text size
  | lineBreak => "end"
  | error message => "error: " ++ message

/-- Equality by the numbers' own equality: an event with a NaN differs from itself. -/
def same : Event → Event → Bool
  | block s c, block s' c' => s.same s' && c == c'
  | space s, space s' => s.same s'
  | lineBreak, lineBreak => true
  | error m, error m' => m == m'
  | _, _ => false

/-- Whether two lists of events are equal, event by event. -/
def sameAll : List Event → List Event → Bool
  | [], [] => true
  | e :: es, e' :: es' => e.same e' && sameAll es es'
  | _, _ => false

end Event

/-- `f` applied `n` times. -/
def times {σ : Type} (f : σ → σ) : Nat → σ → σ
  | 0, s => s
  | n + 1, s => times f n (f s)

namespace Command

/-- Runs one command. A block command draws its block once for each repetition. -/
def run {σ : Type} (r : Renderer σ) : Command → σ → σ
  | block spec => times (r.drawBlock spec.size spec.colour) spec.repetitions
  | space size => r.drawSpace size
  | newline => r.lineBreak
  | mistake message => r.displayError message

end Command

/-- Runs commands in order. -/
def execute {σ : Type} (r : Renderer σ) (commands : List Command) (s : σ) : σ :=
  commands.foldl (fun s c => c.run r s) s

/-- The renderer that records the events it receives. -/
def recorder : Renderer (Array Event) where
  drawBlock size colour events := events.push (.block size colour)
  drawSpace size events := events.push (.space size)
  lineBreak events := events.push .lineBreak
  displayError message events := events.push (.error message)

namespace Script

/-- Reads a script and runs it. -/
def run {σ : Type} (r : Renderer σ) (source : List Char) (s : σ) : σ :=
  execute r (commands source) s

/-- The events of a script. -/
def events (source : List Char) : Array Event := run recorder source #[]

end Script

end BlockScript
