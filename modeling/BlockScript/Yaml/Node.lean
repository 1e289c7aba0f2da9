import BlockScript.Yaml.Token

namespace BlockScript.Yaml

/-! # Nodes

The value that a YAML document holds: scalars, sequences and mappings. An alias stands for a node
elsewhere in the document, which it names by a number.
-/

structure Scalar where
  style : ScalarStyle
  /-- The tag in full, if the scalar has one. -/
  tag : Option Octets
  text : List Char
deriving DecidableEq

inductive Node where
  | scalar (scalar : Scalar)
  | alias (number : Nat)
  | sequence (items : List Node)
  | mapping (entries : List (Node × Node))

namespace Node

/-- What stands where no node is written. -/
def nothing : Node := .scalar ⟨.plain, none, []⟩

end Node

/-! ## Anchors

The number of an anchor is how many names were in use before it. Giving a name again takes a new
number but leaves the count of names, so a later name may get the same number. The last node to
begin with a number is the one that it stands for.
-/

structure Anchors where
  /-- Names and their numbers, the latest first. -/
  numbers : List (List Char × Nat) := []
  /-- The numbers of the anchored nodes in the order they begin, the latest first. -/
  begun : List Nat := []
  /-- The anchored nodes that are complete, by their place in that order. -/
  nodes : List (Nat × Node) := []

namespace Anchors

/-- How many different names there are. -/
def nameCount (a : Anchors) : Nat := (a.numbers.map (·.1)).eraseDups.length

/-- Begins a node with an anchor. -/
def start (a : Anchors) (name : List Char) : Anchors :=
  { a with numbers := (name, a.nameCount) :: a.numbers, begun := a.nameCount :: a.begun }

/-- The number that a name has now. -/
def number? (a : Anchors) (name : List Char) : Option Nat := a.numbers.lookup name

/-- Completes the node that began as the one at `place`. -/
def finish (a : Anchors) (place : Nat) (node : Node) : Anchors :=
  { a with nodes := (place, node) :: a.nodes }

/-- The node that a number stands for. -/
def node? (a : Anchors) (number : Nat) : Option Node :=
  match a.begun.findIdx? (· == number) with
  | some later => a.nodes.lookup (a.begun.length - 1 - later)
  | none => none

end Anchors

structure Document where
  /-- The value; `Node.nothing` in an empty text. -/
  root : Node
  anchors : Anchors := {}

namespace Document

/-- The node itself, or the one that an alias stands for. -/
def resolve (d : Document) : Node → Option Node
  | .alias number => d.anchors.node? number
  | node => some node

end Document

end BlockScript.Yaml
