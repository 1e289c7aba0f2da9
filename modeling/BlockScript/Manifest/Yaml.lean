import BlockScript.Manifest.Basic
import BlockScript.Yaml.Core
import BlockScript.Yaml.Document
import BlockScript.Yaml.Writer

namespace BlockScript

/-! # Manifests as YAML

A manifest is a mapping from the names of settings to their values. Settings may be left out, and
unknown names are skipped, but no setting is given twice. `Manifest.yaml` writes every setting.
-/

inductive Setting where
  | sources
  | output
  | unit
  | background
  | excludes
deriving DecidableEq, Repr

namespace Setting

def name : Setting → String
  | sources => "sources"
  | output => "output"
  | unit => "unit"
  | background => "background"
  | excludes => "excludes"

/-- The settings, in the order that they are written in. -/
def all : List Setting := [sources, output, unit, background, excludes]

/-- The setting with a name. -/
def named? (name : List Char) : Option Setting := all.find? fun s => s.name.toList == name

end Setting

namespace Yaml.Document

/-- The text of a scalar, in whatever style. -/
def text? (d : Document) (node : Node) : Option String :=
  match d.resolve node with
  | some (.scalar s) => some (String.ofList s.text)
  | _ => none

/-- The texts of a sequence. Nothing stands for an empty one. -/
def texts? (d : Document) (node : Node) : Option (List String) :=
  match d.resolve node with
  | some (.sequence items) => items.mapM d.text?
  | some (.scalar s) => if s.style = .plain ∧ s.text = [] then some [] else none
  | _ => none

/-- The whole number up to `limit` that a node stands for. Only plain scalars stand for numbers,
and literal ones that are tagged so. -/
def number? (d : Document) (limit : Nat) (node : Node) : Option Nat :=
  match d.resolve node with
  | some (.scalar s) =>
    if s.style = .plain ∨ (s.style = .literal ∧ s.tag = some intTag) then
      (unsigned? s.text).filter (· ≤ limit)
    else none
  | _ => none

end Yaml.Document

namespace Manifest

/-- The manifest with one setting read from a node. -/
def set? (m : Manifest) (d : Yaml.Document) (setting : Setting) (value : Yaml.Node) :
    Option Manifest :=
  match setting with
  | .sources => (d.texts? value).map fun sources => { m with sources }
  | .output => (d.text? value).map fun output => { m with output }
  | .unit => (d.number? maxUnit value).map fun unit => { m with unit }
  | .background => (d.text? value).map fun background => { m with background }
  | .excludes => (d.texts? value).map fun excludes => { m with excludes }

/-- The manifest with the settings of a mapping's entries; `given` are those it has already. -/
def setAll? (d : Yaml.Document) :
    Manifest → List Setting → List (Yaml.Node × Yaml.Node) → Option Manifest
  | m, _, [] => some m
  | m, given, (key, value) :: rest =>
    match d.text? key with
    | none => none
    | some name =>
      match Setting.named? name.toList with
      | none => setAll? d m given rest
      | some setting =>
        if given.contains setting then none
        else
          match m.set? d setting value with
          | none => none
          | some m => setAll? d m (setting :: given) rest

/-- The manifest that a document holds. -/
def ofDocument? (d : Yaml.Document) : Option Manifest :=
  match d.root with
  | .scalar s => if s.style = .plain ∧ s.text = [] then some {} else none
  | .mapping entries => setAll? d {} [] entries
  | _ => none

/-- Reads a manifest that makes sense. -/
def parse (text : String) : Except Fault Manifest :=
  match (Yaml.Document.parse? text.toList).bind ofDocument? with
  | none => .error .badManifest
  | some m =>
    match m.validate with
    | .ok _ => .ok m
    | .error fault => .error fault

/-- The value of a setting, from behind the colon to the end of its last line. -/
def valueLines (m : Manifest) : Setting → List Char
  | .sources => Yaml.listLines (m.sources.map String.toList)
  | .output => ' ' :: Yaml.scalarLine m.output.toList
  | .unit => ' ' :: (toString m.unit).toList ++ ['\n']
  | .background => ' ' :: Yaml.scalarLine m.background.toList
  | .excludes => Yaml.listLines (m.excludes.map String.toList)

/-- The manifest as YAML. -/
def yaml (m : Manifest) : String :=
  String.ofList (Setting.all.flatMap fun s => s.name.toList ++ ':' :: m.valueLines s)

end Manifest

end BlockScript
