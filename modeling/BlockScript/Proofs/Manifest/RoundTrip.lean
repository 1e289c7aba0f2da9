import BlockScript.Manifest.Yaml
import BlockScript.Proofs.Yaml.Mappings
import BlockScript.Proofs.Yaml.WholeNumbers

namespace BlockScript

/-! # Manifests that come back

Reading what `Manifest.yaml` writes gives the same manifest, or says what is wrong with its
settings (`Manifest.parse_yaml`). The written text is a mapping with a value for each setting, so
its document is known, and the settings are taken from that one by one.
-/

/-- Whether the text has no line break of its own: no line feed and no line or paragraph separator.
Other control characters may stand in it. -/
def IsOneLine (text : String) : Prop := ∀ c ∈ text.toList, Yaml.isBreak c = false

instance (text : String) : Decidable (IsOneLine text) :=
  List.decidableBAll _ _

namespace Manifest

open Yaml (Value WritesItems WritesValue WritesEntries IsKeyName scalarNode entryNodes)

variable {m : Manifest} {d : Yaml.Document}

/-- The texts of the settings. -/
def texts (m : Manifest) : List String := m.output :: m.background :: m.sources ++ m.excludes

/-! ## What is written -/

/-- A text and the style that it is written in. -/
def styled (text : String) : Yaml.ScalarStyle × List Char :=
  (Yaml.styleOf text.toList, text.toList)

/-- The value that is written for a setting. -/
def value (m : Manifest) : Setting → Value
  | .sources => .list (m.sources.map styled)
  | .output => .scalar (styled m.output).1 (styled m.output).2
  | .unit => .scalar .plain (toString m.unit).toList
  | .background => .scalar (styled m.background).1 (styled m.background).2
  | .excludes => .list (m.excludes.map styled)

theorem writesItems_texts {texts : List String} (h : ∀ text ∈ texts, IsOneLine text) :
    WritesItems ((texts.map String.toList).flatMap fun text => ['-', ' '] ++ Yaml.scalarLine text)
      (texts.map styled) := by
  induction texts with
  | nil => exact WritesItems.nil
  | cons text texts ih =>
    rcases List.forall_mem_cons.mp h with ⟨htext, htexts⟩
    exact WritesItems.cons (Yaml.writesScalar_scalarLine htext) (ih htexts)

theorem writesValue_texts {texts : List String} (h : ∀ text ∈ texts, IsOneLine text) :
    WritesValue (Yaml.listLines (texts.map String.toList)) (.list (texts.map styled)) := by
  cases texts with
  | nil => exact WritesValue.empty
  | cons text texts => exact WritesValue.items (List.cons_ne_nil _ _) (writesItems_texts h)

theorem writesValue_setting (h : ∀ text ∈ m.texts, IsOneLine text) (s : Setting) :
    WritesValue (m.valueLines s) (m.value s) := by
  simp only [texts, List.cons_append, List.forall_mem_cons, List.forall_mem_append] at h
  rcases h with ⟨houtput, hbackground, hsources, hexcludes⟩
  cases s with
  | sources => exact writesValue_texts hsources
  | output => exact WritesValue.scalar (Yaml.writesScalar_scalarLine houtput)
  | unit => exact WritesValue.scalar (Yaml.writesScalar_toString m.unit)
  | background => exact WritesValue.scalar (Yaml.writesScalar_scalarLine hbackground)
  | excludes => exact writesValue_texts hexcludes

theorem isKeyName_setting (s : Setting) : IsKeyName s.name.toList := by
  cases s <;> exact ⟨by decide, by decide, by decide⟩

/-- The name of a setting and its value. -/
def entry (m : Manifest) (s : Setting) : List Char × Value := (s.name.toList, m.value s)

theorem writesEntries_settings (h : ∀ text ∈ m.texts, IsOneLine text) (settings : List Setting) :
    WritesEntries (settings.flatMap fun s => s.name.toList ++ ':' :: m.valueLines s)
      (settings.map m.entry) := by
  induction settings with
  | nil => exact WritesEntries.nil
  | cons s settings ih =>
    exact WritesEntries.cons (isKeyName_setting s) (writesValue_setting h s) ih

/-- The document that is written. -/
def document (m : Manifest) : Yaml.Document :=
  { root := .mapping ((Setting.all.map m.entry).map entryNodes) }

theorem parse?_yaml (h : ∀ text ∈ m.texts, IsOneLine text) :
    Yaml.Document.parse? m.yaml.toList = some m.document := by
  rw [yaml, String.toList_ofList]
  exact Yaml.Document.parse?_of_writes (writesEntries_settings h Setting.all)
    (by simp [Setting.all])

/-! ## What is read -/

@[simp] theorem text?_scalarNode (item : Yaml.ScalarStyle × List Char) :
    d.text? (scalarNode item) = some (String.ofList item.2) := rfl

theorem texts?_list (texts : List String) :
    d.texts? (Value.list (texts.map styled)).node = some texts := by
  have hitems : ((texts.map styled).map scalarNode).mapM d.text? = some texts := by
    induction texts with
    | nil => rfl
    | cons text texts ih =>
      rw [List.map_cons, List.map_cons, List.mapM_cons, ih]
      simp [styled]
  exact hitems

theorem number?_unit (hunit : m.unit ≤ maxUnit) :
    d.number? maxUnit (m.value .unit).node = some m.unit := by
  have hfilter : (some m.unit).filter (· ≤ maxUnit) = some m.unit := by
    simp [Option.filter, hunit]
  rw [← hfilter, ← Yaml.unsigned?_toString m.unit]
  rfl

/-- The other manifest with one setting of this one. -/
def give (m : Manifest) (other : Manifest) : Setting → Manifest
  | .sources => { other with sources := m.sources }
  | .output => { other with output := m.output }
  | .unit => { other with unit := m.unit }
  | .background => { other with background := m.background }
  | .excludes => { other with excludes := m.excludes }

theorem set?_value (hunit : m.unit ≤ maxUnit) (other : Manifest) (s : Setting) :
    other.set? d s (m.value s).node = some (m.give other s) := by
  cases s with
  | sources => simp [set?, value, texts?_list, give]
  | output => simp [set?, value, Value.node, styled, give]
  | unit => simp [set?, number?_unit hunit, give]
  | background => simp [set?, value, Value.node, styled, give]
  | excludes => simp [set?, value, texts?_list, give]

theorem named?_name (s : Setting) : Setting.named? s.name.toList = some s := by
  cases s <;> decide

theorem setAll?_entries (hunit : m.unit ≤ maxUnit) (settings given : List Setting)
    (hnodup : (given ++ settings).Nodup) (other : Manifest) :
    setAll? d other given ((settings.map m.entry).map entryNodes) =
      some (settings.foldl m.give other) := by
  induction settings generalizing given other with
  | nil => rfl
  | cons s settings ih =>
    have hs : given.contains s = false := by
      rw [← Bool.not_eq_true, List.contains_iff_mem]
      exact fun hmem => (List.nodup_append.mp hnodup).2.2 s hmem s List.mem_cons_self rfl
    have hmore : ((s :: given) ++ settings).Nodup :=
      (List.perm_middle.nodup_iff).mp hnodup
    have hname : Setting.named? (String.ofList s.name.toList).toList = some s := by
      rw [String.toList_ofList]
      exact named?_name s
    simp only [List.map_cons, setAll?, entryNodes, entry, text?_scalarNode, hname, hs,
      set?_value hunit]
    exact ih (s :: given) hmore (m.give other s)

theorem ofDocument?_document (hunit : m.unit ≤ maxUnit) : ofDocument? m.document = some m := by
  have hread := setAll?_entries (d := m.document) hunit Setting.all [] (by decide) {}
  exact hread

theorem kind_of_validate {fault : Fault} (h : m.validate = .error fault) :
    fault.kind = .config := by
  unfold validate backgroundColour at h
  split at h
  · cases h
    rfl
  · split at h
    · cases h
    · next hcolour =>
      split at hcolour
      · cases hcolour
      · cases hcolour
        cases h
        rfl

/-- Reading a written manifest gives the manifest itself if its settings make sense, and else the
fault in them, which is one of the settings and not of the text. -/
theorem parse_yaml (m : Manifest) (hunit : m.unit ≤ maxUnit)
    (htexts : ∀ text ∈ m.texts, IsOneLine text) :
    (m.validate = .ok () → parse m.yaml = .ok m) ∧
      ∀ fault, m.validate = .error fault →
        fault.kind = .config ∧ parse m.yaml = .error fault := by
  have hread : (Yaml.Document.parse? m.yaml.toList).bind ofDocument? = some m := by
    rw [parse?_yaml htexts]
    exact ofDocument?_document hunit
  unfold parse
  rw [hread]
  constructor
  · intro hvalid
    simp only [hvalid]
  · intro fault hfault
    refine ⟨kind_of_validate hfault, ?_⟩
    simp only [hfault]

/-- Settings whose texts look like other YAML. -/
def lookalikes : Manifest where
  sources :=
    ["null", "true", "007", "1e5", "- x", "a: b", "#x", " x ", "", "'x'", "\"x\"", "\uFEFF"]
  output := "[]"
  unit := 3
  background := "#F80"
  excludes := []

theorem parse_yaml_lookalikes :
    (lookalikes.unit ≤ maxUnit ∧ ∀ text ∈ lookalikes.texts, IsOneLine text) ∧
      parse lookalikes.yaml = .ok lookalikes ∧
      parse { lookalikes with unit := 0 }.yaml = .error .zeroUnit ∧
      parse { lookalikes with background := "~" }.yaml = .error (.badBackground "~") := by
  have hunit : lookalikes.unit ≤ maxUnit := by decide
  have htexts : ∀ text ∈ lookalikes.texts, IsOneLine text := by decide +kernel
  have hother : ∀ text ∈ ({ lookalikes with background := "~" } : Manifest).texts,
      IsOneLine text := by decide +kernel
  refine ⟨⟨hunit, htexts⟩, ?_, ?_, ?_⟩
  · exact (parse_yaml lookalikes hunit htexts).1 (by decide +kernel)
  · exact ((parse_yaml { lookalikes with unit := 0 } (by decide) htexts).2 _ rfl).2
  · exact ((parse_yaml { lookalikes with background := "~" } hunit hother).2 _
      (by decide +kernel)).2

end Manifest

end BlockScript
