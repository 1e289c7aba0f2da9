import BlockScript.Proofs.Yaml.BlockLines
import BlockScript.Yaml.Document

namespace BlockScript.Yaml

/-! # The document of a written mapping

From the tokens of a written mapping the grammar makes the mapping with the same keys and values,
and nothing is left over (`Document.parse?_of_writes`). Each lemma says how much fuel suffices and
that the tokens behind are left alone.
-/

variable {directives : Directives} {anchors : Anchors} {fuel : Nat} {rest : List Token}

/-! ## Nodes -/

/-- An untagged scalar. -/
def scalarNode (item : ScalarStyle × List Char) : Node := .scalar ⟨item.1, none, item.2⟩

def Value.node : Value → Node
  | .scalar style text => scalarNode (style, text)
  | .list items => .sequence (items.map scalarNode)

def entryNodes (entry : List Char × Value) : Node × Node :=
  (scalarNode (.plain, entry.1), entry.2.node)

/-! ## Reading them -/

/-- Whether an open sequence ends in front of these tokens. -/
def EndsItems (rest : List Token) : Prop := ∀ tail, rest ≠ .blockEntry :: tail

/-- A token that neither is an alias nor labels a node. -/
def BeginsContent (t : Token) : Prop :=
  (∀ name, t ≠ .alias name) ∧ (∀ name, t ≠ .anchor name) ∧ ∀ tag, t ≠ .tag tag

/-- A node without labels is its content. -/
theorem node?_of_beginsContent {place : Place} {t : Token} (ht : BeginsContent t) :
    node? directives place (fuel + 1) ⟨t :: rest, anchors⟩ =
      content? directives place {} none fuel ⟨t :: rest, anchors⟩ := by
  rcases ht with ⟨halias, hanchor, htag⟩
  have hlabels : Labels.read (t :: rest) = ({}, t :: rest) := by
    unfold Labels.read
    split <;> simp_all
  rw [node?]
  split
  · next heq => exact absurd (List.cons.inj heq).1 (halias _)
  · simp [hlabels, Labels.fullTag?, Reading.goTo]

theorem nodeBefore?_of_beginsContent {place : Place} {ends : List Token} {t : Token}
    (ht : BeginsContent t) (hends : t ∉ ends) :
    nodeBefore? directives place ends (fuel + 2) ⟨t :: rest, anchors⟩ =
      content? directives place {} none fuel ⟨t :: rest, anchors⟩ := by
  have hat : (Reading.isAt ⟨t :: rest, anchors⟩ ends) = false := by
    simpa [Reading.isAt] using hends
  rw [nodeBefore?, hat, if_neg (by decide), node?_of_beginsContent ht]

theorem nodeBefore?_scalar {place : Place} {ends : List Token} (item : ScalarStyle × List Char)
    (hends : Token.scalar item.1 item.2 ∉ ends) (hfuel : 3 ≤ fuel) :
    nodeBefore? directives place ends fuel ⟨.scalar item.1 item.2 :: rest, anchors⟩ =
      some (scalarNode item, ⟨rest, anchors⟩) := by
  rcases Nat.exists_eq_add_of_le' hfuel with ⟨fuel, rfl⟩
  rw [nodeBefore?_of_beginsContent (by simp [BeginsContent]) hends, content?]
  rfl

theorem openItems?_of_items (items : List (ScalarStyle × List Char)) (hrest : EndsItems rest)
    (hfuel : items.length + 4 ≤ fuel) :
    openItems? directives fuel ⟨items.flatMap itemTokens ++ rest, anchors⟩ =
      some (items.map scalarNode, ⟨rest, anchors⟩) := by
  induction items generalizing fuel with
  | nil =>
    rcases Nat.exists_eq_succ_of_ne_zero (by omega : fuel ≠ 0) with ⟨fuel, rfl⟩
    rw [List.flatMap_nil, List.nil_append, openItems?]
    split
    · next tail heq => exact absurd heq (hrest tail)
    · rfl
  | cons item items ih =>
    rw [List.length_cons] at hfuel
    rcases Nat.exists_eq_succ_of_ne_zero (by omega : fuel ≠ 0) with ⟨fuel, rfl⟩
    have hitem : nodeBefore? directives .inBlock [.blockEntry, .key, .value, .blockEnd] fuel
        ⟨.scalar item.1 item.2 :: (items.flatMap itemTokens ++ rest), anchors⟩ =
          some (scalarNode item, ⟨items.flatMap itemTokens ++ rest, anchors⟩) :=
      nodeBefore?_scalar item (by simp) (by omega)
    have hmore : openItems? directives fuel ⟨items.flatMap itemTokens ++ rest, anchors⟩ =
        some (items.map scalarNode, ⟨rest, anchors⟩) := ih (by omega)
    rw [List.flatMap_cons, List.append_assoc, itemTokens, List.cons_append, openItems?]
    simp [Reading.goTo, hitem, hmore]

/-! ## Values and entries -/

theorem length_le_itemTokens (items : List (ScalarStyle × List Char)) :
    items.length ≤ (items.flatMap itemTokens).length := by
  induction items with
  | nil => exact le_rfl
  | cons item items ih =>
    simp only [List.flatMap_cons, List.length_append, List.length_cons, itemTokens]
    omega

theorem content?_of_value (value : Value) (hrest : EndsItems rest)
    (hfuel : value.tokens.length + 5 ≤ fuel) :
    content? directives .inMapping {} none fuel ⟨value.tokens ++ rest, anchors⟩ =
      some (value.node, ⟨rest, anchors⟩) := by
  rcases Nat.exists_eq_add_of_le' (by omega : 2 ≤ fuel) with ⟨fuel, rfl⟩
  cases value with
  | scalar style text => rfl
  | list items =>
    cases items with
    | nil => rfl
    | cons item items =>
      have hlength := length_le_itemTokens (item :: items)
      have hread : openItems? directives (fuel + 1)
          ⟨(item :: items).flatMap itemTokens ++ rest, anchors⟩ =
            some ((item :: items).map scalarNode, ⟨rest, anchors⟩) :=
        openItems?_of_items _ hrest (by simp only [Value.tokens] at hfuel; omega)
      exact congrArg (Option.map sequenceOf) hread

/-- No key or value begins with one of these tokens. -/
theorem Value.exists_tokens_eq (value : Value) :
    ∃ t more, value.tokens = t :: more ∧ BeginsContent t ∧ t ∉ [Token.key, .value, .blockEnd] := by
  cases value with
  | scalar style text => exact ⟨_, _, rfl, by simp [BeginsContent], by simp⟩
  | list items =>
    cases items with
    | nil => exact ⟨_, _, rfl, by simp [BeginsContent], by simp⟩
    | cons item items => exact ⟨_, _, rfl, by simp [BeginsContent], by simp⟩

theorem valueBefore?_value (value : Value) (hrest : EndsItems rest)
    (hfuel : value.tokens.length + 8 ≤ fuel) :
    valueBefore? directives .inMapping [.key, .value, .blockEnd] fuel
        ⟨.value :: (value.tokens ++ rest), anchors⟩ =
      some (value.node, ⟨rest, anchors⟩) := by
  rcases Nat.exists_eq_add_of_le' (by omega : 3 ≤ fuel) with ⟨fuel, rfl⟩
  rcases value.exists_tokens_eq with ⟨t, more, htokens, hcontent, hends⟩
  have hread : content? directives .inMapping {} none fuel ⟨value.tokens ++ rest, anchors⟩ =
      some (value.node, ⟨rest, anchors⟩) := content?_of_value value hrest (by omega)
  rw [htokens, List.cons_append] at hread ⊢
  rw [valueBefore?]
  exact (nodeBefore?_of_beginsContent hcontent hends).trans hread

theorem endsItems_entries (entries : List (List Char × Value)) (rest : List Token) :
    EndsItems (entries.flatMap entryTokens ++ .blockEnd :: rest) := by
  intro tail
  cases entries <;> simp [entryTokens]

theorem entries?_of_entries (entries : List (List Char × Value))
    (hfuel : (entries.flatMap entryTokens).length + 8 ≤ fuel) :
    entries? directives fuel ⟨entries.flatMap entryTokens ++ .blockEnd :: rest, anchors⟩ =
      some (entries.map entryNodes, ⟨rest, anchors⟩) := by
  induction entries generalizing fuel with
  | nil =>
    rcases Nat.exists_eq_succ_of_ne_zero (by omega : fuel ≠ 0) with ⟨fuel, rfl⟩
    rfl
  | cons entry entries ih =>
    rcases entry with ⟨name, value⟩
    rcases Nat.exists_eq_succ_of_ne_zero (by omega : fuel ≠ 0) with ⟨fuel, rfl⟩
    simp only [List.flatMap_cons, List.length_append, entryTokens, List.length_cons] at hfuel
    let more := entries.flatMap entryTokens ++ .blockEnd :: rest
    have hname : nodeBefore? directives .inMapping [.key, .value, .blockEnd] fuel
        ⟨.scalar .plain name :: .value :: (value.tokens ++ more), anchors⟩ =
          some (scalarNode (.plain, name), ⟨.value :: (value.tokens ++ more), anchors⟩) :=
      nodeBefore?_scalar (.plain, name) (by simp) (by omega)
    have hvalue : valueBefore? directives .inMapping [.key, .value, .blockEnd] fuel
        ⟨.value :: (value.tokens ++ more), anchors⟩ = some (value.node, ⟨more, anchors⟩) :=
      valueBefore?_value value (endsItems_entries entries rest) (by omega)
    have hmore : entries? directives fuel ⟨more, anchors⟩ =
        some (entries.map entryNodes, ⟨rest, anchors⟩) := ih (by omega)
    rw [List.flatMap_cons, entryTokens, List.append_assoc]
    simp only [List.cons_append, entries?, Reading.goTo]
    rw [hname]
    simp [hvalue, hmore, entryNodes]

/-! ## The document -/

namespace Document

/-- Reading a written mapping gives the mapping. -/
theorem parse?_of_writes {text : List Char} {entries : List (List Char × Value)}
    (h : WritesEntries text entries) (hne : entries ≠ []) :
    parse? text = some { root := .mapping (entries.map entryNodes) } := by
  have hfuel : (entries.flatMap entryTokens).length + 8 ≤ fuel (mappingTokens entries) - 2 := by
    simp only [fuel, mappingTokens, List.length_cons, List.length_append]
    omega
  rcases Nat.exists_eq_add_of_le' (by omega : 2 ≤ fuel (mappingTokens entries)) with ⟨n, hn⟩
  have hread : entries? {} n ⟨entries.flatMap entryTokens ++ [.blockEnd], {}⟩ =
      some (entries.map entryNodes, ⟨[], {}⟩) := entries?_of_entries entries (by omega)
  have hroot : node? {} .inBlock (n + 2) ⟨mappingTokens entries, {}⟩ =
      some (.mapping (entries.map entryNodes), ⟨[], {}⟩) := by
    rw [mappingTokens, List.cons_append, node?_of_beginsContent (by simp [BeginsContent])]
    exact congrArg (Option.map mappingOf) hread
  have hpreface : preface? (mappingTokens entries) = some ({}, false, mappingTokens entries) := by
    simp [preface?, mappingTokens, Directives.read?]
  rw [parse?, tokens?_of_writes h hne]
  simp [ofTokens?, hpreface, hn, hroot, isOver]

end Document

end BlockScript.Yaml
