import BlockScript.Proofs.Drawing.Arrangement
import BlockScript.Proofs.Drawing.Replay
import BlockScript.Proofs.Script.Specs

namespace BlockScript

/-! # What is drawn

A script draws its blocks and spaces in sizes that are finite and greater than zero, and its blocks
in whole numbers. Two renderers that agree on such sizes cannot be told apart by any script
(`Script.run_congr`): other sizes are never asked for.
-/

/-- What a token draws. -/
def Token.events (token : List Char) : List Event :=
  match Token.parse token with
  | none => []
  | some command => command.events

/-- Two renderers do the same on blocks and spaces of the given sizes, and on all else. -/
structure Renderer.AgreesOn {σ : Type} (blocks spaces : Binary64 → Prop) (r r' : Renderer σ) :
    Prop where
  drawBlock : ∀ size colour, blocks size → r.drawBlock size colour = r'.drawBlock size colour
  drawSpace : ∀ size, spaces size → r.drawSpace size = r'.drawSpace size
  lineBreak : r.lineBreak = r'.lineBreak
  displayError : r.displayError = r'.displayError

theorem Renderer.AgreesOn.deliverAll_eq {σ : Type} {blocks spaces : Binary64 → Prop}
    {r r' : Renderer σ} (h : r.AgreesOn blocks spaces r') {events : List Event}
    (hblocks : ∀ size colour, .block size colour ∈ events → blocks size)
    (hspaces : ∀ size, .space size ∈ events → spaces size) (s : σ) :
    Event.deliverAll r events s = Event.deliverAll r' events s := by
  induction events generalizing s with
  | nil => rfl
  | cons e events ih =>
    have hstep : e.deliver r s = e.deliver r' s := by
      cases e with
      | block size colour =>
        exact congrFun (h.drawBlock size colour (hblocks size colour List.mem_cons_self)) s
      | space size => exact congrFun (h.drawSpace size (hspaces size List.mem_cons_self)) s
      | lineBreak => exact congrFun h.lineBreak s
      | error message => exact congrFun (congrFun h.displayError message) s
    show Event.deliverAll r events (e.deliver r s) = Event.deliverAll r' events (e.deliver r' s)
    rw [hstep]
    exact ih (fun size colour hmem => hblocks size colour (List.mem_cons_of_mem _ hmem))
      (fun size hmem => hspaces size (List.mem_cons_of_mem _ hmem)) _

namespace Script

variable {source : List Char}

theorem mem_blocks_of_mem_events {size : Binary64} {colour : Colour}
    (h : .block size colour ∈ (events source).toList) :
    ∃ spec, .block spec ∈ commands source ∧ spec.size = size := by
  rw [toList_events] at h
  obtain ⟨c, hc, hmem⟩ := List.mem_flatMap.mp h
  obtain ⟨spec, rfl, hsize, -⟩ := Command.eq_of_block_mem_events hmem
  exact ⟨spec, hc, hsize⟩

theorem mem_spaces_of_mem_events {size : Binary64} (h : .space size ∈ (events source).toList) :
    .space size ∈ commands source := by
  rw [toList_events] at h
  obtain ⟨c, hc, hmem⟩ := List.mem_flatMap.mp h
  rwa [← Command.eq_of_space_mem_events hmem]

/-- A script draws nothing that is empty. -/
theorem hasPositiveSize_of_mem_events {e : Event} (h : e ∈ (events source).toList) :
    e.HasPositiveSize := by
  cases e with
  | block size colour =>
    obtain ⟨spec, hspec, rfl⟩ := mem_blocks_of_mem_events h
    exact (size_of_mem_blocks hspec).1
  | space size => exact isPositive_of_mem_spaces (mem_spaces_of_mem_events h)
  | lineBreak => trivial
  | error message => trivial

/-- The events of a script are those of its tokens, one token after the other. -/
theorem toList_events_eq_flatMap_tokens (source : List Char) :
    (events source).toList = (tokens source).flatMap fun o => Token.events o.text := by
  rw [toList_events, commands, spannedCommands_eq, List.flatMap_map,
    List.filterMap_eq_flatMap_toList, List.flatMap_assoc]
  refine List.flatMap_congr fun o _ => ?_
  rw [commandAt, Token.events]
  cases Token.parse o.text with
  | none => rfl
  | some command => exact List.append_nil _

/-- A script cannot tell renderers apart that agree on the sizes that it asks for. -/
theorem run_congr {σ : Type} {blocks spaces : Binary64 → Prop} {r r' : Renderer σ}
    (h : r.AgreesOn blocks spaces r')
    (hblocks : ∀ size colour, .block size colour ∈ (events source).toList → blocks size)
    (hspaces : ∀ size, .space size ∈ (events source).toList → spaces size) (s : σ) :
    run r source s = run r' source s := by
  rw [toList_events] at hblocks hspaces
  rw [run, run, execute_eq_deliverAll, execute_eq_deliverAll]
  exact h.deliverAll_eq hblocks hspaces s

/-- What scripts ask a renderer for can be drawn: a script makes exactly the calls of its events,
whose sizes are finite and greater than zero, and no others. A block is drawn once at least and fits
32 bits; so does every spec on the way from the default one to that of a block. A token with a
segment that is no property draws one error, and nothing else. -/
theorem draws_sizes_above_zero (source : List Char) {σ : Type} (r : Renderer σ) (s : σ) :
    run r source s = Event.deliverAll r (events source).toList s ∧
    (∀ size colour, .block size colour ∈ (events source).toList →
      size.isFinite = true ∧ (0 : Binary64).lt size = true) ∧
    (∀ size, .space size ∈ (events source).toList →
      size.isFinite = true ∧ (0 : Binary64).lt size = true) ∧
    (∀ r' : Renderer σ, r.AgreesOn Binary64.IsDrawable Binary64.IsDrawable r' →
      run r source s = run r' source s) ∧
    (∀ spec, .block spec ∈ commands source →
      1 ≤ spec.repetitions ∧ spec.repetitions ≤ 4294967295) ∧
    (∀ properties : List Property,
      (∀ property ∈ properties, ∃ segment, Property.parse segment = .ok property) →
      ∀ k, ((properties.take k).foldl Property.apply {}).IsDrawable) ∧
    (events source).toList = ((tokens source).flatMap fun o => Token.events o.text) ∧
    ∀ token segment, Token.keyword (trim token) = "block".toList →
      segment ∈ Token.segments (trim token) → ¬ Property.Accepts segment →
      ∃ e, Token.FirstRejected (Token.segments (trim token)) e ∧
        Token.events token = [.error e.message] := by
  have hblocks : ∀ size colour, .block size colour ∈ (events source).toList →
      size.IsDrawable := by
    intro size colour h
    obtain ⟨spec, hspec, rfl⟩ := mem_blocks_of_mem_events h
    exact (isDrawable_of_mem_blocks hspec).size
  have hspaces : ∀ size, .space size ∈ (events source).toList → size.IsDrawable :=
    fun _ h => isDrawable_of_mem_spaces (mem_spaces_of_mem_events h)
  refine ⟨?_, ?_, ?_, ?_, ?_, ?_, toList_events_eq_flatMap_tokens source, ?_⟩
  · rw [toList_events]
    exact execute_eq_deliverAll r (commands source) s
  · intro size colour h
    exact ⟨(hblocks size colour h).finite, (hblocks size colour h).positive⟩
  · intro size h
    exact ⟨(hspaces size h).finite, (hspaces size h).positive⟩
  · intro r' h
    exact run_congr h hblocks hspaces s
  · intro spec h
    exact ⟨(isDrawable_of_mem_blocks h).one_le, (isDrawable_of_mem_blocks h).le_max⟩
  · intro properties h k
    refine BlockSpec.isDrawable_default.foldl_apply fun property hmem => ?_
    obtain ⟨segment, hsegment⟩ := h property (List.mem_of_mem_take hmem)
    exact Property.isDrawable_of_parse hsegment
  · intro token segment hblock hsegment hrejected
    obtain ⟨e, he, hparse⟩ := Token.exists_mistake_of_rejected hblock hsegment hrejected
    refine ⟨e, he, ?_⟩
    rw [Token.events, hparse]
    rfl

/-- A bad repeat between a good size and a good colour. -/
theorem draws_sizes_above_zero_rejected :
    let token := "block.size-2.repeat-0.color-red".toList
    Token.keyword (trim token) = "block".toList ∧
    "repeat-0".toList ∈ Token.segments (trim token) ∧ ¬ Property.Accepts "repeat-0".toList ∧
    ∃ e, Token.FirstRejected (Token.segments (trim token)) e ∧
      Token.events token = [.error e.message] := by
  intro token
  have hblock : Token.keyword (trim token) = "block".toList := by decide +kernel
  have hsegment : "repeat-0".toList ∈ Token.segments (trim token) := by decide +kernel
  have hrejected : ¬ Property.Accepts "repeat-0".toList := by
    rintro ⟨property, hproperty⟩
    cases hproperty
  have hall := (draws_sizes_above_zero token recorder #[]).2.2.2.2.2.2.2
  exact ⟨hblock, hsegment, hrejected, hall token _ hblock hsegment hrejected⟩

/-- The size of a block is a natural number that is not zero, on whatever renderer it is drawn. The
sizes among the segments of a token are written with digits alone, maybe with plus signs and an
exponent, for a segment of a token has no point. A segment by itself may be a fraction. -/
theorem draws_whole_blocks :
    (∀ token spec, Token.parse token = some (.block spec) → spec.size.IsPositiveNat) ∧
    (∀ token, ∀ segment ∈ Token.segments token, ∀ size, Property.parse segment = .ok (.size size) →
      ∃ name value n, segment.splitOn '-' = [name, value] ∧ lowerAscii name = "size".toList ∧
        '.' ∉ value ∧ '-' ∉ value ∧ Numeral.WritesNat value n ∧ 1 ≤ n ∧ size = .ofNat n) ∧
    (∃ size, Property.parse "size-0.5".toList = .ok (.size size) ∧ size.isWhole = false) ∧
    ∀ (source : List Char) {σ : Type} (r : Renderer σ) (s : σ),
      (∀ size colour, .block size colour ∈ (events source).toList → size.IsPositiveNat) ∧
      ∀ r' : Renderer σ, r.AgreesOn Binary64.IsPositiveNat (fun _ => True) r' →
        run r source s = run r' source s := by
  have hblocks : ∀ source size colour, .block size colour ∈ (events source).toList →
      size.IsPositiveNat := by
    intro source size colour h
    obtain ⟨spec, hspec, rfl⟩ := mem_blocks_of_mem_events h
    exact isPositiveNat_of_mem_blocks hspec
  refine ⟨fun _ _ => Token.isPositiveNat_of_parse_block, ?_, ?_, ?_⟩
  · intro token segment hsegment size h
    have hpoint : '.' ∉ segment := not_mem_of_mem_splitOn (List.mem_of_mem_tail hsegment)
    exact Property.writesNat_of_parse hpoint h
  · refine ⟨.ofDecimal false ⟨5, -1⟩, ?_, ?_⟩ <;> decide +kernel
  · intro source σ r s
    refine ⟨hblocks source, fun r' h => ?_⟩
    exact run_congr h (hblocks source) (fun _ _ => trivial) s

/-- A size with a plus sign and a power of ten. -/
theorem draws_whole_blocks_power :
    Token.parse "block.size-+2E1".toList = some (.block { size := 20 }) ∧
      (20 : Binary64).IsPositiveNat := by
  have hparse : Token.parse "block.size-+2E1".toList = some (.block { size := 20 }) := by
    decide +kernel
  have hsize := draws_whole_blocks.1 _ _ hparse
  exact ⟨hparse, hsize⟩

end Script

end BlockScript
