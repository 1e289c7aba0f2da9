import BlockScript.Proofs.Drawing.Capacity

namespace BlockScript

/-! # Counting blocks

A canvas does not count its blocks. It takes the errors that it received from the cells that it
holds, and an error has a cell only as long as there is room. So the count is that of the recorded
blocks less the errors that came too late for a cell (`blockCount_eq_sub`): it is right until an
error reaches a full canvas, and from then on each error takes away a block.
-/

namespace Event

def isBlock : Event → Bool
  | block .. => true
  | _ => false

def isError (e : Event) : Bool := e.mistake?.isSome

/-- Whether the event shows a square. -/
def isItem (e : Event) : Bool := e.item?.isSome

/-- The events that show a square, in order. -/
def items (events : List Event) : List Event := events.filter isItem

/-- The blocks that a canvas records: those among the items that it has room for. -/
def recordedBlocks (events : List Event) : Nat := ((items events).take maxItems).countP isBlock

/-- The errors that reach a full canvas. -/
def lateErrors (events : List Event) : Nat := ((items events).drop maxItems).countP isError

theorem isItem_of_mem_items {events : List Event} : ∀ e ∈ items events, e.isItem = true :=
  fun _ he => (List.mem_filter.mp he).2

theorem items_append (events more : List Event) :
    items (events ++ more) = items events ++ items more := List.filter_append ..

theorem length_items (events : List Event) :
    (items events).length = (events.filterMap item?).length := by
  rw [List.length_filterMap_eq_countP, items, ← List.countP_eq_length_filter]
  rfl

/-- The squares of the first items are the first squares. -/
theorem filterMap_item?_take_items (n : Nat) (events : List Event) :
    ((items events).take n).filterMap item? = (events.filterMap item?).take n := by
  induction events generalizing n with
  | nil => simp [items]
  | cons e events ih =>
    cases hitem : e.item? with
    | none =>
      have hskip : items (e :: events) = items events := by simp [items, isItem, hitem]
      rw [hskip, ih, List.filterMap_cons_none hitem]
    | some item =>
      have hkeep : items (e :: events) = e :: items events := by simp [items, isItem, hitem]
      cases n with
      | zero => simp
      | succ n =>
        rw [hkeep, List.take_succ_cons, List.filterMap_cons_some hitem, ih,
          List.filterMap_cons_some hitem, List.take_succ_cons]

/-- Every item is a block or an error. -/
theorem length_eq_countP_add_countP (events : List Event) (h : ∀ e ∈ events, e.isItem = true) :
    events.length = events.countP isBlock + events.countP isError := by
  rw [List.length_eq_countP_add_countP isBlock]
  congr 1
  refine List.countP_congr fun e he => ?_
  have hitem := h e he
  cases e with
  | block size colour => simp [isBlock, isError, mistake?]
  | space size => cases hitem
  | lineBreak => cases hitem
  | error message => simp [isBlock, isError, mistake?]

/-- A message comes from an error, and an error is an item. -/
theorem length_filterMap_mistake? (events : List Event) :
    (events.filterMap mistake?).length = (items events).countP isError := by
  rw [List.length_filterMap_eq_countP, items, List.countP_filter]
  refine List.countP_congr fun e _ => ?_
  cases e <;> simp [isError, isItem, item?, mistake?]

end Event

namespace Canvas

/-- The recorded cells are the squares of the first items. -/
theorem map_cells_deliverAll (events : List Event) :
    (Event.deliverAll renderer events {}).cells.map (fun cell => (cell.size, cell.colour)) =
      ((Event.items events).take maxItems).filterMap Event.item? := by
  rw [(CutOff.empty.deliverAll events).cells_eq_take, List.map_take, map_cells_unlimited,
    Event.filterMap_item?_take_items]

theorem size_errors_deliverAll (events : List Event) :
    (Event.deliverAll renderer events {}).errors.size = (Event.items events).countP Event.isError := by
  rw [← Array.length_toList, toList_errors_deliverAll]
  exact Event.length_filterMap_mistake? events

/-- Each error that finds the canvas full is taken from the recorded blocks. -/
theorem blockCount_eq_sub (events : List Event) :
    (Event.deliverAll renderer events {}).blockCount =
      Event.recordedBlocks events - Event.lateErrors events := by
  have hcells : (Event.deliverAll renderer events {}).cellCount =
      ((Event.items events).take maxItems).length := by
    rw [cellCount_eq, (CutOff.empty.deliverAll events).cells_eq_take, List.length_take,
      length_cells_unlimited, ← Event.length_items, List.length_take]
  -- the recorded cells are those of blocks and of the errors that were not late
  have hrecorded := Event.length_eq_countP_add_countP ((Event.items events).take maxItems)
    fun e he => Event.isItem_of_mem_items e (List.mem_of_mem_take he)
  have herrors : (Event.items events).countP Event.isError =
      ((Event.items events).take maxItems).countP Event.isError + Event.lateErrors events := by
    rw [Event.lateErrors, ← List.countP_append, List.take_append_drop]
  rw [blockCount, hcells, hrecorded, size_errors_deliverAll, herrors, ← Event.recordedBlocks]
  omega

/-- An error that finds the canvas full comes too late for a cell. -/
theorem lateErrors_append_error {events : List Event}
    (h : maxItems ≤ (Event.items events).length) (message : String) :
    Event.recordedBlocks (events ++ [.error message]) = Event.recordedBlocks events ∧
      Event.lateErrors (events ++ [.error message]) = Event.lateErrors events + 1 := by
  have hitems : Event.items (events ++ [.error message]) =
      Event.items events ++ [.error message] := Event.items_append ..
  constructor
  · rw [Event.recordedBlocks, hitems, List.take_append_of_le_length h, Event.recordedBlocks]
  · rw [Event.lateErrors, hitems, List.drop_append_of_le_length h, List.countP_append]
    rfl

/-- The count of blocks is the number of those that were recorded, less the errors that came when
the canvas was full. So it is right exactly as long as there are none of these, or nothing is left
to take away, and each one lowers it. -/
theorem blockCount_deliverAll (events : List Event) :
    let c := Event.deliverAll renderer events {}
    c.cells.map (fun cell => (cell.size, cell.colour)) =
      ((Event.items events).take maxItems).filterMap Event.item? ∧
    c.blockCount = Event.recordedBlocks events - Event.lateErrors events ∧
    (c.blockCount = Event.recordedBlocks events ↔
      Event.lateErrors events = 0 ∨ Event.recordedBlocks events = 0) ∧
    ∀ message, maxItems ≤ (Event.items events).length →
      (Event.deliverAll renderer (events ++ [.error message]) {}).blockCount =
        c.blockCount - 1 := by
  intro c
  have hcount : c.blockCount = Event.recordedBlocks events - Event.lateErrors events :=
    blockCount_eq_sub events
  refine ⟨map_cells_deliverAll events, hcount, by omega, ?_⟩
  intro message hfull
  obtain ⟨hrecorded, hlate⟩ := lateErrors_append_error hfull message
  rw [blockCount_eq_sub, hrecorded, hlate, hcount]
  omega

/-- As many blocks as there is room for are all recorded. -/
theorem recordedBlocks_replicate :
    Event.items (List.replicate maxItems (.block 1 .black)) =
        List.replicate maxItems (.block 1 .black) ∧
      Event.recordedBlocks (List.replicate maxItems (.block 1 .black)) = maxItems ∧
      Event.lateErrors (List.replicate maxItems (.block 1 .black)) = 0 := by
  -- the number of blocks is large, and none of this depends on it
  generalize hn : maxItems = n
  have hitems : Event.items (List.replicate n (.block 1 .black)) =
      List.replicate n (.block 1 .black) := List.filter_replicate_of_pos rfl
  refine ⟨hitems, ?_, ?_⟩
  · rw [Event.recordedBlocks, hitems, hn]
    simp [List.countP_replicate, Event.isBlock]
  · rw [Event.lateErrors, hitems, hn]
    simp

theorem maxItems_le_length_items :
    maxItems ≤ (Event.items (List.replicate maxItems (.block 1 .black))).length := by
  rw [recordedBlocks_replicate.1, List.length_replicate]

/-- A full canvas of blocks counts them all, until an error comes. -/
theorem blockCount_deliverAll_full :
    maxItems ≤ (Event.items (List.replicate maxItems (.block 1 .black))).length ∧
    (Event.deliverAll renderer (List.replicate maxItems (.block 1 .black)) {}).blockCount =
      1048576 ∧
    (Event.deliverAll renderer
      (List.replicate maxItems (.block 1 .black) ++ [.error "late"]) {}).blockCount = 1048575 := by
  obtain ⟨-, hrecorded, hlate⟩ := recordedBlocks_replicate
  obtain ⟨-, hcount, -, herror⟩ :=
    blockCount_deliverAll (List.replicate maxItems (.block 1 .black))
  have hfull : (Event.deliverAll renderer
      (List.replicate maxItems (.block 1 .black)) {}).blockCount = 1048576 := by
    rw [hcount, hrecorded, hlate]
    rfl
  refine ⟨maxItems_le_length_items, hfull, ?_⟩
  rw [herror "late" maxItems_le_length_items, hfull]

/-- All blocks of a full canvas are still recorded after an error, but one of them is not counted. -/
theorem blockCount_ne_recordedBlocks :
    let events : List Event := List.replicate maxItems (.block 1 .black) ++ [.error "late"]
    Event.recordedBlocks events = 1048576 ∧
      (Event.deliverAll renderer events {}).blockCount = 1048575 := by
  intro events
  obtain ⟨-, hrecorded, hlate⟩ := recordedBlocks_replicate
  obtain ⟨hsame, hmore⟩ := lateErrors_append_error maxItems_le_length_items "late"
  have hblocks : Event.recordedBlocks events = 1048576 := hsame.trans hrecorded
  have herrors : Event.lateErrors events = 1 := by rw [hmore, hlate]
  refine ⟨hblocks, ?_⟩
  rw [blockCount_eq_sub, hblocks, herrors]

end Canvas

end BlockScript
