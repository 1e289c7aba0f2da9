import BlockScript.Files.FileTree
import Mathlib.Data.List.Nodup
import Mathlib.Tactic.MkIffOfInductiveProp

namespace BlockScript

/-! # Entries of a file tree

A file system has one entry at a place at most, and no names with slashes (`FileTree.WellFormed`).
Putting an entry changes its place and no other (`FileTree.entry?_put`), and a tree that is
well-formed stays so if the names of the place are proper (`FileTree.WellFormed.of_puts`).
-/

def Entry.isFile : Entry → Bool
  | .file _ => true
  | _ => false

def Entry.isLink : Entry → Bool
  | .link _ => true
  | _ => false

theorem Entry.isFile_iff {e : Entry} : e.isFile = true ↔ ∃ content, e = .file content := by
  cases e <;> simp [isFile]

/-- Whether a piece of a path is a name. -/
@[mk_iff]
structure FileName.IsOrdinary (name : FileName) : Prop where
  ne_nil : name ≠ []
  ne_dot : name ≠ dot
  ne_dotDot : name ≠ dotDot

/-- Whether a file system can have the name. -/
@[mk_iff]
structure FileName.IsProper (name : FileName) : Prop extends name.IsOrdinary where
  not_slash : '/' ∉ name
  not_nul : '\x00' ∉ name
  length_le : utf8Length name ≤ maxNameLength

instance (name : FileName) : Decidable name.IsOrdinary :=
  decidable_of_iff _ (FileName.isOrdinary_iff name).symm

instance (name : FileName) : Decidable name.IsProper :=
  decidable_of_iff _ (FileName.isProper_iff name).symm

/-- Whether a tree has one entry at a place at most, and proper names only. -/
@[mk_iff]
structure FileTree.WellFormed (t : FileTree) : Prop where
  nodup : (t.entries.map (·.1)).Nodup
  proper : ∀ e ∈ t.entries, ∀ name ∈ e.1, FileName.IsProper name

instance (t : FileTree) : Decidable t.WellFormed :=
  decidable_of_iff _ (FileTree.wellFormed_iff t).symm

namespace FileTree

variable {t u v : FileTree} {place : Place}

/-! ## Entries -/

theorem entry?_of_ne_nil (h : place ≠ []) :
    t.entry? place = (t.entries.find? fun e => e.1 == place).map (·.2) := by
  cases place with
  | nil => exact absurd rfl h
  | cons name place => rfl

section
variable {entries : List (Place × Entry)} {e : Entry} {q : Place}

theorem find?_replace_self (h : (entries.any fun old => old.1 == place) = true) :
    (entries.map fun old => if old.1 == place then (place, e) else old).find?
      (fun old => old.1 == place) = some (place, e) := by
  induction entries with
  | nil => cases h
  | cons old entries ih =>
    by_cases hold : old.1 = place
    · simp [hold]
    · have hrest : (entries.any fun old => old.1 == place) = true := by simpa [hold] using h
      simpa [hold] using ih hrest

theorem find?_replace_of_ne (h : q ≠ place) :
    (entries.map fun old => if old.1 == place then (place, e) else old).find?
      (fun old => old.1 == q) = entries.find? fun old => old.1 == q := by
  induction entries with
  | nil => rfl
  | cons old entries ih =>
    by_cases hold : old.1 = place
    · simpa [hold, h.symm] using ih
    · have hkeep : (if old.1 == place then (place, e) else old) = old := by simp [hold]
      rw [List.map_cons, hkeep, List.find?_cons, List.find?_cons, ih]

end

/-- An entry that is put is at its place, and all other places are as they were. -/
theorem entry?_put (hplace : place ≠ []) (e : Entry) (q : Place) :
    entry? (t.put place e) q = if q = place then some e else t.entry? q := by
  rcases eq_or_ne q [] with rfl | hq
  · -- the root is no entry of the list
    rw [if_neg hplace.symm]
    rfl
  rw [entry?_of_ne_nil hq, entry?_of_ne_nil hq, put]
  split
  · next hany =>
    rcases eq_or_ne q place with rfl | hne
    · rw [if_pos rfl, find?_replace_self hany]
      rfl
    · rw [if_neg hne, find?_replace_of_ne hne]
  · next hnone =>
    rw [List.find?_append]
    rcases eq_or_ne q place with rfl | hne
    · -- nothing in front of the new entry has its place
      have hfree : (t.entries.find? fun old => old.1 == q) = none := by
        rw [List.find?_eq_none]
        intro old hold
        simpa using fun heq => hnone (List.any_eq_true.mpr ⟨old, hold, heq⟩)
      simp [hfree]
    · simp [hne, hne.symm]

@[simp] theorem here_put (place : Place) (e : Entry) : (t.put place e).here = t.here := by
  rw [put]
  split <;> rfl

@[simp] theorem denied_put (place : Place) (e : Entry) : (t.put place e).denied = t.denied := by
  rw [put]
  split <;> rfl

/-- The other tree has an entry at a place, and all else is as it was; only the room on the device
may be another. -/
structure Puts (t : FileTree) (place : Place) (e : Entry) (u : FileTree) : Prop where
  entries : u.entries = (t.put place e).entries
  here : u.here = t.here
  denied : u.denied = t.denied

theorem puts_put (t : FileTree) (place : Place) (e : Entry) : Puts t place e (t.put place e) :=
  ⟨rfl, here_put place e, denied_put place e⟩

theorem Puts.entry? {e : Entry} (h : Puts t place e u) (hplace : place ≠ []) (q : Place) :
    u.entry? q = if q = place then some e else t.entry? q := by
  rw [← entry?_put hplace]
  rcases eq_or_ne q [] with rfl | hq
  · rfl
  · rw [entry?_of_ne_nil hq, entry?_of_ne_nil hq, h.entries]

/-! ## Well-formed trees -/

theorem map_fst_put (t : FileTree) (place : Place) (e : Entry) :
    (t.put place e).entries.map (·.1) =
      if place ∈ t.entries.map (·.1) then t.entries.map (·.1)
      else t.entries.map (·.1) ++ [place] := by
  have hany : (t.entries.any fun old => old.1 == place) = true ↔ place ∈ t.entries.map (·.1) := by
    simp
  rw [put]
  by_cases hplace : place ∈ t.entries.map (·.1)
  · rw [if_pos (hany.mpr hplace), if_pos hplace, List.map_map]
    refine List.map_congr_left fun old _ => ?_
    by_cases hold : old.1 = place <;> simp [hold]
  · rw [if_neg (hplace ∘ hany.mp), if_neg hplace, List.map_append]
    rfl

namespace WellFormed

theorem entry?_of_mem (ht : t.WellFormed) {entry : Entry} (hplace : place ≠ [])
    (h : (place, entry) ∈ t.entries) : t.entry? place = some entry := by
  rw [entry?_of_ne_nil hplace]
  cases hfind : t.entries.find? fun e => e.1 == place with
  | none => exact absurd (List.find?_eq_none.mp hfind _ h) (by simp)
  | some e =>
    have hsame : e.1 = place := by simpa using List.find?_some hfind
    obtain rfl := List.inj_on_of_nodup_map ht.nodup (List.mem_of_find?_eq_some hfind) h hsame
    rfl

theorem proper_of_entry? (ht : t.WellFormed) {e : Entry} (h : t.entry? place = some e) :
    ∀ name ∈ place, FileName.IsProper name := by
  rcases eq_or_ne place [] with rfl | hplace
  · exact nofun
  · rw [entry?_of_ne_nil hplace, Option.map_eq_some_iff] at h
    obtain ⟨old, hfind, -⟩ := h
    obtain rfl : old.1 = place := by simpa using List.find?_some hfind
    exact ht.proper old (List.mem_of_find?_eq_some hfind)

theorem of_puts (ht : t.WellFormed) {e : Entry} (h : t.Puts place e u)
    (hplace : ∀ name ∈ place, FileName.IsProper name) : u.WellFormed := by
  have hplaces := t.map_fst_put place e
  rw [← h.entries] at hplaces
  constructor
  · rw [hplaces]
    split_ifs with hold
    · exact ht.nodup
    · exact ht.nodup.append (List.nodup_singleton place) (by simpa using hold)
  · intro old hold
    have hmem : old.1 ∈ u.entries.map (·.1) := List.mem_map_of_mem hold
    -- the place of an entry had one before, or it is the place that is put
    have hcases : old.1 ∈ t.entries.map (·.1) ∨ old.1 = place := by
      rw [hplaces] at hmem
      split_ifs at hmem
      · exact Or.inl hmem
      · simpa using hmem
    rcases hcases with hmem | heq
    · obtain ⟨first, hfirst, heq⟩ := List.mem_map.mp hmem
      rw [← heq]
      exact ht.proper first hfirst
    · rwa [heq]

end WellFormed

end FileTree

end BlockScript
