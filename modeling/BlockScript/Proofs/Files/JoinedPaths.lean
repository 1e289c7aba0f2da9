import BlockScript.Files.Path
import BlockScript.Proofs.Text.Split
import Mathlib.Data.List.Basic

namespace BlockScript

/-! # Joined paths

A relative path that is put behind another one adds its pieces to those of the other
(`Path.pieces_join_of_relative`). Idle pieces stand for nothing, so the components that it adds are
those of its steps (`Path.components_join_of_relative`).
-/

namespace Path

variable {p q : Path} {name : FileName}

/-- The pieces that are not idle. -/
def steps (pieces : List FileName) : List FileName := pieces.filter fun piece => !isIdle piece

@[simp] theorem steps_nil : steps [] = [] := rfl

theorem steps_append (front behind : List FileName) :
    steps (front ++ behind) = steps front ++ steps behind :=
  List.filter_append ..

theorem steps_cons_of_isIdle (h : isIdle name = true) (pieces : List FileName) :
    steps (name :: pieces) = steps pieces := by
  simp [steps, h]

theorem steps_cons_of_not_isIdle (h : isIdle name = false) (pieces : List FileName) :
    steps (name :: pieces) = name :: steps pieces := by
  simp [steps, h]

/-- The components in front of those of the steps. -/
def lead (p : Path) : List Component :=
  if p.isAbsolute then [.root]
  else if p.pieces.head? == some FileName.dot then [.current]
  else []

theorem components_eq (p : Path) :
    p.components = p.lead ++ (steps p.pieces).map pieceComponent := rfl

theorem isAbsolute_mk (hname : '/' ∉ name) : (Path.mk name).isAbsolute = false := by
  cases name with
  | nil => rfl
  | cons c name =>
    have hc : c ≠ '/' := fun heq => hname (heq ▸ List.mem_cons_self)
    simpa [isAbsolute] using hc

/-! ## A relative path behind another path -/

theorem join_of_relative (hq : q.isAbsolute = false) (hp : p.chars ≠ []) :
    p.join q = ⟨if p.chars.getLast? = some '/' then p.chars ++ q.chars
      else p.chars ++ '/' :: q.chars⟩ := by
  have hsome : p.chars.isEmpty = false := by simpa using hp
  rw [join, hq, hsome]
  by_cases hlast : p.chars.getLast? = some '/' <;> simp [hlast]

theorem isAbsolute_join_of_relative (hq : q.isAbsolute = false) (hp : p.chars ≠ []) :
    (p.join q).isAbsolute = p.isAbsolute := by
  rw [join_of_relative hq hp, isAbsolute, isAbsolute]
  obtain ⟨c, rest, hchars⟩ := List.exists_cons_of_ne_nil hp
  split_ifs <;> simp [hchars]

/-- The pieces of the relative path come last; an empty piece that ended the other path is
dropped. -/
theorem pieces_join_of_relative (hq : q.isAbsolute = false) (hp : p.chars ≠ []) :
    ∃ pieces ≠ [], (p.pieces = pieces ∨ p.pieces = pieces ++ [[]]) ∧
      (p.join q).pieces = pieces ++ q.pieces := by
  rw [join_of_relative hq hp, Path.pieces, Path.pieces]
  split_ifs with hlast
  · obtain ⟨front, hfront⟩ := List.getLast?_eq_some_iff.mp hlast
    refine ⟨front.splitOn '/', List.splitOn_ne_nil _ _, Or.inr ?_, ?_⟩
    · rw [hfront, List.splitOn_append_cons_self]
      rfl
    · rw [hfront, List.append_assoc, List.singleton_append, List.splitOn_append_cons_self]
      rfl
  · refine ⟨p.chars.splitOn '/', List.splitOn_ne_nil _ _, Or.inl rfl, ?_⟩
    rw [List.splitOn_append_cons_self]
    rfl

/-- The steps of the relative path are the components that are added. -/
theorem components_join_of_relative (hq : q.isAbsolute = false) (hp : p.chars ≠ []) :
    (p.join q).components = p.components ++ (steps q.pieces).map pieceComponent := by
  obtain ⟨pieces, hsome, hpieces, hjoin⟩ := pieces_join_of_relative hq hp
  have hhead : (p.join q).pieces.head? = p.pieces.head? := by
    rw [hjoin, List.head?_append_of_ne_nil _ hsome]
    rcases hpieces with heq | heq
    · rw [heq]
    · rw [heq, List.head?_append_of_ne_nil _ hsome]
  have hlead : (p.join q).lead = p.lead := by
    unfold lead
    rw [isAbsolute_join_of_relative hq hp, hhead]
  have hsteps : steps (p.join q).pieces = steps p.pieces ++ steps q.pieces := by
    rw [hjoin, steps_append]
    rcases hpieces with heq | heq
    · rw [heq]
    · -- the piece that is dropped is idle
      rw [heq, steps_append, steps_cons_of_isIdle rfl, steps_nil, List.append_nil]
  rw [components_eq, components_eq, hlead, hsteps, List.map_append, List.append_assoc]

end Path

end BlockScript
