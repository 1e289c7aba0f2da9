import BlockScript.Proofs.Files.JoinedPaths
import Mathlib.Data.List.DropRight
import Mathlib.Data.List.Infix

namespace BlockScript

/-! # Shown paths

A path is shown from a directory by what is left of it behind the directory, if its components begin
with those of the directory. Of absolute paths this can be told by their steps alone
(`Path.isPrefix_components_iff`), and what is left has the remaining steps (`Path.exists_shown`). So
the text that is shown leads from the directory to where the path leads
(`Path.displayFrom_leads_back`).
-/

namespace Path

variable {p here : Path} {name : FileName} {pieces rest : List FileName}

@[simp] theorem ofString_text (p : Path) : ofString p.text = p := by
  rw [ofString, text, String.toList_ofList]

/-! ## Absolute paths -/

theorem pieceComponent_injective : Function.Injective pieceComponent := by
  intro a b h
  unfold pieceComponent at h
  split_ifs at h with ha hb
  · rw [ha, hb]
  · exact Component.named.inj h

theorem pieceComponent_ne_root (piece : FileName) : pieceComponent piece ≠ .root := by
  unfold pieceComponent
  split_ifs <;> simp

theorem components_of_isAbsolute (h : p.isAbsolute = true) :
    p.components = .root :: (steps p.pieces).map pieceComponent := by
  rw [components_eq, lead, if_pos h, List.singleton_append]

theorem isAbsolute_of_root_mem (h : Component.root ∈ p.components) : p.isAbsolute = true := by
  rw [components_eq, List.mem_append, List.mem_map] at h
  rcases h with hlead | ⟨piece, -, hpiece⟩
  · unfold lead at hlead
    split_ifs at hlead with habsolute hdot
    · exact habsolute
    · cases List.mem_singleton.mp hlead
    · cases hlead
  · exact absurd hpiece (pieceComponent_ne_root piece)

/-- Only an empty piece in front can make a path absolute or empty, and such a piece is idle. -/
theorem isAbsolute_of_pieces (h : p.pieces = name :: pieces) (hname : isIdle name = false) :
    p.isAbsolute = false ∧ p.chars ≠ [] := by
  have hsome : name ≠ [] := by
    rintro rfl
    cases hname
  unfold Path.pieces at h
  unfold isAbsolute
  cases hchars : p.chars with
  | nil =>
    rw [hchars] at h
    exact absurd (List.cons.inj h).1.symm hsome
  | cons c rest =>
    refine ⟨?_, List.cons_ne_nil c rest⟩
    by_cases hc : c = '/'
    · rw [hchars, hc, splitOn_cons_self] at h
      exact absurd (List.cons.inj h).1.symm hsome
    · simpa using hc

/-- The components of a directory come first in those of a path if the path is absolute as well and
the steps of the directory come first in its own. -/
theorem isPrefix_components_iff (hhere : here.isAbsolute = true) :
    here.components <+: p.components ↔
      p.isAbsolute = true ∧ steps here.pieces <+: steps p.pieces := by
  rw [components_of_isAbsolute hhere]
  constructor
  · intro h
    have hp : p.isAbsolute = true := isAbsolute_of_root_mem (h.mem List.mem_cons_self)
    rw [components_of_isAbsolute hp, List.prefix_cons_inj] at h
    exact ⟨hp, (List.prefix_map_iff_of_injective pieceComponent_injective).mp h⟩
  · rintro ⟨hp, h⟩
    rw [components_of_isAbsolute hp, List.prefix_cons_inj]
    exact h.map pieceComponent

/-! ## The pieces behind some names -/

/-- The names are the steps of the pieces in front of what is left. Nothing is left only if they do
not come first. -/
theorem behind?_cases (names pieces : List FileName) :
    (∃ front rest, behind? names pieces = some rest ∧ pieces = front ++ rest ∧
      steps front = names) ∨
    (behind? names pieces = none ∧ ¬ names <+: steps pieces) := by
  -- idle pieces go to the front, and so does each piece that is the next of the names
  fun_induction behind? names pieces with
  | case1 pieces => exact Or.inl ⟨[], pieces, rfl, rfl, rfl⟩
  | case2 name names => exact Or.inr ⟨rfl, by simp⟩
  | case3 name names piece pieces hidle ih =>
    rcases ih with ⟨front, rest, hrest, rfl, hfront⟩ | ⟨hnone, hnot⟩
    · exact Or.inl ⟨piece :: front, rest, hrest, rfl, by rw [steps_cons_of_isIdle hidle, hfront]⟩
    · rw [steps_cons_of_isIdle hidle]
      exact Or.inr ⟨hnone, hnot⟩
  | case4 names name pieces hidle ih =>
    have hidle : isIdle name = false := eq_false_of_ne_true hidle
    rcases ih with ⟨front, rest, hrest, rfl, hfront⟩ | ⟨hnone, hnot⟩
    · exact Or.inl ⟨name :: front, rest, hrest, rfl, by rw [steps_cons_of_not_isIdle hidle, hfront]⟩
    · rw [steps_cons_of_not_isIdle hidle, List.prefix_cons_inj]
      exact Or.inr ⟨hnone, hnot⟩
  | case5 name names piece pieces hidle hname =>
    rw [steps_cons_of_not_isIdle (eq_false_of_ne_true hidle), List.cons_prefix_cons]
    refine Or.inr ⟨rfl, ?_⟩
    rintro ⟨heq, -⟩
    exact hname heq.symm

/-! ## Without the idle pieces at both ends -/

theorem steps_dropWhile (pieces : List FileName) :
    steps (pieces.dropWhile isIdle) = steps pieces := by
  induction pieces with
  | nil => rfl
  | cons piece pieces ih =>
    by_cases hidle : isIdle piece = true
    · rw [List.dropWhile_cons_of_pos hidle, steps_cons_of_isIdle hidle, ih]
    · rw [List.dropWhile_cons_of_neg hidle]

theorem steps_dropIdleEnd (pieces : List FileName) : steps (dropIdleEnd pieces) = steps pieces := by
  have hreverse : ∀ pieces : List FileName, steps pieces.reverse = (steps pieces).reverse :=
    fun _ => List.filter_reverse
  rw [dropIdleEnd, hreverse, steps_dropWhile, hreverse, List.reverse_reverse]

theorem dropIdleEnd_isPrefix (pieces : List FileName) : dropIdleEnd pieces <+: pieces :=
  List.rdropWhile_prefix isIdle pieces

/-- The path of the pieces without the idle ones at both ends, and a dot when no others are there. -/
def trimmed (pieces : List FileName) : Path :=
  match dropIdleEnd (pieces.dropWhile isIdle) with
  | [] => ⟨FileName.dot⟩
  | pieces => ⟨joinWith '/' pieces⟩

theorem trimmed_cases (hslash : ∀ piece ∈ pieces, '/' ∉ piece) :
    (steps pieces = [] ∧ trimmed pieces = ⟨FileName.dot⟩) ∨
    ∃ first more, isIdle first = false ∧ (trimmed pieces).pieces = first :: more ∧
      steps pieces = steps (first :: more) := by
  have hsteps : steps (dropIdleEnd (pieces.dropWhile isIdle)) = steps pieces := by
    rw [steps_dropIdleEnd, steps_dropWhile]
  obtain ⟨behind, hprefix⟩ := dropIdleEnd_isPrefix (pieces.dropWhile isIdle)
  unfold trimmed
  cases hends : dropIdleEnd (pieces.dropWhile isIdle) with
  | nil =>
    rw [hends] at hsteps
    exact Or.inl ⟨hsteps.symm, rfl⟩
  | cons first more =>
    rw [hends] at hsteps hprefix
    refine Or.inr ⟨first, more, ?_, ?_, hsteps.symm⟩
    · have hhead := List.head?_dropWhile_not isIdle pieces
      rw [← hprefix] at hhead
      exact hhead
    · refine List.splitOn_intercalate '/' (fun piece hpiece => hslash piece ?_)
        (List.cons_ne_nil first more)
      refine (List.dropWhile_suffix isIdle).subset ?_
      rw [← hprefix]
      exact List.mem_append_left behind hpiece

theorem steps_trimmed (hslash : ∀ piece ∈ pieces, '/' ∉ piece) :
    steps (trimmed pieces).pieces = steps pieces := by
  rcases trimmed_cases hslash with ⟨hnone, hdot⟩ | ⟨first, more, -, hpieces, hsteps⟩
  · rw [hdot, hnone]
    rfl
  · rw [hpieces, hsteps]

theorem isAbsolute_trimmed (hslash : ∀ piece ∈ pieces, '/' ∉ piece) :
    (trimmed pieces).isAbsolute = false ∧ (trimmed pieces).chars ≠ [] := by
  rcases trimmed_cases hslash with ⟨-, hdot⟩ | ⟨first, more, hfirst, hpieces, -⟩
  · rw [hdot]
    exact ⟨rfl, List.cons_ne_nil _ _⟩
  · exact isAbsolute_of_pieces hpieces hfirst

theorem trimmed_eq_dot_iff (hslash : ∀ piece ∈ pieces, '/' ∉ piece) :
    trimmed pieces = ⟨FileName.dot⟩ ↔ steps pieces = [] := by
  rcases trimmed_cases hslash with ⟨hnone, hdot⟩ | ⟨first, more, hfirst, hpieces, hsteps⟩
  · exact iff_of_true hdot hnone
  · refine iff_of_false ?_ ?_
    · intro hdot
      rw [hdot] at hpieces
      -- the only piece would be the dot, which is idle
      obtain rfl : FileName.dot = first := (List.cons.inj hpieces).1
      cases hfirst
    · rw [hsteps, steps_cons_of_not_isIdle hfirst]
      exact List.cons_ne_nil _ _

/-! ## What is shown -/

theorem text_trimmed (pieces : List FileName) :
    (trimmed pieces).text =
      match dropIdleEnd (pieces.dropWhile isIdle) with
      | [] => "."
      | pieces => String.ofList (joinWith '/' pieces) := by
  unfold trimmed
  cases dropIdleEnd (pieces.dropWhile isIdle) <;> rfl

theorem displayFrom_eq (p here : Path) :
    p.displayFrom here =
      match if p.isAbsolute then behind? (steps here.pieces) p.pieces else none with
      | none => p.text
      | some rest => (trimmed rest).text := by
  simp only [text_trimmed]
  rfl

/-- Of a path in the directory the pieces are shown that add the components which the directory
lacks. -/
theorem exists_shown (hhere : here.isAbsolute = true) (h : here.components <+: p.components) :
    ∃ rest, (∀ piece ∈ rest, '/' ∉ piece) ∧ p.displayFrom here = (trimmed rest).text ∧
      p.components = here.components ++ (steps rest).map pieceComponent := by
  obtain ⟨hp, hsteps⟩ := (isPrefix_components_iff hhere).mp h
  rcases behind?_cases (steps here.pieces) p.pieces with
    ⟨front, rest, hrest, hpieces, hfront⟩ | ⟨-, hnot⟩
  · refine ⟨rest, ?_, by rw [displayFrom_eq, if_pos hp, hrest], ?_⟩
    · intro piece hpiece
      have hmem : piece ∈ p.pieces := by
        rw [hpieces]
        exact List.mem_append_right front hpiece
      exact not_mem_of_mem_splitOn hmem
    · rw [components_of_isAbsolute hp, components_of_isAbsolute hhere, hpieces, steps_append,
        hfront, List.map_append, List.cons_append]
  · exact absurd hsteps hnot

theorem displayFrom_of_not_isPrefix (hhere : here.isAbsolute = true)
    (h : ¬ here.components <+: p.components) : p.displayFrom here = p.text := by
  rw [isPrefix_components_iff hhere] at h
  rw [displayFrom_eq]
  by_cases hp : p.isAbsolute = true
  · rw [if_pos hp]
    rcases behind?_cases (steps here.pieces) p.pieces with
      ⟨front, rest, -, hpieces, hfront⟩ | ⟨hnone, -⟩
    · refine absurd ⟨hp, ?_⟩ h
      rw [hpieces, steps_append, hfront]
      exact List.prefix_append _ _
    · rw [hnone]
  · rw [if_neg hp]

theorem components_join_shown (hhere : here.isAbsolute = true)
    (h : here.components <+: p.components) :
    (here.join (ofString (p.displayFrom here))).components = p.components := by
  obtain ⟨rest, hslash, hshown, hcomponents⟩ := exists_shown hhere h
  have hsome : here.chars ≠ [] := by
    intro hnil
    rw [isAbsolute, hnil] at hhere
    cases hhere
  have hrelative : (trimmed rest).isAbsolute = false := (isAbsolute_trimmed hslash).1
  rw [hshown, ofString_text, components_join_of_relative hrelative hsome, steps_trimmed hslash,
    hcomponents]

theorem displayFrom_eq_dot_iff (hhere : here.isAbsolute = true)
    (h : here.components <+: p.components) :
    p.displayFrom here = "." ↔ p.components = here.components := by
  obtain ⟨rest, hslash, hshown, hcomponents⟩ := exists_shown hhere h
  have hdot : (trimmed rest).text = "." ↔ trimmed rest = ⟨FileName.dot⟩ := by
    constructor
    · intro htext
      rw [← ofString_text (trimmed rest), htext]
      rfl
    · intro hdot
      rw [hdot]
      rfl
  rw [hshown, hdot, trimmed_eq_dot_iff hslash, hcomponents, List.append_right_eq_self,
    List.map_eq_nil_iff]

/-- The text of a shown path leads from the directory that it is shown from to where the path leads.
A path whose components begin with those of the directory is shown by a relative text, which is a dot
for the directory itself, and any other path is shown as it is. Only whole components count: a path
with another name where the directory has its last, such as a longer one, is not shortened. -/
theorem displayFrom_leads_back (hhere : here.isAbsolute = true) (p : Path) :
    let shown := ofString (p.displayFrom here)
    (here.join shown).components = (here.join p).components ∧
    (here.components <+: p.components →
      p.displayFrom here ≠ "" ∧ shown.isAbsolute = false ∧
      (here.join shown).components = p.components ∧
      (p.displayFrom here = "." ↔ p.components = here.components)) ∧
    (¬ here.components <+: p.components → p.displayFrom here = p.text) ∧
    ∀ front name other behind, here.components = front ++ [.named name] →
      p.components = front ++ .named other :: behind → other ≠ name →
      p.displayFrom here = p.text := by
  intro shown
  have helsewhere : ¬ here.components <+: p.components → p.displayFrom here = p.text :=
    displayFrom_of_not_isPrefix hhere
  refine ⟨?_, ?_, helsewhere, ?_⟩
  · by_cases h : here.components <+: p.components
    · have hp : p.isAbsolute = true := ((isPrefix_components_iff hhere).mp h).1
      have hjoin : here.join p = p := by rw [join, hp, Bool.true_or, if_pos rfl]
      rw [hjoin]
      exact components_join_shown hhere h
    · have hshown : shown = p := by
        show ofString (p.displayFrom here) = p
        rw [helsewhere h, ofString_text]
      rw [hshown]
  · intro h
    obtain ⟨rest, hslash, htext, -⟩ := exists_shown hhere h
    obtain ⟨hrelative, hsome⟩ := isAbsolute_trimmed hslash
    have hshown : shown = trimmed rest := by
      show ofString (p.displayFrom here) = trimmed rest
      rw [htext, ofString_text]
    refine ⟨?_, ?_, components_join_shown hhere h, displayFrom_eq_dot_iff hhere h⟩
    · intro hempty
      refine hsome ?_
      rw [← hshown]
      show (ofString (p.displayFrom here)).chars = []
      rw [hempty]
      rfl
    · rw [hshown]
      exact hrelative
  · intro front name other behind hdirectory hpath hother
    refine helsewhere ?_
    rw [hdirectory, hpath, List.prefix_append_right_inj, List.cons_prefix_cons]
    rintro ⟨heq, -⟩
    exact hother (Component.named.inj heq).symm

/-- From `/a/b`, doubled slashes, dots and a slash at the end are passed over while `..` stays, and
what is in `/a/bc` is not taken for something in `/a/b`. -/
theorem displayFrom_leads_back_crooked :
    let here := ofString "/a/b"
    let crooked := ofString "//a/./b//c/../d/./"
    here.isAbsolute = true ∧ here.components <+: crooked.components ∧
    crooked.displayFrom here = "c/../d" ∧
    (here.join (ofString "c/../d")).components = crooked.components ∧
    (ofString "/a/b/.").displayFrom here = "." ∧
    (ofString "/a/bc/x").displayFrom here = "/a/bc/x" := by
  intro here crooked
  have hhere : here.isAbsolute = true := by decide +kernel
  have hprefix : here.components <+: crooked.components := by decide +kernel
  have hshown : crooked.displayFrom here = "c/../d" := by decide +kernel
  have hdirectory : here.components <+: (ofString "/a/b/.").components := by decide +kernel
  refine ⟨hhere, hprefix, hshown, ?_, ?_, ?_⟩
  · rcases displayFrom_leads_back hhere crooked with ⟨-, hinside, -⟩
    rw [← hshown]
    exact (hinside hprefix).2.2.1
  · rcases displayFrom_leads_back hhere (ofString "/a/b/.") with ⟨-, hinside, -⟩
    exact (hinside hdirectory).2.2.2.mpr (by decide +kernel)
  · rcases displayFrom_leads_back hhere (ofString "/a/bc/x") with ⟨-, -, -, hneighbour⟩
    exact hneighbour [.root, .named ['a']] ['b'] ['b', 'c'] [.named ['x']] (by decide +kernel)
      (by decide +kernel) (by decide)

end Path

end BlockScript
