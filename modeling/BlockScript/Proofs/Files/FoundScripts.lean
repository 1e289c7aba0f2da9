import BlockScript.Proofs.Files.PathOrder
import BlockScript.Proofs.Files.Walk

namespace BlockScript

/-! # The scripts that are found

A root that is a file is found itself; from any other root, the files that a walk reaches, if they
have the extension of scripts and are not excluded (`FileTree.Finds`). What is found from all roots
is sorted, and of paths with equal components the first one is kept, in the order of the roots
(`mem_findScripts_iff`). So the roots matter up to order and repetition, except for the spelling of
paths (`findScripts_keeps_first`).
-/

namespace FileTree

variable {t : FileTree} {m : Manifest} {root p q : Path} {roots : List Path}

/-- Whether a path is found from a root: the root itself if it is a file, else what a walk reaches
that has the extension `blocks` and is not excluded. -/
def Finds (t : FileTree) (m : Manifest) (root p : Path) : Prop :=
  t.isFile root = true ∧ p = root ∨
    t.isFile root = false ∧ t.Reaches root p ∧ p.extension? = some "blocks".toList ∧
      m.isExcluded p = false

namespace WellFormed

theorem mem_scriptsAt_iff (ht : t.WellFormed) : p ∈ t.scriptsAt m root ↔ t.Finds m root p := by
  rw [scriptsAt, Finds]
  split_ifs with hroot
  · simp [hroot]
  · simp [hroot, ht.mem_filesBelow_iff, isScript]

/-- No two paths with the same components are found from one root. -/
theorem eq_of_finds (ht : t.WellFormed) (hp : t.Finds m root p) (hq : t.Finds m root q)
    (h : p.components = q.components) : p = q := by
  rcases hp with ⟨hroot, rfl⟩ | ⟨hroot, hp, -, -⟩
  · rcases hq with ⟨-, rfl⟩ | ⟨hnot, -⟩
    · rfl
    · rw [hroot] at hnot
      cases hnot
  · rcases hq with ⟨hnot, -⟩ | ⟨-, hq, -, -⟩
    · rw [hroot] at hnot
      cases hnot
    · exact ht.eq_of_reaches hp hq h

theorem find?_scriptsAt_eq_some_iff (ht : t.WellFormed) :
    (t.scriptsAt m root).find? q.same = some q ↔ t.Finds m root q := by
  constructor
  · intro hfind
    exact ht.mem_scriptsAt_iff.mp (List.mem_of_find?_eq_some hfind)
  · intro hq
    cases hfind : (t.scriptsAt m root).find? q.same with
    | none =>
      have hmem := ht.mem_scriptsAt_iff.mpr hq
      exact absurd (Path.same_iff.mpr rfl) (List.find?_eq_none.mp hfind q hmem)
    | some p =>
      have hp := ht.mem_scriptsAt_iff.mp (List.mem_of_find?_eq_some hfind)
      have hsame := Path.same_iff.mp (List.find?_some hfind)
      rw [ht.eq_of_finds hq hp hsame]

theorem find?_scriptsAt_eq_none_iff (ht : t.WellFormed) :
    (t.scriptsAt m root).find? q.same = none ↔
      ∀ p, t.Finds m root p → p.components ≠ q.components := by
  rw [List.find?_eq_none]
  refine forall_congr' fun p => ?_
  rw [ht.mem_scriptsAt_iff, Path.same_iff, ne_comm]

/-- A path is in the list if it is found, and no path with its components from a root before. -/
theorem mem_findScripts_iff (ht : t.WellFormed) :
    q ∈ t.findScripts m roots ↔ ∃ before root after, roots = before ++ root :: after ∧
      t.Finds m root q ∧ ∀ r ∈ before, ∀ p, t.Finds m r p → p.components ≠ q.components := by
  rw [findScripts, Path.mem_eraseRepsBy_mergeSort_iff, List.find?_flatMap,
    List.findSome?_eq_some_iff]
  refine exists_congr fun before => exists_congr fun root => exists_congr fun after => ?_
  simp only [ht.find?_scriptsAt_eq_some_iff, ht.find?_scriptsAt_eq_none_iff]

/-- A script that is found is a file, unless the system refuses to look it up. -/
theorem isFile_of_finds (ht : t.WellFormed) (h : t.Finds m root p) (hopen : ¬ t.Refuses p) :
    t.isFile p = true := by
  rcases h with ⟨hroot, rfl⟩ | ⟨-, hreaches, -, -⟩
  · exact hroot
  · exact ht.isFile_of_reaches hreaches hopen

theorem isFile_of_mem_findScripts (ht : t.WellFormed) (h : p ∈ t.findScripts m roots)
    (hopen : ¬ t.Refuses p) : t.isFile p = true := by
  obtain ⟨before, root, after, -, hfinds, -⟩ := ht.mem_findScripts_iff.mp h
  exact ht.isFile_of_finds hfinds hopen

/-- Up to spelling, whatever is found from a root is in the list. -/
theorem exists_mem_findScripts_iff (ht : t.WellFormed) :
    (∃ q ∈ t.findScripts m roots, q.components = p.components) ↔
      ∃ root ∈ roots, ∃ q, t.Finds m root q ∧ q.components = p.components := by
  rw [findScripts, Path.exists_mem_eraseRepsBy_mergeSort_iff]
  constructor
  · rintro ⟨q, hq, hsame⟩
    obtain ⟨root, hroot, hq⟩ := List.mem_flatMap.mp hq
    exact ⟨root, hroot, q, ht.mem_scriptsAt_iff.mp hq, hsame⟩
  · rintro ⟨root, hroot, q, hq, hsame⟩
    exact ⟨q, List.mem_flatMap.mpr ⟨root, hroot, ht.mem_scriptsAt_iff.mpr hq⟩, hsame⟩

end WellFormed

/-- Roots in another order, or repeated, lead to the same scripts, up to spelling. -/
theorem map_components_findScripts_congr (t : FileTree) (m : Manifest) {roots' : List Path}
    (h : ∀ root, root ∈ roots' ↔ root ∈ roots) :
    (t.findScripts m roots').map Path.components = (t.findScripts m roots).map Path.components := by
  refine Path.map_components_eq (Path.pairwise_eraseRepsBy_mergeSort _)
    (Path.pairwise_eraseRepsBy_mergeSort _) fun p => ?_
  rw [findScripts, findScripts, Path.exists_mem_eraseRepsBy_mergeSort_iff,
    Path.exists_mem_eraseRepsBy_mergeSort_iff]
  refine exists_congr fun q => and_congr_left fun _ => ?_
  rw [List.mem_flatMap, List.mem_flatMap]
  exact exists_congr fun root => and_congr_left fun _ => h root

/-- The scripts that are found are in strict order of their components: up to spelling they are
what is found from the roots, and of the spellings of one path the first one, in the order of the
roots. So they depend on the order and the repetitions of the roots in their spelling only. -/
theorem WellFormed.findScripts_keeps_first (ht : t.WellFormed) (m : Manifest) (roots : List Path) :
    (t.findScripts m roots).Pairwise (fun p q => p.compare q = .lt) ∧
    ((t.findScripts m roots).map Path.components).Nodup ∧
    (∀ p : Path, (∃ q ∈ t.findScripts m roots, q.components = p.components) ↔
      ∃ root ∈ roots, ∃ q, t.Finds m root q ∧ q.components = p.components) ∧
    (∀ q, q ∈ t.findScripts m roots ↔ ∃ before root after, roots = before ++ root :: after ∧
      t.Finds m root q ∧ ∀ r ∈ before, ∀ p, t.Finds m r p → p.components ≠ q.components) ∧
    ∀ roots', (∀ root, root ∈ roots' ↔ root ∈ roots) →
      (t.findScripts m roots').map Path.components =
        (t.findScripts m roots).map Path.components := by
  have hsorted := Path.pairwise_eraseRepsBy_mergeSort (roots.flatMap (t.scriptsAt m))
  refine ⟨hsorted, Path.nodup_components hsorted, ?_, ?_, ?_⟩
  · intro p
    exact ht.exists_mem_findScripts_iff
  · intro q
    exact ht.mem_findScripts_iff
  · intro roots' hroots
    exact map_components_findScripts_congr t m hroots

/-! ### A link to a directory -/

/-- A directory with a script in it, and a link to the directory. -/
def twoWays : FileTree where
  entries := [
    (["d".toList], .directory),
    (["d".toList, "x.blocks".toList], .file (.ofText "block")),
    (["l".toList], .link (Path.ofString "d"))]

def scriptByLink : Path := Path.ofString "l/x.blocks"

def linkWithSlashes : Path := Path.ofString "l//"

def scriptWithSlashes : Path := Path.ofString "l//x.blocks"

/-- The root that comes first decides how the script is spelled. -/
theorem findScripts_keeps_first_two_ways :
    twoWays.WellFormed ∧
      scriptByLink ∈ twoWays.findScripts {} [scriptByLink, linkWithSlashes] ∧
      scriptWithSlashes ∉ twoWays.findScripts {} [scriptByLink, linkWithSlashes] ∧
      scriptWithSlashes ∈ twoWays.findScripts {} [linkWithSlashes, scriptByLink] ∧
      (twoWays.findScripts {} [linkWithSlashes, scriptByLink]).map Path.components =
        (twoWays.findScripts {} [scriptByLink, linkWithSlashes]).map Path.components := by
  have ht : twoWays.WellFormed := by decide +kernel
  have hfile : twoWays.Finds {} scriptByLink scriptByLink :=
    ht.mem_scriptsAt_iff.mp (by decide +kernel)
  have hlink : twoWays.Finds {} linkWithSlashes scriptWithSlashes :=
    ht.mem_scriptsAt_iff.mp (by decide +kernel)
  obtain ⟨-, hnodup, -, hmem, hroots⟩ :=
    ht.findScripts_keeps_first {} [scriptByLink, linkWithSlashes]
  obtain ⟨-, -, -, hmem', -⟩ := ht.findScripts_keeps_first {} [linkWithSlashes, scriptByLink]
  have hfirst := (hmem scriptByLink).mpr ⟨[], scriptByLink, [linkWithSlashes], rfl, hfile, by simp⟩
  refine ⟨ht, hfirst, fun hother => ?_, ?_, ?_⟩
  · have hsame : scriptByLink = scriptWithSlashes :=
      List.inj_on_of_nodup_map hnodup hfirst hother (by decide)
    exact absurd hsame (by decide)
  · exact (hmem' scriptWithSlashes).mpr ⟨[], linkWithSlashes, [scriptByLink], rfl, hlink, by simp⟩
  · exact hroots [linkWithSlashes, scriptByLink] fun root => by simp [or_comm]

end FileTree

end BlockScript
