import BlockScript.Program.Build
import BlockScript.Program.Check
import BlockScript.Proofs.Files.FoundScripts
import BlockScript.Proofs.Program.Pictures

namespace BlockScript

/-! # Scripts that are named themselves

A script that was found is a file that its path leads to, so it is found again when its path is named
instead of the directory. The exceptions are paths that the system refuses to look up: a walk tells
the files of a directory without looking them up, and the path of a file may be too long where that
of its directory is not, or the directory may be read but not searched. So a second discovery gives
what the first one gave, without these paths (`findScripts_findScripts`). A build or a check that
names the scripts does the same as one that names their directories, if no path is refused
(`Session.scripts_named_themselves`).
-/

theorem utf8Length_replicate (n : Nat) (c : Char) :
    utf8Length (List.replicate n c) = n * c.utf8Size := by
  induction n with
  | zero => simp
  | succ n ih => rw [List.replicate_succ, utf8Length_cons, ih, Nat.succ_mul, Nat.add_comm]

namespace FileTree

variable {t : FileTree} {m : Manifest} {root p : Path} {roots : List Path}

theorem isFile_eq_false_of_directory? {place : Place} (h : t.directory? p = some place) :
    t.isFile p = false := by
  rcases lookup_of_directory? h with ⟨hlookup, hentry⟩
  rw [isFile, find?_of_lookup hlookup hentry]

/-- A path that is refused leads to nothing. -/
theorem find?_of_refuses (h : t.Refuses p) : ∃ refusal, t.find? p = .error refusal := by
  obtain ⟨refusal, -, hrefused⟩ := lookup_of_refuses h
  exact ⟨refusal, by rw [find?, hrefused]⟩

/-- A path that leads to nothing leads to no scripts. -/
theorem scriptsAt_of_find? {refusal : SystemRefusal} (h : t.find? p = .error refusal) :
    t.scriptsAt m p = [] := by
  rw [scriptsAt, isFile, h, filesBelow, directory?, h]
  rfl

namespace WellFormed

/-- A script that was found leads to something, unless the system refuses to look it up. -/
theorem exists?_eq_false_iff (ht : t.WellFormed) (h : p ∈ t.findScripts m roots) :
    t.exists? p = false ↔ t.Refuses p := by
  constructor
  · intro hnone
    by_contra hopen
    obtain ⟨q, content, hfind⟩ := isFile_iff.mp (ht.isFile_of_mem_findScripts h hopen)
    rw [exists?, hfind] at hnone
    cases hnone
  · intro hrefuses
    obtain ⟨refusal, hfind⟩ := find?_of_refuses hrefuses
    rw [exists?, hfind]
    rfl

/-- Where a script was found, the script alone is found again, if it can be looked up. -/
theorem scriptsAt_of_mem_findScripts (ht : t.WellFormed) (h : p ∈ t.findScripts m roots) :
    t.scriptsAt m p = if t.exists? p then [p] else [] := by
  by_cases hrefuses : t.Refuses p
  · obtain ⟨refusal, hfind⟩ := find?_of_refuses hrefuses
    rw [scriptsAt_of_find? hfind, (ht.exists?_eq_false_iff h).mpr hrefuses]
    rfl
  · have hsome : t.exists? p = true := by
      rw [← Bool.not_eq_false]
      exact mt (ht.exists?_eq_false_iff h).mp hrefuses
    rw [scriptsAt, if_pos (ht.isFile_of_mem_findScripts h hrefuses), if_pos hsome]

/-- What is found again is what was found, without the paths that are refused. -/
theorem findScripts_findScripts (ht : t.WellFormed) (m : Manifest) (roots : List Path) :
    t.findScripts m (t.findScripts m roots) = (t.findScripts m roots).filter t.exists? := by
  -- each script leads to itself, or to nothing
  have hagain : (t.findScripts m roots).flatMap (t.scriptsAt m) =
      (t.findScripts m roots).filter t.exists? := by
    rw [← List.filterMap_eq_filter, List.filterMap_eq_flatMap_toList]
    refine List.flatMap_congr fun p hp => ?_
    rw [ht.scriptsAt_of_mem_findScripts hp, Option.guard]
    cases t.exists? p <;> simp
  -- what is left of a sorted list without repetitions is one, too
  rw [findScripts, hagain]
  exact Path.eraseRepsBy_mergeSort_of_pairwise ((Path.pairwise_eraseRepsBy_mergeSort _).filter _)

theorem findScripts_findScripts_eq_iff (ht : t.WellFormed) (m : Manifest) (roots : List Path) :
    t.findScripts m (t.findScripts m roots) = t.findScripts m roots ↔
      ∀ p ∈ t.findScripts m roots, ¬ t.Refuses p := by
  rw [ht.findScripts_findScripts, List.filter_eq_self]
  refine forall_congr' fun p => forall_congr' fun hp => ?_
  rw [← ht.exists?_eq_false_iff hp, Bool.not_eq_false]

end WellFormed

end FileTree

namespace Session

/-- The paths that are given on the command line take the place of the manifest's sources. -/
theorem findScripts_of_ne_nil (s : Session) (m : Manifest) {paths : List Path} (h : paths ≠ []) :
    s.findScripts m paths = s.files.findScripts m paths := by
  rw [findScripts, Manifest.sourcePaths, List.isEmpty_eq_false_iff.mpr h]
  rfl

/-- What is found from the scripts that were found are these scripts, in the same order and spelling,
without those that the system refuses to look up: the ones with too long a path, and the ones in a
directory that may not be searched. So it is the same if there are none of these. Then it makes no
difference to a build or a check whether the scripts are named or their directories. -/
theorem scripts_named_themselves (s : Session) (hfiles : s.files.WellFormed) (m : Manifest) :
    (∀ roots, s.files.findScripts m (s.files.findScripts m roots) =
      (s.files.findScripts m roots).filter s.files.exists?) ∧
    (∀ roots, ∀ p ∈ s.files.findScripts m roots,
      s.files.exists? p = false ↔ s.files.Refuses p) ∧
    (∀ roots, s.files.findScripts m (s.files.findScripts m roots) = s.files.findScripts m roots ↔
      ∀ p ∈ s.files.findScripts m roots, ¬ s.files.Refuses p) ∧
    ∀ paths output unit, s.findScripts m paths ≠ [] →
      (∀ p ∈ s.findScripts m paths, ¬ s.files.Refuses p) →
      s.build m (s.findScripts m paths) output unit = s.build m paths output unit ∧
      s.check m (s.findScripts m paths) = s.check m paths := by
  refine ⟨hfiles.findScripts_findScripts m, fun roots p => hfiles.exists?_eq_false_iff,
    hfiles.findScripts_findScripts_eq_iff m, ?_⟩
  intro paths output unit hsome hopen
  have hagain : s.findScripts m (s.findScripts m paths) = s.findScripts m paths := by
    rw [s.findScripts_of_ne_nil m hsome]
    exact (hfiles.findScripts_findScripts_eq_iff m _).mpr hopen
  constructor
  · rw [build, build, hagain]
  · rw [check, check, hagain]

/-- A directory with two scripts. -/
def shelf : Session where
  files.entries := [
    (["d".toList], .directory),
    (["d".toList, "x.blocks".toList], .file (.ofText "block")),
    (["d".toList, "y.blocks".toList], .file (.ofText "block.size-0"))]

def shelfDirectory : Path := Path.ofString "d"

def shelfScripts : List Path := [Path.ofString "d/x.blocks", Path.ofString "d/y.blocks"]

/-- The same directory when it may be read, but not be searched. -/
def lockedShelf : Session where
  files := { shelf.files with denied := [(["d".toList], .search)] }

theorem findScripts_shelf :
    shelf.findScripts {} [shelfDirectory] = shelfScripts ∧
      lockedShelf.findScripts {} [shelfDirectory] = shelfScripts := by
  have hroots : [shelfDirectory].flatMap (shelf.files.scriptsAt {}) = shelfScripts ∧
      [shelfDirectory].flatMap (lockedShelf.files.scriptsAt {}) = shelfScripts := by
    decide +kernel
  have hsorted : shelfScripts.mergeSort Path.le = shelfScripts :=
    List.mergeSort_of_pairwise (by decide)
  have hkept : shelfScripts.eraseRepsBy Path.same = shelfScripts := by decide
  rw [findScripts_of_ne_nil _ _ (List.cons_ne_nil _ _), FileTree.findScripts, hroots.1, hsorted,
    findScripts_of_ne_nil _ _ (List.cons_ne_nil _ _), FileTree.findScripts, hroots.2, hsorted]
  exact ⟨hkept, hkept⟩

/-- A check of the directory is the same as one of the two scripts in it. In the directory that may
not be searched the scripts are found, but none of them is found again. -/
theorem scripts_named_themselves_shelf :
    shelf.files.WellFormed ∧ lockedShelf.files.WellFormed ∧
      shelf.findScripts {} [shelfDirectory] = shelfScripts ∧
      shelf.files.findScripts {} shelfScripts = shelfScripts ∧
      shelf.check {} shelfScripts = shelf.check {} [shelfDirectory] ∧
      lockedShelf.findScripts {} [shelfDirectory] = shelfScripts ∧
      lockedShelf.files.findScripts {} shelfScripts = [] := by
  have hfiles : shelf.files.WellFormed ∧ lockedShelf.files.WellFormed := by decide +kernel
  obtain ⟨hfound, hlocked⟩ := findScripts_shelf
  have hsome : ∀ p ∈ shelfScripts, shelf.files.exists? p = true := by decide +kernel
  have hnone : shelfScripts.filter lockedShelf.files.exists? = [] := by decide +kernel
  rcases shelf.scripts_named_themselves hfiles.1 {} with ⟨-, hrefuses, hsame, hcommands⟩
  rcases lockedShelf.scripts_named_themselves hfiles.2 {} with ⟨hlockedAgain, -⟩
  have hopen : ∀ p ∈ shelfScripts, ¬ shelf.files.Refuses p := by
    intro p hp hrefused
    rw [← hfound, shelf.findScripts_of_ne_nil {} (List.cons_ne_nil _ _)] at hp
    have hlost := (hrefuses _ p hp).mpr hrefused
    rw [← shelf.findScripts_of_ne_nil {} (List.cons_ne_nil _ _), hfound] at hp
    rw [hsome p hp] at hlost
    cases hlost
  have hcheck := (hcommands [shelfDirectory] none none (by rw [hfound]; decide)
    (by rwa [hfound])).2
  have hagain := (hsame [shelfDirectory]).mpr
  rw [← shelf.findScripts_of_ne_nil {} (List.cons_ne_nil _ _), hfound] at hagain
  have hempty := hlockedAgain [shelfDirectory]
  rw [← lockedShelf.findScripts_of_ne_nil {} (List.cons_ne_nil _ _), hlocked, hnone] at hempty
  refine ⟨hfiles.1, hfiles.2, hfound, hagain hopen, ?_, hlocked, hempty⟩
  rw [← hcheck, hfound]

/-- The directory with as many slashes behind it as a path can have. -/
def longDirectory : Path := ⟨'d' :: List.replicate (maxPathLength - 1) '/'⟩

def longScript : Path := longDirectory.join ⟨"x.blocks".toList⟩

theorem utf8Length_longDirectory : utf8Length longDirectory.chars = maxPathLength := by
  rw [longDirectory, utf8Length_cons, utf8Length_replicate]
  rfl

theorem directory?_longDirectory : shelf.files.directory? longDirectory = some ["d".toList] := by
  have husable : longDirectory.IsUsable := by
    refine ⟨List.cons_ne_nil _ _, ?_, utf8Length_longDirectory.le⟩
    simp [longDirectory]
  have hdropped : FileTree.dropSlashes longDirectory = shelfDirectory := by
    have hreverse : longDirectory.chars.reverse.dropWhile (· == '/') = ['d'] := by
      simp [longDirectory]
    rw [FileTree.dropSlashes, hreverse]
    rfl
  refine FileTree.directory?_of_dropSlashes husable ?_ rfl
  rw [hdropped]
  decide +kernel

/-- The script is found in its directory, but not by the path that it is found by. -/
theorem overlong_script_not_found_again :
    longScript ∈ shelf.files.findScripts {} [longDirectory] ∧
      longScript ∉ shelf.files.findScripts {} (shelf.files.findScripts {} [longDirectory]) := by
  have hfiles : shelf.files.WellFormed := by decide +kernel
  have hname : FileName.IsProper "x.blocks".toList := by decide
  have hchild : ("x.blocks".toList, .file (.ofText "block")) ∈ shelf.files.children ["d".toList] :=
    List.mem_cons_self
  have hfinds : shelf.files.Finds {} longDirectory longScript := by
    refine Or.inr ⟨?_, ?_, ?_, rfl⟩
    · exact FileTree.isFile_eq_false_of_directory? directory?_longDirectory
    · exact ⟨_, _, _, _, .file (.ofText "block"), .root directory?_longDirectory, hchild, trivial,
        rfl⟩
    · rw [Path.extension?, longScript, Path.fileName?_join hname.not_slash hname.toIsOrdinary]
      decide
  have hfound : longScript ∈ shelf.files.findScripts {} [longDirectory] :=
    hfiles.mem_findScripts_iff.mpr ⟨[], longDirectory, [], rfl, hfinds, by simp⟩
  refine ⟨hfound, ?_⟩
  rw [hfiles.findScripts_findScripts, List.mem_filter]
  rintro ⟨-, hsome⟩
  have hlength : utf8Length longScript.chars = maxPathLength + 8 := by
    have hlast : longDirectory.chars.getLast? = some '/' := by
      rw [longDirectory, List.getLast?_cons, List.getLast?_replicate, if_neg (by decide)]
      rfl
    have hchars : longDirectory.chars ≠ [] := List.cons_ne_nil _ _
    rw [longScript, Path.join_eq hname.not_slash hchars, if_pos hlast, utf8Length_append,
      utf8Length_longDirectory]
    rfl
  have hlong : maxPathLength < utf8Length longScript.chars := by omega
  rw [(hfiles.exists?_eq_false_iff hfound).mpr (Or.inl hlong)] at hsome
  cases hsome

end Session

end BlockScript
