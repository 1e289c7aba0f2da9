import BlockScript.Files.Discovery
import BlockScript.Proofs.Files.DirectoryNames
import Mathlib.Data.List.Induction
import Mathlib.Tactic.Ring

namespace BlockScript

/-! # What a walk reaches

A walk opens its root, and from a directory that it has opened all directories in it, and those that
links in it lead to, unless a link leads back to a directory on the way there (`FileTree.Opens`).
The files in these directories, and the files that links in them lead to, are what it reaches
(`FileTree.Reaches`). The steps that a walk may go down suffice for all of this: each step opens a
directory that was not open before, or goes to a longer place (`FileTree.stepsLeft`). So a walk
tells exactly what it reaches (`mem_filesBelow_iff`), and each file once: two paths that it tells
are equal if their components are (`eq_of_reaches`).
-/

namespace Path

variable {p p' root : Path} {name : FileName} {names : List FileName}

/-- The path of what some names lead to, one behind the other. -/
def below (p : Path) (names : List FileName) : Path := names.foldl (fun p name => p.join ⟨name⟩) p

/-- Whether a path is another one with names behind it. -/
def IsBelow (p root : Path) : Prop :=
  ∃ names, (∀ name ∈ names, name.IsProper) ∧ p = root.below names

theorem below_concat (p : Path) (names : List FileName) (name : FileName) :
    p.below (names ++ [name]) = (p.below names).join ⟨name⟩ := by
  rw [below, List.foldl_concat, below]

theorem IsBelow.refl (p : Path) : p.IsBelow p := ⟨[], by simp, rfl⟩

theorem IsBelow.join (h : p.IsBelow root) (hname : name.IsProper) :
    (p.join ⟨name⟩).IsBelow root := by
  obtain ⟨names, hnames, rfl⟩ := h
  refine ⟨names ++ [name], fun other hother => ?_, (root.below_concat names name).symm⟩
  rcases List.mem_append.mp hother with hother | hother
  · exact hnames other hother
  · rwa [List.mem_singleton.mp hother]

/-- A name behind a path is one more component. -/
theorem components_join (hname : name.IsProper) (hp : p.chars ≠ []) :
    (p.join ⟨name⟩).components = p.components ++ [.named name] := by
  have hlast : isIdle name = false := by simp [isIdle, hname.ne_nil, hname.ne_dot]
  have hpieces : (Path.mk name).pieces = [name] := List.splitOn_eq_singleton hname.not_slash
  rw [components_join_of_relative (isAbsolute_mk hname.not_slash) hp, hpieces,
    steps_cons_of_not_isIdle hlast]
  simp [pieceComponent, hname.ne_dotDot]

theorem components_below (hnames : ∀ name ∈ names, name.IsProper) (hp : p.chars ≠ []) :
    (p.below names).chars ≠ [] ∧ (p.below names).components = p.components ++ names.map .named := by
  induction names using List.reverseRecOn with
  | nil => exact ⟨hp, by simp [below]⟩
  | append_singleton names name ih =>
    have hname : name.IsProper := hnames name (by simp)
    obtain ⟨hsome, hcomponents⟩ := ih fun name h => hnames name (List.mem_append_left _ h)
    rw [below_concat]
    refine ⟨chars_join_ne_nil hname.not_slash hsome, ?_⟩
    rw [components_join hname hsome, hcomponents]
    simp

/-- The names behind a path can be read from the components. -/
theorem IsBelow.eq_of_components (h : p.IsBelow root) (h' : p'.IsBelow root)
    (hroot : root.chars ≠ []) (hcomponents : p.components = p'.components) : p = p' := by
  obtain ⟨names, hnames, rfl⟩ := h
  obtain ⟨names', hnames', rfl⟩ := h'
  rw [(components_below hnames hroot).2, (components_below hnames' hroot).2,
    List.append_cancel_left_eq] at hcomponents
  rw [List.map_injective_iff.mpr (fun _ _ => Component.named.inj) hcomponents]

end Path

namespace FileTree

variable {t : FileTree} {opened : List Place} {root shown p : Path} {place q : Place}
  {name : FileName} {entry : Entry} {fuel : Nat}

/-- Whether a walk goes down to the directory at `q`, for an entry that it tells by the path `p`. -/
def Enters (t : FileTree) (opened : List Place) (p : Path) : Entry → Place → Prop
  | .file _, _ => False
  | .directory, q => t.directory? p = some q
  | .link _, q => t.directory? p = some q ∧ q ∉ opened

/-- Whether an entry that a walk tells by the path `p` is a file, or a link to one. -/
def LeadsToFile (t : FileTree) (p : Path) : Entry → Prop
  | .file _ => True
  | .directory => False
  | .link _ => t.isFile p = true

/-- The directories that a walk opens: the path that it tells them by, their places, and the places
of the directories on the way to them, their own first. -/
inductive Opens (t : FileTree) (root : Path) : Path → Place → List Place → Prop where
  | root {place : Place} (hroot : t.directory? root = some place) : Opens t root root place [place]
  | child {shown : Path} {place : Place} {opened : List Place} {name : FileName} {entry : Entry}
      {q : Place} (hshown : Opens t root shown place opened)
      (hchild : (name, entry) ∈ t.children place)
      (henters : t.Enters opened (shown.join ⟨name⟩) entry q) :
      Opens t root (shown.join ⟨name⟩) q (q :: opened)

/-- Whether the path is that of a file that a walk from the root reaches. -/
def Reaches (t : FileTree) (root p : Path) : Prop :=
  ∃ shown place opened name entry, t.Opens root shown place opened ∧
    (name, entry) ∈ t.children place ∧ t.LeadsToFile (shown.join ⟨name⟩) entry ∧
    p = shown.join ⟨name⟩

/-! ## Directories -/

theorem Enters.directory? (h : t.Enters opened p entry q) : t.directory? p = some q := by
  cases entry with
  | file content => cases h
  | directory => exact h
  | link target => exact h.1

theorem Opens.directory? (h : t.Opens root shown place opened) :
    t.directory? shown = some place := by
  cases h with
  | root hroot => exact hroot
  | child _ _ henters => exact henters.directory?

/-- A directory in a directory is at the place that its name leads to. -/
theorem WellFormed.place_of_children (ht : t.WellFormed) (hshown : t.directory? shown = some place)
    (hchild : (name, .directory) ∈ t.children place)
    (hq : t.directory? (shown.join ⟨name⟩) = some q) : q = place ++ [name] := by
  obtain ⟨hlookup, hdirectory⟩ := lookup_of_directory? hq
  have hopen : ¬ t.Refuses (shown.join ⟨name⟩) := not_refuses_of_lookup hlookup
  obtain ⟨hplace, -⟩ := ht.lookup_of_children hshown hchild rfl hopen
  exact Lookup.found.inj (hlookup.symm.trans hplace)

/-! ## One step of a walk -/

theorem directory?_of_mem_walk (h : p ∈ t.walk fuel opened shown) :
    ∃ place, t.directory? shown = some place := by
  cases fuel with
  | zero => cases h
  | succ fuel =>
    rw [walk] at h
    split at h
    · cases h
    · next place hshown => exact ⟨place, hshown⟩

/-- A walk tells the entries of a directory that are files, and what it tells below the others. -/
theorem WellFormed.mem_walk_succ (ht : t.WellFormed) (hshown : t.directory? shown = some place) :
    p ∈ t.walk (fuel + 1) opened shown ↔ ∃ name entry, (name, entry) ∈ t.children place ∧
      (p = shown.join ⟨name⟩ ∧ t.LeadsToFile (shown.join ⟨name⟩) entry ∨
        ∃ q, t.Enters opened (shown.join ⟨name⟩) entry q ∧
          p ∈ t.walk fuel (q :: opened) (shown.join ⟨name⟩)) := by
  rw [walk, hshown]
  simp only [List.mem_flatMap, Prod.exists]
  refine exists_congr fun name => exists_congr fun entry => and_congr_right fun hchild => ?_
  cases entry with
  | file content =>
    simp [LeadsToFile, Enters]
  | directory =>
    simp only [LeadsToFile, Enters, and_false, false_or]
    constructor
    · intro hp
      obtain ⟨q, hq⟩ := directory?_of_mem_walk hp
      obtain rfl := ht.place_of_children hshown hchild hq
      exact ⟨_, hq, hp⟩
    · rintro ⟨q, hq, hp⟩
      obtain rfl := ht.place_of_children hshown hchild hq
      exact hp
  | link target =>
    -- what the link leads to decides for both sides
    simp only [LeadsToFile, Enters, isFile, FileTree.directory?]
    rcases t.find? (shown.join ⟨name⟩) with refusal | ⟨goal, content | - | next⟩
    · simp
    · simp
    · by_cases hopen : goal ∈ opened <;> simp [hopen]
    · simp

/-- Whatever a walk tells from a directory that it opens is reached. -/
theorem WellFormed.reaches_of_mem_walk (ht : t.WellFormed) (h : t.Opens root shown place opened)
    (hp : p ∈ t.walk fuel opened shown) : t.Reaches root p := by
  induction fuel generalizing shown place opened with
  | zero => cases hp
  | succ fuel ih =>
    obtain ⟨name, entry, hchild, ⟨hpath, hfile⟩ | ⟨q, henters, hp⟩⟩ :=
      (ht.mem_walk_succ h.directory?).mp hp
    · exact ⟨shown, place, opened, name, entry, h, hchild, hfile, hpath⟩
    · exact ih (h.child hchild henters) hp

/-! ## The steps suffice -/

/-- The places that directories can have. -/
def places (t : FileTree) : List Place := [] :: t.entries.map (·.1)

/-- Directories, at most, that a walk has not opened yet. -/
def unopened (t : FileTree) (opened : List Place) : Nat := t.places.countP fun q => q ∉ opened

/-- Directories, at most, that a walk goes down to from a place without following links. -/
def longer (t : FileTree) (place : Place) : Nat :=
  t.entries.countP fun e => place.length < e.1.length

/-- Steps that a walk goes down at most: links open new directories, and between two links the
places get longer. -/
def stepsLeft (t : FileTree) (opened : List Place) (place : Place) : Nat :=
  t.unopened opened * (t.entries.length + 1) + t.longer place

theorem countP_lt_countP {α : Type} {xs : List α} {x : α} {f g : α → Bool} (hx : x ∈ xs)
    (hle : ∀ y ∈ xs, f y = true → g y = true) (hf : ¬ f x = true) (hg : g x = true) :
    xs.countP f < xs.countP g := by
  obtain ⟨front, back, rfl⟩ := List.append_of_mem hx
  have hfront := List.countP_mono_left fun y hy => hle y (List.mem_append_left _ hy)
  have hback := List.countP_mono_left fun y hy =>
    hle y (List.mem_append_right _ (List.mem_cons_of_mem x hy))
  rw [List.countP_append, List.countP_append, List.countP_cons_of_neg hf,
    List.countP_cons_of_pos hg]
  omega

theorem mem_places_of_directory? (h : t.directory? p = some q) : q ∈ t.places := by
  obtain ⟨-, hentry⟩ := lookup_of_directory? h
  rcases eq_or_ne q [] with rfl | hq
  · exact List.mem_cons_self
  · rw [entry?_of_ne_nil hq, Option.map_eq_some_iff] at hentry
    obtain ⟨e, hfind, -⟩ := hentry
    have hplace : e.1 = q := by simpa using List.find?_some hfind
    refine List.mem_cons_of_mem _ (List.mem_map.mpr ⟨e, List.mem_of_find?_eq_some hfind, hplace⟩)

theorem longer_le (t : FileTree) (place : Place) : t.longer place ≤ t.entries.length :=
  List.countP_le_length

theorem longer_lt (hchild : (name, entry) ∈ t.children place) :
    t.longer (place ++ [name]) < t.longer place := by
  refine countP_lt_countP (mem_children hchild) (fun e _ he => ?_) (by simp) (by simp)
  simp only [List.length_append, List.length_singleton, decide_eq_true_eq] at he ⊢
  omega

theorem unopened_le (t : FileTree) (opened : List Place) :
    t.unopened opened ≤ t.entries.length + 1 := by
  have hle := List.countP_le_length (p := fun q => decide (q ∉ opened)) (l := t.places)
  rwa [places, List.length_cons, List.length_map] at hle

theorem unopened_cons_le (t : FileTree) (q : Place) (opened : List Place) :
    t.unopened (q :: opened) ≤ t.unopened opened := by
  refine List.countP_mono_left fun r _ hr => ?_
  simp only [List.mem_cons, not_or, decide_eq_true_eq] at hr ⊢
  exact hr.2

theorem unopened_cons_lt (hq : q ∈ t.places) (hnew : q ∉ opened) :
    t.unopened (q :: opened) < t.unopened opened := by
  refine countP_lt_countP hq (fun r _ hr => ?_) (by simp) (by simpa using hnew)
  simp only [List.mem_cons, not_or, decide_eq_true_eq] at hr ⊢
  exact hr.2

/-- Where a walk goes down, fewer steps are left. -/
theorem WellFormed.stepsLeft_lt (ht : t.WellFormed) (hshown : t.directory? shown = some place)
    (hchild : (name, entry) ∈ t.children place)
    (henters : t.Enters opened (shown.join ⟨name⟩) entry q) :
    t.stepsLeft (q :: opened) q < t.stepsLeft opened place := by
  have hq := henters.directory?
  rw [stepsLeft, stepsLeft]
  cases entry with
  | file content => cases henters
  | directory =>
    -- the place gets longer
    obtain rfl := ht.place_of_children hshown hchild hq
    have hlonger := longer_lt hchild
    have hmul := Nat.mul_le_mul_right (t.entries.length + 1)
      (t.unopened_cons_le (place ++ [name]) opened)
    omega
  | link target =>
    -- the place may be shorter, but it is a new one
    have hnew := unopened_cons_lt (mem_places_of_directory? hq) henters.2
    have hmul := Nat.mul_le_mul_right (t.entries.length + 1) (Nat.succ_le_of_lt hnew)
    have hlonger := t.longer_le q
    rw [Nat.succ_mul] at hmul
    omega

theorem stepsLeft_lt_walkFuel (t : FileTree) (opened : List Place) (place : Place) :
    t.stepsLeft opened place < t.walkFuel := by
  have hmul := Nat.mul_le_mul_right (t.entries.length + 1) (t.unopened_le opened)
  have hlonger := t.longer_le place
  have hsquare : (t.entries.length + 2) * (t.entries.length + 2) =
      (t.entries.length + 1) * (t.entries.length + 1) + 2 * t.entries.length + 3 := by ring
  rw [stepsLeft, walkFuel, hsquare]
  omega

/-- Each directory that is open is walked with steps enough. -/
theorem WellFormed.exists_walk_subset (ht : t.WellFormed) (h : t.Opens root shown place opened) :
    ∃ fuel, t.stepsLeft opened place < fuel ∧ t.walk fuel opened shown ⊆ t.filesBelow root := by
  induction h with
  | @root place hroot =>
    refine ⟨t.walkFuel, t.stepsLeft_lt_walkFuel [place] place, ?_⟩
    rw [filesBelow, hroot]
    exact List.Subset.refl _
  | @child shown place opened name entry q hshown hchild henters ih =>
    obtain ⟨fuel, hfuel, hsubset⟩ := ih
    have hless := ht.stepsLeft_lt hshown.directory? hchild henters
    obtain ⟨fuel, rfl⟩ := Nat.exists_eq_succ_of_ne_zero (Nat.ne_zero_of_lt hfuel)
    refine ⟨fuel, by omega, fun p hp => hsubset ?_⟩
    exact (ht.mem_walk_succ hshown.directory?).mpr ⟨name, entry, hchild, Or.inr ⟨q, henters, hp⟩⟩

/-- A walk tells exactly the files that it reaches. -/
theorem WellFormed.mem_filesBelow_iff (ht : t.WellFormed) :
    p ∈ t.filesBelow root ↔ t.Reaches root p := by
  constructor
  · intro hp
    rw [filesBelow] at hp
    split at hp
    · next place hroot => exact ht.reaches_of_mem_walk (Opens.root hroot) hp
    · cases hp
  · rintro ⟨shown, place, opened, name, entry, hopens, hchild, hfile, hpath⟩
    obtain ⟨fuel, hfuel, hsubset⟩ := ht.exists_walk_subset hopens
    obtain ⟨fuel, rfl⟩ := Nat.exists_eq_succ_of_ne_zero (Nat.ne_zero_of_lt hfuel)
    exact hsubset ((ht.mem_walk_succ hopens.directory?).mpr
      ⟨name, entry, hchild, Or.inl ⟨hpath, hfile⟩⟩)

/-! ## Paths of a walk -/

theorem chars_ne_nil_of_directory? (h : t.directory? p = some place) : p.chars ≠ [] := by
  obtain ⟨hlookup, -⟩ := lookup_of_directory? h
  by_contra hempty
  rw [lookup, hempty] at hlookup
  cases hlookup

theorem WellFormed.isBelow_of_opens (ht : t.WellFormed) (h : t.Opens root shown place opened) :
    root.chars ≠ [] ∧ shown.IsBelow root := by
  induction h with
  | root hroot => exact ⟨chars_ne_nil_of_directory? hroot, Path.IsBelow.refl root⟩
  | child hshown hchild henters ih =>
    exact ⟨ih.1, ih.2.join (ht.proper _ (mem_children hchild) _ (by simp))⟩

/-- What a walk reaches is a file, unless the system refuses to look it up. -/
theorem WellFormed.isFile_of_reaches (ht : t.WellFormed) (h : t.Reaches root p)
    (hopen : ¬ t.Refuses p) : t.isFile p = true := by
  obtain ⟨shown, place, opened, name, entry, hopens, hchild, hfile, rfl⟩ := h
  cases entry with
  | file content =>
    obtain ⟨hlookup, hentry⟩ := ht.lookup_of_children hopens.directory? hchild rfl hopen
    exact isFile_iff.mpr ⟨place ++ [name], content, find?_of_lookup hlookup hentry⟩
  | directory => cases hfile
  | link target => exact hfile

theorem WellFormed.isBelow_of_reaches (ht : t.WellFormed) (h : t.Reaches root p) :
    root.chars ≠ [] ∧ p.IsBelow root := by
  obtain ⟨shown, place, opened, name, entry, hopens, hchild, -, rfl⟩ := h
  obtain ⟨hroot, hbelow⟩ := ht.isBelow_of_opens hopens
  exact ⟨hroot, hbelow.join (ht.proper _ (mem_children hchild) _ (by simp))⟩

/-- A walk tells no two files by paths with the same components. -/
theorem WellFormed.eq_of_reaches (ht : t.WellFormed) {p' : Path} (h : t.Reaches root p)
    (h' : t.Reaches root p') (hcomponents : p.components = p'.components) : p = p' := by
  obtain ⟨hroot, hbelow⟩ := ht.isBelow_of_reaches h
  obtain ⟨-, hbelow'⟩ := ht.isBelow_of_reaches h'
  exact hbelow.eq_of_components hbelow' hroot hcomponents

end FileTree

end BlockScript
