import BlockScript.Proofs.Files.JoinedPaths
import BlockScript.Proofs.Files.Lookup

namespace BlockScript

/-! # Names in directories

The path of a directory with a name behind it leads to the entry of this name in the directory
(`FileTree.lookup_join`, `FileTree.follow_name`), if the directory may be searched and the path is
not longer than paths may be. Listing a directory needs neither, so an entry can be listed and yet
not be looked up (`FileTree.Refuses`).
-/

/-! ## Paths with a name behind them -/

namespace Path

variable {p : Path} {name : FileName}

theorem join_eq (hname : '/' ∉ name) (hp : p.chars ≠ []) :
    p.join ⟨name⟩ = ⟨if p.chars.getLast? = some '/' then p.chars ++ name
      else p.chars ++ '/' :: name⟩ :=
  join_of_relative (isAbsolute_mk hname) hp

theorem chars_join_ne_nil (hname : '/' ∉ name) (hp : p.chars ≠ []) :
    (p.join ⟨name⟩).chars ≠ [] := by
  rw [join_eq hname hp]
  split_ifs <;> simp [hp]

/-- A name behind a path is one more piece; an empty piece that ended the path is dropped. -/
theorem pieces_join (hname : '/' ∉ name) (hp : p.chars ≠ []) :
    ∃ pieces, (p.pieces = pieces ∨ p.pieces = pieces ++ [[]]) ∧
      (p.join ⟨name⟩).pieces = pieces ++ [name] := by
  obtain ⟨pieces, -, hpieces, hjoin⟩ := pieces_join_of_relative (isAbsolute_mk hname) hp
  have hname : (Path.mk name).pieces = [name] := List.splitOn_eq_singleton hname
  rw [hname] at hjoin
  exact ⟨pieces, hpieces, hjoin⟩

theorem isAbsolute_join (hname : '/' ∉ name) (hp : p.chars ≠ []) :
    (p.join ⟨name⟩).isAbsolute = p.isAbsolute :=
  isAbsolute_join_of_relative (isAbsolute_mk hname) hp

/-- The name is the last piece. -/
theorem exists_pieces_join (hname : '/' ∉ name) (p : Path) :
    ∃ front, (p.join ⟨name⟩).pieces = front ++ [name] := by
  by_cases hp : p.chars = []
  · refine ⟨[], ?_⟩
    rw [join, hp, List.isEmpty_nil, Bool.or_true, if_pos rfl]
    exact List.splitOn_eq_singleton hname
  · obtain ⟨front, -, hjoin⟩ := pieces_join hname hp
    exact ⟨front, hjoin⟩

end Path

namespace FileTree

variable {t : FileTree} {purpose : Purpose} {place d : Place} {pieces rest : List FileName}
  {name : FileName}

theorem move_append {piece : FileName} (hrest : purpose = .writing → ∃ piece ∈ rest, piece ≠ []) :
    t.move purpose place piece (pieces ++ rest) = t.move .reading place piece pieces := by
  have hslash : ¬ (purpose = .writing ∧ pieces ++ rest ≠ [] ∧ (pieces ++ rest).all (·.isEmpty)) := by
    rintro ⟨hwriting, -, hall⟩
    obtain ⟨piece, hpiece, hsome⟩ := hrest hwriting
    have hempty := List.all_eq_true.mp hall piece (List.mem_append_right _ hpiece)
    exact hsome (List.isEmpty_iff.mp hempty)
  rw [move, move, if_neg hslash]
  simp

/-- A name that ends a path is looked up or refused, whatever for. -/
theorem move_name_cases (t : FileTree) (d : Place) (hname : name.IsOrdinary) :
    (∀ purpose, t.move purpose d name [] = .down) ∨
      ∃ refusal, ∀ purpose, t.move purpose d name [] = .refused refusal := by
  have hmove : ∀ purpose, t.move purpose d name [] =
      if t.allows d .search = false then .refused .permissionDenied
      else if '\x00' ∈ name then .refused .invalidInput
      else if maxNameLength < utf8Length name then .refused .nameTooLong else .down := by
    intro purpose
    simp [move, hname.ne_nil, hname.ne_dot, hname.ne_dotDot]
  simp only [hmove]
  split_ifs
  · exact Or.inr ⟨_, fun _ => rfl⟩
  · exact Or.inr ⟨_, fun _ => rfl⟩
  · exact Or.inr ⟨_, fun _ => rfl⟩
  · exact Or.inl fun _ => rfl

/-- A proper name is looked up in any directory that may be searched. -/
theorem move_name (t : FileTree) (purpose : Purpose) (d : Place) (hname : name.IsProper) :
    t.move purpose d name [] =
      if t.allows d .search then .down else .refused .permissionDenied := by
  cases h : t.allows d .search <;>
    simp [move, h, hname.ne_nil, hname.ne_dot, hname.ne_dotDot, hname.not_nul,
      Nat.not_lt.mpr hname.length_le]

/-- Where a stretch gets with more pieces behind it. -/
def goOn (t : FileTree) (purpose : Purpose) (rest : List FileName) : Stretch → Stretch
  | .ended (.found place) => t.stretch purpose place rest
  | .ended (.missing _) => .ended (.refused .notFound)
  | .ended (.refused refusal) => .ended (.refused refusal)
  | .linked directory target pieces => .linked directory target (pieces ++ rest)

theorem stretch_append (hsome : rest ≠ [])
    (hrest : purpose = .writing → ∃ piece ∈ rest, piece ≠ []) :
    t.stretch purpose place (pieces ++ rest) =
      t.goOn purpose rest (t.stretch .reading place pieces) := by
  induction pieces generalizing place with
  | nil => rfl
  | cons piece pieces ih =>
    rw [List.cons_append, stretch, stretch, move_append hrest]
    rcases t.entry? place with _ | content | - | target
    · rfl
    · rfl
    · cases t.move .reading place piece pieces with
      | stay => exact ih
      | up => exact ih
      | refused refusal => rfl
      | down =>
        -- more follows, so a link is followed and a missing name is not made
        have hmore : (pieces ++ rest).isEmpty = false := by simp [hsome]
        rcases t.entry? (place ++ [piece]) with _ | content | - | target
        · simp only [hmore]
          cases pieces <;> rfl
        · exact ih
        · exact ih
        · simp only [hmore]
          simp [goOn]
    · rfl

theorem follow_append (hsome : rest ≠ [])
    (hrest : purpose = .writing → ∃ piece ∈ rest, piece ≠ []) {links : Nat}
    (h : t.follow .reading links place pieces = .found d) :
    ∃ left, t.follow purpose links place (pieces ++ rest) = t.follow purpose left d rest := by
  induction links using Nat.strongRecOn generalizing place pieces with
  | ind links ih =>
    rw [follow_eq] at h
    cases hstretch : t.stretch .reading place pieces with
    | ended lookup =>
      rw [hstretch] at h
      obtain rfl : lookup = .found d := h
      refine ⟨links, ?_⟩
      rw [follow_eq, follow_eq, stretch_append hsome hrest, hstretch]
      rfl
    | linked directory target more =>
      rw [hstretch] at h
      cases links with
      | zero => cases h
      | succ links =>
        obtain ⟨left, hleft⟩ := ih links (Nat.lt_succ_self links) h
        refine ⟨left, ?_⟩
        rw [← hleft, follow_eq, stretch_append hsome hrest, hstretch, List.append_assoc]
        rfl

/-- A slash behind a path leaves where it leads, or refuses it. -/
theorem goOn_slash (t : FileTree) (lookup : Lookup) :
    t.goOn .reading [[]] (.ended lookup) = .ended lookup ∨
    ∃ refusal, t.goOn .reading [[]] (.ended lookup) = .ended (.refused refusal) := by
  cases lookup with
  | missing q => exact Or.inr ⟨_, rfl⟩
  | refused refusal => exact Or.inr ⟨_, rfl⟩
  | found start =>
    rw [goOn, stretch]
    rcases t.entry? start with _ | content | - | target
    · exact Or.inr ⟨_, rfl⟩
    · exact Or.inr ⟨_, rfl⟩
    · exact Or.inl rfl
    · exact Or.inr ⟨_, rfl⟩

/-- A slash that ends a path to a directory can be left out. -/
theorem follow_slash {links : Nat} (h : t.follow .reading links place (pieces ++ [[]]) = .found d) :
    t.follow .reading links place pieces = .found d := by
  have hwriting : Purpose.reading = .writing → ∃ piece ∈ ([[]] : List FileName), piece ≠ [] := by
    intro hpurpose
    cases hpurpose
  induction links using Nat.strongRecOn generalizing place pieces with
  | ind links ih =>
    rw [follow_eq, stretch_append (List.cons_ne_nil _ _) hwriting] at h
    rw [follow_eq]
    cases hstretch : t.stretch .reading place pieces with
    | ended lookup =>
      rw [hstretch] at h
      rcases t.goOn_slash lookup with heq | ⟨refusal, hrefused⟩
      · rwa [heq] at h
      · rw [hrefused] at h
        cases h
    | linked directory target more =>
      rw [hstretch] at h
      cases links with
      | zero => cases h
      | succ links =>
        simp only [goOn, ← List.append_assoc] at h
        exact ih links (Nat.lt_succ_self links) h

/-- A path to a directory with a name behind it leads into this directory. -/
theorem lookup_join {shown : Path} (hshown : t.lookup .reading shown = .found d)
    (hname : name.IsProper) (husable : (shown.join ⟨name⟩).IsUsable) :
    ∃ links, t.lookup purpose (shown.join ⟨name⟩) = t.follow purpose links d [name] := by
  have hup : shown.IsUsable := isUsable_of_lookup hshown nofun
  have hstart : t.start (shown.join ⟨name⟩) = t.start shown := by
    rw [start, start, Path.isAbsolute_join hname.not_slash hup.1]
  obtain ⟨pieces, hpieces, hjoin⟩ := Path.pieces_join hname.not_slash hup.1
  have hfront : t.follow .reading maxLinks (t.start shown) pieces = .found d := by
    rw [lookup_of_isUsable hup] at hshown
    rcases hpieces with heq | heq
    · rwa [heq] at hshown
    · rw [heq] at hshown
      exact follow_slash hshown
  rw [lookup_of_isUsable husable, hstart, hjoin]
  exact follow_append (List.cons_ne_nil _ _)
    (fun _ => ⟨name, List.mem_singleton_self name, hname.ne_nil⟩) hfront

/-- A name is not looked up in a directory that may not be searched. -/
theorem follow_name_of_not_allows (hdirectory : t.entry? d = some .directory)
    (hname : name.IsProper)
    (hsearch : t.allows d .search = false) (links : Nat) :
    t.follow purpose links d [name] = .refused .permissionDenied := by
  rw [follow_eq, stretch, hdirectory, t.move_name purpose d hname, hsearch]
  rfl

/-- A name that is not that of a link is looked up in its directory. -/
theorem follow_name (hdirectory : t.entry? d = some .directory) (hname : name.IsProper)
    (hsearch : t.allows d .search = true)
    (hlink : ∀ target, t.entry? (d ++ [name]) ≠ some (.link target)) (links : Nat) :
    t.follow purpose links d [name] =
      if (t.entry? (d ++ [name])).isSome then .found (d ++ [name]) else .missing (d ++ [name]) := by
  rw [follow_eq, stretch, hdirectory, t.move_name purpose d hname, hsearch]
  cases hentry : t.entry? (d ++ [name]) with
  | none => rfl
  | some entry =>
    cases entry with
    | link target => exact absurd hentry (hlink target)
    | file content => rfl
    | directory => rfl

/-- Whether a path leads to a link when the link is not followed. -/
def IsLink (t : FileTree) (p : Path) : Prop :=
  ∃ q target, t.lookup .naming p = .found q ∧ t.entry? q = some (.link target)

/-- A last name leads into its directory, if anywhere, or it is that of a link. -/
theorem goOn_name_cases (t : FileTree) (lookup : Lookup) (hname : name.IsOrdinary) :
    (∃ last, t.goOn .reading [name] (.ended lookup) = .ended last ∧
      ∀ q, last = .found q → q.getLast? = some name) ∨
    ∃ q target, t.goOn .naming [name] (.ended lookup) = .ended (.found q) ∧
      t.entry? q = some (.link target) := by
  cases lookup with
  | missing place => exact Or.inl ⟨_, rfl, nofun⟩
  | refused refusal => exact Or.inl ⟨_, rfl, nofun⟩
  | found d =>
    simp only [goOn, stretch]
    rcases t.entry? d with _ | content | - | target
    · exact Or.inl ⟨_, rfl, nofun⟩
    · exact Or.inl ⟨_, rfl, nofun⟩
    · rcases t.move_name_cases d hname with hdown | ⟨refusal, hrefused⟩
      · rw [hdown, hdown]
        have hlast : ∀ q, Lookup.found (d ++ [name]) = .found q → q.getLast? = some name := by
          intro q hq
          obtain rfl := Lookup.found.inj hq
          exact List.getLast?_concat
        cases hentry : t.entry? (d ++ [name]) with
        | none => exact Or.inl ⟨_, rfl, nofun⟩
        | some entry =>
          cases entry with
          | file content => exact Or.inl ⟨_, rfl, hlast⟩
          | directory => exact Or.inl ⟨_, rfl, hlast⟩
          -- a look-up for reading goes on behind the link, one for naming ends at it
          | link target => exact Or.inr ⟨d ++ [name], target, rfl, hentry⟩
      · rw [hrefused, hrefused]
        exact Or.inl ⟨_, rfl, nofun⟩
    · exact Or.inl ⟨_, rfl, nofun⟩

theorem follow_concat {links : Nat} {q : Place} (hname : name.IsOrdinary)
    (h : t.follow .reading links place (pieces ++ [name]) = .found q) :
    q.getLast? = some name ∨
      ∃ q' target, t.follow .naming links place (pieces ++ [name]) = .found q' ∧
        t.entry? q' = some (.link target) := by
  have happend : ∀ (purpose : Purpose) (place : Place) (pieces : List FileName),
      t.stretch purpose place (pieces ++ [name]) =
        t.goOn purpose [name] (t.stretch .reading place pieces) := fun _ _ _ =>
    stretch_append (List.cons_ne_nil _ _) fun _ => ⟨name, List.mem_singleton_self name, hname.ne_nil⟩
  induction links using Nat.strongRecOn generalizing place pieces with
  | ind links ih =>
    rw [follow_eq, happend] at h
    rw [follow_eq, happend]
    cases hstretch : t.stretch .reading place pieces with
    | ended lookup =>
      rw [hstretch] at h
      rcases t.goOn_name_cases lookup hname with ⟨last, heq, hlast⟩ | ⟨q', target, heq, hlink⟩
      · rw [heq] at h
        exact Or.inl (hlast q h)
      · exact Or.inr ⟨q', target, by rw [heq], hlink⟩
    | linked directory target more =>
      rw [hstretch] at h
      -- the name ends what the link stands for, too
      cases links with
      | zero => cases h
      | succ links =>
        simp only [goOn, ← List.append_assoc] at h ⊢
        exact ih links (Nat.lt_succ_self links) h

/-- A path that ends with a name leads to an entry of this name, unless it ends at a link. -/
theorem getLast?_of_lookup {p : Path} {q : Place} (hp : p.pieces = pieces ++ [name])
    (hname : name.IsOrdinary) (h : t.lookup .reading p = .found q) (hlink : ¬ t.IsLink p) :
    q.getLast? = some name := by
  have husable : p.IsUsable := isUsable_of_lookup h nofun
  rw [lookup_of_isUsable husable, hp] at h
  rcases follow_concat hname h with hlast | ⟨q', target, hnaming, hentry⟩
  · exact hlast
  · refine absurd ⟨q', target, ?_, hentry⟩ hlink
    rw [lookup_of_isUsable husable, hp, hnaming]

/-! ## Listed names -/

/-- A name that is listed in a directory is the last one of a place that has an entry. -/
theorem mem_children {entry : Entry} (h : (name, entry) ∈ t.children place) :
    (place ++ [name], entry) ∈ t.entries := by
  rw [children] at h
  split_ifs at h
  · obtain ⟨⟨p, e⟩, he, hchild⟩ := List.mem_filterMap.mp h
    simp only at hchild
    split at hchild
    · next last hlast =>
      split_ifs at hchild with hplace
      obtain ⟨rfl, rfl⟩ : last = name ∧ e = entry := by simpa using hchild
      obtain ⟨front, rfl⟩ := List.getLast?_eq_some_iff.mp hlast
      rw [beq_iff_eq, List.dropLast_concat] at hplace
      rwa [hplace] at he
    · cases hchild
  · cases h

theorem lookup_of_directory? {shown : Path} (h : t.directory? shown = some d) :
    t.lookup .reading shown = .found d ∧ t.entry? d = some .directory := by
  rw [directory?] at h
  split at h
  · next q hfind =>
    obtain rfl := Option.some.inj h
    exact find?_eq_ok hfind
  · cases h

/-- Whether a path names something in a directory that may not be searched. -/
def Hides (t : FileTree) (p : Path) : Prop :=
  ∃ shown d name, FileName.IsProper name ∧ t.directory? shown = some d ∧
    t.allows d .search = false ∧ p = shown.join ⟨name⟩

/-- Whether the system refuses to look up a path, whatever is there. -/
def Refuses (t : FileTree) (p : Path) : Prop := maxPathLength < utf8Length p.chars ∨ t.Hides p

/-- A name behind the path of a directory makes a path that can be looked up, unless it is too
long. -/
theorem isUsable_join {shown : Path} (hshown : t.directory? shown = some d) (hname : name.IsProper)
    (hshort : utf8Length (shown.join ⟨name⟩).chars ≤ maxPathLength) :
    (shown.join ⟨name⟩).IsUsable := by
  have hup : shown.IsUsable := isUsable_of_lookup (lookup_of_directory? hshown).1 nofun
  refine ⟨Path.chars_join_ne_nil hname.not_slash hup.1, ?_, hshort⟩
  rw [Path.join_eq hname.not_slash hup.1]
  split_ifs <;> simp [hup.2.1, hname.not_nul]

theorem lookup_of_hides {p : Path} (h : t.Hides p) (hshort : utf8Length p.chars ≤ maxPathLength) :
    t.lookup .reading p = .refused .permissionDenied := by
  obtain ⟨shown, d, name, hname, hshown, hsearch, rfl⟩ := h
  obtain ⟨hlookup, hdirectory⟩ := lookup_of_directory? hshown
  obtain ⟨links, hlinks⟩ := lookup_join hlookup hname (isUsable_join hshown hname hshort)
  rw [hlinks, follow_name_of_not_allows hdirectory hname hsearch]

theorem lookup_of_refuses {p : Path} (h : t.Refuses p) :
    ∃ refusal ≠ .notFound, t.lookup .reading p = .refused refusal := by
  by_cases hlong : maxPathLength < utf8Length p.chars
  · have hsome : p.chars ≠ [] := by
      intro hnone
      rw [hnone] at hlong
      cases hlong
    by_cases hnul : '\x00' ∈ p.chars
    · exact ⟨.invalidInput, by decide, by simp [lookup, hsome, hnul]⟩
    · exact ⟨.nameTooLong, by decide, by simp [lookup, hsome, hnul, hlong]⟩
  · have hhides := lookup_of_hides (h.resolve_left hlong) (Nat.not_lt.mp hlong)
    exact ⟨.permissionDenied, by decide, hhides⟩

/-- Where a path leads does not change if it leads to a file or is refused. -/
theorem isSettled_of_isFile {p : Path} (h : ¬ t.Refuses p → t.isFile p = true) : t.IsSettled p := by
  by_cases hopen : t.Refuses p
  · obtain ⟨refusal, hrefusal, hrefused⟩ := lookup_of_refuses hopen
    rw [IsSettled, hrefused]
    exact ⟨fun heq => hrefusal (Lookup.refused.inj heq), nofun⟩
  · obtain ⟨q, content, hfind⟩ := isFile_iff.mp (h hopen)
    rw [IsSettled, (find?_eq_ok hfind).1]
    exact ⟨nofun, nofun⟩

theorem not_refuses_of_lookup {p : Path} {q : Place} (h : t.lookup .reading p = .found q) :
    ¬ t.Refuses p := by
  intro hrefuses
  obtain ⟨refusal, -, hrefused⟩ := lookup_of_refuses hrefuses
  rw [h] at hrefused
  cases hrefused

/-- The path of a directory with the name of an entry behind it leads to this entry, unless it is a
link, or the path is refused. -/
theorem WellFormed.lookup_of_children (ht : t.WellFormed) {shown : Path} {entry : Entry}
    (hshown : t.directory? shown = some d) (hchild : (name, entry) ∈ t.children d)
    (hentry : entry.isLink = false) (h : ¬ t.Refuses (shown.join ⟨name⟩)) :
    t.lookup .reading (shown.join ⟨name⟩) = .found (d ++ [name]) ∧
      t.entry? (d ++ [name]) = some entry := by
  have hmem := mem_children hchild
  have hname : name.IsProper := ht.proper _ hmem name (by simp)
  have hfound : t.entry? (d ++ [name]) = some entry := ht.entry?_of_mem (by simp) hmem
  have hlink : ∀ target, t.entry? (d ++ [name]) ≠ some (.link target) := by
    intro target htarget
    obtain rfl := Option.some.inj (hfound.symm.trans htarget)
    cases hentry
  obtain ⟨hlong, hhides⟩ := not_or.mp h
  have hsearch : t.allows d .search = true := by
    by_contra hnot
    exact hhides ⟨shown, d, name, hname, hshown, by simpa using hnot, rfl⟩
  obtain ⟨hlookup, hdirectory⟩ := lookup_of_directory? hshown
  obtain ⟨links, hlinks⟩ :=
    lookup_join hlookup hname (isUsable_join hshown hname (Nat.not_lt.mp hlong))
  rw [hlinks, follow_name hdirectory hname hsearch hlink, hfound]
  exact ⟨rfl, rfl⟩

end FileTree

end BlockScript
