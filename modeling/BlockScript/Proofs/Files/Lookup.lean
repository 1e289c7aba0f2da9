import BlockScript.Proofs.Files.Entries
import BlockScript.Proofs.Text.Split

namespace BlockScript

/-! # Looking up paths while a tree grows

Commands make directories and write files, and remove nothing. In a tree that has grown so
(`FileTree.Grows`) every directory and every link is as it was, every file is still a file, and the
rights are the same. So a path that led somewhere leads to the same place (`Grows.lookup_found`), and
a path that was refused is refused still, unless a name was missing (`Grows.lookup_eq`).
-/

namespace FileTree

variable {t u v : FileTree} {place : Place}

/-! ## Growing -/

/-- The other tree has new entries, all of one sort: each at a place that was free, or a file in
place of a file. -/
structure Grows (sort : Entry → Prop) (t u : FileTree) : Prop where
  here : u.here = t.here
  denied : u.denied = t.denied
  entry : ∀ place, u.entry? place = t.entry? place ∨
    ∃ e, u.entry? place = some e ∧ sort e ∧
      (t.entry? place = none ∨ e.isFile = true ∧ ∃ old, t.entry? place = some (.file old))

namespace Grows

variable {sort : Entry → Prop}

theorem refl (sort : Entry → Prop) (t : FileTree) : Grows sort t t :=
  ⟨rfl, rfl, fun _ => Or.inl rfl⟩

theorem of_puts {e : Entry} (h : Puts t place e u) (hplace : place ≠ []) (hsort : sort e)
    (hold : t.entry? place = none ∨ e.isFile = true ∧ ∃ old, t.entry? place = some (.file old)) :
    Grows sort t u where
  here := h.here
  denied := h.denied
  entry q := by
    rw [h.entry? hplace]
    by_cases hq : q = place
    · subst hq
      exact Or.inr ⟨e, if_pos rfl, hsort, hold⟩
    · exact Or.inl (if_neg hq)

/-- Only files take the place of others. -/
theorem entry_of_not_isFile (h : Grows sort t u) {e : Entry} (ht : t.entry? place = some e)
    (he : e.isFile = false) : u.entry? place = some e := by
  rcases h.entry place with heq | ⟨e', -, -, hnone | ⟨-, old, hold⟩⟩
  · rw [heq, ht]
  · rw [ht] at hnone
    cases hnone
  · rw [ht] at hold
    obtain rfl := Option.some.inj hold
    cases he

theorem entry_directory (h : Grows sort t u) (ht : t.entry? place = some .directory) :
    u.entry? place = some .directory := h.entry_of_not_isFile ht rfl

theorem entry_link (h : Grows sort t u) {target : Path}
    (ht : t.entry? place = some (.link target)) : u.entry? place = some (.link target) :=
  h.entry_of_not_isFile ht rfl

theorem entry_file (h : Grows sort t u) {content : Content}
    (ht : t.entry? place = some (.file content)) :
    ∃ content', u.entry? place = some (.file content') := by
  rcases h.entry place with heq | ⟨e, he, -, hnone | ⟨hfile, -⟩⟩
  · exact ⟨content, by rw [heq, ht]⟩
  · rw [ht] at hnone
    cases hnone
  · obtain ⟨content', rfl⟩ := Entry.isFile_iff.mp hfile
    exact ⟨content', he⟩

theorem exists_entry (h : Grows sort t u) {e : Entry} (ht : t.entry? place = some e) :
    ∃ e', u.entry? place = some e' := by
  rcases h.entry place with heq | ⟨e', he', -⟩
  · exact ⟨e, by rw [heq, ht]⟩
  · exact ⟨e', he'⟩

theorem mono {sort' : Entry → Prop} (h : Grows sort t u) (hsort : ∀ e, sort e → sort' e) :
    Grows sort' t u where
  here := h.here
  denied := h.denied
  entry place := (h.entry place).imp_right fun ⟨e, he, hnew, hold⟩ => ⟨e, he, hsort e hnew, hold⟩

theorem trans (h : Grows sort t u) (h' : Grows sort u v) : Grows sort t v where
  here := h'.here.trans h.here
  denied := h'.denied.trans h.denied
  entry place := by
    rcases h'.entry place with heq' | ⟨e', he', hsort', hold'⟩
    · rw [heq']
      exact h.entry place
    · rcases h.entry place with heq | ⟨e, he, -, hold⟩
      · rw [heq] at hold'
        exact Or.inr ⟨e', he', hsort', hold'⟩
      · -- only a file takes the place of an entry that was new
        rcases hold' with hnone | ⟨hfile', old', hold'⟩
        · rw [he] at hnone
          cases hnone
        · refine Or.inr ⟨e', he', hsort', hold.imp_right fun ⟨_, hold⟩ => ⟨hfile', hold⟩⟩

end Grows

end FileTree

/-! ## Pieces -/

/-- How a look-up can end when one for reading ends otherwise: at a link that it is to find itself,
or refused since slashes end the path of a file to write. -/
def Purpose.EndsApart (purpose : Purpose) : Lookup → Prop
  | .found _ => purpose = .naming
  | .missing _ => False
  | .refused refusal => purpose = .writing ∧ refusal = .isADirectory

/-- Whether a path can be looked up in any tree. -/
def Path.IsUsable (p : Path) : Prop :=
  p.chars ≠ [] ∧ '\x00' ∉ p.chars ∧ utf8Length p.chars ≤ maxPathLength

namespace FileTree

variable {t u : FileTree} {sort : Entry → Prop} {purpose : Purpose} {place q : Place}
  {piece : FileName} {pieces rest : List FileName}

/-- A piece asks for the same as in reading, unless it is to be written and slashes end the path. -/
theorem move_reading_or (t : FileTree) (purpose : Purpose) (place : Place) (piece : FileName)
    (rest : List FileName) :
    t.move .reading place piece rest = t.move purpose place piece rest ∨
    purpose = .writing ∧ t.move purpose place piece rest = .refused .isADirectory := by
  rw [move, move]
  split_ifs <;> simp_all

/-- A look-up goes on behind the first link, if it may follow one more. -/
theorem follow_eq (t : FileTree) (purpose : Purpose) (links : Nat) (place : Place)
    (pieces : List FileName) :
    t.follow purpose links place pieces =
      match t.stretch purpose place pieces, links with
      | .ended lookup, _ => lookup
      | .linked _ _ _, 0 => .refused .tooManyLinks
      | .linked directory target rest, links + 1 =>
        t.follow purpose links (if target.isAbsolute then [] else directory)
          (target.pieces ++ rest) := by
  cases links <;> rw [follow] <;> cases t.stretch purpose place pieces <;> rfl

/-- Where the look-up of a path begins. -/
def start (t : FileTree) (p : Path) : Place := if p.isAbsolute then [] else t.here

theorem lookup_of_isUsable {p : Path} (h : p.IsUsable) :
    t.lookup purpose p = t.follow purpose maxLinks (t.start p) p.pieces := by
  obtain ⟨hsome, hnul, hlong⟩ := h
  simp [lookup, start, hsome, hnul, Nat.not_lt.mpr hlong]

theorem lookup_of_not_isUsable {p : Path} (h : ¬ p.IsUsable) :
    ∃ refusal, ∀ (t : FileTree) (purpose : Purpose), t.lookup purpose p = .refused refusal := by
  by_cases hsome : p.chars = []
  · exact ⟨.notFound, fun t purpose => by simp [lookup, hsome]⟩
  by_cases hnul : '\x00' ∈ p.chars
  · exact ⟨.invalidInput, fun t purpose => by simp [lookup, hsome, hnul]⟩
  · have hlong : maxPathLength < utf8Length p.chars := by
      by_contra hle
      exact h ⟨hsome, hnul, Nat.not_lt.mp hle⟩
    exact ⟨.nameTooLong, fun t purpose => by simp [lookup, hsome, hnul, hlong]⟩

/-- A path that a look-up does not refuse can be looked up. -/
theorem isUsable_of_lookup {p : Path} {lookup : Lookup} (h : t.lookup purpose p = lookup)
    (hends : ∀ refusal, lookup ≠ .refused refusal) : p.IsUsable := by
  by_contra hnot
  obtain ⟨refusal, hrefused⟩ := lookup_of_not_isUsable hnot
  exact hends refusal (h.symm.trans (hrefused t purpose))

/-- A name that is looked up can be that of an entry. -/
theorem isProper_of_move (hpiece : '/' ∉ piece) (h : t.move purpose place piece rest = .down) :
    piece.IsProper := by
  rw [move] at h
  split_ifs at h with hempty hsearch hdot hdotDot hslashes hnul hlong
  exact ⟨⟨by simpa using hempty, hdot, hdotDot⟩, hpiece, by simpa using hnul, Nat.not_lt.mp hlong⟩

/-- A name is missing where a path ends, in a directory. -/
theorem missing_of_stretch (h : t.stretch purpose place pieces = .ended (.missing q)) :
    ∃ d name, q = d ++ [name] ∧ name ∈ pieces ∧ t.move purpose d name [] = .down ∧
      t.entry? d = some .directory ∧ t.entry? q = none := by
  induction pieces generalizing place with
  | nil => cases h
  | cons piece rest ih =>
    have hmore : ∀ {place}, t.stretch purpose place rest = .ended (.missing q) →
        ∃ d name, q = d ++ [name] ∧ name ∈ piece :: rest ∧ t.move purpose d name [] = .down ∧
          t.entry? d = some .directory ∧ t.entry? q = none := by
      intro place h
      obtain ⟨d, name, hq, hname, hd⟩ := ih h
      exact ⟨d, name, hq, List.mem_cons_of_mem piece hname, hd⟩
    rw [stretch] at h
    split at h
    · cases h
    · cases h
    · cases h
    · next hdirectory =>
      split at h
      · exact hmore h
      · exact hmore h
      · cases h
      · next hmove =>
        split at h
        · next hnext =>
          -- a name is missing only where the path ends
          cases rest with
          | nil =>
            obtain rfl : place ++ [piece] = q := by simpa using h
            exact ⟨place, piece, rfl, List.mem_singleton_self piece, hmove, hdirectory, hnext⟩
          | cons next rest => cases h
        · split_ifs at h
          cases h
        · exact hmore h

/-- What is behind a link was behind it before. -/
theorem suffix_of_stretch {target : Path}
    (h : t.stretch purpose place pieces = .linked q target rest) : rest <:+ pieces := by
  induction pieces generalizing place with
  | nil => cases h
  | cons piece more ih =>
    have hmore : ∀ {place}, t.stretch purpose place more = .linked q target rest →
        rest <:+ piece :: more := fun h => (ih h).trans (List.suffix_cons piece more)
    rw [stretch] at h
    split at h
    · cases h
    · cases h
    · cases h
    · split at h
      · exact hmore h
      · exact hmore h
      · cases h
      · split at h
        · cases h
        · split_ifs at h
          cases h
          exact List.suffix_cons piece _
        · exact hmore h

theorem missing_of_follow {links : Nat} (hpieces : ∀ piece ∈ pieces, '/' ∉ piece)
    (h : t.follow purpose links place pieces = .missing q) :
    ∃ d name, q = d ++ [name] ∧ name.IsProper ∧ t.entry? d = some .directory ∧
      t.entry? q = none := by
  induction links using Nat.strongRecOn generalizing place pieces with
  | ind links ih =>
    rw [follow_eq] at h
    cases hstretch : t.stretch purpose place pieces with
    | ended lookup =>
      rw [hstretch] at h
      obtain rfl : lookup = .missing q := h
      obtain ⟨d, name, hq, hname, hmove, hd⟩ := missing_of_stretch hstretch
      exact ⟨d, name, hq, isProper_of_move (hpieces name hname) hmove, hd⟩
    | linked directory target rest =>
      rw [hstretch] at h
      cases links with
      | zero => cases h
      | succ links =>
        refine ih links (Nat.lt_succ_self links) (fun piece hpiece => ?_) h
        rcases List.mem_append.mp hpiece with htarget | hrest
        · exact not_mem_of_mem_splitOn htarget
        · exact hpieces piece ((suffix_of_stretch hstretch).subset hrest)

/-- A name that is missing can be made: its directory is there, and the name is proper. -/
theorem missing_of_lookup {p : Path} (h : t.lookup purpose p = .missing q) :
    ∃ d name, q = d ++ [name] ∧ name.IsProper ∧ t.entry? d = some .directory ∧
      t.entry? q = none := by
  have hp : p.IsUsable := isUsable_of_lookup h nofun
  rw [lookup_of_isUsable hp] at h
  exact missing_of_follow (fun piece => not_mem_of_mem_splitOn) h

theorem entry?_of_lookup_missing {p : Path} (h : t.lookup purpose p = .missing q) :
    q ≠ [] ∧ t.entry? q = none := by
  obtain ⟨d, name, rfl, -, -, hfree⟩ := missing_of_lookup h
  exact ⟨by simp, hfree⟩

theorem WellFormed.proper_of_lookup (ht : t.WellFormed) {p : Path}
    (h : t.lookup purpose p = .missing q) : ∀ name ∈ q, FileName.IsProper name := by
  obtain ⟨d, name, rfl, hname, hd, -⟩ := missing_of_lookup h
  intro other hother
  rcases List.mem_append.mp hother with hother | hother
  · exact ht.proper_of_entry? hd other hother
  · rwa [List.mem_singleton.mp hother]

/-! ## Look-ups in a tree that has grown -/

theorem Grows.allows (h : Grows sort t u) (place : Place) (right : Right) :
    u.allows place right = t.allows place right := by
  rw [FileTree.allows, FileTree.allows, h.denied]

theorem Grows.move (h : Grows sort t u) (purpose : Purpose) (place : Place) (piece : FileName)
    (rest : List FileName) : u.move purpose place piece rest = t.move purpose place piece rest := by
  rw [FileTree.move, FileTree.move, h.allows]

/-- A stretch ends where it did before, unless it ended early for an entry that was not there. If
only the last name was missing, it ends at the file or the directory that has this name now. -/
theorem Grows.stretch_cases (h : Grows sort t u) (purpose : Purpose) (place : Place)
    (pieces : List FileName) :
    u.stretch purpose place pieces = t.stretch purpose place pieces ∨
    t.stretch purpose place pieces = .ended (.refused .notFound) ∨
    ∃ q, t.stretch purpose place pieces = .ended (.missing q) ∧
      ∀ e, u.entry? q = some e → e.isLink = false →
        u.stretch purpose place pieces = .ended (.found q) := by
  induction pieces generalizing place with
  | nil => exact Or.inl rfl
  | cons piece rest ih =>
    rw [stretch, stretch]
    cases hentry : t.entry? place with
    | none => exact Or.inr (Or.inl rfl)
    | some entry =>
      cases entry with
      | file content =>
        obtain ⟨content', hentry'⟩ := h.entry_file hentry
        rw [hentry']
        exact Or.inl rfl
      | link target =>
        rw [h.entry_link hentry]
        exact Or.inl rfl
      | directory =>
        rw [h.entry_directory hentry, h.move]
        cases hmove : t.move purpose place piece rest with
        | stay => exact ih place
        | up => exact ih place.dropLast
        | refused refusal => exact Or.inl rfl
        | down =>
          cases hnext : t.entry? (place ++ [piece]) with
          | none =>
            -- what is new here matters only if the path ends here
            cases rest with
            | cons next rest => exact Or.inr (Or.inl rfl)
            | nil =>
              refine Or.inr (Or.inr ⟨_, rfl, fun e hnew he => ?_⟩)
              rw [hnew]
              cases e with
              | file content => rfl
              | directory => rfl
              | link target => cases he
          | some next =>
            cases next with
            | file content =>
              -- the content may have changed, but a look-up does not open files
              obtain ⟨content', hnext'⟩ := h.entry_file hnext
              rw [hnext']
              exact ih (place ++ [piece])
            | directory =>
              rw [h.entry_directory hnext]
              exact ih (place ++ [piece])
            | link target =>
              rw [h.entry_link hnext]
              exact Or.inl rfl

theorem Grows.follow_cases (h : Grows sort t u) (purpose : Purpose) (links : Nat) (place : Place)
    (pieces : List FileName) :
    u.follow purpose links place pieces = t.follow purpose links place pieces ∨
    t.follow purpose links place pieces = .refused .notFound ∨
    ∃ q, t.follow purpose links place pieces = .missing q ∧
      ∀ e, u.entry? q = some e → e.isLink = false →
        u.follow purpose links place pieces = .found q := by
  induction links using Nat.strongRecOn generalizing place pieces with
  | ind links ih =>
    rw [follow_eq, follow_eq]
    rcases h.stretch_cases purpose place pieces with heq | hlost | ⟨q, hmissing, hfound⟩
    · rw [heq]
      cases t.stretch purpose place pieces with
      | ended lookup => exact Or.inl rfl
      | linked directory target rest =>
        cases links with
        | zero => exact Or.inl rfl
        | succ links => exact ih links (Nat.lt_succ_self links) _ _
    · exact Or.inr (Or.inl (by rw [hlost]))
    · refine Or.inr (Or.inr ⟨q, by rw [hmissing], fun e hnew he => ?_⟩)
      rw [hfound e hnew he]

theorem Grows.lookup_cases (h : Grows sort t u) (purpose : Purpose) (p : Path) :
    u.lookup purpose p = t.lookup purpose p ∨
    t.lookup purpose p = .refused .notFound ∨
    ∃ q, t.lookup purpose p = .missing q ∧
      ∀ e, u.entry? q = some e → e.isLink = false → u.lookup purpose p = .found q := by
  by_cases hp : p.IsUsable
  · have hstart : u.start p = t.start p := by rw [start, start, h.here]
    rw [lookup_of_isUsable hp, lookup_of_isUsable hp, hstart]
    exact h.follow_cases purpose maxLinks (t.start p) p.pieces
  · obtain ⟨refusal, hrefused⟩ := lookup_of_not_isUsable hp
    exact Or.inl (by rw [hrefused, hrefused])

/-- A path that led somewhere leads to the same place. -/
theorem Grows.lookup_found (h : Grows sort t u) {p : Path} (ht : t.lookup purpose p = .found q) :
    u.lookup purpose p = .found q := by
  rcases h.lookup_cases purpose p with heq | hlost | ⟨q', hmissing, -⟩
  · rw [heq, ht]
  · rw [ht] at hlost
    cases hlost
  · rw [ht] at hmissing
    cases hmissing

/-- A path to a name that was missing leads to the file or the directory that has this name now. -/
theorem Grows.lookup_missing (h : Grows sort t u) {p : Path}
    (ht : t.lookup purpose p = .missing q) {e : Entry} (hnew : u.entry? q = some e)
    (he : e.isLink = false) : u.lookup purpose p = .found q := by
  rcases h.lookup_cases purpose p with heq | hlost | ⟨q', hmissing, hfound⟩
  · -- the look-up is not as it was, since the name is there now
    rw [ht] at heq
    rw [(entry?_of_lookup_missing heq).2] at hnew
    cases hnew
  · rw [ht] at hlost
    cases hlost
  · rw [ht] at hmissing
    obtain rfl := Lookup.missing.inj hmissing
    exact hfound e hnew he

/-- Whether a path leads to an entry, or is refused for another reason than a missing name. -/
def IsSettled (t : FileTree) (p : Path) : Prop :=
  t.lookup .reading p ≠ .refused .notFound ∧ ∀ q, t.lookup .reading p ≠ .missing q

/-- What is not missing cannot be made: a look-up ends as before. -/
theorem Grows.lookup_eq (h : Grows sort t u) {p : Path} (hp : t.IsSettled p) :
    u.lookup .reading p = t.lookup .reading p := by
  rcases h.lookup_cases .reading p with heq | hlost | ⟨q, hmissing, -⟩
  · exact heq
  · exact absurd hlost hp.1
  · exact absurd hmissing (hp.2 q)

/-! ## Purposes -/

/-- A look-up ends as one for reading, unless it is to find a link itself, or to write where slashes
end the path. -/
theorem stretch_reading_or (t : FileTree) (purpose : Purpose) (place : Place)
    (pieces : List FileName) :
    t.stretch .reading place pieces = t.stretch purpose place pieces ∨
    ∃ lookup, t.stretch purpose place pieces = .ended lookup ∧ purpose.EndsApart lookup := by
  induction pieces generalizing place with
  | nil => exact Or.inl rfl
  | cons piece rest ih =>
    rw [stretch, stretch]
    rcases t.entry? place with _ | content | - | target
    · exact Or.inl rfl
    · exact Or.inl rfl
    · rcases t.move_reading_or purpose place piece rest with hmove | ⟨hwriting, hmove⟩
      · rw [hmove]
        cases t.move purpose place piece rest with
        | stay => exact ih place
        | up => exact ih place.dropLast
        | refused refusal => exact Or.inl rfl
        | down =>
          rcases t.entry? (place ++ [piece]) with _ | content | - | target
          · exact Or.inl rfl
          · exact ih (place ++ [piece])
          · exact ih (place ++ [piece])
          · -- only a link that ends the path makes a difference
            by_cases hlast : rest.isEmpty = true ∧ purpose = .naming
            · exact Or.inr ⟨.found (place ++ [piece]), by simp [hlast], hlast.2⟩
            · have hpast : (rest.isEmpty && purpose = .naming) = false := by simpa using hlast
              exact Or.inl (by simp [hpast])
      · rw [hmove]
        exact Or.inr ⟨_, rfl, hwriting, rfl⟩
    · exact Or.inl rfl

theorem follow_reading_or (t : FileTree) (purpose : Purpose) (links : Nat) (place : Place)
    (pieces : List FileName) :
    t.follow .reading links place pieces = t.follow purpose links place pieces ∨
    purpose.EndsApart (t.follow purpose links place pieces) := by
  induction links using Nat.strongRecOn generalizing place pieces with
  | ind links ih =>
    rw [follow_eq, follow_eq]
    rcases t.stretch_reading_or purpose place pieces with heq | ⟨lookup, hends, hapart⟩
    · rw [heq]
      cases t.stretch purpose place pieces with
      | ended lookup => exact Or.inl rfl
      | linked directory target rest =>
        cases links with
        | zero => exact Or.inl rfl
        | succ links => exact ih links (Nat.lt_succ_self links) _ _
    · rw [hends]
      exact Or.inr hapart

/-- A look-up tells what one for reading tells, unless it ends apart from it. -/
theorem lookup_reading_eq {p : Path} {lookup : Lookup} (h : t.lookup purpose p = lookup)
    (hapart : ¬ purpose.EndsApart lookup) : t.lookup .reading p = lookup := by
  by_cases hp : p.IsUsable
  · rw [lookup_of_isUsable hp] at h ⊢
    rcases t.follow_reading_or purpose maxLinks (t.start p) p.pieces with heq | hends
    · rw [heq, h]
    · rw [h] at hends
      exact absurd hends hapart
  · obtain ⟨refusal, hrefused⟩ := lookup_of_not_isUsable hp
    rw [hrefused] at h ⊢
    exact h

/-! ## What a path leads to -/

theorem find?_eq_ok {p : Path} {entry : Entry} (h : t.find? p = .ok (q, entry)) :
    t.lookup .reading p = .found q ∧ t.entry? q = some entry := by
  rw [find?] at h
  split at h
  · next place hlookup =>
    split at h
    · next found hfound =>
      obtain ⟨rfl, rfl⟩ : place = q ∧ found = entry := by simpa using h
      exact ⟨hlookup, hfound⟩
    · cases h
  · cases h
  · cases h

theorem isFile_iff {p : Path} :
    t.isFile p = true ↔ ∃ q content, t.find? p = .ok (q, .file content) := by
  rw [isFile]
  split
  · next q content h => exact ⟨fun _ => ⟨q, content, h⟩, fun _ => rfl⟩
  · next hother =>
    simp only [Bool.false_eq_true, false_iff]
    rintro ⟨q, content, h⟩
    exact hother q content h

theorem find?_of_lookup {p : Path} {entry : Entry} (hlookup : t.lookup .reading p = .found q)
    (hentry : t.entry? q = some entry) : t.find? p = .ok (q, entry) := by
  rw [find?, hlookup]
  simp only [hentry]

end FileTree

end BlockScript
