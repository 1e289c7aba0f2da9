import BlockScript.Proofs.Files.Lookup

namespace BlockScript

/-! # What writing leaves

A file that cannot be opened leaves everything as it was. Once it is open, the file that the path
leads to holds what was written, or its first bytes if the device gets full; nothing else is changed
(`write_cases`), and a well-formed tree stays so (`WellFormed.write`). A file keeps its text while
files without text take the place of others (`Grows.readText`).
-/

namespace FileTree

variable {t u : FileTree} {sort : Entry → Prop} {p : Path} {q : Place} {content : Content}

/-! ## Opening -/

/-- An open file is at a place that was free or held a file, in a directory or the root. -/
theorem openFile_eq_ok (h : t.openFile p = .ok q) :
    q ≠ [] ∧ (t.lookup .writing p = .found q ∧ (∃ old, t.entry? q = some (.file old)) ∨
      t.lookup .writing p = .missing q ∧ t.entry? q = none) := by
  rw [openFile] at h
  split at h
  · next place hlookup =>
    split at h
    · next old hentry =>
      split_ifs at h
      obtain rfl := Except.ok.inj h
      refine ⟨?_, Or.inl ⟨hlookup, old, hentry⟩⟩
      rintro rfl
      cases hentry
    · cases h
  · next place hlookup =>
    split_ifs at h
    obtain rfl := Except.ok.inj h
    obtain ⟨hplace, hfree⟩ := entry?_of_lookup_missing hlookup
    exact ⟨hplace, Or.inr ⟨hlookup, hfree⟩⟩
  · cases h

theorem entry?_of_openFile (h : t.openFile p = .ok q) :
    t.entry? q = none ∨ ∃ old, t.entry? q = some (.file old) := by
  rcases (openFile_eq_ok h).2 with ⟨-, hold⟩ | ⟨-, hfree⟩
  · exact Or.inr hold
  · exact Or.inl hfree

theorem Grows.of_openFile (h : t.openFile p = .ok q) (hputs : t.Puts q (.file content) u)
    (hsort : sort (.file content)) : Grows sort t u :=
  .of_puts hputs (openFile_eq_ok h).1 hsort
    ((entry?_of_openFile h).imp_right fun hold => ⟨rfl, hold⟩)

/-- The path of a file that was opened leads to what is put there. -/
theorem find?_of_openFile (h : t.openFile p = .ok q) (hputs : t.Puts q (.file content) u) :
    u.find? p = .ok (q, .file content) := by
  obtain ⟨hq, hlookup⟩ := openFile_eq_ok h
  have hgrows : Grows (fun _ => True) t u := .of_openFile h hputs trivial
  have hnew : u.entry? q = some (.file content) := by rw [hputs.entry? hq, if_pos rfl]
  -- the path led to the file already, or to the free place that it is made at
  have hfound : u.lookup .writing p = .found q := by
    rcases hlookup with ⟨hfound, -⟩ | ⟨hmissing, -⟩
    · exact hgrows.lookup_found hfound
    · exact hgrows.lookup_missing hmissing hnew rfl
  exact find?_of_lookup (lookup_reading_eq hfound nofun) hnew

/-! ## Writing -/

/-- The other tree has the first bytes of a file, as many as the device took. -/
structure CutsOff (t : FileTree) (q : Place) (content : Content) (u : FileTree) : Prop where
  puts : ∃ size < content.fileBytes.size, t.room = some size ∧ t.Puts q (.file (content.cut size)) u
  room : u.room = some 0

/-- A device takes all that is written to an open file, or it gets full. -/
theorem fill_cases (t : FileTree) (q : Place) (content : Content) :
    (∃ u, t.fill q content = .ok u ∧ t.Puts q (.file content) u) ∨
    ∃ u, t.fill q content = .error ⟨.noSpace, u⟩ ∧ t.CutsOff q content u := by
  rw [fill]
  cases hroom : t.room with
  | none => exact Or.inl ⟨_, rfl, t.puts_put q _⟩
  | some room =>
    simp only
    split_ifs with hfits
    · exact Or.inl ⟨_, rfl, rfl, here_put q _, denied_put q _⟩
    · refine Or.inr ⟨_, rfl, ⟨room, Nat.not_le.mp hfits, hroom, ?_⟩, rfl⟩
      exact ⟨rfl, here_put q _, denied_put q _⟩

/-- A file is not opened, or it is written, or it is cut off. -/
theorem write_cases (t : FileTree) (p : Path) (content : Content) :
    (∃ refusal, t.openFile p = .error refusal ∧ t.write p content = .error ⟨refusal, t⟩) ∨
    ∃ q, t.openFile p = .ok q ∧
      ((∃ u, t.write p content = .ok u ∧ t.Puts q (.file content) u) ∨
        ∃ u, t.write p content = .error ⟨.noSpace, u⟩ ∧ t.CutsOff q content u) := by
  rw [write]
  cases hopen : t.openFile p with
  | error refusal => exact Or.inl ⟨refusal, rfl, rfl⟩
  | ok q => exact Or.inr ⟨q, rfl, t.fill_cases q content⟩

/-- A path that a file is written to leads to this file. Nothing else is changed. -/
theorem write_eq_ok (h : t.write p content = .ok u) :
    ∃ q ≠ [], t.Puts q (.file content) u ∧
      (t.entry? q = none ∨ ∃ old, t.entry? q = some (.file old)) ∧
      u.find? p = .ok (q, .file content) := by
  rcases t.write_cases p content with
    ⟨refusal, -, hwrite⟩ | ⟨q, hopen, ⟨v, hwrite, hputs⟩ | ⟨v, hwrite, -⟩⟩
  · rw [h] at hwrite
    cases hwrite
  · obtain rfl := Except.ok.inj (h.symm.trans hwrite)
    exact ⟨q, (openFile_eq_ok hopen).1, hputs, entry?_of_openFile hopen,
      find?_of_openFile hopen hputs⟩
  · rw [h] at hwrite
    cases hwrite

theorem Grows.write (h : t.write p content = .ok u) (hsort : sort (.file content)) :
    Grows sort t u := by
  obtain ⟨q, hq, hputs, hold, -⟩ := write_eq_ok h
  exact .of_puts hputs hq hsort (hold.imp_right fun hfile => ⟨rfl, hfile⟩)

/-! ## Well-formed trees -/

theorem WellFormed.proper_of_openFile (ht : t.WellFormed) (h : t.openFile p = .ok q) :
    ∀ name ∈ q, FileName.IsProper name := by
  rcases (openFile_eq_ok h).2 with ⟨-, old, hentry⟩ | ⟨hmissing, -⟩
  · exact ht.proper_of_entry? hentry
  · exact ht.proper_of_lookup hmissing

/-- Writing leaves a well-formed tree, whether all is written or not. -/
theorem WellFormed.write (ht : t.WellFormed) (p : Path) (content : Content) :
    (∀ u, t.write p content = .ok u → u.WellFormed) ∧
      ∀ failure, t.write p content = .error failure → failure.files.WellFormed := by
  rcases t.write_cases p content with
    ⟨refusal, -, hwrite⟩ | ⟨q, hopen, ⟨u, hwrite, hputs⟩ | ⟨u, hwrite, hcut⟩⟩
  · rw [hwrite]
    exact ⟨nofun, fun failure h => Except.error.inj h ▸ ht⟩
  · rw [hwrite]
    exact ⟨fun v h => Except.ok.inj h ▸ ht.of_puts hputs (ht.proper_of_openFile hopen), nofun⟩
  · rw [hwrite]
    obtain ⟨size, -, -, hputs⟩ := hcut.puts
    exact ⟨nofun, fun failure h => Except.error.inj h ▸
      ht.of_puts hputs (ht.proper_of_openFile hopen)⟩

/-! ## Reading -/

theorem readText_eq_ok {text : String} (h : t.readText p = .ok text) :
    ∃ q content, t.find? p = .ok (q, .file content) ∧ t.allows q .read = true ∧
      content.text? = some text := by
  rw [readText] at h
  split at h
  · next q entry hfind =>
    split_ifs at h with hread
    split at h
    · next content =>
      split at h
      · next found hfound =>
        obtain rfl := Except.ok.inj h
        exact ⟨q, content, hfind, hread, hfound⟩
      · cases h
    · cases h
  · cases h

/-- Where no text is new, a text that a file has was there before. -/
theorem Grows.readText (h : Grows sort t u) (hsort : ∀ bytes, ¬ sort (.file (.bytes bytes)))
    {text : String} (hp : t.IsSettled p) (hu : u.readText p = .ok text) :
    t.readText p = .ok text := by
  obtain ⟨q, content, hfind, hread, htext⟩ := readText_eq_ok hu
  obtain ⟨hlookup, hentry⟩ := find?_eq_ok hfind
  rw [h.lookup_eq hp] at hlookup
  rw [h.allows] at hread
  rcases h.entry q with heq | ⟨e, he, hnew, -⟩
  · rw [heq] at hentry
    simp only [FileTree.readText, find?_of_lookup hlookup hentry, hread, htext, if_true]
  · -- a new file has no text
    rw [hentry] at he
    obtain rfl := Option.some.inj he
    cases content with
    | bytes bytes => exact absurd hnew (hsort bytes)
    | picture picture => cases htext

end FileTree

end BlockScript
