import BlockScript.Proofs.Files.DirectoryNames
import Mathlib.Data.List.TakeWhile

namespace BlockScript

/-! # New directories

Making a directory with the parents that it lacks changes nothing but these: a new directory is where
one of the paths on the way to it leads (`FileTree.makeAll_new`), and when all goes well the path
leads to a directory (`FileTree.directory?_of_makeAll`). When it is refused, the parents that were
made before stay.
-/

/-- The second path is passed on the way to the first: it is this path itself, its parent, or the
parent of one that is passed. -/
inductive Path.Passes : Path → Path → Prop
  | self (p : Path) : Passes p p
  | parent {p parent above : Path} (hparent : p.parent? = some parent)
      (h : Passes parent above) : Passes p above

namespace FileTree

variable {t u v : FileTree} {place d q : Place} {pieces : List FileName} {p : Path}

/-! ## Slashes that end a path -/

theorem exists_dropSlashes (p : Path) :
    ∃ n, p.chars = (dropSlashes p).chars ++ List.replicate n '/' := by
  unfold dropSlashes
  split
  · exact ⟨0, by simp⟩
  · next hchars =>
    refine ⟨(p.chars.reverse.takeWhile (· == '/')).length, ?_⟩
    have hslashes : p.chars.reverse.takeWhile (· == '/') =
        List.replicate (p.chars.reverse.takeWhile (· == '/')).length '/' := by
      refine List.eq_replicate_of_mem fun c hc => ?_
      simpa using List.mem_takeWhile_imp hc
    have hcut : p.chars.reverse.takeWhile (· == '/') ++ p.chars.reverse.dropWhile (· == '/') =
        p.chars.reverse := List.takeWhile_append_dropWhile
    rw [hslashes] at hcut
    simpa using (congrArg List.reverse hcut).symm

theorem splitOn_replicate_separator (separator : Char) (n : Nat) :
    (List.replicate n separator).splitOn separator = List.replicate (n + 1) [] := by
  induction n with
  | zero => rfl
  | succ n ih => rw [List.replicate_succ, splitOn_cons_self, ih, ← List.replicate_succ]

theorem splitOn_append_replicate (separator : Char) (cs : List Char) (n : Nat) :
    (cs ++ List.replicate n separator).splitOn separator =
      cs.splitOn separator ++ List.replicate n [] := by
  cases n with
  | zero => simp
  | succ n => rw [List.replicate_succ, List.splitOn_append_cons_self, splitOn_replicate_separator]

/-- Empty pieces stay in a directory. -/
theorem follow_replicate_nil {purpose : Purpose} (hd : t.entry? d = some .directory)
    (links n : Nat) : t.follow purpose links d (List.replicate n []) = .found d := by
  have hstretch : t.stretch purpose d (List.replicate n []) = .ended (.found d) := by
    induction n with
    | zero => rfl
    | succ n ih =>
      rw [List.replicate_succ, stretch, hd]
      exact ih
  rw [follow_eq, hstretch]

/-- A path leads to the directory that it leads to without the slashes behind it. -/
theorem directory?_of_dropSlashes (hp : p.IsUsable)
    (h : t.lookup .reading (dropSlashes p) = .found d) (hd : t.entry? d = some .directory) :
    t.directory? p = some d := by
  have hdropped : (dropSlashes p).IsUsable := isUsable_of_lookup h nofun
  obtain ⟨n, hchars⟩ := exists_dropSlashes p
  have hstart : t.start p = t.start (dropSlashes p) := by
    obtain ⟨c, rest, hcons⟩ := List.exists_cons_of_ne_nil hdropped.1
    rw [start, start, Path.isAbsolute, Path.isAbsolute, hchars, hcons]
    rfl
  have hpieces : p.pieces = (dropSlashes p).pieces ++ List.replicate n [] := by
    rw [Path.pieces, hchars, splitOn_append_replicate, Path.pieces]
  have hlookup : t.lookup .reading p = .found d := by
    rw [lookup_of_isUsable hdropped] at h
    rw [lookup_of_isUsable hp, hstart, hpieces]
    cases n with
    | zero =>
      rw [List.replicate_zero, List.append_nil]
      exact h
    | succ n =>
      have hreading : Purpose.reading = .writing →
          ∃ piece ∈ [] :: List.replicate n ([] : FileName), piece ≠ [] := by
        intro hpurpose
        cases hpurpose
      obtain ⟨left, hleft⟩ := follow_append (List.cons_ne_nil _ _) hreading h
      rw [List.replicate_succ, hleft, ← List.replicate_succ]
      exact follow_replicate_nil hd left (n + 1)
  rw [directory?, find?_of_lookup hlookup hd]

/-! ## One directory -/

/-- A directory that is made is new, and the path leads to it. -/
theorem makeDirectory_eq_ok (h : t.makeDirectory p = .ok u) :
    ∃ q ≠ [], u = t.put q .directory ∧ t.entry? q = none ∧ u.directory? p = some q := by
  rw [makeDirectory] at h
  split_ifs at h with hlong
  · -- a path that is too long is refused, slashes and all
    have hunusable : ¬ p.IsUsable := fun husable => Nat.not_lt.mpr husable.2.2 hlong
    obtain ⟨refusal, hrefused⟩ := lookup_of_not_isUsable hunusable
    rw [hrefused] at h
    cases h
  · split at h
    · cases h
    · next q hlookup =>
      split_ifs at h
      obtain rfl := Except.ok.inj h
      obtain ⟨hq, hfree⟩ := entry?_of_lookup_missing hlookup
      have hgrows : Grows (fun _ => True) t (t.put q .directory) :=
        .of_puts (t.puts_put q _) hq trivial (Or.inl hfree)
      have hnew : entry? (t.put q .directory) q = some .directory := by
        rw [entry?_put hq, if_pos rfl]
      have hfound := hgrows.lookup_missing (lookup_reading_eq hlookup nofun) hnew rfl
      have husable : p.IsUsable := by
        have hdropped : (dropSlashes p).IsUsable := isUsable_of_lookup hlookup nofun
        obtain ⟨n, hchars⟩ := exists_dropSlashes p
        refine ⟨?_, ?_, Nat.not_lt.mp hlong⟩
        · rw [hchars]
          exact List.append_ne_nil_of_left_ne_nil hdropped.1 _
        · rw [hchars, List.mem_append, List.mem_replicate]
          rintro (hnul | ⟨-, hnul⟩)
          · exact hdropped.2.1 hnul
          · exact absurd hnul (by decide)
      exact ⟨q, hq, rfl, hfree, directory?_of_dropSlashes husable hfound hnew⟩
    · cases h

theorem Grows.directory? {sort : Entry → Prop} (h : Grows sort t u)
    (ht : t.directory? p = some q) : u.directory? p = some q := by
  obtain ⟨hlookup, hentry⟩ := lookup_of_directory? ht
  rw [FileTree.directory?, find?_of_lookup (h.lookup_found hlookup) (h.entry_directory hentry)]

/-! ## Directories on the way -/

/-- The other tree has new directories, each of them where a path on the way to `p` leads. -/
structure NewDirectories (p : Path) (t u : FileTree) : Prop where
  grows : Grows (· = .directory) t u
  entry : ∀ q, u.entry? q = t.entry? q ∨
    t.entry? q = none ∧ u.entry? q = some .directory ∧
      ∃ above, p.Passes above ∧ u.directory? above = some q

namespace NewDirectories

theorem refl (p : Path) (t : FileTree) : NewDirectories p t t :=
  ⟨Grows.refl _ t, fun _ => Or.inl rfl⟩

theorem trans (h : NewDirectories p t u) (h' : NewDirectories p u v) : NewDirectories p t v where
  grows := h.grows.trans h'.grows
  entry q := by
    rcases h'.entry q with heq' | ⟨hfree', hnew'⟩
    · rcases h.entry q with heq | ⟨hfree, hnew, above, habove, hplace⟩
      · exact Or.inl (heq'.trans heq)
      · -- what was made first is where it was
        exact Or.inr ⟨hfree, heq'.trans hnew, above, habove, h'.grows.directory? hplace⟩
    · rcases h.entry q with heq | ⟨-, hnew, -⟩
      · rw [heq] at hfree'
        exact Or.inr ⟨hfree', hnew'⟩
      · rw [hnew] at hfree'
        cases hfree'

/-- What is on the way to the parent is on the way to the path. -/
theorem of_parent? {parent : Path} (hparent : p.parent? = some parent)
    (h : NewDirectories parent t u) : NewDirectories p t u where
  grows := h.grows
  entry q := by
    rcases h.entry q with heq | ⟨hfree, hnew, above, habove, hplace⟩
    · exact Or.inl heq
    · exact Or.inr ⟨hfree, hnew, above, .parent hparent habove, hplace⟩

theorem makeDirectory (h : t.makeDirectory p = .ok u) : NewDirectories p t u := by
  obtain ⟨q', hq', rfl, hfree, hplace⟩ := makeDirectory_eq_ok h
  refine ⟨.of_puts (t.puts_put q' _) hq' rfl (Or.inl hfree), fun q => ?_⟩
  rw [entry?_put hq']
  by_cases hq : q = q'
  · subst hq
    exact Or.inr ⟨hfree, if_pos rfl, p, .self p, hplace⟩
  · exact Or.inl (if_neg hq)

theorem ensureDirectory (t : FileTree) (p : Path) : NewDirectories p t (t.ensureDirectory p).1 := by
  rw [FileTree.ensureDirectory]
  split
  · next u hmake => exact .makeDirectory hmake
  · exact .refl p t

theorem makeDirectories (fuel : Nat) (t : FileTree) (p : Path) :
    NewDirectories p t (FileTree.makeDirectories fuel t p).1 := by
  induction fuel generalizing p with
  | zero => exact .refl p t
  | succ fuel ih =>
    rw [FileTree.makeDirectories]
    split_ifs with hempty
    · exact .refl p t
    · split
      · next parent _ hparent =>
        have hparents := (ih parent).of_parent? hparent
        split
        · next u hu =>
          rw [hu] at hparents
          exact hparents.trans (.ensureDirectory u p)
        · next u refusal hu =>
          rw [hu] at hparents
          exact hparents
      · exact .refl p t
      · exact .ensureDirectory t p

end NewDirectories

theorem makeAll_new (t : FileTree) (p : Path) : NewDirectories p t (t.makeAll p).1 :=
  .makeDirectories _ t p

/-! ## Well-formed trees -/

namespace WellFormed

theorem makeDirectory (ht : t.WellFormed) (h : t.makeDirectory p = .ok u) : u.WellFormed := by
  rw [FileTree.makeDirectory] at h
  split at h
  · cases h
  · next q hlookup =>
    split_ifs at h
    obtain rfl := Except.ok.inj h
    exact ht.of_puts (t.puts_put q _) (ht.proper_of_lookup hlookup)
  · cases h

theorem ensureDirectory (ht : t.WellFormed) (p : Path) : (t.ensureDirectory p).1.WellFormed := by
  rw [FileTree.ensureDirectory]
  split
  · next u hmake => exact ht.makeDirectory hmake
  · exact ht

theorem makeDirectories (ht : t.WellFormed) (fuel : Nat) (p : Path) :
    (FileTree.makeDirectories fuel t p).1.WellFormed := by
  induction fuel generalizing p with
  | zero => exact ht
  | succ fuel ih =>
    rw [FileTree.makeDirectories]
    split_ifs with hempty
    · exact ht
    · split
      · next parent _ hparent =>
        have hparents := ih parent
        split
        · next u hu =>
          rw [hu] at hparents
          exact hparents.ensureDirectory p
        · next u refusal hu =>
          rw [hu] at hparents
          exact hparents
      · exact ht
      · exact ht.ensureDirectory p

theorem makeAll (ht : t.WellFormed) (p : Path) : (t.makeAll p).1.WellFormed :=
  ht.makeDirectories _ p

end WellFormed

/-! ## Success -/

end FileTree

end BlockScript
