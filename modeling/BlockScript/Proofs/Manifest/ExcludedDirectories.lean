import BlockScript.Manifest.Basic
import BlockScript.Proofs.Text.Split

namespace BlockScript

/-! # Excluded directories

A pattern that ends in a slash and a star stands for everything below a directory. On the text of a
path it is a test for a part (`Pattern.excludes_below`): the directory between two slashes, one of
which may be missing at the start of the path. On the names between the slashes it is the same as
asking for the names of the directory one after the other, with a name behind them
(`Pattern.infix_slashed_iff`). So only whole names count, and `**/` in front changes nothing.
-/

namespace Pattern

/-! ## What the patterns are read as -/

/-- Looking for a part from each place of a text is looking for it anywhere. -/
theorem occursIn_iff {part text : List Char} : occursIn part text = true ↔ part <:+: text := by
  induction text with
  | nil => rw [occursIn, List.isEmpty_iff, List.infix_nil]
  | cons c text ih =>
    rw [occursIn, Bool.or_eq_true, List.isPrefixOf_iff_prefix, ih, List.infix_cons_iff]

theorem beforeEnd?_append (ending text : List Char) :
    beforeEnd? ending (text ++ ending) = some text := by
  have hends : ending.isSuffixOf (text ++ ending) = true :=
    List.isSuffixOf_iff_suffix.mpr (List.suffix_append text ending)
  rw [beforeEnd?, if_pos hends, List.length_append, Nat.add_sub_cancel, List.take_left]

theorem ofPlain_append (directory : List Char) :
    ofPlain (directory ++ ['/', '*']) = below directory := by
  rw [ofPlain, beforeEnd?_append]

/-- Only a star at the start of a pattern has a meaning there. -/
theorem parse_cons_of_ne {c : Char} (h : c ≠ '*') (rest : List Char) :
    parse (c :: rest) = ofPlain (c :: rest) := by
  unfold parse
  split
  · next heq => exact absurd (List.cons.inj heq).1 h
  · next heq => exact absurd (List.cons.inj heq).1 h
  · rfl

theorem parse_directory {directory : List Char} (h : '*' ∉ directory) :
    parse (directory ++ ['/', '*']) = below directory := by
  cases directory with
  | nil => rfl
  | cons c rest =>
    have hc : c ≠ '*' := fun heq => h (heq ▸ List.mem_cons_self)
    rw [List.cons_append, parse_cons_of_ne hc, ← List.cons_append, ofPlain_append]

theorem parse_anywhere_directory (directory : List Char) :
    parse (['*', '*', '/'] ++ directory ++ ['/', '*']) = below directory :=
  ofPlain_append directory

/-! ## Names between slashes -/

/-- The start of a path counts as a slash. -/
theorem excludes_below (directory path : List Char) :
    (below directory).excludes path = true ↔
      '/' :: directory ++ ['/'] <:+: '/' :: path := by
  rw [excludes, Bool.or_eq_true, List.isPrefixOf_iff_prefix, occursIn_iff, List.infix_cons_iff,
    List.cons_append, List.prefix_cons_inj]

/-- Names between slashes stand one after the other among the names of the path, and the slash
behind them has a further name behind it. -/
theorem infix_slashed_iff {names : List (List Char)} (hne : names ≠ [])
    (hnames : ∀ name ∈ names, '/' ∉ name) (path : List Char) :
    '/' :: joinWith '/' names ++ ['/'] <:+: '/' :: path ↔
      names <:+: (path.splitOn '/').dropLast := by
  constructor
  · rintro ⟨before, after, hpath⟩
    have hslashes : '/' :: path = before ++ '/' :: (joinWith '/' names ++ '/' :: after) := by
      rw [← hpath]
      simp
    have hsplit : [] :: path.splitOn '/' =
        before.splitOn '/' ++ (names ++ after.splitOn '/') := by
      rw [← splitOn_cons_self, hslashes, List.splitOn_append_cons_self,
        List.splitOn_append_cons_self, List.splitOn_intercalate '/' hnames hne]
    -- the name in front of the first slash is the empty one that the path has been given
    rcases List.exists_cons_of_ne_nil (List.splitOn_ne_nil '/' before) with ⟨first, front, hfront⟩
    rw [hfront, List.cons_append] at hsplit
    rw [(List.cons.inj hsplit).2, ← List.append_assoc,
      List.dropLast_append_of_ne_nil (List.splitOn_ne_nil '/' after)]
    exact ⟨front, _, rfl⟩
  · rintro ⟨front, back, hparts⟩
    have hsplit : path.splitOn '/' = front ++ names ++ back ++
        [(path.splitOn '/').getLast (List.splitOn_ne_nil '/' path)] := by
      rw [hparts, List.dropLast_concat_getLast]
    generalize (path.splitOn '/').getLast (List.splitOn_ne_nil '/' path) = last at hsplit
    have hslashes : '/' :: path =
        joinWith '/' ([] :: front) ++ '/' :: (joinWith '/' names ++
          '/' :: joinWith '/' (back ++ [last])) := by
      have hlast : back ++ [last] ≠ [] := List.append_ne_nil_of_right_ne_nil back (by simp)
      have hbehind : names ++ (back ++ [last]) ≠ [] := List.append_ne_nil_of_left_ne_nil hne _
      rw [← joinWith_append '/' hne hlast, ← joinWith_append '/' (List.cons_ne_nil _ _) hbehind,
        List.cons_append, ← List.append_assoc, ← List.append_assoc, ← hsplit, ← splitOn_cons_self,
        joinWith, List.intercalate_splitOn]
    rw [hslashes]
    exact ⟨joinWith '/' ([] :: front), joinWith '/' (back ++ [last]), by simp⟩

/-- A directory pattern excludes the paths among whose names those of the directory stand one after
the other before the last, with `**/` in front or without. So what is below such a directory is
excluded at every depth, and nothing is for a name that only resembles one of the directory. -/
theorem directory_excludes_whole_names {names : List (List Char)} (hne : names ≠ [])
    (hnames : ∀ name ∈ names, name ≠ [] ∧ '/' ∉ name ∧ '*' ∉ name) :
    let directory := joinWith '/' names
    let plain := parse (directory ++ "/*".toList)
    let deep := parse ("**/".toList ++ directory ++ "/*".toList)
    (∀ path, plain.excludes path = true ↔ deep.excludes path = true) ∧
    (∀ path, plain.excludes path = true ↔ names <:+: (path.splitOn '/').dropLast) ∧
    (∀ above below path, path.splitOn '/' = above ++ names ++ below → below ≠ [] →
      plain.excludes path = true) ∧
    ∀ path, (∃ name ∈ names, name ∉ path.splitOn '/') → plain.excludes path = false := by
  intro directory plain deep
  have hstar : '*' ∉ directory := by
    intro hmem
    rcases mem_joinWith hmem with hslash | ⟨name, hname, hstar⟩
    · exact absurd hslash (by decide)
    · exact (hnames name hname).2.2 hstar
  have hplain : plain = below directory := parse_directory hstar
  have hdeep : deep = below directory := parse_anywhere_directory directory
  have hiff : ∀ path, plain.excludes path = true ↔ names <:+: (path.splitOn '/').dropLast := by
    intro path
    rw [hplain, excludes_below]
    exact infix_slashed_iff hne (fun name hname => (hnames name hname).2.1) path
  refine ⟨?_, hiff, ?_, ?_⟩
  · intro path
    rw [hplain, hdeep]
  · intro above below path hpath hbelow
    rw [hiff, hpath, List.dropLast_append_of_ne_nil hbelow]
    exact ⟨above, below.dropLast, rfl⟩
  · rintro path ⟨name, hname, hnot⟩
    rw [Bool.eq_false_iff]
    intro hexcluded
    have hmem : name ∈ (path.splitOn '/').dropLast := ((hiff path).mp hexcluded).mem hname
    exact hnot (List.dropLast_subset _ hmem)

/-- A directory of two names. What is below it is excluded at any place in a path and at any depth,
doubled slashes included; names that begin or end like its own are not its own, and a file of its
name is not below it. -/
theorem directory_excludes_whole_names_drafts :
    let pattern := parse "art/drafts/*".toList
    (∀ name ∈ ["art".toList, "drafts".toList], name ≠ [] ∧ '/' ∉ name ∧ '*' ∉ name) ∧
    pattern.excludes "x//art/drafts//old/row.blocks".toList = true ∧
    pattern.excludes "smart/drafts/row.blocks".toList = false ∧
    pattern.excludes "art/drafts2/row.blocks".toList = false ∧
    pattern.excludes "x/art/drafts".toList = false := by
  intro pattern
  have hne : ["art".toList, "drafts".toList] ≠ [] := List.cons_ne_nil _ _
  have hnames : ∀ name ∈ ["art".toList, "drafts".toList],
      name ≠ [] ∧ '/' ∉ name ∧ '*' ∉ name := by decide +kernel
  have hpattern : pattern =
      parse (joinWith '/' ["art".toList, "drafts".toList] ++ "/*".toList) := by decide +kernel
  rw [hpattern]
  rcases directory_excludes_whole_names hne hnames with ⟨-, hiff, hbelow, hother⟩
  refine ⟨hnames, ?_, ?_, ?_, ?_⟩
  · exact hbelow ["x".toList, []] [[], "old".toList, "row.blocks".toList]
      "x//art/drafts//old/row.blocks".toList (by decide +kernel) (List.cons_ne_nil _ _)
  · exact hother "smart/drafts/row.blocks".toList
      ⟨"art".toList, List.mem_cons_self, by decide +kernel⟩
  · exact hother "art/drafts2/row.blocks".toList
      ⟨"drafts".toList, List.mem_cons_of_mem _ List.mem_cons_self, by decide +kernel⟩
  · -- nothing stands behind the last name
    rw [Bool.eq_false_iff, Ne, hiff "x/art/drafts".toList]
    decide +kernel

end Pattern

end BlockScript
