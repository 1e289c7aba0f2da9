import BlockScript.Proofs.Yaml.Written

namespace BlockScript.Yaml

/-! # Tokens of a written mapping

The lexer reads the tokens of a written mapping (`tokens?_of_writes`). `Lexer.Goes` is how reading
gets from one state to another. Between two tokens the lexer is in a bare state, without a possible
key, but for the name in front of a colon. There is a lemma for each thing that may stand next, and
the whole text is gone over by induction on its entries.
-/

variable {c : Char} {cs text line lines rest name : List Char} {style : ScalarStyle}

namespace Lexer

variable {s t u : Lexer} {columns : List Nat} {keyAllowed : Bool} {mark : Mark} {n : Nat}
  {tokens : List Token}

/-! ## Steps of the lexer -/

/-- The state in front of the next token. -/
def next? (s : Lexer) : Option Lexer := s.skipToToken.dropStaleKeys?

/-- Reading gets from `s` to `t`, with a character at least for each token. -/
def Goes (s t : Lexer) : Prop :=
  ∃ n, n + t.cursor.rest.length ≤ s.cursor.rest.length ∧ ∀ fuel, run? (fuel + n) s = run? fuel t

namespace Goes

theorem trans (h₁ : Goes s t) (h₂ : Goes t u) : Goes s u := by
  rcases h₁ with ⟨n₁, hlength₁, hrun₁⟩
  rcases h₂ with ⟨n₂, hlength₂, hrun₂⟩
  refine ⟨n₂ + n₁, by omega, ?_⟩
  intro fuel
  rw [← Nat.add_assoc, hrun₁, hrun₂]

/-- Only what stands in front of the next token matters. -/
theorem of_next? (h : s.next? = t.next?) (hlength : t.cursor.rest.length ≤ s.cursor.rest.length) :
    Goes s t := by
  refine ⟨0, by omega, ?_⟩
  intro fuel
  cases fuel with
  | zero => rfl
  | succ fuel =>
    rw [next?, next?] at h
    simp only [run?, h]

/-- One token. -/
theorem of_token? (hnext : s.next? = some u) (hrest : u.cursor.rest = c :: cs)
    (htoken : (u.closeBlocks (u.mark.column < ·)).token? c cs = some t)
    (hlength : t.cursor.rest.length < s.cursor.rest.length) : Goes s t := by
  refine ⟨1, by omega, ?_⟩
  intro fuel
  rw [next?] at hnext
  simp [run?, hnext, hrest, htoken]

end Goes

/-! ## Between tokens -/

theorem skipToToken_eq_self (h : BeginsLine s.cursor.rest) : s.skipToToken = s := by
  rcases s with ⟨⟨mark, rest⟩, _, _, _, _, _⟩
  cases rest with
  | nil => rfl
  | cons c rest =>
    rcases h c rfl with ⟨hbreak, hspacing, hhash, hmark⟩
    simp only [isSpacing, Bool.or_eq_false_iff] at hspacing
    simp [skipToToken, skipBlanks, Lexer.mark, hbreak, hspacing, hhash, hmark]

theorem skipToToken_space (hs : s.cursor.rest = ' ' :: rest) (h : BeginsLine rest) :
    s.skipToToken = { s with cursor := ⟨s.mark.after [' '], rest⟩ } := by
  have hself : ({ s with cursor := ⟨s.mark.after [' '], rest⟩ } : Lexer).skipToToken = _ :=
    skipToToken_eq_self h
  rw [← hself]
  simp [skipToToken, hs, skipBlanks, isBreak, inFlow, Lexer.mark]

theorem skipToToken_break (hs : s.cursor.rest = '\n' :: rest) (houter : s.outerKeys = [])
    (h : BeginsLine rest) :
    s.skipToToken = { s with keyAllowed := true, cursor := ⟨s.mark.nextLine, rest⟩ } := by
  have hself := skipToToken_eq_self
    (s := { s with keyAllowed := true, cursor := ⟨s.mark.nextLine, rest⟩ }) h
  rw [← hself]
  simp [skipToToken, hs, houter, skipBlanks, isBreak, inFlow, Lexer.mark]

/-- A key that need not be one is forgotten in the next line. -/
theorem dropStaleKeys?_of_lt (houter : s.outerKeys = [])
    (hkey : ∀ k ∈ s.key, k.isRequired = false ∧ k.mark.line < s.mark.line) :
    s.dropStaleKeys? = some { s with key := none } := by
  rcases s with ⟨cursor, tokens, columns, key, outerKeys, keyAllowed⟩
  obtain rfl : outerKeys = [] := houter
  cases key with
  | none => simp [dropStaleKeys?]
  | some k =>
    rcases hkey k rfl with ⟨hrequired, hline⟩
    simp [dropStaleKeys?, hrequired, PossibleKey.isStale, hline]

/-- A key is still known at the end of its name. -/
theorem dropStaleKeys?_of_fresh (houter : s.outerKeys = [])
    (hkey : ∀ k ∈ s.key, k.isStale s.mark = false) : s.dropStaleKeys? = some s := by
  rcases s with ⟨cursor, tokens, columns, key, outerKeys, keyAllowed⟩
  obtain rfl : outerKeys = [] := houter
  cases key with
  | none => simp [dropStaleKeys?]
  | some k => simp [dropStaleKeys?, hkey k rfl]

/-! ## Bare states -/

/-- The start of a line. -/
def lineMark (n : Nat) : Mark := { line := n }

@[simp] theorem column_lineMark (n : Nat) : (lineMark n).column = 0 := rfl

/-- The state outside flow collections with no possible key. -/
def bare (columns : List Nat) (keyAllowed : Bool) (mark : Mark) (tokens : List Token)
    (rest : List Char) : Lexer :=
  { cursor := ⟨mark, rest⟩, tokens, columns, keyAllowed }

/-- No block collection is open, or one in the first column. -/
def AtMargin (columns : List Nat) : Prop := columns = [] ∨ columns = [0]

theorem closeBlocks_of_atMargin (h : AtMargin s.columns) (column : Nat) :
    s.closeBlocks (column < ·) = s := by
  rcases s with ⟨cursor, tokens, columns, key, outerKeys, keyAllowed⟩
  have hinside : columns.takeWhile (column < ·) = [] := by
    rcases h with h | h
    · rw [show columns = [] from h, List.takeWhile_nil]
    · rw [show columns = [0] from h, List.takeWhile_cons_of_neg (by simp)]
  simp [closeBlocks, hinside]

theorem next?_bare (columns : List Nat) (keyAllowed : Bool) (mark : Mark) (tokens : List Token)
    (h : BeginsLine rest) :
    (bare columns keyAllowed mark tokens rest).next? =
      some (bare columns keyAllowed mark tokens rest) := by
  rw [next?, skipToToken_eq_self h]
  exact dropStaleKeys?_of_fresh rfl (fun k hk => absurd hk (by simp [bare]))

theorem next?_bare_space (columns : List Nat) (keyAllowed : Bool) (mark : Mark)
    (tokens : List Token) (h : BeginsLine rest) :
    (bare columns keyAllowed mark tokens (' ' :: rest)).next? =
      some (bare columns keyAllowed (mark.after [' ']) tokens rest) := by
  rw [next?, skipToToken_space rfl h]
  exact dropStaleKeys?_of_fresh rfl (fun k hk => absurd hk (by simp [bare]))

theorem Goes.of_bare (hcolumns : AtMargin columns)
    (hnext : s.next? = some (bare columns keyAllowed mark tokens (c :: cs)))
    (htoken : (bare columns keyAllowed mark tokens (c :: cs)).token? c cs = some t)
    (hlength : t.cursor.rest.length < s.cursor.rest.length) : Goes s t := by
  refine Goes.of_token? hnext rfl ?_ hlength
  rw [closeBlocks_of_atMargin hcolumns]
  exact htoken

/-- The key that may begin where a value stands: nothing but a `:` behind it would make it one. -/
def valueKey (keyAllowed : Bool) (before : Nat) (mark : Mark) : Option PossibleKey :=
  if keyAllowed then some ⟨before, mark, false⟩ else none

theorem of_mem_valueKey {k : PossibleKey} {before : Nat} (h : k ∈ valueKey keyAllowed before mark) :
    k.isRequired = false ∧ k.mark = mark := by
  unfold valueKey at h
  split at h
  · obtain rfl := Option.some.inj h
    exact ⟨rfl, rfl⟩
  · exact absurd h (by simp)

theorem saveKey?_bare (hmark : 0 < mark.column) :
    (bare [0] keyAllowed mark tokens rest).saveKey? =
      some { bare [0] keyAllowed mark tokens rest with
        key := valueKey keyAllowed tokens.length mark } := by
  have hcolumn : (0 == mark.column) = false := beq_eq_false_iff_ne.mpr (by omega)
  cases keyAllowed <;>
    simp [saveKey?, bare, dropKey?, isOpenAt, inFlow, Lexer.mark, valueKey, hcolumn]

/-- Behind a value that ends its line, the next one begins without a possible key. -/
theorem next?_nextLine {before : Nat} (h : BeginsLine rest) :
    ({ bare columns true mark.nextLine tokens rest with
      key := valueKey keyAllowed before mark } : Lexer).next? =
      some (bare columns true mark.nextLine tokens rest) := by
  rw [next?, skipToToken_eq_self h]
  refine dropStaleKeys?_of_lt rfl ?_
  intro k hk
  rcases of_mem_valueKey hk with ⟨hrequired, hmark⟩
  refine ⟨hrequired, ?_⟩
  rw [hmark]
  exact Nat.lt_succ_self _

/-- So it does behind a value with a line break after it. -/
theorem next?_break (keyAllowed : Bool) (before : Nat) {start : Mark} (h : BeginsLine rest)
    (hline : start.line = mark.line) :
    ({ bare columns false mark tokens ('\n' :: rest) with
      key := valueKey keyAllowed before start } : Lexer).next? =
      some (bare columns true mark.nextLine tokens rest) := by
  rw [next?, skipToToken_break rfl rfl h]
  refine dropStaleKeys?_of_lt rfl ?_
  intro k hk
  rcases of_mem_valueKey hk with ⟨hrequired, hmark⟩
  refine ⟨hrequired, ?_⟩
  rw [hmark, hline]
  exact Nat.lt_succ_self _

/-! ## Which token it is -/

theorem eq_of_isTripled (h : isTripled c cs = true) : ∃ more, cs = c :: c :: c :: more := by
  unfold isTripled at h
  split at h
  · next a b d more =>
    simp only [Bool.and_eq_true, beq_iff_eq, and_assoc] at h
    rcases h with ⟨rfl, rfl, rfl, -⟩
    exact ⟨more, rfl⟩
  · exact absurd h (by decide)

theorem isTripled_cons_of_ne {x : Char} (h : c ≠ x) (cs : List Char) :
    isTripled x (c :: cs) = false := by
  rw [← Bool.not_eq_true]
  intro htripled
  rcases eq_of_isTripled htripled with ⟨more, hmore⟩
  exact h (List.cons.inj hmore).1

theorem isTripled_append (h : isTripled c (cs ++ rest) = true) (hrest : rest.head? ≠ some c) :
    ∃ more, cs = c :: c :: c :: more := by
  have hcons : ∀ {front tail : List Char}, front ++ rest = c :: tail →
      ∃ more, front = c :: more ∧ tail = more ++ rest := by
    intro front tail heq
    rcases List.append_eq_cons_iff.mp heq with ⟨-, hr⟩ | ⟨more, hfront, htail⟩
    · exact absurd (congrArg List.head? hr) hrest
    · exact ⟨more, hfront, htail⟩
  rcases eq_of_isTripled h with ⟨tail, heq⟩
  rcases hcons heq with ⟨first, hfirst, heq₁⟩
  rcases hcons heq₁.symm with ⟨second, hsecond, heq₂⟩
  rcases hcons heq₂.symm with ⟨third, hthird, -⟩
  exact ⟨third, by rw [hfirst, hsecond, hthird]⟩

theorem any_isSpacing_of_endsWord (h : endsWord cs = false) : cs.head?.any isSpacing = false := by
  cases cs with
  | nil => rfl
  | cons c cs => exact (Bool.or_eq_false_iff.mp h).1

/-- A plain scalar is not taken for another token, in a value or in front of a colon. -/
theorem token?_plain (houter : s.outerKeys = []) (h : allowsPlain (c :: cs) = true)
    (hrest : rest.head? = some '\n' ∨ rest.head? = some ':') :
    s.token? c (cs ++ rest) = s.plain? := by
  rcases allowsPlain_cons_iff.mp h with ⟨⟨hspace, -⟩, hinline, hstart, -⟩
  have hspacing := isSpacing_eq_false (hinline c List.mem_cons_self) hspace
  have htripled : ∀ x, x = '-' ∨ x = '.' → isTripled x (c :: (cs ++ rest)) = false := by
    intro x hx
    rw [← Bool.not_eq_true, ← List.cons_append]
    intro htripled
    have hhead : rest.head? ≠ some x := by
      rcases hrest with hr | hr <;> rcases hx with rfl | rfl <;> rw [hr] <;> decide
    rcases isTripled_append htripled hhead with ⟨more, hmore⟩
    rw [hmore] at hstart
    rcases hx with rfl | rfl <;> exact absurd hstart (by simp [startsOtherwise])
  have hflow : s.inFlow = false := by simp [inFlow, houter]
  rcases isIndicator_of_startsOtherwise hstart with hindicator | ⟨hsign, hcs⟩
  · -- each other token begins with an indicator
    have hplain : startsPlain false c (cs ++ rest) = true := by
      simp [startsPlain, hindicator, hspacing]
    simp [isIndicator] at hindicator
    simp [token?, htripled, hflow, hindicator, hplain]
  · -- these signs are tokens only in front of a word end
    have hgoes := endsWord_append hcs rest
    have hhead := any_isSpacing_of_endsWord hgoes
    generalize cs ++ rest = more at htripled hgoes hhead ⊢
    rcases hsign with rfl | rfl | rfl <;>
      simp [token?, htripled, hflow, hgoes, startsPlain, isIndicator, hhead]

theorem token?_quote (double : Bool) (hmark : 0 < s.mark.column) :
    s.token? (quote double) rest = s.quoted? double := by
  have hcolumn := Mark.column_beq_zero hmark
  cases double <;> simp [token?, hcolumn, quote]

/-! ## Values -/

/-- A plain scalar goes to the start of the next line. -/
theorem token?_plainValue (h : allowsPlain (c :: cs) = true) (hrest : BeginsLine rest)
    (hmark : 0 < mark.column) :
    (bare [0] keyAllowed mark tokens (c :: (cs ++ '\n' :: rest))).token? c (cs ++ '\n' :: rest) =
      some { bare [0] true mark.nextLine (.scalar .plain (c :: cs) :: tokens) rest with
        key := valueKey keyAllowed tokens.length mark } := by
  have hread := PlainScalar.read?_value mark h hrest
  rw [List.cons_append] at hread
  rw [token?_plain rfl h (Or.inl rfl), plain?, saveKey?_bare hmark]
  simp [bare, plainIndent, inFlow, Lexer.mark, hread, accept, emit]

/-- A quoted scalar goes to the line break behind its last quote. -/
theorem token?_quotedValue {double : Bool} (h : ∀ x ∈ text, Fits double x)
    (hcs : cs = text.flatMap (quotedChar double) ++ quote double :: '\n' :: rest)
    (hmark : 0 < mark.column) :
    (bare [0] keyAllowed mark tokens (quote double :: cs)).token? (quote double) cs =
      some { bare [0] false
          (mark.after (quote double :: (text.flatMap (quotedChar double) ++ [quote double])))
          (.scalar (if double then .doubleQuoted else .singleQuoted) text :: tokens)
          ('\n' :: rest) with
        key := valueKey keyAllowed tokens.length mark } := by
  have hcolumn : 0 < (mark.after [quote double]).column := Nat.succ_pos _
  have hread := QuotedScalar.read?_quoted ('\n' :: rest) hcolumn h (by simp)
  rw [← hcs] at hread
  rw [token?_quote (s := bare [0] keyAllowed mark tokens (quote double :: cs)) double hmark,
    quoted?, label?, saveKey?_bare hmark]
  simp [bare, Cursor.drop, hread, accept, emit]

/-- A scalar is one token, and the next line begins. -/
theorem goes_scalar (h : WritesScalar line style text) (hrest : BeginsLine rest) :
    Goes (bare [0] keyAllowed mark tokens (' ' :: line ++ rest))
      (bare [0] true mark.nextLine (.scalar style text :: tokens) rest) := by
  have hstart := next?_bare_space [0] keyAllowed mark tokens (h.beginsLine rest)
  have hcolumn : 0 < (mark.after [' ']).column := Nat.succ_pos _
  have hend := next?_bare [0] true mark.nextLine (.scalar style text :: tokens) hrest
  cases h with
  | plain hne hplain =>
    rcases List.exists_cons_of_ne_nil hne with ⟨c, more, rfl⟩
    -- reading goes over the line break itself, and forgets the key that might have begun
    rw [List.append_assoc] at hstart
    rw [List.cons_append, List.append_assoc]
    refine (Goes.of_bare (Or.inr rfl) hstart (token?_plainValue hplain hrest hcolumn) ?_).trans
      (Goes.of_next? ((next?_nextLine hrest).trans hend.symm) le_rfl)
    simp only [bare, List.length_cons, List.length_append, List.append_eq, List.nil_append]
    omega
  | quoted double hfits =>
    -- the break is left to be skipped, so the same state follows by way of another one
    refine (Goes.of_bare (Or.inr rfl) hstart
      (token?_quotedValue hfits (by simp) hcolumn) ?_).trans
      (Goes.of_next? ((next?_break _ _ hrest rfl).trans hend.symm) ?_)
    · simp only [bare, List.length_cons, List.length_append]
      omega
    · simp [bare]

/-- An item begins no sequence of its own, since it stands in the column of the mapping. -/
theorem token?_blockEntry (hcs : endsWord cs = true) :
    (bare [0] true (lineMark n) tokens ('-' :: cs)).token? '-' cs =
      some (bare [0] true ((lineMark n).after ['-']) (.blockEntry :: tokens) cs) := by
  have htripled : ∀ x, isTripled x ('-' :: cs) = false := by
    intro x
    rw [← Bool.not_eq_true]
    intro h
    rcases eq_of_isTripled h with ⟨more, hmore⟩
    obtain ⟨rfl, rfl⟩ := List.cons.inj hmore
    exact absurd hcs (by simp [endsWord, isSpacing, isBreak])
  simp [token?, htripled, hcs, blockEntry?, bare, inFlow, openBlock, opensBlock, Lexer.mark,
    lineMark, dropKey?, take, emit, Cursor.drop]

theorem goes_items (n : Nat) (tokens : List Token) {items : List (ScalarStyle × List Char)}
    (h : WritesItems lines items) (hrest : BeginsLine rest) :
    ∃ k, Goes (bare [0] true (lineMark n) tokens (lines ++ rest))
      (bare [0] true (lineMark k) ((items.flatMap itemTokens).reverse ++ tokens) rest) := by
  induction h generalizing n tokens with
  | nil => exact ⟨n, Goes.of_next? rfl le_rfl⟩
  | @cons line lines style text items hline hlines ih =>
    -- the dash, the scalar behind it, and then the other items
    have hmore := hlines.beginsLine hrest
    have hentry : Goes (bare [0] true (lineMark n) tokens ('-' :: (' ' :: line ++ (lines ++ rest))))
        (bare [0] true ((lineMark n).after ['-']) (.blockEntry :: tokens)
          (' ' :: line ++ (lines ++ rest))) :=
      Goes.of_bare (Or.inr rfl) (next?_bare _ _ _ _ (beginsLine_cons (by decide) _))
        (token?_blockEntry rfl) (Nat.lt_succ_self _)
    rcases ih (n + 1) (.scalar style text :: .blockEntry :: tokens) with ⟨k, hitems⟩
    refine ⟨k, ?_⟩
    have hall := (hentry.trans (goes_scalar hline hmore)).trans hitems
    simpa [itemTokens] using hall

/-- `[]` is two tokens; between them the lexer is in a flow sequence. -/
theorem goes_empty (hrest : BeginsLine rest) :
    Goes (bare [0] false mark tokens (' ' :: '[' :: ']' :: '\n' :: rest))
      (bare [0] true mark.nextLine (.flowSequenceEnd :: .flowSequenceStart :: tokens) rest) := by
  let inside : Lexer :=
    { cursor := ⟨mark.after [' ', '['], ']' :: '\n' :: rest⟩
      tokens := .flowSequenceStart :: tokens
      columns := [0]
      outerKeys := [none] }
  have hopen : Goes (bare [0] false mark tokens (' ' :: '[' :: ']' :: '\n' :: rest)) inside := by
    refine Goes.of_bare (Or.inr rfl)
      (next?_bare_space _ _ _ _ (beginsLine_cons (by decide) _)) ?_ ?_
    · simp [token?, isTripled_cons_of_ne, flowStart?, saveKey?, bare, take, emit, Cursor.drop,
        inside]
    · simp [bare, inside]
  have hnext : inside.next? = some inside := by
    rw [next?, skipToToken_eq_self (beginsLine_cons (by decide) _)]
    simp [dropStaleKeys?, inside]
  have hclose : Goes inside
      (bare [0] false (mark.after [' ', '[', ']'])
        (.flowSequenceEnd :: .flowSequenceStart :: tokens) ('\n' :: rest)) := by
    refine Goes.of_token? hnext rfl ?_ ?_
    · simp [token?, isTripled_cons_of_ne, flowEnd?, dropKey?, closeBlocks, inFlow, bare, take, emit,
        Cursor.drop, inside]
    · simp [bare, inside]
  refine (hopen.trans hclose).trans (Goes.of_next? ?_ ?_)
  · exact (next?_break false 0 hrest rfl).trans (next?_bare _ _ _ _ hrest).symm
  · simp [bare]

theorem goes_value (mark : Mark) (tokens : List Token) {value : Value}
    (h : WritesValue lines value) (hrest : BeginsLine rest) :
    ∃ k, Goes (bare [0] false mark tokens (lines ++ rest))
      (bare [0] true (lineMark k) (value.tokens.reverse ++ tokens) rest) := by
  cases h with
  | scalar hline => exact ⟨mark.line + 1, goes_scalar hline hrest⟩
  | empty => exact ⟨mark.line + 1, goes_empty hrest⟩
  | @items lines items hne hlines =>
    have hbreak : Goes (bare [0] false mark tokens ('\n' :: (lines ++ rest)))
        (bare [0] true (lineMark (mark.line + 1)) tokens (lines ++ rest)) :=
      Goes.of_next? ((next?_break false 0 (hlines.beginsLine hrest) rfl).trans
        (next?_bare _ _ _ _ (hlines.beginsLine hrest)).symm) (Nat.le_succ _)
    rcases goes_items (mark.line + 1) tokens hlines hrest with ⟨k, hitems⟩
    have htokens : (Value.list items).tokens = items.flatMap itemTokens := by
      cases items with
      | nil => exact absurd rfl hne
      | cons item items => rfl
    rw [htokens]
    exact ⟨k, hbreak.trans hitems⟩

/-! ## Keys -/

/-- The tokens in front of a key: the first key opens the mapping. -/
def opened : List Nat → List Token → List Token
  | [], tokens => .mappingStart :: tokens
  | _, tokens => tokens

/-- What is known of a key in front of its colon. In an open mapping nothing else can stand in its
column. -/
def nameKey (columns : List Nat) (before n : Nat) : PossibleKey :=
  ⟨before, lineMark n, columns.head? == some 0⟩

/-- The state between a key and its colon. -/
def named (columns : List Nat) (n : Nat) (tokens : List Token) (name rest : List Char) : Lexer :=
  { bare columns false ((lineMark n).after name) (.scalar .plain name :: tokens) (':' :: rest) with
    key := some (nameKey columns tokens.length n) }

theorem token?_name (hcolumns : AtMargin columns) (h : allowsPlain (c :: cs) = true)
    (hrest : endsWord rest = true) :
    (bare columns true (lineMark n) tokens (c :: (cs ++ ':' :: rest))).token? c
        (cs ++ ':' :: rest) =
      some (named columns n tokens (c :: cs) rest) := by
  have hread : ∀ indent ≤ 1, PlainScalar.read? false indent {} (lineMark n)
      (c :: (cs ++ ':' :: rest)) =
        some ⟨c :: cs, false, ⟨(lineMark n).after (c :: cs), ':' :: rest⟩⟩ :=
    fun indent hindent => PlainScalar.read?_key (lineMark n) h hindent hrest
  rw [token?_plain rfl h (Or.inr rfl)]
  rcases hcolumns with rfl | rfl <;>
    simp [plain?, saveKey?, dropKey?, bare, inFlow, isOpenAt, Lexer.mark, plainIndent, hread,
      accept, emit, named, nameKey]

theorem next?_named (hname : utf8Length name ≤ PossibleKey.maxLength) :
    (named columns n tokens name rest).next? = some (named columns n tokens name rest) := by
  rw [next?, skipToToken_eq_self (beginsLine_cons (by decide) _)]
  refine dropStaleKeys?_of_fresh rfl ?_
  intro k hk
  obtain rfl := Option.some.inj hk
  simp [PossibleKey.isStale, nameKey, named, bare, Lexer.mark, lineMark]
  omega

/-- The colon makes the name a key: its token goes in front. -/
theorem token?_colon (hcolumns : AtMargin columns) (hrest : endsWord rest = true) :
    (named columns n tokens name rest).token? ':' rest =
      some (bare [0] false ((lineMark n).after (name ++ [':']))
        (.value :: .scalar .plain name :: .key :: opened columns tokens) rest) := by
  rcases hcolumns with rfl | rfl <;>
    simp [token?, isTripled_cons_of_ne, hrest, value?, insertKey, named, nameKey, bare, opened,
      opensBlock, inFlow, take, emit, Cursor.drop]

theorem goes_key (hcolumns : AtMargin columns) (hname : IsKeyName name)
    (hrest : endsWord rest = true) :
    Goes (bare columns true (lineMark n) tokens (name ++ ':' :: rest))
      (bare [0] false ((lineMark n).after (name ++ [':']))
        (.value :: .scalar .plain name :: .key :: opened columns tokens) rest) := by
  rcases hname with ⟨hne, hplain, hshort⟩
  rcases List.exists_cons_of_ne_nil hne with ⟨c, more, rfl⟩
  have hbegins := beginsLine_of_allowsPlain hne hplain (':' :: rest)
  have hread : Goes (bare columns true (lineMark n) tokens (c :: more ++ ':' :: rest))
      (named columns n tokens (c :: more) rest) := by
    refine Goes.of_bare hcolumns (next?_bare _ _ _ _ hbegins) (token?_name hcolumns hplain hrest) ?_
    simp only [named, bare, List.length_cons, List.length_append]
    omega
  refine hread.trans (Goes.of_token? (next?_named hshort) rfl ?_ (Nat.lt_succ_self _))
  rw [closeBlocks_of_atMargin hcolumns]
  exact token?_colon hcolumns hrest

/-! ## Entries -/

/-- A key and its value. -/
theorem goes_entry (n : Nat) (tokens : List Token) {value : Value} (hcolumns : AtMargin columns)
    (hname : IsKeyName name) (hvalue : WritesValue lines value) (hrest : BeginsLine rest) :
    ∃ k, Goes (bare columns true (lineMark n) tokens (name ++ ':' :: (lines ++ rest)))
      (bare [0] true (lineMark k) ((entryTokens (name, value)).reverse ++ opened columns tokens)
        rest) := by
  rcases goes_value ((lineMark n).after (name ++ [':']))
    (.value :: .scalar .plain name :: .key :: opened columns tokens) hvalue hrest with ⟨k, hgoes⟩
  refine ⟨k, ?_⟩
  have hall := (goes_key hcolumns hname (hvalue.endsWord_append rest)).trans hgoes
  simpa [entryTokens] using hall

/-- The entries behind the first. -/
theorem goes_entries (n : Nat) (tokens : List Token) {entries : List (List Char × Value)}
    (h : WritesEntries text entries) :
    ∃ k, Goes (bare [0] true (lineMark n) tokens text)
      (bare [0] true (lineMark k) ((entries.flatMap entryTokens).reverse ++ tokens) []) := by
  induction h generalizing n tokens with
  | nil => exact ⟨n, Goes.of_next? rfl le_rfl⟩
  | @cons name lines rest value entries hname hvalue hrest ih =>
    rcases goes_entry n tokens (Or.inr rfl) hname hvalue hrest.beginsLine with ⟨m, hfirst⟩
    rcases ih m ((entryTokens (name, value)).reverse ++ tokens) with ⟨k, hmore⟩
    refine ⟨k, ?_⟩
    rw [List.append_assoc]
    have hall := hfirst.trans hmore
    simpa using hall

/-- At the end the mapping is closed. -/
theorem run?_end (fuel : Nat) :
    run? (fuel + 1) (bare [0] true (lineMark n) tokens []) =
      some (tokens.reverse ++ [.blockEnd]) := by
  have hnext := next?_bare [0] true (lineMark n) tokens beginsLine_nil
  rw [next?] at hnext
  simp only [run?, hnext]
  simp [bare, closeAll?, closeBlocks, inFlow, dropKey?]

/-- A step for each character suffices, and one for the end. -/
theorem run?_of_goes (h : Goes s (bare [0] true (lineMark n) tokens [])) :
    run? (s.cursor.rest.length + 1) s = some (tokens.reverse ++ [.blockEnd]) := by
  rcases h with ⟨steps, hlength, hrun⟩
  have hle : steps ≤ s.cursor.rest.length := le_trans (Nat.le_add_right _ _) hlength
  have hfuel : s.cursor.rest.length + 1 = s.cursor.rest.length - steps + 1 + steps := by omega
  rw [hfuel, hrun]
  exact run?_end _

end Lexer

/-- The lexer reads a written mapping. -/
theorem tokens?_of_writes {entries : List (List Char × Value)} (h : WritesEntries text entries)
    (hne : entries ≠ []) : tokens? text = some (mappingTokens entries) := by
  have hprintable := h.isPrintable
  have hallowed : text.all isAllowed = true :=
    List.all_eq_true.mpr fun x hx => isAllowed_of_isPrintable (hprintable x hx)
  rw [tokens?, if_pos hallowed, unifyBreaks_of_isPrintable hprintable]
  cases h with
  | nil => exact absurd rfl hne
  | @cons name lines rest value entries hname hvalue hrest =>
    rcases Lexer.goes_entry 0 [] (Or.inl rfl) hname hvalue hrest.beginsLine with ⟨m, hfirst⟩
    rcases Lexer.goes_entries m _ hrest with ⟨k, hmore⟩
    rw [List.append_assoc, List.cons_append]
    refine (Lexer.run?_of_goes (hfirst.trans hmore)).trans ?_
    simp [mappingTokens, Lexer.opened]

end BlockScript.Yaml
