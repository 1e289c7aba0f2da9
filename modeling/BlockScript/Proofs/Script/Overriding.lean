import BlockScript.Proofs.Script.Grammar
import BlockScript.Proofs.Script.PropertyGrammar

namespace BlockScript

/-! # Overriding

A block token may set a property more than once. The last value of each property counts, and each
property is told apart from the others (`foldl_apply_eq_overridden`), so properties of different
kinds can be written in any order and a value that is set again later can be left out. All this
holds of tokens whose segments are properties, each of them: the first segment that is none decides
the answer whatever stands behind it (`Token.parse_blockToken`).
-/

/-! ## Values that are set -/

/-- What a property is about. -/
inductive PropertyKind where
  | size
  | colour
  | repetitions
deriving DecidableEq

namespace Property

def kind : Property → PropertyKind
  | size _ => .size
  | colour _ => .colour
  | repetitions _ => .repetitions

/-- The size that the property sets. -/
def size? : Property → Option Binary64
  | size value => some value
  | _ => none

/-- The colour that the property sets. -/
def colour? : Property → Option Colour
  | colour value => some value
  | _ => none

/-- The number of blocks that the property sets. -/
def repetitions? : Property → Option Nat
  | repetitions value => some value
  | _ => none

variable (property : Property)

theorem isSome_size?_iff : property.size?.isSome ↔ property.kind = .size := by
  cases property <;> simp [size?, kind]

theorem isSome_colour?_iff : property.colour?.isSome ↔ property.kind = .colour := by
  cases property <;> simp [colour?, kind]

theorem isSome_repetitions?_iff : property.repetitions?.isSome ↔ property.kind = .repetitions := by
  cases property <;> simp [repetitions?, kind]

end Property

/-- The block with the last value that is set in each field, and its own where none is. -/
def BlockSpec.overridden (spec : BlockSpec) (properties : List Property) : BlockSpec where
  size := (properties.filterMap Property.size?).getLast?.getD spec.size
  colour := (properties.filterMap Property.colour?).getLast?.getD spec.colour
  repetitions := (properties.filterMap Property.repetitions?).getLast?.getD spec.repetitions

/-- Properties that are written over one another leave the last of each kind. -/
theorem BlockSpec.foldl_apply_eq_overridden (spec : BlockSpec) (properties : List Property) :
    properties.foldl Property.apply spec = spec.overridden properties := by
  induction properties using List.reverseRecOn with
  | nil => rfl
  | append_singleton properties property ih =>
    rw [List.foldl_append, List.foldl_cons, List.foldl_nil, ih]
    -- the last property sets its own field and leaves the two others
    cases property <;>
      simp [Property.apply, overridden, Property.size?, Property.colour?, Property.repetitions?]

/-! ## Values that do not count -/

section Fields

variable {α : Type} {field : Property → Option α} {kind : PropertyKind}
  {properties others earlier later : List Property} {property : Property} {spec : BlockSpec}

/-- Only the properties of its kind matter to a field. -/
theorem filterMap_eq_of_filter_eq (hfield : ∀ p, (field p).isSome ↔ p.kind = kind)
    (h : properties.filter (·.kind = kind) = others.filter (·.kind = kind)) :
    properties.filterMap field = others.filterMap field := by
  have hown : ∀ ps : List Property,
      (ps.filter (·.kind = kind)).filterMap field = ps.filterMap field := by
    intro ps
    rw [List.filterMap_filter]
    refine List.filterMap_congr fun p _ => ?_
    by_cases hp : p.kind = kind
    · simp [hp]
    · have hnone : field p = none := by
        rwa [← hfield, Option.not_isSome_iff_eq_none] at hp
      simp [hp, hnone]
  rw [← hown properties, h, hown others]

/-- A value that is set again is not the last. -/
theorem getLast?_filterMap_of_isSome
    (hagain : (field property).isSome → ∃ p ∈ later, (field p).isSome) :
    ((earlier ++ property :: later).filterMap field).getLast? =
      ((earlier ++ later).filterMap field).getLast? := by
  rw [List.filterMap_append, List.filterMap_append]
  cases hvalue : field property with
  | none => rw [List.filterMap_cons_none hvalue]
  | some value =>
    obtain ⟨p, hp, hset⟩ := hagain (by rw [hvalue]; rfl)
    obtain ⟨last, hlast⟩ := Option.isSome_iff_exists.mp hset
    have hmem : last ∈ later.filterMap field := List.mem_filterMap.mpr ⟨p, hp, hlast⟩
    rw [List.filterMap_cons_some hvalue]
    obtain ⟨final, hfinal⟩ := Option.ne_none_iff_exists'.mp
      (mt List.getLast?_eq_none_iff.mp (List.ne_nil_of_mem hmem))
    simp [List.getLast?_append, List.getLast?_cons, hfinal]

/-- The order of properties of different kinds does not count. -/
theorem BlockSpec.overridden_congr
    (h : ∀ kind, properties.filter (·.kind = kind) = others.filter (·.kind = kind)) :
    spec.overridden properties = spec.overridden others := by
  rw [overridden, overridden, filterMap_eq_of_filter_eq Property.isSome_size?_iff (h _),
    filterMap_eq_of_filter_eq Property.isSome_colour?_iff (h _),
    filterMap_eq_of_filter_eq Property.isSome_repetitions?_iff (h _)]

/-- A property that is set again later can be left out. -/
theorem BlockSpec.overridden_erase (h : ∃ p ∈ later, p.kind = property.kind) :
    spec.overridden (earlier ++ property :: later) = spec.overridden (earlier ++ later) := by
  obtain ⟨p, hp, hkind⟩ := h
  have hagain : ∀ {α : Type} {field : Property → Option α} {kind : PropertyKind},
      (∀ p, (field p).isSome ↔ p.kind = kind) →
      (field property).isSome → ∃ p ∈ later, (field p).isSome := by
    intro α field kind hfield hset
    exact ⟨p, hp, (hfield p).mpr (hkind.trans ((hfield property).mp hset))⟩
  rw [overridden, overridden,
    getLast?_filterMap_of_isSome (hagain Property.isSome_size?_iff),
    getLast?_filterMap_of_isSome (hagain Property.isSome_colour?_iff),
    getLast?_filterMap_of_isSome (hagain Property.isSome_repetitions?_iff)]

end Fields

/-! ## Segments of properties -/

namespace Property

variable {segment : List Char} {property : Property}
  {segments : List (List Char)} {properties : List Property}

/-- What a segment is about, when it is a property. -/
def kind? (segment : List Char) : Option PropertyKind := (parse segment).toOption.map kind

theorem kind?_of_parse (h : parse segment = .ok property) : kind? segment = some property.kind := by
  rw [kind?, h]
  rfl

/-- The segments of a kind are those of the properties of the kind. -/
theorem map_parse_filter (kind : PropertyKind)
    (h : segments.map parse = properties.map .ok) :
    (segments.filter (kind? · = some kind)).map parse =
      (properties.filter (·.kind = kind)).map .ok := by
  induction segments generalizing properties with
  | nil =>
    cases properties with
    | nil => rfl
    | cons property properties => cases h
  | cons segment segments ih =>
    cases properties with
    | nil => cases h
    | cons property properties =>
      simp only [List.map_cons, List.cons.injEq] at h
      have hrest := ih h.2
      rw [List.filter_cons, List.filter_cons, kind?_of_parse h.1]
      by_cases hkind : property.kind = kind
      · simpa [hkind, h.1] using hrest
      · simpa [hkind] using hrest

end Property

/-! ## Block tokens -/

namespace Token

variable {segments others : List (List Char)} {segment : List Char}
  {properties : List Property} {e : TokenError}

/-- The token of a block with the segments, in their order. -/
def blockToken (segments : List (List Char)) : List Char :=
  "block".toList ++ segments.flatMap ('.' :: ·)

/-- Behind the points are the segments again. -/
theorem splitOn_append_segments (hpoints : ∀ segment ∈ segments, '.' ∉ segment)
    {word : List Char} (hword : '.' ∉ word) :
    (word ++ segments.flatMap ('.' :: ·)).splitOn '.' = word :: segments := by
  induction segments generalizing word with
  | nil => rw [List.flatMap_nil, List.append_nil, List.splitOn_eq_singleton hword]
  | cons segment segments ih =>
    obtain ⟨hsegment, hsegments⟩ := List.forall_mem_cons.mp hpoints
    rw [List.flatMap_cons, List.cons_append, List.splitOn_append_cons_self_of_not_mem hword,
      ih hsegments hsegment]

theorem keyword_blockToken (hpoints : ∀ segment ∈ segments, '.' ∉ segment) :
    keyword (blockToken segments) = "block".toList := by
  have hsplit : (blockToken segments).splitOn '.' = "block".toList :: segments :=
    splitOn_append_segments hpoints (by decide)
  rw [splitOn_eq_takeWhile_cons] at hsplit
  exact (List.cons.inj hsplit).1

theorem segments_blockToken (hpoints : ∀ segment ∈ segments, '.' ∉ segment) :
    Token.segments (blockToken segments) = segments := by
  rw [Token.segments, blockToken, splitOn_append_segments hpoints (by decide), List.tail_cons]

/-- A block token of properties has no blank. -/
theorem trim_blockToken (h : ∀ segment ∈ segments, Property.Accepts segment) :
    trim (blockToken segments) = blockToken segments := by
  apply trim_of_forall_not_isBlank
  rw [blockToken, List.forall_mem_append]
  refine ⟨fun c hc => (isGraphic_of_all (by decide) c hc).isBlank, fun c hc => ?_⟩
  obtain ⟨segment, hsegment, hmem⟩ := List.mem_flatMap.mp hc
  rcases List.mem_cons.mp hmem with rfl | hmem
  · decide
  · obtain ⟨property, hproperty⟩ := h segment hsegment
    exact (Property.isGraphic_of_parse hproperty c hmem).isBlank

/-- A block token of properties has the last value of each. -/
theorem parse_blockToken_of_accepted (hpoints : ∀ segment ∈ segments, '.' ∉ segment)
    (h : segments.map Property.parse = properties.map .ok) :
    parse (blockToken segments) = some (.block (BlockSpec.overridden {} properties)) := by
  have htrim := trim_blockToken (forall_accepts_iff.mpr ⟨properties, h⟩)
  rw [parse_eq_block_iff, htrim, keyword_blockToken hpoints, segments_blockToken hpoints]
  exact ⟨rfl, properties, h, (BlockSpec.foldl_apply_eq_overridden ..).symm⟩

/-- The first segment that is no property is what a block token fails with. -/
theorem parse_blockToken_of_firstRejected (hpoints : ∀ segment ∈ segments, '.' ∉ segment)
    (htrim : trim (blockToken segments) = blockToken segments) (h : FirstRejected segments e) :
    parse (blockToken segments) = some (.mistake e.message) := by
  have hfirst : FirstRejected (Token.segments (trim (blockToken segments))) e := by
    rwa [htrim, segments_blockToken hpoints]
  rw [parse_eq_badBlock_iff hfirst, htrim, keyword_blockToken hpoints]

/-- Segments in another order, with those of one kind in the same. -/
theorem parse_blockToken_of_perm (hpoints : ∀ segment ∈ segments, '.' ∉ segment)
    (haccepts : ∀ segment ∈ segments, Property.Accepts segment) (hperm : others.Perm segments)
    (hkinds : ∀ kind, others.filter (Property.kind? · = some kind) =
      segments.filter (Property.kind? · = some kind)) :
    parse (blockToken others) = parse (blockToken segments) := by
  obtain ⟨properties, hproperties⟩ := forall_accepts_iff.mp haccepts
  obtain ⟨moved, hmoved⟩ :=
    forall_accepts_iff.mp fun segment h => haccepts segment (hperm.mem_iff.mp h)
  have hpointsOthers : ∀ segment ∈ others, '.' ∉ segment := fun segment h =>
    hpoints segment (hperm.mem_iff.mp h)
  rw [parse_blockToken_of_accepted hpoints hproperties,
    parse_blockToken_of_accepted hpointsOthers hmoved]
  have hfilter : ∀ kind, moved.filter (·.kind = kind) = properties.filter (·.kind = kind) := by
    intro kind
    have hmap := Property.map_parse_filter kind hmoved
    rw [hkinds kind, Property.map_parse_filter kind hproperties] at hmap
    exact ((List.map_inj_right fun _ _ heq => Except.ok.inj heq).mp hmap).symm
  rw [BlockSpec.overridden_congr hfilter]

/-- A segment whose property is set again later can be left out. -/
theorem parse_blockToken_of_erase {earlier later : List (List Char)}
    (hpoints : ∀ s ∈ earlier ++ segment :: later, '.' ∉ s)
    (haccepts : ∀ s ∈ earlier ++ segment :: later, Property.Accepts s)
    (hagain : ∃ other ∈ later, Property.kind? other = Property.kind? segment) :
    parse (blockToken (earlier ++ later)) = parse (blockToken (earlier ++ segment :: later)) := by
  have hsub : earlier ++ later ⊆ earlier ++ segment :: later := by
    intro s hs
    simp only [List.mem_append, List.mem_cons] at hs ⊢
    tauto
  obtain ⟨firsts, hfirsts⟩ := forall_accepts_iff.mp fun s (hs : s ∈ earlier) =>
    haccepts s (List.mem_append_left _ hs)
  obtain ⟨lasts, hlasts⟩ := forall_accepts_iff.mp fun s (hs : s ∈ later) =>
    haccepts s (List.mem_append_right _ (List.mem_cons_of_mem _ hs))
  obtain ⟨property, hproperty⟩ := haccepts segment (by simp)
  have hall : (earlier ++ segment :: later).map Property.parse =
      (firsts ++ property :: lasts).map .ok := by
    rw [List.map_append, List.map_cons, hfirsts, hproperty, hlasts, List.map_append, List.map_cons]
  have hless : (earlier ++ later).map Property.parse = (firsts ++ lasts).map .ok := by
    rw [List.map_append, hfirsts, hlasts, List.map_append]
  rw [parse_blockToken_of_accepted hpoints hall,
    parse_blockToken_of_accepted (fun s hs => hpoints s (hsub hs)) hless]
  -- the segment that sets the property again stands for one of the later properties
  obtain ⟨other, hother, hkind⟩ := hagain
  have hmem : Property.parse other ∈ lasts.map .ok := by
    rw [← hlasts]
    exact List.mem_map_of_mem hother
  obtain ⟨again, hagain, hread⟩ := List.mem_map.mp hmem
  rw [Property.kind?_of_parse hread.symm, Property.kind?_of_parse hproperty] at hkind
  rw [BlockSpec.overridden_erase ⟨again, hagain, Option.some.inj hkind⟩]

/-- A block token whose segments are all properties has the last value of each that is set, and
size 1, black and one repetition where none is; the order of different properties does not count,
nor does a value that is set again later. With a segment that is no property it fails as the first
such does, whatever stands behind that one. -/
theorem parse_blockToken (segments : List (List Char))
    (hpoints : ∀ segment ∈ segments, '.' ∉ segment) :
    ((∀ segment ∈ segments, Property.Accepts segment) →
      (∃ properties : List Property, segments.map Property.parse = properties.map .ok ∧
        parse (blockToken segments) = some (.block
          { size := (properties.filterMap Property.size?).getLast?.getD 1
            colour := (properties.filterMap Property.colour?).getLast?.getD Colour.black
            repetitions := (properties.filterMap Property.repetitions?).getLast?.getD 1 })) ∧
      (∀ others, others.Perm segments →
        (∀ kind, others.filter (Property.kind? · = some kind) =
          segments.filter (Property.kind? · = some kind)) →
        parse (blockToken others) = parse (blockToken segments)) ∧
      ∀ earlier segment later, segments = earlier ++ segment :: later →
        (∃ other ∈ later, Property.kind? other = Property.kind? segment) →
        parse (blockToken (earlier ++ later)) = parse (blockToken segments)) ∧
    ((∃ segment ∈ segments, ¬ Property.Accepts segment) → ∃ e, FirstRejected segments e) ∧
    ∀ accepted rejected rest e, segments = accepted ++ rejected :: rest →
      (∀ segment ∈ accepted, Property.Accepts segment) → Property.parse rejected = .error e →
      trim (blockToken segments) = blockToken segments →
      parse (blockToken segments) = some (.mistake e.message) ∧
      ∀ others, (∀ segment ∈ others, '.' ∉ segment) →
        trim (blockToken (accepted ++ rejected :: others)) =
          blockToken (accepted ++ rejected :: others) →
        parse (blockToken (accepted ++ rejected :: others)) = parse (blockToken segments) := by
  refine ⟨fun haccepts => ⟨?_, ?_, ?_⟩, exists_firstRejected_iff.mpr, ?_⟩
  · obtain ⟨properties, hproperties⟩ := forall_accepts_iff.mp haccepts
    exact ⟨properties, hproperties, parse_blockToken_of_accepted hpoints hproperties⟩
  · intro others hperm hkinds
    exact parse_blockToken_of_perm hpoints haccepts hperm hkinds
  · rintro earlier segment later rfl hagain
    exact parse_blockToken_of_erase hpoints haccepts hagain
  · rintro accepted rejected rest e rfl haccepted hrejected htrim
    have hthis := parse_blockToken_of_firstRejected hpoints htrim
      ⟨accepted, rejected, rest, rfl, haccepted, hrejected⟩
    refine ⟨hthis, fun others hothers htrimOthers => ?_⟩
    have hpointsOthers : ∀ segment ∈ accepted ++ rejected :: others, '.' ∉ segment := by
      rw [List.forall_mem_append, List.forall_mem_cons] at hpoints ⊢
      exact ⟨hpoints.1, hpoints.2.1, hothers⟩
    rw [hthis, parse_blockToken_of_firstRejected hpointsOthers htrimOthers
      ⟨accepted, rejected, others, rfl, haccepted, hrejected⟩]

/-- The first of two repeats is left out, and a wrong colour is not made good by a later one. -/
theorem parse_blockToken_set_twice :
    parse (blockToken ["color-red".toList, "repeat-3".toList]) =
      parse (blockToken ["repeat-2".toList, "color-red".toList, "repeat-3".toList]) ∧
    parse (blockToken ["repeat-2".toList, "color-none".toList, "color-red".toList]) =
      some (.mistake "unknown color: none") := by
  have htwo : Property.parse "repeat-2".toList = .ok (.repetitions 2) := rfl
  have hthree : Property.parse "repeat-3".toList = .ok (.repetitions 3) := rfl
  have hred : Property.parse "color-red".toList = .ok (.colour ⟨255, 0, 0, 255⟩) := rfl
  have hnone : Property.parse "color-none".toList = .error (.unknownColour "none") := rfl
  have haccepts : ∀ segment ∈ ["repeat-2".toList, "color-red".toList, "repeat-3".toList],
      Property.Accepts segment := by
    simp only [List.forall_mem_cons]
    exact ⟨⟨_, htwo⟩, ⟨_, hred⟩, ⟨_, hthree⟩, nofun⟩
  have hfirst := (parse_blockToken ["repeat-2".toList, "color-red".toList, "repeat-3".toList]
    (by decide)).1 haccepts
  have hsecond := (parse_blockToken ["repeat-2".toList, "color-none".toList, "color-red".toList]
    (by decide)).2.2 ["repeat-2".toList] "color-none".toList ["color-red".toList] _ rfl
    (List.forall_mem_singleton.mpr ⟨_, htwo⟩) hnone (by decide +kernel)
  refine ⟨?_, hsecond.1⟩
  refine hfirst.2.2 [] "repeat-2".toList ["color-red".toList, "repeat-3".toList] rfl
    ⟨"repeat-3".toList, by simp, ?_⟩
  rw [Property.kind?_of_parse htwo, Property.kind?_of_parse hthree]
  rfl

end Token

end BlockScript
