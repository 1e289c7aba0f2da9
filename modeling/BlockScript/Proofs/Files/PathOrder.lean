import BlockScript.Files.Discovery
import Mathlib.Data.List.Nodup

namespace BlockScript

/-! # The order of paths

Paths are in a total order by their components (`Path.compare`), and two of them are the same there
if their components are equal (`Path.compare_eq_iff`). Sorting paths and leaving out the ones that
are the same as their predecessor gives a list that increases strictly
(`Path.pairwise_eraseRepsBy_mergeSort`). Since sorting keeps the order of what is the same, each path
that is kept is the first one of its kind (`Path.mem_eraseRepsBy_mergeSort_iff`).
-/

open Std

namespace FileName

/-- The order of names by their characters. -/
def compare (a b : FileName) : Ordering := compareOfLessAndEq a b

theorem lt_iff (a b : FileName) : a < b ↔ ¬ b < a ∧ a ≠ b := by
  constructor
  · intro h
    refine ⟨List.lt_asymm h, ?_⟩
    rintro rfl
    exact List.lt_irrefl a h
  · rintro ⟨hnot, hne⟩
    by_contra hlt
    exact hne (List.le_antisymm hnot hlt)

instance : TransCmp compare := TransOrd.compareOfLessAndEq_of_lt_trans_of_lt_iff List.lt_trans lt_iff

instance : LawfulEqCmp compare where
  eq_of_compare {a b} h := by
    by_contra hne
    rw [compare, compareOfLessAndEq, if_neg hne] at h
    split_ifs at h

end FileName

namespace Component

/-- The name of a component, empty where it has none. -/
def name : Component → FileName
  | named name => name
  | _ => []

/-- Components are compared by their kinds first, and then by their names. -/
theorem compare_eq_then (a b : Component) :
    a.compare b = (Ord.compare a.rank b.rank).then (a.name.compare b.name) := by
  cases a <;> cases b <;> simp [compare, rank, name] <;> rfl

theorem isLE_compare_iff {a b : Component} : (a.compare b).isLE = true ↔
    a.rank < b.rank ∨ a.rank = b.rank ∧ (a.name.compare b.name).isLE = true := by
  rw [compare_eq_then, Ordering.isLE_then_iff_or, Nat.compare_eq_lt, Nat.compare_eq_eq]

instance : TransCmp compare where
  eq_swap {a b} := by
    have hranks : Ord.compare a.rank b.rank = (Ord.compare b.rank a.rank).swap :=
      OrientedCmp.eq_swap
    have hnames : a.name.compare b.name = (b.name.compare a.name).swap := OrientedCmp.eq_swap
    rw [compare_eq_then, compare_eq_then, Ordering.swap_then, hranks, hnames]
  isLE_trans {a b c} hab hbc := by
    rw [isLE_compare_iff] at hab hbc ⊢
    rcases hab with hab | ⟨hab, habName⟩
    · exact Or.inl (by omega)
    · rcases hbc with hbc | ⟨hbc, hbcName⟩
      · exact Or.inl (by omega)
      · exact Or.inr ⟨hab.trans hbc, TransCmp.isLE_trans habName hbcName⟩

instance : LawfulEqCmp compare where
  eq_of_compare {a b} h := by
    rw [compare_eq_then, Ordering.then_eq_eq, Nat.compare_eq_eq] at h
    obtain ⟨hrank, hname⟩ := h
    have hname : a.name = b.name := LawfulEqCmp.eq_of_compare hname
    cases a <;> cases b <;> simp_all [rank, name]

end Component

namespace Path

variable {p q r : Path} {paths : List Path}

theorem compareComponents_eq (as bs : List Component) :
    compareComponents as bs = List.compareLex Component.compare as bs := by
  induction as generalizing bs with
  | nil => cases bs <;> rfl
  | cons a as ih =>
    cases bs with
    | nil => rfl
    | cons b bs => rw [compareComponents, ih, List.compareLex_cons_cons]

instance : TransCmp compare where
  eq_swap {p q} := by
    rw [compare, compare, compareComponents_eq, compareComponents_eq]
    exact OrientedCmp.eq_swap
  isLE_trans {p q r} hpq hqr := by
    rw [compare, compareComponents_eq] at *
    exact TransCmp.isLE_trans hpq hqr

theorem compare_eq_iff : p.compare q = .eq ↔ p.components = q.components := by
  rw [compare, compareComponents_eq, LawfulEqCmp.compare_eq_iff_eq]

theorem same_iff : p.same q = true ↔ p.components = q.components := by
  rw [same, beq_iff_eq]

theorem le_iff : p.le q = true ↔ (p.compare q).isLE = true := by
  rw [le]
  cases p.compare q <;> decide

theorem le_trans (p q r : Path) (hpq : p.le q = true) (hqr : q.le r = true) : p.le r = true := by
  rw [le_iff] at hpq hqr ⊢
  exact TransCmp.isLE_trans hpq hqr

theorem le_total (p q : Path) : (p.le q || q.le p) = true := by
  have hswap : q.compare p = (p.compare q).swap := OrientedCmp.eq_swap
  rw [Bool.or_eq_true, le_iff, le_iff, hswap]
  cases p.compare q <;> decide

theorem le_of_same (h : p.same q = true) : p.le q = true := by
  rw [le_iff, compare_eq_iff.mpr (same_iff.mp h)]
  decide

theorem compare_lt (hle : p.le q = true) (hne : ¬ p.same q = true) : p.compare q = .lt := by
  rw [le_iff] at hle
  rw [same_iff, ← compare_eq_iff] at hne
  cases h : p.compare q with
  | lt => rfl
  | eq => exact absurd h hne
  | gt =>
    rw [h] at hle
    cases hle

theorem components_ne_of_lt (h : p.compare q = .lt) : p.components ≠ q.components := by
  rw [Ne, ← compare_eq_iff, h]
  decide

/-! ## Leaving out what is the same -/

theorem eraseRepsBy_loop (p : Path) (paths acc : List Path) :
    List.eraseRepsBy.loop same p paths acc = acc.reverse ++ (p :: paths).eraseRepsBy same := by
  induction paths generalizing p acc with
  | nil => simp [List.eraseRepsBy, List.eraseRepsBy.loop]
  | cons q paths ih =>
    rw [List.eraseRepsBy, List.eraseRepsBy.loop, List.eraseRepsBy.loop]
    cases p.same q with
    | true => exact ih p acc
    | false =>
      simp only
      rw [ih, ih]
      simp

/-- A path is left out if it is the same as the one in front of it. -/
theorem eraseRepsBy_cons_cons (p q : Path) (paths : List Path) :
    (p :: q :: paths).eraseRepsBy same =
      if p.same q then (p :: paths).eraseRepsBy same else p :: (q :: paths).eraseRepsBy same := by
  rw [List.eraseRepsBy, List.eraseRepsBy.loop]
  cases p.same q with
  | true => rfl
  | false => exact eraseRepsBy_loop q paths [p]

theorem eraseRepsBy_sublist (p : Path) (paths : List Path) :
    ((p :: paths).eraseRepsBy same).Sublist (p :: paths) := by
  induction paths generalizing p with
  | nil => exact List.Sublist.refl _
  | cons q paths ih =>
    rw [eraseRepsBy_cons_cons]
    split_ifs
    · exact (ih p).trans ((List.sublist_cons_self q paths).cons_cons p)
    · exact (ih q).cons_cons p

/-- What is left of a sorted list increases strictly. -/
theorem pairwise_eraseRepsBy (h : paths.Pairwise fun p q => p.le q = true) :
    (paths.eraseRepsBy same).Pairwise fun p q => p.compare q = .lt := by
  cases paths with
  | nil => exact List.Pairwise.nil
  | cons p paths =>
    induction paths generalizing p with
    | nil => exact List.pairwise_singleton _ p
    | cons q paths ih =>
      rw [List.pairwise_cons] at h
      obtain ⟨hp, hrest⟩ := h
      rw [eraseRepsBy_cons_cons]
      split_ifs with hsame
      · -- the next path is left out, and those behind it are not before the one kept
        refine ih p (List.pairwise_cons.mpr ⟨fun r hr => hp r (List.mem_cons_of_mem q hr), ?_⟩)
        exact (List.pairwise_cons.mp hrest).2
      · have hlt : p.compare q = .lt := compare_lt (hp q List.mem_cons_self) hsame
        refine List.pairwise_cons.mpr ⟨fun r hr => ?_, ih q hrest⟩
        rcases List.mem_cons.mp ((eraseRepsBy_sublist q paths).subset hr) with rfl | hr
        · exact hlt
        · exact TransCmp.lt_of_lt_of_isLE hlt (le_iff.mp (List.rel_of_pairwise_cons hrest hr))

/-- The first path of each kind is kept. -/
theorem find?_eraseRepsBy (q : Path) (paths : List Path) :
    (paths.eraseRepsBy same).find? q.same = paths.find? q.same := by
  cases paths with
  | nil => rfl
  | cons p paths =>
    induction paths generalizing p with
    | nil => rfl
    | cons r paths ih =>
      rw [eraseRepsBy_cons_cons]
      split_ifs with hsame
      · -- the path that is left out is found if and only if the one in front of it is
        rw [ih p, List.find?_cons, List.find?_cons, List.find?_cons]
        have hr : q.same r = q.same p := by
          rw [Bool.eq_iff_iff, same_iff, same_iff, same_iff.mp hsame]
        rw [hr]
        cases q.same p <;> rfl
      · rw [List.find?_cons, List.find?_cons, ih r]

/-! ## Sorting -/

/-- Sorting keeps the order of paths that are the same. -/
theorem filter_mergeSort (q : Path) (paths : List Path) :
    (paths.mergeSort le).filter q.same = paths.filter q.same := by
  have hsorted : (paths.filter q.same).Pairwise fun p r => p.le r = true := by
    refine List.pairwise_of_forall_mem_list fun p hp r hr => le_of_same ?_
    have hp := (List.mem_filter.mp hp).2
    have hr := (List.mem_filter.mp hr).2
    rw [same_iff] at *
    exact hp.symm.trans hr
  have hsub := List.sublist_mergeSort le_trans le_total hsorted List.filter_sublist
  have hfilter := hsub.filter q.same
  rw [List.filter_filter] at hfilter
  simp only [Bool.and_self] at hfilter
  exact (hfilter.eq_of_length ((List.mergeSort_perm paths le).filter q.same).length_eq.symm).symm

theorem find?_mergeSort (q : Path) (paths : List Path) :
    (paths.mergeSort le).find? q.same = paths.find? q.same := by
  rw [← List.head?_filter, filter_mergeSort, List.head?_filter]

theorem pairwise_eraseRepsBy_mergeSort (paths : List Path) :
    ((paths.mergeSort le).eraseRepsBy same).Pairwise fun p q => p.compare q = .lt :=
  pairwise_eraseRepsBy (List.pairwise_mergeSort le_trans le_total paths)

theorem nodup_components (h : paths.Pairwise fun p q => p.compare q = .lt) :
    (paths.map components).Nodup :=
  List.pairwise_map.mpr (h.imp components_ne_of_lt)

/-- In a list that increases strictly, each path is the first of its kind. -/
theorem mem_iff_find? (h : paths.Pairwise fun p q => p.compare q = .lt) :
    q ∈ paths ↔ paths.find? q.same = some q := by
  constructor
  · intro hq
    cases hfind : paths.find? q.same with
    | none => exact absurd (same_iff.mpr rfl) (List.find?_eq_none.mp hfind q hq)
    | some p =>
      have hp := List.mem_of_find?_eq_some hfind
      have hsame := same_iff.mp (List.find?_some hfind)
      rw [List.inj_on_of_nodup_map (nodup_components h) hp hq hsame.symm]
  · exact List.mem_of_find?_eq_some

/-- Two lists that increase strictly and have the same components have them in the same order. -/
theorem map_components_eq {paths' : List Path} (h : paths.Pairwise fun p q => p.compare q = .lt)
    (h' : paths'.Pairwise fun p q => p.compare q = .lt)
    (hmem : ∀ p : Path, (∃ q ∈ paths, q.components = p.components) ↔
      ∃ q ∈ paths', q.components = p.components) :
    paths.map components = paths'.map components := by
  have hsorted : ∀ {paths : List Path}, (paths.Pairwise fun p q => p.compare q = .lt) →
      (paths.map components).Pairwise fun as bs => List.compareLex Component.compare as bs = .lt :=
    fun h => List.pairwise_map.mpr (h.imp fun hlt => by rwa [← compareComponents_eq])
  have hperm : (paths.map components).Perm (paths'.map components) := by
    rw [List.perm_ext_iff_of_nodup (nodup_components h) (nodup_components h')]
    intro c
    rw [List.mem_map, List.mem_map]
    constructor
    · rintro ⟨p, hp, rfl⟩
      exact (hmem p).mp ⟨p, hp, rfl⟩
    · rintro ⟨p, hp, rfl⟩
      exact (hmem p).mpr ⟨p, hp, rfl⟩
  refine hperm.eq_of_pairwise (fun as bs _ _ hlt hgt => ?_) (hsorted h) (hsorted h')
  exact absurd hgt (OrientedCmp.not_lt_of_lt hlt)

/-- A path is kept if no path in front of it has its components. -/
theorem mem_eraseRepsBy_mergeSort_iff :
    q ∈ (paths.mergeSort le).eraseRepsBy same ↔ paths.find? q.same = some q := by
  rw [mem_iff_find? (pairwise_eraseRepsBy_mergeSort paths), find?_eraseRepsBy, find?_mergeSort]

theorem exists_same_iff (p : Path) (paths : List Path) :
    (∃ q ∈ paths, q.components = p.components) ↔ (paths.find? p.same).isSome = true := by
  rw [List.find?_isSome]
  refine exists_congr fun q => and_congr_right fun _ => ?_
  rw [same_iff, eq_comm]

/-- Up to spelling, every path is kept. -/
theorem exists_mem_eraseRepsBy_mergeSort_iff :
    (∃ q ∈ (paths.mergeSort le).eraseRepsBy same, q.components = p.components) ↔
      ∃ q ∈ paths, q.components = p.components := by
  rw [exists_same_iff, exists_same_iff, find?_eraseRepsBy, find?_mergeSort]

/-! ## Lists that are sorted already -/

theorem eraseRepsBy_of_pairwise (h : paths.Pairwise fun p q => p.compare q = .lt) :
    paths.eraseRepsBy same = paths := by
  cases paths with
  | nil => rfl
  | cons p paths =>
    induction paths generalizing p with
    | nil => rfl
    | cons q paths ih =>
      rw [List.pairwise_cons] at h
      rcases h with ⟨hp, hrest⟩
      have hne : ¬ p.same q = true := by
        intro hsame
        exact components_ne_of_lt (hp q List.mem_cons_self) (same_iff.mp hsame)
      rw [eraseRepsBy_cons_cons, if_neg hne, ih q hrest]

/-- A list that increases strictly stays as it is. -/
theorem eraseRepsBy_mergeSort_of_pairwise (h : paths.Pairwise fun p q => p.compare q = .lt) :
    (paths.mergeSort le).eraseRepsBy same = paths := by
  have hsorted : paths.Pairwise fun p q => p.le q = true := by
    refine h.imp fun {p q} hlt => ?_
    rw [le_iff, hlt]
    decide
  rw [List.mergeSort_of_pairwise hsorted, eraseRepsBy_of_pairwise h]

end Path

end BlockScript
