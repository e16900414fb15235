import Vpux.IE.FoldTo4D

/-! When the fold to rank four keeps an element-wise operation: exactly when no dimension is passed
over because of a run that is over. -/
namespace Vpux.IE.ShapeTo4D
open Vpux.Const Data

instance (n : ℕ) (l : List Run) : Decidable (Advancing n l) :=
  inferInstanceAs (Decidable (List.IsChain _ l))

instance (n : ℕ) : (l : List Run) → Decidable (PassedOver n l)
  | [] => isFalse id
  | r :: rest => inferInstanceAs (Decidable (r.first = 0 ∧ ∀ j < n, r.last + 1 + j < n →
      ∃ x ∈ rest[j]?, x.last < r.last + 1 + j))

/-- The two shapes are the same, or every run ends behind the one in front of it, or all dimensions
behind the first run are passed over and the larger shape is split where the kind is the same. -/
def Mergeable (full plane : List ℕ) : Prop :=
  full = plane ∨ Advancing full.length (mergedRuns (Merges full plane) full.length) ∨
    PassedOver full.length (mergedRuns (Merges full plane) full.length) ∧
      ∀ dims ∈ getDimMapGeneric full, OneKind full plane dims

instance (full plane : List ℕ) : Decidable (Mergeable full plane) :=
  inferInstanceAs (Decidable (_ ∨ _ ∨ _ ∧ _))

variable {dims : List ℕ}

open List

section Settle

/-- What the switch on the number of merged dimensions makes of them. -/
inductive Settles (full : List ℕ) : MergeMap → MergeMap → Prop
  | generic (dims : List ℕ) : Settles full [dims] (getDimMapGeneric full)
  | second (first second : List ℕ) :
    Settles full [first, second] (first :: expandMapTo3D full second)
  | first (first second : List ℕ) :
    Settles full [first, second] (expandMapTo3D full first ++ [second])
  | direct (merged : MergeMap) (h : merged.length = 3 ∨ merged.length = 4) :
      Settles full merged merged

theorem settles_of_ok {s t : List ℕ} {groups : MergeMap} (hne : maxShape s t ≠ [])
    (h : getDimMergeMapWith2Inputs s t = .ok groups) :
    Settles (maxShape s t) (if maxShape s t = planeShape s t then [irange 0 (maxShape s t).length]
      else calculateMergeMap (maxShape s t) (planeShape s t)) groups := by
  rw [getDimMergeMapWith2Inputs] at h
  simp only at h
  rw [if_neg fun hempty => hne (isEmpty_iff.mp hempty.1)] at h
  generalize (if maxShape s t = planeShape s t then [irange 0 (maxShape s t).length]
      else calculateMergeMap (maxShape s t) (planeShape s t)) = merged at h ⊢
  split at h
  · obtain rfl := Except.ok.inj h
    exact .generic _
  · split_ifs at h
    · obtain rfl := Except.ok.inj h
      exact .second _ _
    · obtain rfl := Except.ok.inj h
      exact .first _ _
  · obtain rfl := Except.ok.inj h
    exact .direct _ (Or.inl rfl)
  · obtain rfl := Except.ok.inj h
    exact .direct _ (Or.inr rfl)
  · cases h

variable {full : List ℕ} {merged groups : MergeMap}

variable (h : Settles full merged groups)
include h

theorem Settles.length_le : groups.length ≤ 4 := by
  cases h with
  | generic dims => exact length_getDimMapGeneric_le full
  | second first second => exact Nat.le_succ 3
  | first first second => exact Nat.le_succ 3
  | direct _ h => omega

theorem Settles.flatten_eq (hmerged : merged.length ≠ 1) : groups.flatten = merged.flatten := by
  cases h with
  | generic dims => exact absurd rfl hmerged
  | second first second => rw [flatten_cons, flatten_expandMapTo3D]; simp
  | first first second => rw [flatten_append, flatten_expandMapTo3D]; simp
  | direct _ h => rfl

theorem Settles.exists_subset (hmerged : merged.length ≠ 1) (hdims : dims ∈ groups) :
    ∃ item ∈ merged, dims ⊆ item := by
  cases h with
  | generic dims => exact absurd rfl hmerged
  | second first second =>
    obtain rfl | hdims := mem_cons.mp hdims
    · exact ⟨dims, by simp, List.Subset.refl dims⟩
    · exact ⟨second, by simp, subset_of_mem_expandMapTo3D hdims⟩
  | first first second =>
    obtain hdims | hdims := mem_append.mp hdims
    · exact ⟨first, by simp, subset_of_mem_expandMapTo3D hdims⟩
    · exact ⟨second, by simp, by rw [mem_singleton.mp hdims]; exact List.Subset.refl second⟩
  | direct _ h => exact ⟨dims, hdims, List.Subset.refl dims⟩

theorem Settles.eq_generic (hmerged : merged.length = 1) : groups = getDimMapGeneric full := by
  cases h with
  | generic dims => rfl
  | second first second => cases hmerged
  | first first second => cases hmerged
  | direct _ h => omega

theorem Settles.eq_merged (hmerged : merged.length ≠ 1) (hgroups : groups.length = 4) :
    groups = merged := by
  cases h with
  | generic dims => exact absurd rfl hmerged
  | second first second => cases hgroups
  | first first second => cases hgroups
  | direct _ h => rfl

end Settle

section Kinds

variable {full plane : List ℕ}

theorem oneKind_singleton (h : Broadcasts full plane) (d : ℕ) : OneKind full plane [d] := by
  have hd : full.getD d 0 = plane.getD d 0 ∨ full.getD d 0 = 1 ∨ plane.getD d 0 = 1 := by
    have hlength := h.length_eq
    by_cases hlt : d < full.length
    · rw [getD_eq_getElem _ _ hlt, getD_eq_getElem _ _ (hlength ▸ hlt)]
      exact (forall₂_iff_get.mp h).2 d hlt (hlength ▸ hlt)
    · rw [getD_eq_default _ _ (by omega), getD_eq_default _ _ (by omega)]
      exact Or.inl rfl
  simpa [OneKind] using hd

theorem oneKind_of_merges {kind : Bool} (h : ∀ d ∈ dims, Merges full plane kind d) :
    OneKind full plane dims := by
  cases kind with
  | false => exact Or.inl h
  | true => exact Or.inr (Or.inr h)

theorem oneKind_of_mem_calculateMergeMap (h : Broadcasts full plane)
    (hdims : dims ∈ calculateMergeMap full plane) : OneKind full plane dims := by
  rw [calculateMergeMap_eq] at hdims
  obtain ⟨d, rfl⟩ | ⟨r, hr, hbounds⟩ := mem_groupsFrom hdims
  · exact oneKind_singleton h d
  · have hrun := mem_mergedRuns.mp hr
    exact oneKind_of_merges fun d hd => hrun.holds (hbounds d hd).1 (hbounds d hd).2

theorem bounds_of_mem_mergedRuns {r : Run}
    (hr : r ∈ mergedRuns (Merges full plane) full.length) :
    r.first < r.last ∧ r.last < full.length :=
  ⟨(mem_mergedRuns.mp hr).1, (mem_mergedRuns.mp hr).2.1⟩

theorem flatten_calculateMergeMap
    (h : Advancing full.length (mergedRuns (Merges full plane) full.length)) :
    (calculateMergeMap full plane).flatten = List.range full.length := by
  rw [calculateMergeMap_eq, flatten_groupsFrom (fun r hr => by
    obtain ⟨hlt, hn⟩ := bounds_of_mem_mergedRuns hr
    exact ⟨hlt.le, hn⟩) h fun r _ _ => Nat.zero_le r.last, Nat.sub_zero, range_eq_range']

variable {g₀ g₁ g₂ g₃ : List ℕ}

section

variable (hfull : ∀ a ∈ full, 0 < a) (hplane : ∀ a ∈ plane, 0 < a)
  (hlength : full.length = plane.length)
include hfull hplane hlength

theorem merges_of_not_matters {d : ℕ} (hd : d < full.length) (h : ¬Matters full plane d)
    (kind : Bool) : Merges full plane kind d := by
  have hpos := getD_pos hfull hd
  have hpos' := getD_pos hplane (hlength ▸ hd)
  rw [Matters] at h
  cases kind with
  | false =>
    change full.getD d 0 = plane.getD d 0
    omega
  | true =>
    change plane.getD d 0 = 1
    omega

/-- Of four merged groups the last two do not both hold nothing that matters. -/
theorem exists_matters_of_advancing
    (h : Advancing full.length (mergedRuns (Merges full plane) full.length))
    (hgroups : calculateMergeMap full plane = [g₀, g₁, g₂, g₃]) :
    ∃ d ∈ g₂ ++ g₃, Matters full plane d := by
  by_contra hnone
  have hflatten := flatten_calculateMergeMap h
  rw [hgroups] at hflatten
  have hmem : ∀ d, d < full.length ↔ d ∈ g₀ ∨ d ∈ g₁ ∨ d ∈ g₂ ∨ d ∈ g₃ := by
    intro d
    rw [← mem_range, ← hflatten]
    simp
  have hsorted : ([g₀, g₁, g₂, g₃].flatten).Pairwise (· < ·) := by
    rw [hflatten]
    exact pairwise_lt_range
  simp only [flatten_cons, flatten_nil, append_nil, pairwise_append,
    mem_append] at hsorted
  obtain ⟨-, ⟨-, ⟨-, -, hlast⟩, hone⟩, hzero⟩ := hsorted
  rw [calculateMergeMap_eq] at hgroups
  have hne : ∀ g ∈ [g₀, g₁, g₂, g₃], g ≠ [] := fun g hg => ne_nil_of_mem_groupsFrom (hgroups ▸ hg)
  obtain ⟨d, hd⟩ := exists_mem_of_ne_nil g₂ (hne g₂ (by simp))
  obtain ⟨e, he⟩ := exists_mem_of_ne_nil g₃ (hne g₃ (by simp))
  have hde : d < e := hlast d hd e he
  have hen : e < full.length := (hmem e).mpr (Or.inr (Or.inr (Or.inr he)))
  have hboth : ∀ j, d ≤ j → j < full.length → ∀ kind, Merges full plane kind j := by
    intro j hj hjn
    apply merges_of_not_matters hfull hplane hlength hjn
    intro hmatters
    apply hnone
    refine ⟨j, ?_, hmatters⟩
    rw [mem_append]
    obtain hmem | hmem | hmem := (hmem j).mp hjn
    · have := hzero j hmem d (Or.inr (Or.inl hd))
      omega
    · have := hone j hmem d (Or.inl hd)
      omega
    · exact hmem
  have hend := last_mem_of_mem_groupsFrom (fun r hr => mem_mergedRuns.mp hr) pairwise_mergedRuns
    (fun r hr _ _ => mem_mergedRuns.mpr hr) (hgroups ▸ (by simp : g₂ ∈ [g₀, g₁, g₂, g₃])) hd
    (by omega) hboth
  have := hlast _ hend e he
  omega

theorem cover_getDimMapGeneric (hle : plane.prod ≤ full.prod) :
    Cover full plane (getDimMapGeneric full) := by
  obtain hall | ⟨hnil, hone⟩ := flatten_getDimMapGeneric full
  · refine ⟨fun d hd => ?_, by rw [hall]⟩
    rw [hall] at hd
    exact mem_range.mp hd
  · have hones : ∀ a ∈ full, a = 1 := fun a ha => Nat.le_antisymm (hone a ha) (hfull a ha)
    have hprod : full.prod = 1 := prod_eq_one hones
    refine ⟨by simp [hnil], ?_⟩
    rw [hnil, flatten_nil, filter_nil, eq_comm, filter_eq_nil_iff]
    intro d hd
    have hd := mem_range.mp hd
    have hdvd : plane.getD d 0 ∣ plane.prod := by
      rw [getD_eq_getElem _ _ (hlength ▸ hd)]
      exact dvd_prod (getElem_mem _)
    have hsmall := Nat.le_of_dvd (prod_pos hplane) hdvd
    have hfulld : full.getD d 0 = 1 := by
      rw [getD_eq_getElem _ _ hd]
      exact hones _ (getElem_mem hd)
    intro hmatters
    have hmatters := of_decide_eq_true hmatters
    rw [Matters] at hmatters
    omega

end

theorem eq_getTrivialMap_of_length (h : getDimMapGeneric full = [g₀, g₁, g₂, g₃]) :
    full.length = 4 ∧ g₀ = [0] ∧ g₁ = [1] := by
  rw [getDimMapGeneric, getDimMapWithFirstGreater1DimAsC] at h
  split_ifs at h
  · split at h <;> simp at h
  · have hlength := congrArg List.length h
    rw [getTrivialMap, length_map, length_range] at hlength
    have hlength : full.length = 4 := hlength
    rw [hlength] at h
    simp only [getTrivialMap, range_succ, range_zero, map_nil,
      map_cons, nil_append, cons_append, List.cons.injEq] at h
    exact ⟨hlength, h.1.symm, h.2.1.symm⟩

end Kinds

section Exact

variable {full plane : List ℕ} {groups : MergeMap}

theorem exists_front_of_passedOver
    (h : PassedOver full.length (mergedRuns (Merges full plane) full.length)) :
    ∃ r ∈ mergedRuns (Merges full plane) full.length, r.first = 0 := by
  cases hruns : mergedRuns (Merges full plane) full.length with
  | nil => simp [hruns, PassedOver] at h
  | cons r rest =>
    rw [hruns] at h
    exact ⟨r, mem_cons_self, h.1⟩

section Advance

variable (hbroadcasts : Broadcasts full plane) (hfull : ∀ a ∈ full, 0 < a)
  (hplane : ∀ a ∈ plane, 0 < a)

include hbroadcasts hfull hplane

section

variable (hle : plane.prod ≤ full.prod)
include hle

theorem foldable_of_advancing
    (h : Advancing full.length (mergedRuns (Merges full plane) full.length))
    (hsettles : Settles full (calculateMergeMap full plane) groups) :
    Foldable full plane groups := by
  have hlength := hbroadcasts.length_eq
  have hflatten := flatten_calculateMergeMap h
  have hkinds : ∀ dims ∈ calculateMergeMap full plane, OneKind full plane dims :=
    fun dims => oneKind_of_mem_calculateMergeMap hbroadcasts
  by_cases hone : (calculateMergeMap full plane).length = 1
  · obtain rfl := hsettles.eq_generic hone
    have hcover := cover_getDimMapGeneric hfull hplane hlength hle
    obtain ⟨all, hall⟩ := length_eq_one_iff.mp hone
    have hkind : OneKind full plane all := hkinds all (by rw [hall]; exact mem_singleton_self all)
    rw [hall, flatten_singleton] at hflatten
    have hsub : ∀ dims : List ℕ, (∀ d ∈ dims, d ∈ (getDimMapGeneric full).flatten) →
        OneKind full plane dims := by
      intro dims hdims
      apply hkind.subset
      intro d hd
      rw [hflatten]
      exact mem_range.mpr (hcover.inside d (hdims d hd))
    refine ⟨length_getDimMapGeneric_le full, hcover, fun dims hdims => hsub dims fun d hd =>
      mem_flatten_of_mem hdims hd, fun g₀ g₁ g₂ g₃ heq _ => hsub (g₀ ++ g₁) fun d hd => ?_⟩
    rw [heq]
    obtain hd | hd := mem_append.mp hd <;> simp [hd]
  · have hgroups := hsettles.flatten_eq hone
    refine ⟨hsettles.length_le, ⟨?_, by rw [hgroups, hflatten]⟩, ?_, ?_⟩
    · intro d hd
      rw [hgroups, hflatten] at hd
      exact mem_range.mp hd
    · intro dims hdims
      obtain ⟨item, hitem, hsub⟩ := hsettles.exists_subset hone hdims
      exact (hkinds item hitem).subset hsub
    · intro g₀ g₁ g₂ g₃ heq hnone
      have hmerged := hsettles.eq_merged hone (by rw [heq]; rfl)
      obtain ⟨d, hd, hmatters⟩ :=
        exists_matters_of_advancing hfull hplane hlength h (hmerged ▸ heq)
      exact absurd hmatters (hnone d hd)

theorem foldable_of_passedOver
    (h : PassedOver full.length (mergedRuns (Merges full plane) full.length))
    (hone : ∀ dims ∈ getDimMapGeneric full, OneKind full plane dims)
    (hsettles : Settles full (calculateMergeMap full plane) groups) :
    Foldable full plane groups := by
  obtain ⟨r, hr, hfirst⟩ := exists_front_of_passedOver h
  obtain ⟨hlt, hlast⟩ := bounds_of_mem_mergedRuns hr
  rw [calculateMergeMap_eq] at hsettles
  obtain rfl := hsettles.eq_generic ((length_groupsFrom_eq_one_iff (by omega)
    fun r hr => bounds_of_mem_mergedRuns hr).mpr h)
  refine ⟨length_getDimMapGeneric_le full,
    cover_getDimMapGeneric hfull hplane hbroadcasts.length_eq hle, hone, ?_⟩
  intro g₀ g₁ g₂ g₃ heq _
  obtain ⟨-, rfl, rfl⟩ := eq_getTrivialMap_of_length heq
  apply oneKind_of_merges
  intro d hd
  have hd : d < 2 := by simp at hd; omega
  exact (mem_mergedRuns.mp hr).holds (by omega) (by omega)

theorem foldable_of_mergeable
    (hsettles : Settles full (if full = plane then [irange 0 full.length] else calculateMergeMap
      full plane) groups)
    (h : Mergeable full plane) :
    Foldable full plane groups := by
  by_cases hsame : full = plane
  · subst hsame
    rw [if_pos rfl] at hsettles
    have hkind : ∀ dims, OneKind full full dims := fun dims => Or.inl fun d _ => rfl
    obtain rfl := hsettles.eq_generic rfl
    exact ⟨length_getDimMapGeneric_le full, cover_getDimMapGeneric hfull hplane rfl hle,
      fun dims _ => hkind dims, fun g₀ g₁ _ _ _ _ => hkind (g₀ ++ g₁)⟩
  · rw [if_neg hsame] at hsettles
    obtain hadvancing | ⟨hpassed, hone⟩ := h.resolve_left hsame
    · exact foldable_of_advancing hbroadcasts hfull hplane hle hadvancing hsettles
    · exact foldable_of_passedOver hbroadcasts hfull hplane hle hpassed hone hsettles

end

/-- The dimension behind a run is lost when the next run is over. -/
theorem mergeable_of_dims (hne : full ≠ [])
    (hsettles : Settles full (if full = plane then [irange 0 full.length]
      else calculateMergeMap full plane) groups)
    (hdims : groups.flatten.filter (Matters full plane ·) =
      (List.range full.length).filter (Matters full plane ·))
    (hone : ∀ dims ∈ groups, OneKind full plane dims) : Mergeable full plane := by
  by_cases hsame : full = plane
  · exact Or.inl hsame
  rw [if_neg hsame, calculateMergeMap_eq] at hsettles
  by_cases hadvancing : Advancing full.length (mergedRuns (Merges full plane) full.length)
  · exact Or.inr (Or.inl hadvancing)
  obtain ⟨r, hr, -, hn, hnot⟩ := exists_notMem_groupsFrom (fun r hr => by
    obtain ⟨hlt, hn⟩ := bounds_of_mem_mergedRuns hr
    exact ⟨hlt.le, hn⟩) pairwise_mergedRuns (length_pos_iff.mpr hne)
    (fun r _ => Nat.zero_le r.last) hadvancing
  by_cases hlength :
    (groupsFrom full.length 0 (mergedRuns (Merges full plane) full.length)).length = 1
  · have hpassed := (length_groupsFrom_eq_one_iff (by omega)
      fun r hr => bounds_of_mem_mergedRuns hr).mp hlength
    rw [hsettles.eq_generic hlength] at hone
    exact Or.inr (Or.inr ⟨hpassed, hone⟩)
  · have hmatters : Matters full plane (r.last + 1) := by
      by_contra hnot
      have hmerges := merges_of_not_matters hfull hplane hbroadcasts.length_eq hn hnot r.kind
      obtain hend | hbehind := (mem_mergedRuns.mp hr).2.2.2.2
      · omega
      · exact hbehind hmerges
    have hmem : r.last + 1 ∈ groups.flatten.filter (Matters full plane ·) := by
      rw [hdims, mem_filter]
      exact ⟨mem_range.mpr hn, decide_eq_true hmatters⟩
    rw [hsettles.flatten_eq hlength, mem_filter] at hmem
    exact absurd hmem.1 hnot

end Advance

/-- The fold keeps the operation exactly when the merge passes over no dimension, or over all. -/
theorem preserved_iff_mergeable {s t : List ℕ} (hs : ∀ a ∈ s, 0 < a) (ht : ∀ a ∈ t, 0 < a)
    (h : Broadcasts s t) (hne : s ≠ []) (hmap : getDimMergeMapWith2Inputs s t = .ok groups) :
    Preserved s t ↔ Mergeable (maxShape s t) (planeShape s t) := by
  have hlength := h.length_eq
  have hne' : t ≠ [] := by
    intro heq
    rw [heq, List.length_nil, List.length_eq_zero_iff] at hlength
    exact hne hlength
  have hsettles := fun hmax => settles_of_ok hmax hmap
  have hfolds := fun (hle : groups.length ≤ 4) (hpreserved : Preserved s t) =>
    hpreserved.folds hlength hmap hle
  by_cases hlarger : t.prod < s.prod
  · rw [maxShape, planeShape, if_pos hlarger, if_pos hlarger] at hsettles ⊢
    have hsettles := hsettles hne
    constructor
    · intro hpreserved
      have hfolds := hfolds hsettles.length_le hpreserved
      exact mergeable_of_dims h hs ht hne hsettles hfolds.dims (hfolds.oneKind hs ht hlength)
    · intro hmergeable
      exact (foldable_of_mergeable h hs ht hlarger.le hsettles hmergeable).preserved hs ht hlength
        hmap
  · rw [maxShape, planeShape, if_neg hlarger, if_neg hlarger] at hsettles ⊢
    have hsettles := hsettles hne'
    constructor
    · intro hpreserved
      have hfolds := hfolds hsettles.length_le hpreserved
      apply mergeable_of_dims h.symm ht hs hne' hsettles
      · rw [filter_matters_comm t s, filter_matters_comm t s, ← hlength]
        exact hfolds.dims
      · exact fun dims hdims => (hfolds.oneKind hs ht hlength dims hdims).symm
    · intro hmergeable
      have hfoldable := foldable_of_mergeable h.symm ht hs (Nat.le_of_not_lt hlarger) hsettles
          hmergeable
      exact (hfoldable.symm hlength.symm).preserved hs ht hlength hmap

theorem mergedRuns_plane : mergedRuns (Merges [4, 3, 13, 13, 2] [1, 1, 13, 13, 2]) 5 =
    [⟨true, 0, 1⟩, ⟨false, 2, 4⟩] := by
  have hplane : runsOf true (Merges [4, 3, 13, 13, 2] [1, 1, 13, 13, 2] true) 5 =
      [⟨true, 0, 1⟩] := by
    decide
  have hsame : runsOf false (Merges [4, 3, 13, 13, 2] [1, 1, 13, 13, 2] false) 5 =
      [⟨false, 2, 4⟩] := by
    decide
  rw [mergedRuns, hplane, hsame, cons_merge_cons_pos _ _ _ (by decide), nil_merge]

theorem preserved_plane : Preserved [4, 3, 13, 13, 2] [1, 1, 13, 13, 2] := by
  have hmap : getDimMergeMapWith2Inputs [4, 3, 13, 13, 2] [1, 1, 13, 13, 2] =
      .ok [[0, 1], [2], [3, 4]] := by rfl
  have hmergeable : Mergeable [4, 3, 13, 13, 2] [1, 1, 13, 13, 2] := by
    right
    left
    rw [show [4, 3, 13, 13, 2].length = 5 from rfl, mergedRuns_plane]
    decide
  exact (preserved_iff_mergeable (by decide) (by decide) (by decide) (by decide) hmap).mpr
    hmergeable

/-- The run of the planes is over when that of the equal dimensions is: the fourth one is lost. -/
theorem not_preserved_of_nested :
    getDimMergeMapWith2Inputs [1, 1, 1, 1, 9] [1, 1, 1, 7, 1] = .ok [[0, 1, 2], [], [4]] ∧
      ¬Preserved [1, 1, 1, 1, 9] [1, 1, 1, 7, 1] := by
  have hmap : getDimMergeMapWith2Inputs [1, 1, 1, 1, 9] [1, 1, 1, 7, 1] =
      .ok [[0, 1, 2], [], [4]] := by rfl
  constructor
  · exact hmap
  · intro hpreserved
    have hdims := (hpreserved.folds rfl hmap (by decide)).dims
    revert hdims
    decide

end Exact

end Vpux.IE.ShapeTo4D
