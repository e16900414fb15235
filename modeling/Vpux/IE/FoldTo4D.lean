import Mathlib.Tactic.IntervalCases
import Vpux.IE.MergeRuns

/-! What groups of dimensions of one kind become as shapes of rank four. -/
namespace Vpux.IE.ShapeTo4D
open Vpux.Const Data List

section Maps

theorem balance_le (passes : ℕ) (shape : List ℕ) (dimH dimW dimIndex : ℕ) :
    balance passes shape dimH dimW dimIndex ≤ dimIndex + passes := by
  induction passes generalizing shape dimH dimW dimIndex with
  | zero => exact Nat.le_refl dimIndex
  | succ passes ih =>
    rw [balance]
    split_ifs
    · exact Nat.le_add_right _ _
    · exact (ih _ _ _ _).trans (by omega)
    · exact (ih _ _ _ _).trans (by omega)

theorem getBalancedDimIndexFromShape_le (shape : List ℕ) :
    getBalancedDimIndexFromShape shape ≤ shape.length :=
  (balance_le _ _ _ _ _).trans (by omega)

theorem flatten_expandMapTo3D (maxShape item : List ℕ) : (expandMapTo3D maxShape item).flatten =
    item := by
  simp [expandMapTo3D]

theorem subset_of_mem_expandMapTo3D {maxShape item dims : List ℕ}
    (h : dims ∈ expandMapTo3D maxShape item) : dims ⊆ item := by
  intro d hd
  rw [← flatten_expandMapTo3D maxShape item]
  exact mem_flatten_of_mem h hd

theorem flatten_getTrivialMap (size : ℕ) : (getTrivialMap size).flatten = List.range size := by
  rw [getTrivialMap, ← flatMap_def, flatMap_singleton']

theorem flatten_getDimMapGeneric (shape : List ℕ) :
    (getDimMapGeneric shape).flatten = List.range shape.length ∨
      getDimMapGeneric shape = [] ∧ ∀ a ∈ shape, a ≤ 1 := by
  rw [getDimMapGeneric]
  split_ifs
  · rw [getDimMapWithFirstGreater1DimAsC]
    cases hfind : shape.findIdx? (1 < ·) with
    | none =>
      right
      refine ⟨rfl, fun a ha => ?_⟩
      simpa using findIdx?_eq_none_iff.mp hfind a ha
    | some first =>
      left
      have hfirst : first < shape.length := by
        obtain ⟨h, -⟩ := findIdx?_eq_some_iff_getElem.mp hfind
        exact h
      have hbalanced := getBalancedDimIndexFromShape_le (shape.drop (first + 1))
      rw [length_drop] at hbalanced
      simp only
      generalize getBalancedDimIndexFromShape (shape.drop (first + 1)) = k at hbalanced ⊢
      have hfront : List.range' 0 (first + 1) ++ List.range' (first + 1) k =
          List.range' 0 (first + 1 + k) := by
        simpa using range'_append_1 (s := 0) (m := first + 1) (n := k)
      have hall : List.range' 0 (first + 1 + k) ++
          List.range' (first + 1 + k) (shape.length - (first + 1 + k)) =
            List.range shape.length := by
        rw [range_eq_range', ← Nat.add_sub_cancel' (show first + 1 + k ≤ shape.length by omega)]
        simpa using range'_append_1 (s := 0) (m := first + 1 + k)
      simp only [irange, flatten_cons, flatten_nil, append_nil, Nat.sub_zero,
        Nat.add_comm k, Nat.add_sub_cancel_left]
      rw [← append_assoc, hfront, hall]
  · exact Or.inl (flatten_getTrivialMap shape.length)

theorem length_getDimMapGeneric_le (shape : List ℕ) : (getDimMapGeneric shape).length ≤ 4 := by
  rw [getDimMapGeneric, getDimMapWithFirstGreater1DimAsC]
  split_ifs with hrank
  · split
    · exact Nat.zero_le 4
    · exact Nat.le_succ 3
  · rw [getTrivialMap, length_map, length_range]
    exact Nat.le_of_not_lt hrank

end Maps

section Fold

variable {s t : List ℕ} {groups : MergeMap}

/-- At most four groups of one kind that hold what matters; where the last two of four hold nothing
that matters, the first two could be one. -/
structure Foldable (s t : List ℕ) (groups : MergeMap) : Prop where
  length_le : groups.length ≤ 4
  cover : Cover s t groups
  oneKind : ∀ dims ∈ groups, OneKind s t dims
  leading : ∀ g₀ g₁ g₂ g₃, groups = [g₀, g₁, g₂, g₃] → (∀ d ∈ g₂ ++ g₃, ¬Matters s t d) →
    OneKind s t (g₀ ++ g₁)

theorem Foldable.symm (h : Foldable s t groups) (hlength : s.length = t.length) :
    Foldable t s groups := by
  refine ⟨h.length_le, h.cover.symm hlength, fun dims hg => (h.oneKind dims hg).symm, ?_⟩
  intro g₀ g₁ g₂ g₃ heq hrest
  exact (h.leading g₀ g₁ g₂ g₃ heq fun d hd hmatters => hrest d hd hmatters.symm).symm

/-- The shape with leading ones. -/
def aligned (s : List ℕ) (groups : MergeMap) : List ℕ :=
  List.replicate (4 - groups.length) 1 ++ groupShape s groups

theorem alignShapeTo4D_eq (s : List ℕ) (h : groups.length ≤ 4) :
    alignShapeTo4D s groups = .ok (aligned s groups) := by
  have hlength : (groupShape s groups).length ≤ TARGET_TENSOR_DIM := by
    rw [groupShape, length_map]
    exact h
  rw [alignShapeTo4D, alignShapeToReferenceShapeSize, alignShapeWithDimMap, throwUnless,
    if_pos hlength, aligned, groupShape, length_map]
  rfl

/-- The four groups, the leading ones being empty. -/
def padded (groups : MergeMap) : MergeMap := List.replicate (4 - groups.length) [] ++ groups

theorem groupShape_padded (s : List ℕ) (groups : MergeMap) : groupShape s (padded groups) =
    aligned s groups := by
  rw [padded, groupShape, map_append, map_replicate]
  rfl

theorem flatten_padded (groups : MergeMap) : (padded groups).flatten = groups.flatten := by
  rw [padded, flatten_append, flatten_replicate_nil, nil_append]

theorem exists_padded (h : groups.length ≤ 4) : ∃ g₀ g₁ g₂ g₃, padded groups =
    [g₀, g₁, g₂, g₃] := by
  have hlength : (padded groups).length = 4 := by
    rw [padded, length_append, length_replicate]
    omega
  exact length_eq_four.mp hlength

section

variable (hs : ∀ a ∈ s, 0 < a) (ht : ∀ a ∈ t, 0 < a) (hlength : s.length = t.length)
  (hcover : Cover s t groups)
include hs ht hlength hcover

theorem groupShape_broadcast (hone : ∀ dims ∈ groups, OneKind s t dims) :
    groupShape (broadcast s t) groups = broadcast (groupShape s groups) (groupShape t groups) := by
  conv_rhs => rw [broadcast, groupShape, groupShape, zipWith_map, zipWith_self]
  apply map_congr_left
  intro dims hdims
  have hlt : ∀ d ∈ dims, d < s.length := fun d hd => hcover.inside d (mem_flatten_of_mem hdims hd)
  rw [max_prod_select (hone dims hdims) (fun d hd => getD_pos hs (hlt d hd))
    fun d hd => getD_pos ht (hlength ▸ hlt d hd), select]
  congr 1
  apply map_congr_left
  intro d hd
  have hd' := hlt d hd
  simp [broadcast, hd', hlength ▸ hd']

theorem aligned_broadcast (hone : ∀ dims ∈ groups, OneKind s t dims) :
    aligned (broadcast s t) groups = broadcast (aligned s groups) (aligned t groups) := by
  rw [aligned, groupShape_broadcast hs ht hlength hcover hone, aligned, aligned, broadcast,
    broadcast,
    zipWith_append (by simp), zipWith_replicate']
  rfl

end

theorem filter_eq_nil_of_prod_le_one {dims : List ℕ} (hs : ∀ d ∈ dims, 0 < s.getD d 0)
    (ht : ∀ d ∈ dims, 0 < t.getD d 0) (hprod : ¬1 < (select s dims).prod)
    (hprod' : ¬1 < (select t dims).prod) : dims.filter (Matters s t ·) = [] := by
  have hone : ∀ u : List ℕ, (∀ d ∈ dims, 0 < u.getD d 0) → ¬1 < (select u dims).prod →
      ∀ d ∈ dims, ¬1 < u.getD d 0 := by
    intro u hu hle d hd
    have hpos : 0 < (select u dims).prod := prod_pos_of_mem hu
    have hdvd : u.getD d 0 ∣ (select u dims).prod := dvd_prod (mem_map_of_mem hd)
    have := Nat.le_of_dvd hpos hdvd
    omega
  rw [filter_eq_nil_iff]
  intro d hd hmatters
  exact (of_decide_eq_true hmatters).elim (hone s hs hprod d hd) (hone t ht hprod' d hd)

variable {g₀ g₁ g₂ g₃ : List ℕ}

theorem filter_swapEntries {i : ℕ} (hi : i < 4) (hne : i ≠ 1) (p : ℕ → Bool)
    (hbefore : ∀ g ∈ [g₀, g₁, g₂, g₃].take i, g.filter p = []) (hzero : i = 0 → g₁.filter p = []) :
    (swapEntries [g₀, g₁, g₂, g₃] 1 i []).flatten.filter p = [g₀, g₁, g₂, g₃].flatten.filter p := by
  interval_cases i
  · simp [swapEntries, hzero rfl]
  · exact absurd rfl hne
  · simp only [take_succ_cons, take_zero, forall_mem_cons] at hbefore
    simp [swapEntries, hbefore]
  · simp only [take_succ_cons, take_zero, forall_mem_cons] at hbefore
    simp [swapEntries, hbefore]

theorem mem_of_mem_swapEntries {g₀ g₁ g₂ g₃ g : List ℕ} {i : ℕ} (hi : i < 4)
    (h : g ∈ swapEntries [g₀, g₁, g₂, g₃] 1 i []) : g ∈ [g₀, g₁, g₂, g₃] := by
  interval_cases i <;> simp [swapEntries] at h ⊢ <;> tauto

theorem groupShape_swapEntries (s g₀ g₁ g₂ g₃ : List ℕ) {i : ℕ} (hi : i < 4) :
    groupShape s (swapEntries [g₀, g₁, g₂, g₃] 1 i []) =
      swapEntries (groupShape s [g₀, g₁, g₂, g₃]) 1 i 0 := by
  interval_cases i <;> rfl

/-- With one dimension of more than one element in each shape, those of the first two are not both
among the first two groups. -/
theorem Foldable.second_trivial (h : Foldable s t groups) (hs : ∀ a ∈ s, 0 < a)
    (ht : ∀ a ∈ t, 0 < a) (hlength : s.length = t.length) (hp : padded groups = [g₀, g₁, g₂, g₃])
    (hcount : (aligned s groups).countP (1 < ·) ≤ 1)
    (hcount' : (aligned t groups).countP (1 < ·) ≤ 1) (hfirst : 1 < (select s g₀).prod) :
    g₁.filter (Matters s t ·) = [] := by
  have hlt : ∀ g ∈ [g₀, g₁, g₂, g₃], ∀ d ∈ g, 0 < s.getD d 0 ∧ 0 < t.getD d 0 := by
    intro g hg d hd
    have hd : d < s.length := h.cover.inside d (by
      rw [← flatten_padded, hp]
      exact mem_flatten_of_mem hg hd)
    exact ⟨getD_pos hs hd, getD_pos ht (hlength ▸ hd)⟩
  have htrivial : ∀ g ∈ [g₀, g₁, g₂, g₃], ¬1 < (select s g).prod → ¬1 < (select t g).prod →
      g.filter (Matters s t ·) = [] := fun g hg =>
    filter_eq_nil_of_prod_le_one (fun d hd => (hlt g hg d hd).1) fun d hd => (hlt g hg d hd).2
  rw [← groupShape_padded, hp] at hcount hcount'
  simp only [groupShape, map_cons, map_nil, countP_cons, countP_nil,
    decide_eq_true_eq] at hcount hcount'
  have hrest : ¬1 < (select s g₁).prod ∧ ¬1 < (select s g₂).prod ∧ ¬1 < (select s g₃).prod := by
    rw [if_pos hfirst] at hcount
    refine ⟨fun hlarge => ?_, fun hlarge => ?_, fun hlarge => ?_⟩ <;>
      · rw [if_pos hlarge] at hcount
        omega
  apply htrivial g₁ (by simp) hrest.1
  intro hsecond
  have hrest' : ¬1 < (select t g₀).prod ∧ ¬1 < (select t g₂).prod ∧ ¬1 < (select t g₃).prod := by
    rw [if_pos hsecond] at hcount'
    refine ⟨fun hlarge => ?_, fun hlarge => ?_, fun hlarge => ?_⟩ <;>
      · rw [if_pos hlarge] at hcount'
        omega
  have hgroups : groups = [g₀, g₁, g₂, g₃] := by
    rw [padded] at hp
    cases hk : 4 - groups.length with
    | zero => simpa [hk] using hp
    | succ k =>
      rw [hk, replicate_succ, cons_append] at hp
      obtain ⟨rfl, -⟩ := List.cons.inj hp
      simp [select] at hfirst
  have hkind := h.leading g₀ g₁ g₂ g₃ hgroups (by
    have hlast : (g₂ ++ g₃).filter (Matters s t ·) = [] := by
      rw [filter_append, htrivial g₂ (by simp) hrest.2.1 hrest'.2.1,
        htrivial g₃ (by simp) hrest.2.2 hrest'.2.2]
      rfl
    intro d hd hmatters
    exact filter_eq_nil_iff.mp hlast d hd (decide_eq_true hmatters))
  obtain hsame | hone | hone := hkind
  · have hselect : select s g₀ = select t g₀ :=
      map_congr_left fun d hd => hsame d (mem_append_left g₁ hd)
    exact hrest'.1 (hselect ▸ hfirst)
  · have := prod_select_eq_one fun d hd => hone d (mem_append_left g₁ hd)
    omega
  · have := prod_select_eq_one fun d hd => hone d (mem_append_right g₀ hd)
    omega

theorem findIdx_lt_of_countP {shape : List ℕ} (h : shape.countP (1 < ·) ≠ 0) :
    shape.findIdx (1 < ·) < shape.length := by
  obtain ⟨a, ha, hlt⟩ := countP_pos_iff.mp (Nat.pos_of_ne_zero h)
  exact findIdx_lt_length_of_exists ⟨a, ha, hlt⟩

theorem exists_tryAndConvert2NCEShape (h : Foldable s t groups) (hs : ∀ a ∈ s, 0 < a)
    (ht : ∀ a ∈ t, 0 < a) (hlength : s.length = t.length) : ∃ groups',
    tryAndConvert2NCEShape (aligned s groups) (aligned t groups) groups =
      (aligned s groups', aligned t groups', groups') ∧ groups'.length ≤ 4 ∧ Cover s t groups' ∧
      ∀ dims ∈ groups', OneKind s t dims := by
  rw [tryAndConvert2NCEShape]
  by_cases hcounts : (1 < (aligned s groups).countP (1 < ·) ∨ 1 <
    (aligned t groups).countP (1 < ·)) ∨
      ((aligned s groups).countP (1 < ·) = 0 ∧ (aligned t groups).countP (1 < ·) = 0)
  · exact ⟨groups, if_pos hcounts, h.length_le, h.cover, h.oneKind⟩
  rw [if_neg hcounts]
  simp only [not_or, not_and_or, Nat.not_lt] at hcounts
  obtain ⟨⟨hcount, hcount'⟩, hsome⟩ := hcounts
  obtain ⟨g₀, g₁, g₂, g₃, hp⟩ := exists_padded h.length_le
  have hshape : ∀ u, aligned u groups = groupShape u [g₀, g₁, g₂, g₃] := by
    intro u
    rw [← groupShape_padded, hp]
  have hpadded : (if groups.length < 4 then List.replicate (4 - groups.length) [] ++ groups
      else groups) = [g₀, g₁, g₂, g₃] := by
    rw [← hp, padded]
    split_ifs with hlt
    · rfl
    · rw [Nat.sub_eq_zero_of_le (Nat.le_of_not_lt hlt)]
      rfl
  obtain ⟨i, hi⟩ : ∃ i, i = if (aligned s groups).findIdx (1 < ·) ≤
      (aligned t groups).findIdx (1 < ·)
      then (aligned s groups).findIdx (1 < ·) else (aligned t groups).findIdx (1 < ·) := ⟨_, rfl⟩
  rw [← hi, hpadded]
  by_cases hchannels : i = 1
  · exact ⟨groups, if_pos hchannels, h.length_le, h.cover, h.oneKind⟩
  rw [if_neg hchannels]
  have hle : ∀ u, u = s ∨ u = t → i ≤ (aligned u groups).findIdx (1 < ·) := by
    rintro u (rfl | rfl) <;> · rw [hi]; split_ifs <;> omega
  have hi4 : i < 4 := by
    have hlen : ∀ u, (aligned u groups).length = 4 := fun u => by rw [hshape]; rfl
    obtain hpos | hpos := hsome
    · exact (hle s (Or.inl rfl)).trans_lt ((findIdx_lt_of_countP hpos).trans_eq (hlen s))
    · exact (hle t (Or.inr rfl)).trans_lt ((findIdx_lt_of_countP hpos).trans_eq (hlen t))
  have hpos : ∀ g ∈ [g₀, g₁, g₂, g₃], ∀ d ∈ g, 0 < s.getD d 0 ∧ 0 < t.getD d 0 := by
    intro g hg d hd
    have hd : d < s.length := h.cover.inside d (by
      rw [← flatten_padded, hp]
      exact mem_flatten_of_mem hg hd)
    exact ⟨getD_pos hs hd, getD_pos ht (hlength ▸ hd)⟩
  have hbefore : ∀ g ∈ [g₀, g₁, g₂, g₃].take i, g.filter (Matters s t ·) = [] := by
    intro g hg
    obtain ⟨j, hj, rfl⟩ := mem_iff_getElem.mp hg
    rw [length_take] at hj
    have hentry : ∀ u, u = s ∨ u = t → ¬1 < (select u ([g₀, g₁, g₂, g₃].take i)[j]).prod := by
      intro u hu
      have hnot := not_of_lt_findIdx (show j < (aligned u groups).findIdx (1 < ·) from
        (lt_of_lt_of_le (by omega) (hle u hu)))
      simpa only [hshape, groupShape, getElem_map, getElem_take, decide_eq_false_iff_not] using hnot
    exact filter_eq_nil_of_prod_le_one (fun d hd => (hpos _ (mem_of_mem_take hg) d hd).1)
      (fun d hd => (hpos _ (mem_of_mem_take hg) d hd).2) (hentry s (Or.inl rfl))
      (hentry t (Or.inr rfl))
  have hzero : i = 0 → g₁.filter (Matters s t ·) = [] := by
    intro hzero
    have hfront : ∀ u, (aligned u groups).findIdx (1 < ·) = 0 → 1 < (select u g₀).prod := by
      intro u hu
      rw [hshape, groupShape, map_cons, findIdx_cons] at hu
      by_contra hnot
      rw [decide_eq_false hnot] at hu
      cases hu
    have hcases : (aligned s groups).findIdx (1 < ·) = 0 ∨ (aligned t groups).findIdx (1 < ·) =
        0 := by
      split_ifs at hi <;> omega
    obtain hfirst | hfirst := hcases
    · exact h.second_trivial hs ht hlength hp hcount hcount' (hfront s hfirst)
    · rw [filter_matters_comm]
      exact (h.symm hlength).second_trivial ht hs hlength.symm hp hcount' hcount (hfront t hfirst)
  have hlen : (swapEntries [g₀, g₁, g₂, g₃] 1 i []).length = 4 := by simp [swapEntries]
  have hswapped : ∀ u, swapEntries (aligned u groups) 1 i 0 =
      aligned u (swapEntries [g₀, g₁, g₂, g₃] 1 i []) := by
    intro u
    rw [hshape, aligned, hlen, groupShape_swapEntries u g₀ g₁ g₂ g₃ hi4]
    rfl
  have hmem : ∀ dims ∈ swapEntries [g₀, g₁, g₂, g₃] 1 i [], dims = [] ∨ dims ∈ groups := by
    intro dims hdims
    have hdims := mem_of_mem_swapEntries hi4 hdims
    rw [← hp, padded, mem_append, mem_replicate] at hdims
    exact hdims.imp_left And.right
  refine ⟨swapEntries [g₀, g₁, g₂, g₃] 1 i [], ?_, hlen.le, ⟨?_, ?_⟩, ?_⟩
  · rw [hswapped, hswapped]
  · intro d hd
    obtain ⟨dims, hdims, hd⟩ := mem_flatten.mp hd
    obtain rfl | hdims := hmem dims hdims
    · cases hd
    · exact h.cover.inside d (mem_flatten_of_mem hdims hd)
  · rw [filter_swapEntries hi4 hchannels _ hbefore hzero, ← hp, flatten_padded, h.cover.dims]
  · intro dims hdims
    obtain rfl | hdims := hmem dims hdims
    · exact Or.inl fun d hd => (by cases hd)
    · exact h.oneKind dims hdims

/-- The converted operation is the original one, on shapes of rank four. -/
def Preserved (s t : List ℕ) : Prop :=
  ∀ hasAutoBroadcast isMultiply, ∃ converted,
    convertWith2Inputs hasAutoBroadcast isMultiply s t (broadcast s t) = .ok converted ∧
      converted.dimsCanMerge.length ≤ 4 ∧
      Folds s t converted.dimsCanMerge converted.newInputShape1 converted.newInputShape2 ∧
      converted.newResultShape = broadcast converted.newInputShape1 converted.newInputShape2

theorem convertWith2Inputs_eq (hasAutoBroadcast isMultiply : Bool) (hlength : s.length = t.length)
    (result : List ℕ) (hmap : getDimMergeMapWith2Inputs s t = .ok groups) (h : groups.length ≤ 4) :
    convertWith2Inputs hasAutoBroadcast isMultiply s t result =
      (let (newInputShape1, newInputShape2, dimsCanMerge) :=
        if isMultiply then tryAndConvert2NCEShape (aligned s groups) (aligned t groups) groups
        else (aligned s groups, aligned t groups, groups)
      (alignShapeTo4D result dimsCanMerge).map fun newResultShape =>
        ⟨dimsCanMerge, newInputShape1, newInputShape2, newResultShape⟩) := by
  simp only [convertWith2Inputs, if_neg hlength.not_lt, if_neg hlength.not_gt, pure, Except.pure,
    bind, Except.bind, hmap, alignShapeTo4D_eq _ h]
  generalize (if isMultiply then tryAndConvert2NCEShape (aligned s groups) (aligned t groups) groups
    else (aligned s groups, aligned t groups, groups)) = converted
  cases alignShapeTo4D result converted.2.2 with
  | error e => rfl
  | ok shape => rfl

theorem Foldable.preserved (h : Foldable s t groups) (hs : ∀ a ∈ s, 0 < a) (ht : ∀ a ∈ t, 0 < a)
    (hlength : s.length = t.length) (hmap : getDimMergeMapWith2Inputs s t = .ok groups) :
    Preserved s t := by
  intro hasAutoBroadcast isMultiply
  obtain ⟨groups', hconvert, hle, hcover, hone⟩ : ∃ groups',
      (if isMultiply then tryAndConvert2NCEShape (aligned s groups) (aligned t groups) groups
        else (aligned s groups, aligned t groups, groups)) =
        (aligned s groups', aligned t groups', groups') ∧ groups'.length ≤ 4 ∧ Cover s t groups' ∧
        ∀ dims ∈ groups', OneKind s t dims := by
    cases isMultiply with
    | false => exact ⟨groups, rfl, h.length_le, h.cover, h.oneKind⟩
    | true => exact exists_tryAndConvert2NCEShape h hs ht hlength
  refine ⟨⟨groups', aligned s groups', aligned t groups', aligned (broadcast s t) groups'⟩, ?_, hle,
    hcover.folds hs ht hlength hone _, aligned_broadcast hs ht hlength hcover hone⟩
  rw [convertWith2Inputs_eq hasAutoBroadcast isMultiply hlength _ hmap h.length_le, hconvert]
  simp only [alignShapeTo4D_eq _ hle]
  rfl

theorem Preserved.folds (h : Preserved s t) (hlength : s.length = t.length)
    (hmap : getDimMergeMapWith2Inputs s t = .ok groups) (hle : groups.length ≤ 4) :
    Folds s t groups (aligned s groups) (aligned t groups) := by
  obtain ⟨converted, hconvert, -, hfolds, -⟩ := h false false
  rw [convertWith2Inputs_eq false false hlength _ hmap hle] at hconvert
  simp only [Bool.false_eq_true, if_false, alignShapeTo4D_eq _ hle] at hconvert
  obtain rfl := Except.ok.inj hconvert
  exact hfolds

end Fold

end Vpux.IE.ShapeTo4D
