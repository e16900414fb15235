import Vpux.VPU.SqueezeLayout

/-! Operations that only change the shape move no data. -/
namespace Vpux.VPU
open Data Vpux.Const IE

section Map

variable {inShape outShape : List ℕ} {map : List (List ℕ)} {blocks : List (List ℕ × List ℕ)}

/-- The map goes up and leaves out no dimension of either shape. -/
structure Covers (inShape outShape : List ℕ) (map : List (List ℕ)) : Prop where
  length_eq : map.length = inShape.length
  ne_nil : ∀ dims ∈ map, dims ≠ []
  mem_iff : ∀ o, o ∈ map.flatten ↔ o < outShape.length
  nondecreasing : map.flatten.Pairwise (· ≤ ·)

theorem covers_of_reassociates (h : Reassociates inShape outShape map blocks) :
    Covers inShape outShape map := by
  have hflatten : map.flatten = blocks.flatMap fun b => b.1.flatMap fun _ => b.2 := by
    rw [h.map_eq, List.flatMap_def, List.flatten_flatten, List.map_map, List.flatMap_def]
    rfl
  have hsorted : (blocks.flatMap Prod.snd).Pairwise (· < ·) := h.right ▸ List.pairwise_lt_range
  rw [List.pairwise_flatMap] at hsorted
  constructor
  · rw [h.map_eq, List.length_flatMap, ← List.length_range (n := inShape.length), ← h.left,
      List.length_flatMap]
    simp
  · intro dims hdims
    rw [h.map_eq] at hdims
    obtain ⟨b, hb, hdims⟩ := List.mem_flatMap.mp hdims
    obtain ⟨d, -, rfl⟩ := List.mem_map.mp hdims
    exact (h.isBlock b hb).right_ne_nil
  · intro o
    rw [hflatten, ← List.mem_range, ← h.right, List.mem_flatMap, List.mem_flatMap]
    apply exists_congr
    intro b
    apply and_congr_right
    intro hb
    obtain ⟨d, hd⟩ := List.exists_mem_of_ne_nil _ (h.isBlock b hb).left_ne_nil
    rw [List.mem_flatMap]
    exact ⟨fun ⟨_, _, ho⟩ => ho, fun ho => ⟨d, hd, ho⟩⟩
  · rw [hflatten, List.pairwise_flatMap]
    constructor
    · intro b hb
      obtain ⟨⟨d, hd⟩, -⟩ | ⟨-, o, ho⟩ := h.isBlock b hb
      · rw [hd, List.flatMap_singleton]
        exact (hsorted.1 b hb).imp fun hlt => hlt.le
      · have hrepeat : b.1.flatMap (fun _ => b.2) = List.replicate b.1.length o := by
          rw [ho, ← List.map_eq_flatMap, List.map_const']
        rw [hrepeat]
        exact List.pairwise_replicate.mpr (Or.inr (Nat.le_refl o))
    · refine hsorted.2.imp fun hlt x hx y hy => ?_
      obtain ⟨_, _, hx⟩ := List.mem_flatMap.mp hx
      obtain ⟨_, _, hy⟩ := List.mem_flatMap.mp hy
      exact (hlt x hx y hy).le

end Map

/-- What is promised of two shapes with as many elements, a layout of the first one, and axes
to squeeze from it and to add to it. -/
structure ViewsMoveNoData (inShape outShape : List ℕ) (inOrder : DimsOrder)
    (squeezed unsqueezed : List ℕ) : Prop where
  map : getReassociationMap inShape outShape = .error .failure ∨
    ∃ map blocks, getReassociationMap inShape outShape = .ok map ∧
      Covers inShape outShape map ∧ Reassociates inShape outShape map blocks ∧
      ∀ outOrder, inferAffineReshapeOutputLayout inOrder map = .ok outOrder →
        MovesNoData inOrder inShape outOrder outShape
  squeeze : ∃ squeezedShape outOrder, squeezeShape inShape squeezed = .ok squeezedShape ∧
    inferSqueezeOutputLayout inOrder squeezed inShape = .ok outOrder ∧
    MovesNoData inOrder inShape outOrder squeezedShape
  unsqueeze : ∃ unsqueezedShape outOrder,
    unsqueezeShape inShape unsqueezed = .ok unsqueezedShape ∧
    inferUnsqueezeOutputLayout inOrder unsqueezed inShape = .ok outOrder ∧
    MovesNoData inOrder inShape outOrder unsqueezedShape

section Unsqueeze

variable {inShape unsqueezed : List ℕ} {inOrder : DimsOrder}

section

variable (hsorted : unsqueezed.Pairwise (· < ·))
  (hvalid : ∀ a ∈ unsqueezed, a < inShape.length + unsqueezed.length)
include hsorted hvalid

theorem interleaves_unsqueezedAxes :
    Interleaves 0 inShape.length (unsqueezedAxes unsqueezed inShape) := by
  unfold unsqueezedAxes
  split_ifs
  · apply interleaves_of_sorted (List.pairwise_lt_range.filter _)
    intro a ha
    have := List.mem_range.mp (List.mem_of_mem_filter ha)
    omega
  · apply interleaves_of_sorted hsorted
    intro a ha
    have := hvalid a ha
    omega

theorem inferUnsqueezeOutputLayout_ok (hnum : inOrder.numDims = inShape.length) :
    ∃ outOrder, inferUnsqueezeOutputLayout inOrder unsqueezed inShape = .ok outOrder ∧
      outOrder.toPermutation = unsqueezedDims inOrder (unsqueezedAxes unsqueezed inShape) :=
  fromPermutation_ok ((interleaves_unsqueezedAxes hsorted hvalid).unsqueezedDims_perm hnum)

end

theorem length_unsqueezedAxes_pos (hsome : ¬∀ dim ∈ inShape, dim = 1) :
    0 < (unsqueezedAxes [] inShape).length := by
  simp only [not_forall] at hsome
  obtain ⟨dim, hmem, hdim⟩ := hsome
  obtain ⟨i, hi, rfl⟩ := List.getElem_of_mem hmem
  rw [unsqueezedAxes, if_pos rfl, List.length_pos_iff_exists_mem]
  refine ⟨i, List.mem_filter.mpr ⟨List.mem_range.mpr hi, ?_⟩⟩
  rw [List.getD_eq_getElem _ _ hi]
  simpa using hdim

theorem unsqueezedAxes_eq (h : unsqueezed ≠ [] ∨ ∀ dim ∈ inShape, dim = 1) :
    unsqueezedAxes unsqueezed inShape = unsqueezed := by
  unfold unsqueezedAxes
  split_ifs with hnil
  · rw [hnil, List.filter_eq_nil_iff]
    intro i hi
    have hlt := List.mem_range.mp hi
    have hone := h.resolve_left (not_not.mpr hnil) _ (List.getElem_mem hlt)
    rw [List.getD_eq_getElem _ _ hlt, hone]
    simp
  · rfl

end Unsqueeze

/-- A view moves no data, but for unsqueezing by no axes what is not all of size one. -/
theorem viewsMoveNoData_iff {inShape outShape : List ℕ} (hin : ∀ dim ∈ inShape, 0 < dim)
    (hout : ∀ dim ∈ outShape, 0 < dim) (hprod : inShape.prod = outShape.prod)
    {inOrder : DimsOrder} (hnum : inOrder.numDims = inShape.length)
    {squeezed unsqueezed : List ℕ} (hsqueezed : UnitAxes inShape squeezed)
    (hsorted : unsqueezed.Pairwise (· < ·))
    (hvalid : ∀ a ∈ unsqueezed, a < inShape.length + unsqueezed.length) :
    ViewsMoveNoData inShape outShape inOrder squeezed unsqueezed ↔
      unsqueezed ≠ [] ∨ ∀ dim ∈ inShape, dim = 1 := by
  have hinterleaves := interleaves_unsqueezedAxes hsorted hvalid
  obtain ⟨outOrder, hinfer, hperm⟩ := inferUnsqueezeOutputLayout_ok hsorted hvalid hnum
  constructor
  · intro h
    by_contra hcond
    rw [not_or, not_not] at hcond
    obtain ⟨rfl, hsome⟩ := hcond
    obtain ⟨unsqueezedShape, outOrder', hshape, hinfer', hmoves⟩ := h.unsqueeze
    obtain rfl : outOrder = outOrder' := Except.ok.inj (hinfer.symm.trans hinfer')
    have hrank : outOrder.numDims = inShape.length + (unsqueezedAxes [] inShape).length := by
      rw [DimsOrder.numDims, hperm, (hinterleaves.unsqueezedDims_perm hnum).length_eq,
        List.length_range]
    have hnone : Interleaves 0 inShape.length [] := interleaves_of_sorted .nil (by simp)
    obtain ⟨shape, hloop, hlength, -⟩ := hnone.unsqueezeLoop rfl
    obtain rfl : shape = unsqueezedShape := Except.ok.inj (hloop.symm.trans hshape)
    have := length_unsqueezedAxes_pos hsome
    rw [hmoves.numDims_eq, hlength, List.length_nil] at hrank
    omega
  · intro hcond
    rw [unsqueezedAxes_eq hcond] at hinterleaves hperm
    constructor
    · obtain hfail | ⟨map, blocks, hok, hblocks⟩ := getReassociationMap_spec hin hout hprod
      · exact Or.inl hfail
      · exact Or.inr ⟨map, blocks, hok, covers_of_reassociates hblocks, hblocks,
          fun _ => inferAffineReshapeOutputLayout_movesNoData hblocks hnum⟩
    · obtain ⟨squeezedShape, outOrder, hshape, horder, hmoves⟩ :=
        (unitAxes_squeezedAxes hsqueezed).squeeze_movesNoData hnum
      exact ⟨squeezedShape, outOrder, (squeezeShape_eq _ _).trans hshape, horder, hmoves⟩
    · obtain ⟨unsqueezedShape, hshape, hmoves⟩ := hinterleaves.unsqueeze_movesNoData hnum hperm
      exact ⟨unsqueezedShape, outOrder, hshape, hinfer, hmoves⟩

theorem viewsMoveNoData_iff_nhwc :
    ViewsMoveNoData [1, 8, 4, 6] [8, 4, 6] ⟨[0, 2, 3, 1], by decide⟩ [0] [0, 3] ↔
      [0, 3] ≠ [] ∨ ∀ dim ∈ [1, 8, 4, 6], dim = 1 :=
  @viewsMoveNoData_iff [1, 8, 4, 6] [8, 4, 6] (by decide) (by decide) (by decide)
    ⟨[0, 2, 3, 1], by decide⟩ rfl [0] [0, 3] ⟨by decide, by decide⟩ (by decide) (by decide)

/-- Unsqueezing a tensor of two elements by no axes gives a layout with two dimensions. -/
theorem not_viewsMoveNoData_pair :
    ¬ViewsMoveNoData [2] [2] (DimsOrder.fromNumDims 1) [] [] := by
  rintro ⟨-, -, unsqueezedShape, outOrder, hshape, hinfer, hmoves⟩
  obtain rfl : [2] = unsqueezedShape := Except.ok.inj hshape
  obtain rfl : DimsOrder.fromNumDims 2 = outOrder := Except.ok.inj hinfer
  exact absurd hmoves.numDims_eq (by decide)

end Vpux.VPU
