import Vpux.Dma.PermutePlanes

/-! Memory permutations between orders, and permutations that move no data
(`utils/permute_utils.cpp`). -/
namespace Vpux.Dma
open Data Vpux.Const

/-- The memory permutation that takes one order to another. -/
def getPermutationFromOrders (inOrder outOrder : DimsOrder) : List ℕ :=
  outOrder.toPermutation.map inOrder.dimPos

def applyPerm (memShape memPerm : List ℕ) : Except Fault (List ℕ) := do
  let perm ← DimsOrder.fromPermutation memPerm
  throwUnless (memShape.length = perm.numDims) "Permutation is not compatible with shape"
  .ok ((List.range memShape.length).map fun ind => memShape.getD (perm.dimAt ind) 0)

def isTrivialPermute (inShape memPerm : List ℕ) : Except Fault Bool := do
  let perm ← DimsOrder.fromPermutation memPerm
  throwUnless (inShape.length = perm.numDims) "Permutation is not compatible with shape"
  let nonTrivialPerm := ((List.range inShape.length).map perm.dimAt).filter fun inDim =>
    inShape.getD inDim 0 ≠ 1
  .ok ((List.range' 1 (nonTrivialPerm.length - 1)).all fun ind =>
    ¬nonTrivialPerm.getD ind 0 < nonTrivialPerm.getD (ind - 1) 0)

/-- Every element keeps its place in memory. -/
def KeepsLinearOrder (memShape : List ℕ) (perm : DimsOrder) : Prop :=
  ∀ point, InBox memShape point →
    rowMajor (perm.memoryOrder memShape) (perm.memoryOrder point) = rowMajor memShape point

variable {perm : DimsOrder}

open DimsOrder

theorem applyPerm_eq {memShape : List ℕ} (h : memShape.length = perm.numDims) :
    applyPerm memShape perm.toPermutation = .ok (perm.memoryOrder memShape) := by
  unfold applyPerm
  rw [fromPermutation_toPermutation, h, memoryOrder, ← map_dimAt_range, List.map_map]
  change (throwUnless (perm.numDims = perm.numDims) _ >>= _ : Except _ _) = _
  rw [throwUnless, if_pos rfl]
  rfl

section Orders

variable {inOrder outOrder : DimsOrder} (h : inOrder.numDims = outOrder.numDims)
include h

theorem getPermutationFromOrders_perm : (getPermutationFromOrders inOrder outOrder).Perm
    (List.range (getPermutationFromOrders inOrder outOrder).length) := by
  have hin : inOrder.toPermutation.map inOrder.dimPos = List.range inOrder.numDims := by
    rw [← map_dimAt_range, List.map_map]
    apply (List.map_congr_left fun i hi => dimPos_dimAt (List.mem_range.mp hi)).trans
    exact List.map_id' _
  have hout : outOrder.toPermutation.Perm inOrder.toPermutation :=
    outOrder.isPermutation.trans (by
      rw [show outOrder.toPermutation.length = inOrder.toPermutation.length from h.symm]
      exact inOrder.isPermutation.symm)
  have hperm := hout.map inOrder.dimPos
  rw [hin, h] at hperm
  simpa [getPermutationFromOrders, numDims] using hperm

theorem applyPerm_getPermutationFromOrders (shape : List ℕ) :
    applyPerm (inOrder.memoryOrder shape) (getPermutationFromOrders inOrder outOrder) =
      .ok (outOrder.memoryOrder shape) := by
  let perm : DimsOrder :=
    ⟨getPermutationFromOrders inOrder outOrder, getPermutationFromOrders_perm h⟩
  have hnum : (inOrder.memoryOrder shape).length = perm.numDims := by
    simpa [perm, numDims, getPermutationFromOrders] using h
  have hvalues : perm.memoryOrder (inOrder.memoryOrder shape) = outOrder.memoryOrder shape := by
    simp only [memoryOrder, perm, getPermutationFromOrders, List.map_map]
    apply List.map_congr_left
    intro d hd
    have hd' : d < inOrder.numDims := by
      rw [h]
      exact mem_toPermutation.mp hd
    have hpos : inOrder.dimPos d < (inOrder.memoryOrder shape).length := by
      simpa using dimPos_lt hd'
    change (inOrder.memoryOrder shape).getD (inOrder.dimPos d) 0 = shape.getD d 0
    rw [List.getD_eq_getElem _ _ hpos, getElem_memoryOrder, dimAt_dimPos hd']
  have happly := applyPerm_eq hnum
  rwa [hvalues] at happly

end Orders

section Trivial

variable {memShape : List ℕ}

variable (h : memShape.length = perm.numDims)
include h

theorem isTrivialPermute_eq :
    isTrivialPermute memShape perm.toPermutation =
      .ok (decide ((nonUnit memShape perm.toPermutation).Pairwise (· ≤ ·))) := by
  have hchain : ∀ l : List ℕ, ((List.range' 1 (l.length - 1)).all fun ind =>
      decide ¬l.getD ind 0 < l.getD (ind - 1) 0) = decide (l.Pairwise (· ≤ ·)) := by
    intro l
    rw [Bool.eq_iff_iff, decide_eq_true_iff, List.all_eq_true, ← List.isChain_iff_pairwise,
      List.isChain_iff_getElem]
    constructor
    · intro hall i hi
      have hstep := hall (i + 1) (List.mem_range'_1.mpr (by omega))
      rw [decide_eq_true_iff, Nat.add_sub_cancel, List.getD_eq_getElem _ _ hi,
        List.getD_eq_getElem _ _ (by omega)] at hstep
      exact Nat.le_of_not_lt hstep
    · intro hall ind hind
      obtain ⟨hge, hlt⟩ := List.mem_range'_1.mp hind
      obtain ⟨i, rfl⟩ := Nat.exists_eq_add_of_le' hge
      have hstep := hall i (by omega)
      rw [decide_eq_true_iff, Nat.add_sub_cancel, List.getD_eq_getElem _ _ (by omega),
        List.getD_eq_getElem _ _ (by omega)]
      exact Nat.not_lt_of_le hstep
  unfold isTrivialPermute
  rw [fromPermutation_toPermutation, h]
  change (throwUnless (perm.numDims = perm.numDims) _ >>= _ : Except _ _) = _
  rw [throwUnless, if_pos rfl, ← map_dimAt_range perm]
  exact congrArg Except.ok (hchain (nonUnit memShape ((List.range perm.numDims).map perm.dimAt)))

theorem keepsLinearOrder_iff (hpos : ∀ size ∈ memShape, 0 < size) : KeepsLinearOrder memShape perm ↔
      nonUnit memShape perm.toPermutation = nonUnit memShape (List.range memShape.length) := by
  have hperm : perm.toPermutation.Perm (List.range memShape.length) := by
    rw [h]
    exact perm.isPermutation
  rw [← flat_eq_iff hpos hperm (List.Perm.refl _)]
  refine forall_congr' fun point => forall_congr' fun hin => ?_
  rw [flat_range hin]
  rfl

theorem nonUnit_sorted_iff :
    (nonUnit memShape perm.toPermutation).Pairwise (· ≤ ·) ↔
      nonUnit memShape perm.toPermutation = nonUnit memShape (List.range memShape.length) := by
  have hperm : perm.toPermutation.Perm (List.range memShape.length) := by
    rw [h]
    exact perm.isPermutation
  have hsorted : (nonUnit memShape (List.range memShape.length)).Pairwise (· ≤ ·) :=
    List.pairwise_le_range.filter _
  constructor
  · intro hpairwise
    exact (hperm.filter _).eq_of_pairwise (fun a b _ _ => Nat.le_antisymm) hpairwise hsorted
  · intro heq
    rw [heq]
    exact hsorted

end Trivial

/-- Permuting a shape in the order `in` by the permutation from `in` to `out` gives the shape in
the order `out`, and a permutation of a tensor that has elements is trivial exactly when every
element keeps its place. -/
theorem memoryPermutations_compose :
    (∀ inOrder outOrder : DimsOrder, inOrder.numDims = outOrder.numDims → ∀ shape : List ℕ,
      (inOrder.toMemoryOrder shape >>= fun inMemShape =>
        applyPerm inMemShape (getPermutationFromOrders inOrder outOrder)) =
          outOrder.toMemoryOrder shape) ∧
    ∀ (perm : DimsOrder) (memShape : List ℕ), memShape.length = perm.numDims →
      (∀ size ∈ memShape, 0 < size) →
        ∃ trivial, isTrivialPermute memShape perm.toPermutation = .ok trivial ∧
          (trivial = true ↔ KeepsLinearOrder memShape perm) := by
  constructor
  · intro inOrder outOrder h shape
    unfold DimsOrder.toMemoryOrder
    rw [← h]
    split
    · exact applyPerm_getPermutationFromOrders h shape
    · rfl
  · intro perm memShape h hpos
    refine ⟨_, isTrivialPermute_eq h, ?_⟩
    rw [decide_eq_true_iff, nonUnit_sorted_iff h, keepsLinearOrder_iff h hpos]

def NHCW : DimsOrder := ⟨[0, 2, 1, 3], by decide⟩

/-- A dimension of size one may move, here the second one behind the third one. -/
theorem memoryPermutations_compose_unit :
    isTrivialPermute [2, 1, 3, 4] [0, 2, 1, 3] = .ok true ∧
      KeepsLinearOrder [2, 1, 3, 4] NHCW ∧
      applyPerm [2, 1, 3, 4] (getPermutationFromOrders (.fromNumDims 4) NHCW) =
        .ok [2, 3, 1, 4] := by
  have h := memoryPermutations_compose
  obtain ⟨value, hvalue, hiff⟩ := h.2 NHCW [2, 1, 3, 4] (by decide) (by decide)
  have htrue : isTrivialPermute [2, 1, 3, 4] [0, 2, 1, 3] = .ok true := by decide
  have hvalue' : value = true := Except.ok.inj (hvalue.symm.trans htrue)
  refine ⟨htrue, hiff.mp hvalue', ?_⟩
  exact h.1 (.fromNumDims 4) NHCW (by decide) [2, 1, 3, 4]

/-- Without elements nothing moves, but the permutation is not trivial for the code. -/
theorem isTrivialPermute_empty :
    isTrivialPermute [0, 2, 3] [0, 2, 1] = .ok false ∧
      KeepsLinearOrder [0, 2, 3] ⟨[0, 2, 1], by decide⟩ := by
  refine ⟨by decide, ?_⟩
  intro point hin
  cases hin with
  | cons h _ => exact absurd h (Nat.not_lt_zero _)

end Vpux.Dma
