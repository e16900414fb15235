import Vpux.Data.Ranks
import Vpux.Dma.PermuteUtils

/-! Memory permutations of any rank as ones of rank four (`passes/legalize_nd_mempermute.cpp`). -/
namespace Vpux.IE
open Vpux.Const Data Dma

section Types

@[ext]
structure RankedTensorType where
  shape : List ℕ
  elemType : ElemType
  dimsOrder : DimsOrder
  memSpace : Option String
  numDims_eq : dimsOrder.numDims = shape.length

def RankedTensorType.getMemShape (type : RankedTensorType) : List ℕ :=
  type.dimsOrder.memoryOrder type.shape

def inferPermuteReturnTypeComponents (input : RankedTensorType) (memPerm dstOrder : DimsOrder)
    (strictInfer : Bool) : Except Fault RankedTensorType := do
  let inMemShape ← input.dimsOrder.toMemoryOrder input.shape
  let outMemShape ← applyPerm inMemShape memPerm.toPermutation
  throwUnless (outMemShape.length = dstOrder.numDims) "DimValues are not compatible with DimsOrder"
  pure {
    shape := dstOrder.logicalOrder outMemShape
    elemType := input.elemType
    dimsOrder := dstOrder
    memSpace := if strictInfer then input.memSpace else none
    numDims_eq := (dstOrder.length_logicalOrder outMemShape).symm }

/-- A cast does not move data. -/
def permuteCastOp (input : RankedTensorType) (dstOrder memPerm : DimsOrder) :
    Except Fault RankedTensorType := do
  let inMemShape ← input.dimsOrder.toMemoryOrder input.shape
  throwUnless ((← isTrivialPermute inMemShape memPerm.toPermutation) = true)
    "Operation represents non trivial permutation"
  inferPermuteReturnTypeComponents input memPerm dstOrder true

/-- Nor does a reshape. -/
def reshapeOp (input : RankedTensorType) (shapeValue : List ℕ) : RankedTensorType where
  shape := shapeValue
  elemType := input.elemType
  dimsOrder := DimsOrder.fromNumDims shapeValue.length
  memSpace := input.memSpace
  numDims_eq := List.length_range

/-- Where the permutation moves the element at a place in memory. -/
def movedOffset (memShape : List ℕ) (perm : DimsOrder) (offset : ℕ) : ℕ :=
  rowMajor (perm.memoryOrder memShape) (perm.memoryOrder (pointAt memShape offset))

structure MemPermuteOp where
  input : RankedTensorType
  output : RankedTensorType
  memPerm : DimsOrder
  dstOrder : DimsOrder
  inferred : inferPermuteReturnTypeComponents input memPerm dstOrder false = .ok output

end Types

section Model

/-- The first entry for a value stays in the map. -/
def normalizePermutation (vec : List ℕ) : List ℕ :=
  let sorted := vec.insertionSort fun a b => a ≤ b
  let helper := sorted.zipIdx
  vec.map fun v => (helper.lookup v).getD 0

/-- The passes of both loops from the second entry on: the run so far has its first dimension, its
size and its last dimension. -/
def mergeRun (shapeVec : List ℕ) (first dimSize last : ℕ) : List ℕ → List (ℕ × ℕ)
  | [] => [(first, dimSize)]
  | d :: rest =>
    if last + 1 = d then mergeRun shapeVec first (dimSize * shapeVec.getD d 0) d rest
    else (first, dimSize) :: mergeRun shapeVec d (shapeVec.getD d 0) d rest

/-- The first dimension and the size of each run of dimensions that stay adjacent. -/
def mergeAdjacent (shapeVec : List ℕ) : List ℕ → List (ℕ × ℕ)
  | [] => []
  | d :: rest => mergeRun shapeVec d (shapeVec.getD d 0) d rest

/-- What the operation is replaced by, without the operands. -/
structure LegalizedOps where
  inputCast : RankedTensorType
  inputReshape : RankedTensorType
  reducedPermutation : DimsOrder
  newPermute : RankedTensorType
  outputReshape : RankedTensorType
  newSequence : RankedTensorType

namespace LegalizeNDMemPermute

def permVec (origOp : MemPermuteOp) : List ℕ :=
  normalizePermutation (origOp.memPerm.toPermutation.filter fun d =>
    origOp.input.getMemShape.getD d 0 ≠ 1)

def shapeVec (origOp : MemPermuteOp) : List ℕ := origOp.input.getMemShape.filter (· ≠ 1)

/-- The entries in the order of the loop, one for each key of `mergedShapeMap`. -/
def merged (origOp : MemPermuteOp) : List (ℕ × ℕ) :=
    mergeAdjacent (shapeVec origOp) (permVec origOp)

/-- In ascending order of the keys, then the padding. -/
def mergedShape (origOp : MemPermuteOp) : List ℕ :=
  ((merged origOp).insertionSort fun a b => a.1 ≤ b.1).map (·.2) ++
    List.replicate (4 - (merged origOp).length) 1

def mergedPermutation (origOp : MemPermuteOp) : List ℕ :=
  normalizePermutation ((merged origOp).map (·.1)) ++
    List.range' (merged origOp).length (4 - (merged origOp).length)

/-- Nothing is changed for rank four, and when more than four dimensions are left. -/
def safeRunOnFunc (origOp : MemPermuteOp) : Except Fault (Option LegalizedOps) := do
  let rank := origOp.input.shape.length
  if rank = 4 ∨ 4 < (merged origOp).length then
    return none
  let reducedPermutation ← DimsOrder.fromPermutation (mergedPermutation origOp)
  let inputCast ← permuteCastOp origOp.input (DimsOrder.fromNumDims rank)
      (DimsOrder.fromNumDims rank)
  let inputReshape := reshapeOp inputCast (mergedShape origOp)
  let newPermute ← inferPermuteReturnTypeComponents inputReshape reducedPermutation
    (DimsOrder.fromNumDims (mergedShape origOp).length) false
  let outputShape := origOp.output.getMemShape
  let outputReshape := reshapeOp newPermute outputShape
  let newSequence ← permuteCastOp outputReshape origOp.dstOrder
    (DimsOrder.fromNumDims outputShape.length)
  return some ⟨inputCast, inputReshape, reducedPermutation, newPermute, outputReshape, newSequence⟩

end LegalizeNDMemPermute

end Model

open List

section Merge

theorem lookup_zipIdx {l : List ℕ} {v : ℕ} (hv : v ∈ l) (k : ℕ) :
    (l.zipIdx k).lookup v = some (l.idxOf v + k) := by
  induction l generalizing k with
  | nil => cases hv
  | cons a l ih =>
    rw [zipIdx_cons, lookup_cons, idxOf_cons]
    by_cases ha : v = a
    · simp [ha]
    · have hne : (a == v) = false := beq_eq_false_iff_ne.mpr (Ne.symm ha)
      have hne' : (v == a) = false := beq_eq_false_iff_ne.mpr ha
      rw [hne, hne', ih ((mem_cons.mp hv).resolve_left ha)]
      simp only [cond_false, Option.some.injEq]
      omega

theorem normalizePermutation_eq_ranks (vec : List ℕ) : normalizePermutation vec = ranks vec := by
  apply map_congr_left
  intro v hv
  change ((sorted vec).zipIdx.lookup v).getD 0 = _
  rw [lookup_zipIdx ((sorted_perm vec).mem_iff.mpr hv)]
  rfl

theorem mergeRun_run {shapeVec m : List ℕ} {a n : ℕ} (h : m.head? ≠ some (a + n + 1))
    (first k : ℕ) :
    mergeRun shapeVec first k a (List.range' (a + 1) n ++ m) =
      (first, k * extent shapeVec (List.range' (a + 1) n)) :: mergeAdjacent shapeVec m := by
  induction n generalizing a k with
  | zero =>
    rw [range'_zero, nil_append]
    cases m with
    | nil => simp [mergeRun, mergeAdjacent, extent]
    | cons d rest =>
      have hne : a + 1 ≠ d := by
        rintro rfl
        exact h rfl
      rw [mergeRun, if_neg hne, mergeAdjacent]
      simp [extent]
  | succ n ih =>
    rw [range'_succ, cons_append, mergeRun, if_pos rfl,
      ih (by rwa [show a + 1 + n + 1 = a + (n + 1) + 1 by omega]), extent_cons, mul_assoc]

theorem mergeAdjacent_eq (shapeVec l : List ℕ) :
    mergeAdjacent shapeVec l = (runs l).map fun run => (run.headD 0, extent shapeVec run) := by
  induction l using run_induction with
  | nil => rfl
  | run a n m hm ih =>
    rw [runs_append hm, map_cons, ← ih, range'_succ, cons_append, mergeAdjacent,
      mergeRun_run hm, extent_cons, headD_cons]

end Merge

open DimsOrder

section Grouping

variable {memShape dims : List ℕ}

/-- The merged dimensions are groups of the dimensions that have more than one element, which are in
the order of the input and, by the merged permutation, in the order of the output. -/
structure Grouping (memShape dims : List ℕ) (merged : List (ℕ × ℕ)) (groups : List (List ℕ)) :
    Prop where
  length : merged.length = groups.length
  sizes : (merged.insertionSort fun a b => a.1 ≤ b.1).map (·.2) = groups.map (extent memShape)
  perm : (normalizePermutation (merged.map (·.1))).Perm (List.range groups.length)
  input : groups.flatten = nonUnit memShape (List.range memShape.length)
  output : ((normalizePermutation (merged.map (·.1))).map (groups.getD · [])).flatten =
    nonUnit memShape dims

theorem filter_ne_one_eq (memShape : List ℕ) : memShape.filter (· ≠ 1) =
    (nonUnit memShape (List.range memShape.length)).map (memShape.getD · 0) := by
  conv_lhs => rw [← map_getD_range memShape 0]
  rw [filter_map]
  rfl

theorem exists_grouping (hdims : dims.Perm (List.range memShape.length)) : ∃ groups,
    Grouping memShape dims (mergeAdjacent (memShape.filter (· ≠ 1))
      (normalizePermutation (dims.filter fun d => memShape.getD d 0 ≠ 1))) groups := by
  let S := nonUnit memShape (List.range memShape.length)
  have hS : S.Pairwise (· < ·) := pairwise_lt_range.filter _
  have hpermS : (nonUnit memShape dims).Perm S := hdims.filter _
  have hsorted : sorted (nonUnit memShape dims) = S := sorted_eq hpermS hS
  let p := ranks (nonUnit memShape dims)
  have hlength : p.length = S.length := by
    rw [← hpermS.length_eq]
    exact length_map _
  have hp : p.Perm (List.range S.length) := by
    rw [← hlength]
    exact ranks_perm (hpermS.nodup_iff.mpr (hS.imp Nat.ne_of_lt))
  have hback : p.map (S.getD · 0) = nonUnit memShape dims := by
    rw [← hsorted]
    exact map_getD_ranks _
  obtain ⟨xs, hxs, hflat, hheads⟩ := exists_sorted_runs hp
  have hextent : ∀ run ∈ runs p, extent (memShape.filter (· ≠ 1)) run =
      extent memShape (run.map (S.getD · 0)) := by
    intro run hrun
    rw [filter_ne_one_eq, extent, extent, map_map]
    congr 1
    apply map_congr_left
    intro d hd
    have hlt : d < S.length := mem_range.mp (hp.subset (by
      rw [← flatten_runs p]
      exact mem_flatten.mpr ⟨run, hrun, hd⟩))
    rw [getD_eq_getElem _ _ (by simpa using hlt), getElem_map, Function.comp_apply,
      getD_eq_getElem _ _ hlt]
  have hmerged : mergeAdjacent (memShape.filter (· ≠ 1))
      (normalizePermutation (dims.filter fun d => memShape.getD d 0 ≠ 1)) =
        (runs p).map fun run => (run.headD 0, extent memShape (run.map (S.getD · 0))) := by
    rw [normalizePermutation_eq_ranks, mergeAdjacent_eq]
    apply map_congr_left
    intro run hrun
    rw [hextent run hrun]
  have hpairwise :
      (xs.map fun run => (run.headD 0, extent memShape (run.map (S.getD · 0)))).Pairwise
      fun a b => a.1 < b.1 := by
    rw [pairwise_map] at hheads ⊢
    exact hheads
  have hnormalize : normalizePermutation (((runs p).map fun run =>
      (run.headD 0, extent memShape (run.map (S.getD · 0)))).map (·.1)) =
        ranks ((runs p).map (·.headD 0)) := by
    rw [normalizePermutation_eq_ranks, map_map]
    rfl
  have hruns := map_getD_ranks_map hxs hheads []
  refine ⟨xs.map fun run => run.map (S.getD · 0), ?_, ?_, ?_, ?_, ?_⟩
  · rw [hmerged, length_map, length_map, hxs.length_eq]
  · rw [hmerged, insertionSort_eq Prod.fst (hxs.symm.map _) hpairwise, map_map,
      map_map]
    rfl
  · have hnodup : (xs.map (·.headD 0)).Nodup := hheads.imp Nat.ne_of_lt
    have hperm := ranks_perm ((hxs.map (·.headD 0)).nodup_iff.mp hnodup)
    rw [hmerged, hnormalize, length_map, hxs.length_eq]
    rwa [ranks, length_map, length_map] at hperm
  · rw [← map_flatten, hflat, map_getD_range]
  · have hgetD : ∀ i, (xs.map fun run => run.map (S.getD · 0)).getD i [] =
        (xs.getD i []).map (S.getD · 0) := fun i => getD_map xs [] (fun run => run.map (S.getD · 0))
    simp only [hmerged, hnormalize, hgetD]
    have hall : ((ranks ((runs p).map (·.headD 0))).map (xs.getD · [])).flatten = p := by
      rw [hruns, flatten_runs]
    rw [← hback]
    conv_rhs => rw [← hall]
    rw [map_flatten, map_map]
    rfl

theorem rowMajor_append_ones {sizes point : List ℕ} (h : point.length = sizes.length) (k : ℕ) :
    rowMajor (sizes ++ List.replicate k 1) (point ++ List.replicate k 0) =
      rowMajor sizes point := by
  rw [rowMajor_append h, rowMajor_replicate, prod_replicate, one_pow, Nat.mul_one, Nat.add_zero]

theorem inBox_append_ones {sizes point : List ℕ} (h : InBox sizes point) (k : ℕ) :
    InBox (sizes ++ List.replicate k 1) (point ++ List.replicate k 0) := by
  have hones : InBox (List.replicate k 1) (List.replicate k 0) := by
    induction k with
    | zero => exact .nil
    | succ k ih => exact .cons Nat.one_pos ih
  exact rel_append h hones

theorem map_append_range' {q base : List ℕ} (hq : q.Perm (List.range base.length)) (rest : List ℕ) :
    (q ++ List.range' base.length rest.length).map ((base ++ rest).getD · 0) =
      q.map (base.getD · 0) ++ rest := by
  rw [map_append]
  congr 1
  · apply map_congr_left
    intro d hd
    exact getD_append _ _ _ _ (mem_range.mp (hq.subset hd))
  · apply ext_getElem (by simp)
    intro i hi hi'
    rw [getElem_map, getElem_range', getD_append_right _ _ _ _ (by omega),
      Nat.one_mul, Nat.add_sub_cancel_left, getD_eq_getElem _ _ hi']

section Offset

variable {merged : List (ℕ × ℕ)} {groups : List (List ℕ)} {perm reduced : DimsOrder}

theorem Grouping.movedOffset_eq (h : Grouping memShape perm.toPermutation merged groups)
    (hperm : perm.numDims = memShape.length)
    (hreduced : reduced.toPermutation =
      normalizePermutation (merged.map (·.1)) ++ List.range' merged.length (4 - merged.length))
    {offset : ℕ} (hoffset : offset < memShape.prod) :
    movedOffset ((merged.insertionSort fun a b => a.1 ≤ b.1).map (·.2) ++
        List.replicate (4 - merged.length) 1) reduced offset =
          movedOffset memShape perm offset := by
  have hpos : 0 < memShape.prod := Nat.zero_lt_of_lt hoffset
  have hbox := inBox_pointAt hpos offset
  have hrow := rowMajor_pointAt hoffset
  generalize pointAt memShape offset = point at hbox hrow
  have hpoint : pointAt memShape offset = point := by rw [← hrow, pointAt_rowMajor hbox]
  have hlt : ∀ d < memShape.length, point.getD d 0 < memShape.getD d 0 := fun d hd =>
      hbox.getD_lt hd
  have hdims : ∀ d ∈ perm.toPermutation, d < memShape.length := by
    intro d hd
    rw [← hperm]
    exact mem_toPermutation.mp hd
  have hgroups : ∀ group ∈ groups, ∀ d ∈ group, point.getD d 0 < memShape.getD d 0 := by
    intro group hgroup d hd
    have hmem : d ∈ nonUnit memShape (List.range memShape.length) := by
      rw [← h.input]
      exact mem_flatten.mpr ⟨group, hgroup, hd⟩
    exact hlt d (mem_range.mp (mem_filter.mp hmem).1)
  -- the same place, by the groups
  have hpoint' : pointAt (groups.map (extent memShape) ++ List.replicate (4 - groups.length) 1)
      offset =
      groups.map (flat memShape point) ++ List.replicate (4 - groups.length) 0 := by
    have hin := inBox_append_ones (inBox_groups hgroups) (4 - groups.length)
    rw [← pointAt_rowMajor hin, rowMajor_append_ones (by simp), rowMajor_groups, h.input,
      flat_nonUnit fun d hd => hlt d (mem_range.mp hd), flat_range hbox, hrow]
  have hmemory : ∀ (f : List ℕ → ℕ) (a : ℕ), reduced.memoryOrder
      (groups.map f ++ List.replicate (4 - groups.length) a) =
        ((normalizePermutation (merged.map (·.1))).map (groups.getD · [])).map f ++
          List.replicate (4 - groups.length) a := by
    intro f a
    have hq : (normalizePermutation (merged.map (·.1))).Perm
        (List.range (groups.map f).length) := by
      rw [length_map]
      exact h.perm
    have happend := map_append_range' hq (List.replicate (4 - groups.length) a)
    rw [length_map, length_replicate, ← h.length] at happend
    rw [memoryOrder, hreduced, ← h.length, happend, map_map]
    congr 1
    apply map_congr_left
    intro i hi
    have hi' : i < groups.length := mem_range.mp (h.perm.subset hi)
    rw [getD_eq_getElem _ _ (by simpa using hi'), getElem_map, Function.comp_apply,
      getD_eq_getElem _ _ hi']
  rw [movedOffset, movedOffset, hpoint, h.sizes, h.length, hpoint', hmemory, hmemory,
    rowMajor_append_ones (by simp), rowMajor_groups, h.output,
    flat_nonUnit fun d hd => hlt d (hdims d hd)]
  rfl

end Offset

end Grouping

section Infer

variable {input : RankedTensorType} {memPerm dstOrder : DimsOrder} {strictInfer : Bool}

theorem memoryOrder_fromNumDims (values : List ℕ) :
    (fromNumDims values.length).memoryOrder values = values := map_getD_range values 0

theorem numDims_fromNumDims (n : ℕ) : (fromNumDims n).numDims = n := length_range

theorem length_getMemShape (input : RankedTensorType) : input.getMemShape.length =
    input.shape.length := by
  rw [RankedTensorType.getMemShape, length_memoryOrder, input.numDims_eq]

/-- The type of a permutation. -/
def permutedType (input : RankedTensorType) (memPerm dstOrder : DimsOrder) (strictInfer : Bool) :
    RankedTensorType where
  shape := dstOrder.logicalOrder (memPerm.memoryOrder input.getMemShape)
  elemType := input.elemType
  dimsOrder := dstOrder
  memSpace := if strictInfer then input.memSpace else none
  numDims_eq := (dstOrder.length_logicalOrder _).symm

theorem applyPerm_eq_ok {memShape out : List ℕ} {perm : DimsOrder} :
    applyPerm memShape perm.toPermutation = .ok out ↔
      memShape.length = perm.numDims ∧ perm.memoryOrder memShape = out := by
  by_cases h : memShape.length = perm.numDims
  · rw [applyPerm_eq h, Except.ok.injEq]
    exact (and_iff_right h).symm
  · rw [applyPerm, fromPermutation_toPermutation]
    simp [throwUnless, h, bind, Except.bind]

theorem infer_eq_ok {out : RankedTensorType} :
    inferPermuteReturnTypeComponents input memPerm dstOrder strictInfer = .ok out ↔
      (input.shape.length = memPerm.numDims ∧ memPerm.numDims = dstOrder.numDims) ∧
        permutedType input memPerm dstOrder strictInfer = out := by
  have hlength : (input.dimsOrder.memoryOrder input.shape).length = input.shape.length :=
    length_getMemShape input
  rw [inferPermuteReturnTypeComponents, toMemoryOrder_eq input.numDims_eq.symm]
  simp only [bind_eq_ok, Except.ok.injEq, exists_eq_left', applyPerm_eq_ok, hlength,
    throwUnless_eq_ok, exists_const, pure, Except.pure]
  constructor
  · rintro ⟨_, ⟨hrank, rfl⟩, hdst, rfl⟩
    rw [length_memoryOrder] at hdst
    exact ⟨⟨hrank, hdst⟩, rfl⟩
  · rintro ⟨⟨hrank, hdst⟩, rfl⟩
    refine ⟨_, ⟨hrank, rfl⟩, ?_, rfl⟩
    rwa [length_memoryOrder]

theorem permuteCastOp_identity (h : dstOrder.numDims = input.shape.length) :
    permuteCastOp input dstOrder (fromNumDims input.shape.length) =
      .ok (permutedType input (fromNumDims input.shape.length) dstOrder true) := by
  have hnum : input.getMemShape.length = (fromNumDims input.shape.length).numDims := by
    rw [length_getMemShape, numDims_fromNumDims]
  have htrivial : (nonUnit input.getMemShape (List.range input.shape.length)).Pairwise (· ≤ ·) :=
    pairwise_le_range.filter _
  have hcast := isTrivialPermute_eq hnum
  rw [show (fromNumDims input.shape.length).toPermutation = List.range input.shape.length
    from rfl, decide_eq_true htrivial] at hcast
  have hinfer : inferPermuteReturnTypeComponents input (fromNumDims input.shape.length)
      dstOrder true = _ := infer_eq_ok.mpr ⟨⟨(numDims_fromNumDims input.shape.length).symm,
    (numDims_fromNumDims _).trans h.symm⟩, rfl⟩
  rw [permuteCastOp, toMemoryOrder_eq input.numDims_eq.symm]
  exact bind_eq_ok.mpr ⟨_, rfl, bind_eq_ok.mpr ⟨true, hcast, bind_eq_ok.mpr
    ⟨(), throwUnless_eq_ok.mpr rfl, hinfer⟩⟩⟩

theorem getMemShape_permutedType (h : memPerm.numDims = dstOrder.numDims) :
    (permutedType input memPerm dstOrder strictInfer).getMemShape =
      memPerm.memoryOrder input.getMemShape :=
  memoryOrder_logicalOrder ((memPerm.length_memoryOrder _).trans h)

@[simp] theorem getMemShape_reshapeOp (input : RankedTensorType) (shapeValue : List ℕ) :
    (reshapeOp input shapeValue).getMemShape = shapeValue := memoryOrder_fromNumDims shapeValue

theorem prod_getMemShape (input : RankedTensorType) : input.getMemShape.prod = input.shape.prod :=
  (toMemory_perm input.numDims_eq.symm).prod_eq

end Infer

section Legalize

open LegalizeNDMemPermute

variable {origOp : MemPermuteOp}

theorem MemPermuteOp.ranks_eq (origOp : MemPermuteOp) :
    origOp.input.shape.length = origOp.memPerm.numDims ∧
      origOp.memPerm.numDims = origOp.dstOrder.numDims :=
  (infer_eq_ok.mp origOp.inferred).1

theorem MemPermuteOp.output_eq (origOp : MemPermuteOp) :
    permutedType origOp.input origOp.memPerm origOp.dstOrder false = origOp.output :=
  (infer_eq_ok.mp origOp.inferred).2

theorem exists_merged_grouping (origOp : MemPermuteOp) : ∃ groups,
    Grouping origOp.input.getMemShape origOp.memPerm.toPermutation (merged origOp) groups := by
  apply exists_grouping
  rw [length_getMemShape, origOp.ranks_eq.1]
  exact origOp.memPerm.isPermutation

theorem mergedPermutation_perm {groups : List (List ℕ)}
    (h : Grouping origOp.input.getMemShape origOp.memPerm.toPermutation (merged origOp) groups) :
    (mergedPermutation origOp).Perm (List.range (mergedPermutation origOp).length) := by
  have hperm :=
    (h.perm.append_right (List.range' (merged origOp).length (4 - (merged origOp).length)))
  have hrange := range_add (n := (merged origOp).length) (m := 4 - (merged origOp).length)
  rw [← range'_eq_map_range] at hrange
  rw [← h.length, ← hrange] at hperm
  have hlength := hperm.length_eq
  rw [length_range] at hlength
  rwa [← hlength] at hperm

theorem prod_mergedShape {groups : List (List ℕ)}
    (h : Grouping origOp.input.getMemShape origOp.memPerm.toPermutation (merged origOp) groups) :
    (mergedShape origOp).prod = origOp.input.shape.prod := by
  rw [mergedShape, h.sizes, prod_append, prod_extent, h.input, extent_nonUnit, prod_replicate,
    one_pow, mul_one, ← prod_getMemShape, extent, map_getD_range]

theorem length_mergedShape (h : (merged origOp).length ≤ 4) : (mergedShape origOp).length = 4 := by
  rw [mergedShape, length_append, length_map, length_insertionSort, length_replicate]
  omega

theorem length_mergedPermutation (h : (merged origOp).length ≤ 4) :
    (mergedPermutation origOp).length = 4 := by
  rw [mergedPermutation, length_append, normalizePermutation, length_map, length_map,
    length_range']
  omega

/-- The pass never fails, and replaces every permutation that is not of rank four and leaves at most
four dimensions. Each element then moves to the place in memory that it has in the original output,
and the last cast has the type of that. -/
theorem legalizeNDMemPermute_preserves (origOp : MemPermuteOp) : ∃ result, safeRunOnFunc origOp =
    .ok result ∧
    (result.isSome ↔ origOp.input.shape.length ≠ 4 ∧ (merged origOp).length ≤ 4) ∧
    ∀ newOps ∈ result, newOps.inputReshape.shape.length = 4 ∧
      newOps.inputReshape.shape.prod = origOp.input.shape.prod ∧
      (∀ offset < origOp.input.shape.prod,
        movedOffset newOps.inputReshape.getMemShape newOps.reducedPermutation offset =
          movedOffset origOp.input.getMemShape origOp.memPerm offset) ∧
      newOps.newSequence = origOp.output := by
  obtain ⟨groups, h⟩ := exists_merged_grouping origOp
  rw [safeRunOnFunc]
  split_ifs with hskip
  · refine ⟨none, rfl, ?_, fun newOps hnewOps => by cases hnewOps⟩
    simp only [Option.isSome_none, Bool.false_eq_true, false_iff]
    omega
  · have hrank : (merged origOp).length ≤ 4 := by omega
    have hlength := length_mergedShape hrank
    have hlength' := length_mergedPermutation hrank
    let reduced : DimsOrder := ⟨mergedPermutation origOp, mergedPermutation_perm h⟩
    have hreduced : DimsOrder.fromPermutation (mergedPermutation origOp) = .ok reduced :=
      dif_pos (mergedPermutation_perm h)
    have hnum : (mergedShape origOp).length = reduced.numDims := hlength.trans hlength'.symm
    have houtput : origOp.output.getMemShape =
        origOp.memPerm.memoryOrder origOp.input.getMemShape := by
      rw [← origOp.output_eq, getMemShape_permutedType origOp.ranks_eq.2]
    have hdst : origOp.dstOrder.numDims = origOp.output.getMemShape.length := by
      rw [houtput, DimsOrder.length_memoryOrder, origOp.ranks_eq.2]
    -- the operations in turn
    let inputCast := permutedType origOp.input (DimsOrder.fromNumDims origOp.input.shape.length)
      (DimsOrder.fromNumDims origOp.input.shape.length) true
    let inputReshape := reshapeOp inputCast (mergedShape origOp)
    let newPermute := permutedType inputReshape reduced
      (DimsOrder.fromNumDims (mergedShape origOp).length) false
    let outputReshape := reshapeOp newPermute origOp.output.getMemShape
    have hcast : permuteCastOp origOp.input _ _ = .ok inputCast :=
      permuteCastOp_identity (numDims_fromNumDims _)
    have hpermute : inferPermuteReturnTypeComponents inputReshape reduced _ false =
        .ok newPermute :=
      infer_eq_ok.mpr ⟨⟨hnum, hnum.symm.trans (numDims_fromNumDims _).symm⟩, rfl⟩
    have hsequence : permuteCastOp outputReshape origOp.dstOrder _ = .ok _ :=
      permuteCastOp_identity hdst
    refine ⟨_, bind_eq_ok.mpr ⟨reduced, hreduced, bind_eq_ok.mpr ⟨inputCast, hcast, bind_eq_ok.mpr
      ⟨newPermute, hpermute, bind_eq_ok.mpr ⟨_, hsequence, rfl⟩⟩⟩⟩, ?_, ?_⟩
    · simp only [Option.isSome_some, true_iff]
      omega
    rintro newOps ⟨⟩
    refine ⟨hlength, prod_mergedShape h, fun offset hoffset => ?_, ?_⟩
    · rw [getMemShape_reshapeOp]
      apply h.movedOffset_eq _ rfl
      · rwa [prod_getMemShape]
      · rw [length_getMemShape, origOp.ranks_eq.1]
    · rw [← origOp.output_eq]
      ext1
      · change origOp.dstOrder.logicalOrder
          ((DimsOrder.fromNumDims origOp.output.getMemShape.length).memoryOrder
          outputReshape.getMemShape) = origOp.dstOrder.logicalOrder _
        rw [getMemShape_reshapeOp, memoryOrder_fromNumDims, houtput]
      · rfl
      · rfl
      · rfl

/-- The last of five dimensions becomes the second one: three of them stay adjacent. -/
def lastToSecond : MemPermuteOp where
  input := ⟨[2, 4, 25, 255, 255], .f16, fromNumDims 5, none, rfl⟩
  output := permutedType ⟨[2, 4, 25, 255, 255], .f16, fromNumDims 5, none, rfl⟩
    ⟨[0, 4, 1, 2, 3], by decide⟩ (fromNumDims 5) false
  memPerm := ⟨[0, 4, 1, 2, 3], by decide⟩
  dstOrder := fromNumDims 5
  inferred := infer_eq_ok.mpr ⟨by decide, rfl⟩

example : mergedShape lastToSecond = [2, 25500, 255, 1] ∧
    mergedPermutation lastToSecond = [0, 2, 1, 3] := by decide

theorem legalizeNDMemPermute_preserves_lastToSecond : ∃ newOps,
    safeRunOnFunc lastToSecond = .ok (some newOps) ∧ newOps.inputReshape.shape.length = 4 ∧
      (∀ offset < lastToSecond.input.shape.prod,
        movedOffset newOps.inputReshape.getMemShape newOps.reducedPermutation offset =
          movedOffset lastToSecond.input.getMemShape lastToSecond.memPerm offset) ∧
      newOps.newSequence = lastToSecond.output := by
  obtain ⟨result, hrun, hrewrites, hall⟩ := legalizeNDMemPermute_preserves lastToSecond
  obtain ⟨newOps, rfl⟩ := Option.isSome_iff_exists.mp (hrewrites.mpr (by decide))
  obtain ⟨hlength, -, hmoves, hsequence⟩ := hall newOps rfl
  exact ⟨newOps, hrun, hlength, hmoves, hsequence⟩

end Legalize

end Vpux.IE
