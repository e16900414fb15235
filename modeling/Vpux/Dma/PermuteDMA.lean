import Vpux.Data.DimPositions
import Vpux.Dma.Descriptor

/-! A permutation of the dimensions as transfers (`passes/unroll_permute_to_nndma.cpp`,
`convert_to_dma_utils.cpp` and the generator of its descriptors). -/
namespace Vpux.Dma
open Data Vpux.Const

def HCW : List ℕ := [1, 0, 2]

def CWH : List ℕ := [0, 2, 1]

def WHC : List ℕ := [2, 1, 0]

def WCHN : List ℕ := [3, 1, 2, 0]

def WHNC : List ℕ := [3, 2, 0, 1]

def HWCN : List ℕ := [2, 3, 1, 0]

/-- An operation that is not distributed, with the byte offsets of the buffers it reads and
writes. The descriptor is there already when a distributed operation was unrolled. -/
structure PermuteDMAOp where
  input : NDType
  output : NDType
  srcOffset : ℕ
  dstOffset : ℕ
  memPerm : DimsOrder
  port : ℕ
  dmaDescriptor : Option DMADescriptorAttr

def getMemShape (type : NDType) : List ℕ := type.dimsOrder.memoryOrder type.shape

section Merge

/-- The loop that drops every entry that follows its predecessor. -/
def mergeSequence : Option ℕ → List ℕ → List ℕ
  | _, [] => []
  | prev, idx :: rest =>
    if prev.map (· + 1) = some idx then mergeSequence (some idx) rest
    else idx :: mergeSequence (some idx) rest

/-- The dimensions of size one are dropped first. -/
def getPermuteDMAMergedMemPerm (inType : NDType) (memPerm : DimsOrder) : List ℕ :=
  let inputMemShape := getMemShape inType
  let mergedPermuteArray := memPerm.toPermutation.filter fun d => inputMemShape.getD d 0 ≠ 1
  sortIndex (mergeSequence none (sortIndex mergedPermuteArray))

def getPermuteDMANumPlaneDim (inType : NDType) (memPerm : DimsOrder) : ℕ :=
  if getPermuteDMAMergedMemPerm inType memPerm = CWH then 1 else 0

/-- The loop over the output dimensions still to come, with the product of the run so far. -/
def mergedSizes (inputMemShape : List ℕ) (shapeSize : ℕ) : List ℕ → List ℕ
  | [] => []
  | d :: dims =>
    if dims.head? = some (d + 1) then
      mergedSizes inputMemShape (shapeSize * inputMemShape.getD d 0) dims
    else
      [shapeSize * inputMemShape.getD d 0].filter (· ≠ 1) ++ mergedSizes inputMemShape 1 dims

/-- The input as a matrix, or in three dimensions, so that the operation swaps two of them. -/
def getPermuteDMAInputShape (inType : NDType) (memPerm : DimsOrder) :
    Except Fault (Option (List ℕ)) :=
  let mergedMemPerm := getPermuteDMAMergedMemPerm inType memPerm
  match mergedSizes (getMemShape inType) 1 memPerm.toPermutation with
  | [] => .error .overread
  | [size] => .ok (some [1, size])
  | [first, last] => .ok (some [last, first])
  | [first, second, third] =>
    if mergedMemPerm = HCW then .ok (some [second, first, third])
    else if mergedMemPerm = CWH then .ok (some [first, third, second])
    else if mergedMemPerm = WHC then
      let anyDimIsOne := ∃ dim ∈ inType.shape.drop 1, dim = 1
      let d0IsInPermute := memPerm.toPermutation = WCHN ∨ memPerm.toPermutation = WHNC ∨
        memPerm.toPermutation = HWCN
      if anyDimIsOne ∨ d0IsInPermute then .ok none else .ok (some [third, second, first])
    else .ok none
  | _ => .ok none

end Merge

section SubShapes

/-- At most as many planes in each part as a transfer can have. -/
def computeDMASubShape (shape : List ℕ) (numPlaneDim : ℕ) : Except Fault (List (List ℕ)) := do
  throwUnless (shape.length = 2 ∨ shape.length = 3) "Shape size should be 2 or 3"
  throwUnless (numPlaneDim < shape.length) "numPlaneDim index doesn't match shape size"
  let totalNumPlane := shape.getD numPlaneDim 0
  let numberDMAs := divUp totalNumPlane DMA_MAX_NUMBER_PLANES
  if 1 < numberDMAs then
    .ok (List.replicate (numberDMAs - 1) (shape.set numPlaneDim DMA_MAX_NUMBER_PLANES) ++
      [shape.set numPlaneDim (totalNumPlane - DMA_MAX_NUMBER_PLANES * (numberDMAs - 1))])
  else .ok [shape]

def getPermuteDMASubInputShapes (inType : NDType) (memPerm : DimsOrder) :
    Except Fault (Option (List (List ℕ))) := do
  match ← getPermuteDMAInputShape inType memPerm with
  | none => .ok none
  | some newInputShape =>
    let numPlaneDim := getPermuteDMANumPlaneDim inType memPerm
    .ok (some (← computeDMASubShape newInputShape numPlaneDim))

/-- The input with the channels of the output where these were expanded. -/
def expandedInputShape (inType outType : NDType) (inShape : List ℕ) : Except Fault (List ℕ) := do
  let outputChannel := outType.shape.getD 1 0
  if inType.shape.prod ≠ outType.shape.prod then
    throwUnless (inShape.length = 2 ∧ inType.dimsOrder = NCHW ∧ outType.dimsOrder = NHWC)
      "PermuteDMA with unsupport input output type."
    .ok (inShape.set 0 outputChannel)
  else .ok inShape

def getPermuteDMASubOutputShape (inType outType : NDType) (memPerm : DimsOrder)
    (subInput : List ℕ) : Except Fault (List ℕ) := do
  let mergedMemPerm := getPermuteDMAMergedMemPerm inType memPerm
  match ← expandedInputShape inType outType subInput with
  | [front, back] => .ok [back, front]
  | [h, w, c] =>
    if mergedMemPerm = HCW then .ok [w, h, c]
    else if mergedMemPerm = CWH then .ok [h, c, w]
    else .error (.exception "unsupported inShape with memPerm")
  | _ => .error (.exception "unsupported inShape")

def getPermuteDMASubOutputShapes (subInputShapes : List (List ℕ)) (inType outType : NDType)
    (memPerm : DimsOrder) : Except Fault (List (List ℕ)) :=
  subInputShapes.mapM (getPermuteDMASubOutputShape inType outType memPerm)

def getPermuteDMAOutputShape (inType outType : NDType) (memPerm : DimsOrder) :
    Except Fault (Option (List ℕ)) := do
  match ← getPermuteDMAInputShape inType memPerm with
  | none => .ok none
  | some mergedInputShape =>
    let shapes ← getPermuteDMASubOutputShapes [mergedInputShape] inType outType memPerm
    .ok shapes.head?

end SubShapes

namespace PermuteDmaDescriptorGenerator

variable (mergedInputShape mergedOutputShape : List ℕ) (elemTypeSize : ℕ)

/-- Of a matrix every row is a plane, and goes to a column. -/
def generateWithTwoAxis : Except Fault DMADescriptorAttr := do
  throwUnless (mergedInputShape.length = 2) "The size of merged input shape is not equal to 2"
  throwUnless (mergedOutputShape.length = 2) "The size of merged output shape is not equal to 2"
  throwUnless (0 < elemTypeSize) "Invalid element size"
  let IN := mergedInputShape.getD 0 0
  let IC := mergedInputShape.getD 1 0
  let OC := mergedOutputShape.getD 1 0
  .ok
    { numPlanes := IN
      len := IC * elemTypeSize
      srcWidth := IC * elemTypeSize
      srcStride := elemTypeSize
      srcPlaneStride := IC * elemTypeSize
      dstWidth := elemTypeSize
      dstStride := OC * elemTypeSize
      dstPlaneStride := elemTypeSize }

def generateWithSwapFront : Except Fault DMADescriptorAttr := do
  throwUnless (mergedInputShape.length = 3) "The size of merged input shape is not equal to 3"
  throwUnless (0 < elemTypeSize) "Invalid element size"
  let H := mergedInputShape.getD 0 0
  let W := mergedInputShape.getD 1 0
  let C := mergedInputShape.getD 2 0
  .ok
    { numPlanes := H
      len := W * C * elemTypeSize
      srcWidth := W * C * elemTypeSize
      srcStride := elemTypeSize
      srcPlaneStride := W * C * elemTypeSize
      dstWidth := C * elemTypeSize
      dstStride := H * C * elemTypeSize
      dstPlaneStride := C * elemTypeSize }

def generateWithSwapBack : Except Fault DMADescriptorAttr := do
  throwUnless (mergedInputShape.length = 3) "The size of merged input shape is not equal to 2"
  throwUnless (0 < elemTypeSize) "Invalid element size"
  let H := mergedInputShape.getD 0 0
  let W := mergedInputShape.getD 1 0
  let C := mergedInputShape.getD 2 0
  .ok
    { numPlanes := W
      len := H * C * elemTypeSize
      srcWidth := C * elemTypeSize
      srcStride := C * W * elemTypeSize
      srcPlaneStride := C * elemTypeSize
      dstWidth := elemTypeSize
      dstStride := W * elemTypeSize
      dstPlaneStride := elemTypeSize }

def generate (mergedMemPerm : List ℕ) : Except Fault DMADescriptorAttr := do
  throwUnless (mergedMemPerm.length = 2 ∨ mergedMemPerm.length = 3) "Invalid merged mem perm"
  if mergedInputShape.length = 2 then
    generateWithTwoAxis mergedInputShape mergedOutputShape elemTypeSize
  else if mergedMemPerm = HCW then generateWithSwapFront mergedInputShape elemTypeSize
  else if mergedMemPerm = CWH then generateWithSwapBack mergedInputShape elemTypeSize
  else .error (.exception "Unsupported merged mem perm")

end PermuteDmaDescriptorGenerator

def value {α : Type} : Option α → Except Fault α
  | some a => .ok a
  | none => .error (.exception "bad optional access")

namespace PermuteDMAOp

variable (op : PermuteDMAOp)

def descriptor (elemTypeSize : ℕ) : Except Fault DMADescriptorAttr := do
  match op.dmaDescriptor with
  | some dmaDescriptor => .ok dmaDescriptor
  | none =>
    let mergedInputShape ← value (← getPermuteDMAInputShape op.input op.memPerm)
    let mergedOutputShape ← value (← getPermuteDMAOutputShape op.input op.output op.memPerm)
    PermuteDmaDescriptorGenerator.generate mergedInputShape mergedOutputShape elemTypeSize
      (getPermuteDMAMergedMemPerm op.input op.memPerm)

def createSubOps (dmaPortCount : ℕ) (dmaDescriptor : DMADescriptorAttr) (numPlaneDim : ℕ)
    (subInputShapes : List (List ℕ)) : Unrolled :=
  subInputShapes.foldl (fun u subInputShape =>
    let newDescriptor := updateNumPlanes dmaDescriptor (subInputShape.getD numPlaneDim 0)
    let u := u.createSubOp dmaPortCount newDescriptor
    { u with
      srcOffset := u.srcOffset + newDescriptor.numPlanes * newDescriptor.srcPlaneStride
      dstOffset := u.dstOffset + newDescriptor.numPlanes * newDescriptor.dstPlaneStride })
    ⟨0, op.srcOffset, op.dstOffset, []⟩

def rewritePermuteDMA (dmaPortCount : ℕ) : Except Fault (List SubDMA) := do
  let elemTypeSize ← toByte (getElemTypeSize op.input.elemType)
  let dmaDescriptor ← op.descriptor elemTypeSize
  let numPlaneDim := getPermuteDMANumPlaneDim op.input op.memPerm
  let subInputShapes ← value (← getPermuteDMASubInputShapes op.input op.memPerm)
  let _ ← getPermuteDMASubOutputShapes subInputShapes op.input op.output op.memPerm
  let u := op.createSubOps dmaPortCount dmaDescriptor numPlaneDim subInputShapes
  if op.dmaDescriptor.isNone then .ok u.created
  else .ok (u.created.map fun dma => { dma with port := op.port })

end PermuteDMAOp

-- The runs that the sizes are merged by are those that the permutation is merged by.

/-- What is left of the runs of a permutation. -/
def nonUnitRuns (memShape perm : List ℕ) : List (List ℕ) :=
  ((runs perm).map (nonUnit memShape)).filter (· ≠ [])

open List

section Extent

variable {memShape : List ℕ}

theorem mergedSizes_run {a n : ℕ} {m : List ℕ} (h : m.head? ≠ some (a + n + 1)) (k : ℕ) :
    mergedSizes memShape k (List.range' a (n + 1) ++ m) =
      [k * extent memShape (List.range' a (n + 1))].filter (· ≠ 1) ++ mergedSizes memShape 1 m := by
  induction n generalizing a k with
  | zero => simp [mergedSizes, extent, h]
  | succ n ih =>
    have hnext : (List.range' (a + 1) (n + 1) ++ m).head? = some (a + 1) := by
      simp [range'_succ]
    rw [range'_succ, cons_append, mergedSizes, if_pos hnext,
      ih (by rwa [show a + 1 + n + 1 = a + (n + 1) + 1 by omega])]
    simp [extent, mul_assoc]

theorem mergedSizes_eq (perm : List ℕ) :
    mergedSizes memShape 1 perm = (nonUnitRuns memShape perm).map (extent memShape) := by
  induction perm using run_induction with
  | nil => rfl
  | run a n m hm ih =>
    rw [mergedSizes_run hm, ih, one_mul]
    simp only [nonUnitRuns, runs_append hm, map_cons, filter_cons]
    by_cases hr : nonUnit memShape (List.range' a (n + 1)) = []
    · simp [hr, extent_eq_one_iff.mpr hr]
    · simp [hr, extent_eq_one_iff, extent_nonUnit]

end Extent

section Blocks

theorem mergeSequence_run {a n : ℕ} {prev : Option ℕ} (m : List ℕ)
    (hprev : prev.map (· + 1) ≠ some a) :
    mergeSequence prev (List.range' a (n + 1) ++ m) = a :: mergeSequence (some (a + n)) m := by
  have hrest : ∀ n a, mergeSequence (some a) (List.range' (a + 1) n ++ m) =
      mergeSequence (some (a + n)) m := by
    intro n
    induction n with
    | zero => simp
    | succ n ih =>
      intro a
      rw [range'_succ, cons_append, mergeSequence, Option.map_some,
        if_pos rfl, ih,
        show a + 1 + n = a + (n + 1) by omega]
  rw [range'_succ, cons_append, mergeSequence, if_neg hprev, hrest]

theorem mergeSequence_eq_runStarts (l : List ℕ) : mergeSequence none l = runStarts l := by
  have hall : ∀ prev : Option ℕ, (∀ a ∈ l.head?, prev.map (· + 1) ≠ some a) →
      mergeSequence prev l = runStarts l := by
    induction l using run_induction with
    | nil => simp [mergeSequence, runStarts]
    | run a n m hm ih =>
      intro prev hprev
      rw [runStarts_append hm, mergeSequence_run m (hprev a (by simp [range'_succ])), ih]
      intro b hb hnext
      rw [hb, ← hnext] at hm
      exact hm rfl
  exact hall none (by simp)

variable {memShape : List ℕ} {perm : List ℕ} {n : ℕ}

theorem flatten_nonUnitRuns (perm : List ℕ) :
    (nonUnitRuns memShape perm).flatten = nonUnit memShape perm := by
  rw [nonUnitRuns, flatten_filter_ne_nil]
  conv_rhs => rw [← flatten_runs perm]
  rw [nonUnit, filter_flatten]
  rfl

variable {r : List ℕ}

theorem extent_ne_one_of_mem (hr : r ∈ nonUnitRuns memShape perm) : extent memShape r ≠ 1 := by
  simp only [nonUnitRuns, mem_filter, mem_map] at hr
  obtain ⟨⟨run, -, rfl⟩, hne⟩ := hr
  rw [extent_nonUnit, ne_eq, extent_eq_one_iff]
  simpa using hne

theorem range'_infix_range {a k n : ℕ} (h : a + k ≤ n) : List.range' a k <:+: List.range n := by
  refine ⟨List.range' 0 a, List.range' (a + k) (n - (a + k)), ?_⟩
  have happend : ∀ m l, List.range' 0 m ++ List.range' m l = List.range' 0 (m + l) := by
    intro m l
    simpa only [Nat.zero_add] using range'_append_1 (s := 0) (m := m) (n := l)
  rw [range_eq_range', happend, happend, Nat.add_sub_cancel' h]

variable (hperm : perm.Perm (List.range n))
include hperm

theorem infix_of_mem_nonUnitRuns (hr : r ∈ nonUnitRuns memShape perm) :
    r <:+: nonUnit memShape (List.range n) := by
  simp only [nonUnitRuns, mem_filter, mem_map] at hr
  obtain ⟨⟨run, hrun, rfl⟩, -⟩ := hr
  have hsub : ∀ d ∈ run, d < n := fun d hd => by
    have hmem : d ∈ (runs perm).flatten := mem_flatten_of_mem hrun hd
    rw [flatten_runs] at hmem
    exact mem_range.mp (hperm.subset hmem)
  obtain ⟨a, k, rfl⟩ := exists_range'_of_mem_runs hrun
  have hlast := hsub (a + k) (by simp)
  exact (range'_infix_range (by omega)).filter _

theorem nonUnit_range_eq :
    (sortIndex (nonUnit memShape perm)).map ((nonUnit memShape perm).getD · 0) =
      nonUnit memShape (List.range n) := by
  have hnodup : (nonUnit memShape perm).Nodup :=
    (hperm.nodup_iff.mpr nodup_range).filter _
  apply List.Perm.eq_of_pairwise' (map_sortIndex_sorted hnodup)
    (pairwise_lt_range.filter _)
  exact (map_sortIndex_perm _ _ _ rfl).trans (hperm.filter _)

theorem start_notMem_tail (hr : r ∈ nonUnitRuns memShape perm) {h : ℕ}
    (hh : h ∈ runStarts (sortIndex (nonUnit memShape perm))) :
    (nonUnit memShape perm).getD h 0 ∉ r.tail := by
  have hnodup : (nonUnit memShape perm).Nodup :=
    (hperm.nodup_iff.mpr nodup_range).filter _
  intro hmem
  obtain ⟨w, x, z, hsplit⟩ : ∃ w x z, r = w ++ x :: (nonUnit memShape perm).getD h 0 :: z := by
    cases r with
    | nil => simp at hmem
    | cons x r =>
      obtain ⟨s, z, hs⟩ := append_of_mem hmem
      rw [tail_cons] at hs
      refine ⟨(x :: s).dropLast, (x :: s).getLast (by simp), z, ?_⟩
      rw [append_cons, dropLast_concat_getLast, hs, cons_append]
  obtain ⟨u, v, huv⟩ := infix_of_mem_nonUnitRuns hperm hr
  obtain ⟨u', v', huv'⟩ := infix_of_mem_flatten hr
  rw [flatten_nonUnitRuns] at huv'
  have hleft : nonUnit memShape perm =
      (u' ++ w) ++ x :: (nonUnit memShape perm).getD h 0 :: (z ++ v') :=
    huv'.symm.trans (by simp [hsplit])
  have hright : (sortIndex (nonUnit memShape perm)).map ((nonUnit memShape perm).getD · 0) =
      (u ++ w) ++ x :: (nonUnit memShape perm).getD h 0 :: (z ++ v) :=
    (nonUnit_range_eq hperm).trans (huv.symm.trans (by simp [hsplit]))
  exact ne_of_adjacent hnodup hleft hright hh rfl

/-- The runs that are left are at least as many as the merged dimensions. When they are as many,
they are blocks of the dimensions in their own order, permuted as the merged permutation says. -/
theorem exists_blocks {mergedMemPerm : List ℕ}
    (hmerged : mergedMemPerm = sortIndex (mergeSequence none (sortIndex (nonUnit memShape perm)))) :
    mergedMemPerm.length ≤ (nonUnitRuns memShape perm).length ∧
      (mergedMemPerm.length = (nonUnitRuns memShape perm).length →
        ∃ blocks : List (List ℕ), blocks.length = mergedMemPerm.length ∧
          blocks.flatten = nonUnit memShape (List.range n) ∧
          mergedMemPerm.map (blocks.getD · []) = nonUnitRuns memShape perm) := by
  rw [mergeSequence_eq_runStarts] at hmerged
  generalize hp : sortIndex (nonUnit memShape perm) = p at hmerged
  have hpositions : p.Perm (List.range (nonUnit memShape perm).length) :=
    hp ▸ sortIndex_perm (nonUnit memShape perm)
  let values : List ℕ → List ℕ := fun b => b.map ((nonUnit memShape perm).getD · 0)
  have hblock : ∀ i, ((runs p).map values).getD i [] = values ((runs p).getD i []) :=
    fun i => getD_map (runs p) [] values
  have hmem : ∀ x ∈ mergedMemPerm.map (((runs p).map values).getD · []),
      ∃ h k, h ∈ runStarts p ∧ x = values (List.range' h (k + 1)) := by
    intro x hx
    rw [mem_map, hmerged] at hx
    obtain ⟨i, hi, rfl⟩ := hx
    have hlt : i < (runs p).length := by
      have := mem_range.mp ((sortIndex_perm _).subset hi)
      simpa [runStarts] using this
    have hrun : (runs p).getD i [] ∈ runs p := by
      rw [getD_eq_getElem _ _ hlt]
      exact getElem_mem hlt
    obtain ⟨h, k, hhk⟩ := exists_range'_of_mem_runs hrun
    refine ⟨h, k, ?_, by rw [hblock, hhk]⟩
    have : h = ((runs p).getD i []).headD 0 := by rw [hhk, range'_succ, headD_cons]
    rw [this]
    exact mem_map_of_mem hrun
  have hflat : (mergedMemPerm.map (((runs p).map values).getD · [])).flatten =
      (nonUnitRuns memShape perm).flatten := by
    have hcomp : mergedMemPerm.map (((runs p).map values).getD · []) =
        ((sortIndex (runStarts p)).map ((runs p).getD · [])).map values := by
      rw [map_map, hmerged]
      exact map_congr_left fun i _ => hblock i
    rw [hcomp, ← map_flatten, flatten_map_sortIndex hpositions, map_getD_range,
      flatten_nonUnitRuns]
  have hrefines := length_le_of_refines hflat ?_ ?_ ?_
  · rw [length_map] at hrefines
    refine ⟨hrefines.1, fun hlength => ⟨(runs p).map values, ?_, ?_, hrefines.2 hlength⟩⟩
    · simp [hmerged, runStarts]
    · rw [← nonUnit_range_eq hperm, hp, ← map_flatten, flatten_runs]
  · intro x hx
    obtain ⟨h, k, -, rfl⟩ := hmem x hx
    simp [values]
  · intro r hr
    simpa using (mem_filter.mp hr).2
  · intro x hx r hr a ha
    obtain ⟨h, k, hh, rfl⟩ := hmem x (mem_of_mem_tail hx)
    have hvalue : a = (nonUnit memShape perm).getD h 0 := by
      simpa [values, range'_succ, eq_comm] using ha
    rw [hvalue]
    exact start_notMem_tail hperm hr (hp ▸ hh)

end Blocks

end Vpux.Dma
