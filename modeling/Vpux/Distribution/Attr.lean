import Vpux.Tiling.BackInfer

/-! Distributed tensors: how a tensor is spread over clusters, and when an attribute is valid
(`dialect/VPU/attributes.cpp`). -/
namespace Vpux.VPU

section Attr
open Tiling Dims4D

/-- Bits of a distribution mode. -/
abbrev DistributionMode := ℕ

namespace DistributionMode

def NONE : DistributionMode := 0x0
def OVERLAPPED : DistributionMode := 0x1
def DUPLICATED : DistributionMode := 0x2
def SEGMENTED : DistributionMode := 0x4
def MULTICASTED : DistributionMode := 0x8

end DistributionMode

open DistributionMode

def bitEnumContains (bits bit : DistributionMode) : Bool := bits &&& bit ≠ 0

/-- Attributes that are not set are `none`. -/
structure DistributedTensorAttr where
  mode : DistributionMode
  numTiles : Option (List ℤ)
  kernel : Option (List ℤ)
  pads : Option PadInfo
  strides : Option (List ℤ)
  numClusters : Option ℤ
  alignment : Option (List ℤ)
  uniformDistributedSegments : Bool
  computeShapes : Option (List (List ℤ))
  computeOffsets : Option (List (List ℤ))
  memoryShapes : Option (List (List ℤ))
  memoryOffsets : Option (List (List ℤ))
  equalMemoryAndComputeView : Bool
  deriving DecidableEq, Repr

/-- What `verify` emits, with the values that its messages print. -/
inductive VerifyError where
  /-- "Missing compute_offsets." -/
  | missingComputeOffsets
  /-- "Missing compute_shapes." -/
  | missingComputeShapes
  /-- "Missing memory_offsets." -/
  | missingMemoryOffsets
  /-- "Missing memory_shapes." -/
  | missingMemoryShapes
  /-- "Missing memory shapes and offsets." -/
  | missingMemoryShapesAndOffsets
  /-- "Missing compute shapes and offsets." -/
  | missingComputeShapesAndOffsets
  /-- "Missing number of clusters." -/
  | missingNumClusters
  /-- "The number of clusters must be greater than 0." -/
  | numClustersNotPositive (numClusters : ℤ)
  /-- "Missing number of tiles and clusters." -/
  | missingNumTiles
  /-- "Currently supporting single axis cluster tiling." -/
  | notSingleAxis
  /-- "Incompatibility between tiling scheme and number of clusters" -/
  | tilesNotClusters (numTiles numClusters : ℤ)
  /-- "Overlapped cluster tiling is only supported for dimensions H and W" -/
  | overlappedAxis
  /-- "Overlapped cluster tiling does not support alignment on the same axis used for tiling." -/
  | overlappedAlignment
  /-- "Overlapped cluster tiling requires kernel, pads and strides or compute shapes and
  offsets to be set" -/
  | overlappedWithoutParams
  /-- "Overlapped cluster tiling must be defined by either kernel/strides/pads or compute
  shape/offsets, not both" -/
  | overlappedWithBoth
  /-- "Incompatibility in sizes between tensor shape and alignment" -/
  | alignmentRank (rank alignment : ℕ)
  /-- "Incompatibility in sizes between tensor shape and tiling scheme" -/
  | tilingRank (rank numTiles : ℕ)
  /-- "Expected kernel size to be 2." -/
  | kernelSize (size : ℕ)
  /-- "Invalid kernel size" -/
  | invalidKernel (height width : ℤ)
  /-- "Invalid pads" -/
  | invalidPads (pads : PadInfo)
  /-- "Expected strides size to be 2." -/
  | stridesSize (size : ℕ)
  /-- "Invalid strides" -/
  | invalidStrides (height width : ℤ)
  /-- "Invalid compute shapes/offsets for tensor shape" -/
  | invalidComputeShapes
  /-- "Invalid memory shapes/offsets for tensor shape." -/
  | invalidMemoryShapes
  deriving DecidableEq, Repr

def checkWhen (cond : Prop) [Decidable cond] (check : Except VerifyError Unit) :
    Except VerifyError Unit :=
  if cond then check else .ok ()

def emitWhen (cond : Prop) [Decidable cond] (error : VerifyError) : Except VerifyError Unit :=
  checkWhen cond (.error error)

/-- The first tiled dimension, or the rank when there is none. -/
def getDistributedTilingAxis (tilingScheme : List ℤ) : ℕ :=
  tilingScheme.findIdx fun dim => 1 < dim

namespace DistributedTensorAttr

variable (attr : DistributedTensorAttr)

def hasComputeShapesOffsets : Bool := attr.computeShapes.isSome && attr.computeOffsets.isSome

def hasMemoryShapesOffsets : Bool := attr.memoryShapes.isSome && attr.memoryOffsets.isSome

def overlappedWithKernelStridesPads : Bool :=
  attr.kernel.isSome && attr.pads.isSome && attr.strides.isSome

def isTiledMode : Bool := bitEnumContains attr.mode SEGMENTED || bitEnumContains attr.mode
    OVERLAPPED

end DistributedTensorAttr

def areShapesOffsetsValidForShape (shape : Shape) (numClusters : ℤ)
    (perClusterShapes perClusterOffsets : List (List ℤ)) : Bool :=
  perClusterShapes.length = perClusterOffsets.length ∧ (perClusterShapes.length : ℤ) = numClusters ∧
    (perClusterShapes.zip perClusterOffsets).all fun (size, offset) =>
      shape.length = size.length ∧ shape.length = offset.length ∧
        (List.range shape.length).all fun d =>
          0 ≤ offset.getD d 0 ∧ offset.getD d 0 < shape.dim d ∧
            0 < size.getD d 0 ∧ size.getD d 0 ≤ shape.dim d

/-- The limitations of the axis in the overlapped mode. -/
def verifyOverlapped (attr : DistributedTensorAttr) (axis : ℕ) : Except VerifyError Unit := do
  emitWhen (axis ≠ Act.H ∧ axis ≠ Act.W) .overlappedAxis
  attr.alignment.forM fun alignment => emitWhen (alignment.getD axis 0 ≠ 1) .overlappedAlignment
  emitWhen (!attr.overlappedWithKernelStridesPads ∧ !attr.hasComputeShapesOffsets)
    .overlappedWithoutParams
  emitWhen (attr.overlappedWithKernelStridesPads ∧ attr.hasComputeShapesOffsets)
    .overlappedWithBoth

/-- The parameters that any tiled mode may carry. -/
def verifyParams (attr : DistributedTensorAttr) (shape : Shape) : Except VerifyError Unit := do
  attr.alignment.forM fun alignment =>
    emitWhen (shape.length ≠ alignment.length) (.alignmentRank shape.length alignment.length)
  attr.numTiles.forM fun numTiles =>
    emitWhen (shape.length ≠ numTiles.length) (.tilingRank shape.length numTiles.length)
  attr.kernel.forM fun kernel => do
    emitWhen (kernel.length ≠ 2) (.kernelSize kernel.length)
    emitWhen (kernel.getD Kernel.Y 0 ≤ 0 ∨ kernel.getD Kernel.X 0 ≤ 0)
      (.invalidKernel (kernel.getD Kernel.Y 0) (kernel.getD Kernel.X 0))
  attr.pads.forM fun pads =>
    emitWhen (pads.top < 0 ∨ pads.bottom < 0 ∨ pads.left < 0 ∨ pads.right < 0) (.invalidPads pads)
  attr.strides.forM fun strides => do
    emitWhen (strides.length ≠ 2) (.stridesSize strides.length)
    emitWhen (strides.getD Kernel.Y 0 ≤ 0 ∨ strides.getD Kernel.X 0 ≤ 0)
      (.invalidStrides (strides.getD Kernel.Y 0) (strides.getD Kernel.X 0))

/-- One axis is tiled, over all clusters. -/
def verifyTiling (tilingScheme : List ℤ) (numClusters : ℤ) : Except VerifyError Unit := do
  emitWhen (tilingScheme.countP (fun dim => 1 < dim) ≠ 1) .notSingleAxis
  let axis := getDistributedTilingAxis tilingScheme
  emitWhen (tilingScheme.getD axis 0 ≠ numClusters)
    (.tilesNotClusters (tilingScheme.getD axis 0) numClusters)

/-- Shapes and offsets come in pairs, for compute and memory together. -/
def verifyExplicit (attr : DistributedTensorAttr) : Except VerifyError Unit := do
  emitWhen (attr.computeShapes.isSome ∧ attr.computeOffsets.isNone) .missingComputeOffsets
  emitWhen (attr.computeShapes.isNone ∧ attr.computeOffsets.isSome) .missingComputeShapes
  emitWhen (attr.memoryShapes.isSome ∧ attr.memoryOffsets.isNone) .missingMemoryOffsets
  emitWhen (attr.memoryShapes.isNone ∧ attr.memoryOffsets.isSome) .missingMemoryShapes
  emitWhen (attr.hasComputeShapesOffsets ∧ !attr.hasMemoryShapesOffsets)
    .missingMemoryShapesAndOffsets
  emitWhen (!attr.hasComputeShapesOffsets ∧ attr.hasMemoryShapesOffsets)
    .missingComputeShapesAndOffsets

def verifyNumClusters (attr : DistributedTensorAttr) : Except VerifyError Unit :=
  match attr.numClusters with
  | none => emitWhen (attr.mode ≠ NONE) .missingNumClusters
  | some numClusters =>
    emitWhen (attr.mode ≠ NONE ∧ numClusters ≤ 0) (.numClustersNotPositive numClusters)

/-- The checks of the segmented and the overlapped mode. -/
def verifyTiled (attr : DistributedTensorAttr) (shape : Shape) : Except VerifyError Unit :=
  match attr.numTiles, attr.numClusters with
  | some tilingScheme, some numClusters => do
    verifyTiling tilingScheme numClusters
    checkWhen (bitEnumContains attr.mode OVERLAPPED)
      (verifyOverlapped attr (getDistributedTilingAxis tilingScheme))
    verifyParams attr shape
    emitWhen (attr.hasComputeShapesOffsets ∧ !areShapesOffsetsValidForShape shape numClusters
      (attr.computeShapes.getD []) (attr.computeOffsets.getD [])) .invalidComputeShapes
    emitWhen (attr.hasMemoryShapesOffsets ∧ !areShapesOffsetsValidForShape shape numClusters
      (attr.memoryShapes.getD []) (attr.memoryOffsets.getD [])) .invalidMemoryShapes
  | _, _ => .error .missingNumTiles

def verify (attr : DistributedTensorAttr) (shape : Shape) : Except VerifyError Unit := do
  verifyExplicit attr
  verifyNumClusters attr
  checkWhen attr.isTiledMode (verifyTiled attr shape)

section Accepted

theorem of_bind_eq_ok {ε α β : Type} {x : Except ε α} {f : α → Except ε β} {b : β}
    (h : x >>= f = .ok b) : ∃ a, x = .ok a ∧ f a = .ok b := by
  cases x with
  | error e => exact absurd h (by simp [bind, Except.bind])
  | ok a => exact ⟨a, rfl, h⟩

variable {attr : DistributedTensorAttr} {shape : Shape}

theorem of_checkWhen_eq_ok {cond : Prop} [Decidable cond] {check : Except VerifyError Unit}
    {u : Unit} (h : checkWhen cond check = .ok u) (hcond : cond) : check = .ok () := by
  rw [checkWhen, if_pos hcond] at h
  exact h

theorem of_emitWhen_eq_ok {cond : Prop} [Decidable cond] {error : VerifyError} {u : Unit}
    (h : emitWhen cond error = .ok u) : ¬ cond := by
  intro hcond
  have herror : Except.error error = .ok () := of_checkWhen_eq_ok h hcond
  contradiction

theorem of_forM_eq_ok {α : Type} {a : α} {check : α → Except VerifyError Unit} {u : PUnit}
    {o : Option α} (h : o.forM check = .ok u) (ha : a ∈ o) : check a = .ok () := by
  cases ha
  exact h

theorem verify_tiled (h : verify attr shape = .ok ()) (hmode : attr.isTiledMode = true) :
    ∃ tilingScheme numClusters, attr.numTiles = some tilingScheme ∧
      attr.numClusters = some numClusters ∧ verifyTiling tilingScheme numClusters = .ok () ∧
      (bitEnumContains attr.mode OVERLAPPED →
        verifyOverlapped attr (getDistributedTilingAxis tilingScheme) = .ok ()) ∧
      verifyParams attr shape = .ok () := by
  obtain ⟨_, -, h⟩ := of_bind_eq_ok h
  obtain ⟨_, -, h⟩ := of_bind_eq_ok h
  have htiled : verifyTiled attr shape = .ok () := of_checkWhen_eq_ok h hmode
  unfold verifyTiled at htiled
  split at htiled
  · rename_i tilingScheme numClusters htiles hclusters
    obtain ⟨_, htiling, htiled⟩ := of_bind_eq_ok htiled
    obtain ⟨_, hoverlapped, htiled⟩ := of_bind_eq_ok htiled
    obtain ⟨_, hparams, -⟩ := of_bind_eq_ok htiled
    exact ⟨tilingScheme, numClusters, htiles, hclusters, htiling,
      of_checkWhen_eq_ok hoverlapped, hparams⟩
  · contradiction

theorem verifyTiling_ok {tilingScheme : List ℤ} {numClusters : ℤ}
    (h : verifyTiling tilingScheme numClusters = .ok ()) :
    getDistributedTilingAxis tilingScheme < tilingScheme.length ∧ 1 < numClusters ∧
      tilingScheme.getD (getDistributedTilingAxis tilingScheme) 0 = numClusters := by
  obtain ⟨_, hcount, h⟩ := of_bind_eq_ok h
  have hone : tilingScheme.countP (fun dim => 1 < dim) = 1 := not_not.mp (of_emitWhen_eq_ok hcount)
  have htiles : tilingScheme.getD (getDistributedTilingAxis tilingScheme) 0 = numClusters :=
    not_not.mp (of_emitWhen_eq_ok h)
  have haxis : getDistributedTilingAxis tilingScheme < tilingScheme.length := by
    rw [getDistributedTilingAxis, List.findIdx_lt_length]
    have hpos : 0 < tilingScheme.countP (fun dim => 1 < dim) := by omega
    exact List.countP_pos_iff.mp hpos
  refine ⟨haxis, ?_, htiles⟩
  have htiled := List.findIdx_getElem (w := haxis)
  rw [← htiles, List.getD_eq_getElem _ _ haxis]
  exact of_decide_eq_true htiled

section

variable (h : verifyParams attr shape = .ok ())
include h

theorem verifyParams_rank :
    (∀ alignment ∈ attr.alignment, shape.length = alignment.length) ∧
      ∀ numTiles ∈ attr.numTiles, shape.length = numTiles.length := by
  obtain ⟨_, halignment, h⟩ := of_bind_eq_ok h
  obtain ⟨_, htiles, -⟩ := of_bind_eq_ok h
  constructor
  · intro alignment halign
    have hcheck := of_forM_eq_ok halignment halign
    exact not_not.mp (of_emitWhen_eq_ok hcheck)
  · intro numTiles htile
    have hcheck := of_forM_eq_ok htiles htile
    exact not_not.mp (of_emitWhen_eq_ok hcheck)

theorem verifyParams_kernel {kernel : List ℤ} (hkernel : attr.kernel = some kernel) :
    0 < kernel.getD Kernel.Y 0 ∧ 0 < kernel.getD Kernel.X 0 := by
  obtain ⟨_, -, h⟩ := of_bind_eq_ok h
  obtain ⟨_, -, h⟩ := of_bind_eq_ok h
  obtain ⟨_, hcheck, -⟩ := of_bind_eq_ok h
  have hboth := of_forM_eq_ok hcheck hkernel
  obtain ⟨_, -, hpositive⟩ := of_bind_eq_ok hboth
  have hnot := of_emitWhen_eq_ok hpositive
  omega

theorem verifyParams_pads {pads : PadInfo} (hpads : attr.pads = some pads) :
    0 ≤ pads.top ∧ 0 ≤ pads.bottom ∧ 0 ≤ pads.left ∧ 0 ≤ pads.right := by
  obtain ⟨_, -, h⟩ := of_bind_eq_ok h
  obtain ⟨_, -, h⟩ := of_bind_eq_ok h
  obtain ⟨_, -, h⟩ := of_bind_eq_ok h
  obtain ⟨_, hcheck, -⟩ := of_bind_eq_ok h
  have hnonneg := of_forM_eq_ok hcheck hpads
  have hnot := of_emitWhen_eq_ok hnonneg
  omega

theorem verifyParams_strides {strides : List ℤ} (hstrides : attr.strides = some strides) :
    0 < strides.getD Kernel.Y 0 ∧ 0 < strides.getD Kernel.X 0 := by
  obtain ⟨_, -, h⟩ := of_bind_eq_ok h
  obtain ⟨_, -, h⟩ := of_bind_eq_ok h
  obtain ⟨_, -, h⟩ := of_bind_eq_ok h
  obtain ⟨_, -, hcheck⟩ := of_bind_eq_ok h
  have hboth := of_forM_eq_ok hcheck hstrides
  obtain ⟨_, -, hpositive⟩ := of_bind_eq_ok hboth
  have hnot := of_emitWhen_eq_ok hpositive
  omega

end

theorem verify_overlapped (h : verify attr shape = .ok ()) {axis : ℕ}
    (hoverlapped : verifyOverlapped attr axis = .ok ())
    (hkernel : attr.overlappedWithKernelStridesPads = true) :
    (axis = Act.H ∨ axis = Act.W) ∧ (∀ alignment ∈ attr.alignment, alignment.getD axis 0 = 1) ∧
      attr.computeShapes.isNone ∧ attr.computeOffsets.isNone := by
  obtain ⟨_, hexplicit, -⟩ := of_bind_eq_ok h
  obtain ⟨_, hoffsets, hexplicit⟩ := of_bind_eq_ok hexplicit
  obtain ⟨_, hshapes, -⟩ := of_bind_eq_ok hexplicit
  obtain ⟨_, haxis, hoverlapped⟩ := of_bind_eq_ok hoverlapped
  obtain ⟨_, halignment, hoverlapped⟩ := of_bind_eq_ok hoverlapped
  obtain ⟨_, -, hboth⟩ := of_bind_eq_ok hoverlapped
  have hoffsets := of_emitWhen_eq_ok hoffsets
  have hshapes := of_emitWhen_eq_ok hshapes
  have hboth := of_emitWhen_eq_ok hboth
  refine ⟨?_, fun alignment ha => ?_, ?_⟩
  · have := of_emitWhen_eq_ok haxis
    omega
  · have hcheck := of_forM_eq_ok halignment ha
    exact not_not.mp (of_emitWhen_eq_ok hcheck)
  · simp only [hkernel, DistributedTensorAttr.hasComputeShapesOffsets] at hboth
    cases hc : attr.computeShapes <;> cases ho : attr.computeOffsets <;> simp_all

end Accepted

end Attr

-- The shapes, offsets and paddings of the clusters of a distributed tensor. What throws is `none`.
section PerCluster
open Tiling Dims4D DistributionMode

def alignValDown (val align : ℤ) : ℤ := val.tdiv align * align

/-- A zero alignment is thrown out by the function that aligns. -/
def alignShape (shape : Shape) (alignment : Option (List ℤ)) (alignFunc : ℤ → ℤ → ℤ) :
    Option Shape :=
  match alignment with
  | none => some shape
  | some alignment => if 0 ∈ alignment then none else some (List.zipWith alignFunc shape alignment)

/-- The first tiles are equal, the last one has the rest and is not aligned. -/
def splitDividedUp (shape : Shape) (tiles : ℤ) (axis : ℕ) (alignment : Option (List ℤ)) :
    Option (List Shape) := do
  let tiledShape ← alignShape (shape.set axis (divUp (shape.dim axis) tiles)) alignment alignValUp
  let remainder := shape.dim axis - tiledShape.dim axis * (tiles - 1)
  guard (0 < remainder)
  return List.replicate (tiles - 1).toNat tiledShape ++ [shape.set axis remainder]

/-- The rest is spread over the first tiles. Its alignment is an `int`, and a negative number of
tiles does not get past the insertion. -/
def splitUniform (shape : Shape) (tiles : ℤ) (axis : ℕ) (alignment : Option (List ℤ)) :
    Option (List Shape) := do
  let tiledShape ← alignShape (shape.set axis ((shape.dim axis).tdiv tiles)) alignment alignValDown
  guard (0 < tiledShape.dim axis)
  let remainderCount := shape.dim axis - tiledShape.dim axis * tiles
  let axisAlignment := alignment.elim 1 fun alignment => (alignment.getD axis 1).bmod (2 ^ 32)
  guard (axisAlignment ≠ 0)
  guard (remainderCount.tmod axisAlignment = 0)
  let remainderElements := remainderCount.tdiv axisAlignment
  guard (0 ≤ remainderElements ∧ remainderElements ≤ tiles)
  let remainderTileShape := tiledShape.set axis (tiledShape.dim axis + axisAlignment)
  return List.replicate remainderElements.toNat remainderTileShape ++
    List.replicate (tiles - remainderElements).toNat tiledShape

def splitSegmentedShape (shape : Shape) (tilingScheme : List ℤ) (numClusters : ℤ) (axis : ℕ)
    (alignment : Option (List ℤ)) (uniformDistributedSegments : Bool) : Option (List Shape) := do
  guard (axis < shape.length)
  guard (tilingScheme.getD axis 0 = numClusters)
  if uniformDistributedSegments then splitUniform shape numClusters axis alignment
  else splitDividedUp shape numClusters axis alignment

def segmentOffsets (rank axis : ℕ) (tiles : List Shape) : List Shape :=
  (dividedOffsets 0 (tiles.map (·.dim axis))).map fun offset =>
    (List.replicate rank 0).set axis offset

/-- The ranges of the axis that the tiles cover one after the other. -/
def tileRanges (axis : ℕ) (tiles : List Shape) : List DimRange :=
  let sizes := tiles.map (·.dim axis)
  (sizes.zip (dividedOffsets 0 sizes)).map fun (size, offset) => ⟨offset, offset + size⟩

def getOverlappedInputTileDimRanges (shape : Shape) (tilingScheme : List ℤ)
    (kernelAttr stridesAttr : Option (List ℤ)) (padAttr : Option PadInfo) (axis : ℕ)
    (numClusters : ℤ) (uniformDistributedSegments : Bool) : Option (List DimRange) := do
  guard (axis = Act.W ∨ axis = Act.H)
  let pads ← padAttr
  let (outputHeight, outputWidth) ← (spatialOutputForInputWindowSize
    (shape.dim Act.H, shape.dim Act.W) kernelAttr stridesAttr pads).toOption
  let outputShape := [shape.dim Act.N, shape.dim Act.C, outputHeight, outputWidth]
  let outputTiles ← splitSegmentedShape outputShape tilingScheme numClusters axis none
    uniformDistributedSegments
  let kernel ← kernelAttr
  let strides ← stridesAttr
  (tileRanges axis outputTiles).mapM fun outputTile => do
    let tileSize ← (DimRange.make outputTile.begin outputTile.stop).toOption
    let initial ← (DimRange.make 0 (shape.dim axis)).toOption
    let (inputTile, _, _) ← (if axis = Act.H then
        inputForOutputDim tileSize (kernel.getD Kernel.Y 0) (strides.getD Kernel.Y 0) initial
          pads.top pads.bottom
      else
        inputForOutputDim tileSize (kernel.getD Kernel.X 0) (strides.getD Kernel.X 0) initial
          pads.left pads.right).toOption
    return inputTile

def getSplitIntoSegments (shape : Shape) (attr : DistributedTensorAttr) : Option (List Shape) := do
  let numClusters ← attr.numClusters
  let tilingScheme ← attr.numTiles
  let axis := getDistributedTilingAxis tilingScheme
  guard (axis < tilingScheme.length)
  splitSegmentedShape shape tilingScheme numClusters axis attr.alignment
    attr.uniformDistributedSegments

def getInputTileDimRanges (shape : Shape) (attr : DistributedTensorAttr) :
    Option (ℕ × List DimRange) := do
  let numClusters ← attr.numClusters
  let tilingScheme ← attr.numTiles
  let axis := getDistributedTilingAxis tilingScheme
  let ranges ← getOverlappedInputTileDimRanges shape tilingScheme attr.kernel attr.strides attr.pads
    axis numClusters attr.uniformDistributedSegments
  return (axis, ranges)

def getPerClusterMemoryShapes (shape : Shape) (attr : DistributedTensorAttr) :
    Option (List Shape) := do
  let numClusters ← attr.numClusters
  if bitEnumContains attr.mode DUPLICATED || bitEnumContains attr.mode MULTICASTED then
    return List.replicate numClusters.toNat (← alignShape shape attr.alignment alignValUp)
  else if attr.mode = SEGMENTED then getSplitIntoSegments shape attr
  else if attr.mode = OVERLAPPED then
    let (axis, ranges) ← getInputTileDimRanges shape attr
    ranges.mapM fun range =>
      alignShape (shape.set axis (range.stop - range.begin)) attr.alignment alignValUp
  else none

def getPerClusterMemoryShapeOffsets (shape : Shape) (attr : DistributedTensorAttr) :
    Option (List Shape) := do
  let numClusters ← attr.numClusters
  if bitEnumContains attr.mode DUPLICATED || bitEnumContains attr.mode MULTICASTED then
    return List.replicate numClusters.toNat (List.replicate shape.length 0)
  else if attr.mode = SEGMENTED then
    let tiledComputeShapes ← getPerClusterMemoryShapes shape attr
    let tilingScheme ← attr.numTiles
    return segmentOffsets shape.length (getDistributedTilingAxis tilingScheme) tiledComputeShapes
  else if attr.mode = OVERLAPPED then
    let (axis, ranges) ← getInputTileDimRanges shape attr
    return ranges.map fun range => (List.replicate shape.length 0).set axis range.begin
  else none

def getPerClusterComputeShapes (shape : Shape) (attr : DistributedTensorAttr) :
    Option (List Shape) := do
  let numClusters ← attr.numClusters
  if bitEnumContains attr.mode SEGMENTED then getSplitIntoSegments shape attr
  else if bitEnumContains attr.mode OVERLAPPED then
    if attr.equalMemoryAndComputeView then getPerClusterMemoryShapes shape attr
    else getSplitIntoSegments shape attr
  else if attr.mode = DUPLICATED ∨ attr.mode = MULTICASTED then
    return List.replicate numClusters.toNat (← alignShape shape attr.alignment alignValUp)
  else none

def getPerClusterComputeShapeOffsets (shape : Shape) (attr : DistributedTensorAttr) :
    Option (List Shape) := do
  let numClusters ← attr.numClusters
  let offsetsForSegments := do
    let tiledComputeShapes ← getPerClusterComputeShapes shape attr
    let tilingScheme ← attr.numTiles
    return segmentOffsets shape.length (getDistributedTilingAxis tilingScheme) tiledComputeShapes
  if bitEnumContains attr.mode SEGMENTED then offsetsForSegments
  else if bitEnumContains attr.mode OVERLAPPED then
    if attr.equalMemoryAndComputeView then getPerClusterMemoryShapeOffsets shape attr
    else offsetsForSegments
  else if attr.mode = DUPLICATED ∨ attr.mode = MULTICASTED then
    return List.replicate numClusters.toNat (List.replicate shape.length 0)
  else none

/-- The first cluster has the padding before, the last one the padding after. -/
def getPerClusterPadding (attr : DistributedTensorAttr) (kernelPadding : PadInfo) :
    Option (List PadInfo) := do
  guard (attr.mode = OVERLAPPED)
  let tilingScheme ← attr.numTiles
  let axis := getDistributedTilingAxis tilingScheme
  guard (axis = Act.H ∨ axis = Act.W)
  guard (attr.computeShapes.isNone ∧ attr.computeOffsets.isNone)
  let numClusters ← attr.numClusters
  let ⟨left, right, top, bottom⟩ := kernelPadding
  let firstClusterPadInfo : PadInfo :=
    if axis = Act.H then ⟨left, right, top, 0⟩ else ⟨left, 0, top, bottom⟩
  let padInfo : PadInfo := if axis = Act.H then ⟨left, right, 0, 0⟩ else ⟨0, 0, top, bottom⟩
  let lastClusterPadInfo : PadInfo :=
    if axis = Act.H then ⟨left, right, 0, bottom⟩ else ⟨0, right, top, bottom⟩
  return firstClusterPadInfo :: List.replicate (numClusters - 2).toNat padInfo ++
    [lastClusterPadInfo]

end PerCluster

end Vpux.VPU
