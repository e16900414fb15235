import Mathlib.Algebra.Order.BigOperators.GroupWithZero.List
import Mathlib.Algebra.Order.Ring.Nat
import Vpux.Dma.PermutePlanes

/-! A tensor padded behind one of its axes by transfers (`passes/unroll_expand_dma.cpp` and the
generator of their descriptors). -/
namespace Vpux.Dma
open Data Vpux.Const

def DMA_LIMIT : ℕ := 16 * 1024 * 1024 - 1

/-- An operation that is not distributed and has no descriptor yet, with the byte offsets of the
buffers it reads and writes. -/
structure ExpandDMAOp where
  input : NDType
  output : NDType
  srcOffset : ℕ
  dstOffset : ℕ
  padsBegin : List ℕ
  padsEnd : List ℕ

/-- The sizes below and above the axis at a position in memory. -/
def ExpandDmaDescriptorGenerator.totalDimSizes (inType : NDType) (padEndAxisPos : ℕ) : ℕ × ℕ :=
  (List.range inType.dimsOrder.numDims).foldl (fun (sizes : ℕ × ℕ) idx =>
    let curPos := inType.dimsOrder.dimPos idx
    if curPos < padEndAxisPos then (sizes.1, sizes.2 * inType.shape.getD idx 0)
    else if padEndAxisPos < curPos then (sizes.1 * inType.shape.getD idx 0, sizes.2)
    else sizes) (1, 1)

/-- `ExpandDmaDescriptorGenerator::generate`. -/
def ExpandDmaDescriptorGenerator.generate (inType outType : NDType) (padsBegin padsEnd : List ℕ)
    (elemTypeSize : ℕ) : Except Fault DMADescriptorAttr := do
  throwUnless (∀ padValue ∈ padsBegin, padValue = 0) "ExpandDMA don't support padding at begin!"
  throwUnless (∃ dim ∈ padsEnd, 0 < dim) "Can not find padding axis"
  let padEndAxis := padsEnd.findIdx (0 < ·)
  let padEndAxisPos := inType.dimsOrder.dimPos padEndAxis
  let inputPaddingDimSize := inType.shape.getD padEndAxis 0
  let outputPaddingDimSize := outType.shape.getD padEndAxis 0
  let (totalLowerDimSize, totalHigherDimSize) := totalDimSizes inType padEndAxisPos
  .ok {
    numPlanes := 1
    len := totalHigherDimSize * inputPaddingDimSize * totalLowerDimSize * elemTypeSize
    srcWidth := totalHigherDimSize * inputPaddingDimSize * totalLowerDimSize * elemTypeSize
    srcStride := totalHigherDimSize * inputPaddingDimSize * totalLowerDimSize * elemTypeSize
    srcPlaneStride := 0 * elemTypeSize
    dstWidth := inputPaddingDimSize * totalLowerDimSize * elemTypeSize
    dstStride := outputPaddingDimSize * totalLowerDimSize * elemTypeSize
    dstPlaneStride := 0 * elemTypeSize }

def getCompactSize (type : NDType) : Except Fault ℕ :=
  toByte (type.getNumElements * getElemTypeSize type.elemType)

/-- `MemRefNDTypeInterface::changeShape`: a buffer keeps its element type. -/
def changeMemRefShape (type : NDType) (shape : List ℕ) : Except Fault NDType :=
  type.changeShapeElemType shape type.elemType

/-- The planes of the tiles, at most `numPlanesPerTile` each, until none is left. -/
def tilePlanes (numPlanesPerTile : ℕ) : ℕ → ℕ → List ℕ
  | 0, _ => []
  | fuel + 1, planesLeftToCopy =>
    if 0 < planesLeftToCopy then
      min numPlanesPerTile planesLeftToCopy :: tilePlanes numPlanesPerTile fuel
        (planesLeftToCopy - min numPlanesPerTile planesLeftToCopy)
    else []

namespace ExpandDMAOp
open ExpandDmaDescriptorGenerator

/-- Tiles are cut along the second dimension in memory. -/
def tileDim (op : ExpandDMAOp) : ℕ := op.input.dimsOrder.dimAt 1

def tileSubOp (op : ExpandDMAOp) (elemTypeSize planes : ℕ) : Except Fault SubOp := do
  let currentTileInShape := op.input.shape.set op.tileDim planes
  let currentTileOutShape := op.output.shape.set op.tileDim planes
  let tileType ← changeMemRefShape op.input currentTileInShape
  let dmaDescriptor ← generate tileType op.output op.padsBegin op.padsEnd elemTypeSize
  .ok ⟨dmaDescriptor, currentTileInShape.prod * elemTypeSize,
    currentTileOutShape.prod * elemTypeSize⟩

def createTilesForLargeSize (dmaPortCount : ℕ) (op : ExpandDMAOp) :
    Except Fault (List SubDMA) := do
  throwUnless (op.input.shape.length = 4)
    "ExpandDMAOpTiling: found shape which is not supported yet (only 4D tensors are)"
  let fullCopySize ← getCompactSize op.input
  let numPlanesOfFullShape := op.input.shape.getD op.tileDim 0
  let singlePlaneSize := fullCopySize / numPlanesOfFullShape
  let numPlanesPerTile := DMA_LIMIT / singlePlaneSize
  throwUnless (numPlanesPerTile ≠ 0)
    "Couldn't split a ExpandDMAOp with single plane size greater than DMA_LIMIT"
  let elemTypeSize ← toByte (getElemTypeSize op.input.elemType)
  let tiles := tilePlanes numPlanesPerTile numPlanesOfFullShape numPlanesOfFullShape
  let subs ← tiles.mapM (op.tileSubOp elemTypeSize)
  throwUnless (tiles.sum = numPlanesOfFullShape)
    "ExpandDMAOpTiling: a part of the original shape was not covered by ExpandDMA tiles"
  let start : Unrolled := ⟨0, op.srcOffset, op.dstOffset, []⟩
  .ok (start.createAll dmaPortCount subs).created

def matchAndRewrite (dmaPortCount : ℕ) (op : ExpandDMAOp) : Except Fault (List SubDMA) := do
  let dmaSize ← getCompactSize op.input
  if DMA_LIMIT < dmaSize then op.createTilesForLargeSize dmaPortCount
  else do
    let elemTypeSize ← toByte (getElemTypeSize op.input.elemType)
    let dmaDescriptor ← generate op.input op.output op.padsBegin op.padsEnd elemTypeSize
    .ok [⟨0, dmaDescriptor, op.srcOffset, op.dstOffset⟩]

/-- A tensor of batch one with `pad` more slices behind one of its axes, in the same layout. -/
structure IsExpand (op : ExpandDMAOp) (axis pad elemTypeSize : ℕ) : Prop where
  rank : op.input.shape.length = 4
  batch : op.input.shape.getD 0 0 = 1
  sizes_pos : ∀ d ∈ op.input.shape, 0 < d
  axis_lt : axis < 4
  pad_pos : 0 < pad
  padsBegin : op.padsBegin = [0, 0, 0, 0]
  padsEnd : op.padsEnd = [0, 0, 0, 0].set axis pad
  output : op.output.shape = op.input.shape.set axis (op.input.shape.getD axis 0 + pad)
  order : op.output.dimsOrder = op.input.dimsOrder
  elemType : toByte (getElemTypeSize op.input.elemType) = .ok elemTypeSize
  elemTypeSize_pos : 0 < elemTypeSize

def source (op : ExpandDMAOp) (elemTypeSize : ℕ) (x : TensorByte) : ℕ :=
  op.srcOffset + byteAddress op.input elemTypeSize x.point x.e

/-- Every element stays at its coordinate. -/
def target (op : ExpandDMAOp) (elemTypeSize : ℕ) (x : TensorByte) : ℕ :=
  op.dstOffset + byteAddress op.output elemTypeSize x.point x.e

/-- Every element is written once to its coordinate and no other place is written, within the
limit of bytes. -/
structure Performs (op : ExpandDMAOp) (elemTypeSize : ℕ) (dmas : List SubDMA) : Prop where
  moves : Moves (dmas.map SubDMA.copy) (InTensor op.input elemTypeSize) (op.source elemTypeSize)
    (op.target elemTypeSize)
  only : WritesOnly (dmas.map SubDMA.copy) (InTensor op.input elemTypeSize)
    (op.target elemTypeSize)
  bytes : ∀ dma ∈ dmas, dma.dmaDescriptor.numPlanes * dma.dmaDescriptor.len ≤ DMA_LIMIT

open DimsOrder List Nat

section Sizes

variable {l : List ℕ} {pos : ℕ}

theorem idxOf_of_mem_take (hl : l.Nodup) {d : ℕ} (hd : d ∈ l.take pos) : l.idxOf d < pos := by
  obtain ⟨i, hi, rfl⟩ := getElem_of_mem hd
  rw [length_take] at hi
  rw [getElem_take, hl.idxOf_getElem]
  omega

theorem idxOf_of_mem_drop (hl : l.Nodup) {d : ℕ} (hd : d ∈ l.drop pos) : pos ≤ l.idxOf d := by
  obtain ⟨i, hi, rfl⟩ := getElem_of_mem hd
  rw [getElem_drop, hl.idxOf_getElem]
  omega

theorem filter_idxOf_lt (hl : l.Nodup) : l.filter (fun d => l.idxOf d < pos) = l.take pos := by
  conv_lhs => rw [← take_append_drop pos l, filter_append]
  rw [take_append_drop, filter_eq_self.mpr fun d hd => by
      simpa using idxOf_of_mem_take hl hd,
    filter_eq_nil_iff.mpr fun d hd => by simpa using idxOf_of_mem_drop hl hd,
    append_nil]

theorem filter_lt_idxOf (hl : l.Nodup) :
    l.filter (fun d => pos < l.idxOf d) = l.drop (pos + 1) := by
  conv_lhs => rw [← take_append_drop (pos + 1) l, filter_append]
  rw [take_append_drop, filter_eq_nil_iff.mpr fun d hd => by
      simpa using le_of_lt_succ (idxOf_of_mem_take hl hd),
    filter_eq_self.mpr fun d hd => by
      simpa using lt_of_succ_le (idxOf_of_mem_drop hl hd), nil_append]

theorem foldl_dimSizes (dimPos size : ℕ → ℕ) (dims : List ℕ) (lower higher : ℕ) :
    dims.foldl (fun (sizes : ℕ × ℕ) idx =>
        if dimPos idx < pos then (sizes.1, sizes.2 * size idx)
        else if pos < dimPos idx then (sizes.1 * size idx, sizes.2)
        else sizes) (lower, higher) =
      (lower * ((dims.filter fun d => pos < dimPos d).map size).prod,
        higher * ((dims.filter fun d => dimPos d < pos).map size).prod) := by
  induction dims generalizing lower higher with
  | nil => simp
  | cons d dims ih =>
    rcases lt_trichotomy (dimPos d) pos with hlt | heq | hgt
    · simp [hlt, hlt.not_gt, ih, mul_assoc]
    · simp [heq, ih]
    · simp [hgt, hgt.not_gt, ih, mul_assoc]

theorem totalDimSizes_eq (inType : NDType) (pos : ℕ) : totalDimSizes inType pos =
    ((inType.getMemShape.drop (pos + 1)).prod, (inType.getMemShape.take pos).prod) := by
  have hnodup := inType.dimsOrder.nodup_toPermutation
  have hperm : ∀ p : ℕ → Bool, (((List.range inType.dimsOrder.numDims).filter p).map fun d =>
      inType.shape.getD d 0).prod =
      ((inType.dimsOrder.toPermutation.filter p).map fun d => inType.shape.getD d 0).prod :=
    fun p => ((inType.dimsOrder.isPermutation.symm.filter p).map _).prod_eq
  unfold totalDimSizes
  rw [foldl_dimSizes, hperm, hperm, one_mul, one_mul, NDType.getMemShape, memoryOrder,
    ← map_drop, ← map_take, ← filter_idxOf_lt hnodup, ← filter_lt_idxOf hnodup]
  rfl

theorem prod_around {sizes : List ℕ} (pos : ℕ) (hpos : pos < sizes.length) :
    sizes.prod = (sizes.take pos).prod * (sizes.getD pos 0 * (sizes.drop (pos + 1)).prod) := by
  conv_lhs => rw [← set_getD_self sizes pos, prod_set, if_pos hpos]
  ring

end Sizes

section Tiles

variable {perTile fuel left : ℕ}

theorem sum_tilePlanes (hper : 0 < perTile) (hfuel : left ≤ fuel) :
    (tilePlanes perTile fuel left).sum = left := by
  induction fuel generalizing left with
  | zero => simp [tilePlanes, Nat.le_zero.mp hfuel]
  | succ fuel ih =>
    unfold tilePlanes
    split_ifs with hleft
    · rw [sum_cons, ih (by omega)]
      omega
    · simp [Nat.le_zero.mp (Nat.le_of_not_lt hleft)]

theorem mem_tilePlanes (hper : 0 < perTile) {n : ℕ} (hn : n ∈ tilePlanes perTile fuel left) :
    0 < n ∧ n ≤ perTile ∧ n ≤ left := by
  induction fuel generalizing left with
  | zero => simp [tilePlanes] at hn
  | succ fuel ih =>
    unfold tilePlanes at hn
    split_ifs at hn with hleft
    · rcases mem_cons.mp hn with rfl | hn
      · omega
      · have hrest := ih hn
        omega
    · simp at hn

theorem tilePlanes_many (hper : 0 < perTile) (hmany : perTile < left) (hfuel : left ≤ fuel) :
    ∃ n rest, tilePlanes perTile fuel left = perTile :: n :: rest := by
  obtain ⟨fuel, rfl⟩ : ∃ f, fuel = f + 2 := ⟨fuel - 2, by omega⟩
  refine ⟨min perTile (left - perTile),
    tilePlanes perTile fuel (left - perTile - min perTile (left - perTile)), ?_⟩
  rw [tilePlanes, if_pos (by omega), min_eq_left hmany.le, tilePlanes, if_pos (by omega)]

end Tiles

section Descriptors

variable {op : ExpandDMAOp} {axis pad elemTypeSize : ℕ}

/-- The position of the padded axis in memory. -/
def padPos (op : ExpandDMAOp) (axis : ℕ) : ℕ := op.input.dimsOrder.dimPos axis

/-- The bytes of a plane of a tile, and of the room it takes. -/
def planeBytes (op : ExpandDMAOp) (elemTypeSize : ℕ) : ℕ :=
  (op.input.getMemShape.set 1 1).prod * elemTypeSize

def outPlaneBytes (op : ExpandDMAOp) (elemTypeSize : ℕ) : ℕ :=
  (op.output.getMemShape.set 1 1).prod * elemTypeSize

/-- The bytes of a tile that lie together, and from one such stretch to the next in the output. -/
def tileWidth (op : ExpandDMAOp) (axis elemTypeSize planes : ℕ) : ℕ :=
  (op.input.getMemShape.set 1 planes).getD (op.padPos axis) 0 *
    ((op.input.getMemShape.set 1 planes).drop (op.padPos axis + 1)).prod * elemTypeSize

def tileStride (op : ExpandDMAOp) (axis elemTypeSize planes : ℕ) : ℕ :=
  op.output.shape.getD axis 0 *
    ((op.input.getMemShape.set 1 planes).drop (op.padPos axis + 1)).prod * elemTypeSize

variable (hop : op.IsExpand axis pad elemTypeSize)
include hop

theorem findIdx_padsEnd : op.padsEnd.findIdx (0 < ·) = axis := by
  have haxis := hop.axis_lt
  have hpad := hop.pad_pos
  rw [hop.padsEnd]
  obtain rfl | rfl | rfl | rfl : axis = 0 ∨ axis = 1 ∨ axis = 2 ∨ axis = 3 := by omega
  all_goals simp [findIdx_cons, hpad]

theorem generate_eq {type : NDType} (hrank : type.shape.length = 4)
    (horder : type.dimsOrder = op.input.dimsOrder) :
    generate type op.output op.padsBegin op.padsEnd elemTypeSize =
      .ok ⟨1, type.getMemShape.prod * elemTypeSize, type.getMemShape.prod * elemTypeSize,
        type.getMemShape.prod * elemTypeSize, 0,
        type.getMemShape.getD (op.padPos axis) 0 *
          (type.getMemShape.drop (op.padPos axis + 1)).prod * elemTypeSize,
        op.output.shape.getD axis 0 *
          (type.getMemShape.drop (op.padPos axis + 1)).prod * elemTypeSize, 0⟩ := by
  have haxis : axis < type.shape.length := hrank ▸ hop.axis_lt
  have hmid : type.getMemShape.getD (op.padPos axis) 0 = type.shape.getD axis 0 := by
    rw [padPos, ← horder]
    exact memoryOrder_getD _ (type.numDims_eq ▸ haxis)
  have hpos : op.padPos axis < type.getMemShape.length := by
    rw [padPos, ← horder]
    exact dimPos_lt_memShape haxis
  have hprod : (type.getMemShape.take (op.padPos axis)).prod * type.shape.getD axis 0 *
      (type.getMemShape.drop (op.padPos axis + 1)).prod = type.getMemShape.prod := by
    rw [Nat.mul_assoc, prod_around (op.padPos axis) hpos, hmid]
  have hbegin : ∀ padValue ∈ op.padsBegin, padValue = 0 := by
    rw [hop.padsBegin]
    simp
  have hend : ∃ dim ∈ op.padsEnd, 0 < dim := by
    rw [hop.padsEnd]
    refine ⟨pad, mem_iff_getElem.mpr ⟨axis, by simpa using hop.axis_lt, ?_⟩, hop.pad_pos⟩
    simp
  simp only [generate, throwUnless, if_pos hbegin, if_pos hend, findIdx_padsEnd hop,
    totalDimSizes_eq, horder, bind, Except.bind]
  rw [show op.input.dimsOrder.dimPos axis = op.padPos axis from rfl, hprod, hmid, zero_mul]

theorem tileDim_lt : op.tileDim < op.input.dimsOrder.numDims := by
  apply dimAt_lt
  rw [op.input.numDims_eq, hop.rank]
  decide

theorem dimPos_tileDim : op.input.dimsOrder.dimPos op.tileDim = 1 := by
  apply dimPos_dimAt
  rw [op.input.numDims_eq, hop.rank]
  decide

theorem prod_set_tileDim {type : NDType} (horder : type.dimsOrder = op.input.dimsOrder) (n : ℕ) :
    (type.shape.set op.tileDim n).prod = n * (type.getMemShape.set 1 1).prod := by
  have hnum : op.input.dimsOrder.numDims = 4 := op.input.numDims_eq.trans hop.rank
  have hlength : type.shape.length = op.input.dimsOrder.numDims := by
    rw [← type.numDims_eq, horder]
  have hmem : 1 < type.getMemShape.length := by
    rw [NDType.getMemShape, length_memoryOrder, horder, hnum]
    decide
  have hprod : (op.input.dimsOrder.memoryOrder (type.shape.set op.tileDim n)).prod =
      (type.shape.set op.tileDim n).prod :=
    prod_memoryOrder (by rw [length_set, hlength])
  rw [← hprod, memoryOrder_set hlength (tileDim_lt hop), dimPos_tileDim hop, ← horder]
  change (type.getMemShape.set 1 n).prod = _
  rw [prod_set, prod_set, if_pos hmem, if_pos hmem]
  ring

theorem tileSubOp_ok {n : ℕ}
    (hquant : validateQuantElemType op.input.elemType (op.input.shape.set op.tileDim n)) :
    op.tileSubOp elemTypeSize n =
      .ok ⟨⟨1, n * op.planeBytes elemTypeSize, n * op.planeBytes elemTypeSize,
          n * op.planeBytes elemTypeSize, 0, op.tileWidth axis elemTypeSize n,
          op.tileStride axis elemTypeSize n, 0⟩,
        n * op.planeBytes elemTypeSize, n * op.outPlaneBytes elemTypeSize⟩ := by
  have hdims : op.input.dimsOrder.numDims = (op.input.shape.set op.tileDim n).length := by
    rw [length_set, op.input.numDims_eq]
  let tileType : NDType := ⟨_, op.input.elemType, op.input.dimsOrder, hdims, hquant⟩
  have hchange : changeMemRefShape op.input (op.input.shape.set op.tileDim n) =
      .ok tileType := by
    rw [changeMemRefShape, NDType.changeShapeElemType, NDType.reshapedOrder_eq hdims, throwUnless,
      if_pos hdims]
    change getTensorType _ _ _ = _
    rw [getTensorType, dif_pos hdims, dif_pos hquant]
  have haxis : op.tileDim < op.input.shape.length := op.input.numDims_eq ▸ tileDim_lt hop
  have hmem : tileType.getMemShape = op.input.getMemShape.set 1 n := by
    rw [← dimPos_tileDim hop]
    exact getMemShape_set haxis rfl rfl
  have hprod : tileType.getMemShape.prod * elemTypeSize = n * op.planeBytes elemTypeSize := by
    rw [tileType.prod_getMemShape, planeBytes, ← Nat.mul_assoc, ← prod_set_tileDim hop rfl]
    rfl
  have hrank : tileType.shape.length = 4 := (length_set).trans hop.rank
  have hsrc : n * (op.input.getMemShape.set 1 1).prod * elemTypeSize =
      n * op.planeBytes elemTypeSize := Nat.mul_assoc _ _ _
  have hdst : n * (op.output.getMemShape.set 1 1).prod * elemTypeSize =
      n * op.outPlaneBytes elemTypeSize := Nat.mul_assoc _ _ _
  unfold tileSubOp
  dsimp only
  rw [hchange, prod_set_tileDim hop rfl, prod_set_tileDim hop hop.order, hsrc, hdst]
  change (generate tileType _ _ _ _ >>= _ : Except Fault SubOp) = _
  rw [generate_eq hop hrank rfl, hprod, hmem]
  rfl

end Descriptors

section Run

variable {op : ExpandDMAOp} {axis pad elemTypeSize : ℕ}

def tileSizes (op : ExpandDMAOp) (elemTypeSize : ℕ) : List ℕ :=
  let planes := op.input.shape.getD op.tileDim 0
  if DMA_LIMIT < op.input.getNumElements * elemTypeSize then
    tilePlanes (DMA_LIMIT / op.planeBytes elemTypeSize) planes planes
  else [planes]

/-- The operation fits a transfer, or its planes do and the tiles have all zero points. -/
def Tileable (op : ExpandDMAOp) (elemTypeSize : ℕ) : Prop :=
  op.input.getNumElements * elemTypeSize ≤ DMA_LIMIT ∨
    op.planeBytes elemTypeSize ≤ DMA_LIMIT ∧ op.input.elemType.quantizedAxis ≠ some op.tileDim

theorem toByte_mul {bits size : ℕ} (h : toByte bits = .ok size) (n : ℕ) :
    toByte (n * bits) = .ok (n * size) := by
  unfold toByte at h ⊢
  split_ifs at h with hbits
  obtain ⟨bytes, rfl⟩ := dvd_of_mod_eq_zero hbits
  have hpos : 0 < CHAR_BIT := by decide
  have hsize : bytes = size := by
    rw [Nat.mul_div_cancel_left _ hpos] at h
    exact Except.ok.inj h
  rw [Nat.mul_left_comm, Nat.mul_mod_right, if_pos rfl, Nat.mul_div_cancel_left _ hpos, hsize]

section

variable (hop : op.IsExpand axis pad elemTypeSize)
include hop

theorem getCompactSize_eq :
    getCompactSize op.input = .ok (op.input.getNumElements * elemTypeSize) :=
  toByte_mul hop.elemType _

theorem planes_pos : 0 < op.input.shape.getD op.tileDim 0 := by
  have hlt : op.tileDim < op.input.shape.length := op.input.numDims_eq ▸ tileDim_lt hop
  rw [getD_eq_getElem _ _ hlt]
  exact hop.sizes_pos _ (getElem_mem hlt)

theorem numElements_planes :
    op.input.getNumElements * elemTypeSize =
      op.input.shape.getD op.tileDim 0 * op.planeBytes elemTypeSize := by
  have hprod := prod_set_tileDim hop rfl (op.input.shape.getD op.tileDim 0)
  rw [set_getD_self] at hprod
  rw [NDType.getNumElements, hprod, planeBytes, Nat.mul_assoc]

theorem planeBytes_pos : 0 < op.planeBytes elemTypeSize := by
  have hall : 0 < op.input.getNumElements := prod_pos hop.sizes_pos
  have hbytes := Nat.mul_pos hall hop.elemTypeSize_pos
  rw [numElements_planes hop] at hbytes
  exact Nat.pos_of_mul_pos_left hbytes

theorem singlePlaneSize_eq :
    op.input.getNumElements * elemTypeSize / op.input.shape.getD op.tileDim 0 =
      op.planeBytes elemTypeSize := by
  rw [numElements_planes hop, Nat.mul_div_cancel_left _ (planes_pos hop)]

end

theorem validateQuantElemType_set {elemType : ElemType} {shape : List ℕ} {d n : ℕ}
    (h : validateQuantElemType elemType shape) (hd : elemType.quantizedAxis ≠ some d) :
    validateQuantElemType elemType (shape.set d n) := by
  cases elemType with
  | uniformQuantizedPerAxis isSigned storageWidth qDim zps =>
    have hne : d ≠ qDim := fun heq => hd (heq ▸ rfl)
    rw [validateQuantElemType, getElem?_set_ne hne]
    exact h
  | _ => trivial

variable (hop : op.IsExpand axis pad elemTypeSize)

include hop in
theorem generate_input :
    generate op.input op.output op.padsBegin op.padsEnd elemTypeSize =
      .ok ⟨1, op.input.shape.getD op.tileDim 0 * op.planeBytes elemTypeSize,
        op.input.shape.getD op.tileDim 0 * op.planeBytes elemTypeSize,
        op.input.shape.getD op.tileDim 0 * op.planeBytes elemTypeSize, 0,
        op.tileWidth axis elemTypeSize (op.input.shape.getD op.tileDim 0),
        op.tileStride axis elemTypeSize (op.input.shape.getD op.tileDim 0), 0⟩ := by
  have hmem : op.input.getMemShape.set 1 (op.input.shape.getD op.tileDim 0) =
      op.input.getMemShape := by
    have hself := DimsOrder.memoryOrder_getD op.input.shape (tileDim_lt hop)
    rw [dimPos_tileDim hop] at hself
    rw [← hself]
    exact set_getD_self _ _
  rw [generate_eq hop hop.rank rfl, op.input.prod_getMemShape, numElements_planes hop, tileWidth,
    tileStride, hmem]

include hop in
theorem matchAndRewrite_eq (dmaPortCount : ℕ) (htile : op.Tileable elemTypeSize) :
    ∃ dmas, op.matchAndRewrite dmaPortCount = .ok dmas ∧
      dmas.map SubDMA.copy = cutBytes (op.planeBytes elemTypeSize) (op.outPlaneBytes elemTypeSize)
        (op.tileWidth axis elemTypeSize) (op.tileStride axis elemTypeSize) op.srcOffset
        op.dstOffset (op.tileSizes elemTypeSize) := by
  have hsize := getCompactSize_eq hop
  have helem := hop.elemType
  by_cases hsmall : op.input.getNumElements * elemTypeSize ≤ DMA_LIMIT
  · have hsizes : op.tileSizes elemTypeSize = [op.input.shape.getD op.tileDim 0] :=
      if_neg (Nat.not_lt.mpr hsmall)
    have hrun : op.matchAndRewrite dmaPortCount =
        generate op.input op.output op.padsBegin op.padsEnd elemTypeSize >>= fun dmaDescriptor =>
          .ok [⟨0, dmaDescriptor, op.srcOffset, op.dstOffset⟩] := by
      rw [matchAndRewrite, hsize]
      change (if DMA_LIMIT < op.input.getNumElements * elemTypeSize then _ else _) = _
      rw [if_neg (Nat.not_lt.mpr hsmall), helem]
      rfl
    rw [generate_input hop] at hrun
    rw [hsizes]
    exact ⟨_, hrun, rfl⟩
  · obtain ⟨hplane, haxis⟩ := htile.resolve_left hsmall
    have hper : 0 < DMA_LIMIT / op.planeBytes elemTypeSize :=
      Nat.div_pos hplane (planeBytes_pos hop)
    have hlarge : DMA_LIMIT < op.input.getNumElements * elemTypeSize := Nat.lt_of_not_le hsmall
    have hsizes : op.tileSizes elemTypeSize = tilePlanes (DMA_LIMIT / op.planeBytes elemTypeSize)
        (op.input.shape.getD op.tileDim 0) (op.input.shape.getD op.tileDim 0) := if_pos hlarge
    refine ⟨_, ?_, Unrolled.copies_createAll_bytes dmaPortCount (op.planeBytes elemTypeSize)
      (op.outPlaneBytes elemTypeSize) (op.tileWidth axis elemTypeSize)
      (op.tileStride axis elemTypeSize) (op.tileSizes elemTypeSize)
      ⟨0, op.srcOffset, op.dstOffset, []⟩⟩
    rw [matchAndRewrite, hsize]
    change (if DMA_LIMIT < op.input.getNumElements * elemTypeSize then _ else _) = _
    rw [if_pos hlarge, createTilesForLargeSize, throwUnless, if_pos hop.rank, hsize]
    change (throwUnless _ _ >>= fun _ => (toByte _ >>= _) : Except Fault (List SubDMA)) = _
    rw [singlePlaneSize_eq hop, throwUnless, if_pos hper.ne', helem]
    change (List.mapM _ _ >>= fun _ => (throwUnless _ _ >>= _) : Except Fault (List SubDMA)) = _
    rw [← hsizes, mapM_ok fun n _ =>
      tileSubOp_ok hop (validateQuantElemType_set op.input.validQuant haxis)]
    rw [throwUnless, hsizes, if_pos (sum_tilePlanes hper le_rfl)]
    rfl

theorem quantizedAxis_of_valid {elemType : ElemType} {shape : List ℕ} {d n : ℕ}
    (h : validateQuantElemType elemType shape) (hn : n ≠ shape.getD d 0)
    (hset : validateQuantElemType elemType (shape.set d n)) :
    elemType.quantizedAxis ≠ some d := by
  intro haxis
  cases elemType with
  | uniformQuantizedPerAxis isSigned storageWidth qDim zps =>
    obtain rfl : qDim = d := Option.some.inj haxis
    obtain ⟨hlt, hsize⟩ := List.getElem?_eq_some_iff.mp h
    rw [validateQuantElemType, getElem?_set_self hlt, Option.some.injEq] at hset
    rw [getD_eq_getElem _ _ hlt, hsize] at hn
    exact hn hset
  | _ => cases haxis

theorem validQuant_of_tileSubOp {elemTypeSize n : ℕ} {sub : SubOp}
    (h : op.tileSubOp elemTypeSize n = .ok sub) :
    validateQuantElemType op.input.elemType (op.input.shape.set op.tileDim n) := by
  obtain ⟨tileType, htype, -⟩ := bind_eq_ok.mp h
  obtain ⟨-, -, htype⟩ := bind_eq_ok.mp htype
  unfold getTensorType at htype
  split_ifs at htype with hdims hquant
  exact hquant

section

variable (hop : op.IsExpand axis pad elemTypeSize)
include hop

theorem tileable_of_matchAndRewrite {dmaPortCount : ℕ} {dmas : List SubDMA}
    (hrun : op.matchAndRewrite dmaPortCount = .ok dmas) :
    op.Tileable elemTypeSize := by
  rw [Tileable, or_iff_not_imp_left]
  intro hsmall
  have hsize := getCompactSize_eq hop
  have hP := planeBytes_pos hop
  rw [matchAndRewrite, hsize] at hrun
  change (if DMA_LIMIT < op.input.getNumElements * elemTypeSize then _ else _) = _ at hrun
  rw [if_pos (Nat.lt_of_not_le hsmall)] at hrun
  obtain ⟨-, -, hrun⟩ := bind_eq_ok.mp hrun
  obtain ⟨fullCopySize, hfull, hrun⟩ := bind_eq_ok.mp hrun
  obtain rfl : fullCopySize = op.input.getNumElements * elemTypeSize :=
    Except.ok.inj (hfull.symm.trans hsize)
  dsimp only at hrun
  rw [singlePlaneSize_eq hop] at hrun
  obtain ⟨_, hper, hrun⟩ := bind_eq_ok.mp hrun
  rw [throwUnless_eq_ok] at hper
  obtain ⟨_, -, hrun⟩ := bind_eq_ok.mp hrun
  obtain ⟨subs, hsubs, -⟩ := bind_eq_ok.mp hrun
  have hmany : DMA_LIMIT / op.planeBytes elemTypeSize < op.input.shape.getD op.tileDim 0 := by
    rw [div_lt_iff_lt_mul hP, ← numElements_planes hop]
    exact Nat.lt_of_not_le hsmall
  obtain ⟨n, rest, htiles⟩ := tilePlanes_many (Nat.pos_of_ne_zero hper) hmany le_rfl
  rw [htiles] at hsubs
  obtain ⟨sub, hsub⟩ := mapM_runs hsubs _ mem_cons_self
  constructor
  · exact (Nat.div_pos_iff.mp (Nat.pos_of_ne_zero hper)).2
  · exact quantizedAxis_of_valid op.input.validQuant hmany.ne (validQuant_of_tileSubOp hsub)

theorem sum_tileSizes (htile : op.Tileable elemTypeSize) :
    (op.tileSizes elemTypeSize).sum = op.input.shape.getD op.tileDim 0 := by
  unfold tileSizes
  split_ifs with hlarge
  · obtain ⟨hplane, -⟩ := htile.resolve_left (not_le.mpr hlarge)
    exact sum_tilePlanes (div_pos hplane (planeBytes_pos hop)) le_rfl
  · exact sum_singleton

theorem encodes_matchAndRewrite (htile : op.Tileable elemTypeSize) : ∃ encode,
    Encodes (cutBytes (op.planeBytes elemTypeSize) (op.outPlaneBytes elemTypeSize)
        (op.tileWidth axis elemTypeSize) (op.tileStride axis elemTypeSize) op.srcOffset
        op.dstOffset (op.tileSizes elemTypeSize)) (InTensor op.input elemTypeSize)
      (op.source elemTypeSize)
      (fun x => op.dstOffset + movedTo (op.planeBytes elemTypeSize)
        (op.outPlaneBytes elemTypeSize) (op.tileWidth axis elemTypeSize)
        (op.tileStride axis elemTypeSize) (op.tileSizes elemTypeSize)
        (byteAddress op.input elemTypeSize x.point x.e)) encode := by
  have hsize : (op.tileSizes elemTypeSize).sum * op.planeBytes elemTypeSize =
      op.input.getNumElements * elemTypeSize := by
    rw [sum_tileSizes hop htile, numElements_planes hop]
  refine ⟨_, encodes_cutBytes (fun x : TensorByte => byteAddress op.input elemTypeSize x.point x.e)
    (planeBytes_pos hop) ?_ ?_⟩
  · intro x hx
    rw [hsize]
    exact byteAddress_lt_size hx
  · intro i hi
    rw [hsize] at hi
    exact exists_tensorByte hi

theorem outMemShape_eq : op.output.getMemShape =
    op.input.getMemShape.set (op.padPos axis) (op.input.shape.getD axis 0 + pad) :=
  getMemShape_set (hop.rank ▸ hop.axis_lt) hop.output hop.order

theorem length_memShape : op.input.getMemShape.length = 4 := by
  rw [NDType.getMemShape, length_memoryOrder, op.input.numDims_eq, hop.rank]

theorem padPos_lt : op.padPos axis < 4 :=
  length_memShape hop ▸ dimPos_lt_memShape (hop.rank ▸ hop.axis_lt)

theorem memShape_getD_padPos :
    op.input.getMemShape.getD (op.padPos axis) 0 = op.input.shape.getD axis 0 :=
  memoryOrder_getD _ (by
    rw [op.input.numDims_eq, hop.rank]
    exact hop.axis_lt)

theorem memShape_getD_tileDim :
    op.input.getMemShape.getD 1 0 = op.input.shape.getD op.tileDim 0 := by
  have hat := memoryOrder_getD op.input.shape (tileDim_lt hop)
  rwa [dimPos_tileDim hop] at hat

theorem outSize : op.output.shape.getD axis 0 = op.input.shape.getD axis 0 + pad := by
  have haxis : axis < op.input.shape.length := hop.rank ▸ hop.axis_lt
  rw [hop.output, getD_eq_getElem _ _ (by simpa using haxis), getElem_set_self]

end

/-- The bytes of the tensor that lie together in the padded one, and the room they take. -/
def wholeWidth (op : ExpandDMAOp) (axis elemTypeSize : ℕ) : ℕ :=
  op.input.shape.getD axis 0 * sizeBelow op.input axis * elemTypeSize

def wholeStride (op : ExpandDMAOp) (axis elemTypeSize : ℕ) : ℕ :=
  op.output.shape.getD axis 0 * sizeBelow op.input axis * elemTypeSize

include hop in
theorem target_eq {x : TensorByte} (hx : InTensor op.input elemTypeSize x) :
    op.target elemTypeSize x = op.dstOffset +
      (byteAddress op.input elemTypeSize x.point x.e / op.wholeWidth axis elemTypeSize *
          op.wholeStride axis elemTypeSize +
        byteAddress op.input elemTypeSize x.point x.e % op.wholeWidth axis elemTypeSize) := by
  have haxis : axis < op.input.shape.length := hop.rank ▸ hop.axis_lt
  obtain ⟨l, r, hl, hr, hv, hbyte⟩ := byteAddress_set haxis hx
  have hin := hbyte op.input _ (x.point.getD axis 0) (set_getD_self _ _).symm rfl
  have hout := hbyte op.output _ (x.point.getD axis 0) hop.output hop.order
  rw [set_getD_self] at hin hout
  have hwithin : (x.point.getD axis 0 * sizeBelow op.input axis + r) * elemTypeSize + x.e <
      op.wholeWidth axis elemTypeSize := digits_lt (digits_lt hv hr) hx.e
  have hsplit : byteAddress op.input elemTypeSize x.point x.e =
      l * op.wholeWidth axis elemTypeSize +
        ((x.point.getD axis 0 * sizeBelow op.input axis + r) * elemTypeSize + x.e) := by
    rw [hin, wholeWidth]
    ring
  rw [target, hout, hsplit, digits_div hwithin, digits_mod hwithin, wholeStride, outSize hop]
  ring

/-- The first of the sizes in memory, which the tiles take whole. -/
def outerSize (op : ExpandDMAOp) : ℕ := op.input.getMemShape.getD 0 0

/-- Tiles of many planes reach their places when the padded axis is not cut and not above the
cut, or is cut and nothing lies above it. -/
def TilesFit (op : ExpandDMAOp) (axis : ℕ) : Prop :=
  2 ≤ op.padPos axis ∨ op.padPos axis = 1 ∧ op.outerSize = 1

instance (op : ExpandDMAOp) (axis : ℕ) : Decidable (op.TilesFit axis) :=
  inferInstanceAs (Decidable (_ ∨ _))

/-- The bytes of the tensor are moved as they lie in the padded one. -/
def InPlace (op : ExpandDMAOp) (axis elemTypeSize i : ℕ) : Prop :=
  movedTo (op.planeBytes elemTypeSize) (op.outPlaneBytes elemTypeSize)
      (op.tileWidth axis elemTypeSize) (op.tileStride axis elemTypeSize)
      (op.tileSizes elemTypeSize) i =
    i / op.wholeWidth axis elemTypeSize * op.wholeStride axis elemTypeSize +
      i % op.wholeWidth axis elemTypeSize

include hop in
theorem inPlace_of_le (hsmall : op.input.getNumElements * elemTypeSize ≤ DMA_LIMIT) {i : ℕ}
    (hi : i < op.input.getNumElements * elemTypeSize) : op.InPlace axis elemTypeSize i := by
  have hsizes : op.tileSizes elemTypeSize = [op.input.shape.getD op.tileDim 0] :=
    if_neg (Nat.not_lt.mpr hsmall)
  have hmem : op.input.getMemShape.set 1 (op.input.shape.getD op.tileDim 0) =
      op.input.getMemShape := by
    rw [← memShape_getD_tileDim hop, set_getD_self]
  rw [numElements_planes hop] at hi
  have hwidth : op.tileWidth axis elemTypeSize (op.input.shape.getD op.tileDim 0) =
      op.wholeWidth axis elemTypeSize := by
    rw [tileWidth, hmem, memShape_getD_padPos hop]
    rfl
  have hstride : op.tileStride axis elemTypeSize (op.input.shape.getD op.tileDim 0) =
      op.wholeStride axis elemTypeSize := by
    rw [tileStride, hmem]
    rfl
  rw [InPlace, hsizes, movedTo_first hi, hwidth, hstride]

include hop in
theorem inPlace_of_above (htile : op.Tileable elemTypeSize) (habove : 2 ≤ op.padPos axis) {i : ℕ}
    (hi : i < op.input.getNumElements * elemTypeSize) : op.InPlace axis elemTypeSize i := by
  have hpos : op.padPos axis < op.input.getMemShape.length :=
    (length_memShape hop).symm ▸ padPos_lt hop
  have hkeep : ∀ n, (op.input.getMemShape.set 1 n).getD (op.padPos axis) 0 =
      op.input.shape.getD axis 0 := by
    intro n
    rw [← memShape_getD_padPos hop, List.getD_eq_getElem?_getD, List.getD_eq_getElem?_getD,
      List.getElem?_set_ne (by omega)]
  have hbelow : ∀ n, (op.input.getMemShape.set 1 n).drop (op.padPos axis + 1) =
      op.input.getMemShape.drop (op.padPos axis + 1) :=
    fun n => List.drop_set_of_lt (by omega)
  have hP : op.planeBytes elemTypeSize =
      ((op.input.getMemShape.set 1 1).take (op.padPos axis)).prod *
        op.wholeWidth axis elemTypeSize := by
    rw [planeBytes, prod_around (op.padPos axis) (by rwa [List.length_set]), hkeep, hbelow]
    exact Nat.mul_assoc _ _ _
  have hQ : op.outPlaneBytes elemTypeSize =
      ((op.input.getMemShape.set 1 1).take (op.padPos axis)).prod *
        op.wholeStride axis elemTypeSize := by
    rw [outPlaneBytes, outMemShape_eq hop, List.set_comm _ _ (by omega), List.prod_set,
      if_pos (by rwa [List.length_set]), hbelow, wholeStride, outSize hop, Nat.mul_assoc,
      Nat.mul_assoc, Nat.mul_assoc]
    rfl
  have hwhole : 0 < op.wholeWidth axis elemTypeSize :=
    Nat.pos_of_mul_pos_left (hP ▸ planeBytes_pos hop)
  apply movedTo_uniform hwhole hP hQ
  · intro n
    rw [tileWidth, hkeep, hbelow]
    rfl
  · intro n
    rw [tileStride, hbelow]
    rfl
  · rw [sum_tileSizes hop htile, ← numElements_planes hop]
    exact hi

section Cut

variable (hop : op.IsExpand axis pad elemTypeSize)
include hop

theorem exists_memShape : ∃ m₂ m₃, op.input.getMemShape =
    [op.outerSize, op.input.shape.getD op.tileDim 0, m₂, m₃] := by
  obtain ⟨m₀, m₁, m₂, m₃, hmem⟩ : ∃ m₀ m₁ m₂ m₃, op.input.getMemShape = [m₀, m₁, m₂, m₃] :=
    length_eq_four.mp (length_memShape hop)
  refine ⟨m₂, m₃, ?_⟩
  rw [← memShape_getD_tileDim hop, outerSize, hmem]
  rfl

theorem sizes_of_cut (hpos : op.padPos axis = 1) : ∃ R,
    op.planeBytes elemTypeSize = op.outerSize * R ∧
    op.outPlaneBytes elemTypeSize = op.planeBytes elemTypeSize ∧
    (∀ n, op.tileWidth axis elemTypeSize n = n * R) ∧
    (∀ n, op.tileStride axis elemTypeSize n = (op.input.shape.getD op.tileDim 0 + pad) * R) ∧
    op.wholeWidth axis elemTypeSize = op.input.shape.getD op.tileDim 0 * R := by
  obtain ⟨m₂, m₃, hmem⟩ := exists_memShape hop
  have hsize := memShape_getD_padPos hop
  rw [hpos, memShape_getD_tileDim hop] at hsize
  refine ⟨m₂ * m₃ * elemTypeSize, ?_, ?_, ?_, ?_, ?_⟩
  · simp only [planeBytes, hmem, set_cons_succ, set_cons_zero, prod_cons,
      prod_nil]
    ring
  · rw [outPlaneBytes, outMemShape_eq hop, hpos, set_set]
    rfl
  · intro n
    simp only [tileWidth, hpos, hmem, set_cons_succ, set_cons_zero, drop_succ_cons,
      drop_zero, getD_cons_succ, getD_cons_zero, prod_cons, prod_nil]
    ring
  · intro n
    simp only [tileStride, hpos, hmem, outSize hop, ← hsize, set_cons_succ,
      set_cons_zero, drop_succ_cons, drop_zero, prod_cons, prod_nil]
    ring
  · rw [wholeWidth, sizeBelow, show op.input.dimsOrder.dimPos axis = 1 from hpos, hmem, ← hsize]
    simp only [drop_succ_cons, drop_zero, prod_cons, prod_nil]
    ring

theorem sizes_of_outermost (hpos : op.padPos axis = 0) : ∃ R,
    op.planeBytes elemTypeSize = op.outerSize * R ∧
    op.outPlaneBytes elemTypeSize = (op.outerSize + pad) * R ∧
    op.wholeWidth axis elemTypeSize =
      op.input.shape.getD op.tileDim 0 * op.planeBytes elemTypeSize := by
  obtain ⟨m₂, m₃, hmem⟩ := exists_memShape hop
  have hsize : op.outerSize = op.input.shape.getD axis 0 := by
    have hat := memShape_getD_padPos hop
    rwa [hpos] at hat
  have hP : op.planeBytes elemTypeSize = op.outerSize * (m₂ * m₃ * elemTypeSize) := by
    simp only [planeBytes, hmem, set_cons_succ, set_cons_zero, prod_cons,
      prod_nil]
    ring
  refine ⟨m₂ * m₃ * elemTypeSize, hP, ?_, ?_⟩
  · rw [outPlaneBytes, outMemShape_eq hop, hpos, hmem, ← hsize]
    simp only [set_cons_succ, set_cons_zero, prod_cons, prod_nil]
    ring
  · rw [hP, wholeWidth, sizeBelow, show op.input.dimsOrder.dimPos axis = 0 from hpos, hmem, ← hsize]
    simp only [drop_succ_cons, drop_zero, prod_cons, prod_nil]
    ring

theorem inPlace_of_cut (htile : op.Tileable elemTypeSize) (hpos : op.padPos axis = 1)
    (hone : op.outerSize = 1) {i : ℕ} (hi : i < op.input.getNumElements * elemTypeSize) :
    op.InPlace axis elemTypeSize i := by
  obtain ⟨R, hP, hQ, hwidth, -, hwhole⟩ := sizes_of_cut hop hpos
  rw [hone, one_mul] at hP
  rw [numElements_planes hop] at hi
  have hlt : i < op.wholeWidth axis elemTypeSize := by rwa [hwhole, ← hP]
  have hmoved : movedTo (op.planeBytes elemTypeSize) (op.outPlaneBytes elemTypeSize)
      (op.tileWidth axis elemTypeSize) (op.tileStride axis elemTypeSize)
      (op.tileSizes elemTypeSize) i = i :=
    movedTo_together hQ (fun n => by rw [hwidth, hP]) (by rwa [sum_tileSizes hop htile])
  rw [InPlace, hmoved, div_eq_of_lt hlt, Nat.mod_eq_of_lt hlt, zero_mul, zero_add]

variable (hlarge : DMA_LIMIT < op.input.getNumElements * elemTypeSize)
  (htile : op.Tileable elemTypeSize)
include hlarge htile

theorem tileSizes_many : ∃ first second rest, op.tileSizes elemTypeSize = first :: second :: rest ∧
    0 < first ∧ 0 < second ∧ first < op.input.shape.getD op.tileDim 0 := by
  have hP := planeBytes_pos hop
  obtain ⟨hplane, -⟩ := htile.resolve_left (not_le.mpr hlarge)
  have hper : 0 < DMA_LIMIT / op.planeBytes elemTypeSize := div_pos hplane hP
  have hmany : DMA_LIMIT / op.planeBytes elemTypeSize < op.input.shape.getD op.tileDim 0 := by
    rwa [div_lt_iff_lt_mul hP, ← numElements_planes hop]
  obtain ⟨second, rest, htiles⟩ := tilePlanes_many hper hmany le_rfl
  have hmem : second ∈ tilePlanes (DMA_LIMIT / op.planeBytes elemTypeSize)
      (op.input.shape.getD op.tileDim 0) (op.input.shape.getD op.tileDim 0) := by
    rw [htiles]
    simp
  refine ⟨_, second, rest, ?_, hper, (mem_tilePlanes hper hmem).1, hmany⟩
  rw [← htiles]
  exact if_pos hlarge

theorem not_inPlace_of_cut (hpos : op.padPos axis = 1) (hmany : 1 < op.outerSize) :
    ∃ i < op.input.getNumElements * elemTypeSize, ¬op.InPlace axis elemTypeSize i := by
  obtain ⟨first, second, rest, hsizes, hfirst, -, hless⟩ := tileSizes_many hop hlarge htile
  obtain ⟨R, hP, -, hwidth, hstride, hwhole⟩ := sizes_of_cut hop hpos
  have hPpos := planeBytes_pos hop
  have hR : 0 < R := Nat.pos_of_mul_pos_left (hP ▸ hPpos)
  have hlt : first * R < first * op.planeBytes elemTypeSize := by
    rw [hP]
    exact (Nat.mul_lt_mul_left hfirst).mpr (lt_mul_of_one_lt_left hR hmany)
  have hin : first * R < op.wholeWidth axis elemTypeSize := by
    rw [hwhole]
    exact (Nat.mul_lt_mul_right hR).mpr hless
  refine ⟨first * R, ?_, ?_⟩
  · rw [numElements_planes hop]
    exact hlt.trans ((Nat.mul_lt_mul_right hPpos).mpr hless)
  · have hroom := mul_lt_mul_of_pos_right (hless.trans_le (le_add_right _ pad)) hR
    rw [InPlace, hsizes, movedTo_first hlt, hwidth, hstride, div_eq_of_lt hin,
      Nat.mod_eq_of_lt hin, Nat.div_self (Nat.mul_pos hfirst hR), Nat.mod_self]
    omega

theorem not_inPlace_of_outermost (hpos : op.padPos axis = 0) :
    ∃ i < op.input.getNumElements * elemTypeSize, ¬op.InPlace axis elemTypeSize i := by
  obtain ⟨first, second, rest, hsizes, hfirst, hsecond, hless⟩ := tileSizes_many hop hlarge htile
  obtain ⟨R, hP, hQ, hwhole⟩ := sizes_of_outermost hop hpos
  have hPpos := planeBytes_pos hop
  have hR : 0 < R := Nat.pos_of_mul_pos_left (hP ▸ hPpos)
  have hin : first * op.planeBytes elemTypeSize < op.wholeWidth axis elemTypeSize := by
    rw [hwhole]
    exact (Nat.mul_lt_mul_right hPpos).mpr hless
  refine ⟨first * op.planeBytes elemTypeSize, ?_, ?_⟩
  · rwa [numElements_planes hop, ← hwhole]
  · have hroom := mul_lt_mul_of_pos_left (mul_lt_mul_of_pos_right
      (Nat.lt_add_of_pos_right (n := op.outerSize) hop.pad_pos) hR) hfirst
    rw [← hP, ← hQ] at hroom
    rw [InPlace, hsizes, movedTo_second hsecond hPpos, div_eq_of_lt hin,
      Nat.mod_eq_of_lt hin]
    omega

end Cut

variable (hop : op.IsExpand axis pad elemTypeSize)
include hop

theorem tileSizes_le (htile : op.Tileable elemTypeSize) {n : ℕ}
    (hn : n ∈ op.tileSizes elemTypeSize) :
    n * op.planeBytes elemTypeSize ≤ DMA_LIMIT := by
  unfold tileSizes at hn
  split_ifs at hn with hlarge
  · obtain ⟨hplane, -⟩ := htile.resolve_left (not_le.mpr hlarge)
    have hper : 0 < DMA_LIMIT / op.planeBytes elemTypeSize :=
      div_pos hplane (planeBytes_pos hop)
    obtain ⟨-, hle, -⟩ := mem_tilePlanes hper hn
    exact (mul_le_mul_right _ hle).trans (div_mul_le_self _ _)
  · rw [mem_singleton.mp hn, ← numElements_planes hop]
    exact Nat.le_of_not_lt hlarge

theorem inPlace_iff (htile : op.Tileable elemTypeSize) :
    (∀ i < op.input.getNumElements * elemTypeSize, op.InPlace axis elemTypeSize i) ↔
      op.input.getNumElements * elemTypeSize ≤ DMA_LIMIT ∨ op.TilesFit axis := by
  constructor
  · intro hall
    by_contra hneither
    rw [not_or, not_le, TilesFit, not_or, not_and, not_le] at hneither
    obtain ⟨hlarge, hbelow, hcut⟩ := hneither
    obtain ⟨i, hi, hnot⟩ : ∃ i < op.input.getNumElements * elemTypeSize,
        ¬op.InPlace axis elemTypeSize i := by
      obtain hpos | hpos : op.padPos axis = 0 ∨ op.padPos axis = 1 := by omega
      · exact not_inPlace_of_outermost hop hlarge htile hpos
      · obtain ⟨R, hP, -⟩ := sizes_of_cut hop hpos
        have houter : 0 < op.outerSize := Nat.pos_of_mul_pos_right (hP ▸ planeBytes_pos hop)
        exact not_inPlace_of_cut hop hlarge htile hpos
          (lt_of_le_of_ne houter (Ne.symm (hcut hpos)))
    exact hnot (hall i hi)
  · rintro (hsmall | habove | hcut) i hi
    · exact inPlace_of_le hop hsmall hi
    · exact inPlace_of_above hop htile habove hi
    · exact inPlace_of_cut hop htile hcut.1 hcut.2 hi

theorem performs_iff {dmaPortCount : ℕ} {dmas : List SubDMA}
    (hrun : op.matchAndRewrite dmaPortCount = .ok dmas) :
    op.Performs elemTypeSize dmas ↔
      op.input.getNumElements * elemTypeSize ≤ DMA_LIMIT ∨ op.TilesFit axis := by
  have htile := tileable_of_matchAndRewrite hop hrun
  obtain ⟨dmas', hrun', hcopies⟩ := matchAndRewrite_eq hop dmaPortCount htile
  obtain rfl : dmas' = dmas := Except.ok.inj (hrun'.symm.trans hrun)
  obtain ⟨encode, hencodes⟩ := encodes_matchAndRewrite hop htile
  rw [← hcopies] at hencodes
  rw [← inPlace_iff hop htile]
  constructor
  · intro hperforms i hi
    obtain ⟨x, hx, rfl⟩ := exists_tensorByte hi
    have hreached := hencodes.eq_of_moves
      (fun x y hx hy h => byteAddress_inj hx hy (add_left_cancel h)) hperforms.moves hx
    rw [target_eq hop hx] at hreached
    exact add_left_cancel hreached
  · intro hall
    have hright : Encodes (dmas'.map SubDMA.copy) (InTensor op.input elemTypeSize)
        (op.source elemTypeSize) (op.target elemTypeSize) encode := by
      apply hencodes.congr
      intro x hx
      rw [target_eq hop hx, hall _ (byteAddress_lt_size hx)]
    have hroom : op.input.shape.getD axis 0 ≤ op.input.shape.getD axis 0 + pad :=
      le_add_right _ pad
    refine ⟨hright.moves fun x y hx hy h => ?_, hright.writesOnly, ?_⟩
    · exact byteAddress_inj (hx.enlarge hop.output hroom) (hy.enlarge hop.output hroom)
        (add_left_cancel h)
    · intro dma hdma
      have hmem := mem_map_of_mem (f := SubDMA.copy) hdma
      rw [hcopies] at hmem
      obtain ⟨n, hn, heq⟩ := mem_cutBytes hmem
      exact heq.trans_le (tileSizes_le hop htile hn)

end Run

/-- The transfers are created when the tensor or a plane of it fits one, and they pad the tensor
when it fits one or the padded axis lies behind the cut in memory. -/
theorem matchAndRewrite_performs_iff {op : ExpandDMAOp} {axis pad elemTypeSize : ℕ}
    (hop : op.IsExpand axis pad elemTypeSize) (dmaPortCount : ℕ) :
    ((∃ dmas, op.matchAndRewrite dmaPortCount = .ok dmas) ↔ op.Tileable elemTypeSize) ∧
      ∀ dmas, op.matchAndRewrite dmaPortCount = .ok dmas → (op.Performs elemTypeSize dmas ↔
        op.input.getNumElements * elemTypeSize ≤ DMA_LIMIT ∨ op.TilesFit axis) := by
  refine ⟨⟨?_, ?_⟩, fun dmas hrun => performs_iff hop hrun⟩
  · rintro ⟨dmas, hrun⟩
    exact tileable_of_matchAndRewrite hop hrun
  · intro htile
    obtain ⟨dmas, hrun, -⟩ := matchAndRewrite_eq hop dmaPortCount htile
    exact ⟨dmas, hrun⟩

/-- Two channels of eight mebibytes, padded to eight. -/
def moreChannels : ExpandDMAOp where
  input := ⟨[1, 2, 4096, 2048], .integer 8 .Unsigned, NHWC, numDims_NHWC, trivial⟩
  output := ⟨[1, 8, 4096, 2048], .integer 8 .Unsigned, NHWC, numDims_NHWC, trivial⟩
  srcOffset := 0
  dstOffset := 16777216
  padsBegin := [0, 0, 0, 0]
  padsEnd := [0, 6, 0, 0]

theorem performs_moreChannels :
    ((∃ dmas, moreChannels.matchAndRewrite 2 = .ok dmas) ↔ moreChannels.Tileable 1) ∧
      ∀ dmas, moreChannels.matchAndRewrite 2 = .ok dmas → (moreChannels.Performs 1 dmas ↔
        moreChannels.input.getNumElements * 1 ≤ DMA_LIMIT ∨ moreChannels.TilesFit 1) :=
  matchAndRewrite_performs_iff
    (⟨rfl, rfl, by decide, by decide, by decide, rfl, rfl, rfl, rfl, rfl, by decide⟩ :
      moreChannels.IsExpand 1 6 1) 2

/-- The same channels, padded to two batches. -/
def moreBatches : ExpandDMAOp where
  input := ⟨[1, 2, 4096, 2048], .integer 8 .Unsigned, NCHW, numDims_NCHW, trivial⟩
  output := ⟨[2, 2, 4096, 2048], .integer 8 .Unsigned, NCHW, numDims_NCHW, trivial⟩
  srcOffset := 0
  dstOffset := 16777216
  padsBegin := [0, 0, 0, 0]
  padsEnd := [1, 0, 0, 0]

/-- The second channel is written into the padding. -/
theorem not_performs_moreBatches : moreBatches.IsExpand 0 1 1 ∧
    ∃ dmas, moreBatches.matchAndRewrite 2 = .ok dmas ∧ ¬moreBatches.Performs 1 dmas := by
  have hop : moreBatches.IsExpand 0 1 1 :=
    ⟨rfl, rfl, by decide, by decide, by decide, rfl, rfl, rfl, rfl, rfl, by decide⟩
  have htile : moreBatches.Tileable 1 := .inr ⟨by decide, by decide⟩
  obtain ⟨dmas, hrun, -⟩ := matchAndRewrite_eq hop 2 htile
  refine ⟨hop, dmas, hrun, ?_⟩
  rw [performs_iff hop hrun]
  decide

end ExpandDMAOp

end Vpux.Dma
