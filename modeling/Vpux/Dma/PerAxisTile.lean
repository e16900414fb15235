import Vpux.Dma.PermutePlanes

/-! A tensor repeated along an axis by transfers (`passes/unroll_per_axis_tile_dma.cpp`, the
generator of their descriptors and `convert_to_dma_utils.cpp`). -/
namespace Vpux.Dma
open Data Vpux.Const

/-- An operation on a single cluster that has no descriptor yet, with the byte offsets of the
buffers it reads and writes. -/
structure PerAxisTileDMAOp where
  input : NDType
  output : NDType
  srcOffset : ℕ
  dstOffset : ℕ
  axis : ℕ
  tiles : ℕ

/-- The sizes above the axis, of the axis and below it. -/
def getMergedShape (shape : List ℕ) (axis : ℕ) : List ℕ :=
  (List.range shape.length).foldl (fun mergedShape idx =>
    let mergeAxis := if idx < axis then 0 else if idx = axis then 1 else 2
    mergedShape.set mergeAxis (mergedShape.getD mergeAxis 0 * shape.getD idx 0)) [1, 1, 1]

def getPerAxisTileDMAMergedShape (inType outType : NDType) (axis tiles : ℕ) :
    Except Fault (List ℕ × List ℕ) := do
  let inShape := inType.shape
  let outShape := outType.shape
  throwUnless (inShape.length = outShape.length ∧ axis < inShape.length ∧
    inShape.getD axis 0 * tiles = outShape.getD axis 0) "Unexpect PerAxisTile shapes"
  let inOrder := inType.dimsOrder
  let outOrder := outType.dimsOrder
  let inMemShape ← inOrder.toMemoryOrder inShape
  let outMemShape ← outOrder.toMemoryOrder outShape
  .ok (getMergedShape inMemShape (inOrder.dimPos axis),
    getMergedShape outMemShape (inOrder.dimPos axis))

def getPerAxisTileDMASubShapes (shape : List ℕ) : Except Fault (List (List ℕ)) := do
  throwUnless (shape.length = 3) "PerAxisTile merged Shape size should be 3"
  let totalNumPlane := shape.getD 0 0
  let numberDMAs := divUp totalNumPlane DMA_MAX_NUMBER_PLANES
  .ok (if 1 < numberDMAs then
      List.replicate (numberDMAs - 1) (shape.set 0 DMA_MAX_NUMBER_PLANES) ++
        [shape.set 0 (totalNumPlane - DMA_MAX_NUMBER_PLANES * (numberDMAs - 1))]
    else [shape])

/-- `PerAxisTileDmaDescriptorGenerator::generate`. The source stride re-reads the plane. -/
def PerAxisTileDmaDescriptorGenerator.generate (inShape outShape : List ℕ)
    (repeats elemTypeSize : ℕ) : Except Fault DMADescriptorAttr := do
  throwUnless (inShape.length = 3 ∧ inShape.getD 1 0 * repeats = outShape.getD 1 0)
    "Unexpected inShape and outShape"
  let L := inShape.getD 0 0
  let M := inShape.getD 1 0
  let R := inShape.getD 2 0
  .ok {
    numPlanes := L
    len := M * R * repeats * elemTypeSize
    srcWidth := M * R * elemTypeSize
    srcStride := 0 * elemTypeSize
    srcPlaneStride := M * R * elemTypeSize
    dstWidth := M * R * repeats * elemTypeSize
    dstStride := M * R * repeats * elemTypeSize
    dstPlaneStride := M * R * repeats * elemTypeSize }

namespace PerAxisTileDMAOp

def unrollPerAxisTile (dmaPortCount : ℕ) (op : PerAxisTileDMAOp) : Except Fault (List SubDMA) := do
  let elemTypeSize ← toByte (getElemTypeSize op.input.elemType)
  let (mergedInShape, mergedOutShape) ←
    getPerAxisTileDMAMergedShape op.input op.output op.axis op.tiles
  let dmaDescriptor ← PerAxisTileDmaDescriptorGenerator.generate mergedInShape mergedOutShape
    op.tiles elemTypeSize
  let subInputShapes ← getPerAxisTileDMASubShapes mergedInShape
  let subOutputShapes ← getPerAxisTileDMASubShapes mergedOutShape
  throwUnless (subInputShapes.length = subOutputShapes.length)
    "Unexpected PerAxisTileDMA subInput and subOutput number"
  let subs := List.zipWith (fun (subInShape subOutShape : List ℕ) =>
    (⟨updateNumPlanes dmaDescriptor (subInShape.getD 0 0), subInShape.prod * elemTypeSize,
      subOutShape.prod * elemTypeSize⟩ : SubOp)) subInputShapes subOutputShapes
  let start : Unrolled := ⟨0, op.srcOffset, op.dstOffset, []⟩
  .ok (start.createAll dmaPortCount subs).created

/-- The output is the input, repeated along the axis, in the same layout. -/
structure IsPerAxisTile (op : PerAxisTileDMAOp) (elemTypeSize : ℕ) : Prop where
  axis : op.axis < op.input.shape.length
  output : op.output.shape = op.input.shape.set op.axis (op.input.shape.getD op.axis 0 * op.tiles)
  order : op.output.dimsOrder = op.input.dimsOrder
  elemType : toByte (getElemTypeSize op.input.elemType) = .ok elemTypeSize

/-- The element of the input that is repeated there. -/
def source (op : PerAxisTileDMAOp) (elemTypeSize : ℕ) (x : TensorByte) : ℕ :=
  op.srcOffset + byteAddress op.input elemTypeSize
    (x.point.set op.axis (x.point.getD op.axis 0 % op.input.shape.getD op.axis 0)) x.e

def target (op : PerAxisTileDMAOp) (elemTypeSize : ℕ) (x : TensorByte) : ℕ :=
  op.dstOffset + byteAddress op.output elemTypeSize x.point x.e

/-- Every element of the output is written once with its value and no other place is written,
within the limit of planes. -/
structure Performs (op : PerAxisTileDMAOp) (elemTypeSize : ℕ) (dmas : List SubDMA) : Prop where
  moves : Moves (dmas.map SubDMA.copy) (InTensor op.output elemTypeSize) (op.source elemTypeSize)
    (op.target elemTypeSize)
  only : WritesOnly (dmas.map SubDMA.copy) (InTensor op.output elemTypeSize)
    (op.target elemTypeSize)
  planes : ∀ dma ∈ dmas, dma.dmaDescriptor.numPlanes ≤ DMA_MAX_NUMBER_PLANES

section Merged

variable {shape : List ℕ} {axis : ℕ}

theorem mergedShape_range (haxis : axis < shape.length) {n : ℕ} (hn : n ≤ shape.length) :
    (List.range n).foldl (fun mergedShape idx =>
        let mergeAxis := if idx < axis then 0 else if idx = axis then 1 else 2
        mergedShape.set mergeAxis (mergedShape.getD mergeAxis 0 * shape.getD idx 0)) [1, 1, 1] =
      [((shape.take n).take axis).prod, if axis < n then shape.getD axis 0 else 1,
        ((shape.take n).drop (axis + 1)).prod] := by
  induction n with
  | zero => simp
  | succ n ih =>
    have hlast : shape.take (n + 1) = shape.take n ++ [shape.getD n 0] := by
      rw [List.take_succ_eq_append_getElem (by omega), List.getD_eq_getElem _ _ (by omega)]
    have hlength : (shape.take n).length = n := List.length_take_of_le (by omega)
    rw [List.range_succ, List.foldl_append, ih (by omega), hlast, List.foldl_cons, List.foldl_nil]
    rcases Nat.lt_trichotomy n axis with hlt | rfl | hgt
    · have hbefore : (shape.take n).take axis = shape.take n :=
        List.take_of_length_le (by omega)
      have hafter : (shape.take n ++ [shape.getD n 0]).take axis =
          shape.take n ++ [shape.getD n 0] :=
        List.take_of_length_le (by rw [List.length_append, hlength]; exact hlt)
      rw [hbefore, hafter, List.drop_of_length_le (by omega),
        List.drop_of_length_le (by rw [List.length_append, hlength]; simp; omega)]
      simp [hlt, hlt.not_gt, show ¬axis < n + 1 by omega]
    · rw [List.take_append_of_le_length hlength.ge, List.drop_of_length_le (by omega),
        List.drop_of_length_le (by simp [hlength])]
      simp
    · rw [List.take_append_of_le_length (by omega), List.drop_append_of_le_length (by omega)]
      simp [hgt, hgt.not_gt, hgt.ne', Nat.lt_succ_of_lt hgt]

theorem getMergedShape_eq (haxis : axis < shape.length) :
    getMergedShape shape axis =
      [(shape.take axis).prod, shape.getD axis 0, (shape.drop (axis + 1)).prod] := by
  rw [getMergedShape, mergedShape_range haxis le_rfl, List.take_length, if_pos haxis]

theorem getPerAxisTileDMASubShapes_eq (L M R : ℕ) : getPerAxisTileDMASubShapes [L, M, R] =
    .ok ((planesOfDMAs L).map fun n => [n, M, R]) := by
  unfold getPerAxisTileDMASubShapes planesOfDMAs
  change Except.ok (if 1 < divUp L DMA_MAX_NUMBER_PLANES then _ else _) = _
  split_ifs with hmany
  · simp
  · have hone : divUp L DMA_MAX_NUMBER_PLANES - 1 = 0 := by omega
    simp [hone]

end Merged

section Run

variable {op : PerAxisTileDMAOp} {elemTypeSize : ℕ}

/-- The sizes of the input in memory above the axis, of the axis and below it. -/
def L (op : PerAxisTileDMAOp) : ℕ := sizeAbove op.input op.axis

def M (op : PerAxisTileDMAOp) : ℕ := op.input.shape.getD op.axis 0

def R (op : PerAxisTileDMAOp) : ℕ := sizeBelow op.input op.axis

section

variable (hop : op.IsPerAxisTile elemTypeSize)
include hop

theorem getPerAxisTileDMAMergedShape_eq :
    getPerAxisTileDMAMergedShape op.input op.output op.axis op.tiles =
      .ok ([op.L, op.M, op.R], [op.L, op.M * op.tiles, op.R]) := by
  have haxis : op.axis < op.input.dimsOrder.numDims := op.input.numDims_eq.symm ▸ hop.axis
  have hpos := dimPos_lt_memShape hop.axis
  have hM : op.input.getMemShape.getD (op.input.dimsOrder.dimPos op.axis) 0 = op.M :=
    DimsOrder.memoryOrder_getD _ haxis
  have hcheck : op.input.shape.length = op.output.shape.length ∧
      op.axis < op.input.shape.length ∧
      op.input.shape.getD op.axis 0 * op.tiles = op.output.shape.getD op.axis 0 := by
    rw [hop.output]
    exact ⟨by simp, hop.axis, by simp [hop.axis]⟩
  have hin := getMergedShape_eq hpos
  have hout : getMergedShape op.output.getMemShape (op.input.dimsOrder.dimPos op.axis) =
      [op.L, op.M * op.tiles, op.R] := by
    rw [getMemShape_set hop.axis hop.output hop.order, getMergedShape_eq (by simpa using hpos),
      List.take_set_of_le le_rfl, List.drop_set_of_lt (Nat.lt_succ_self _)]
    simp [L, M, R, sizeAbove, sizeBelow, hpos]
  unfold getPerAxisTileDMAMergedShape
  dsimp only
  rw [throwUnless, if_pos hcheck, NDType.toMemoryOrder_shape, NDType.toMemoryOrder_shape]
  change Except.ok (getMergedShape op.input.getMemShape _, getMergedShape op.output.getMemShape _)
    = _
  rw [hin, hout, hM]
  rfl

theorem unrollPerAxisTile_eq (dmaPortCount : ℕ) :
    ∃ dmas, op.unrollPerAxisTile dmaPortCount = .ok dmas ∧
      dmas.map SubDMA.copy = cutPlanes ⟨op.L, op.M * op.R * op.tiles * elemTypeSize,
        ⟨op.srcOffset, op.M * op.R * elemTypeSize, op.M * op.R * elemTypeSize, 0⟩,
        ⟨op.dstOffset, op.M * op.R * op.tiles * elemTypeSize,
          op.M * op.R * op.tiles * elemTypeSize, op.M * op.R * op.tiles * elemTypeSize⟩⟩
        (planesOfDMAs op.L) ∧
      ∀ dma ∈ dmas, dma.dmaDescriptor.numPlanes ≤ DMA_MAX_NUMBER_PLANES := by
  let dmaDescriptor : DMADescriptorAttr := ⟨op.L, op.M * op.R * op.tiles * elemTypeSize,
    op.M * op.R * elemTypeSize, 0, op.M * op.R * elemTypeSize,
    op.M * op.R * op.tiles * elemTypeSize, op.M * op.R * op.tiles * elemTypeSize,
    op.M * op.R * op.tiles * elemTypeSize⟩
  have hsubs : List.zipWith (fun (subInShape subOutShape : List ℕ) =>
      (⟨updateNumPlanes dmaDescriptor (subInShape.getD 0 0), subInShape.prod * elemTypeSize,
        subOutShape.prod * elemTypeSize⟩ : SubOp))
      ((planesOfDMAs op.L).map fun n => [n, op.M, op.R])
      ((planesOfDMAs op.L).map fun n => [n, op.M * op.tiles, op.R]) =
      (planesOfDMAs op.L).map fun n => ⟨{ dmaDescriptor with numPlanes := n },
        n * dmaDescriptor.srcPlaneStride, n * dmaDescriptor.dstPlaneStride⟩ := by
    rw [List.zipWith_map, List.zipWith_self]
    apply List.map_congr_left
    intro n _
    simp only [dmaDescriptor, updateNumPlanes, List.getD_cons_zero, List.prod_cons, List.prod_nil,
      SubOp.mk.injEq, true_and]
    constructor <;> ring
  have hgenerate : PerAxisTileDmaDescriptorGenerator.generate [op.L, op.M, op.R]
      [op.L, op.M * op.tiles, op.R] op.tiles elemTypeSize = .ok dmaDescriptor := by
    rw [PerAxisTileDmaDescriptorGenerator.generate, throwUnless, if_pos ⟨rfl, rfl⟩, Nat.zero_mul]
    rfl
  have hcopies := Unrolled.copies_createAll dmaPortCount dmaDescriptor (planesOfDMAs op.L)
    ⟨0, op.srcOffset, op.dstOffset, []⟩
  refine ⟨_, ?_, hcopies, ?_⟩
  · unfold unrollPerAxisTile
    simp only [hop.elemType, getPerAxisTileDMAMergedShape_eq hop, hgenerate,
      getPerAxisTileDMASubShapes_eq, bind, Except.bind, throwUnless, List.length_map, if_true,
        hsubs]
  · intro dma hdma
    rcases Unrolled.mem_createAll hdma with hnil | ⟨sub, hsub, heq⟩
    · simp at hnil
    · obtain ⟨n, hn, rfl⟩ := List.mem_map.mp hsub
      rw [heq]
      exact planesOfDMAs_le n hn

theorem byteAddress_output {x : TensorByte} (hx : InTensor op.output elemTypeSize x) :
    ∃ l m r, l < op.L ∧ m < op.M * op.tiles ∧ r < op.R ∧
      byteAddress op.output elemTypeSize x.point x.e =
        ((l * (op.M * op.tiles) + m) * op.R + r) * elemTypeSize + x.e ∧
      op.source elemTypeSize x =
        op.srcOffset + (((l * op.M + m % op.M) * op.R + r) * elemTypeSize + x.e) := by
  have haxis : op.axis < op.output.shape.length := by
    rw [hop.output, List.length_set]
    exact hop.axis
  have hsize : op.output.shape.getD op.axis 0 = op.M * op.tiles := by
    rw [hop.output, List.getD_eq_getElem _ _ (by simpa using hop.axis), List.getElem_set_self]
    rfl
  have hinput : op.input.shape = op.output.shape.set op.axis op.M := by
    rw [hop.output, List.set_set, M, set_getD_self]
  obtain ⟨l, r, hl, hr, hm, hbyte⟩ := byteAddress_set haxis hx
  obtain ⟨habove, hbelow⟩ := sizes_set hop.axis hop.output hop.order
  rw [habove] at hl
  rw [hbelow] at hr hbyte
  rw [hsize] at hm
  refine ⟨l, x.point.getD op.axis 0, r, hl, hm, hr, ?_, ?_⟩
  · have hself := hbyte op.output _ (x.point.getD op.axis 0) (set_getD_self _ _).symm rfl
    rwa [set_getD_self, hsize] at hself
  · rw [source, hbyte op.input op.M _ hinput hop.order.symm]
    rfl

theorem encodes_unrollPerAxisTile :
    ∃ encode, Encodes (cutPlanes ⟨op.L, op.M * op.R * op.tiles * elemTypeSize,
        ⟨op.srcOffset, op.M * op.R * elemTypeSize, op.M * op.R * elemTypeSize, 0⟩,
        ⟨op.dstOffset, op.M * op.R * op.tiles * elemTypeSize,
          op.M * op.R * op.tiles * elemTypeSize, op.M * op.R * op.tiles * elemTypeSize⟩⟩
        (planesOfDMAs op.L)) (InTensor op.output elemTypeSize) (op.source elemTypeSize)
      (op.target elemTypeSize) encode := by
  have hsize : op.M * op.tiles * op.R * elemTypeSize = op.M * op.R * op.tiles * elemTypeSize := by
    ring
  have hcount : op.output.getNumElements * elemTypeSize =
      op.L * (op.M * op.R * op.tiles * elemTypeSize) := by
    rw [getNumElements_set hop.axis hop.output hop.order]
    change op.L * (op.M * op.tiles) * op.R * elemTypeSize = _
    ring
  have hdigits : ∀ {x : TensorByte}, InTensor op.output elemTypeSize x → ∃ l m r, l < op.L ∧
      m < op.M * op.tiles ∧ r < op.R ∧ (m * op.R + r) * elemTypeSize + x.e <
        op.M * op.R * op.tiles * elemTypeSize ∧
      byteAddress op.output elemTypeSize x.point x.e =
        l * (op.M * op.R * op.tiles * elemTypeSize) + ((m * op.R + r) * elemTypeSize + x.e) ∧
      op.source elemTypeSize x =
        op.srcOffset + (((l * op.M + m % op.M) * op.R + r) * elemTypeSize + x.e) := by
    intro x hx
    obtain ⟨l, m, r, hl, hm, hr, hout, hsource⟩ := byteAddress_output hop hx
    refine ⟨l, m, r, hl, hm, hr, hsize ▸ digits_lt (digits_lt hm hr) hx.e, ?_, hsource⟩
    rw [hout]
    ring
  refine ⟨_, encodes_cutPlanes
    (fun x => byteAddress op.output elemTypeSize x.point x.e /
      (op.M * op.R * op.tiles * elemTypeSize))
    (fun x => byteAddress op.output elemTypeSize x.point x.e %
      (op.M * op.R * op.tiles * elemTypeSize)) sum_planesOfDMAs ?_ ?_ ?_ ?_⟩
  · intro x hx
    obtain ⟨l, m, r, hl, hm, hr, hbyte, hout, -⟩ := hdigits hx
    rw [hout, digits_div hbyte, digits_mod hbyte]
    exact ⟨hl, hbyte⟩
  · intro x hx
    obtain ⟨l, m, r, hl, hm, hr, hbyte, hout, hsource⟩ := hdigits hx
    have hM : 0 < op.M := Nat.pos_of_mul_pos_right (Nat.zero_lt_of_lt hm)
    have hwithin : (m % op.M * op.R + r) * elemTypeSize + x.e < op.M * op.R * elemTypeSize :=
      digits_lt (digits_lt (Nat.mod_lt m hM) hr) hx.e
    have hrepeat : (m * op.R + r) * elemTypeSize + x.e =
        m / op.M * (op.M * op.R * elemTypeSize) +
          ((m % op.M * op.R + r) * elemTypeSize + x.e) := by
      conv_lhs => rw [← Nat.div_add_mod' m op.M]
      ring
    rw [hout, digits_div hbyte, digits_mod hbyte, hsource, hrepeat,
      Walk.address_digits _ _ _ _ _ hwithin]
    ring
  · intro x hx
    obtain ⟨l, m, r, hl, hm, hr, hbyte, hout, -⟩ := hdigits hx
    rw [target, hout]
    rw [digits_div hbyte, digits_mod hbyte, Walk.address_of_lt _ _ _ _ hbyte, add_assoc]
  · intro p hp t ht
    have hlt := digits_lt hp ht
    rw [← hcount] at hlt
    obtain ⟨x, hx, heq⟩ := exists_tensorByte hlt
    exact ⟨x, hx, heq ▸ digits_div ht, heq ▸ digits_mod ht⟩

end

/-- The transfers repeat the tensor along the axis, whatever its rank and layout. -/
theorem unrollPerAxisTile_performs (hop : op.IsPerAxisTile elemTypeSize) (dmaPortCount : ℕ) :
    ∃ dmas, op.unrollPerAxisTile dmaPortCount = .ok dmas ∧ op.Performs elemTypeSize dmas := by
  obtain ⟨dmas, hrun, hcopies, hplanes⟩ := unrollPerAxisTile_eq hop dmaPortCount
  obtain ⟨encode, hencodes⟩ := encodes_unrollPerAxisTile hop
  rw [← hcopies] at hencodes
  refine ⟨dmas, hrun, hencodes.moves fun x y hx hy h => ?_, hencodes.writesOnly, hplanes⟩
  exact byteAddress_inj hx hy (Nat.add_left_cancel h)

end Run

/-- Three channels, five times, around 600 pixels with the channels innermost. -/
def fiveTimes : PerAxisTileDMAOp where
  input := ⟨[1, 3, 20, 30], .f16, NHWC, numDims_NHWC, trivial⟩
  output := ⟨[1, 15, 20, 30], .f16, NHWC, numDims_NHWC, trivial⟩
  srcOffset := 0
  dstOffset := 4096
  axis := 1
  tiles := 5

theorem performs_fiveTimes :
    ∃ dmas, fiveTimes.unrollPerAxisTile 2 = .ok dmas ∧ fiveTimes.Performs 2 dmas :=
  unrollPerAxisTile_performs (⟨by decide, rfl, rfl, rfl⟩ : fiveTimes.IsPerAxisTile 2) 2

end PerAxisTileDMAOp

end Vpux.Dma
