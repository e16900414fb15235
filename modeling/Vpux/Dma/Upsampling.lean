import Vpux.Data.Dilation
import Vpux.Dma.PermutePlanes

/-! Upsampling as transfers (`passes/unroll_upsample_dma.cpp`): every pixel is placed where the
factors put it. -/
namespace Vpux.Dma
open Data Vpux.Const

/-- An operation that has no descriptor yet, with the byte offsets of the buffers it reads and
writes. -/
structure UpsamplingDMAOp where
  input : NDType
  output : NDType
  srcOffset : ℕ
  dstOffset : ℕ
  upsamplingFactor : List ℕ
  expand : Option (List ℕ)

def generateUpsamplingDmaDescriptor (inShape upsampleFactor : List ℕ)
    (elemTypeSize expandChannel : ℕ) : DMADescriptorAttr where
  numPlanes := Act.H inShape
  len := Act.W inShape * Act.C inShape * elemTypeSize
  srcWidth := Act.C inShape * Act.W inShape * elemTypeSize
  srcStride := Act.C inShape * Act.W inShape * elemTypeSize
  srcPlaneStride := Act.W inShape * Act.C inShape * elemTypeSize
  dstWidth := Act.C inShape * elemTypeSize
  dstStride := (Act.C inShape + expandChannel) * elemTypeSize * Act.W upsampleFactor
  dstPlaneStride := Act.W inShape * (Act.C inShape + expandChannel) * elemTypeSize *
    Act.H upsampleFactor * Act.W upsampleFactor

namespace UpsamplingDMAOp

def getOutShape (op : UpsamplingDMAOp) (inShape : List ℕ) : List ℕ :=
  let outShape := List.zipWith (· * ·) inShape op.upsamplingFactor
  match op.expand with
  | some expand => List.zipWith (· + ·) outShape expand
  | none => outShape

def expandChannel (op : UpsamplingDMAOp) : ℕ :=
  match op.expand with
  | some expand => expand.getD 1 0
  | none => 0

/-- In the planar layout the channels are planes as well. -/
def totalNumPlane (op : UpsamplingDMAOp) : ℕ :=
  let inShape := op.input.shape
  if op.input.dimsOrder = NCHW then Act.N inShape * Act.H inShape * Act.C inShape
  else Act.N inShape * Act.H inShape

/-- The shape of a transfer of `planes` planes. -/
def subShape (op : UpsamplingDMAOp) (planes : ℕ) : List ℕ :=
  let inShape := (op.input.shape.set 0 1).set 2 planes
  if op.input.dimsOrder = NCHW then inShape.set 1 1 else inShape

def subInputShapes (op : UpsamplingDMAOp) : List (List ℕ) :=
  let numberDMAs := divUp op.totalNumPlane DMA_MAX_NUMBER_PLANES
  List.replicate (numberDMAs - 1) (op.subShape DMA_MAX_NUMBER_PLANES) ++
    [op.subShape (op.totalNumPlane - DMA_MAX_NUMBER_PLANES * (numberDMAs - 1))]

def subOp (op : UpsamplingDMAOp) (elemTypeSize : ℕ) (inputShape : List ℕ) : SubOp where
  dmaDescriptor :=
    generateUpsamplingDmaDescriptor inputShape op.upsamplingFactor elemTypeSize op.expandChannel
  srcStep := inputShape.prod * elemTypeSize
  dstStep := (op.getOutShape inputShape).prod * elemTypeSize

def matchAndRewrite (dmaPortCount : ℕ) (op : UpsamplingDMAOp) : Except Fault (List SubDMA) := do
  let elemTypeSize ← toByte (getElemTypeSize op.input.elemType)
  let start : Unrolled := ⟨0, op.srcOffset, op.dstOffset, []⟩
  .ok (start.createAll dmaPortCount (op.subInputShapes.map (op.subOp elemTypeSize))).created

/-- Rows and columns `sh` and `sw` apart, and `padC` channels behind those of the input. -/
structure IsUpsampling (op : UpsamplingDMAOp) (N C H W sh sw padC elemTypeSize : ℕ) : Prop where
  input : op.input.shape = [N, C, H, W]
  output : op.output.shape = [N, C + padC, H * sh, W * sw]
  outOrder : op.output.dimsOrder = op.input.dimsOrder
  order : op.input.dimsOrder = NCHW ∧ padC = 0 ∨ op.input.dimsOrder = NHWC
  factor : op.upsamplingFactor = [1, 1, sh, sw]
  expand : op.expand = none ∧ padC = 0 ∨ op.expand = some [0, padC, 0, 0]
  elemType : toByte (getElemTypeSize op.input.elemType) = .ok elemTypeSize
  sizes_pos : ∀ d ∈ op.input.shape, 0 < d
  sh_pos : 0 < sh
  sw_pos : 0 < sw

def source (op : UpsamplingDMAOp) (elemTypeSize : ℕ) (x : TensorByte) : ℕ :=
  op.srcOffset + byteAddress op.input elemTypeSize x.point x.e

/-- Where the element is wanted. -/
def target (op : UpsamplingDMAOp) (elemTypeSize : ℕ) (x : TensorByte) : ℕ :=
  op.dstOffset + byteAddress op.output elemTypeSize (spreadPoint x.point op.upsamplingFactor) x.e

/-- Every element is written once to its place and no other place is written, within the limit of
planes. -/
structure Performs (op : UpsamplingDMAOp) (elemTypeSize : ℕ) (dmas : List SubDMA) : Prop where
  moves : Moves (dmas.map SubDMA.copy) (InTensor op.input elemTypeSize) (op.source elemTypeSize)
    (op.target elemTypeSize)
  only : WritesOnly (dmas.map SubDMA.copy) (InTensor op.input elemTypeSize)
    (op.target elemTypeSize)
  planes : ∀ dma ∈ dmas, dma.dmaDescriptor.numPlanes ≤ DMA_MAX_NUMBER_PLANES

section Moves

variable {op : UpsamplingDMAOp} {N C H W sh sw padC elemTypeSize : ℕ}

open SubDMA

section

variable (hop : op.IsUpsampling N C H W sh sw padC elemTypeSize)
include hop

theorem expandChannel_eq : op.expandChannel = padC := by
  unfold expandChannel
  rcases hop.expand with ⟨hnone, hzero⟩ | hsome
  · rw [hnone, hzero]
  · rw [hsome]
    rfl

theorem getOutShape_eq (IC n : ℕ) :
    op.getOutShape [1, IC, n, W] = [1, IC + padC, n * sh, W * sw] := by
  unfold getOutShape
  rw [hop.factor]
  rcases hop.expand with ⟨hnone, hzero⟩ | hsome
  · rw [hnone, hzero]
    simp
  · rw [hsome]
    simp

theorem matchAndRewrite_eq (dmaPortCount : ℕ) {IC : ℕ} (hsub : ∀ n, op.subShape n = [1, IC, n, W]) :
    ∃ dmas, op.matchAndRewrite dmaPortCount = .ok dmas ∧
      dmas.map copy = cutPlanes (copy ⟨0, generateUpsamplingDmaDescriptor
        [1, IC, op.totalNumPlane, W] [1, 1, sh, sw] elemTypeSize padC, op.srcOffset,
        op.dstOffset⟩) (planesOfDMAs op.totalNumPlane) ∧
      ∀ dma ∈ dmas, dma.dmaDescriptor.numPlanes ≤ DMA_MAX_NUMBER_PLANES := by
  have hstep : ∀ n, op.subOp elemTypeSize (op.subShape n) =
      ⟨{ generateUpsamplingDmaDescriptor [1, IC, op.totalNumPlane, W] [1, 1, sh, sw]
          elemTypeSize padC with numPlanes := n },
        n * (W * IC * elemTypeSize), n * (W * (IC + padC) * elemTypeSize * sh * sw)⟩ := by
    intro n
    unfold subOp
    rw [hsub, getOutShape_eq hop, expandChannel_eq hop, hop.factor]
    simp only [generateUpsamplingDmaDescriptor, Act.C_eq, Act.H_eq, Act.W_eq, List.prod_cons,
      List.prod_nil, SubOp.mk.injEq, true_and]
    constructor <;> ring
  have hsubs : op.subInputShapes.map (op.subOp elemTypeSize) =
      (planesOfDMAs op.totalNumPlane).map fun n => op.subOp elemTypeSize (op.subShape n) := by
    simp [subInputShapes, planesOfDMAs]
  simp only [hstep] at hsubs
  refine ⟨_, ?_, Unrolled.copies_createAll dmaPortCount _ (planesOfDMAs op.totalNumPlane)
    ⟨0, op.srcOffset, op.dstOffset, []⟩, ?_⟩
  · unfold matchAndRewrite
    rw [hop.elemType]
    change Except.ok (Unrolled.createAll dmaPortCount (op.subInputShapes.map
      (op.subOp elemTypeSize)) ⟨0, op.srcOffset, op.dstOffset, []⟩).created = _
    rw [hsubs]
    rfl
  · intro dma hdma
    rcases Unrolled.mem_createAll hdma with hnil | ⟨sub, hsub, heq⟩
    · simp at hnil
    · obtain ⟨n, hn, rfl⟩ := List.mem_map.mp hsub
      rw [heq]
      exact planesOfDMAs_le n hn

end

theorem exists_coordinates {x : TensorByte} (hinput : op.input.shape = [N, C, H, W])
    (hx : InTensor op.input elemTypeSize x) : ∃ n c h w, x.point = [n, c, h, w] ∧ n < N ∧ c < C ∧
      h < H ∧ w < W := by
  have hpoint := hx.point
  rw [hinput] at hpoint
  obtain ⟨n, c, h, w, heq⟩ := List.length_eq_four.mp hpoint.length_eq
  rw [heq] at hpoint
  simp only [inBox_cons] at hpoint
  exact ⟨n, c, h, w, heq, hpoint.1, hpoint.2.1, hpoint.2.2.1, hpoint.2.2.2.1⟩

theorem target_injective (hop : op.IsUpsampling N C H W sh sw padC elemTypeSize) {x y : TensorByte}
    (hx : InTensor op.input elemTypeSize x) (hy : InTensor op.input elemTypeSize y)
    (h : op.target elemTypeSize x = op.target elemTypeSize y) : x = y := by
  have hplace : ∀ {x : TensorByte}, InTensor op.input elemTypeSize x →
      InTensor op.output elemTypeSize ⟨spreadPoint x.point op.upsamplingFactor, x.e⟩ := by
    intro x hx
    obtain ⟨n, c, h, w, hpoint, hn, hc, hh, hw⟩ := exists_coordinates hop.input hx
    refine ⟨?_, hx.e⟩
    have hrow := Nat.mul_lt_mul_of_pos_right hh hop.sh_pos
    have hcolumn := Nat.mul_lt_mul_of_pos_right hw hop.sw_pos
    rw [hpoint, hop.output, hop.factor]
    simp [spreadPoint, hn, Nat.lt_add_right padC hc, hrow, hcolumn]
  have hfactor : ∀ d ∈ op.upsamplingFactor, 0 < d := by
    rw [hop.factor]
    simp [hop.sh_pos, hop.sw_pos]
  have hlength : ∀ {x : TensorByte}, InTensor op.input elemTypeSize x →
      x.point.length = op.upsamplingFactor.length := by
    intro x hx
    rw [hx.point.length_eq, hop.input, hop.factor]
    rfl
  have heq := byteAddress_inj (hplace hx) (hplace hy) (Nat.add_left_cancel h)
  obtain ⟨hpoint, he⟩ := TensorByte.mk.inj heq
  exact TensorByte.ext (spreadPoint_injective hfactor (hlength hx) (hlength hy) hpoint) he

theorem encodes_NHWC (hop : op.IsUpsampling N C H W sh sw padC elemTypeSize)
    (horder : op.input.dimsOrder = NHWC) :
    ∃ encode, Encodes (cutPlanes (copy ⟨0, generateUpsamplingDmaDescriptor
        [1, C, op.totalNumPlane, W] [1, 1, sh, sw] elemTypeSize padC, op.srcOffset,
        op.dstOffset⟩) (planesOfDMAs op.totalNumPlane)) (InTensor op.input elemTypeSize)
      (op.source elemTypeSize) (op.target elemTypeSize) encode := by
  have htotal : op.totalNumPlane = N * H := by
    unfold totalNumPlane
    rw [horder, hop.input]
    rfl
  have hout : op.output.dimsOrder = NHWC := hop.outOrder.trans horder
  refine ⟨_, encodes_cutPlanes (fun x => x.point.getD 0 0 * H + x.point.getD 2 0)
    (fun x => (x.point.getD 3 0 * C + x.point.getD 1 0) * elemTypeSize + x.e) sum_planesOfDMAs
    ?_ ?_ ?_ ?_⟩
  · intro x hx
    obtain ⟨n, c, h, w, hpoint, hn, hc, hh, hw⟩ := exists_coordinates hop.input hx
    rw [hpoint]
    exact ⟨htotal ▸ digits_lt hn hh, digits_lt (digits_lt hw hc) hx.e⟩
  · intro x hx
    obtain ⟨n, c, h, w, hpoint, hn, hc, hh, hw⟩ := exists_coordinates hop.input hx
    have hbyte : (w * C + c) * elemTypeSize + x.e < C * W * elemTypeSize :=
      mul_comm W C ▸ digits_lt (digits_lt hw hc) hx.e
    rw [source, hpoint, byteAddress_batch_NHWC hop.input horder]
    simp only [copy, generateUpsamplingDmaDescriptor, Act.C_eq, Act.W_eq,
      List.getD_cons_zero, List.getD_cons_succ, Walk.address_of_lt _ _ _ _ hbyte]
    ring
  · intro x hx
    obtain ⟨n, c, h, w, hpoint, hn, hc, hh, hw⟩ := exists_coordinates hop.input hx
    have hbyte := digits_assoc w C c elemTypeSize x.e
    rw [target, hpoint, hop.factor]
    simp only [spreadPoint, List.zipWith_cons_cons, List.zipWith_nil_right, mul_one,
      byteAddress_batch_NHWC hop.output hout]
    simp only [copy, generateUpsamplingDmaDescriptor, Act.C_eq, Act.H_eq, Act.W_eq,
      List.getD_cons_zero, List.getD_cons_succ, hbyte,
      Walk.address_digits _ _ _ _ _ (digits_lt hc hx.e)]
    ring
  · intro p hp t ht
    obtain ⟨n, hn, h, hh, rfl⟩ := exists_digits (show p < N * H from htotal ▸ hp)
    obtain ⟨r, hr, e, he, rfl⟩ := exists_digits (show t < W * C * elemTypeSize from ht)
    obtain ⟨w, hw, c, hc, rfl⟩ := exists_digits hr
    refine ⟨⟨[n, c, h, w], e⟩, ⟨?_, he⟩, rfl, rfl⟩
    rw [hop.input]
    simp [hn, hc, hh, hw]

theorem encodes_NCHW (hop : op.IsUpsampling N C H W sh sw 0 elemTypeSize)
    (horder : op.input.dimsOrder = NCHW) :
    ∃ encode, Encodes (cutPlanes (copy ⟨0, generateUpsamplingDmaDescriptor
        [1, 1, op.totalNumPlane, W] [1, 1, sh, sw] elemTypeSize 0, op.srcOffset,
        op.dstOffset⟩) (planesOfDMAs op.totalNumPlane)) (InTensor op.input elemTypeSize)
      (op.source elemTypeSize) (op.target elemTypeSize) encode := by
  have htotal : op.totalNumPlane = N * C * H := by
    unfold totalNumPlane
    rw [horder, hop.input, Nat.mul_right_comm]
    rfl
  have hout : op.output.dimsOrder = NCHW := hop.outOrder.trans horder
  refine ⟨_, encodes_cutPlanes
    (fun x => (x.point.getD 0 0 * C + x.point.getD 1 0) * H + x.point.getD 2 0)
    (fun x => x.point.getD 3 0 * elemTypeSize + x.e) sum_planesOfDMAs ?_ ?_ ?_ ?_⟩
  · intro x hx
    obtain ⟨n, c, h, w, hpoint, hn, hc, hh, hw⟩ := exists_coordinates hop.input hx
    have hbyte := digits_lt hw hx.e
    rw [hpoint]
    refine ⟨htotal ▸ digits_lt (digits_lt hn hc) hh, ?_⟩
    simpa [copy, generateUpsamplingDmaDescriptor] using hbyte
  · intro x hx
    obtain ⟨n, c, h, w, hpoint, hn, hc, hh, hw⟩ := exists_coordinates hop.input hx
    have hbyte : w * elemTypeSize + x.e < 1 * W * elemTypeSize :=
      (one_mul W).symm ▸ digits_lt hw hx.e
    rw [source, hpoint, byteAddress_batch_NCHW hop.input horder]
    simp only [copy, generateUpsamplingDmaDescriptor, Act.C_eq, Act.W_eq,
      List.getD_cons_zero, List.getD_cons_succ, Walk.address_of_lt _ _ _ _ hbyte]
    ring
  · intro x hx
    obtain ⟨n, c, h, w, hpoint, hn, hc, hh, hw⟩ := exists_coordinates hop.input hx
    have he : x.e < 1 * elemTypeSize := (one_mul elemTypeSize).symm ▸ hx.e
    have hbyte : w * elemTypeSize + x.e = w * (1 * elemTypeSize) + x.e := by ring
    rw [target, hpoint, hop.factor]
    simp only [spreadPoint, List.zipWith_cons_cons, List.zipWith_nil_right, mul_one,
      byteAddress_batch_NCHW hop.output hout]
    simp only [copy, generateUpsamplingDmaDescriptor, Act.C_eq, Act.H_eq, Act.W_eq,
      List.getD_cons_zero, List.getD_cons_succ, hbyte, Walk.address_digits _ _ _ _ _ he]
    ring
  · intro p hp t ht
    obtain ⟨q, hq, h, hh, rfl⟩ := exists_digits (show p < N * C * H from htotal ▸ hp)
    obtain ⟨n, hn, c, hc, rfl⟩ := exists_digits hq
    have ht' : t < W * elemTypeSize := by
      simpa [copy, generateUpsamplingDmaDescriptor] using ht
    obtain ⟨w, hw, e, he, rfl⟩ := exists_digits ht'
    refine ⟨⟨[n, c, h, w], e⟩, ⟨?_, he⟩, rfl, rfl⟩
    rw [hop.input]
    simp [hn, hc, hh, hw]

/-- Upsampling places every element, in both layouts, for every batch and every number of rows. -/
theorem matchAndRewrite_performs (hop : op.IsUpsampling N C H W sh sw padC elemTypeSize)
    (dmaPortCount : ℕ) :
    ∃ dmas, op.matchAndRewrite dmaPortCount = .ok dmas ∧ op.Performs elemTypeSize dmas := by
  have hperforms : ∀ IC, (∀ n, op.subShape n = [1, IC, n, W]) →
      (∃ encode, Encodes (cutPlanes (SubDMA.copy ⟨0, generateUpsamplingDmaDescriptor
        [1, IC, op.totalNumPlane, W] [1, 1, sh, sw] elemTypeSize padC, op.srcOffset,
        op.dstOffset⟩) (planesOfDMAs op.totalNumPlane)) (InTensor op.input elemTypeSize)
        (op.source elemTypeSize) (op.target elemTypeSize) encode) →
      ∃ dmas, op.matchAndRewrite dmaPortCount = .ok dmas ∧ op.Performs elemTypeSize dmas := by
    intro IC hsub hencodes
    obtain ⟨encode, hencodes⟩ := hencodes
    obtain ⟨dmas, hrun, hcopies, hplanes⟩ := matchAndRewrite_eq hop dmaPortCount hsub
    rw [← hcopies] at hencodes
    exact ⟨dmas, hrun, hencodes.moves fun x y hx hy => target_injective hop hx hy,
      hencodes.writesOnly, hplanes⟩
  rcases hop.order with ⟨horder, hzero⟩ | horder
  · subst hzero
    refine hperforms 1 (fun n => ?_) (encodes_NCHW hop horder)
    rw [subShape, horder, hop.input]
    rfl
  · refine hperforms C (fun n => ?_) (encodes_NHWC hop horder)
    rw [subShape, horder, hop.input]
    rfl

end Moves

/-- Two batches of 257 rows of a single element. -/
def tallColumns : UpsamplingDMAOp where
  input := ⟨[2, 1, 257, 1], .f16, NHWC, numDims_NHWC, trivial⟩
  output := ⟨[2, 3, 514, 3], .f16, NHWC, numDims_NHWC, trivial⟩
  srcOffset := 0
  dstOffset := 4096
  upsamplingFactor := [1, 1, 2, 3]
  expand := some [0, 2, 0, 0]

theorem performs_tallColumns :
    ∃ dmas, tallColumns.matchAndRewrite 2 = .ok dmas ∧ tallColumns.Performs 2 dmas :=
  matchAndRewrite_performs
    (⟨rfl, rfl, rfl, .inr rfl, rfl, .inr rfl, rfl, by decide, by decide, by decide⟩ :
      tallColumns.IsUpsampling 2 1 257 1 2 3 2 2) 2

end UpsamplingDMAOp

end Vpux.Dma
