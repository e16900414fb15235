import Vpux.Dma.TensorBytes

/-! The transfers of space to depth move every byte where it belongs, but for one layout. -/
namespace Vpux.Dma
open Data Vpux.Const

namespace SpaceToDepthDMAOp

/-- Batch one, `C` channels of `H` times `W` blocks, and a whole number of bytes an element. -/
structure IsSpaceToDepth (op : SpaceToDepthDMAOp) (C H W elemTypeSize : ℕ) : Prop where
  input : op.input.shape = [1, C, H * op.blockSize, W * op.blockSize]
  output : op.output.shape = [1, C * (op.blockSize * op.blockSize), H, W]
  elemType : toByte (getElemTypeSize op.input.elemType) = .ok elemTypeSize
  blockSize : 0 < op.blockSize
  C_pos : 0 < C
  H_pos : 0 < H
  W_pos : 0 < W
  elemTypeSize_pos : 0 < elemTypeSize

inductive Layout : DimsOrder → DimsOrder → Prop
  | NCHW2NCHW : Layout NCHW NCHW
  | NHWC2NHWC : Layout NHWC NHWC
  | NCHW2NHWC : Layout NCHW NHWC

/-- Where a byte of `in[c, h * b + i, w * b + j]` is. -/
def source (op : SpaceToDepthDMAOp) (elemTypeSize : ℕ) (x : BlockPoint) : ℕ :=
  op.srcOffset + byteAddress op.input elemTypeSize
    [0, x.c, x.h * op.blockSize + x.i, x.w * op.blockSize + x.j] x.e

/-- Where the byte is wanted. -/
def target (op : SpaceToDepthDMAOp) (C elemTypeSize : ℕ) (x : BlockPoint) : ℕ :=
  op.dstOffset + byteAddress op.output elemTypeSize
    [0, deepChannel op.mode op.blockSize C x.c x.i x.j, x.h, x.w] x.e

def outputSize (op : SpaceToDepthDMAOp) (C H W elemTypeSize : ℕ) : ℕ :=
  C * (op.blockSize * op.blockSize) * H * W * elemTypeSize

/-- The transfers compute space to depth: every byte of the output is written once, with the
value wanted there, and no other byte is written. -/
structure Performs (op : SpaceToDepthDMAOp) (C H W elemTypeSize : ℕ) (dmas : List SubDMA) :
    Prop where
  once : ∀ d, op.dstOffset ≤ d → d < op.dstOffset + op.outputSize C H W elemTypeSize →
    ∃! job, ∃ s, Copies (dmas.map SubDMA.copy) job s d
  value : ∀ x, InBlocks C op.blockSize H W elemTypeSize x → ∀ job s,
    Copies (dmas.map SubDMA.copy) job s (op.target C elemTypeSize x) → s = op.source elemTypeSize x
  within : WritesWithin (dmas.map SubDMA.copy) op.dstOffset (op.outputSize C H W elemTypeSize)

/-- Where the last variant writes a byte. -/
def depthFirstNCHW2NHWCTarget (op : SpaceToDepthDMAOp) (C H W elemTypeSize : ℕ) (x : BlockPoint) :
    ℕ :=
  op.dstOffset + x.c * (op.blockSize * op.blockSize * elemTypeSize) +
    x.i * (W * (H * op.blockSize) * elemTypeSize) +
      (x.h * W + x.w) * (C * (op.blockSize * op.blockSize) * elemTypeSize) +
        (x.j * elemTypeSize + x.e)

variable {op : SpaceToDepthDMAOp} {C H W elemTypeSize : ℕ}

open SubDMA

section Points

variable (hop : op.IsSpaceToDepth C H W elemTypeSize)
  (horder : op.output.dimsOrder = NCHW ∨ op.output.dimsOrder = NHWC)
include hop horder

theorem target_bounds {x : BlockPoint} (hx : InBlocks C op.blockSize H W elemTypeSize x) :
    op.dstOffset ≤ op.target C elemTypeSize x ∧
      op.target C elemTypeSize x < op.dstOffset + op.outputSize C H W elemTypeSize :=
  ⟨Nat.le_add_right _ _, Nat.add_lt_add_left
    (byteAddress_lt hop.output horder (deepChannel_lt hx.c hx.i hx.j) hx.h hx.w hx.e) _⟩

theorem target_injective {x y : BlockPoint} (hx : InBlocks C op.blockSize H W elemTypeSize x)
    (hy : InBlocks C op.blockSize H W elemTypeSize y)
    (h : op.target C elemTypeSize x = op.target C elemTypeSize y) : x = y := by
  obtain ⟨hchannel, hh, hw, he⟩ := byteAddress_injective hop.output horder
    (deepChannel_lt hx.c hx.i hx.j) hx.h hx.w hx.e (deepChannel_lt hy.c hy.i hy.j) hy.h hy.w hy.e
    (Nat.add_left_cancel h)
  obtain ⟨hc, hi, hj⟩ := deepChannel_injective hx.c hx.i hx.j hy.c hy.i hy.j hchannel
  exact BlockPoint.ext hc hi hj hh hw he

theorem exists_target {d : ℕ} (hlo : op.dstOffset ≤ d)
    (hhi : d < op.dstOffset + op.outputSize C H W elemTypeSize) :
    ∃ x, InBlocks C op.blockSize H W elemTypeSize x ∧ op.target C elemTypeSize x = d := by
  obtain ⟨k, hk, h, hh, w, hw, e, he, hd⟩ := exists_byteAddress hop.output horder
    (show d - op.dstOffset < C * (op.blockSize * op.blockSize) * H * W * elemTypeSize by
      unfold outputSize at hhi
      omega)
  obtain ⟨c, hc, i, hi, j, hj, rfl⟩ := exists_deepChannel op.mode hk
  refine ⟨⟨c, i, j, h, w, e⟩, ⟨hc, hi, hj, hh, hw, he⟩, ?_⟩
  rw [target, ← hd]
  omega

variable {dmas : List SubDMA}

theorem performs_of_encodes {encode : BlockPoint → Job}
    (h : Encodes (dmas.map copy) (InBlocks C op.blockSize H W elemTypeSize)
      (op.source elemTypeSize) (op.target C elemTypeSize) encode) :
    op.Performs C H W elemTypeSize dmas := by
  have hmoves := h.moves fun x y hx hy => target_injective hop horder hx hy
  constructor
  · intro d hlo hhi
    obtain ⟨x, hx, rfl⟩ := exists_target hop horder hlo hhi
    exact hmoves.once x hx
  · exact hmoves.value
  · exact h.writesWithin fun x hx => target_bounds hop horder hx

theorem Performs.moves (h : op.Performs C H W elemTypeSize dmas) :
    Moves (dmas.map copy) (InBlocks C op.blockSize H W elemTypeSize)
      (op.source elemTypeSize) (op.target C elemTypeSize) := by
  refine ⟨fun x hx => ?_, h.value⟩
  obtain ⟨hlo, hhi⟩ := target_bounds hop horder hx
  exact h.once _ hlo hhi

theorem Performs.writesOnly (h : op.Performs C H W elemTypeSize dmas) :
    WritesOnly (dmas.map copy) (InBlocks C op.blockSize H W elemTypeSize)
      (op.target C elemTypeSize) := by
  intro job s d hjob
  obtain ⟨hlo, hhi⟩ := h.within job s d hjob
  exact exists_target hop horder hlo hhi

end Points

section Variants
open SpaceToDepthDmaDescriptorGenerator

variable (hop : op.IsSpaceToDepth C H W elemTypeSize) (dmaPortCount : ℕ)
include hop

open Unrolled Walk

/-- Rows of transfers move every byte where it belongs if each byte has a row, a transfer, a plane
and a place in the plane, and every such place has a byte. -/
theorem performs_of_rows (horder : op.output.dimsOrder = NCHW ∨ op.output.dimsOrder = NHWC)
    {rows count srcStep dstStep : ℕ} {nextDst : ℕ → ℕ → ℕ} {dmaDescriptor : DMADescriptorAttr}
    (hrun : op.matchAndRewrite dmaPortCount = .ok (op.start.createRows dmaPortCount srcStep dstStep
      dmaDescriptor rows count nextDst).created)
    (rowStep : ℕ) (hnext : ∀ start, nextDst start (start + count * dstStep) = start + rowStep)
    (row column plane byte : BlockPoint → ℕ)
    (hplace : ∀ x, InBlocks C op.blockSize H W elemTypeSize x → row x < rows ∧ column x < count ∧
      plane x < dmaDescriptor.numPlanes ∧ byte x < dmaDescriptor.len)
    (hsource : ∀ x, InBlocks C op.blockSize H W elemTypeSize x → ∃ a, ∃ b < dmaDescriptor.srcWidth,
      byte x = a * dmaDescriptor.srcWidth + b ∧ op.source elemTypeSize x =
        op.srcOffset + (row x * count + column x) * srcStep +
          plane x * dmaDescriptor.srcPlaneStride + a * dmaDescriptor.srcStride + b)
    (htarget : ∀ x, InBlocks C op.blockSize H W elemTypeSize x → ∃ a, ∃ b < dmaDescriptor.dstWidth,
      byte x = a * dmaDescriptor.dstWidth + b ∧ op.target C elemTypeSize x =
        op.dstOffset + row x * rowStep + column x * dstStep +
          plane x * dmaDescriptor.dstPlaneStride + a * dmaDescriptor.dstStride + b)
    (honto : ∀ m < rows, ∀ n < count, ∀ p < dmaDescriptor.numPlanes, ∀ t < dmaDescriptor.len,
      ∃ x, InBlocks C op.blockSize H W elemTypeSize x ∧
        row x = m ∧ column x = n ∧ plane x = p ∧ byte x = t) :
    ∃ dmas, op.matchAndRewrite dmaPortCount = .ok dmas ∧ op.Performs C H W elemTypeSize dmas := by
  rw [createRows_eq rowStep hnext] at hrun
  refine ⟨_, hrun, performs_of_encodes hop horder (encodes_grid row column plane byte
    (fun x hx => ⟨(hplace x hx).1, (hplace x hx).2.1⟩) (fun x hx => (hplace x hx).2.2) ?_ ?_
      honto)⟩
  · intro x hx
    obtain ⟨a, b, hb, hbyte, heq⟩ := hsource x hx
    rw [heq, hbyte, copy, address_digits _ _ _ _ _ hb]
    rfl
  · intro x hx
    obtain ⟨a, b, hb, hbyte, heq⟩ := htarget x hx
    rw [heq, hbyte, copy, address_digits _ _ _ _ _ hb]
    rfl

theorem performs_blocksFirstNCHW2NCHW (hin : op.input.dimsOrder = NCHW)
    (hout : op.output.dimsOrder = NCHW) (hmode : op.mode = .BLOCKS_FIRST) :
    ∃ dmas, op.matchAndRewrite dmaPortCount = .ok dmas ∧ op.Performs C H W elemTypeSize dmas := by
  have hrun : op.matchAndRewrite dmaPortCount = .ok (op.start.createRows dmaPortCount
      (W * op.blockSize * op.blockSize * elemTypeSize) (W * elemTypeSize)
      (generateBlocksFirstNCHW2NCHW op.input.shape op.output.shape elemTypeSize op.blockSize) C H
      fun _ dstOffset => dstOffset).created := by
    simp only [matchAndRewrite, generate, unrollBlocksFirstNCHW2NCHW, hin, hout, hmode,
      hop.elemType, hop.input, hop.output]
    rfl
  refine performs_of_rows hop dmaPortCount (.inl hout) hrun (H * (W * elemTypeSize))
    (fun _ => rfl) BlockPoint.c BlockPoint.h BlockPoint.j
    (fun x => (x.i * W + x.w) * elemTypeSize + x.e) ?_ ?_ ?_ ?_ <;>
      simp only [generateBlocksFirstNCHW2NCHW, hop.input, hop.output, Act.C_eq, Act.H_eq, Act.W_eq]
  · intro x hx
    have hlt := digits_lt (digits_lt hx.i hx.w) hx.e
    exact ⟨hx.c, hx.h, hx.j, mul_comm W op.blockSize ▸ hlt⟩
  · intro x hx
    refine ⟨_, _, hx.e, rfl, ?_⟩
    rw [source, byteAddress_NCHW hop.input hin]
    ring
  · intro x hx
    have hdiv : H * W * (C * (op.blockSize * op.blockSize)) / op.blockSize =
        H * W * C * op.blockSize := by
      rw [show H * W * (C * (op.blockSize * op.blockSize)) = H * W * C * op.blockSize *
        op.blockSize by ring, Nat.mul_div_cancel _ hop.blockSize]
    refine ⟨_, _, digits_lt hx.w hx.e, digits_assoc x.i W x.w elemTypeSize x.e, ?_⟩
    rw [target, hmode, byteAddress_NCHW hop.output hout, deepChannel, hdiv]
    ring
  · intro m hm n hn p hp t ht
    obtain ⟨r, hr, e, he, rfl⟩ := exists_digits ht
    obtain ⟨i, hi, w, hw, rfl⟩ := exists_digits (mul_comm W op.blockSize ▸ hr)
    exact ⟨⟨m, i, p, n, w, e⟩, ⟨hm, hi, hp, hn, hw, he⟩, rfl, rfl, rfl, rfl⟩

theorem performs_blocksFirstNHWC2NHWC (hin : op.input.dimsOrder = NHWC)
    (hout : op.output.dimsOrder = NHWC) (hmode : op.mode = .BLOCKS_FIRST) :
    ∃ dmas, op.matchAndRewrite dmaPortCount = .ok dmas ∧ op.Performs C H W elemTypeSize dmas := by
  -- one transfer is a row of one
  have hrun : op.matchAndRewrite dmaPortCount = .ok (op.start.createRows dmaPortCount 0 0
      (generateBlocksFirstNHWC2NHWC op.input.shape op.output.shape elemTypeSize op.blockSize) 1 1
      fun start _ => start).created := by
    simp only [matchAndRewrite, generate, unrollBlocksFirstNHWC2NHWC, hin, hout, hmode,
      hop.elemType]
    rfl
  have hlen : C * (W * op.blockSize) * H * elemTypeSize =
      H * W * op.blockSize * C * elemTypeSize := by ring
  refine performs_of_rows hop dmaPortCount (.inr hout) hrun 0 (fun _ => rfl) (fun _ => 0)
    (fun _ => 0) BlockPoint.i
    (fun x => (((x.h * W + x.w) * op.blockSize + x.j) * C + x.c) * elemTypeSize + x.e)
    ?_ ?_ ?_ ?_ <;> simp only [generateBlocksFirstNHWC2NHWC, hop.input, hop.output, Act.C_eq,
      Act.H_eq, Act.W_eq, hlen]
  · intro x hx
    exact ⟨zero_lt_one, zero_lt_one, hx.i,
      digits_lt (digits_lt (digits_lt (digits_lt hx.h hx.w) hx.j) hx.c) hx.e⟩
  · intro x hx
    have hlt := digits_lt (digits_lt (digits_lt hx.w hx.j) hx.c) hx.e
    refine ⟨x.h, _, mul_comm (W * op.blockSize) C ▸ hlt, by ring, ?_⟩
    rw [source, byteAddress_NHWC hop.input hin]
    ring
  · intro x hx
    have hlt := digits_lt (digits_lt hx.j hx.c) hx.e
    refine ⟨x.h * W + x.w, _, mul_comm op.blockSize C ▸ hlt, by ring, ?_⟩
    rw [target, hmode, byteAddress_NHWC hop.output hout, deepChannel]
    ring
  · intro m hm n hn p hp t ht
    obtain ⟨q, hq, e, he, rfl⟩ := exists_digits ht
    obtain ⟨r, hr, c, hc, rfl⟩ := exists_digits hq
    obtain ⟨s, hs, j, hj, rfl⟩ := exists_digits hr
    obtain ⟨h, hh, w, hw, rfl⟩ := exists_digits hs
    exact ⟨⟨c, p, j, h, w, e⟩, ⟨hc, hp, hj, hh, hw, he⟩, (Nat.lt_one_iff.mp hm).symm,
      (Nat.lt_one_iff.mp hn).symm, rfl, rfl⟩

theorem performs_blocksFirstNCHW2NHWC (hin : op.input.dimsOrder = NCHW)
    (hout : op.output.dimsOrder = NHWC) (hmode : op.mode = .BLOCKS_FIRST) :
    ∃ dmas, op.matchAndRewrite dmaPortCount = .ok dmas ∧ op.Performs C H W elemTypeSize dmas := by
  have hrun : op.matchAndRewrite dmaPortCount = .ok (op.start.createRows dmaPortCount
      (W * op.blockSize * op.blockSize * elemTypeSize)
      (C * (op.blockSize * op.blockSize) * W * elemTypeSize)
      (generateBlocksFirstNCHW2NHWC op.input.shape op.output.shape elemTypeSize op.blockSize) C H
      fun startDstIdx _ => startDstIdx + elemTypeSize).created := by
    simp only [matchAndRewrite, generate, unrollBlocksFirstNCHW2NHWC, hin, hout, hmode,
      hop.elemType, hop.input, hop.output]
    rfl
  refine performs_of_rows hop dmaPortCount (.inr hout) hrun elemTypeSize (fun _ => rfl)
    BlockPoint.c BlockPoint.h BlockPoint.w
    (fun x => (x.i * op.blockSize + x.j) * elemTypeSize + x.e) ?_ ?_ ?_ ?_ <;>
      simp only [generateBlocksFirstNCHW2NHWC, hop.input, hop.output, Act.C_eq, Act.W_eq]
  · exact fun x hx => ⟨hx.c, hx.h, hx.w, digits_lt (digits_lt hx.i hx.j) hx.e⟩
  · intro x hx
    refine ⟨_, _, digits_lt hx.j hx.e, digits_assoc x.i op.blockSize x.j elemTypeSize x.e, ?_⟩
    rw [source, byteAddress_NCHW hop.input hin]
    ring
  · intro x hx
    refine ⟨_, _, hx.e, rfl, ?_⟩
    rw [target, hmode, byteAddress_NHWC hop.output hout, deepChannel]
    ring
  · intro m hm n hn p hp t ht
    obtain ⟨r, hr, e, he, rfl⟩ := exists_digits ht
    obtain ⟨i, hi, j, hj, rfl⟩ := exists_digits hr
    exact ⟨⟨m, i, j, n, p, e⟩, ⟨hm, hi, hj, hn, hp, he⟩, rfl, rfl, rfl, rfl⟩

theorem performs_depthFirstNCHW2NCHW (hin : op.input.dimsOrder = NCHW)
    (hout : op.output.dimsOrder = NCHW) (hmode : op.mode = .DEPTH_FIRST) :
    ∃ dmas, op.matchAndRewrite dmaPortCount = .ok dmas ∧ op.Performs C H W elemTypeSize dmas := by
  have hrun : op.matchAndRewrite dmaPortCount = .ok (op.start.createRows dmaPortCount
      (W * op.blockSize * op.blockSize * elemTypeSize) (W * elemTypeSize)
      (generateDepthFirstNCHW2NCHW op.input.shape op.output.shape elemTypeSize op.blockSize) C H
      fun startDstIdx _ =>
        startDstIdx + W * op.blockSize * (H * op.blockSize) * elemTypeSize).created := by
    simp only [matchAndRewrite, generate, unrollDepthFirstNCHW2NCHW, hin, hout, hmode,
      hop.elemType, hop.input, hop.output]
    rfl
  refine performs_of_rows hop dmaPortCount (.inl hout) hrun
    (W * op.blockSize * (H * op.blockSize) * elemTypeSize) (fun _ => rfl) BlockPoint.c
    BlockPoint.h BlockPoint.j (fun x => (x.i * W + x.w) * elemTypeSize + x.e) ?_ ?_ ?_ ?_ <;>
      simp only [generateDepthFirstNCHW2NCHW, hop.input, hop.output, Act.H_eq, Act.W_eq]
  · intro x hx
    have hlt := digits_lt (digits_lt hx.i hx.w) hx.e
    exact ⟨hx.c, hx.h, hx.j, mul_comm W op.blockSize ▸ hlt⟩
  · intro x hx
    refine ⟨_, _, hx.e, rfl, ?_⟩
    rw [source, byteAddress_NCHW hop.input hin]
    ring
  · intro x hx
    refine ⟨_, _, digits_lt hx.w hx.e, digits_assoc x.i W x.w elemTypeSize x.e, ?_⟩
    rw [target, hmode, byteAddress_NCHW hop.output hout, deepChannel]
    ring
  · intro m hm n hn p hp t ht
    obtain ⟨r, hr, e, he, rfl⟩ := exists_digits ht
    obtain ⟨i, hi, w, hw, rfl⟩ := exists_digits (mul_comm W op.blockSize ▸ hr)
    exact ⟨⟨m, i, p, n, w, e⟩, ⟨hm, hi, hp, hn, hw, he⟩, rfl, rfl, rfl, rfl⟩

theorem performs_depthFirstNHWC2NHWC (hin : op.input.dimsOrder = NHWC)
    (hout : op.output.dimsOrder = NHWC) (hmode : op.mode = .DEPTH_FIRST) :
    ∃ dmas, op.matchAndRewrite dmaPortCount = .ok dmas ∧ op.Performs C H W elemTypeSize dmas := by
  have hrun : op.matchAndRewrite dmaPortCount = .ok (op.start.createRows dmaPortCount
      (W * op.blockSize * C * elemTypeSize) (op.blockSize * elemTypeSize)
      (generateDepthFirstNHWC2NHWC op.input.shape op.output.shape elemTypeSize op.blockSize) H
      op.blockSize fun startDstIdx _ =>
        startDstIdx + W * (C * (op.blockSize * op.blockSize)) * elemTypeSize).created := by
    simp only [matchAndRewrite, generate, unrollDepthFirstNHWC2NHWC, hin, hout, hmode,
      hop.elemType, hop.input, hop.output]
    rfl
  refine performs_of_rows hop dmaPortCount (.inr hout) hrun
    (W * (C * (op.blockSize * op.blockSize)) * elemTypeSize) (fun _ => rfl) BlockPoint.h
    BlockPoint.i BlockPoint.c (fun x => (x.w * op.blockSize + x.j) * elemTypeSize + x.e)
    ?_ ?_ ?_ ?_ <;> simp only [generateDepthFirstNHWC2NHWC, hop.input, hop.output, Act.C_eq,
      Act.W_eq]
  · exact fun x hx => ⟨hx.h, hx.i, hx.c, digits_lt (digits_lt hx.w hx.j) hx.e⟩
  · intro x hx
    refine ⟨_, _, hx.e, rfl, ?_⟩
    rw [source, byteAddress_NHWC hop.input hin]
    ring
  · intro x hx
    refine ⟨_, _, digits_lt hx.j hx.e, digits_assoc x.w op.blockSize x.j elemTypeSize x.e, ?_⟩
    rw [target, hmode, byteAddress_NHWC hop.output hout, deepChannel]
    ring
  · intro m hm n hn p hp t ht
    obtain ⟨r, hr, e, he, rfl⟩ := exists_digits ht
    obtain ⟨w, hw, j, hj, rfl⟩ := exists_digits hr
    exact ⟨⟨p, n, j, m, w, e⟩, ⟨hp, hn, hj, hm, hw, he⟩, rfl, rfl, rfl, rfl⟩

theorem encodes_depthFirstNCHW2NHWC (hin : op.input.dimsOrder = NCHW)
    (hout : op.output.dimsOrder = NHWC) (hmode : op.mode = .DEPTH_FIRST) :
    ∃ dmas encode, op.matchAndRewrite dmaPortCount = .ok dmas ∧
      Encodes (dmas.map copy) (InBlocks C op.blockSize H W elemTypeSize)
        (op.source elemTypeSize) (op.depthFirstNCHW2NHWCTarget C H W elemTypeSize) encode := by
  have hgenerate : op.generate = .ok (generateDepthFirstNCHW2NHWC op.input.shape
      op.output.shape elemTypeSize op.blockSize) := by
    simp only [generate, hin, hout, hmode, hop.elemType]
    rfl
  have hrun : op.matchAndRewrite dmaPortCount = .ok (grid 1 C fun _ n =>
      ⟨(0 + n) % dmaPortCount,
        generateDepthFirstNCHW2NHWC op.input.shape op.output.shape elemTypeSize op.blockSize,
        op.srcOffset + n * (W * op.blockSize * (H * op.blockSize) * elemTypeSize),
        op.dstOffset + n * (op.blockSize * op.blockSize * elemTypeSize)⟩) := by
    simp only [matchAndRewrite, hin, hout, hmode, unrollDepthFirstNCHW2NHWC, hgenerate,
      hop.elemType, hop.input, hop.output, Act.C_eq, Act.H_eq, Act.W_eq]
    rw [← map_range_eq_grid]
    exact congrArg (fun u => Except.ok (created u)) (createRow_eq C op.start)
  refine ⟨_, _, hrun, encodes_grid (fun _ => 0) BlockPoint.c BlockPoint.i
    (fun x => (x.h * (W * op.blockSize) + (x.w * op.blockSize + x.j)) * elemTypeSize + x.e)
    ?_ ?_ ?_ ?_ ?_⟩
  · exact fun x hx => ⟨zero_lt_one, hx.c⟩
  · intro x hx
    have hlt := digits_lt (digits_lt hx.h (digits_lt hx.w hx.j)) hx.e
    simp only [generateDepthFirstNCHW2NHWC, hop.input, hop.output, Act.H_eq, Act.W_eq]
    exact ⟨hx.i, mul_comm H (W * op.blockSize) ▸ hlt⟩
  · intro x hx
    have hbyte := digits_assoc x.h (W * op.blockSize) (x.w * op.blockSize + x.j) elemTypeSize x.e
    simp only [source, copy, generateDepthFirstNCHW2NHWC, hop.input, Act.W_eq, hbyte,
      address_digits _ _ _ _ _ (digits_lt (digits_lt hx.w hx.j) hx.e),
      byteAddress_NCHW hop.input hin]
    ring
  · intro x hx
    have hbyte : (x.h * (W * op.blockSize) + (x.w * op.blockSize + x.j)) * elemTypeSize + x.e =
        (x.h * W + x.w) * (op.blockSize * elemTypeSize) + (x.j * elemTypeSize + x.e) := by ring
    simp only [depthFirstNCHW2NHWCTarget, copy, generateDepthFirstNCHW2NHWC, hop.input,
      hop.output, Act.C_eq, Act.H_eq, Act.W_eq, hbyte,
      address_digits _ _ _ _ _ (digits_lt hx.j hx.e)]
  · intro m hm n hn p hp t ht
    simp only [generateDepthFirstNCHW2NHWC, hop.input, hop.output, Act.H_eq, Act.W_eq] at hp ht
    obtain ⟨q, hq, e, he, rfl⟩ := exists_digits ht
    obtain ⟨h, hh, r, hr, rfl⟩ := exists_digits (mul_comm H (W * op.blockSize) ▸ hq)
    obtain ⟨w, hw, j, hj, rfl⟩ := exists_digits hr
    exact ⟨⟨n, p, j, h, w, e⟩, ⟨hn, hp, hj, hh, hw, he⟩, (Nat.lt_one_iff.mp hm).symm, rfl, rfl,
      rfl⟩

/-- The planes of the last variant lie right when there is one plane, or one block. -/
theorem depthFirstNCHW2NHWCTarget_eq_iff (hout : op.output.dimsOrder = NHWC)
    (hmode : op.mode = .DEPTH_FIRST) :
    (∀ x, InBlocks C op.blockSize H W elemTypeSize x →
      op.depthFirstNCHW2NHWCTarget C H W elemTypeSize x = op.target C elemTypeSize x) ↔
    op.blockSize = 1 ∨ H = 1 ∧ W = 1 := by
  have htarget : ∀ x, op.target C elemTypeSize x =
      op.dstOffset + x.c * (op.blockSize * op.blockSize * elemTypeSize) +
        x.i * (op.blockSize * elemTypeSize) +
          (x.h * W + x.w) * (C * (op.blockSize * op.blockSize) * elemTypeSize) +
            (x.j * elemTypeSize + x.e) := by
    intro x
    simp only [target, hmode, deepChannel, byteAddress_NHWC hop.output hout]
    ring
  constructor
  · intro h
    by_contra hne
    push Not at hne
    have hblock : 1 < op.blockSize := Nat.lt_of_le_of_ne hop.blockSize (Ne.symm hne.1)
    have hx : InBlocks C op.blockSize H W elemTypeSize ⟨0, 1, 0, 0, 0, 0⟩ :=
      ⟨hop.C_pos, hblock, hop.blockSize, hop.H_pos, hop.W_pos, hop.elemTypeSize_pos⟩
    have heq := h _ hx
    rw [htarget, depthFirstNCHW2NHWCTarget] at heq
    have hfactor : W * H * (op.blockSize * elemTypeSize) = 1 * (op.blockSize * elemTypeSize) := by
      simp only [zero_mul, one_mul, add_zero] at heq ⊢
      calc W * H * (op.blockSize * elemTypeSize)
          = W * (H * op.blockSize) * elemTypeSize := by ring
        _ = op.blockSize * elemTypeSize := Nat.add_left_cancel heq
    have hone := Nat.eq_of_mul_eq_mul_right
      (Nat.mul_pos hop.blockSize hop.elemTypeSize_pos) hfactor
    exact hne.2 (Nat.eq_one_of_mul_eq_one_left hone) (Nat.eq_one_of_mul_eq_one_right hone)
  · intro h x hx
    have hplane : x.i * (W * (H * op.blockSize) * elemTypeSize) =
        x.i * (op.blockSize * elemTypeSize) := by
      rcases h with hone | ⟨rfl, rfl⟩
      · have hi := hx.i
        rw [hone, Nat.lt_one_iff] at hi
        rw [hi, zero_mul, zero_mul]
      · rw [one_mul, one_mul]
    rw [htarget, depthFirstNCHW2NHWCTarget, hplane]

theorem source_injective (hin : op.input.dimsOrder = NCHW ∨ op.input.dimsOrder = NHWC)
    {x y : BlockPoint} (hx : InBlocks C op.blockSize H W elemTypeSize x)
    (hy : InBlocks C op.blockSize H W elemTypeSize y)
    (h : op.source elemTypeSize x = op.source elemTypeSize y) : x = y := by
  obtain ⟨hc, hrow, hcolumn, he⟩ := byteAddress_injective hop.input hin hx.c
    (digits_lt hx.h hx.i) (digits_lt hx.w hx.j) hx.e hy.c (digits_lt hy.h hy.i)
    (digits_lt hy.w hy.j) hy.e (Nat.add_left_cancel h)
  obtain ⟨hh, hi⟩ := digits_injective hx.i hy.i hrow
  obtain ⟨hw, hj⟩ := digits_injective hx.j hy.j hcolumn
  exact BlockPoint.ext hc hi hj hh hw he

theorem performs_depthFirstNCHW2NHWC_iff (hin : op.input.dimsOrder = NCHW)
    (hout : op.output.dimsOrder = NHWC) (hmode : op.mode = .DEPTH_FIRST) :
    ∃ dmas, op.matchAndRewrite dmaPortCount = .ok dmas ∧
      (op.Performs C H W elemTypeSize dmas ↔ op.blockSize = 1 ∨ H = 1 ∧ W = 1) := by
  obtain ⟨dmas, encode, hrun, hencodes⟩ :=
    encodes_depthFirstNCHW2NHWC hop dmaPortCount hin hout hmode
  refine ⟨dmas, hrun, ?_⟩
  rw [← depthFirstNCHW2NHWCTarget_eq_iff hop hout hmode]
  constructor
  · intro h x hx
    have hmoves := h.moves hop (.inr hout)
    exact hencodes.eq_of_moves (fun y z hy hz => source_injective hop (.inl hin) hy hz) hmoves hx
  · exact fun h => performs_of_encodes hop (.inr hout) (hencodes.congr h)

theorem performs_supported (hlayout : Layout op.input.dimsOrder op.output.dimsOrder)
    (hsupported : ¬(op.mode = .DEPTH_FIRST ∧ op.input.dimsOrder = NCHW ∧
      op.output.dimsOrder = NHWC)) :
    ∃ dmas, op.matchAndRewrite dmaPortCount = .ok dmas ∧ op.Performs C H W elemTypeSize dmas := by
  generalize hin : op.input.dimsOrder = inOrder at hlayout hsupported
  generalize hout : op.output.dimsOrder = outOrder at hlayout hsupported
  cases hmode : op.mode with
  | BLOCKS_FIRST =>
    cases hlayout with
    | NCHW2NCHW => exact performs_blocksFirstNCHW2NCHW hop dmaPortCount hin hout hmode
    | NHWC2NHWC => exact performs_blocksFirstNHWC2NHWC hop dmaPortCount hin hout hmode
    | NCHW2NHWC => exact performs_blocksFirstNCHW2NHWC hop dmaPortCount hin hout hmode
  | DEPTH_FIRST =>
    cases hlayout with
    | NCHW2NCHW => exact performs_depthFirstNCHW2NCHW hop dmaPortCount hin hout hmode
    | NHWC2NHWC => exact performs_depthFirstNHWC2NHWC hop dmaPortCount hin hout hmode
    | NCHW2NHWC => exact absurd ⟨hmode, rfl, rfl⟩ hsupported

end Variants

/-- Space to depth is computed in every supported layout, but for one of them only with blocks of
one element or a single block. -/
theorem performs_spaceToDepth_iff (hop : op.IsSpaceToDepth C H W elemTypeSize)
    (hlayout : Layout op.input.dimsOrder op.output.dimsOrder) (dmaPortCount : ℕ) :
    ∃ dmas, op.matchAndRewrite dmaPortCount = .ok dmas ∧
      (op.Performs C H W elemTypeSize dmas ↔
        ¬(op.mode = .DEPTH_FIRST ∧ op.input.dimsOrder = NCHW ∧ op.output.dimsOrder = NHWC) ∨
          op.blockSize = 1 ∨ H = 1 ∧ W = 1) := by
  by_cases hcond : op.mode = .DEPTH_FIRST ∧ op.input.dimsOrder = NCHW ∧ op.output.dimsOrder = NHWC
  · obtain ⟨dmas, hrun, hiff⟩ :=
      performs_depthFirstNCHW2NHWC_iff hop dmaPortCount hcond.2.1 hcond.2.2 hcond.1
    refine ⟨dmas, hrun, hiff.trans ?_⟩
    rw [or_iff_right (not_not_intro hcond)]
  · obtain ⟨dmas, hrun, hperforms⟩ := performs_supported hop dmaPortCount hlayout hcond
    exact ⟨dmas, hrun, iff_of_true hperforms (.inl hcond)⟩

/-- Four blocks of a single channel. -/
def fourBlocks : SpaceToDepthDMAOp where
  input := ⟨[1, 1, 4, 4], .f16, NCHW, numDims_NCHW, trivial⟩
  output := ⟨[1, 4, 2, 2], .f16, NHWC, numDims_NHWC, trivial⟩
  srcOffset := 0
  dstOffset := 64
  blockSize := 2
  mode := .DEPTH_FIRST

theorem isSpaceToDepth_fourBlocks : fourBlocks.IsSpaceToDepth 1 2 2 2 :=
  ⟨rfl, rfl, rfl, by decide, by decide, by decide, by decide, by decide⟩

theorem performs_iff_fourBlocks : ∃ dmas, fourBlocks.matchAndRewrite 2 = .ok dmas ∧
    (fourBlocks.Performs 1 2 2 2 dmas ↔
      ¬(fourBlocks.mode = .DEPTH_FIRST ∧ fourBlocks.input.dimsOrder = NCHW ∧
        fourBlocks.output.dimsOrder = NHWC) ∨ fourBlocks.blockSize = 1 ∨ 2 = 1 ∧ 2 = 1) :=
  performs_spaceToDepth_iff isSpaceToDepth_fourBlocks .NCHW2NHWC 2

theorem not_performs_fourBlocks : ∃ dmas, fourBlocks.matchAndRewrite 2 = .ok dmas ∧
    ¬fourBlocks.Performs 1 2 2 2 dmas := by
  obtain ⟨dmas, hrun, hiff⟩ :=
    performs_depthFirstNCHW2NHWC_iff isSpaceToDepth_fourBlocks 2 rfl rfl rfl
  refine ⟨dmas, hrun, fun h => ?_⟩
  have hcond := hiff.mp h
  simp [fourBlocks] at hcond

end SpaceToDepthDMAOp

end Vpux.Dma
