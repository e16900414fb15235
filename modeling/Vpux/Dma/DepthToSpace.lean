import Vpux.Dma.TensorBytes
import Vpux.VPU.ArchKind

/-! Depth to space as transfers (`passes/unroll_depth_to_space_dma.cpp` and the generator of its
descriptors). -/
namespace Vpux.Dma
open Data Vpux.Const
open VPU (ArchKind)

def CMX_DMA_MAX_NUM_PLANES_30XX_37XX : ℕ := 255

def getMaxNumberPlanes : ArchKind → Except Fault ℕ
  | .VPUX30XX => .ok CMX_DMA_MAX_NUM_PLANES_30XX_37XX
  | .VPUX37XX => .ok CMX_DMA_MAX_NUM_PLANES_30XX_37XX
  | .UNKNOWN => .error (.exception "Unsuported architecture for getMaxNumberPlanes")

/-- An operation that is not distributed and has no descriptor yet, with the byte offsets of the
buffers it reads and writes. -/
structure DepthToSpaceDMAOp where
  input : NDType
  output : NDType
  srcOffset : ℕ
  dstOffset : ℕ
  blockSize : ℕ
  mode : BlockMode
  paddedIC : Option ℕ
  paddedOC : Option ℕ

namespace DepthToSpaceDmaDescriptorGenerator

/-- `generate` for one tile of rows. -/
def generate (inOrder outOrder : DimsOrder) (elemTypeByteSize : ℕ) (inShape outShape : List ℕ)
    (mode : BlockMode) (blockSize : ℕ) (paddedIC paddedOC : Option ℕ) :
    Except Fault DMADescriptorAttr := do
  throwUnless (inOrder = NHWC ∧ outOrder = NHWC) "Unsupported layout"
  let inputH := Act.H inShape
  let inputW := Act.W inShape
  let inputC := Act.C inShape
  let outputW := Act.W outShape
  let outputC := Act.C outShape
  match mode, paddedIC, paddedOC with
  | .BLOCKS_FIRST, some _, some padOutChannels =>
    .ok {
      numPlanes := inputH
      len := inputW * blockSize * (outputC - padOutChannels) * elemTypeByteSize
      srcWidth := (outputC - padOutChannels) * blockSize * elemTypeByteSize
      srcStride := inputC * elemTypeByteSize
      srcPlaneStride := inputW * inputC * elemTypeByteSize
      dstWidth := (outputC - padOutChannels) * elemTypeByteSize
      dstStride := outputC * elemTypeByteSize
      dstPlaneStride := outputC * outputW * blockSize * elemTypeByteSize }
  | .BLOCKS_FIRST, _, _ =>
    .ok {
      numPlanes := inputH
      len := outputC * outputW * elemTypeByteSize
      srcWidth := outputC * blockSize * elemTypeByteSize
      srcStride := outputC * blockSize * blockSize * elemTypeByteSize
      srcPlaneStride := outputC * outputW * blockSize * elemTypeByteSize
      dstWidth := outputC * outputW * elemTypeByteSize
      dstStride := elemTypeByteSize
      dstPlaneStride := outputC * outputW * blockSize * elemTypeByteSize }
  | .DEPTH_FIRST, _, _ =>
    .ok {
      numPlanes := inputH
      len := outputW * elemTypeByteSize
      srcWidth := blockSize * elemTypeByteSize
      srcStride := outputC * blockSize * blockSize * elemTypeByteSize
      srcPlaneStride := outputC * outputW * blockSize * elemTypeByteSize
      dstWidth := elemTypeByteSize
      dstStride := outputC * elemTypeByteSize
      dstPlaneStride := outputC * outputW * blockSize * elemTypeByteSize }

end DepthToSpaceDmaDescriptorGenerator

namespace DepthToSpaceDMAOp

/-- The transfers of one tile: one for every row of the blocks, or for every group of channels
that one row of a block takes. -/
def createTile (dmaPortCount : ℕ) (op : DepthToSpaceDMAOp) (elemTypeSize lineSrcOffset
    lineDstOffset : ℕ) (dmaDescriptor : DMADescriptorAttr) : List SubDMA :=
  let inputC := Act.C op.input.shape
  let outputC := Act.C op.output.shape
  let outputW := Act.W op.output.shape
  let start : Unrolled := ⟨0, lineSrcOffset, lineDstOffset, []⟩
  match op.mode with
  | .BLOCKS_FIRST =>
    let srcOffsetSize := match op.paddedOC with
      | some padOutChannels => op.blockSize * (outputC - padOutChannels)
      | none => inputC / op.blockSize
    (start.createRow dmaPortCount (srcOffsetSize * elemTypeSize)
      (outputC * outputW * elemTypeSize) dmaDescriptor op.blockSize).created
  | .DEPTH_FIRST =>
    ((List.range (inputC / op.blockSize)).foldl (fun u _ =>
      let u := u.createSubOp dmaPortCount dmaDescriptor
      let idxC := u.index / op.blockSize
      let idxH := u.index % op.blockSize
      { u with
        srcOffset := u.srcOffset + op.blockSize * elemTypeSize
        dstOffset := lineDstOffset + idxC * elemTypeSize +
          outputC * outputW * idxH * elemTypeSize }) start).created

/-- The rows of a tile. The last one takes what is left. -/
def subInputH (inputH numberOfTile idx : ℕ) : ℕ :=
  let tileHSize := inputH / numberOfTile
  if idx = numberOfTile - 1 then inputH - tileHSize * idx else tileHSize

def matchAndRewrite (arch : ArchKind) (dmaPortCount : ℕ) (op : DepthToSpaceDMAOp) :
    Except Fault (List SubDMA) := do
  let inputC := Act.C op.input.shape
  let inputH := Act.H op.input.shape
  let inputW := Act.W op.input.shape
  let outputC := Act.C op.output.shape
  let outputW := Act.W op.output.shape
  let elemTypeSize ← toByte (getElemTypeSize op.input.elemType)
  let maxNumberPlanes ← getMaxNumberPlanes arch
  let numberOfTile := divUp inputH maxNumberPlanes
  let tileHSize := inputH / numberOfTile
  let tiles ← (List.range numberOfTile).mapM fun idx => do
    let rows := subInputH inputH numberOfTile idx
    let lineSrcOffset := idx * tileHSize * inputC * inputW * elemTypeSize + op.srcOffset
    let lineDstOffset :=
      idx * tileHSize * op.blockSize * outputC * outputW * elemTypeSize + op.dstOffset
    let inputSubShape := [Act.N op.input.shape, inputC, rows, inputW]
    let outputSubShape := [Act.N op.output.shape, outputC, rows * op.blockSize, outputW]
    let dmaDescriptor ← DepthToSpaceDmaDescriptorGenerator.generate op.input.dimsOrder
      op.output.dimsOrder elemTypeSize inputSubShape outputSubShape op.mode op.blockSize
      op.paddedIC op.paddedOC
    .ok (op.createTile dmaPortCount elemTypeSize lineSrcOffset lineDstOffset dmaDescriptor)
  .ok tiles.flatten

end DepthToSpaceDMAOp

-- The transfers of depth to space move every byte where it belongs. The tile of the last rows can
-- be more planes than there may be.
namespace DepthToSpaceDMAOp

section Tiles

variable {H n : ℕ}

def tileOf (H n h : ℕ) : ℕ := min (h / (H / n)) (n - 1)

theorem tileOf_spec (hn : 0 < n) (hle : n ≤ H) {h : ℕ} (hh : h < H) :
    tileOf H n h < n ∧ tileOf H n h * (H / n) ≤ h ∧
      h - tileOf H n h * (H / n) < subInputH H n (tileOf H n h) := by
  have ht : 0 < H / n := Nat.div_pos hle hn
  have hdiv : h / (H / n) * (H / n) ≤ h := Nat.div_mul_le_self h _
  unfold tileOf subInputH
  rcases Nat.lt_or_ge (h / (H / n)) (n - 1) with hlt | hge
  · have hmod := Nat.mod_lt h ht
    have hsplit := Nat.div_add_mod' h (H / n)
    rw [min_eq_left hlt.le, if_neg hlt.ne]
    omega
  · have hmul := Nat.mul_le_mul_right (H / n) hge
    rw [min_eq_right hge, if_pos rfl, mul_comm (H / n)]
    omega

theorem tileOf_add (hn : 0 < n) (hle : n ≤ H) {m p : ℕ} (hm : m < n) (hp : p < subInputH H n m) :
    m * (H / n) + p < H ∧ tileOf H n (m * (H / n) + p) = m := by
  have ht : 0 < H / n := Nat.div_pos hle hn
  have hwhole : n * (H / n) ≤ H := Nat.mul_div_le H n
  simp only [subInputH] at hp
  unfold tileOf
  split at hp
  next heq =>
    rw [mul_comm (H / n)] at hp
    have hge : m ≤ (m * (H / n) + p) / (H / n) := by
      rw [Nat.le_div_iff_mul_le ht]
      omega
    refine ⟨by omega, ?_⟩
    rw [← heq, min_eq_right hge]
  next hne =>
    have hnext := Nat.mul_le_mul_right (H / n) (Nat.succ_le_of_lt hm)
    rw [Nat.succ_mul] at hnext
    refine ⟨by omega, ?_⟩
    rw [digits_div hp, min_eq_left (by omega)]

theorem subInputH_last (hn : 0 < n) : subInputH H n (n - 1) = H / n + H % n := by
  have hsplit := Nat.div_add_mod H n
  have hpred : n * (H / n) = (n - 1) * (H / n) + H / n := by
    rw [← Nat.succ_mul, Nat.succ_eq_add_one, Nat.sub_add_cancel hn]
  rw [subInputH, if_pos rfl, mul_comm (H / n)]
  generalize H / n = tile at *
  omega

end Tiles

theorem forall_subInputH_le_iff {H M : ℕ} (hH : 0 < H) (hM : 0 < M) :
    (∀ m < divUp H M, subInputH H (divUp H M) m ≤ M) ↔
      H / divUp H M + H % divUp H M ≤ M := by
  have hn := divUp_pos hH hM
  constructor
  · intro h
    have hlast := h (divUp H M - 1) (by omega)
    rwa [subInputH_last hn] at hlast
  · intro h m _
    by_cases hm : m = divUp H M - 1
    · rw [hm, subInputH_last hn]
      exact h
    · rw [subInputH, if_neg hm]
      exact Nat.div_le_of_le_mul (le_divUp_mul hM)

section Encode

variable {H n count : ℕ} {points : BlockPoint → Prop} {source target : BlockPoint → ℕ}
  {sub : ℕ → ℕ → SubDMA}

theorem encodes_tiles (hn : 0 < n) (hle : n ≤ H) (column byte : BlockPoint → ℕ)
    (dmaDescriptor : ℕ → DMADescriptorAttr)
    (hsub : ∀ m k, (sub m k).dmaDescriptor = dmaDescriptor (subInputH H n m))
    (hplanes : ∀ rows, (dmaDescriptor rows).numPlanes = rows)
    (hpoint : ∀ x, points x → x.h < H ∧ column x < count ∧
      ∀ rows, byte x < (dmaDescriptor rows).len)
    (hsource : ∀ x, points x → ∀ m p, x.h = m * (H / n) + p →
      source x = (sub m (column x)).copy.source.address p (byte x))
    (htarget : ∀ x, points x → ∀ m p, x.h = m * (H / n) + p →
      target x = (sub m (column x)).copy.target.address p (byte x))
    (honto : ∀ h < H, ∀ k < count, ∀ rows, ∀ t < (dmaDescriptor rows).len,
      ∃ x, points x ∧ x.h = h ∧ column x = k ∧ byte x = t) :
    Encodes ((grid n count sub).map SubDMA.copy) points source target fun x =>
      ⟨tileOf H n x.h * count + column x, x.h - tileOf H n x.h * (H / n), byte x⟩ := by
  have hrow : ∀ x, points x → x.h = tileOf H n x.h * (H / n) +
      (x.h - tileOf H n x.h * (H / n)) := by
    intro x hx
    have hspec := (tileOf_spec hn hle (hpoint x hx).1).2.1
    omega
  apply encodes_grid (fun x => tileOf H n x.h) column
  · exact fun x hx => ⟨(tileOf_spec hn hle (hpoint x hx).1).1, (hpoint x hx).2.1⟩
  · intro x hx
    rw [hsub, hplanes]
    exact ⟨(tileOf_spec hn hle (hpoint x hx).1).2.2, (hpoint x hx).2.2 _⟩
  · exact fun x hx => hsource x hx _ _ (hrow x hx)
  · exact fun x hx => htarget x hx _ _ (hrow x hx)
  · intro m hm k hk p hp t ht
    rw [hsub] at hp ht
    rw [hplanes] at hp
    obtain ⟨hlt, htile⟩ := tileOf_add hn hle hm hp
    obtain ⟨x, hx, hh, hcolumn, hbyte⟩ := honto _ hlt k hk _ t ht
    exact ⟨x, hx, hh ▸ htile, hcolumn, by rw [hh, htile, Nat.add_sub_cancel_left], hbyte⟩

end Encode

/-- Batch one and `C` channels without the padding, which only `BLOCKS_FIRST` can have. -/
structure IsDepthToSpace (op : DepthToSpaceDMAOp) (C H W elemTypeSize padIC padOC : ℕ) : Prop where
  input : op.input.shape = [1, C * (op.blockSize * op.blockSize) + padIC, H, W]
  output : op.output.shape = [1, C + padOC, H * op.blockSize, W * op.blockSize]
  inOrder : op.input.dimsOrder = NHWC
  outOrder : op.output.dimsOrder = NHWC
  elemType : toByte (getElemTypeSize op.input.elemType) = .ok elemTypeSize
  padding : op.paddedIC = none ∧ op.paddedOC = none ∧ padIC = 0 ∧ padOC = 0 ∨
    op.mode = .BLOCKS_FIRST ∧ op.paddedIC = some padIC ∧ op.paddedOC = some padOC
  blockSize : 0 < op.blockSize
  C_pos : 0 < C
  H_pos : 0 < H
  W_pos : 0 < W
  elemTypeSize_pos : 0 < elemTypeSize

/-- Where a byte of the element of channel `c` for row `i` and column `j` of a block is. -/
def source (op : DepthToSpaceDMAOp) (C elemTypeSize : ℕ) (x : BlockPoint) : ℕ :=
  op.srcOffset + byteAddress op.input elemTypeSize
    [0, deepChannel op.mode op.blockSize C x.c x.i x.j, x.h, x.w] x.e

/-- Where a byte of `out[c, h * b + i, w * b + j]` is. -/
def target (op : DepthToSpaceDMAOp) (elemTypeSize : ℕ) (x : BlockPoint) : ℕ :=
  op.dstOffset + byteAddress op.output elemTypeSize
    [0, x.c, x.h * op.blockSize + x.i, x.w * op.blockSize + x.j] x.e

/-- The transfers compute depth to space within the limit of planes. -/
structure Performs (op : DepthToSpaceDMAOp) (C H W elemTypeSize maxNumberPlanes : ℕ)
    (dmas : List SubDMA) : Prop where
  moves : Moves (dmas.map SubDMA.copy) (InBlocks C op.blockSize H W elemTypeSize)
    (op.source C elemTypeSize) (op.target elemTypeSize)
  planes : ∀ dma ∈ dmas, dma.dmaDescriptor.numPlanes ≤ maxNumberPlanes

variable {op : DepthToSpaceDMAOp} {C H W elemTypeSize padIC padOC : ℕ}

theorem target_injective (hop : op.IsDepthToSpace C H W elemTypeSize padIC padOC) {x y : BlockPoint}
    (hx : InBlocks C op.blockSize H W elemTypeSize x)
    (hy : InBlocks C op.blockSize H W elemTypeSize y)
    (h : op.target elemTypeSize x = op.target elemTypeSize y) : x = y := by
  have hC : ∀ {c}, c < C → c < C + padOC := fun hc => Nat.lt_add_right padOC hc
  obtain ⟨hc, hrow, hcolumn, he⟩ := byteAddress_injective hop.output (.inr hop.outOrder) (hC hx.c)
    (digits_lt hx.h hx.i) (digits_lt hx.w hx.j) hx.e (hC hy.c) (digits_lt hy.h hy.i)
    (digits_lt hy.w hy.j) hy.e (Nat.add_left_cancel h)
  obtain ⟨hh, hi⟩ := digits_injective hx.i hy.i hrow
  obtain ⟨hw, hj⟩ := digits_injective hx.j hy.j hcolumn
  exact BlockPoint.ext hc hi hj hh hw he

section Run

variable {dmaPortCount count maxNumberPlanes : ℕ} {arch : ArchKind}
  {dmaDescriptor : ℕ → DMADescriptorAttr} {src dst : ℕ → ℕ}

/-- The descriptor of `rows` rows in `BLOCKS_FIRST` mode. -/
def blocksFirst (C W b elemTypeSize rows : ℕ) : DMADescriptorAttr where
  numPlanes := rows
  len := C * (W * b) * elemTypeSize
  srcWidth := C * b * elemTypeSize
  srcStride := C * b * b * elemTypeSize
  srcPlaneStride := C * (W * b) * b * elemTypeSize
  dstWidth := C * (W * b) * elemTypeSize
  dstStride := elemTypeSize
  dstPlaneStride := C * (W * b) * b * elemTypeSize

def paddedBlocksFirst (C W b elemTypeSize padIC padOC rows : ℕ) : DMADescriptorAttr where
  numPlanes := rows
  len := W * b * C * elemTypeSize
  srcWidth := C * b * elemTypeSize
  srcStride := (C * (b * b) + padIC) * elemTypeSize
  srcPlaneStride := W * (C * (b * b) + padIC) * elemTypeSize
  dstWidth := C * elemTypeSize
  dstStride := (C + padOC) * elemTypeSize
  dstPlaneStride := (C + padOC) * (W * b) * b * elemTypeSize

def depthFirst (C W b elemTypeSize rows : ℕ) : DMADescriptorAttr where
  numPlanes := rows
  len := W * b * elemTypeSize
  srcWidth := b * elemTypeSize
  srcStride := C * b * b * elemTypeSize
  srcPlaneStride := C * (W * b) * b * elemTypeSize
  dstWidth := elemTypeSize
  dstStride := C * elemTypeSize
  dstPlaneStride := C * (W * b) * b * elemTypeSize

/-- Transfer `k` of tile `m`. -/
def tileSub (dmaPortCount : ℕ) (op : DepthToSpaceDMAOp) (C H W elemTypeSize padIC padOC n : ℕ)
    (dmaDescriptor : ℕ → DMADescriptorAttr) (src dst : ℕ → ℕ) (m k : ℕ) : SubDMA where
  port := k % dmaPortCount
  dmaDescriptor := dmaDescriptor (subInputH H n m)
  srcOffset := m * (H / n) * (C * (op.blockSize * op.blockSize) + padIC) * W * elemTypeSize +
    op.srcOffset + src k
  dstOffset := m * (H / n) * op.blockSize * (C + padOC) * (W * op.blockSize) * elemTypeSize +
    op.dstOffset + dst k

open DepthToSpaceDmaDescriptorGenerator

theorem matchAndRewrite_eq (hop : op.IsDepthToSpace C H W elemTypeSize padIC padOC)
    (harch : getMaxNumberPlanes arch = .ok maxNumberPlanes)
    (hgenerate : ∀ rows, generate NHWC NHWC elemTypeSize
      [1, C * (op.blockSize * op.blockSize) + padIC, rows, W]
      [1, C + padOC, rows * op.blockSize, W * op.blockSize] op.mode op.blockSize op.paddedIC
      op.paddedOC = .ok (dmaDescriptor rows))
    (htile : ∀ lineSrcOffset lineDstOffset d,
      op.createTile dmaPortCount elemTypeSize lineSrcOffset lineDstOffset d =
        (List.range count).map fun k =>
          ⟨k % dmaPortCount, d, lineSrcOffset + src k, lineDstOffset + dst k⟩) :
    op.matchAndRewrite arch dmaPortCount = .ok (grid (divUp H maxNumberPlanes) count
      (tileSub dmaPortCount op C H W elemTypeSize padIC padOC (divUp H maxNumberPlanes)
        dmaDescriptor src dst)) := by
  simp only [matchAndRewrite, hop.elemType, harch, hop.input, hop.output, hop.inOrder,
    hop.outOrder, Act.C_eq, Act.H_eq, Act.W_eq]
  change (List.mapM _ _ >>= fun tiles => Except.ok tiles.flatten) = _
  rw [mapM_ok (k := fun m => (List.range count).map (tileSub dmaPortCount op C H W elemTypeSize
    padIC padOC (divUp H maxNumberPlanes) dmaDescriptor src dst m))]
  · rfl
  · intro m _
    change ((generate NHWC NHWC elemTypeSize
      [1, _, subInputH H (divUp H maxNumberPlanes) m, W]
      [1, _, subInputH H (divUp H maxNumberPlanes) m * op.blockSize, W * op.blockSize] op.mode
      op.blockSize op.paddedIC op.paddedOC) >>= fun d => _) = _
    rw [hgenerate]
    change Except.ok (op.createTile _ _ _ _ _) = _
    rw [htile]
    rfl

theorem maxNumberPlanes_pos (h : getMaxNumberPlanes arch = .ok maxNumberPlanes) :
    0 < maxNumberPlanes := by
  cases arch with
  | UNKNOWN => simp [getMaxNumberPlanes] at h
  | VPUX30XX => exact Except.ok.inj h ▸ (by decide)
  | VPUX37XX => exact Except.ok.inj h ▸ (by decide)

variable (hop : op.IsDepthToSpace C H W elemTypeSize padIC padOC)
  (harch : getMaxNumberPlanes arch = .ok maxNumberPlanes) (dmaPortCount : ℕ)
include hop harch

theorem performs_iff_of_encodes {encode : BlockPoint → Job} (hcount : 0 < count)
    (hplanes : ∀ rows, (dmaDescriptor rows).numPlanes = rows)
    (hencodes : Encodes ((grid (divUp H maxNumberPlanes) count (tileSub dmaPortCount op C H W
      elemTypeSize padIC padOC (divUp H maxNumberPlanes) dmaDescriptor src dst)).map SubDMA.copy)
      (InBlocks C op.blockSize H W elemTypeSize) (op.source C elemTypeSize)
      (op.target elemTypeSize) encode) :
    op.Performs C H W elemTypeSize maxNumberPlanes (grid (divUp H maxNumberPlanes) count
      (tileSub dmaPortCount op C H W elemTypeSize padIC padOC (divUp H maxNumberPlanes)
        dmaDescriptor src dst)) ↔
      H / divUp H maxNumberPlanes + H % divUp H maxNumberPlanes ≤ maxNumberPlanes := by
  rw [← forall_subInputH_le_iff hop.H_pos (maxNumberPlanes_pos harch)]
  constructor
  · intro h m hm
    have hmem := h.planes _ (mem_grid.mpr ⟨m, hm, 0, hcount, rfl⟩)
    rwa [tileSub, hplanes] at hmem
  · intro h
    refine ⟨hencodes.moves fun x y hx hy => target_injective hop hx hy, ?_⟩
    intro dma hdma
    obtain ⟨m, hm, k, -, rfl⟩ := mem_grid.mp hdma
    rw [tileSub, hplanes]
    exact h m hm

theorem performs_iff_blocksFirst (hmode : op.mode = .BLOCKS_FIRST) (hIC : op.paddedIC = none)
    (hOC : op.paddedOC = none) (hpadIC : padIC = 0) (hpadOC : padOC = 0) :
    ∃ dmas, op.matchAndRewrite arch dmaPortCount = .ok dmas ∧
      (op.Performs C H W elemTypeSize maxNumberPlanes dmas ↔
        H / divUp H maxNumberPlanes + H % divUp H maxNumberPlanes ≤ maxNumberPlanes) := by
  subst hpadIC hpadOC
  have hM := maxNumberPlanes_pos harch
  have hgenerate : ∀ rows, generate NHWC NHWC elemTypeSize
      [1, C * (op.blockSize * op.blockSize) + 0, rows, W]
      [1, C + 0, rows * op.blockSize, W * op.blockSize] op.mode op.blockSize op.paddedIC
      op.paddedOC = .ok (blocksFirst C W op.blockSize elemTypeSize rows) := by
    intro rows
    rw [hmode, hIC, hOC]
    rfl
  have htile : ∀ lineSrcOffset lineDstOffset d,
      op.createTile dmaPortCount elemTypeSize lineSrcOffset lineDstOffset d =
        (List.range op.blockSize).map fun k =>
          ⟨k % dmaPortCount, d, lineSrcOffset + k * (C * op.blockSize * elemTypeSize),
            lineDstOffset + k * (C * (W * op.blockSize) * elemTypeSize)⟩ := by
    have hdiv : C * (op.blockSize * op.blockSize) / op.blockSize = C * op.blockSize := by
      rw [← mul_assoc, Nat.mul_div_cancel _ hop.blockSize]
    intro lineSrcOffset lineDstOffset d
    simp only [createTile, hmode, hOC, hop.input, hop.output, Act.C_eq, Act.W_eq, hdiv,
      Unrolled.createRow_eq, add_zero, List.nil_append, zero_add]
  have hrun := matchAndRewrite_eq hop harch hgenerate htile
  refine ⟨_, hrun, performs_iff_of_encodes hop harch dmaPortCount hop.blockSize (fun _ => rfl)
    (encodes_tiles (divUp_pos hop.H_pos hM) (divUp_le hM) BlockPoint.i
      (fun x => ((x.w * op.blockSize + x.j) * C + x.c) * elemTypeSize + x.e)
      (blocksFirst C W op.blockSize elemTypeSize) (fun _ _ => rfl) (fun _ => rfl) ?_ ?_ ?_ ?_)⟩
  · intro x hx
    have hlt := digits_lt (digits_lt (digits_lt hx.w hx.j) hx.c) hx.e
    rw [mul_comm (W * op.blockSize)] at hlt
    exact ⟨hx.h, hx.i, fun rows => hlt⟩
  · intro x hx m p hh
    have hbyte : ((x.w * op.blockSize + x.j) * C + x.c) * elemTypeSize + x.e =
        x.w * (C * op.blockSize * elemTypeSize) + ((x.j * C + x.c) * elemTypeSize + x.e) := by
      ring
    have hlt := digits_lt (digits_lt hx.j hx.c) hx.e
    simp only [source, hmode, deepChannel, SubDMA.copy, tileSub, blocksFirst, add_zero,
      hbyte, Walk.address_digits _ _ _ _ _ (mul_comm op.blockSize C ▸ hlt),
      byteAddress_NHWC hop.input hop.inOrder, hh]
    ring
  · intro x hx m p hh
    have hbyte : ((x.w * op.blockSize + x.j) * C + x.c) * elemTypeSize + x.e =
        0 * (C * (W * op.blockSize) * elemTypeSize) +
          (((x.w * op.blockSize + x.j) * C + x.c) * elemTypeSize + x.e) := by
      ring
    have hlt := digits_lt (digits_lt (digits_lt hx.w hx.j) hx.c) hx.e
    simp only [target, SubDMA.copy, tileSub, blocksFirst, add_zero]
    rw [hbyte, Walk.address_digits _ _ _ _ _ (mul_comm (W * op.blockSize) C ▸ hlt),
      byteAddress_NHWC hop.output hop.outOrder, hh]
    ring
  · intro h hh k hk rows t ht
    obtain ⟨q, hq, e, he, rfl⟩ := exists_digits (A := C * (W * op.blockSize)) ht
    obtain ⟨r, hr, c, hc, rfl⟩ := exists_digits (mul_comm C (W * op.blockSize) ▸ hq)
    obtain ⟨w, hw, j, hj, rfl⟩ := exists_digits hr
    exact ⟨⟨c, k, j, h, w, e⟩, ⟨hc, hk, hj, hh, hw, he⟩, rfl, rfl, rfl⟩

theorem performs_iff_padded (hmode : op.mode = .BLOCKS_FIRST) (hIC : op.paddedIC = some padIC)
    (hOC : op.paddedOC = some padOC) :
    ∃ dmas, op.matchAndRewrite arch dmaPortCount = .ok dmas ∧
      (op.Performs C H W elemTypeSize maxNumberPlanes dmas ↔
        H / divUp H maxNumberPlanes + H % divUp H maxNumberPlanes ≤ maxNumberPlanes) := by
  have hM := maxNumberPlanes_pos harch
  have hgenerate : ∀ rows, generate NHWC NHWC elemTypeSize
      [1, C * (op.blockSize * op.blockSize) + padIC, rows, W]
      [1, C + padOC, rows * op.blockSize, W * op.blockSize] op.mode op.blockSize op.paddedIC
      op.paddedOC = .ok (paddedBlocksFirst C W op.blockSize elemTypeSize padIC padOC
        rows) := by
    intro rows
    rw [hmode, hIC, hOC]
    simp only [paddedBlocksFirst, generate, Act.C_eq, Act.H_eq,
      Act.W_eq, Nat.add_sub_cancel]
    rfl
  have htile : ∀ lineSrcOffset lineDstOffset d,
      op.createTile dmaPortCount elemTypeSize lineSrcOffset lineDstOffset d =
        (List.range op.blockSize).map fun k =>
          ⟨k % dmaPortCount, d, lineSrcOffset + k * (op.blockSize * C * elemTypeSize),
            lineDstOffset + k * ((C + padOC) * (W * op.blockSize) * elemTypeSize)⟩ := by
    intro lineSrcOffset lineDstOffset d
    simp only [createTile, hmode, hOC, hop.output, Act.C_eq, Act.W_eq, Nat.add_sub_cancel,
      Unrolled.createRow_eq, List.nil_append, zero_add]
  have hrun := matchAndRewrite_eq hop harch hgenerate htile
  refine ⟨_, hrun, performs_iff_of_encodes hop harch dmaPortCount hop.blockSize (fun _ => rfl)
    (encodes_tiles (divUp_pos hop.H_pos hM) (divUp_le hM) BlockPoint.i
      (fun x => ((x.w * op.blockSize + x.j) * C + x.c) * elemTypeSize + x.e)
      (paddedBlocksFirst C W op.blockSize elemTypeSize padIC padOC) (fun _ _ => rfl)
      (fun _ => rfl) ?_ ?_ ?_ ?_)⟩
  · intro x hx
    have hlt := digits_lt (digits_lt (digits_lt hx.w hx.j) hx.c) hx.e
    exact ⟨hx.h, hx.i, fun rows => hlt⟩
  · intro x hx m p hh
    have hbyte : ((x.w * op.blockSize + x.j) * C + x.c) * elemTypeSize + x.e =
        x.w * (C * op.blockSize * elemTypeSize) + ((x.j * C + x.c) * elemTypeSize + x.e) := by
      ring
    have hlt := digits_lt (digits_lt hx.j hx.c) hx.e
    simp only [source, hmode, deepChannel, SubDMA.copy, tileSub, paddedBlocksFirst, hbyte,
      Walk.address_digits _ _ _ _ _ (mul_comm op.blockSize C ▸ hlt),
      byteAddress_NHWC hop.input hop.inOrder, hh]
    ring
  · intro x hx m p hh
    have hbyte := digits_assoc (x.w * op.blockSize + x.j) C x.c elemTypeSize x.e
    simp only [target, SubDMA.copy, tileSub, paddedBlocksFirst, hbyte,
      Walk.address_digits _ _ _ _ _ (digits_lt hx.c hx.e),
      byteAddress_NHWC hop.output hop.outOrder, hh]
    ring
  · intro h hh k hk rows t ht
    obtain ⟨q, hq, e, he, rfl⟩ := exists_digits ht
    obtain ⟨r, hr, c, hc, rfl⟩ := exists_digits hq
    obtain ⟨w, hw, j, hj, rfl⟩ := exists_digits hr
    exact ⟨⟨c, k, j, h, w, e⟩, ⟨hc, hk, hj, hh, hw, he⟩, rfl, rfl, rfl⟩

omit harch in
theorem createTile_depthFirst (hmode : op.mode = .DEPTH_FIRST) (hpadIC : padIC = 0)
    (hpadOC : padOC = 0) (lineSrcOffset lineDstOffset : ℕ) (d : DMADescriptorAttr) :
    op.createTile dmaPortCount elemTypeSize lineSrcOffset lineDstOffset d =
      (List.range (C * op.blockSize)).map fun k =>
        ⟨k % dmaPortCount, d, lineSrcOffset + k * (op.blockSize * elemTypeSize),
          lineDstOffset + (k / op.blockSize * elemTypeSize +
            C * (W * op.blockSize) * (k % op.blockSize) * elemTypeSize)⟩ := by
  have hdiv : C * (op.blockSize * op.blockSize) / op.blockSize = C * op.blockSize := by
    rw [← mul_assoc, Nat.mul_div_cancel _ hop.blockSize]
  simp only [createTile, hmode, hop.input, hop.output, hpadIC, hpadOC, Act.C_eq, Act.W_eq, hdiv,
    add_zero]
  generalize C * op.blockSize = count
  have hloop : ∀ count, (List.range count).foldl (fun (u : Unrolled) _ =>
      let u := u.createSubOp dmaPortCount d
      { u with
        srcOffset := u.srcOffset + op.blockSize * elemTypeSize
        dstOffset := lineDstOffset + u.index / op.blockSize * elemTypeSize +
          C * (W * op.blockSize) * (u.index % op.blockSize) * elemTypeSize })
      ⟨0, lineSrcOffset, lineDstOffset, []⟩ =
      { index := count
        srcOffset := lineSrcOffset + count * (op.blockSize * elemTypeSize)
        dstOffset := lineDstOffset + (count / op.blockSize * elemTypeSize +
          C * (W * op.blockSize) * (count % op.blockSize) * elemTypeSize)
        created := (List.range count).map fun k =>
          ⟨k % dmaPortCount, d, lineSrcOffset + k * (op.blockSize * elemTypeSize),
            lineDstOffset + (k / op.blockSize * elemTypeSize +
              C * (W * op.blockSize) * (k % op.blockSize) * elemTypeSize)⟩ } := by
    intro count
    induction count with
    | zero => simp
    | succ count ih =>
      rw [List.range_succ, List.foldl_append, ih]
      simp only [List.foldl_cons, List.foldl_nil, Unrolled.createSubOp, List.map_append,
        List.map_cons, List.map_nil, Nat.succ_mul, add_assoc]
  exact congrArg Unrolled.created (hloop count)

theorem performs_iff_depthFirst (hmode : op.mode = .DEPTH_FIRST) (hIC : op.paddedIC = none)
    (hOC : op.paddedOC = none) (hpadIC : padIC = 0) (hpadOC : padOC = 0) :
    ∃ dmas, op.matchAndRewrite arch dmaPortCount = .ok dmas ∧
      (op.Performs C H W elemTypeSize maxNumberPlanes dmas ↔
        H / divUp H maxNumberPlanes + H % divUp H maxNumberPlanes ≤ maxNumberPlanes) := by
  have hM := maxNumberPlanes_pos harch
  have htile := createTile_depthFirst hop dmaPortCount hmode hpadIC hpadOC
  subst hpadIC hpadOC
  have hgenerate : ∀ rows, generate NHWC NHWC elemTypeSize
      [1, C * (op.blockSize * op.blockSize) + 0, rows, W]
      [1, C + 0, rows * op.blockSize, W * op.blockSize] op.mode op.blockSize op.paddedIC
      op.paddedOC = .ok (depthFirst C W op.blockSize elemTypeSize rows) := by
    intro rows
    rw [hmode, hIC, hOC]
    rfl
  have hrun := matchAndRewrite_eq hop harch hgenerate htile
  refine ⟨_, hrun, performs_iff_of_encodes hop harch dmaPortCount
    (Nat.mul_pos hop.C_pos hop.blockSize) (fun _ => rfl)
    (encodes_tiles (divUp_pos hop.H_pos hM) (divUp_le hM)
      (fun x => x.c * op.blockSize + x.i)
      (fun x => (x.w * op.blockSize + x.j) * elemTypeSize + x.e)
      (depthFirst C W op.blockSize elemTypeSize) (fun _ _ => rfl) (fun _ => rfl) ?_ ?_ ?_ ?_)⟩
  · intro x hx
    exact ⟨hx.h, digits_lt hx.c hx.i, fun rows => digits_lt (digits_lt hx.w hx.j) hx.e⟩
  · intro x hx m p hh
    have hbyte := digits_assoc x.w op.blockSize x.j elemTypeSize x.e
    simp only [source, hmode, deepChannel, SubDMA.copy, tileSub, depthFirst, add_zero,
      hbyte, Walk.address_digits _ _ _ _ _ (digits_lt hx.j hx.e),
      byteAddress_NHWC hop.input hop.inOrder, hh]
    ring
  · intro x hx m p hh
    simp only [target, SubDMA.copy, tileSub, depthFirst, add_zero,
      Walk.address_digits _ _ _ _ _ hx.e, byteAddress_NHWC hop.output hop.outOrder, hh,
      digits_div hx.i, digits_mod hx.i]
    ring
  · intro h hh k hk rows t ht
    obtain ⟨q, hq, e, he, rfl⟩ := exists_digits (A := W * op.blockSize) ht
    obtain ⟨w, hw, j, hj, rfl⟩ := exists_digits hq
    obtain ⟨c, hc, i, hi, rfl⟩ := exists_digits hk
    exact ⟨⟨c, i, j, h, w, e⟩, ⟨hc, hi, hj, hh, hw, he⟩, rfl, rfl, rfl⟩

end Run

/-- Depth to space is computed within the limit of planes exactly when the tile of the last rows
is within it. -/
theorem performs_depthToSpace_iff (hop : op.IsDepthToSpace C H W elemTypeSize padIC padOC)
    {arch : ArchKind} {maxNumberPlanes : ℕ} (harch : getMaxNumberPlanes arch = .ok maxNumberPlanes)
    (dmaPortCount : ℕ) :
    ∃ dmas, op.matchAndRewrite arch dmaPortCount = .ok dmas ∧
      (op.Performs C H W elemTypeSize maxNumberPlanes dmas ↔
        H / divUp H maxNumberPlanes + H % divUp H maxNumberPlanes ≤ maxNumberPlanes) := by
  rcases hop.padding with ⟨hIC, hOC, hpadIC, hpadOC⟩ | ⟨hmode, hIC, hOC⟩
  · cases hmode : op.mode with
    | BLOCKS_FIRST =>
      exact performs_iff_blocksFirst hop harch dmaPortCount hmode hIC hOC hpadIC hpadOC
    | DEPTH_FIRST =>
      exact performs_iff_depthFirst hop harch dmaPortCount hmode hIC hOC hpadIC hpadOC
  · exact performs_iff_padded hop harch dmaPortCount hmode hIC hOC

/-- A column of 764 pixels. -/
def tallColumn : DepthToSpaceDMAOp where
  input := ⟨[1, 4, 764, 1], .f16, NHWC, numDims_NHWC, trivial⟩
  output := ⟨[1, 1, 1528, 2], .f16, NHWC, numDims_NHWC, trivial⟩
  srcOffset := 0
  dstOffset := 8192
  blockSize := 2
  mode := .BLOCKS_FIRST
  paddedIC := none
  paddedOC := none

theorem isDepthToSpace_tallColumn : tallColumn.IsDepthToSpace 1 764 1 2 0 0 :=
  ⟨rfl, rfl, rfl, rfl, rfl, .inl ⟨rfl, rfl, rfl, rfl⟩, by decide, by decide, by decide, by decide,
    by decide⟩

theorem performs_iff_tallColumn : ∃ dmas, tallColumn.matchAndRewrite .VPUX37XX 2 = .ok dmas ∧
    (tallColumn.Performs 1 764 1 2 255 dmas ↔ 764 / divUp 764 255 + 764 % divUp 764 255 ≤ 255) :=
  performs_depthToSpace_iff isDepthToSpace_tallColumn rfl 2

theorem not_performs_tallColumn : ∃ dmas, tallColumn.matchAndRewrite .VPUX37XX 2 = .ok dmas ∧
    ¬tallColumn.Performs 1 764 1 2 255 dmas := by
  have harch : getMaxNumberPlanes .VPUX37XX = .ok 255 := rfl
  obtain ⟨dmas, hrun, hiff⟩ :=
    performs_iff_blocksFirst isDepthToSpace_tallColumn harch 2 rfl rfl rfl rfl rfl
  refine ⟨dmas, hrun, fun h => ?_⟩
  have hcond := hiff.mp h
  revert hcond
  decide

end DepthToSpaceDMAOp

end Vpux.Dma
