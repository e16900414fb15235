import Mathlib.Algebra.BigOperators.Ring.Finset
import Vpux.Distribution.Segments
import Vpux.Dma.SpaceToDepthMoves

/-! Space to depth into the buffers of clusters that have some rows of the result each. -/
namespace Vpux.Dma
open Data Vpux.Const

/-- An operation whose output is spread over clusters. Its type is the compact one of all of it,
and the offset of the output is the same in the memory of every cluster. -/
structure ClusterSpaceToDepthDMAOp extends SpaceToDepthDMAOp where
  distribution : VPU.DistributedTensorAttr
  inputInCMX : Bool
  inputSection : Option ℕ

/-- The operation for a cluster, before it is unrolled itself. -/
structure ClusterDMA where
  clusterId : ℕ
  port : ℕ
  op : SpaceToDepthDMAOp

def backInferInputShape (outShape : List ℕ) (blockSize : ℕ) : List ℕ :=
  let inShape := outShape.set 2 (Act.H outShape * blockSize)
  let inShape := inShape.set 3 (Act.W inShape * blockSize)
  inShape.set 1 (Act.C inShape / (blockSize * blockSize))

namespace ClusterSpaceToDepthDMAOp

variable (op : ClusterSpaceToDepthDMAOp)

def outputShape : List ℤ := op.output.shape.map fun d => (d : ℤ)

def getPerClusterMemoryShapes : Option (List (List ℕ)) :=
  let shapes := op.distribution.memoryShapes.elim
    (VPU.getPerClusterMemoryShapes op.outputShape op.distribution) some
  shapes.map fun shapes => shapes.map fun shape => shape.map Int.toNat

def getPerClusterMemoryShapeOffsets : Option (List (List ℕ)) :=
  let offsets := op.distribution.memoryOffsets.elim
    (VPU.getPerClusterMemoryShapeOffsets op.outputShape op.distribution) some
  offsets.map fun offsets => offsets.map fun offset => offset.map Int.toNat

/-- The strides of the whole input are kept for its tile, but nothing below reads strides. -/
def clusterTypes (outShape shapeOffset : List ℕ) : Except Fault (NDType × NDType) := do
  let inType ← op.input.extractDenseTile shapeOffset (backInferInputShape outShape op.blockSize)
  let outType ← op.output.extractDenseTile shapeOffset outShape
  .ok (inType, outType)

def createClusterOps (dmaPortCount elemTypeSize : ℕ) :
    ℕ → ℕ → ℕ → List (List ℕ × NDType × NDType) → List ClusterDMA
  | _, _, _, [] => []
  | clusterId, dmaPort, cmxOffset, (outShape, inType, outType) :: clusters =>
    ⟨clusterId, dmaPort, inType, outType, op.srcOffset + cmxOffset, op.dstOffset, op.blockSize,
      op.mode⟩ :: createClusterOps dmaPortCount elemTypeSize (clusterId + 1)
        ((dmaPort + 1) % dmaPortCount) (cmxOffset + elemTypeSize * outShape.prod) clusters

def getNumClusters : Except Fault ℕ :=
  match op.distribution.numClusters with
  | some numClusters => .ok numClusters.toNat
  | none => .error (.exception "Failed to extract attributes from distributed type.")

def perClusterBoxes (numClusters : ℕ) : Except Fault (List (List ℕ × List ℕ)) :=
  match op.getPerClusterMemoryShapes, op.getPerClusterMemoryShapeOffsets with
  | some perClusterOutShapes, some perClusterShapeOffsets =>
    if perClusterOutShapes.length = numClusters ∧ perClusterShapeOffsets.length = numClusters then
      .ok (perClusterOutShapes.zip perClusterShapeOffsets)
    else .error .overread
  | _, _ => .error .rejected

def unrollSegmented (dmaPortCount : ℕ) : Except Fault (List ClusterDMA) := do
  let numClusters ← op.getNumClusters
  throwUnless (op.distribution.mode = VPU.DistributionMode.SEGMENTED)
    "Unsupported distributed mode."
  let boxes ← op.perClusterBoxes numClusters
  let types ← boxes.mapM fun box => op.clusterTypes box.1 box.2
  throwUnless op.inputInCMX "Currently only support input in CMX"
  throwUnless (op.inputSection = some 0) "Currently only support input in CMX0"
  let elemTypeSize ← toByte (getElemTypeSize op.input.elemType)
  .ok (op.createClusterOps dmaPortCount elemTypeSize 0 0 0 ((boxes.map (·.1)).zip types))

/-- The result has `H` rows, and every cluster some of them, from one of the rows on. -/
structure OverH (H : ℕ) (rows starts : List ℕ) : Prop where
  axis : ∃ tilingScheme, op.distribution.numTiles = some tilingScheme ∧
    VPU.getDistributedTilingAxis tilingScheme = 2
  shapes : op.getPerClusterMemoryShapes = some (rows.map fun size => op.output.shape.set 2 size)
  offsets : op.getPerClusterMemoryShapeOffsets = some (starts.map fun start => [0, 0, start, 0])
  many : 1 < rows.length
  inside : ∀ i size start : ℕ, rows[i]? = some size → starts[i]? = some start →
    0 < size ∧ start + size ≤ H

def Consecutive (rows starts : List ℕ) : Prop :=
  ∀ i start : ℕ, starts[i]? = some start → start = (rows.take i).sum

/-- The buffer of a cluster gets its rows of the result, every byte once, and nothing else. -/
structure FillsCluster (C W elemTypeSize size start : ℕ) (clusterOp : SpaceToDepthDMAOp)
    (dmas : List SubDMA) : Prop where
  buffer : clusterOp.output.shape = [1, C * (op.blockSize * op.blockSize), size, W]
  moves : Moves (dmas.map SubDMA.copy) (InBlocks C op.blockSize size W elemTypeSize)
    (fun x => op.source elemTypeSize { x with h := start + x.h })
    (fun x => op.dstOffset + byteAddress clusterOp.output elemTypeSize
      [0, deepChannel op.mode op.blockSize C x.c x.i x.j, x.h, x.w] x.e)
  only : WritesOnly (dmas.map SubDMA.copy) (InBlocks C op.blockSize size W elemTypeSize)
    (fun x => op.dstOffset + byteAddress clusterOp.output elemTypeSize
      [0, deepChannel op.mode op.blockSize C x.c x.i x.j, x.h, x.w] x.e)

structure FillsClusters (dmaPortCount C W elemTypeSize : ℕ) (rows starts : List ℕ)
    (ops : List ClusterDMA) : Prop where
  clusters : ops.map ClusterDMA.clusterId = List.range rows.length
  fills : ∀ (i size start : ℕ) (dma : ClusterDMA), rows[i]? = some size → starts[i]? = some start →
    ops[i]? = some dma → ∃ dmas, dma.op.matchAndRewrite dmaPortCount = .ok dmas ∧
      op.FillsCluster C W elemTypeSize size start dma.op dmas

end ClusterSpaceToDepthDMAOp

namespace ClusterSpaceToDepthDMAOp
open SpaceToDepthDMAOp

variable {op : ClusterSpaceToDepthDMAOp} {C H W elemTypeSize dmaPortCount : ℕ}

variable (hop : op.IsSpaceToDepth C H W elemTypeSize)

section Types

theorem getElemTypeSize_tile {elemType tileType : ElemType} {shape offsets : List ℕ}
    (h : tileScalesAndZP elemType shape offsets = .ok tileType) :
    getElemTypeSize tileType = getElemTypeSize elemType := by
  cases elemType with
  | uniformQuantizedPerAxis isSigned storageWidth qDim zeroPoints =>
    obtain ⟨_, -, h⟩ := bind_eq_ok.mp h
    obtain ⟨_, -, h⟩ := bind_eq_ok.mp h
    dsimp only at h
    split_ifs at h <;> cases h <;> rfl
  | _ => cases h; rfl

theorem extractDenseTile_eq {type tile : NDType} {offset shape : List ℕ}
    (h : type.extractDenseTile offset shape = .ok tile) : tile.shape = shape ∧
      tile.dimsOrder = type.dimsOrder ∧
      getElemTypeSize tile.elemType = getElemTypeSize type.elemType := by
  obtain ⟨elemType, helem, h⟩ := bind_eq_ok.mp h
  unfold getTensorType at h
  split_ifs at h with hdims hquant
  cases h
  exact ⟨rfl, rfl, getElemTypeSize_tile helem⟩

include hop in
theorem isSpaceToDepth_cluster {size : ℕ} (hsize : 0 < size) {offset : List ℕ}
    {inType outType : NDType}
    (h : op.clusterTypes (op.output.shape.set 2 size) offset = .ok (inType, outType)) :
    inType.dimsOrder = op.input.dimsOrder ∧ outType.dimsOrder = op.output.dimsOrder ∧
      ∀ srcOffset, IsSpaceToDepth ⟨inType, outType, srcOffset, op.dstOffset, op.blockSize, op.mode⟩
        C size W elemTypeSize := by
  obtain ⟨inType', hin, h⟩ := bind_eq_ok.mp h
  obtain ⟨outType', hout, h⟩ := bind_eq_ok.mp h
  cases h
  obtain ⟨hinShape, hinOrder, hinElem⟩ := extractDenseTile_eq hin
  obtain ⟨houtShape, houtOrder, -⟩ := extractDenseTile_eq hout
  refine ⟨hinOrder, houtOrder, fun srcOffset => ⟨?_, ?_, hinElem ▸ hop.elemType, hop.blockSize,
    hop.C_pos, hsize, hop.W_pos, hop.elemTypeSize_pos⟩⟩
  · have hchannels : C * (op.blockSize * op.blockSize) / (op.blockSize * op.blockSize) = C :=
      Nat.mul_div_cancel _ (Nat.mul_pos hop.blockSize hop.blockSize)
    rw [hinShape, hop.output]
    simp [backInferInputShape, Act.C, Act.H, Act.W, hchannels]
  · rw [houtShape, hop.output]
    rfl

end Types

section Run

theorem map_clusterId {elemTypeSize clusterId dmaPort cmxOffset : ℕ}
    (clusters : List (List ℕ × NDType × NDType)) :
    (op.createClusterOps dmaPortCount elemTypeSize clusterId dmaPort cmxOffset clusters).map
      ClusterDMA.clusterId = List.range' clusterId clusters.length := by
  induction clusters generalizing clusterId dmaPort cmxOffset with
  | nil => rfl
  | cons cluster clusters ih => exact congrArg (clusterId :: ·) ih

theorem getElem?_createClusterOps {clusterId dmaPort cmxOffset i : ℕ}
    {clusters : List (List ℕ × NDType × NDType)} {cluster : List ℕ × NDType × NDType}
    (h : clusters[i]? = some cluster) : ∃ dma : ClusterDMA,
      (op.createClusterOps dmaPortCount elemTypeSize clusterId dmaPort cmxOffset clusters)[i]? =
        some dma ∧
      dma.op = ⟨cluster.2.1, cluster.2.2, op.srcOffset + (cmxOffset +
        elemTypeSize * ((clusters.take i).map fun c => c.1.prod).sum), op.dstOffset, op.blockSize,
        op.mode⟩ := by
  induction clusters generalizing clusterId dmaPort cmxOffset i with
  | nil => simp at h
  | cons first clusters ih =>
    cases i with
    | zero =>
      obtain rfl : first = cluster := by simpa using h
      exact ⟨_, rfl, by simp⟩
    | succ i =>
      obtain ⟨dma, hdma, hop⟩ := @ih (clusterId + 1) ((dmaPort + 1) % dmaPortCount)
        (cmxOffset + elemTypeSize * first.1.prod) i (by simpa using h)
      refine ⟨dma, hdma, ?_⟩
      rw [hop, List.take_succ_cons, List.map_cons, List.sum_cons, Nat.mul_add, Nat.add_assoc]

include hop in
theorem sum_clusters (rows : List ℕ) :
    (rows.map fun size => (op.output.shape.set 2 size).prod).sum =
      C * (op.blockSize * op.blockSize) * W * rows.sum := by
  induction rows with
  | nil => simp
  | cons size rows ih =>
    rw [List.map_cons, List.sum_cons, ih, hop.output, List.sum_cons]
    simp only [List.set_cons_succ, List.set_cons_zero, List.prod_cons, List.prod_nil]
    ring

/-- What a run that is accepted creates for a cluster. -/
structure Created (op : ClusterSpaceToDepthDMAOp) (C W elemTypeSize before size : ℕ)
    (clusterOp : SpaceToDepthDMAOp) : Prop where
  isSpaceToDepth : clusterOp.IsSpaceToDepth C size W elemTypeSize
  inOrder : clusterOp.input.dimsOrder = op.input.dimsOrder
  outOrder : clusterOp.output.dimsOrder = op.output.dimsOrder
  srcOffset : clusterOp.srcOffset =
    op.srcOffset + elemTypeSize * (C * (op.blockSize * op.blockSize) * W * before)
  dstOffset : clusterOp.dstOffset = op.dstOffset
  blockSize : clusterOp.blockSize = op.blockSize
  mode : clusterOp.mode = op.mode

variable {rows starts : List ℕ} {ops : List ClusterDMA}

theorem boxes_of_run (hdist : op.OverH H rows starts)
    (hrun : op.unrollSegmented dmaPortCount = .ok ops) :
    starts.length = rows.length ∧ ∃ types elemTypeSize,
      toByte (getElemTypeSize op.input.elemType) = .ok elemTypeSize ∧
      List.Forall₂ (fun (box : List ℕ × List ℕ) type => op.clusterTypes box.1 box.2 = .ok type)
        ((rows.map fun size => op.output.shape.set 2 size).zip
          (starts.map fun start => [0, 0, start, 0])) types ∧
      ops = op.createClusterOps dmaPortCount elemTypeSize 0 0 0
        ((rows.map fun size => op.output.shape.set 2 size).zip types) := by
  obtain ⟨numClusters, -, hrun⟩ := bind_eq_ok.mp hrun
  obtain ⟨_, -, hrun⟩ := bind_eq_ok.mp hrun
  obtain ⟨boxes, hboxes, hrun⟩ := bind_eq_ok.mp hrun
  obtain ⟨types, htypes, hrun⟩ := bind_eq_ok.mp hrun
  obtain ⟨_, -, hrun⟩ := bind_eq_ok.mp hrun
  obtain ⟨_, -, hrun⟩ := bind_eq_ok.mp hrun
  obtain ⟨elemTypeSize, helem, hrun⟩ := bind_eq_ok.mp hrun
  simp only [perClusterBoxes, hdist.shapes, hdist.offsets, List.length_map] at hboxes
  split_ifs at hboxes with hlength
  cases hboxes
  cases hrun
  have hzip : (((rows.map fun size => op.output.shape.set 2 size).zip
      (starts.map fun start => [0, 0, start, 0])).map (·.1)) =
      rows.map fun size => op.output.shape.set 2 size :=
    List.map_fst_zip (by simp [hlength])
  refine ⟨hlength.2.trans hlength.1.symm, types, elemTypeSize, helem, forall₂_of_mapM htypes, ?_⟩
  rw [hzip]

include hop in
theorem created_of_run (hdist : op.OverH H rows starts)
    (hrun : op.unrollSegmented dmaPortCount = .ok ops) :
    ops.map ClusterDMA.clusterId = List.range rows.length ∧ starts.length = rows.length ∧
      ∀ i size, rows[i]? = some size → ∃ dma : ClusterDMA, ops[i]? = some dma ∧
        op.Created C W elemTypeSize (rows.take i).sum size dma.op := by
  obtain ⟨hlength, types, bytes, helem, htypes, rfl⟩ := boxes_of_run hdist hrun
  obtain rfl : bytes = elemTypeSize := Except.ok.inj (helem.symm.trans hop.elemType)
  have hcount : types.length = rows.length := by
    rw [← htypes.length_eq, List.length_zip, List.length_map, List.length_map, hlength, min_self]
  refine ⟨?_, hlength, fun i size hsize => ?_⟩
  · rw [map_clusterId, List.length_zip, List.length_map, hcount, min_self, List.range_eq_range']
  · obtain ⟨hi, rfl⟩ := List.getElem?_eq_some_iff.mp hsize
    have hstart : i < starts.length := hlength.symm ▸ hi
    have htypeLt : i < types.length := hcount.symm ▸ hi
    have hbox : i < ((rows.map fun size => op.output.shape.set 2 size).zip
        (starts.map fun start => [0, 0, start, 0])).length := by
      simp [hi, hstart]
    have htype := List.Forall₂.get htypes hbox htypeLt
    simp only [List.get_eq_getElem, List.getElem_zip, List.getElem_map] at htype
    have hcluster : ((rows.map fun size => op.output.shape.set 2 size).zip types)[i]? =
        some (op.output.shape.set 2 rows[i], types[i]) := by
      simp [hi, htypeLt]
    have hbefore : ((((rows.map fun size => op.output.shape.set 2 size).zip types).take i).map
        fun c => c.1.prod).sum = C * (op.blockSize * op.blockSize) * W * (rows.take i).sum := by
      have hshapes : (((rows.map fun size => op.output.shape.set 2 size).zip types).map (·.1)) =
          rows.map fun size => op.output.shape.set 2 size :=
        List.map_fst_zip (by simp [hcount])
      change (((((rows.map fun size => op.output.shape.set 2 size).zip types).take i).map
        (List.prod ∘ Prod.fst))).sum = _
      rw [← sum_clusters hop, ← List.map_map, List.map_take, hshapes, ← List.map_take,
        List.map_map]
      rfl
    obtain ⟨hpos, -⟩ := hdist.inside i rows[i] starts[i] hsize (List.getElem?_eq_getElem hstart)
    obtain ⟨hin, hout, hcond⟩ := isSpaceToDepth_cluster hop hpos htype
    obtain ⟨dma, hdma, hdmaOp⟩ :=
      @getElem?_createClusterOps op bytes dmaPortCount 0 0 0 i _ _ hcluster
    refine ⟨dma, hdma, ?_⟩
    rw [hdmaOp, hbefore, Nat.zero_add]
    exact ⟨hcond _, hin, hout, rfl, rfl, rfl, rfl⟩

end Run

variable {rows starts : List ℕ}

section Slices

variable {clusterOp : SpaceToDepthDMAOp} {before size start : ℕ}

/-- The input of a cluster is its rows of the input, read as a tensor of their own. -/
def ReadsRows (op : ClusterSpaceToDepthDMAOp) (C W elemTypeSize size start : ℕ)
    (clusterOp : SpaceToDepthDMAOp) : Prop :=
  ∀ x, InBlocks C op.blockSize size W elemTypeSize x →
    clusterOp.source elemTypeSize x = op.source elemTypeSize { x with h := start + x.h }

variable {inOrder outOrder : DimsOrder}

theorem layout_input (h : Layout inOrder outOrder) : inOrder = NCHW ∨ inOrder = NHWC := by
  cases h
  · exact .inl rfl
  · exact .inr rfl
  · exact .inl rfl

theorem layout_output (h : Layout inOrder outOrder) : outOrder = NCHW ∨ outOrder = NHWC := by
  cases h
  · exact .inl rfl
  · exact .inr rfl
  · exact .inr rfl

theorem fillsCluster_iff (hcreated : op.Created C W elemTypeSize before size clusterOp)
    (hlayout : Layout op.input.dimsOrder op.output.dimsOrder)
    (hsupported : ¬(op.mode = .DEPTH_FIRST ∧ op.input.dimsOrder = NCHW ∧
      op.output.dimsOrder = NHWC)) :
    (∃ dmas, clusterOp.matchAndRewrite dmaPortCount = .ok dmas ∧
      op.FillsCluster C W elemTypeSize size start clusterOp dmas) ↔
      op.ReadsRows C W elemTypeSize size start clusterOp := by
  have hop := hcreated.isSpaceToDepth
  have horder : clusterOp.output.dimsOrder = NCHW ∨ clusterOp.output.dimsOrder = NHWC :=
    hcreated.outOrder ▸ layout_output hlayout
  obtain ⟨dmas, hrun, hperforms⟩ := performs_supported hop dmaPortCount
    (by rwa [hcreated.inOrder, hcreated.outOrder])
    (by rwa [hcreated.inOrder, hcreated.outOrder, hcreated.mode])
  have hmoves := hperforms.moves hop horder
  have honly := hperforms.writesOnly hop horder
  have htarget : ∀ x, clusterOp.target C elemTypeSize x = op.dstOffset +
      byteAddress clusterOp.output elemTypeSize
        [0, deepChannel op.mode op.blockSize C x.c x.i x.j, x.h, x.w] x.e := by
    intro x
    rw [target, hcreated.dstOffset, hcreated.mode, hcreated.blockSize]
  rw [hcreated.blockSize, funext htarget] at hmoves honly
  constructor
  · rintro ⟨dmas', hrun', hfills⟩ x hx
    obtain rfl : dmas' = dmas := Except.ok.inj (hrun'.symm.trans hrun)
    obtain ⟨job, ⟨s, hjob⟩, -⟩ := hmoves.once x hx
    exact (hmoves.value x hx job s hjob).symm.trans (hfills.moves.value x hx job s hjob)
  · intro hreads
    refine ⟨dmas, hrun, ?_, ⟨hmoves.once, fun x hx job s hjob => ?_⟩, honly⟩
    · rw [hop.output, hcreated.blockSize]
    · rw [← hreads x hx]
      exact hmoves.value x hx job s hjob

section

variable (hop : op.IsSpaceToDepth C H W elemTypeSize)
  (hcreated : op.Created C W elemTypeSize before size clusterOp) (hsize : 0 < size)
include hop hsize

/-- Both read the same rows where the slices of their channels start at the same place. -/
theorem readsRows_iff (slice slice' : ℕ → ℕ) (byte : BlockPoint → ℕ) {row : ℕ} (hrow : 0 < row)
    (hsource : ∀ x, clusterOp.source elemTypeSize x = op.srcOffset + slice x.c * row + byte x)
    (hwhole : ∀ x : BlockPoint, op.source elemTypeSize { x with h := start + x.h } =
      op.srcOffset + slice' x.c * row + byte x) :
    op.ReadsRows C W elemTypeSize size start clusterOp ↔ ∀ c < C, slice c = slice' c := by
  constructor
  · intro hreads c hc
    have hfirst := hreads ⟨c, 0, 0, 0, 0, 0⟩
      ⟨hc, hop.blockSize, hop.blockSize, hsize, hop.W_pos, hop.elemTypeSize_pos⟩
    rw [hsource, hwhole] at hfirst
    exact Nat.eq_of_mul_eq_mul_right hrow (Nat.add_left_cancel (Nat.add_right_cancel hfirst))
  · intro hslices x hx
    rw [hsource, hwhole, hslices x.c hx.c]

include hcreated

theorem readsRows_NHWC_iff (hin : op.input.dimsOrder = NHWC) :
    op.ReadsRows C W elemTypeSize size start clusterOp ↔ start = before := by
  have hrow : 0 < op.blockSize * (W * op.blockSize) * C * elemTypeSize := by
    have := hop.blockSize
    have := hop.W_pos
    have := hop.C_pos
    have := hop.elemTypeSize_pos
    positivity
  have hclusterIn : clusterOp.input.dimsOrder = NHWC := hcreated.inOrder.trans hin
  refine (readsRows_iff hop hsize (fun _ => before) (fun _ => start)
    (fun x => (((x.h * op.blockSize + x.i) * (W * op.blockSize) + (x.w * op.blockSize + x.j)) * C +
      x.c) * elemTypeSize + x.e) hrow (fun x => ?_) fun x => ?_).trans
    ⟨fun hslices => (hslices 0 hop.C_pos).symm, fun heq _ _ => heq.symm⟩
  · rw [source, hcreated.srcOffset, hcreated.blockSize,
      byteAddress_NHWC (hcreated.blockSize ▸ hcreated.isSpaceToDepth.input) hclusterIn]
    ring
  · rw [source, byteAddress_NHWC hop.input hin]
    ring

theorem readsRows_NCHW_iff (hin : op.input.dimsOrder = NCHW) :
    op.ReadsRows C W elemTypeSize size start clusterOp ↔
      ∀ c < C, c * size + C * before = c * H + start := by
  have hrow : 0 < op.blockSize * (W * op.blockSize) * elemTypeSize := by
    have := hop.blockSize
    have := hop.W_pos
    have := hop.elemTypeSize_pos
    positivity
  have hclusterIn : clusterOp.input.dimsOrder = NCHW := hcreated.inOrder.trans hin
  refine readsRows_iff hop hsize (fun c => c * size + C * before) (fun c => c * H + start)
    (fun x => ((x.h * op.blockSize + x.i) * (W * op.blockSize) + (x.w * op.blockSize + x.j)) *
      elemTypeSize + x.e) hrow (fun x => ?_) fun x => ?_
  · rw [source, hcreated.srcOffset, hcreated.blockSize,
      byteAddress_NCHW (hcreated.blockSize ▸ hcreated.isSpaceToDepth.input) hclusterIn]
    ring
  · rw [source, byteAddress_NCHW hop.input hin]
    ring

end

include hop in
theorem fillsClusters_iff {ops : List ClusterDMA}
    (hlayout : Layout op.input.dimsOrder op.output.dimsOrder)
    (hsupported : ¬(op.mode = .DEPTH_FIRST ∧ op.input.dimsOrder = NCHW ∧
      op.output.dimsOrder = NHWC)) (hdist : op.OverH H rows starts)
    (hrun : op.unrollSegmented dmaPortCount = .ok ops) :
    op.FillsClusters dmaPortCount C W elemTypeSize rows starts ops ↔
      ∀ i size start, rows[i]? = some size → starts[i]? = some start →
        if op.input.dimsOrder = NHWC then start = (rows.take i).sum
        else ∀ c < C, c * size + C * (rows.take i).sum = c * H + start := by
  obtain ⟨hclusters, -, hcreated⟩ := created_of_run hop hdist hrun
  have hat : ∀ (i size start : ℕ) (dma : ClusterDMA), rows[i]? = some size →
      starts[i]? = some start → ops[i]? = some dma →
      ((∃ dmas, dma.op.matchAndRewrite dmaPortCount = .ok dmas ∧
        op.FillsCluster C W elemTypeSize size start dma.op dmas) ↔
      if op.input.dimsOrder = NHWC then start = (rows.take i).sum
        else ∀ c < C, c * size + C * (rows.take i).sum = c * H + start) := by
    intro i size start dma hsize hstart hdma
    obtain ⟨dma', hdma', hcond⟩ := hcreated i size hsize
    obtain rfl : dma = dma' := Option.some.inj (hdma.symm.trans hdma')
    obtain ⟨hpos, -⟩ := hdist.inside i size start hsize hstart
    rw [fillsCluster_iff hcond hlayout hsupported]
    split_ifs with hin
    · exact readsRows_NHWC_iff hop hcond hpos hin
    · exact readsRows_NCHW_iff hop hcond hpos ((layout_input hlayout).resolve_right hin)
  constructor
  · intro hfills i size start hsize hstart
    obtain ⟨dma, hdma, -⟩ := hcreated i size hsize
    exact (hat i size start dma hsize hstart hdma).mp
      (hfills.fills i size start dma hsize hstart hdma)
  · intro hall
    exact ⟨hclusters, fun i size start dma hsize hstart hdma =>
      (hat i size start dma hsize hstart hdma).mpr (hall i size start hsize hstart)⟩

theorem exists_row (hlength : starts.length = rows.length) {i start : ℕ}
    (h : starts[i]? = some start) : ∃ size, rows[i]? = some size := by
  obtain ⟨hi, -⟩ := List.getElem?_eq_some_iff.mp h
  exact ⟨_, List.getElem?_eq_getElem (hlength ▸ hi)⟩

theorem channels_iff (hC : 0 < C) (hdist : op.OverH H rows starts)
    (hlength : starts.length = rows.length) :
    (∀ i size start : ℕ, rows[i]? = some size → starts[i]? = some start →
      ∀ c < C, c * size + C * (rows.take i).sum = c * H + start) ↔
      Consecutive rows starts ∧ C = 1 := by
  constructor
  · intro hslices
    have hone : C = 1 := by
      by_contra hne
      have hmany := hdist.many
      have hrow : ∀ i, (hi : i < 2) → rows[i]? = some (rows.getD i 0) := by
        intro i hi
        rw [List.getD_eq_getElem _ _ (by omega)]
        exact List.getElem?_eq_getElem _
      have hstart : ∀ i, (hi : i < 2) → starts[i]? = some (starts.getD i 0) := by
        intro i hi
        rw [List.getD_eq_getElem _ _ (by omega)]
        exact List.getElem?_eq_getElem _
      have htake : (rows.take 1).sum = rows.getD 0 0 := by
        cases rows with
        | nil => simp at hmany
        | cons size rows => simp
      -- the second channel of the first cluster, and the first one of the second
      have hall := hslices 0 _ _ (hrow 0 (by decide)) (hstart 0 (by decide)) 1 (by omega)
      have hnext := hslices 1 _ _ (hrow 1 (by decide)) (hstart 1 (by decide)) 0 hC
      obtain ⟨hpos, hin⟩ := hdist.inside 1 _ _ (hrow 1 (by decide)) (hstart 1 (by decide))
      have hle : rows.getD 0 0 ≤ C * rows.getD 0 0 := Nat.le_mul_of_pos_left _ hC
      rw [List.take_zero, List.sum_nil, Nat.mul_zero] at hall
      rw [htake] at hnext
      omega
    refine ⟨fun i start hstart => ?_, hone⟩
    obtain ⟨size, hsize⟩ := exists_row hlength hstart
    have hfirst := hslices i size start hsize hstart 0 hC
    rw [hone] at hfirst
    omega
  · rintro ⟨hconsecutive, rfl⟩ i size start hsize hstart c hc
    rw [hconsecutive i start hstart, Nat.lt_one_iff.mp hc]
    omega

end Slices

section Computed
open Tiling

theorem sum_of_dividedOffsets {sizes : List ℤ} {start offset : ℤ} {i : ℕ}
    (h : (dividedOffsets start sizes)[i]? = some offset) :
    offset = start + (sizes.take i).sum := by
  induction sizes generalizing start i with
  | nil => simp [dividedOffsets] at h
  | cons size sizes ih =>
    cases i with
    | zero =>
      obtain rfl : start = offset := by simpa [dividedOffsets] using h
      simp
    | succ i =>
      rw [ih h, List.take_succ_cons, List.sum_cons, add_assoc]

include hop in
theorem heights_of_computed {rows : List ℕ} (hpos : ∀ size ∈ rows, 0 < size) {sizes : List Shape}
    (hsizes : sizes.map (fun shape => shape.map Int.toNat) =
      rows.map fun size => op.output.shape.set 2 size) :
    sizes.map (·.dim 2) = rows.map fun size : ℕ => (size : ℤ) := by
  apply List.ext_getElem?
  intro i
  have hat := congrArg (·[i]?) hsizes
  simp only [List.getElem?_map] at hat ⊢
  cases hrow : rows[i]? with
  | none =>
    rw [hrow, Option.map_none, Option.map_eq_none_iff] at hat
    rw [hat]
    rfl
  | some size =>
    rw [hrow, Option.map_some, Option.map_eq_some_iff] at hat
    obtain ⟨shape, hshape, hset⟩ := hat
    have hdim : (shape.map Int.toNat).getD 2 0 = size := by
      rw [hset, hop.output]
      rfl
    have hsize := hpos size (List.mem_of_getElem? hrow)
    have hlength : 2 < shape.length := by
      have := congrArg List.length hset
      rw [List.length_map, List.length_set, hop.output] at this
      simp [this]
    rw [List.getD_eq_getElem _ _ (by simpa using hlength), List.getElem_map] at hdim
    rw [hshape, Option.map_some, Option.map_some, Option.some.injEq, Shape.dim,
      List.getD_eq_getElem _ _ hlength]
    omega

include hop in
theorem consecutive_of_computed (hdist : op.OverH H rows starts)
    (hlength : starts.length = rows.length)
    (hmode : op.distribution.mode = VPU.DistributionMode.SEGMENTED)
    (hexplicit : op.distribution.memoryShapes = none ∧ op.distribution.memoryOffsets = none) :
    Consecutive rows starts := by
  obtain ⟨tilingScheme, htiles, haxis⟩ := hdist.axis
  have hshapes := hdist.shapes
  have hoffsets := hdist.offsets
  simp only [getPerClusterMemoryShapes, hexplicit.1, Option.elim_none,
    Option.map_eq_some_iff] at hshapes
  simp only [getPerClusterMemoryShapeOffsets, hexplicit.2, Option.elim_none,
    Option.map_eq_some_iff] at hoffsets
  obtain ⟨sizes, hsizes, hrows⟩ := hshapes
  obtain ⟨offsets, hoffsets, hstarts⟩ := hoffsets
  obtain ⟨numClusters, hclusters, -⟩ := Option.bind_eq_some_iff.mp hsizes
  obtain ⟨-, hsegments, -, -⟩ :=
    VPU.perCluster_of_segmented hmode htiles hclusters hsizes hoffsets
  have hrank : op.outputShape.length = 4 := by
    rw [outputShape, List.length_map, hop.output]
    rfl
  have hpos : ∀ size ∈ rows, 0 < size := by
    intro size hsize
    obtain ⟨i, hi, rfl⟩ := List.getElem_of_mem hsize
    exact (hdist.inside i _ _ (List.getElem?_eq_getElem hi)
      (List.getElem?_eq_getElem (hlength ▸ hi))).1
  have hheights := heights_of_computed hop hpos hrows
  intro i start hstart
  have hat := congrArg (·[i]?) hstarts
  simp only [List.getElem?_map, hstart, Option.map_some, Option.map_eq_some_iff] at hat
  obtain ⟨offset, hoffset, hset⟩ := hat
  rw [hsegments, hrank, haxis] at hoffset
  obtain ⟨hdivided, -⟩ := VPU.getElem?_segmentOffsets (by decide) hoffset
  have hsum := sum_of_dividedOffsets hdivided
  rw [hheights, zero_add, ← List.map_take] at hsum
  have hcast : ((rows.take i).map fun size : ℕ => (size : ℤ)).sum =
      ((rows.take i).sum : ℕ) := (Nat.cast_list_sum _).symm
  have hdim : (offset.map Int.toNat).getD 2 0 = start := by
    rw [hset]
    rfl
  have hdim' : (offset.map Int.toNat).getD 2 0 = (offset.dim 2).toNat := by
    rw [Shape.dim, List.getD_eq_getElem?_getD, List.getD_eq_getElem?_getD, List.getElem?_map]
    cases offset[2]? with
    | none => rfl
    | some start => rfl
  omega

end Computed

section Main

variable {rows starts : List ℕ} {ops : List ClusterDMA}

/-- The clusters get their rows exactly when the rows follow each other and lie together in the
input. Rows that are not given explicitly do follow each other. -/
theorem unrollSegmented_fills_iff (hop : op.IsSpaceToDepth C H W elemTypeSize)
    (hlayout : Layout op.input.dimsOrder op.output.dimsOrder)
    (hsupported : ¬(op.mode = .DEPTH_FIRST ∧ op.input.dimsOrder = NCHW ∧
      op.output.dimsOrder = NHWC))
    (hdist : op.OverH H rows starts) (hrun : op.unrollSegmented dmaPortCount = .ok ops) :
    (op.FillsClusters dmaPortCount C W elemTypeSize rows starts ops ↔
      Consecutive rows starts ∧ (op.input.dimsOrder = NHWC ∨ C = 1)) ∧
    (op.distribution.memoryShapes = none ∧ op.distribution.memoryOffsets = none →
      Consecutive rows starts) := by
  obtain ⟨-, hlength, -⟩ := created_of_run hop hdist hrun
  constructor
  · rw [fillsClusters_iff hop hlayout hsupported hdist hrun]
    by_cases hin : op.input.dimsOrder = NHWC
    · simp only [hin, true_or, and_true]
      constructor
      · intro hall i start hstart
        obtain ⟨size, hsize⟩ := exists_row hlength hstart
        exact hall i size start hsize hstart
      · intro hconsecutive i size start _ hstart
        exact hconsecutive i start hstart
    · simp only [hin, false_or]
      exact channels_iff hop.C_pos hdist hlength
  · obtain ⟨_, -, hmode⟩ := bind_eq_ok.mp hrun
    obtain ⟨_, hmode, -⟩ := bind_eq_ok.mp hmode
    exact consecutive_of_computed hop hdist hlength (throwUnless_eq_ok.mp hmode)

/-- Height over two clusters. -/
def twoClusters : VPU.DistributedTensorAttr where
  mode := VPU.DistributionMode.SEGMENTED
  numTiles := some [1, 1, 2, 1]
  kernel := none
  pads := none
  strides := none
  numClusters := some 2
  alignment := none
  uniformDistributedSegments := false
  computeShapes := none
  computeOffsets := none
  memoryShapes := none
  memoryOffsets := none
  equalMemoryAndComputeView := false

/-- Three channels of six rows, in blocks of two. -/
def threeChannels (order : DimsOrder) (h : order.numDims = 4) : ClusterSpaceToDepthDMAOp where
  input := ⟨[1, 3, 6, 6], .f16, order, h, trivial⟩
  output := ⟨[1, 12, 3, 3], .f16, order, h, trivial⟩
  srcOffset := 0
  dstOffset := 4096
  blockSize := 2
  mode := .BLOCKS_FIRST
  distribution := twoClusters
  inputInCMX := true
  inputSection := some 0

theorem isSpaceToDepth_threeChannels (order : DimsOrder) (h : order.numDims = 4) :
    (threeChannels order h).IsSpaceToDepth 3 3 3 2 where
  input := rfl
  output := rfl
  elemType := by
    change toByte (getElemTypeSize .f16) = .ok 2
    rfl
  blockSize := Nat.two_pos
  C_pos := by decide
  H_pos := by decide
  W_pos := by decide
  elemTypeSize_pos := by decide

theorem overH_threeChannels (order : DimsOrder) (h : order.numDims = 4) :
    (threeChannels order h).OverH 3 [2, 1] [0, 2] := by
  constructor
  · exact ⟨_, rfl, rfl⟩
  · have hsplit : VPU.getPerClusterMemoryShapes [1, 12, 3, 3] twoClusters =
        some [[1, 12, 2, 3], [1, 12, 1, 3]] := by decide
    exact congrArg (Option.map fun shapes => shapes.map fun shape => shape.map Int.toNat) hsplit
  · have hsplit : VPU.getPerClusterMemoryShapeOffsets [1, 12, 3, 3] twoClusters =
        some [[0, 0, 0, 0], [0, 0, 2, 0]] := by decide
    exact congrArg (Option.map fun offsets => offsets.map fun offset => offset.map Int.toNat) hsplit
  · decide
  · intro i size start hsize hstart
    obtain _ | _ | i := i
    all_goals simp at hsize hstart
    all_goals omega

theorem fills_channelsLast :
    ∃ ops, (threeChannels NHWC numDims_NHWC).unrollSegmented 2 = .ok ops ∧
      ((threeChannels NHWC numDims_NHWC).FillsClusters 2 3 3 2 [2, 1] [0, 2] ops ↔
        Consecutive [2, 1] [0, 2] ∧ (NHWC = NHWC ∨ 3 = 1)) ∧
      (twoClusters.memoryShapes = none ∧ twoClusters.memoryOffsets = none →
        Consecutive [2, 1] [0, 2]) :=
  ⟨_, rfl, unrollSegmented_fills_iff (isSpaceToDepth_threeChannels NHWC numDims_NHWC) .NHWC2NHWC
    (by decide) (overH_threeChannels NHWC numDims_NHWC) rfl⟩

/-- The second channel of the first cluster is read from rows of the first channel. -/
theorem not_fills_channelsFirst : (threeChannels NCHW numDims_NCHW).IsSpaceToDepth 3 3 3 2 ∧
    ∃ ops, (threeChannels NCHW numDims_NCHW).unrollSegmented 2 = .ok ops ∧
      ¬(threeChannels NCHW numDims_NCHW).FillsClusters 2 3 3 2 [2, 1] [0, 2] ops := by
  have hop := isSpaceToDepth_threeChannels NCHW numDims_NCHW
  refine ⟨hop, _, rfl, fun hfills => ?_⟩
  rw [fillsClusters_iff hop .NCHW2NCHW (by decide) (overH_threeChannels NCHW numDims_NCHW) rfl]
    at hfills
  have hsecond := hfills 0 2 0 rfl rfl
  rw [if_neg (by decide)] at hsecond
  exact absurd (hsecond 1 (by decide)) (by decide)

end Main

end ClusterSpaceToDepthDMAOp

end Vpux.Dma
