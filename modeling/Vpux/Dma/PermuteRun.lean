import Vpux.Dma.PermutePlanes

/-! What the transfers of a permutation have to do, and what the transfers of one descriptor do. -/
namespace Vpux.Dma
open Data Vpux.Const

namespace PermuteDMAOp

/-- The channels of the input. -/
def inputChannels (op : PermuteDMAOp) : ℕ := op.input.shape.getD 1 0

/-- Where the channels are in the memory of the input. -/
def channelDim (op : PermuteDMAOp) : ℕ := op.input.dimsOrder.dimPos 1

/-- A permutation of the input, with a whole number of bytes an element. The output has the sizes
of the permuted input, but may have more channels. -/
structure IsPermute (op : PermuteDMAOp) (channels elemTypeSize : ℕ) : Prop where
  numDims : op.memPerm.numDims = op.input.shape.length
  two_le : 2 ≤ op.input.shape.length
  positive : ∀ size ∈ op.input.shape, 0 < size
  channels_le : op.inputChannels ≤ channels
  output : getMemShape op.output =
    op.memPerm.memoryOrder (op.input.dimsOrder.memoryOrder (op.input.shape.set 1 channels))
  elemType : toByte (getElemTypeSize op.input.elemType) = .ok elemTypeSize
  descriptor : op.dmaDescriptor = none

/-- A byte of an element of the input. -/
def IsPoint (op : PermuteDMAOp) (elemTypeSize : ℕ) (x : List ℕ × ℕ) : Prop :=
  InBox (getMemShape op.input) x.1 ∧ x.2 < elemTypeSize

def source (op : PermuteDMAOp) (elemTypeSize : ℕ) (x : List ℕ × ℕ) : ℕ :=
  op.srcOffset + (rowMajor (getMemShape op.input) x.1 * elemTypeSize + x.2)

/-- Where the byte is wanted. -/
def target (op : PermuteDMAOp) (elemTypeSize : ℕ) (x : List ℕ × ℕ) : ℕ :=
  op.dstOffset +
    (rowMajor (getMemShape op.output) (op.memPerm.memoryOrder x.1) * elemTypeSize + x.2)

/-- The transfers compute the permutation: each byte of the output that belongs to the input is
written once, with the value wanted there. Nothing else is written, and nothing outside the input
is read. -/
structure Performs (op : PermuteDMAOp) (elemTypeSize : ℕ) (dmas : List SubDMA) : Prop where
  moves : Moves (dmas.map SubDMA.copy) (op.IsPoint elemTypeSize) (op.source elemTypeSize)
    (op.target elemTypeSize)
  writes : ∀ job s d, Copies (dmas.map SubDMA.copy) job s d →
    ∃ x, op.IsPoint elemTypeSize x ∧ d = op.target elemTypeSize x
  writesWithin : WritesWithin (dmas.map SubDMA.copy) op.dstOffset
    ((getMemShape op.output).prod * elemTypeSize)
  readsWithin : ∀ job s d, Copies (dmas.map SubDMA.copy) job s d →
    op.srcOffset ≤ s ∧ s < op.srcOffset + (getMemShape op.input).prod * elemTypeSize
  planes : ∀ dma ∈ dmas, dma.dmaDescriptor.numPlanes ≤ DMA_MAX_NUMBER_PLANES

variable {op : PermuteDMAOp} {channels elemTypeSize : ℕ}

section Shapes

variable (hop : op.IsPermute channels elemTypeSize)
include hop

theorem length_memShape : (getMemShape op.input).length = op.memPerm.toPermutation.length := by
  rw [getMemShape, DimsOrder.length_memoryOrder, op.input.numDims_eq, ← hop.numDims]
  rfl

theorem perm_range : op.memPerm.toPermutation.Perm (List.range (getMemShape op.input).length) := by
  rw [length_memShape hop]
  exact op.memPerm.isPermutation

end Shapes

section Encode

/-- `A` planes of `B` chunks of `C` elements, `X` planes wide in the target. -/
def frontDescriptor (A B C X elemTypeSize : ℕ) : DMADescriptorAttr where
  numPlanes := A
  len := B * C * elemTypeSize
  srcWidth := B * C * elemTypeSize
  srcStride := elemTypeSize
  srcPlaneStride := B * C * elemTypeSize
  dstWidth := C * elemTypeSize
  dstStride := X * C * elemTypeSize
  dstPlaneStride := C * elemTypeSize

/-- `B` planes of `A` chunks of `C` elements. -/
def backDescriptor (A B C elemTypeSize : ℕ) : DMADescriptorAttr where
  numPlanes := B
  len := A * C * elemTypeSize
  srcWidth := C * elemTypeSize
  srcStride := C * B * elemTypeSize
  srcPlaneStride := C * elemTypeSize
  dstWidth := elemTypeSize
  dstStride := B * elemTypeSize
  dstPlaneStride := elemTypeSize

/-- The transfers that share the planes of a descriptor. -/
def planeSubs (op : PermuteDMAOp) (dmaPortCount : ℕ) (dmaDescriptor : DMADescriptorAttr) :
    List SubDMA :=
  (List.range (max 1 (divUp dmaDescriptor.numPlanes DMA_MAX_NUMBER_PLANES))).map
    (planeSub dmaPortCount dmaDescriptor op.srcOffset op.dstOffset)

variable {A B C : List ℕ} (elemTypeSize dmaPortCount : ℕ) (hblocks : A ++ B ++ C =
  nonUnit (getMemShape op.input) (List.range (getMemShape op.input).length))
include hblocks

theorem encodes_front (X : ℕ) : ∃ encode, Encodes
    ((op.planeSubs dmaPortCount (frontDescriptor (extent (getMemShape op.input) A)
      (extent (getMemShape op.input) B) (extent (getMemShape op.input) C) X elemTypeSize)).map
        SubDMA.copy)
    (op.IsPoint elemTypeSize) (op.source elemTypeSize)
    (fun x => op.dstOffset + (((flat (getMemShape op.input) x.1 B * X +
      flat (getMemShape op.input) x.1 A) * extent (getMemShape op.input) C +
        flat (getMemShape op.input) x.1 C) * elemTypeSize + x.2)) encode := by
  apply encodes_planes dmaPortCount _ op.srcOffset op.dstOffset
  · intro x hx
    obtain ⟨hA, hB, hC⟩ := flat_blocks_lt hblocks hx.1
    exact ⟨hA, digits_lt (digits_lt hB hC) hx.2⟩
  · intro x hx
    obtain ⟨-, hB, hC⟩ := flat_blocks_lt hblocks hx.1
    have hbyte := digits_lt (digits_lt hB hC) hx.2
    rw [source, rowMajor_eq_blocks hblocks hx.1]
    simp only [SubDMA.copy, frontDescriptor, Walk.address, Nat.div_eq_of_lt hbyte,
      Nat.mod_eq_of_lt hbyte]
    ring
  · intro x hx
    obtain ⟨-, -, hC⟩ := flat_blocks_lt hblocks hx.1
    have hbyte := digits_lt hC hx.2
    rw [digits_assoc (flat (getMemShape op.input) x.1 B) (extent (getMemShape op.input) C)]
    simp only [SubDMA.copy, frontDescriptor, Walk.address_digits _ _ _ _ _ hbyte]
    ring
  · intro a ha t ht
    obtain ⟨r, hr, e, he, rfl⟩ := exists_digits ht
    obtain ⟨b, hb, c, hc, rfl⟩ := exists_digits hr
    obtain ⟨point, hbox, rfl, rfl, rfl⟩ := exists_point hblocks ha hb hc
    exact ⟨(point, e), ⟨hbox, he⟩, rfl, rfl⟩

theorem encodes_back : ∃ encode, Encodes
    ((op.planeSubs dmaPortCount (backDescriptor (extent (getMemShape op.input) A)
      (extent (getMemShape op.input) B) (extent (getMemShape op.input) C) elemTypeSize)).map
        SubDMA.copy)
    (op.IsPoint elemTypeSize) (op.source elemTypeSize)
    (fun x => op.dstOffset + (((flat (getMemShape op.input) x.1 A *
      extent (getMemShape op.input) C + flat (getMemShape op.input) x.1 C) *
        extent (getMemShape op.input) B + flat (getMemShape op.input) x.1 B) *
          elemTypeSize + x.2)) encode := by
  apply encodes_planes dmaPortCount _ op.srcOffset op.dstOffset
  · intro x hx
    obtain ⟨hA, hB, hC⟩ := flat_blocks_lt hblocks hx.1
    exact ⟨hB, digits_lt (digits_lt hA hC) hx.2⟩
  · intro x hx
    obtain ⟨-, -, hC⟩ := flat_blocks_lt hblocks hx.1
    have hbyte := digits_lt hC hx.2
    rw [digits_assoc, source, rowMajor_eq_blocks hblocks hx.1]
    simp only [SubDMA.copy, backDescriptor, Walk.address_digits _ _ _ _ _ hbyte]
    ring
  · intro x hx
    simp only [SubDMA.copy, backDescriptor, Walk.address_digits _ _ _ _ _ hx.2]
    ring
  · intro b hb t ht
    obtain ⟨r, hr, e, he, rfl⟩ := exists_digits ht
    obtain ⟨a, ha, c, hc, rfl⟩ := exists_digits hr
    obtain ⟨point, hbox, rfl, rfl, rfl⟩ := exists_point hblocks ha hb hc
    exact ⟨(point, e), ⟨hbox, he⟩, rfl, rfl⟩

end Encode

end PermuteDMAOp

namespace PermuteDMAOp

variable {op : PermuteDMAOp} {channels elemTypeSize : ℕ}

section Run

/-- Whether the two types have as many elements. -/
def SameSize (op : PermuteDMAOp) : Prop := op.input.shape.prod = op.output.shape.prod

/-- The ways an operation is unrolled, by the runs of its dimensions in the order of the output. -/
inductive Unrolls (op : PermuteDMAOp) (elemTypeSize dmaPortCount : ℕ) : List SubDMA → Prop
  | twoAxis (A B : List ℕ) (X : ℕ)
      (blocks : A ++ B ++ [] =
        nonUnit (getMemShape op.input) (List.range (getMemShape op.input).length))
      (runs : nonUnitRuns (getMemShape op.input) op.memPerm.toPermutation = [B, A])
      (positive : 0 < elemTypeSize)
      (same : op.SameSize → X = extent (getMemShape op.input) A)
      (expanded : ¬op.SameSize → op.output.dimsOrder = NHWC ∧ X = op.output.shape.getD 1 0) :
      Unrolls op elemTypeSize dmaPortCount (op.planeSubs dmaPortCount (frontDescriptor
        (extent (getMemShape op.input) A) (extent (getMemShape op.input) B)
        (extent (getMemShape op.input) []) X elemTypeSize))
  | swapFront (A B C : List ℕ)
      (blocks : A ++ B ++ C =
        nonUnit (getMemShape op.input) (List.range (getMemShape op.input).length))
      (runs : nonUnitRuns (getMemShape op.input) op.memPerm.toPermutation = [B, A, C])
      (same : op.SameSize) :
      Unrolls op elemTypeSize dmaPortCount (op.planeSubs dmaPortCount (frontDescriptor
        (extent (getMemShape op.input) A) (extent (getMemShape op.input) B)
        (extent (getMemShape op.input) C) (extent (getMemShape op.input) A) elemTypeSize))
  | swapBack (A B C : List ℕ)
      (blocks : A ++ B ++ C =
        nonUnit (getMemShape op.input) (List.range (getMemShape op.input).length))
      (runs : nonUnitRuns (getMemShape op.input) op.memPerm.toPermutation = [A, C, B])
      (same : op.SameSize) :
      Unrolls op elemTypeSize dmaPortCount (op.planeSubs dmaPortCount (backDescriptor
        (extent (getMemShape op.input) A) (extent (getMemShape op.input) B)
        (extent (getMemShape op.input) C) elemTypeSize))

theorem value_eq_ok {α : Type} {o : Option α} {a : α} : value o = .ok a ↔ o = some a := by
  cases o <;> simp [value]

variable {dmaPortCount : ℕ}

open PermuteDmaDescriptorGenerator

theorem rewritePermuteDMA_eq_ok (hop : op.IsPermute channels elemTypeSize) {dmas : List SubDMA}
    (hrun : op.rewritePermuteDMA dmaPortCount = .ok dmas) :
    ∃ merged output subShapes dmaDescriptor,
      getPermuteDMAInputShape op.input op.memPerm = .ok (some merged) ∧
      getPermuteDMASubOutputShape op.input op.output op.memPerm merged = .ok output ∧
      computeDMASubShape merged (getPermuteDMANumPlaneDim op.input op.memPerm) = .ok subShapes ∧
      generate merged output elemTypeSize
        (getPermuteDMAMergedMemPerm op.input op.memPerm) = .ok dmaDescriptor ∧
      dmas = (op.createSubOps dmaPortCount dmaDescriptor
        (getPermuteDMANumPlaneDim op.input op.memPerm) subShapes).created := by
  unfold rewritePermuteDMA at hrun
  rw [hop.elemType] at hrun
  obtain ⟨es, hes, hrun⟩ := bind_eq_ok.mp hrun
  obtain rfl := Except.ok.inj hes
  obtain ⟨dmaDescriptor, hdescriptor, hrun⟩ := bind_eq_ok.mp hrun
  obtain ⟨o, ho, hrun⟩ := bind_eq_ok.mp hrun
  obtain ⟨subShapes, hvalue, hrun⟩ := bind_eq_ok.mp hrun
  obtain ⟨-, -, hrun⟩ := bind_eq_ok.mp hrun
  rw [hop.descriptor, Option.isNone_none, if_pos rfl] at hrun
  unfold descriptor at hdescriptor
  rw [hop.descriptor] at hdescriptor
  obtain ⟨m, hm, hdescriptor⟩ := bind_eq_ok.mp hdescriptor
  obtain ⟨merged, hmerged, hdescriptor⟩ := bind_eq_ok.mp hdescriptor
  obtain ⟨out, hout, hdescriptor⟩ := bind_eq_ok.mp hdescriptor
  obtain ⟨output, houtput, hgenerate⟩ := bind_eq_ok.mp hdescriptor
  obtain rfl := value_eq_ok.mp hmerged
  obtain rfl := value_eq_ok.mp houtput
  unfold getPermuteDMAOutputShape at hout
  unfold getPermuteDMASubInputShapes at ho
  rw [hm] at hout ho
  obtain ⟨_, heq, hout⟩ := bind_eq_ok.mp hout
  obtain rfl := Except.ok.inj heq
  obtain ⟨shapes, hshapes, hout⟩ := bind_eq_ok.mp hout
  obtain ⟨_, heq, ho⟩ := bind_eq_ok.mp ho
  obtain rfl := Except.ok.inj heq
  obtain ⟨subs, hsubs, ho⟩ := bind_eq_ok.mp ho
  obtain rfl := Except.ok.inj ho
  obtain rfl := Option.some.inj (value_eq_ok.mp hvalue)
  unfold getPermuteDMASubOutputShapes at hshapes
  rw [List.mapM_cons] at hshapes
  obtain ⟨first, hfirst, hshapes⟩ := bind_eq_ok.mp hshapes
  obtain ⟨rest, -, hshapes⟩ := bind_eq_ok.mp hshapes
  obtain rfl := Except.ok.inj hshapes
  obtain rfl := Option.some.inj (Except.ok.inj hout)
  exact ⟨merged, first, subs, dmaDescriptor, hm, hfirst, hsubs, hgenerate,
    (Except.ok.inj hrun).symm⟩

variable {dmaDescriptor : DMADescriptorAttr}

theorem createSubOps_created {dim : ℕ} {merged : List ℕ} {subShapes : List (List ℕ)}
    (hsub : computeDMASubShape merged dim = .ok subShapes) (hdim : dim < merged.length)
    (hplanes : dmaDescriptor.numPlanes = merged.getD dim 0) :
    (op.createSubOps dmaPortCount dmaDescriptor dim subShapes).created =
      op.planeSubs dmaPortCount dmaDescriptor := by
  have hcounts := computeDMASubShape_counts hsub hdim
  rw [← hplanes] at hcounts
  rw [createSubOps_eq op dmaPortCount dmaDescriptor dim _ hcounts, planeSubs]

theorem expandedInputShape_eq_ok {inShape expanded : List ℕ}
    (h : expandedInputShape op.input op.output inShape = .ok expanded) :
    (op.SameSize ∧ expanded = inShape) ∨ (¬op.SameSize ∧ inShape.length = 2 ∧
      op.output.dimsOrder = NHWC ∧ expanded = inShape.set 0 (op.output.shape.getD 1 0)) := by
  unfold expandedInputShape at h
  by_cases hsame : op.input.shape.prod = op.output.shape.prod
  · rw [if_neg (not_not.mpr hsame)] at h
    exact .inl ⟨hsame, (Except.ok.inj h).symm⟩
  · rw [if_pos hsame] at h
    obtain ⟨_, hlayout, h⟩ := bind_eq_ok.mp h
    obtain ⟨hlength, -, horder⟩ := throwUnless_eq_ok.mp hlayout
    exact .inr ⟨hsame, hlength, horder, (Except.ok.inj h).symm⟩

theorem subOutput_pair {memPerm : DimsOrder} {front back : ℕ} {output : List ℕ}
    (h : getPermuteDMASubOutputShape op.input op.output memPerm [front, back] = .ok output) :
    ∃ X, output = [back, X] ∧ (op.SameSize → X = front) ∧
      (¬op.SameSize → op.output.dimsOrder = NHWC ∧ X = op.output.shape.getD 1 0) := by
  obtain ⟨inShape, hshape, h⟩ := bind_eq_ok.mp h
  rcases expandedInputShape_eq_ok hshape with ⟨hsame, rfl⟩ | ⟨hsame, -, horder, rfl⟩
  · exact ⟨front, (Except.ok.inj h).symm, fun _ => rfl, fun hnot => absurd hsame hnot⟩
  · exact ⟨op.output.shape.getD 1 0, (Except.ok.inj h).symm, fun h => absurd h hsame,
      fun _ => ⟨horder, rfl⟩⟩

theorem subOutput_triple {memPerm : DimsOrder} {h w c : ℕ} {output : List ℕ}
    (hok : getPermuteDMASubOutputShape op.input op.output memPerm [h, w, c] = .ok output) :
    op.SameSize := by
  obtain ⟨inShape, hshape, -⟩ := bind_eq_ok.mp hok
  rcases expandedInputShape_eq_ok hshape with ⟨hsame, -⟩ | ⟨-, hlength, -⟩
  · exact hsame
  · simp at hlength

theorem eq_of_perm_range_two {m : List ℕ} (h : m.Perm (List.range 2)) (hne : m ≠ [0, 1]) :
    m = [1, 0] := by
  obtain ⟨x, y, rfl⟩ := List.length_eq_two.mp h.length_eq
  have hx := List.mem_range.mp (h.subset List.mem_cons_self)
  have hy := List.mem_range.mp (h.subset (List.mem_cons_of_mem x List.mem_cons_self))
  have hxy : x ≠ y := by simpa using h.nodup_iff.mpr List.nodup_range
  have hne' : ¬(x = 0 ∧ y = 1) := by simpa using hne
  obtain rfl : x = 1 := by omega
  obtain rfl : y = 0 := by omega
  rfl

theorem merged_eq_of_length_two (inType : NDType) (memPerm : DimsOrder)
    (h : (getPermuteDMAMergedMemPerm inType memPerm).length = 2) :
    getPermuteDMAMergedMemPerm inType memPerm = [1, 0] := by
  have hmerged : getPermuteDMAMergedMemPerm inType memPerm = sortIndex (runStarts
      (sortIndex (nonUnit (getMemShape inType) memPerm.toPermutation))) := by
    rw [← mergeSequence_eq_runStarts]
    rfl
  rw [hmerged, length_sortIndex] at h
  rw [hmerged]
  apply eq_of_perm_range_two
  · rw [← h]
    exact sortIndex_perm _
  · exact sortIndex_runStarts_ne (sortIndex_perm _)

theorem generate_pair {IN IC OC : ℕ} {m : List ℕ}
    (h : generate [IN, IC] [IC, OC] elemTypeSize m =
      .ok dmaDescriptor) :
    0 < elemTypeSize ∧ dmaDescriptor = frontDescriptor IN IC 1 OC elemTypeSize := by
  obtain ⟨-, -, h⟩ := bind_eq_ok.mp h
  obtain ⟨-, -, h⟩ := bind_eq_ok.mp h
  obtain ⟨-, -, h⟩ := bind_eq_ok.mp h
  obtain ⟨_, hpositive, h⟩ := bind_eq_ok.mp h
  refine ⟨throwUnless_eq_ok.mp hpositive, ?_⟩
  rw [← Except.ok.inj h]
  simp [frontDescriptor]

theorem generate_triple {H W C : ℕ} {m output : List ℕ}
    (h : generate [H, W, C] output elemTypeSize m =
      .ok dmaDescriptor) :
    (m = HCW ∧ dmaDescriptor = frontDescriptor H W C H elemTypeSize) ∨
      (m = CWH ∧ dmaDescriptor = backDescriptor H W C elemTypeSize) := by
  obtain ⟨-, -, h⟩ := bind_eq_ok.mp h
  rw [if_neg (by simp)] at h
  split at h
  next hm =>
    obtain ⟨-, -, h⟩ := bind_eq_ok.mp h
    obtain ⟨-, -, h⟩ := bind_eq_ok.mp h
    exact .inl ⟨hm, (Except.ok.inj h).symm⟩
  next =>
    split at h
    next hm =>
      obtain ⟨-, -, h⟩ := bind_eq_ok.mp h
      obtain ⟨-, -, h⟩ := bind_eq_ok.mp h
      exact .inr ⟨hm, (Except.ok.inj h).symm⟩
    next => cases h

theorem unrolls (hop : op.IsPermute channels elemTypeSize) {dmas : List SubDMA}
    (hrun : op.rewritePermuteDMA dmaPortCount = .ok dmas) :
    op.Unrolls elemTypeSize dmaPortCount dmas := by
  obtain ⟨merged, output, subShapes, dmaDescriptor, hmerged, houtput, hsub, hgenerate, rfl⟩ :=
    rewritePermuteDMA_eq_ok hop hrun
  obtain ⟨hle, hblocks⟩ := exists_blocks (perm_range hop)
    (show getPermuteDMAMergedMemPerm op.input op.memPerm = sortIndex (mergeSequence none
      (sortIndex (nonUnit (getMemShape op.input) op.memPerm.toPermutation))) from rfl)
  have htwo := merged_eq_of_length_two op.input op.memPerm
  obtain ⟨_, hlength, -⟩ := bind_eq_ok.mp hgenerate
  rw [throwUnless_eq_ok] at hlength
  unfold getPermuteDMAInputShape at hmerged
  rw [mergedSizes_eq] at hmerged
  unfold getPermuteDMANumPlaneDim at hsub ⊢
  generalize getPermuteDMAMergedMemPerm op.input op.memPerm = m at *
  match hruns : nonUnitRuns (getMemShape op.input) op.memPerm.toPermutation with
  | [] =>
    rw [hruns, List.length_nil] at hle
    omega
  | [r] =>
    rw [hruns, List.length_singleton] at hle
    omega
  | [first, last] =>
    rw [hruns] at hle hblocks hmerged
    simp only [List.length_cons, List.length_nil] at hle hblocks
    obtain rfl := htwo (by omega)
    obtain ⟨blocks, hcount, hflat, hmap⟩ := hblocks rfl
    obtain ⟨A, B, rfl⟩ := List.length_eq_two.mp hcount
    obtain ⟨rfl, rfl⟩ := hmap
    obtain rfl := Option.some.inj (Except.ok.inj hmerged)
    obtain ⟨X, rfl, hsame, hexpanded⟩ := subOutput_pair houtput
    obtain ⟨hpositive, rfl⟩ := generate_pair hgenerate
    rw [createSubOps_created hsub (by simp [CWH]) (by simp [CWH]; rfl)]
    exact .twoAxis A B X (by simpa using hflat) hruns hpositive hsame hexpanded
  | [first, second, third] =>
    rw [hruns] at hle hblocks hmerged
    simp only [List.length_cons, List.length_nil, List.map_cons, List.map_nil]
      at hle hblocks hmerged
    have hthree : m = HCW ∨ m = CWH ∨ m = WHC := by
      by_contra hnot
      rw [not_or, not_or] at hnot
      rw [if_neg hnot.1, if_neg hnot.2.1, if_neg hnot.2.2] at hmerged
      cases hmerged
    obtain ⟨blocks, hcount, hflat, hmap⟩ := hblocks (by rcases hthree with rfl | rfl | rfl <;> rfl)
    have hcount' : blocks.length = 3 := by
      rw [hcount]
      rcases hthree with rfl | rfl | rfl <;> rfl
    obtain ⟨A, B, C, rfl⟩ := List.length_eq_three.mp hcount'
    have hflat' : A ++ B ++ C =
        nonUnit (getMemShape op.input) (List.range (getMemShape op.input).length) := by
      simpa using hflat
    rcases hthree with rfl | rfl | rfl
    · obtain rfl := Option.some.inj (Except.ok.inj hmerged)
      obtain ⟨rfl, rfl, rfl⟩ := hmap
      rcases generate_triple hgenerate with ⟨-, rfl⟩ | ⟨hm, -⟩
      · rw [createSubOps_created hsub (by simp [HCW, CWH]) (by simp [HCW, CWH]; rfl)]
        exact .swapFront A B C hflat' hruns (subOutput_triple houtput)
      · cases hm
    · obtain rfl := Option.some.inj (Except.ok.inj hmerged)
      obtain ⟨rfl, rfl, rfl⟩ := hmap
      rcases generate_triple hgenerate with ⟨hm, -⟩ | ⟨-, rfl⟩
      · cases hm
      · rw [createSubOps_created hsub (by simp [CWH]) (by simp [CWH]; rfl)]
        exact .swapBack A B C hflat' hruns (subOutput_triple houtput)
    · rw [if_neg (by decide), if_neg (by decide), if_pos rfl] at hmerged
      split at hmerged
      · cases hmerged
      · obtain rfl := Option.some.inj (Except.ok.inj hmerged)
        rcases generate_triple hgenerate with ⟨hm, -⟩ | ⟨hm, -⟩
        · cases hm
        · cases hm
  | _ :: _ :: _ :: _ :: _ =>
    rw [hruns] at hmerged
    simp at hmerged

end Run

end PermuteDMAOp

end Vpux.Dma
