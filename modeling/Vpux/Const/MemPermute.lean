import Vpux.Const.Loops
import Vpux.Data.DimPositions
import Vpux.Data.Folds

/-! Constants with their dimensions in another order (`utils/transformations.cpp`,
`attributes/transpose.cpp` and `attributes/reorder.cpp`). -/
namespace Vpux.Const
open Data

/-- The element sizes that `blob_copy` supports. -/
def elemSizeToPrecision : List ℕ := [1, 2, 4]

/-- `blob_copy` from the default layout to another one, for elements of a size in bytes. -/
structure BlobCopy where
  copy : ℕ → List ℕ → DimsOrder → Buffer → Write
  copies : ∀ {size : ℕ} {shape : List ℕ} {layout : DimsOrder} {inBuf outBuf : Buffer},
    size ∈ elemSizeToPrecision → shape.length = layout.numDims →
    inBuf.length = shape.prod * size → outBuf.length = shape.prod * size →
    ∃ data, copy size shape layout inBuf outBuf = .ok data ∧ data.length = outBuf.length ∧
      ∀ x, InBox shape x →
        block size (rowMajor (layout.memoryOrder shape) (layout.memoryOrder x)) data =
          block size (rowMajor shape x) inBuf

section MemPermute

/-- An element and its place by the generic algorithm. -/
def permuteElement (elemSize : ℕ) (inBuf : Buffer) (permOrder : DimsOrder)
    (inMemShape outMemShape : List ℕ) (inMemInd1D : ℕ) : Write := fun outBuf => do
  let inMemIndND ← getMemIndexND inMemInd1D inMemShape
  let outMemIndND ← permOrder.toMemoryOrder inMemIndND
  let outMemInd1D ← getMemIndex1D outMemIndND outMemShape
  let inMemRawInd := inMemInd1D * elemSize
  throwUnless (inMemRawInd < inBuf.length) "Out-of-bound access in 'memPermuteTransformation'"
  let outMemRawInd := outMemInd1D * elemSize
  throwUnless (outMemRawInd < outBuf.length) "Out-of-bound access in 'memPermuteTransformation'"
  copy_n inBuf inMemRawInd elemSize outMemRawInd outBuf

def optimizedCases : List DimsOrder := [DimsOrder.NHWC, DimsOrder.NDHWC]

def genericAlgorithm (elemSize : ℕ) (input : Content) (outType : NDType) (permOrder : DimsOrder) :
    Write := fun outBuf => do
  let inMemShape ← input.type.dimsOrder.toMemoryOrder input.type.shape
  let outMemShape ← outType.dimsOrder.toMemoryOrder outType.shape
  loop_1d input.type.getNumElements
    (permuteElement elemSize input.data permOrder inMemShape outMemShape) outBuf

/-- The permutation stands from major to minor, as the results of its affine map. -/
def memPermuteTransformation (blob : BlobCopy) (fresh : ℕ → Byte) (input : Content)
    (outType : NDType) (memPerm : List ℕ) : Except Fault Content := do
  let inOrder := input.type.dimsOrder
  let outOrder := outType.dimsOrder
  let permOrder ← DimsOrder.fromPermutation memPerm
  throwUnless (inOrder.numDims = outOrder.numDims) "Can't reorder"
  throwUnless (inOrder.numDims = permOrder.numDims) "Can't reorder"
  if input.isSplat ∨ permOrder.isIdentity then
    .ok (Content.moveBuffer outType input)
  else
    let elemSize ← toByte (getElemTypeSize input.storageElemType)
    let inMemShape ← inOrder.toMemoryOrder input.type.shape
    let output := Content.allocTempBuffer fresh outType input.storageElemType input.isSplat
    throwUnless (output.data.length = input.data.length)
      "Storage buffer size mismatch in 'memPermuteTransformation'"
    let data ← if permOrder ∈ optimizedCases ∧ elemSize ∈ elemSizeToPrecision then
        blob.copy elemSize inMemShape permOrder input.data output.data
      else genericAlgorithm elemSize input outType permOrder output.data
    .ok { output with data := data }

/-- The elements as the generic algorithm moves them, without a shortcut. -/
def genericTransformation (fresh : ℕ → Byte) (input : Content) (outType : NDType)
    (memPerm : List ℕ) : Except Fault Buffer := do
  let permOrder ← DimsOrder.fromPermutation memPerm
  let elemSize ← toByte (getElemTypeSize input.storageElemType)
  genericAlgorithm elemSize input outType permOrder
    (Content.allocTempBuffer fresh outType input.storageElemType input.isSplat).data

end MemPermute

/-- What `ReorderAttr::verify` accepts. -/
structure ReorderAttr where
  order : DimsOrder

namespace ReorderAttr

def inferOutputType (attr : ReorderAttr) (input : NDType) : Except Fault NDType := do
  throwUnless (CHAR_BIT ≤ getElemTypeSize input.elemType) "Got sub-byte input in ReorderAttr"
  throwUnless (attr.order.numDims = input.getRank) "DimsOrder doesn't match type"
  input.changeDimsOrder attr.order

def computeOrder (inOrder outOrder : DimsOrder) : List ℕ :=
  outOrder.toPermutation.map inOrder.dimPos

def transform (blob : BlobCopy) (fresh : ℕ → Byte) (attr : ReorderAttr) (input : Content) :
    Except Fault Content := do
  let outType ← attr.inferOutputType input.type
  memPermuteTransformation blob fresh input outType
    (computeOrder input.type.dimsOrder outType.dimsOrder)

end ReorderAttr

/-- What `TransposeAttr::verify` accepts. -/
structure TransposeAttr where
  order : DimsOrder

namespace TransposeAttr

def inferOutputType (attr : TransposeAttr) (input : NDType) : Except Fault NDType := do
  throwUnless (CHAR_BIT ≤ getElemTypeSize input.elemType) "Got sub-byte input in TransposeAttr"
  throwUnless (attr.order.numDims = input.getRank) "DimsOrder doesn't match type"
  let inputShape := input.shape
  let newShape := (List.range inputShape.length).map fun idx =>
    inputShape.getD (attr.order.dimAt idx) 0
  input.changeShape newShape

/-- The results of the composed affine map. -/
def memPerm (attr : TransposeAttr) (inputOrder : DimsOrder) : List ℕ :=
  inputOrder.toPermutation.map attr.order.dimAt

def transform (blob : BlobCopy) (fresh : ℕ → Byte) (attr : TransposeAttr) (input : Content) :
    Except Fault Content := do
  let outType ← attr.inferOutputType input.type
  memPermuteTransformation blob fresh input outType (attr.memPerm input.type.dimsOrder)

end TransposeAttr

-- The generic algorithm places every element, and the shortcuts do the same.
open DimsOrder

section Generic

variable {w : ℕ} {input : Content} {outType : NDType} {perm : DimsOrder} {outBuf : Buffer}

theorem getMemIndex1D_ok {memIndexND memShape : List ℕ} {index : ℕ}
    (h : getMemIndex1D memIndexND memShape = .ok index) : InBox memShape memIndexND := by
  obtain ⟨_, hlength, hrest⟩ := bind_eq_ok.mp h
  rw [throwUnless_eq_ok] at hlength
  obtain ⟨⟨ind, size⟩, hfold, -⟩ := bind_eq_ok.mp hrest
  clear h hrest
  induction memIndexND generalizing memShape ind size with
  | nil =>
    rw [List.length_eq_zero_iff.mp hlength.symm]
    exact inBox_nil.mpr rfl
  | cons mdInd memIndexND ih =>
    cases memShape with
    | nil => simp at hlength
    | cons mdSize memShape =>
      rw [List.zip_cons_cons, List.foldrM_cons] at hfold
      obtain ⟨⟨ind', size'⟩, hrest, hstep⟩ := bind_eq_ok.mp hfold
      obtain ⟨_, hlt, -⟩ := bind_eq_ok.mp hstep
      rw [throwUnless_eq_ok] at hlt
      exact inBox_cons.mpr ⟨hlt, ih (by simpa using hlength) ind' size' hrest⟩

theorem genericAlgorithm_eq : genericAlgorithm w input outType perm outBuf =
    loop_1d input.type.getNumElements
      (permuteElement w input.data perm input.type.getMemShape outType.getMemShape) outBuf := by
  unfold genericAlgorithm
  rw [NDType.toMemoryOrder_shape, NDType.toMemoryOrder_shape]
  rfl

/-- Every element goes where its permuted coordinates are in the output. -/
abbrev Permutes (w : ℕ) (input : Content) (outType : NDType) (perm : DimsOrder)
    (outBuf data : Buffer) : Prop :=
  Places w input.type.getMemShape outType.getMemShape perm.memoryOrder
    (fun k => block w (rowMajor input.type.getMemShape k) input.data) outBuf data

theorem length_getMemShape (type : NDType) : type.getMemShape.length = type.getRank := by
  rw [NDType.getMemShape, length_memoryOrder, type.numDims_eq]
  rfl

theorem permuteElement_eq {n m : ℕ} {inMemShape outMemShape : List ℕ} {inBuf outBuf : Buffer}
    (hw : 0 < w) (hrank : inMemShape.length = perm.numDims) (hin : inBuf.length = n * w)
    (hn : inMemShape.prod = n) (hout : outBuf.length = outMemShape.prod * w) (hm : m < n)
    (hbox : InBox outMemShape (perm.memoryOrder (pointAt inMemShape m))) :
    permuteElement w inBuf perm inMemShape outMemShape m outBuf =
      store (block w m inBuf) (rowMajor outMemShape (perm.memoryOrder (pointAt inMemShape m)) * w)
        outBuf := by
  have hpoint : (pointAt inMemShape m).length = perm.numDims := by
    rw [(inBox_pointAt (by omega) m : InBox inMemShape _).length_eq, hrank]
  have hinLt : m * w < inBuf.length := by
    rw [hin]
    exact Nat.mul_lt_mul_of_pos_right hm hw
  have houtLt : rowMajor outMemShape (perm.memoryOrder (pointAt inMemShape m)) * w <
      outBuf.length := by
    rw [hout]
    exact Nat.mul_lt_mul_of_pos_right (rowMajor_lt hbox) hw
  unfold permuteElement
  rw [getMemIndexND_eq (by omega)]
  change (perm.toMemoryOrder (pointAt inMemShape m) >>= _ : Except Fault Buffer) = _
  rw [toMemoryOrder_eq hpoint]
  change (getMemIndex1D (perm.memoryOrder (pointAt inMemShape m)) outMemShape >>= _ :
    Except Fault Buffer) = _
  rw [getMemIndex1D_eq hbox]
  change (throwUnless (m * w < inBuf.length) _ >>= _ : Except Fault Buffer) = _
  rw [throwUnless, if_pos hinLt]
  change (throwUnless (_ < outBuf.length) _ >>= _ : Except Fault Buffer) = _
  rw [throwUnless, if_pos houtLt]
  exact copy_n_block hin hm _

variable (hw : 0 < w) (hrank : perm.numDims = input.type.getRank)
  (hin : input.data.length = input.type.getNumElements * w)
  (hout : outBuf.length = outType.getMemShape.prod * w)
include hw hrank hin hout

theorem genericAlgorithm_places
    (hbox : ∀ k, InBox input.type.getMemShape k → InBox outType.getMemShape (perm.memoryOrder k)) :
    ∃ data, genericAlgorithm w input outType perm outBuf = .ok data ∧
      Permutes w input outType perm outBuf data := by
  have hlength : input.type.getMemShape.length = perm.numDims :=
    (length_getMemShape _).trans hrank.symm
  have hprod := input.type.prod_getMemShape
  have hjobs := enumerates_pointAt input.type.getMemShape
  rw [genericAlgorithm_eq, loop_1d, ← hprod]
  refine Places.of_loop hjobs hout (fun k hk => ?_) hbox (fun k k' hk hk' heq => ?_) ?_
  · exact length_block_of_lt hin (hprod ▸ rowMajor_lt hk)
  · exact perm.memoryOrder_injective (hk.length_eq.trans hlength) (hk'.length_eq.trans hlength) heq
  · intro m hm buf hbuf
    have hlt : m < input.type.getMemShape.prod := List.mem_range.mp hm
    rw [permuteElement_eq hw hlength hin hprod hbuf (hprod ▸ hlt)
      (hbox _ ((hjobs _).mpr ⟨m, hm, rfl⟩)), rowMajor_pointAt hlt]

omit hw hrank hin hout in
theorem inBox_of_genericAlgorithm {data : Buffer}
    (h : genericAlgorithm w input outType perm outBuf = .ok data) {k : List ℕ}
    (hk : InBox input.type.getMemShape k) : InBox outType.getMemShape (perm.memoryOrder k) := by
  rw [genericAlgorithm_eq] at h
  have hlt := rowMajor_lt hk
  have hmem : rowMajor input.type.getMemShape k ∈ List.range input.type.getNumElements := by
    rw [List.mem_range, ← input.type.prod_getMemShape]
    exact hlt
  obtain ⟨buf, buf', hrun⟩ := foldlM_runs h _ hmem
  unfold permuteElement at hrun
  rw [getMemIndexND_eq hlt, pointAt_rowMajor hk] at hrun
  obtain ⟨_, hpoint, hrun⟩ := bind_eq_ok.mp hrun
  obtain rfl := Except.ok.inj hpoint
  obtain ⟨out, hmemory, hrun⟩ := bind_eq_ok.mp hrun
  obtain ⟨index, hindex, -⟩ := bind_eq_ok.mp hrun
  have hmemory : perm.toMemoryOrder k = .ok out := hmemory
  unfold toMemoryOrder at hmemory
  split_ifs at hmemory
  obtain rfl : perm.memoryOrder k = out := Except.ok.inj hmemory
  exact getMemIndex1D_ok hindex

end Generic

section Paths

variable {blob : BlobCopy} {fresh : ℕ → Byte} {input : Content} {outType : NDType}
  {perm : DimsOrder}

/-- The width of the stored elements. -/
def Content.elemBytes (content : Content) : ℕ := getElemTypeSize content.storageElemType / CHAR_BIT

/-- All elements are stored in whole bytes. -/
structure ByteSized (content : Content) : Prop extends content.Dense where
  bytes : CHAR_BIT ∣ getElemTypeSize content.storageElemType

section

variable (h : ByteSized input)
include h

theorem ByteSized.bits_pos : 0 < getElemTypeSize input.storageElemType :=
  h.width.elim (fun hbit => hbit ▸ Nat.one_pos) And.left

theorem ByteSized.elemBytes_pos : 0 < input.elemBytes :=
  elemSize_pos h.bits_pos h.bytes

theorem ByteSized.length_data :
    input.data.length = input.type.getNumElements * input.elemBytes := by
  rw [h.stored, storageBytes_of_dvd h.bytes]
  rfl

theorem ByteSized.element (x : List ℕ) : input.element x =
    .bytes (block input.elemBytes (input.memIndex x) input.data) := by
  refine element_of_bytes h.notSplat (fun hbit => ?_) x
  have hbytes := h.bytes
  rw [hbit] at hbytes
  exact absurd hbytes (by decide)

end

/-- The data of the output when every element is in its place. -/
structure Relocated (input : Content) (outType : NDType) (perm : DimsOrder) (data : Buffer) :
    Prop where
  length_eq : data.length = input.type.getNumElements * input.elemBytes
  placed : ∀ k, InBox input.type.getMemShape k →
    block input.elemBytes (rowMajor outType.getMemShape (perm.memoryOrder k)) data =
      block input.elemBytes (rowMajor input.type.getMemShape k) input.data

/-- The output has the permuted sizes, or there are no elements. -/
structure Fits (input : Content) (outType : NDType) (perm : DimsOrder) : Prop where
  rank : perm.numDims = input.type.getRank
  outRank : outType.getRank = perm.numDims
  numElements : outType.getNumElements = input.type.getNumElements
  memShape : 0 < input.type.getNumElements →
    outType.getMemShape = perm.memoryOrder input.type.getMemShape

theorem Fits.length_inMemShape (h : Fits input outType perm) :
    input.type.getMemShape.length = perm.numDims :=
  (length_getMemShape _).trans h.rank.symm

theorem Fits.memShape_of_inBox (h : Fits input outType perm) {k : List ℕ}
    (hk : InBox input.type.getMemShape k) :
    outType.getMemShape = perm.memoryOrder input.type.getMemShape :=
  h.memShape (input.type.prod_getMemShape ▸ hk.prod_pos)

theorem Relocated.unique {data data' : Buffer} (hfits : Fits input outType perm)
    (h : Relocated input outType perm data) (h' : Relocated input outType perm data') :
    data = data' := by
  have hlength := hfits.length_inMemShape
  refine eq_of_blocks h.length_eq h'.length_eq fun i hi => ?_
  have hi' : i < (perm.memoryOrder input.type.getMemShape).prod := by
    rwa [prod_memoryOrder hlength, NDType.prod_getMemShape]
  have hpoint := inBox_pointAt (Nat.zero_lt_of_lt hi') i
  have hmemory : perm.memoryOrder (perm.logicalOrder (pointAt (perm.memoryOrder
      input.type.getMemShape) i)) = pointAt (perm.memoryOrder input.type.getMemShape) i :=
    memoryOrder_logicalOrder (hpoint.length_eq.trans (length_memoryOrder _ _))
  have hk := inBox_logicalOrder hpoint hlength
  have hdata := (h.placed _ hk).trans (h'.placed _ hk).symm
  rwa [hfits.memShape_of_inBox hk, hmemory, rowMajor_pointAt hi'] at hdata

theorem toByte_elemBytes (h : ByteSized input) :
    toByte (getElemTypeSize input.storageElemType) = .ok input.elemBytes :=
  toByte_of_dvd h.bytes

variable (hbytes : ByteSized input) (hfits : Fits input outType perm)
include hbytes hfits

variable (fresh) in
theorem length_alloc : (Content.allocTempBuffer fresh outType input.storageElemType
    input.isSplat).data.length = input.data.length := by
  rw [hbytes.notSplat, length_allocTempBuffer, storageBytes_of_dvd hbytes.bytes,
    hbytes.length_data, hfits.numElements]
  rfl

variable (fresh) in
theorem genericTransformation_relocates : ∃ data,
    genericTransformation fresh input outType perm.toPermutation = .ok data ∧
      Relocated input outType perm data := by
  have hsize : (Content.allocTempBuffer fresh outType input.storageElemType
      input.isSplat).data.length = outType.getMemShape.prod * input.elemBytes := by
    rw [length_alloc fresh hbytes hfits, hbytes.length_data, NDType.prod_getMemShape,
      hfits.numElements]
  obtain ⟨data, hdata, hplaces⟩ := genericAlgorithm_places hbytes.elemBytes_pos hfits.rank
    hbytes.length_data hsize fun k hk => by
      rw [hfits.memShape_of_inBox hk]
      exact DimsOrder.inBox_memoryOrder hk hfits.length_inMemShape
  refine ⟨data, ?_, ?_, hplaces.placed⟩
  · unfold genericTransformation
    rw [DimsOrder.fromPermutation_toPermutation, toByte_elemBytes hbytes]
    exact hdata
  · rw [hplaces.length_eq, NDType.prod_getMemShape, hfits.numElements]

variable (blob fresh) in
/-- Whatever path is taken, the output is that of the generic algorithm. -/
theorem memPermuteTransformation_relocates : ∃ data,
    memPermuteTransformation blob fresh input outType perm.toPermutation =
      .ok ⟨outType, input.storageElemType, data, false⟩ ∧
      genericTransformation fresh input outType perm.toPermutation = .ok data ∧
      Relocated input outType perm data := by
  have hlength := hfits.length_inMemShape
  obtain ⟨data, hgeneric, hrelocated⟩ := genericTransformation_relocates fresh hbytes hfits
  have hunique : ∀ data', Relocated input outType perm data' → data' = data :=
    fun data' h => h.unique hfits hrelocated
  refine ⟨data, ?_, hgeneric, hrelocated⟩
  have hdims : input.type.dimsOrder.numDims = perm.numDims :=
    input.type.numDims_eq.trans hfits.rank.symm
  have houtDims : outType.dimsOrder.numDims = perm.numDims :=
    outType.numDims_eq.trans hfits.outRank
  have hsize := length_alloc fresh hbytes hfits
  have hok : ∀ {α β : Type} (a : α) (f : α → Except Fault β), (Except.ok a >>= f) = f a :=
    fun _ _ => rfl
  have hcheck : ∀ (cond : Prop) [Decidable cond] (message : String), cond →
      throwUnless cond message = .ok () := fun cond _ message h => if_pos h
  have hsplat := hbytes.notSplat
  simp only [memPermuteTransformation, DimsOrder.fromPermutation_toPermutation, hdims, houtDims,
    hsplat, hok, hcheck, Bool.false_eq_true, false_or, toByte_elemBytes hbytes,
    NDType.toMemoryOrder_shape, ← hsize]
  split_ifs with hidentity hblob
  · have hsame : ∀ k : List ℕ, k.length = perm.numDims → perm.memoryOrder k = k := by
      intro k hk
      rw [DimsOrder.isIdentity] at hidentity
      rw [hidentity, DimsOrder.memoryOrder, DimsOrder.fromNumDims, ← hk]
      exact map_getD_range k 0
    have hkeeps : Relocated input outType perm input.data := by
      refine ⟨hbytes.length_data, fun k hk => ?_⟩
      rw [hfits.memShape_of_inBox hk, hsame _ hlength, hsame _ (hk.length_eq.trans hlength)]
    rw [← hunique _ hkeeps, Content.moveBuffer, ← hsplat]
  · obtain ⟨data', hcopy, hsize', hcopied⟩ := blob.copies hblob.2 hlength
      (input.type.prod_getMemShape.symm ▸ hbytes.length_data)
      (hsize.trans (input.type.prod_getMemShape.symm ▸ hbytes.length_data))
    have hcopied' : Relocated input outType perm data' := by
      refine ⟨hsize'.trans (hsize.trans hbytes.length_data), fun k hk => ?_⟩
      rw [hfits.memShape_of_inBox hk]
      exact hcopied k hk
    rw [hsplat] at hcopy
    rw [hcopy, ← hunique _ hcopied']
    rfl
  · rw [genericTransformation, DimsOrder.fromPermutation_toPermutation, hok,
      toByte_elemBytes hbytes, hok, hsplat] at hgeneric
    rw [hgeneric]
    rfl

end Paths

end Vpux.Const
