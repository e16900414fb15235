import Mathlib.Algebra.BigOperators.Ring.List
import Vpux.Const.MemPermute

/-! `ReorderAttr` keeps every element; when `TransposeAttr` moves the elements where it should. -/
namespace Vpux.Const
open Data

namespace DimsOrder

variable {order inOrder outOrder : DimsOrder} {values : List ℕ}

theorem map_perm_range (order : DimsOrder) {f : ℕ → ℕ} {n : ℕ} (hn : order.numDims = n)
    (hf : ((List.range n).map f).Perm (List.range n)) :
    (order.toPermutation.map f).Perm (List.range (order.toPermutation.map f).length) := by
  have hlength : (order.toPermutation.map f).length = n := by rw [List.length_map]; exact hn
  have hperm := order.isPermutation.map f
  rw [hlength]
  rw [show order.toPermutation.length = n from hn] at hperm
  exact hperm.trans hf

def compose (order transpose : DimsOrder) (h : order.numDims = transpose.numDims) : DimsOrder where
  toPermutation := order.toPermutation.map transpose.dimAt
  isPermutation := order.map_perm_range h (by
    rw [transpose.map_dimAt_range]
    exact transpose.isPermutation)

def relative (inOrder outOrder : DimsOrder) (h : inOrder.numDims = outOrder.numDims) :
    DimsOrder where
  toPermutation := outOrder.toPermutation.map inOrder.dimPos
  isPermutation := by
    refine outOrder.map_perm_range h.symm ?_
    have hrange : inOrder.toPermutation.map inOrder.dimPos = List.range inOrder.numDims := by
      rw [← inOrder.map_dimAt_range, List.map_map]
      conv_rhs => rw [← List.map_id (List.range inOrder.numDims)]
      apply List.map_congr_left
      intro i hi
      exact dimPos_dimAt (List.mem_range.mp hi)
    have hperm := inOrder.isPermutation.map inOrder.dimPos
    rw [hrange] at hperm
    exact hperm.symm

theorem numDims_compose {transpose : DimsOrder} (h : order.numDims = transpose.numDims) :
    (order.compose transpose h).numDims = order.numDims := List.length_map _

theorem numDims_relative (h : inOrder.numDims = outOrder.numDims) :
    (inOrder.relative outOrder h).numDims = outOrder.numDims := List.length_map _

theorem memoryOrder_compose {transpose : DimsOrder} (h : order.numDims = transpose.numDims) :
    (order.compose transpose h).memoryOrder values =
      order.memoryOrder (transpose.memoryOrder values) := by
  simp only [memoryOrder, compose, List.map_map]
  apply List.map_congr_left
  intro i hi
  have hlt : i < (transpose.toPermutation.map fun d => values.getD d 0).length := by
    rw [List.length_map]
    exact (mem_toPermutation.mp hi).trans_eq h
  rw [Function.comp_apply, List.getD_eq_getElem _ _ hlt]
  exact (show (transpose.memoryOrder values)[i] = _ from getElem_memoryOrder hlt).symm

theorem memoryOrder_relative (h : inOrder.numDims = outOrder.numDims) :
    (inOrder.relative outOrder h).memoryOrder (inOrder.memoryOrder values) =
      outOrder.memoryOrder values := by
  simp only [memoryOrder, relative, List.map_map]
  apply List.map_congr_left
  intro d hd
  exact memoryOrder_getD values (h ▸ mem_toPermutation.mp hd)

end DimsOrder

/-- A transformation, and the generic algorithm in its place, put every element of the input
where `place` says, in a shape and an order. -/
def Rearranges (input : Content) (result : Except Fault Content) (generic : Except Fault Buffer)
    (shape : List ℕ) (order : DimsOrder) (place : List ℕ → List ℕ) : Prop :=
  ∃ outType data, result = .ok ⟨outType, input.storageElemType, data, false⟩ ∧
    generic = .ok data ∧ outType.shape = shape ∧ outType.dimsOrder = order ∧
    ∀ x, InBox input.type.shape x →
      Content.element ⟨outType, input.storageElemType, data, false⟩ (place x) = input.element x

namespace ReorderAttr

/-- The transformation without its shortcuts. -/
def generic (fresh : ℕ → Byte) (attr : ReorderAttr) (input : Content) : Except Fault Buffer := do
  let outType ← attr.inferOutputType input.type
  genericTransformation fresh input outType
    (computeOrder input.type.dimsOrder outType.dimsOrder)

def Keeps (blob : BlobCopy) (fresh : ℕ → Byte) (attr : ReorderAttr) (input : Content) : Prop :=
  Rearranges input (attr.transform blob fresh input) (attr.generic fresh input) input.type.shape
    attr.order id

end ReorderAttr

namespace TransposeAttr

/-- The transformation without its shortcuts. -/
def generic (fresh : ℕ → Byte) (attr : TransposeAttr) (input : Content) : Except Fault Buffer := do
  let outType ← attr.inferOutputType input.type
  genericTransformation fresh input outType (attr.memPerm input.type.dimsOrder)

/-- Every dimension of the output is the one that the permutation names. -/
def Transposes (blob : BlobCopy) (fresh : ℕ → Byte) (attr : TransposeAttr) (input : Content) :
    Prop :=
  Rearranges input (attr.transform blob fresh input) (attr.generic fresh input)
    (attr.order.memoryOrder input.type.shape) input.type.dimsOrder attr.order.memoryOrder

/-- The quantized dimension stays one, and the dimensions with more than one slice are in memory
where they are in the shape. -/
def Transposable (attr : TransposeAttr) (type : NDType) : Prop :=
  validateQuantElemType
      (type.elemType.reshape type.shape (attr.order.memoryOrder type.shape))
      (attr.order.memoryOrder type.shape) ∧
    (0 ∈ type.shape ∨ ∀ d < type.getRank, type.shape.getD d 0 ≠ 1 → type.dimsOrder.dimPos d = d)

instance (attr : TransposeAttr) (type : NDType) : Decidable (attr.Transposable type) := by
  unfold Transposable
  infer_instance

end TransposeAttr

open DimsOrder NDType

section Rearrange

variable {blob : BlobCopy} {fresh : ℕ → Byte} {input : Content} {outType : NDType}
  {perm : DimsOrder}

variable (blob fresh) in
theorem memPermuteTransformation_rearranges (hbytes : ByteSized input)
    (hfits : Fits input outType perm) (place : List ℕ → List ℕ)
    (hplace : ∀ x, InBox input.type.shape x → outType.dimsOrder.memoryOrder (place x) =
      perm.memoryOrder (input.type.dimsOrder.memoryOrder x)) :
    Rearranges input (memPermuteTransformation blob fresh input outType perm.toPermutation)
      (genericTransformation fresh input outType perm.toPermutation) outType.shape
      outType.dimsOrder place := by
  obtain ⟨data, hresult, hgeneric, hrelocated⟩ :=
    memPermuteTransformation_relocates blob fresh hbytes hfits
  refine ⟨outType, data, hresult, hgeneric, rfl, rfl, fun x hx => ?_⟩
  have hout : ByteSized ⟨outType, input.storageElemType, data, false⟩ := by
    refine ⟨⟨rfl, ?_, hbytes.width⟩, hbytes.bytes⟩
    rw [hrelocated.length_eq, storageBytes_of_dvd hbytes.bytes, hfits.numElements]
    rfl
  have hmemory := DimsOrder.inBox_memoryOrder hx input.type.numDims_eq.symm
  rw [hout.element, hbytes.element]
  congr 1
  rw [Content.memIndex, hplace x hx]
  exact hrelocated.placed _ hmemory

theorem genericTransformation_places (hbytes : ByteSized input)
    (hrank : perm.numDims = input.type.getRank) {data : Buffer}
    (h : genericTransformation fresh input outType perm.toPermutation = .ok data) {k : List ℕ}
    (hk : InBox input.type.getMemShape k) :
    InBox outType.getMemShape (perm.memoryOrder k) ∧
      block input.elemBytes (rowMajor outType.getMemShape (perm.memoryOrder k)) data =
        block input.elemBytes (rowMajor input.type.getMemShape k) input.data := by
  have halgorithm : genericAlgorithm input.elemBytes input outType perm
      (Content.allocTempBuffer fresh outType input.storageElemType false).data = .ok data := by
    unfold genericTransformation at h
    rw [hbytes.notSplat, toByte_elemBytes hbytes, fromPermutation_toPermutation] at h
    exact h
  have hboxes : ∀ k, InBox input.type.getMemShape k →
      InBox outType.getMemShape (perm.memoryOrder k) :=
    fun k hk => inBox_of_genericAlgorithm halgorithm hk
  have hsize : (Content.allocTempBuffer fresh outType input.storageElemType false).data.length =
      outType.getMemShape.prod * input.elemBytes := by
    rw [length_allocTempBuffer, storageBytes_of_dvd hbytes.bytes, prod_getMemShape]
    rfl
  obtain ⟨data', hrun, hplaces⟩ := genericAlgorithm_places hbytes.elemBytes_pos hrank
    hbytes.length_data hsize hboxes
  obtain rfl : data' = data := Except.ok.inj (hrun.symm.trans halgorithm)
  exact ⟨hboxes k hk, hplaces.placed k hk⟩

end Rearrange

section Exact

variable {blob : BlobCopy} {fresh : ℕ → Byte} {input : Content} {type : NDType}

theorem ReorderAttr.inferOutputType_ok {attr : ReorderAttr}
    (horder : attr.order.numDims = type.getRank)
    (hbits : CHAR_BIT ≤ getElemTypeSize type.elemType) :
    attr.inferOutputType type =
      .ok ⟨type.shape, type.elemType, attr.order, horder, type.validQuant⟩ := by
  unfold inferOutputType
  rw [throwUnless, if_pos hbits, throwUnless, if_pos horder]
  exact (dif_pos horder).trans (dif_pos type.validQuant)

theorem ReorderAttr.keeps {attr : ReorderAttr} (hbytes : ByteSized input)
    (horder : attr.order.numDims = input.type.getRank)
    (hbits : CHAR_BIT ≤ getElemTypeSize input.type.elemType) : attr.Keeps blob fresh input := by
  have hdims : input.type.dimsOrder.numDims = attr.order.numDims :=
    input.type.numDims_eq.trans horder.symm
  have htype := inferOutputType_ok horder hbits
  generalize hout : (⟨input.type.shape, input.type.elemType, attr.order, horder,
    input.type.validQuant⟩ : NDType) = outType at htype
  have hshape : outType.shape = input.type.shape := by rw [← hout]
  have horder' : outType.dimsOrder = attr.order := by rw [← hout]
  have hfits : Fits input outType (input.type.dimsOrder.relative attr.order hdims) := by
    refine ⟨?_, ?_, ?_, fun _ => ?_⟩
    · rw [numDims_relative, horder]
    · rw [numDims_relative, horder, getRank, hshape, getRank]
    · rw [getNumElements, hshape, getNumElements]
    · rw [getMemShape, getMemShape, memoryOrder_relative, hshape, horder']
  have hrearranges := memPermuteTransformation_rearranges blob fresh hbytes hfits id fun x _ => by
    rw [horder', memoryOrder_relative, id]
  rw [hshape, horder'] at hrearranges
  unfold Keeps transform generic
  rw [htype]
  dsimp only [bind, Except.bind]
  rw [horder']
  exact hrearranges

theorem TransposeAttr.inferOutputType_eq {attr : TransposeAttr}
    (horder : attr.order.numDims = type.getRank)
    (hbits : CHAR_BIT ≤ getElemTypeSize type.elemType) :
    attr.inferOutputType type = getTensorType (attr.order.memoryOrder type.shape)
      (type.elemType.reshape type.shape (attr.order.memoryOrder type.shape)) type.dimsOrder := by
  have hshape : (List.range type.shape.length).map (fun idx =>
      type.shape.getD (attr.order.dimAt idx) 0) = attr.order.memoryOrder type.shape := by
    rw [memoryOrder, ← attr.order.map_dimAt_range, List.map_map, horder]
    rfl
  have hdims : type.dimsOrder.numDims = (attr.order.memoryOrder type.shape).length := by
    rw [length_memoryOrder, horder, type.numDims_eq]
    rfl
  unfold inferOutputType
  rw [throwUnless, if_pos hbits, throwUnless, if_pos horder]
  dsimp only [bind, Except.bind]
  rw [hshape, changeShape, reshapedOrder_eq hdims, throwUnless, if_pos hdims]
  rfl

theorem memoryOrder_eq_self (hplace : ∀ d < type.getRank, type.shape.getD d 0 ≠ 1 →
    type.dimsOrder.dimPos d = d) {values : List ℕ} (hlength : values.length = type.getRank)
    {value : ℕ} (hvalues : ∀ d < type.getRank, type.shape.getD d 0 = 1 →
      values.getD d 0 = value) : type.dimsOrder.memoryOrder values = values := by
  have hnum : type.dimsOrder.numDims = type.getRank := type.numDims_eq
  apply List.ext_getElem (by rw [length_memoryOrder, hnum, hlength])
  intro i hi hi'
  have hrank : i < type.getRank := hlength ▸ hi'
  have hat : type.dimsOrder.dimAt i < type.getRank :=
    hnum ▸ dimAt_lt (by rw [hnum]; exact hrank)
  have hpos : type.dimsOrder.dimPos (type.dimsOrder.dimAt i) = i :=
    dimPos_dimAt (hnum ▸ hrank)
  rw [getElem_memoryOrder, ← List.getD_eq_getElem values 0 hi']
  by_cases hone : type.shape.getD i 0 = 1
  · by_cases hone' : type.shape.getD (type.dimsOrder.dimAt i) 0 = 1
    · rw [hvalues _ hat hone', hvalues _ hrank hone]
    · rw [← hplace _ hat hone', hpos]
  · have hself := hplace i hrank hone
    have hdim : type.dimsOrder.dimAt i = i := by
      conv_lhs => rw [← hself]
      exact dimAt_dimPos (hnum ▸ hrank)
    rw [hdim]

theorem exists_byteSized (type : NDType) {storageElemType : ElemType}
    (hwidth : 0 < getElemTypeSize storageElemType)
    (hbyte : CHAR_BIT ∣ getElemTypeSize storageElemType) :
    ∃ input : Content, input.type = type ∧ input.storageElemType = storageElemType ∧
      ByteSized input := by
  refine ⟨⟨type, storageElemType, List.replicate
    (Content.storageBytes storageElemType type.getNumElements) 0, false⟩, rfl, rfl, ?_⟩
  exact ⟨⟨rfl, List.length_replicate, .inr ⟨hwidth, hbyte⟩⟩, hbyte⟩

/-- A content with a single element whose bits are set. -/
def markedContent (type : NDType) (storageElemType : ElemType) (x : List ℕ) : Content where
  type := type
  storageElemType := storageElemType
  data :=
    let size := getElemTypeSize storageElemType / CHAR_BIT
    markBlock size type.getNumElements
      (rowMajor type.getMemShape (type.dimsOrder.memoryOrder x)) (List.replicate size 0)
      (List.replicate size 0xFF)
  isSplat := false

section Marked

variable {storageElemType : ElemType} (hwidth : 0 < getElemTypeSize storageElemType)
  (hbyte : CHAR_BIT ∣ getElemTypeSize storageElemType) {x : List ℕ} (hx : InBox type.shape x)
include hwidth hbyte hx

theorem markedContent_byteSized : ByteSized (markedContent type storageElemType x) := by
  refine ⟨⟨rfl, ?_, .inr ⟨hwidth, hbyte⟩⟩, hbyte⟩
  refine Eq.trans ?_ (storageBytes_of_dvd hbyte type.getNumElements).symm
  exact length_markBlock List.length_replicate List.length_replicate (memIndex_lt hx)

theorem eq_of_markedContent {y : List ℕ} (hy : InBox type.shape y)
    (h : (markedContent type storageElemType x).element y =
      (markedContent type storageElemType x).element x) : y = x := by
  have hsize := elemSize_pos hwidth hbyte
  have hmarked := markedContent_byteSized hwidth hbyte hx
  rw [hmarked.element, hmarked.element] at h
  by_contra hne
  have hindex := fun heq => hne (memIndex_injective hy hx heq)
  have hself : block _ _ (markedContent type storageElemType x).data = _ :=
    block_markBlock_self List.length_replicate List.length_replicate (memIndex_lt hx)
  have hother : block _ _ (markedContent type storageElemType x).data = _ :=
    block_markBlock_ne List.length_replicate List.length_replicate (memIndex_lt hx)
      (memIndex_lt hy) hindex
  have hbytes := hself.symm.trans ((Element.bytes.inj h).symm.trans hother)
  have hones := congrArg (·[0]?) hbytes
  simp [hsize] at hones

end Marked

section Transpose

variable {attr : TransposeAttr} (horder : attr.order.numDims = type.getRank)
include horder

theorem numDims_transposed : type.dimsOrder.numDims = attr.order.numDims :=
  type.numDims_eq.trans horder.symm

theorem numDims_memoryOrder :
    type.dimsOrder.numDims = (attr.order.memoryOrder type.shape).length := by
  rw [length_memoryOrder, numDims_transposed horder]

omit horder in
theorem TransposeAttr.transposes (horder : attr.order.numDims = input.type.getRank)
    (hbytes : ByteSized input) (hbits : CHAR_BIT ≤ getElemTypeSize input.type.elemType)
    (h : attr.Transposable input.type) : attr.Transposes blob fresh input := by
  obtain ⟨hquant, hplaces⟩ := h
  have hdims := numDims_transposed horder
  have htype := inferOutputType_eq horder hbits
  rw [getTensorType, dif_pos (numDims_memoryOrder horder), dif_pos hquant] at htype
  generalize hout : (⟨attr.order.memoryOrder input.type.shape, _, input.type.dimsOrder,
    numDims_memoryOrder horder, hquant⟩ : NDType) = outType at htype
  have hshape : outType.shape = attr.order.memoryOrder input.type.shape := by rw [← hout]
  have horder' : outType.dimsOrder = input.type.dimsOrder := by rw [← hout]
  have hlength : input.type.shape.length = attr.order.numDims := horder.symm
  have hself : 0 < input.type.getNumElements → ∀ values : List ℕ,
      values.length = input.type.getRank → ∀ value, (∀ d < input.type.getRank,
        input.type.shape.getD d 0 = 1 → values.getD d 0 = value) →
      input.type.dimsOrder.memoryOrder values = values := by
    intro hpos values hvalues value hones
    refine memoryOrder_eq_self (hplaces.resolve_left fun hzero => ?_) hvalues hones
    exact absurd (List.prod_eq_zero_iff.mpr hzero) hpos.ne'
  have hfits : Fits input outType (input.type.dimsOrder.compose attr.order hdims) := by
    refine ⟨?_, ?_, ?_, fun hpos => ?_⟩
    · rw [numDims_compose, hdims, horder]
    · rw [numDims_compose, getRank, hshape, length_memoryOrder, hdims]
    · rw [getNumElements, hshape, prod_memoryOrder hlength, getNumElements]
    · rw [getMemShape, getMemShape, hshape, horder', memoryOrder_compose,
        hself hpos _ rfl 1 fun d _ hd => hd]
  have hrearranges := memPermuteTransformation_rearranges blob fresh hbytes hfits
    attr.order.memoryOrder fun x hx => by
      have hzero : ∀ d < input.type.getRank, input.type.shape.getD d 0 = 1 → x.getD d 0 = 0 := by
        intro d hd hone
        have hlt := InBox.getD_lt hx hd
        omega
      rw [horder', memoryOrder_compose, hself hx.prod_pos x hx.length_eq 0 hzero]
  rw [hshape, horder'] at hrearranges
  unfold Transposes transform generic
  rw [htype]
  exact hrearranges

omit horder in
theorem TransposeAttr.validQuant_of_transposes (horder : attr.order.numDims = input.type.getRank)
    (hbits : CHAR_BIT ≤ getElemTypeSize input.type.elemType)
    (h : attr.Transposes blob fresh input) : validateQuantElemType
      (input.type.elemType.reshape input.type.shape (attr.order.memoryOrder input.type.shape))
      (attr.order.memoryOrder input.type.shape) := by
  obtain ⟨outType, data, -, hgeneric, -⟩ := h
  unfold generic at hgeneric
  obtain ⟨outType', htype, -⟩ := bind_eq_ok.mp hgeneric
  rw [inferOutputType_eq horder hbits] at htype
  have hvalid := outType'.validQuant
  obtain ⟨hshape, helem, -⟩ := getTensorType_shape htype
  rwa [hshape, helem] at hvalid

theorem exists_memoryOrder {y : List ℕ} (hy : InBox (type.dimsOrder.memoryOrder
    (attr.order.memoryOrder type.shape)) y) :
    ∃ x, InBox type.shape x ∧ type.dimsOrder.memoryOrder (attr.order.memoryOrder x) = y := by
  have hlogical := inBox_logicalOrder hy (numDims_memoryOrder horder).symm
  refine ⟨_, inBox_logicalOrder hlogical horder.symm, ?_⟩
  rw [memoryOrder_logicalOrder
      (hlogical.length_eq.trans (length_memoryOrder _ _)),
    memoryOrder_logicalOrder (hy.length_eq.trans (length_memoryOrder _ _))]

omit horder in
/-- An element unlike all others shows where the generic algorithm has put it. -/
theorem TransposeAttr.memoryOrder_of_transposes (horder : attr.order.numDims = input.type.getRank)
    (hbytes : ByteSized input) (hbits : CHAR_BIT ≤ getElemTypeSize input.type.elemType)
    {x : List ℕ} (hx : InBox input.type.shape x)
    (hunique : ∀ y, InBox input.type.shape y → input.element y = input.element x → y = x)
    (h : attr.Transposes blob fresh input) : input.type.dimsOrder.memoryOrder x = x := by
  have hdims := numDims_transposed horder
  obtain ⟨outType, data, -, hgeneric, hshape, hout, helements⟩ := h
  unfold generic at hgeneric
  obtain ⟨outType', htype, hgeneric⟩ := bind_eq_ok.mp hgeneric
  rw [inferOutputType_eq horder hbits] at htype
  obtain ⟨hshape', -, hout'⟩ := getTensorType_shape htype
  have hmem : outType'.getMemShape = input.type.dimsOrder.memoryOrder
      (attr.order.memoryOrder input.type.shape) := by
    rw [getMemShape, hshape', hout']
  have hrank : (input.type.dimsOrder.compose attr.order hdims).numDims = input.type.getRank :=
    (numDims_compose hdims).trans input.type.numDims_eq
  obtain ⟨hplace, hplaced⟩ := genericTransformation_places hbytes hrank hgeneric
    (inBox_memoryOrder hx input.type.numDims_eq.symm)
  rw [hmem, memoryOrder_compose] at hplace hplaced
  obtain ⟨z, hz, hplace⟩ := exists_memoryOrder horder hplace
  -- the element that the output has there is this one
  have helement := helements z hz
  have hbit : getElemTypeSize input.storageElemType ≠ 1 := by
    intro hone
    have hbyte := hbytes.bytes
    rw [hone] at hbyte
    exact absurd hbyte (by decide)
  have hzx : z = x := by
    refine hunique z hz ?_
    have hsplat : Content.isSplat ⟨outType, input.storageElemType, data, false⟩ = false := rfl
    rw [← helement, element_of_bytes hsplat hbit, memIndex_eq hshape hout, hplace, hbytes.element]
    exact congrArg Element.bytes hplaced
  rw [hzx] at hplace
  have hmemory : (attr.order.memoryOrder x).length = input.type.dimsOrder.numDims := by
    rw [length_memoryOrder, hdims]
  have hmemory' : (attr.order.memoryOrder (input.type.dimsOrder.memoryOrder x)).length =
      input.type.dimsOrder.numDims := by
    rw [length_memoryOrder, hdims]
  refine attr.order.memoryOrder_injective ?_ ?_
    (input.type.dimsOrder.memoryOrder_injective hmemory' hmemory hplace.symm)
  · rw [length_memoryOrder, hdims]
  · rw [hx.length_eq, horder]
    rfl

end Transpose

theorem dimPos_eq_of_memoryOrder (hpos : 0 ∉ type.shape)
    (h : ∀ x, InBox type.shape x → type.dimsOrder.memoryOrder x = x) {d : ℕ}
    (hd : d < type.shape.length) (hone : type.shape.getD d 0 ≠ 1) :
    type.dimsOrder.dimPos d = d := by
  have hsizes : ∀ size ∈ type.shape, 0 < size := fun size hsize =>
    Nat.pos_of_ne_zero fun hzero => hpos (hzero ▸ hsize)
  have hsize : 0 < type.shape.getD d 0 := by
    rw [List.getD_eq_getElem _ _ hd]
    exact hsizes _ (List.getElem_mem hd)
  have hnum : d < type.dimsOrder.numDims := type.numDims_eq ▸ hd
  have hvalue := memoryOrder_getD (unitPoint type.shape.length d) hnum
  rw [h _ (inBox_unitPoint hsizes hd (by omega)), getD_unitPoint hd, getD_unitPoint hd,
    if_pos rfl] at hvalue
  by_contra hne
  rw [if_neg hne] at hvalue
  exact absurd hvalue (by decide)

/-- A content can be reordered and transposed when the dimensions with more than one slice are in
memory where they are in the shape, and only then. -/
theorem reorders_transposes_iff {storageElemType : ElemType} (blob : BlobCopy)
    (fresh : ℕ → Byte) (reorder : ReorderAttr) (transpose : TransposeAttr)
    (hreorder : reorder.order.numDims = type.getRank)
    (htranspose : transpose.order.numDims = type.getRank)
    (hbits : CHAR_BIT ≤ getElemTypeSize type.elemType)
    (hwidth : 0 < getElemTypeSize storageElemType)
    (hbyte : CHAR_BIT ∣ getElemTypeSize storageElemType) :
    (∀ input : Content, input.type = type → input.storageElemType = storageElemType →
      ByteSized input → reorder.Keeps blob fresh input ∧ transpose.Transposes blob fresh input) ↔
      transpose.Transposable type := by
  constructor
  · intro h
    refine ⟨?_, ?_⟩
    · obtain ⟨input, htype, hstorage, hbytes⟩ := exists_byteSized type hwidth hbyte
      have htransposes := (h input htype hstorage hbytes).2
      subst htype
      exact TransposeAttr.validQuant_of_transposes htranspose hbits htransposes
    · by_cases hzero : 0 ∈ type.shape
      · exact .inl hzero
      · refine .inr fun d hd hone => dimPos_eq_of_memoryOrder hzero (fun x hx => ?_) hd hone
        have hmarked := markedContent_byteSized hwidth hbyte hx
        exact TransposeAttr.memoryOrder_of_transposes htranspose hmarked hbits hx
          (fun y hy heq => eq_of_markedContent hwidth hbyte hx hy heq)
          (h _ rfl rfl hmarked).2
  · rintro h input rfl rfl hbytes
    exact ⟨ReorderAttr.keeps hbytes hreorder hbits,
      TransposeAttr.transposes htranspose hbytes hbits h⟩

end Exact

/-- A copy that writes element after element. -/
def BlobCopy.byElement : BlobCopy where
  copy size shape layout inBuf outBuf := .ok (writeBlocks size
    (fun n => rowMajor (layout.memoryOrder shape) (layout.memoryOrder (pointAt shape n)))
    (fun n => block size n inBuf) (List.range shape.prod) outBuf)
  copies := by
    intro size shape layout inBuf outBuf hsize hrank hin hout
    have hprod : (layout.memoryOrder shape).prod = shape.prod := DimsOrder.prod_memoryOrder hrank
    have hpoint : ∀ n ∈ List.range shape.prod, InBox shape (pointAt shape n) := fun n hn =>
      inBox_pointAt (Nat.zero_lt_of_lt (List.mem_range.mp hn)) n
    have hval : ∀ n ∈ List.range shape.prod, (block size n inBuf).length = size := fun n hn =>
      length_block_of_lt hin (List.mem_range.mp hn)
    have hdst : ∀ n ∈ List.range shape.prod, rowMajor (layout.memoryOrder shape)
        (layout.memoryOrder (pointAt shape n)) < shape.prod := fun n hn =>
      hprod ▸ rowMajor_lt (DimsOrder.inBox_memoryOrder (hpoint n hn) hrank)
    refine ⟨_, rfl, ?_, fun x hx => ?_⟩
    · rw [length_writeBlocks hout hval hdst, hout]
    · have hblock := block_writeBlocks hout hval hdst ?_ (List.mem_range.mpr (rowMajor_lt hx))
      · rwa [pointAt_rowMajor hx] at hblock
      · intro n hn n' hn' heq
        have hmemory := rowMajor_injective (DimsOrder.inBox_memoryOrder (hpoint n hn) hrank)
          (DimsOrder.inBox_memoryOrder (hpoint n' hn') hrank) heq
        have hsame := layout.memoryOrder_injective ((hpoint n hn).length_eq.trans hrank)
          ((hpoint n' hn').length_eq.trans hrank) hmemory
        rw [← rowMajor_pointAt (List.mem_range.mp hn), hsame,
          rowMajor_pointAt (List.mem_range.mp hn')]

/-- Weights with their channels last in memory. -/
def channelsLastWeights : Content where
  type := ⟨[2, 2, 2, 2], .integer 8 .Unsigned, DimsOrder.NHWC, rfl, trivial⟩
  storageElemType := .integer 8 .Unsigned
  data := (List.range 16).map (BitVec.ofNat 8)
  isSplat := false

/-- The input channels and the output channels, exchanged. -/
def exchangeChannels : TransposeAttr := ⟨⟨[1, 0, 2, 3], by decide⟩⟩

theorem not_transposes_channelsLast :
    ¬exchangeChannels.Transposes BlobCopy.byElement (fun _ => 0) channelsLastWeights := by
  intro h
  have hbytes : ByteSized channelsLastWeights :=
    ⟨⟨rfl, by decide, .inr ⟨by decide, by decide⟩⟩, by decide⟩
  have hpoints : ∀ n < 16, channelsLastWeights.element (pointAt [2, 2, 2, 2] n) =
      channelsLastWeights.element [0, 0, 0, 1] → pointAt [2, 2, 2, 2] n = [0, 0, 0, 1] := by
    decide
  have hunique : ∀ y, InBox [2, 2, 2, 2] y → channelsLastWeights.element y =
      channelsLastWeights.element [0, 0, 0, 1] → y = [0, 0, 0, 1] := by
    intro y hy heq
    rw [← pointAt_rowMajor hy] at heq ⊢
    exact hpoints _ (rowMajor_lt hy) heq
  have hmoved := TransposeAttr.memoryOrder_of_transposes rfl hbytes (by decide)
    (show InBox channelsLastWeights.type.shape [0, 0, 0, 1] by simp [channelsLastWeights])
    hunique h
  exact absurd hmoved (by decide)

/-- Weights with their dimensions in the default order. -/
def plainWeights : Content where
  type := ⟨[2, 2, 1, 3], .integer 8 .Unsigned, DimsOrder.fromNumDims 4, rfl, trivial⟩
  storageElemType := .integer 8 .Unsigned
  data := (List.range 12).map (BitVec.ofNat 8)
  isSplat := false

theorem reorders_transposes_plain :
    ReorderAttr.Keeps BlobCopy.byElement (fun _ => 0) ⟨DimsOrder.NHWC⟩ plainWeights ∧
      exchangeChannels.Transposes BlobCopy.byElement (fun _ => 0) plainWeights :=
  (reorders_transposes_iff BlobCopy.byElement (fun _ => 0) ⟨DimsOrder.NHWC⟩ exchangeChannels
    rfl rfl (by decide) (by decide) (by decide)).mpr (by decide) plainWeights rfl rfl
    ⟨⟨rfl, by decide, .inr ⟨by decide, by decide⟩⟩, by decide⟩

end Vpux.Const
