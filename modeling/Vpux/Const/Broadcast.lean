import Vpux.Const.Loops

/-! A constant repeated along one axis. -/
namespace Vpux.Const
open Data

structure BroadcastAttr where
  axis : ℕ
  value : ℕ
  deriving DecidableEq, Repr

namespace BroadcastAttr

/-- The added size along the axis, and none along the other dimensions. -/
def padAfter (attr : BroadcastAttr) (inShape : List ℕ) : List ℕ :=
  (List.replicate inShape.length 0).set attr.axis (attr.value - inShape.getD attr.axis 0)

def inferOutputType (attr : BroadcastAttr) (input : NDType) : Except Fault NDType := do
  throwUnless (CHAR_BIT ≤ getElemTypeSize input.elemType) "Got sub-byte input in BroadcastAttr"
  let inShape := input.shape
  throwUnless (inShape.getD attr.axis 0 ≤ attr.value)
    "Value cannot be broadcasted due to new value's size is less than old one"
  input.pad (List.replicate inShape.length 0) (attr.padAfter inShape)

def transformDense (attr : BroadcastAttr) (input output : Content) : Except Fault Buffer := do
  let physicalShape := input.type.getMemShape
  let index := input.type.dimsOrder.dimPos attr.axis
  let preDims := (physicalShape.take index).prod
  let expandDim := physicalShape.getD index 0
  let afterDims := (physicalShape.drop index).prod
  throwUnless (attr.value % expandDim = 0) "Can't broadcast"
  let factor := attr.value / expandDim
  let elemSize ← toByte (getElemTypeSize input.storageElemType)
  let singleCopySize := afterDims * elemSize
  loop_2d preDims factor (fun preIndex factorIndex =>
    let inOffset := preIndex * afterDims * elemSize
    let outBase := singleCopySize * preIndex * factor
    copy_n input.data inOffset singleCopySize (outBase + singleCopySize * factorIndex)) output.data

def transform (fresh : ℕ → Byte) (attr : BroadcastAttr) (input : Content) :
    Except Fault Content := do
  let outputType ← attr.inferOutputType input.type
  let output := Content.allocTempBuffer fresh outputType input.storageElemType input.isSplat
  let data ← if input.isSplat then copy_n input.data 0 input.data.length 0 output.data
    else attr.transformDense input output
  .ok { output with data := data }

variable {attr : BroadcastAttr} {input : Content}

/-- The axis exists, and the new size is a multiple of the old one. -/
structure Legal (attr : BroadcastAttr) (input : NDType) (storageElemType : ElemType) : Prop where
  axis_lt : attr.axis < input.shape.length
  value_pos : 0 < attr.value
  multiple : input.shape.getD attr.axis 0 ∣ attr.value
  width : CHAR_BIT ≤ getElemTypeSize input.elemType
  stored : 0 < getElemTypeSize storageElemType ∧ CHAR_BIT ∣ getElemTypeSize storageElemType
  expandable : Expandable input.elemType (List.replicate input.shape.length 0)
    (attr.padAfter input.shape)

theorem length_padAfter (shape : List ℕ) : (attr.padAfter shape).length = shape.length := by
  simp [padAfter]

theorem paddedShape_eq {shape : List ℕ} (hle : shape.getD attr.axis 0 ≤ attr.value) :
    paddedShape shape (List.replicate shape.length 0) (attr.padAfter shape) =
      shape.set attr.axis attr.value := by
  apply List.ext_getElem (by simp [paddedShape, shift, length_padAfter])
  intro d hd hd'
  have hlt : d < shape.length := by simpa using hd'
  simp only [paddedShape, shift, List.getElem_zipWith, List.getElem_replicate, padAfter,
    List.getElem_set]
  split_ifs with haxis
  · subst haxis
    have hvalue := List.getD_eq_getElem shape 0 hlt
    omega
  · rfl

theorem inferOutputType_ok {type : NDType} {storageElemType : ElemType}
    (h : attr.Legal type storageElemType) :
    ∃ outputType, attr.inferOutputType type = .ok outputType ∧
      outputType.shape = type.shape.set attr.axis attr.value ∧
      outputType.dimsOrder = type.dimsOrder := by
  have hle : type.shape.getD attr.axis 0 ≤ attr.value := Nat.le_of_dvd h.value_pos h.multiple
  obtain ⟨outputType, hpad, hshape, horder, _⟩ :=
    NDType.pad_ok List.length_replicate (length_padAfter type.shape) h.expandable
  refine ⟨outputType, ?_, hshape.trans (paddedShape_eq hle), horder⟩
  rw [inferOutputType, throwUnless, if_pos h.width]
  change (throwUnless (type.shape.getD attr.axis 0 ≤ attr.value) _ >>= _ : Except Fault NDType) = _
  rw [throwUnless, if_pos hle]
  exact hpad

section Repeat

variable {w preDims factor afterDims : ℕ} {inBuf outBuf : Buffer}

theorem repeat_places (hin : inBuf.length = preDims * (afterDims * w))
    (hout : outBuf.length = preDims * factor * (afterDims * w)) :
    ∃ data, loop_2d preDims factor (fun preIndex factorIndex =>
        copy_n inBuf (preIndex * afterDims * w) (afterDims * w)
          (afterDims * w * preIndex * factor + afterDims * w * factorIndex)) outBuf = .ok data ∧
      data.length = preDims * factor * (afterDims * w) ∧
      ∀ i < preDims, ∀ f < factor,
        block (afterDims * w) (i * factor + f) data = block (afterDims * w) i inBuf := by
  have hfirst : ∀ k, InBox [preDims, factor] k → k.getD 0 0 < preDims := by
    intro k hk
    match k, hk with
    | i :: k, hk => exact (inBox_cons.mp hk).1
  have houtBuf : outBuf.length = [preDims, factor].prod * (afterDims * w) := by
    simpa using hout
  obtain ⟨data, hrun, hplaces⟩ : ∃ data, loop_2d preDims factor (fun preIndex factorIndex =>
      copy_n inBuf (preIndex * afterDims * w) (afterDims * w)
        (afterDims * w * preIndex * factor + afterDims * w * factorIndex)) outBuf = .ok data ∧
      Places (afterDims * w) [preDims, factor] [preDims, factor] id
        (fun k => block (afterDims * w) (k.getD 0 0) inBuf) outBuf data := by
    refine Places.of_loop (enumerates_two preDims factor) houtBuf
      (fun k hk => length_block_of_lt hin (hfirst k hk)) (fun k hk => hk) (fun k k' _ _ h => h) ?_
    intro j hj buf _
    have hlt : j.1 < preDims := hfirst [j.1, j.2]
        ((enumerates_two preDims factor _).mpr ⟨j, hj, rfl⟩)
    have hpos : afterDims * w * j.1 * factor + afterDims * w * j.2 =
        rowMajor [preDims, factor] [j.1, j.2] * (afterDims * w) := by
      simp only [rowMajor, List.prod_cons, List.prod_nil]
      ring
    dsimp only
    rw [Nat.mul_assoc j.1, hpos, copy_n_block hin hlt]
    rfl
  refine ⟨data, hrun, by simpa using hplaces.length_eq, fun i hi f hf => ?_⟩
  have hplaced := hplaces.placed [i, f] (by simp [hi, hf])
  simpa [rowMajor] using hplaced

end Repeat

section Position

variable {memShape point : List ℕ} {index value : ℕ}

variable (hindex : index < memShape.length)
include hindex

theorem inBox_set (h : InBox (memShape.set index value) point) :
    rowMajor (memShape.take index) (point.take index) < (memShape.take index).prod ∧
      point.getD index 0 < value ∧
      rowMajor (memShape.drop (index + 1)) (point.drop (index + 1)) <
        (memShape.drop (index + 1)).prod := by
  have hbefore : InBox (memShape.take index) (point.take index) := by
    have htake := List.forall₂_take index h
    rwa [List.take_set_of_le (Nat.le_refl index)] at htake
  have hafter : InBox (memShape.drop (index + 1)) (point.drop (index + 1)) := by
    have hdrop := List.forall₂_drop (index + 1) h
    rwa [List.drop_set_of_lt (Nat.lt_succ_self index)] at hdrop
  have hset : index < (memShape.set index value).length := by simpa using hindex
  have hpoint : index < point.length := h.length_eq ▸ hset
  refine ⟨rowMajor_lt hbefore, ?_, rowMajor_lt hafter⟩
  have hlt := h.getElem_lt hpoint hset
  rwa [List.getElem_set_self, ← List.getD_eq_getElem _ 0] at hlt

/-- A point of the larger box lies in the copy of the part of the small one with its coordinate
modulo the old size. -/
theorem rowMajor_repeat {size factor : ℕ} (hsize : memShape.getD index 0 = size)
    (hvalue : value = size * factor) (hpoint : point.length = memShape.length) (a : ℕ)
    (ha : point.getD index 0 = a) :
    rowMajor (memShape.set index value) point =
        (rowMajor (memShape.take index) (point.take index) * factor + a / size) *
          (memShape.drop index).prod +
        (a % size * (memShape.drop (index + 1)).prod +
          rowMajor (memShape.drop (index + 1)) (point.drop (index + 1))) ∧
      rowMajor memShape (point.set index (a % size)) =
        rowMajor (memShape.take index) (point.take index) * (memShape.drop index).prod +
        (a % size * (memShape.drop (index + 1)).prod +
          rowMajor (memShape.drop (index + 1)) (point.drop (index + 1))) := by
  have hdrop : (memShape.drop index).prod = size * (memShape.drop (index + 1)).prod := by
    rw [List.drop_eq_getElem_cons hindex, List.prod_cons, ← List.getD_eq_getElem _ 0, hsize]
  have hself : point.set index a = point := by
    rw [← ha, List.getD_eq_getElem _ _ (hpoint ▸ hindex), List.set_getElem_self]
  have hself' : memShape.set index size = memShape := by
    rw [← hsize, List.getD_eq_getElem _ _ hindex, List.set_getElem_self]
  constructor
  · have hout := rowMajor_set hindex hpoint value a
    have hdiv : a = size * (a / size) + a % size := (Nat.div_add_mod a size).symm
    rw [hself] at hout
    rw [hout, hdrop, hvalue]
    calc (rowMajor (memShape.take index) (point.take index) * (size * factor) + a) *
          (memShape.drop (index + 1)).prod +
          rowMajor (memShape.drop (index + 1)) (point.drop (index + 1))
        = (rowMajor (memShape.take index) (point.take index) * (size * factor) +
            (size * (a / size) + a % size)) * (memShape.drop (index + 1)).prod +
          rowMajor (memShape.drop (index + 1)) (point.drop (index + 1)) := by rw [← hdiv]
      _ = _ := by ring
  · have hin := rowMajor_set hindex hpoint size (a % size)
    rw [hself'] at hin
    rw [hin, hdrop]
    ring

theorem prod_set {size factor : ℕ} (hsize : memShape.getD index 0 = size)
    (hvalue : value = size * factor) :
    (memShape.set index value).prod =
      (memShape.take index).prod * factor * (memShape.drop index).prod := by
  have hdrop : (memShape.drop index).prod = size * (memShape.drop (index + 1)).prod := by
    rw [List.drop_eq_getElem_cons hindex, List.prod_cons, ← List.getD_eq_getElem _ 0, hsize]
  rw [List.set_eq_take_append_cons_drop, if_pos hindex, List.prod_append, List.prod_cons, hdrop,
    hvalue]
  ring

theorem repeat_blocks {w size factor : ℕ} {inBuf outBuf : Buffer}
    (hsize : memShape.getD index 0 = size) (hpos : 0 < size) (hvalue : value = size * factor)
    (hin : inBuf.length = memShape.prod * w)
    (hout : outBuf.length = (memShape.set index value).prod * w) :
    ∃ data, loop_2d (memShape.take index).prod factor (fun preIndex factorIndex =>
        copy_n inBuf (preIndex * (memShape.drop index).prod * w) ((memShape.drop index).prod * w)
          ((memShape.drop index).prod * w * preIndex * factor +
            (memShape.drop index).prod * w * factorIndex)) outBuf = .ok data ∧
      data.length = outBuf.length ∧
      ∀ k, InBox (memShape.set index value) k →
        block w (rowMajor (memShape.set index value) k) data =
          block w (rowMajor memShape (k.set index (k.getD index 0 % size))) inBuf := by
  have hprod := prod_set hindex hsize hvalue
  have hdrop : (memShape.drop index).prod = size * (memShape.drop (index + 1)).prod := by
    rw [List.drop_eq_getElem_cons hindex, List.prod_cons, ← List.getD_eq_getElem _ 0, hsize]
  have hin' : inBuf.length =
      (memShape.take index).prod * ((memShape.drop index).prod * w) := by
    rw [hin, ← List.prod_take_mul_prod_drop memShape index, Nat.mul_assoc]
  have hout' : outBuf.length =
      (memShape.take index).prod * factor * ((memShape.drop index).prod * w) := by
    rw [hout, hprod, Nat.mul_assoc]
  obtain ⟨data, hrun, hlength, hblocks⟩ := repeat_places hin' hout'
  refine ⟨data, hrun, hlength.trans hout'.symm, fun k hk => ?_⟩
  obtain ⟨hbefore, hcoord, hafter⟩ := inBox_set hindex hk
  have hlength : k.length = memShape.length := by simpa using hk.length_eq
  obtain ⟨houtPos, hinPos⟩ := rowMajor_repeat hindex hsize hvalue hlength _ rfl
  have hcopy : k.getD index 0 / size < factor := by
    rw [Nat.div_lt_iff_lt_mul hpos, Nat.mul_comm, ← hvalue]
    exact hcoord
  have hinner : k.getD index 0 % size * (memShape.drop (index + 1)).prod +
      rowMajor (memShape.drop (index + 1)) (k.drop (index + 1)) <
      (memShape.drop index).prod := by
    have hle := Nat.mul_le_mul_right (memShape.drop (index + 1)).prod
      (Nat.succ_le_of_lt (Nat.mod_lt (k.getD index 0) hpos))
    rw [Nat.succ_mul] at hle
    omega
  rw [houtPos, hinPos, ← block_block hinner, ← block_block hinner,
    hblocks _ hbefore _ hcopy]

end Position

section Transform

/-- Along the axis the input's elements repeat. -/
def source (attr : BroadcastAttr) (shape x : List ℕ) : List ℕ :=
  x.set attr.axis (x.getD attr.axis 0 % shape.getD attr.axis 0)

open DimsOrder

theorem transformDense_element {output : Content}
    (hlegal : attr.Legal input.type input.storageElemType) (hdense : input.Dense)
    (hshape : output.type.shape = input.type.shape.set attr.axis attr.value)
    (horder : output.type.dimsOrder = input.type.dimsOrder) (hsplat : output.isSplat = false)
    (hstorage : output.storageElemType = input.storageElemType)
    (hbuf : output.data.length =
      Content.storageBytes input.storageElemType output.type.getNumElements) :
    ∃ data, attr.transformDense input output = .ok data ∧ data.length = output.data.length ∧
      ∀ x, InBox output.type.shape x → { output with data := data }.element x =
        input.element (attr.source input.type.shape x) := by
  obtain ⟨hbits, hdvd⟩ := hlegal.stored
  have hone : getElemTypeSize input.storageElemType ≠ 1 := by
    intro hone
    rw [hone] at hdvd
    exact absurd hdvd (by decide)
  obtain ⟨factor, hvalue⟩ := hlegal.multiple
  have hnum : input.type.shape.length = input.type.dimsOrder.numDims := input.type.numDims_eq.symm
  have haxis : attr.axis < input.type.dimsOrder.numDims := hnum ▸ hlegal.axis_lt
  have hsize := memoryOrder_getD input.type.shape haxis
  have hpos : 0 < input.type.shape.getD attr.axis 0 :=
    Nat.pos_of_dvd_of_pos hlegal.multiple hlegal.value_pos
  have houtShape : input.type.dimsOrder.memoryOrder output.type.shape =
      input.type.getMemShape.set (input.type.dimsOrder.dimPos attr.axis) attr.value := by
    rw [hshape, memoryOrder_set hnum haxis, NDType.getMemShape]
  have hindex : input.type.dimsOrder.dimPos attr.axis < input.type.getMemShape.length := by
    rw [NDType.getMemShape, length_memoryOrder]
    exact dimPos_lt haxis
  obtain ⟨data, hrun, hlength, hblocks⟩ := repeat_blocks hindex hsize hpos hvalue
    (by rw [hdense.stored, storageBytes_of_dvd hdvd, NDType.prod_getMemShape])
    (by rw [hbuf, storageBytes_of_dvd hdvd, ← houtShape, ← NDType.prod_getMemShape,
      NDType.getMemShape, horder])
  refine ⟨data, ?_, hlength, fun x hx => ?_⟩
  · have hdim : input.type.getMemShape.getD (input.type.dimsOrder.dimPos attr.axis) 0 =
        input.type.shape.getD attr.axis 0 := hsize
    have hmod : attr.value % input.type.shape.getD attr.axis 0 = 0 := by
      rw [hvalue, Nat.mul_mod_right]
    have hdiv : attr.value / input.type.shape.getD attr.axis 0 = factor := by
      rw [hvalue, Nat.mul_div_cancel_left _ hpos]
    rw [← hrun]
    simp only [transformDense, hdim, hmod, hdiv, throwUnless, if_pos, toByte_of_dvd hdvd, bind,
      Except.bind]
  · have hsplat' : { output with data := data }.isSplat = false := hsplat
    have hx' : x.length = input.type.dimsOrder.numDims := by
      rw [hx.length_eq, output.type.numDims_eq.symm, horder]
    have hmem := inBox_memoryOrder hx output.type.numDims_eq.symm
    rw [horder, houtShape] at hmem
    rw [element_of_bytes hdense.notSplat hone, element_of_bytes hsplat' (hstorage ▸ hone),
      hstorage]
    have hinPos : input.memIndex (attr.source input.type.shape x) =
        rowMajor input.type.getMemShape ((input.type.dimsOrder.memoryOrder x).set
          (input.type.dimsOrder.dimPos attr.axis)
          ((input.type.dimsOrder.memoryOrder x).getD (input.type.dimsOrder.dimPos attr.axis) 0 %
            input.type.shape.getD attr.axis 0)) := by
      rw [Content.memIndex, source, memoryOrder_set hx' haxis, memoryOrder_getD _ haxis]
    have houtPos : output.memIndex x = rowMajor (input.type.getMemShape.set
        (input.type.dimsOrder.dimPos attr.axis) attr.value)
        (input.type.dimsOrder.memoryOrder x) := by
      rw [memIndex_eq rfl horder, houtShape]
    rw [hinPos, ← hblocks _ hmem, ← houtPos]
    rfl

theorem transform_element (fresh : ℕ → Byte) (hdense : input.Dense)
    (hlegal : attr.Legal input.type input.storageElemType) :
    ∃ output, attr.transform fresh input = .ok output ∧
      output.type.shape = input.type.shape.set attr.axis attr.value ∧
      output.type.dimsOrder = input.type.dimsOrder ∧ output.Dense ∧
      ∀ x, InBox output.type.shape x →
        output.element x = input.element (attr.source input.type.shape x) := by
  obtain ⟨type, htype, hshape, horder⟩ := inferOutputType_ok hlegal
  let output := Content.allocTempBuffer fresh type input.storageElemType false
  have hbuf : output.data.length =
      Content.storageBytes input.storageElemType output.type.getNumElements :=
    length_allocTempBuffer fresh type input.storageElemType
  obtain ⟨data, hdata, hlength, helement⟩ :=
    transformDense_element hlegal hdense (show output.type.shape = _ from hshape) horder
      rfl rfl hbuf
  refine ⟨{ output with data := data }, ?_, hshape, horder,
    ⟨rfl, hlength.trans hbuf, hdense.width⟩, helement⟩
  rw [transform, htype, hdense.notSplat]
  change (attr.transformDense input output >>= _ : Except Fault Content) = _
  rw [hdata]
  rfl

end Transform

end BroadcastAttr

end Vpux.Const
