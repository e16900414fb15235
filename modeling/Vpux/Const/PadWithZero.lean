import Vpux.Const.Loops

/-! A constant with zero values around it. -/
namespace Vpux.Const
open Data

/-- What `PadWithZeroAttr::verify` accepts. -/
structure PadWithZeroAttr where
  padBefore : List ℕ
  padAfter : List ℕ
  length_eq : padBefore.length = padAfter.length

namespace PadWithZeroAttr

def inferOutputType (attr : PadWithZeroAttr) (input : NDType) : Except Fault NDType := do
  throwUnless (CHAR_BIT ≤ getElemTypeSize input.elemType) "Got sub-byte input in PadWithZeroAttr"
  input.pad attr.padBefore attr.padAfter

/-- The place where the padding puts an element. -/
def padElement (elemSize : ℕ) (isSplat : Bool) (inBuf : Buffer)
    (memPadBefore inMemShape outMemShape : List ℕ) (inMemInd1D : ℕ) : Write := fun outBuf => do
  let inMemIndND ← getMemIndexND inMemInd1D inMemShape
  let outMemIndND := shift inMemIndND memPadBefore
  let outMemInd1D ← getMemIndex1D outMemIndND outMemShape
  let inMemRawInd := if isSplat then 0 else inMemInd1D * elemSize
  throwUnless (inMemRawInd < inBuf.length) "Out-of-bound access in 'PadWithZeroAttr'"
  let outMemRawInd := outMemInd1D * elemSize
  throwUnless (outMemRawInd < outBuf.length) "Out-of-bound access in 'PadWithZeroAttr'"
  copy_n inBuf inMemRawInd elemSize outMemRawInd outBuf

def padElements (elemSize : ℕ) (isSplat : Bool) (inBuf : Buffer)
    (memPadBefore inMemShape outMemShape : List ℕ) (numElements : ℕ) : Write :=
  match memPadBefore, inMemShape, outMemShape with
  | [off0], [IN0], _ =>
    if isSplat then
      loop_1d IN0 fun in0 =>
        let out0 := in0 + off0
        copy_n inBuf 0 elemSize (out0 * elemSize)
    else copy_n inBuf 0 (numElements * elemSize) (off0 * elemSize)
  | [off0, off1], [IN0, IN1], [_, OUT1] =>
    loop_2d IN0 IN1 fun in0 in1 =>
      let out0 := in0 + off0
      let out1 := in1 + off1
      let outRawInd := out1 + out0 * OUT1
      let inRawInd := if isSplat then 0 else in1 + in0 * IN1
      copy_n inBuf (inRawInd * elemSize) elemSize (outRawInd * elemSize)
  | [off0, off1, off2], [IN0, IN1, IN2], [_, OUT1, OUT2] =>
    loop_3d IN0 IN1 IN2 fun in0 in1 in2 =>
      let out0 := in0 + off0
      let out1 := in1 + off1
      let out2 := in2 + off2
      let outRawInd := out2 + out1 * OUT2 + out0 * OUT2 * OUT1
      let inRawInd := if isSplat then 0 else in2 + in1 * IN2 + in0 * IN2 * IN1
      copy_n inBuf (inRawInd * elemSize) elemSize (outRawInd * elemSize)
  | [off0, off1, off2, off3], [IN0, IN1, IN2, IN3], [_, OUT1, OUT2, OUT3] =>
    loop_4d IN0 IN1 IN2 IN3 fun in0 in1 in2 in3 =>
      let out0 := in0 + off0
      let out1 := in1 + off1
      let out2 := in2 + off2
      let out3 := in3 + off3
      let outRawInd := out3 + out2 * OUT3 + out1 * OUT3 * OUT2 + out0 * OUT3 * OUT2 * OUT1
      let inRawInd :=
        if isSplat then 0 else in3 + in2 * IN3 + in1 * IN3 * IN2 + in0 * IN3 * IN2 * IN1
      copy_n inBuf (inRawInd * elemSize) elemSize (outRawInd * elemSize)
  | _, _, _ =>
    loop_1d numElements (padElement elemSize isSplat inBuf memPadBefore inMemShape outMemShape)

def transform (floats : FloatCasts) (fresh : ℕ → Byte) (attr : PadWithZeroAttr)
    (input : Content) : Except Fault Content := do
  let outputType ← attr.inferOutputType input.type
  let output ← (Content.allocTempBuffer fresh outputType input.storageElemType false).fillWithZero
    floats
  let elemSize ← toByte (getElemTypeSize input.storageElemType)
  let order := input.type.dimsOrder
  let inMemShape ← order.toMemoryOrder input.type.shape
  let outMemShape ← order.toMemoryOrder output.type.shape
  let memPadBefore ← order.toMemoryOrder attr.padBefore
  let data ← padElements elemSize input.isSplat input.data memPadBefore inMemShape outMemShape
    input.type.getNumElements output.data
  .ok { output with data := data }

section Elements

variable {w n : ℕ} {isSplat : Bool} {memPadBefore inMemShape outMemShape : List ℕ}
  {inBuf outBuf : Buffer}

/-- The position that an element is read from; a splat is stored once. -/
def srcIndex (isSplat : Bool) (inMemShape k : List ℕ) : ℕ :=
  if isSplat then 0 else rowMajor inMemShape k

/-- The elements of the input, each moved by the padding. -/
abbrev Pads (w : ℕ) (isSplat : Bool) (inBuf : Buffer)
    (memPadBefore inMemShape outMemShape : List ℕ) (outBuf data : Buffer) : Prop :=
  Places w inMemShape outMemShape (fun k => shift k memPadBefore)
    (fun k => block w (srcIndex isSplat inMemShape k) inBuf) outBuf data

theorem pads_of_loop {ι : Type} {jobs : List ι} {point : ι → List ℕ} {s t : ι → ℕ}
    (hpart : List.Forall₂ (· ≤ ·) (shift inMemShape memPadBefore) outMemShape)
    (hlength : memPadBefore.length = inMemShape.length)
    (hsrc : ∀ k, InBox inMemShape k → srcIndex isSplat inMemShape k < n)
    (hin : inBuf.length = n * w) (hout : outBuf.length = outMemShape.prod * w)
    (hjobs : Enumerates inMemShape jobs point) {body : ι → Write}
    (hbody : ∀ j ∈ jobs, ∀ buf : Buffer, buf.length = outMemShape.prod * w →
      body j buf = copy_n inBuf (s j * w) w (t j * w) buf)
    (hs : ∀ j, s j = srcIndex isSplat inMemShape (point j))
    (ht : ∀ j, t j = rowMajor outMemShape (shift (point j) memPadBefore)) :
    ∃ data, jobs.foldlM (fun buf j => body j buf) outBuf = .ok data ∧
      Pads w isSplat inBuf memPadBefore inMemShape outMemShape outBuf data := by
  refine Places.of_loop hjobs hout (fun k hk => length_block_of_lt hin (hsrc k hk))
    (fun k hk => hk.shift hpart hlength) ?_ ?_
  · intro k k' hk hk' heq
    exact shift_injective (hk.length_eq.trans hlength.symm) (hk'.length_eq.trans hlength.symm) heq
  · intro j hj buf hbuf
    have hk : InBox inMemShape (point j) := (hjobs _).mpr ⟨j, hj, rfl⟩
    rw [hbody j hj buf hbuf, hs, ht, copy_n_block hin (hsrc _ hk)]

theorem padElement_pads (hw : 0 < w) (hlength : memPadBefore.length = inMemShape.length)
    (hpart : List.Forall₂ (· ≤ ·) (shift inMemShape memPadBefore) outMemShape)
    (hsrc : ∀ k, InBox inMemShape k → srcIndex isSplat inMemShape k < n)
    (hin : inBuf.length = n * w) (hout : outBuf.length = outMemShape.prod * w) :
    ∃ data, loop_1d inMemShape.prod
        (padElement w isSplat inBuf memPadBefore inMemShape outMemShape) outBuf = .ok data ∧
      Pads w isSplat inBuf memPadBefore inMemShape outMemShape outBuf data := by
  have hpoint := enumerates_pointAt inMemShape
  refine pads_of_loop hpart hlength hsrc hin hout hpoint
    (t := fun n => rowMajor outMemShape (shift (pointAt inMemShape n) memPadBefore)) ?_
    (fun _ => rfl) (fun _ => rfl)
  intro i hi buf hbuf
  have hlt := List.mem_range.mp hi
  have hk : InBox inMemShape (pointAt inMemShape i) := (hpoint _).mpr ⟨i, hi, rfl⟩
  have hshift := hk.shift hpart hlength
  have hread : (if isSplat then 0 else i * w) =
      srcIndex isSplat inMemShape (pointAt inMemShape i) * w := by
    rw [srcIndex, rowMajor_pointAt hlt]
    split <;> simp
  have hinlt := Nat.mul_lt_mul_of_pos_right (hsrc _ hk) hw
  have houtlt := Nat.mul_lt_mul_of_pos_right (rowMajor_lt hshift) hw
  simp only [padElement, getMemIndexND_eq hlt, getMemIndex1D_eq hshift, throwUnless, hread,
    hin, hbuf, if_pos hinlt, if_pos houtlt, Except.bind, bind]

variable (isSplat inBuf outBuf) in
theorem padElements_pads (hw : 0 < w) (hlength : memPadBefore.length = inMemShape.length)
    (hpart : List.Forall₂ (· ≤ ·) (shift inMemShape memPadBefore) outMemShape)
    (hsrc : ∀ k, InBox inMemShape k → srcIndex isSplat inMemShape k < n)
    (hdense : isSplat = false → n = inMemShape.prod)
    (hin : inBuf.length = n * w) (hout : outBuf.length = outMemShape.prod * w) :
    ∃ data, padElements w isSplat inBuf memPadBefore inMemShape outMemShape inMemShape.prod
        outBuf = .ok data ∧
      Pads w isSplat inBuf memPadBefore inMemShape outMemShape outBuf data := by
  unfold padElements
  split
  · rename_i off0 IN0
    obtain ⟨OUT0, rfl⟩ := List.length_eq_one_iff.mp hpart.length_eq.symm
    split_ifs with hsplat
    · refine pads_of_loop hpart hlength hsrc hin hout (enumerates_one IN0) (s := fun _ => 0)
        (t := fun in0 => in0 + off0) (fun j _ buf _ => by rw [Nat.zero_mul]) ?_ ?_
      · intro j
        rw [srcIndex, if_pos hsplat]
      · intro j
        simp [rowMajor, shift]
    · have hfit : IN0 + off0 ≤ OUT0 := by simpa [shift] using hpart
      have hwhole : inBuf.length = IN0 * w := by
        simpa [hdense (Bool.eq_false_iff.mpr hsplat)] using hin
      have hroom : outBuf.length = OUT0 * w := by simpa using hout
      have hle := Nat.mul_le_mul_right w hfit
      rw [Nat.add_comm] at hfit
      have hle' : off0 * w + IN0 * w ≤ OUT0 * w := by
        rw [← Nat.add_mul]
        exact Nat.mul_le_mul_right w hfit
      have hpos : (off0 + IN0) * w ≤ outBuf.length := by
        rw [Nat.add_mul]
        omega
      refine ⟨overwrite outBuf (off0 * w) inBuf, ?_, ?_, ?_, ?_⟩
      · have hall : (inBuf.drop 0).take (IN0 * w) = inBuf := by
          rw [List.drop_zero, List.take_of_length_le hwhole.le]
        rw [List.prod_singleton, copy_n, if_pos (by omega), hall, store, if_pos (by omega)]
      · rw [length_overwrite (by omega), hout]
      · intro k hk
        obtain ⟨i, rfl⟩ := List.length_eq_one_iff.mp hk.length_eq
        have hi : i < IN0 := (inBox_cons.mp hk).1
        simpa [rowMajor, shift, srcIndex, hsplat, Nat.add_comm] using
          block_overwrite_add hwhole hpos hi
      · intro k hk hfree
        obtain ⟨j, rfl⟩ := List.length_eq_one_iff.mp hk.length_eq
        have hj : j < off0 ∨ off0 + IN0 ≤ j := by
          by_contra hcon
          refine hfree [j - off0] (by simp; omega) ?_
          simp only [shift, List.zipWith_cons_cons, List.zipWith_nil_right]
          congr 1
          omega
        simpa [rowMajor] using block_overwrite_of_notMem hwhole hpos hj
  · rename_i off0 off1 IN0 IN1 OUT0 OUT1
    refine pads_of_loop hpart hlength hsrc hin hout (enumerates_two IN0 IN1)
      (fun j _ buf _ => rfl) ?_ ?_
    · intro j
      simp [srcIndex, rowMajor, Nat.add_comm]
    · intro j
      simp [rowMajor, shift, Nat.add_comm]
  · rename_i off0 off1 off2 IN0 IN1 IN2 OUT0 OUT1 OUT2
    refine pads_of_loop hpart hlength hsrc hin hout (enumerates_three IN0 IN1 IN2)
      (fun j _ buf _ => rfl) ?_ ?_
    · intro j
      simp only [srcIndex, rowMajor, List.prod_cons, List.prod_nil]
      congr 1
      ring
    · intro j
      simp only [rowMajor, shift, List.zipWith_cons_cons, List.zipWith_nil_right, List.prod_cons,
        List.prod_nil]
      ring
  · rename_i off0 off1 off2 off3 IN0 IN1 IN2 IN3 OUT0 OUT1 OUT2 OUT3
    refine pads_of_loop hpart hlength hsrc hin hout (enumerates_four IN0 IN1 IN2 IN3)
      (fun j _ buf _ => rfl) ?_ ?_
    · intro j
      simp only [srcIndex, rowMajor, List.prod_cons, List.prod_nil]
      congr 1
      ring
    · intro j
      simp only [rowMajor, shift, List.zipWith_cons_cons, List.zipWith_nil_right, List.prod_cons,
        List.prod_nil]
      ring
  · exact padElement_pads hw hlength hpart hsrc hin hout

theorem padElements_eq (hw : 0 < w) (hlength : memPadBefore.length = inMemShape.length)
    (hpart : List.Forall₂ (· ≤ ·) (shift inMemShape memPadBefore) outMemShape)
    (hsrc : ∀ k, InBox inMemShape k → srcIndex isSplat inMemShape k < n)
    (hdense : isSplat = false → n = inMemShape.prod)
    (hin : inBuf.length = n * w) (hout : outBuf.length = outMemShape.prod * w) :
    padElements w isSplat inBuf memPadBefore inMemShape outMemShape inMemShape.prod outBuf =
      loop_1d inMemShape.prod (padElement w isSplat inBuf memPadBefore inMemShape outMemShape)
        outBuf := by
  obtain ⟨data, hrun, hpads⟩ := padElements_pads _ _ _ hw hlength hpart hsrc hdense hin hout
  obtain ⟨data', hrun', hpads'⟩ := padElement_pads hw hlength hpart hsrc hin hout
  rw [hrun, hrun', hpads.unique hpads']

end Elements

section Transform

variable {floats : FloatCasts} {attr : PadWithZeroAttr} {input : Content}

/-- The padding fits a tensor of whole bytes whose zero value can be stored; channels can be added
when all zero points are equal. -/
structure Legal (floats : FloatCasts) (attr : PadWithZeroAttr) (input : NDType)
    (storageElemType : ElemType) : Prop where
  rank : attr.padBefore.length = input.shape.length
  width : CHAR_BIT ≤ getElemTypeSize input.elemType
  stored : 0 < getElemTypeSize storageElemType ∧ CHAR_BIT ∣ getElemTypeSize storageElemType
  fillable : Content.ZeroFillable floats input storageElemType
  expandable : Expandable input.elemType attr.padBefore attr.padAfter

variable {type : NDType} {storageElemType : ElemType}

open DimsOrder NDType

section

variable (h : attr.Legal floats type storageElemType)
include h

theorem Legal.length_padAfter :
    attr.padAfter.length = type.shape.length :=
  attr.length_eq.symm.trans h.rank

theorem Legal.part :
    List.Forall₂ (· ≤ ·) (shift type.getMemShape (type.dimsOrder.memoryOrder attr.padBefore))
      (type.dimsOrder.memoryOrder (paddedShape type.shape attr.padBefore attr.padAfter)) := by
  have hrank : attr.padBefore.length = type.dimsOrder.numDims := h.rank.trans type.numDims_eq.symm
  rw [getMemShape, ← memoryOrder_shift type.numDims_eq.symm hrank]
  exact forall₂_memoryOrder (shift_le_paddedShape h.rank h.length_padAfter)
    (by simp [shift, hrank, type.numDims_eq])

theorem inferOutputType_ok :
    ∃ outputType, attr.inferOutputType type = .ok outputType ∧
      outputType.shape = paddedShape type.shape attr.padBefore attr.padAfter ∧
      outputType.dimsOrder = type.dimsOrder ∧
      Content.ZeroFillable floats outputType storageElemType := by
  obtain ⟨outputType, hpad, hshape, horder, haxis, hzps, hkept⟩ :=
    pad_ok h.rank h.length_padAfter h.expandable
  refine ⟨outputType, ?_, hshape, horder, ?_, ?_⟩
  · rw [inferOutputType, throwUnless, if_pos h.width]
    exact hpad
  · intro axis hquant
    obtain ⟨hrank, haxis', hne⟩ := h.fillable.perChannel axis (haxis ▸ hquant)
    rw [hshape, length_paddedShape h.rank h.length_padAfter]
    exact ⟨hrank, haxis', hkept hne⟩
  · intro hne
    obtain ⟨zp, hzp⟩ := List.exists_mem_of_ne_nil _ hne
    obtain ⟨number, hnumber, hcasts⟩ := h.fillable.casts (List.ne_nil_of_mem (hzps zp hzp))
    exact ⟨number, hnumber, fun zp hzp => hcasts zp (hzps zp hzp)⟩

end

theorem transform_places (fresh : ℕ → Byte)
    (hlegal : attr.Legal floats input.type input.storageElemType) {n : ℕ}
    (hsrc : ∀ k, InBox input.type.getMemShape k →
      srcIndex input.isSplat input.type.getMemShape k < n)
    (hdense : input.isSplat = false → n = input.type.getMemShape.prod)
    (hin : input.data.length = n * (getElemTypeSize input.storageElemType / CHAR_BIT)) :
    ∃ outputType zeros data, attr.transform floats fresh input =
        .ok ⟨outputType, input.storageElemType, data, false⟩ ∧
      attr.inferOutputType input.type = .ok outputType ∧
      outputType.shape = paddedShape input.type.shape attr.padBefore attr.padAfter ∧
      outputType.dimsOrder = input.type.dimsOrder ∧
      (∀ x, InBox outputType.shape x →
        Content.zeroValue floats outputType input.storageElemType x =
          .ok (block (getElemTypeSize input.storageElemType / CHAR_BIT)
            (rowMajor outputType.getMemShape (outputType.dimsOrder.memoryOrder x)) zeros)) ∧
      Pads (getElemTypeSize input.storageElemType / CHAR_BIT) input.isSplat input.data
        (input.type.dimsOrder.memoryOrder attr.padBefore) input.type.getMemShape
        outputType.getMemShape zeros data := by
  obtain ⟨outputType, htype, hshape, horder, hfill⟩ := inferOutputType_ok hlegal
  obtain ⟨hbits, hdvd⟩ := hlegal.stored
  have hw := elemSize_pos hbits hdvd
  obtain ⟨zeros, hfilled, hlength, hvalue⟩ :=
    Content.fillWithZero_alloc fresh hfill hbits hdvd
  have hrank : attr.padBefore.length = input.type.dimsOrder.numDims :=
    hlegal.rank.trans input.type.numDims_eq.symm
  have houtShape : outputType.getMemShape = input.type.dimsOrder.memoryOrder
      (paddedShape input.type.shape attr.padBefore attr.padAfter) := by
    rw [getMemShape, horder, hshape]
  have hpart := hlegal.part
  rw [← houtShape] at hpart
  obtain ⟨data, hdata, hpads⟩ := padElements_pads input.isSplat
    input.data zeros hw (by simp [getMemShape]) hpart hsrc hdense hin
    (by rw [hlength, outputType.prod_getMemShape])
  refine ⟨outputType, zeros, data, ?_, htype, hshape, horder, hvalue, hpads⟩
  have horder' : input.type.dimsOrder.toMemoryOrder outputType.shape =
      .ok outputType.getMemShape := by
    rw [← horder]
    exact toMemoryOrder_shape outputType
  simp only [transform, htype, hfilled, toByte_of_dvd hdvd, toMemoryOrder_shape, horder',
    toMemoryOrder_eq hrank, ← prod_getMemShape, hdata, bind, Except.bind]

/-- The padded constant holds the elements of the input, moved by the padding, and the zero value
at every other coordinate. -/
theorem transform_element (fresh : ℕ → Byte) (hdense : input.Dense)
    (hlegal : attr.Legal floats input.type input.storageElemType) :
    ∃ output, attr.transform floats fresh input = .ok output ∧
      output.type.shape = paddedShape input.type.shape attr.padBefore attr.padAfter ∧
      output.type.dimsOrder = input.type.dimsOrder ∧ output.Dense ∧
      (∀ x, InBox input.type.shape x →
        output.element (shift x attr.padBefore) = input.element x) ∧
      ∀ x, InBox output.type.shape x →
        (∀ y, InBox input.type.shape y → shift y attr.padBefore ≠ x) →
          ∃ value, Content.zeroValue floats output.type output.storageElemType x = .ok value ∧
            output.element x = .bytes value := by
  obtain ⟨hbits, hdvd⟩ := hlegal.stored
  have hone : getElemTypeSize input.storageElemType ≠ 1 := by
    intro hone
    rw [hone] at hdvd
    exact absurd hdvd (by decide)
  have hrank : attr.padBefore.length = input.type.dimsOrder.numDims :=
    hlegal.rank.trans input.type.numDims_eq.symm
  have hnum : input.type.shape.length = input.type.dimsOrder.numDims :=
    input.type.numDims_eq.symm
  have hsrc : ∀ k, srcIndex input.isSplat input.type.getMemShape k =
      rowMajor input.type.getMemShape k := by
    intro k
    rw [srcIndex, hdense.notSplat]
    rfl
  obtain ⟨outputType, zeros, data, hrun, _, hshape, horder, hzero, hpads⟩ :=
    transform_places (n := input.type.getMemShape.prod) fresh hlegal
      (fun k hk => by rw [hsrc]; exact rowMajor_lt hk) (fun _ => rfl)
      (by rw [hdense.stored, storageBytes_of_dvd hdvd, prod_getMemShape])
  have hnum' : outputType.shape.length = outputType.dimsOrder.numDims :=
    outputType.numDims_eq.symm
  have hsplat : (⟨outputType, input.storageElemType, data, false⟩ : Content).isSplat = false := rfl
  refine ⟨_, hrun, hshape, horder, ⟨hsplat, ?_, Or.inr ⟨hbits, hdvd⟩⟩, ?_, ?_⟩
  · rw [storageBytes_of_dvd hdvd, hpads.length_eq, prod_getMemShape]
  · intro x hx
    have hplaced := hpads.placed _ (inBox_memoryOrder hx hnum)
    rw [element_of_bytes hsplat hone, element_of_bytes hdense.notSplat hone, Content.memIndex,
      Content.memIndex, ← hsrc, ← hplaced, horder,
      memoryOrder_shift (hx.length_eq.trans hnum) hrank]
  · intro x hx hfree
    refine ⟨_, hzero x hx, ?_⟩
    rw [element_of_bytes hsplat hone]
    refine congrArg Element.bytes (hpads.kept _ (inBox_memoryOrder hx hnum') ?_)
    intro k hk heq
    have hlogical := inBox_logicalOrder hk hnum
    have hk' : k.length = input.type.dimsOrder.numDims := by
      rw [hk.length_eq, getMemShape, length_memoryOrder]
    refine hfree _ hlogical (input.type.dimsOrder.memoryOrder_injective ?_ ?_ ?_)
    · simp [shift, hrank]
    · rw [← horder]
      exact hx.length_eq.trans hnum'
    · rw [memoryOrder_shift (by simp) hrank, memoryOrder_logicalOrder hk',
        ← horder]
      rw [horder] at heq ⊢
      exact heq

end Transform

end PadWithZeroAttr

end Vpux.Const
