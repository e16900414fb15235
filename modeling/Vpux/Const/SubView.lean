import Vpux.Const.Loops

/-! A view of a part of a constant. -/
namespace Vpux.Const
open Data

/-- What `SubViewAttr::verify` accepts. -/
structure SubViewAttr where
  offset : List ℕ
  shape : List ℕ
  length_eq : offset.length = shape.length
  shape_pos : ∀ d ∈ shape, 0 < d
  deriving DecidableEq

namespace SubViewAttr

def inferOutputType (attr : SubViewAttr) (input : NDType) : Except Fault NDType := do
  let typeSizeInBits := getElemTypeSize input.elemType
  throwUnless (CHAR_BIT ≤ typeSizeInBits ∨ typeSizeInBits = 1)
    "SubViewAttr does not support sub-byte element types except i1"
  throwUnless (attr.shape.length = input.getRank)
    "View shape and input shape are not consistent in 'SubViewAttr'"
  input.extractDenseTile attr.offset attr.shape

/-- Sets one bit when the bit it views is set. -/
def viewBit (inBuf : Buffer) (memOffset inMemShape outMemShape : List ℕ) (outMemInd1D : ℕ) :
    Write := fun outBuf => do
  let outMemIndND ← getMemIndexND outMemInd1D outMemShape
  let inMemIndND := shift outMemIndND memOffset
  let inMemInd1D ← getMemIndex1D inMemIndND inMemShape
  if inBuf.length ≤ inMemInd1D / CHAR_BIT then .error .overread
  else if bitAt inBuf inMemInd1D then
    let byte := outBuf.getD (outMemInd1D / CHAR_BIT) 0
    store [byte ||| 1#8 <<< (outMemInd1D % CHAR_BIT)] (outMemInd1D / CHAR_BIT) outBuf
  else .ok outBuf

/-- The element that a position of the view views. -/
def viewElement (elemSize : ℕ) (inBuf : Buffer) (memOffset inMemShape outMemShape : List ℕ)
    (outMemInd1D : ℕ) : Write := fun outBuf => do
  let outMemIndND ← getMemIndexND outMemInd1D outMemShape
  let inMemIndND := shift outMemIndND memOffset
  let inMemInd1D ← getMemIndex1D inMemIndND inMemShape
  let inMemRawInd := inMemInd1D * elemSize
  throwUnless (inMemRawInd < inBuf.length) "Out-of-bound access in 'SubViewAttr'"
  let outMemRawInd := outMemInd1D * elemSize
  throwUnless (outMemRawInd < outBuf.length) "Out-of-bound access in 'SubViewAttr'"
  copy_n inBuf inMemRawInd elemSize outMemRawInd outBuf

def viewElements (elemSize : ℕ) (inBuf : Buffer) (memOffset inMemShape outMemShape : List ℕ)
    (numElements : ℕ) : Write :=
  match memOffset, inMemShape, outMemShape with
  | [off0], _, _ => copy_n inBuf (off0 * elemSize) (numElements * elemSize) 0
  | [off0, off1], [_, IN1], [OUT0, OUT1] =>
    loop_2d OUT0 OUT1 fun out0 out1 =>
      let in0 := out0 + off0
      let in1 := out1 + off1
      let outRawInd := out1 + out0 * OUT1
      let inRawInd := in1 + in0 * IN1
      copy_n inBuf (inRawInd * elemSize) elemSize (outRawInd * elemSize)
  | [off0, off1, off2], [_, IN1, IN2], [OUT0, OUT1, OUT2] =>
    loop_3d OUT0 OUT1 OUT2 fun out0 out1 out2 =>
      let in0 := out0 + off0
      let in1 := out1 + off1
      let in2 := out2 + off2
      let outRawInd := out2 + out1 * OUT2 + out0 * OUT2 * OUT1
      let inRawInd := in2 + in1 * IN2 + in0 * IN2 * IN1
      copy_n inBuf (inRawInd * elemSize) elemSize (outRawInd * elemSize)
  | [off0, off1, off2, off3], [_, IN1, IN2, IN3], [OUT0, OUT1, OUT2, OUT3] =>
    loop_4d OUT0 OUT1 OUT2 OUT3 fun out0 out1 out2 out3 =>
      let in0 := out0 + off0
      let in1 := out1 + off1
      let in2 := out2 + off2
      let in3 := out3 + off3
      let outRawInd := out3 + out2 * OUT3 + out1 * OUT3 * OUT2 + out0 * OUT3 * OUT2 * OUT1
      let inRawInd := in3 + in2 * IN3 + in1 * IN3 * IN2 + in0 * IN3 * IN2 * IN1
      copy_n inBuf (inRawInd * elemSize) elemSize (outRawInd * elemSize)
  | _, _, _ => loop_1d numElements (viewElement elemSize inBuf memOffset inMemShape outMemShape)

def transformDense (attr : SubViewAttr) (input output : Content) : Except Fault Buffer := do
  let order := input.type.dimsOrder
  let inMemShape ← order.toMemoryOrder input.type.shape
  let outMemShape ← order.toMemoryOrder output.type.shape
  let memOffset ← order.toMemoryOrder attr.offset
  let numElements := output.type.getNumElements
  if getElemTypeSize input.storageElemType = 1 then
    loop_1d numElements (viewBit input.data memOffset inMemShape outMemShape)
      (List.replicate output.data.length 0)
  else do
    let elemSize ← toByte (getElemTypeSize input.storageElemType)
    viewElements elemSize input.data memOffset inMemShape outMemShape numElements output.data

def transform (fresh : ℕ → Byte) (attr : SubViewAttr) (input : Content) :
    Except Fault Content := do
  let outputType ← attr.inferOutputType input.type
  let output := Content.allocTempBuffer fresh outputType input.storageElemType input.isSplat
  let data ← if input.isSplat then copy_n input.data 0 input.data.length 0 output.data
    else attr.transformDense input output
  .ok { output with data := data }

section Elements

variable {w : ℕ} {memOffset inMemShape outMemShape : List ℕ} {inBuf outBuf : Buffer}

/-- The elements of the view, each at its own place. -/
abbrev Views (w : ℕ) (inBuf : Buffer) (memOffset inMemShape outMemShape : List ℕ)
    (outBuf data : Buffer) : Prop :=
  Places w outMemShape outMemShape id
    (fun k => block w (rowMajor inMemShape (shift k memOffset)) inBuf) outBuf data

theorem views_of_loop {ι : Type} {jobs : List ι} {point : ι → List ℕ} {s t : ι → ℕ}
    (hpart : List.Forall₂ (· ≤ ·) (shift outMemShape memOffset) inMemShape)
    (hlength : memOffset.length = outMemShape.length)
    (hin : inBuf.length = inMemShape.prod * w) (hout : outBuf.length = outMemShape.prod * w)
    (hjobs : Enumerates outMemShape jobs point) {body : ι → Write}
    (hbody : ∀ j ∈ jobs, ∀ buf : Buffer, buf.length = outMemShape.prod * w →
      body j buf = copy_n inBuf (s j * w) w (t j * w) buf)
    (hs : ∀ j, s j = rowMajor inMemShape (shift (point j) memOffset))
    (ht : ∀ j, t j = rowMajor outMemShape (point j)) :
    ∃ data, jobs.foldlM (fun buf j => body j buf) outBuf = .ok data ∧
      Views w inBuf memOffset inMemShape outMemShape outBuf data := by
  have hshift : ∀ k, InBox outMemShape k →
      rowMajor inMemShape (shift k memOffset) < inMemShape.prod :=
    fun k hk => rowMajor_lt (hk.shift hpart hlength)
  refine Places.of_loop hjobs hout (fun k hk => length_block_of_lt hin (hshift k hk))
    (fun k hk => hk) (fun k k' _ _ h => h) ?_
  intro j hj buf hbuf
  have hk : InBox outMemShape (point j) := (hjobs _).mpr ⟨j, hj, rfl⟩
  rw [hbody j hj buf hbuf, hs, ht, copy_n_block hin (hshift _ hk), id]

theorem viewElement_views (hw : 0 < w) (hlength : memOffset.length = outMemShape.length)
    (hpart : List.Forall₂ (· ≤ ·) (shift outMemShape memOffset) inMemShape)
    (hin : inBuf.length = inMemShape.prod * w) (hout : outBuf.length = outMemShape.prod * w) :
    ∃ data, loop_1d outMemShape.prod (viewElement w inBuf memOffset inMemShape outMemShape)
        outBuf = .ok data ∧ Views w inBuf memOffset inMemShape outMemShape outBuf data := by
  have hpoint := enumerates_pointAt outMemShape
  refine views_of_loop hpart hlength hin hout hpoint
    (t := fun n => rowMajor outMemShape (pointAt outMemShape n)) ?_
    (fun _ => rfl) (fun _ => rfl)
  intro n hn buf hbuf
  have hlt := List.mem_range.mp hn
  have hk : InBox outMemShape (pointAt outMemShape n) := (hpoint _).mpr ⟨n, hn, rfl⟩
  have hshift := hk.shift hpart hlength
  have hinlt := Nat.mul_lt_mul_of_pos_right (rowMajor_lt hshift) hw
  have houtlt := Nat.mul_lt_mul_of_pos_right hlt hw
  simp only [viewElement, getMemIndexND_eq hlt, getMemIndex1D_eq hshift, throwUnless,
    hin, hbuf, if_pos hinlt, if_pos houtlt, rowMajor_pointAt hlt, Except.bind, bind]

variable (inBuf outBuf) in
theorem viewElements_views (hw : 0 < w) (hlength : memOffset.length = outMemShape.length)
    (hpart : List.Forall₂ (· ≤ ·) (shift outMemShape memOffset) inMemShape)
    (hin : inBuf.length = inMemShape.prod * w) (hout : outBuf.length = outMemShape.prod * w) :
    ∃ data, viewElements w inBuf memOffset inMemShape outMemShape outMemShape.prod outBuf =
        .ok data ∧ Views w inBuf memOffset inMemShape outMemShape outBuf data := by
  unfold viewElements
  split
  · rename_i off0
    obtain ⟨OUT0, rfl⟩ := List.length_eq_one_iff.mp hlength.symm
    obtain ⟨IN0, rfl⟩ := List.length_eq_one_iff.mp hpart.length_eq.symm
    have hfit : OUT0 + off0 ≤ IN0 := by simpa [shift] using hpart
    simp only [List.prod_singleton] at hin hout ⊢
    have hle := Nat.mul_le_mul_right w hfit
    rw [Nat.add_mul] at hle
    have hslice : ((inBuf.drop (off0 * w)).take (OUT0 * w)).length = OUT0 * w := by
      simp only [List.length_take, List.length_drop]
      omega
    refine ⟨(inBuf.drop (off0 * w)).take (OUT0 * w), ?_, by simpa using hslice, ?_, ?_⟩
    · have hrest : outBuf.drop (0 + OUT0 * w) = [] := List.drop_eq_nil_of_le (by omega)
      rw [copy_n, if_pos (by omega), store, if_pos (by omega), overwrite, hslice, hrest,
        List.append_nil, List.take_zero, List.nil_append]
    · intro k hk
      obtain ⟨i, rfl⟩ := List.length_eq_one_iff.mp hk.length_eq
      have hi : i < OUT0 := (inBox_cons.mp hk).1
      have hslice : block w i ((inBuf.drop (off0 * w)).take (OUT0 * w)) =
          block w (off0 + i) inBuf := block_slice hi
      simpa [rowMajor, shift, Nat.add_comm] using hslice
    · intro k hk hfree
      exact absurd rfl (hfree k hk)
  · rename_i off0 off1 IN0 IN1 OUT0 OUT1
    refine views_of_loop hpart hlength hin hout (enumerates_two OUT0 OUT1)
      (fun j _ buf _ => rfl) ?_ ?_
    · intro j
      simp [rowMajor, shift, Nat.add_comm]
    · intro j
      simp [rowMajor, Nat.add_comm]
  · rename_i off0 off1 off2 IN0 IN1 IN2 OUT0 OUT1 OUT2
    refine views_of_loop hpart hlength hin hout (enumerates_three OUT0 OUT1 OUT2)
      (fun j _ buf _ => rfl) ?_ ?_
    · intro j
      simp only [rowMajor, shift, List.zipWith_cons_cons, List.zipWith_nil_right, List.prod_cons,
        List.prod_nil]
      ring
    · intro j
      simp only [rowMajor, List.prod_cons, List.prod_nil]
      ring
  · rename_i off0 off1 off2 off3 IN0 IN1 IN2 IN3 OUT0 OUT1 OUT2 OUT3
    refine views_of_loop hpart hlength hin hout (enumerates_four OUT0 OUT1 OUT2 OUT3)
      (fun j _ buf _ => rfl) ?_ ?_
    · intro j
      simp only [rowMajor, shift, List.zipWith_cons_cons, List.zipWith_nil_right, List.prod_cons,
        List.prod_nil]
      ring
    · intro j
      simp only [rowMajor, List.prod_cons, List.prod_nil]
      ring
  · exact viewElement_views hw hlength hpart hin hout

theorem viewElements_eq (hw : 0 < w) (hlength : memOffset.length = outMemShape.length)
    (hpart : List.Forall₂ (· ≤ ·) (shift outMemShape memOffset) inMemShape)
    (hin : inBuf.length = inMemShape.prod * w) (hout : outBuf.length = outMemShape.prod * w) :
    viewElements w inBuf memOffset inMemShape outMemShape outMemShape.prod outBuf =
      loop_1d outMemShape.prod (viewElement w inBuf memOffset inMemShape outMemShape) outBuf := by
  obtain ⟨data, hrun, hviews⟩ := viewElements_views _ _ hw hlength hpart hin hout
  obtain ⟨data', hrun', hviews'⟩ := viewElement_views hw hlength hpart hin hout
  rw [hrun, hrun', hviews.unique hviews']

end Elements

section Bits

variable {memOffset inMemShape outMemShape : List ℕ} {inBuf : Buffer}

theorem bitAt_overwrite {buf : Buffer} {q : ℕ} (hq : q < buf.length) (byte : Byte) (i : ℕ) :
    bitAt (overwrite buf q [byte]) i =
      if i / CHAR_BIT = q then byte.getLsbD (i % CHAR_BIT) else bitAt buf i := by
  simp only [bitAt, List.getD_eq_getElem?_getD]
  split_ifs with heq
  · have hself : (overwrite buf q [byte])[q + 0]? = [byte][0]? :=
      getElem?_overwrite_add (by simp) hq.le
    rw [Nat.add_zero] at hself
    rw [heq, hself]
    rfl
  · rcases Nat.lt_or_gt_of_ne heq with hlt | hgt
    · rw [getElem?_overwrite_of_lt hlt hq.le]
    · rw [getElem?_overwrite_of_ge (Nat.succ_le_of_lt hgt) hq.le]

theorem getLsbD_setBit {byte : Byte} {r s : ℕ} (hs : s < CHAR_BIT) :
    (byte ||| 1#8 <<< r).getLsbD s = (byte.getLsbD s || decide (s = r)) := by
  have hs8 : s < 8 := hs
  by_cases hsr : s = r
  · subst hsr
    simp [hs8]
  · by_cases hlt : s < r
    · simp [hlt, hsr]
    · have hpos : s - r ≠ 0 := by omega
      simp [hpos, hsr]

/-- One pass of the loop over the bits. -/
def setViewBit (inBuf : Buffer) (src : ℕ → ℕ) (outBuf : Buffer) (i : ℕ) : Buffer :=
  if bitAt inBuf (src i) then
    overwrite outBuf (i / CHAR_BIT)
      [outBuf.getD (i / CHAR_BIT) 0 ||| 1#8 <<< (i % CHAR_BIT)]
  else outBuf

theorem length_setViewBit {src : ℕ → ℕ} {outBuf : Buffer} {i : ℕ}
    (hi : i / CHAR_BIT < outBuf.length) :
    (setViewBit inBuf src outBuf i).length = outBuf.length := by
  unfold setViewBit
  split
  · exact length_overwrite hi
  · rfl

theorem bitAt_setViewBit {src : ℕ → ℕ} {outBuf : Buffer} {i : ℕ}
    (hi : i / CHAR_BIT < outBuf.length) (j : ℕ) :
    bitAt (setViewBit inBuf src outBuf i) j =
      (bitAt outBuf j || (decide (j = i) && bitAt inBuf (src i))) := by
  have hj : j % CHAR_BIT < CHAR_BIT := Nat.mod_lt j (by decide)
  unfold setViewBit
  split
  · rename_i hset
    rw [bitAt_overwrite hi, hset, Bool.and_true]
    split_ifs with hbyte
    · have hsame : j % CHAR_BIT = i % CHAR_BIT ↔ j = i := by
        constructor
        · intro h
          rw [← Nat.div_add_mod j CHAR_BIT, hbyte, h, Nat.div_add_mod]
        · rintro rfl
          rfl
      rw [getLsbD_setBit hj, decide_eq_decide.mpr hsame, bitAt, hbyte]
    · have hne : j ≠ i := by
        rintro rfl
        exact hbyte rfl
      simp [hne]
  · rename_i hset
    simp [hset]

variable (inBuf) in
theorem bitAt_foldl_setViewBit (src : ℕ → ℕ) {size : ℕ} {m : ℕ}
    (hm : ∀ i < m, i / CHAR_BIT < size) (j : ℕ) :
    ((List.range m).foldl (setViewBit inBuf src) (List.replicate size 0)).length = size ∧
      bitAt ((List.range m).foldl (setViewBit inBuf src) (List.replicate size 0)) j =
        (decide (j < m) && bitAt inBuf (src j)) := by
  induction m with
  | zero =>
    simp only [List.range_zero, List.foldl_nil, List.length_replicate, bitAt, true_and]
    rw [List.getD_eq_getElem?_getD, List.getElem?_replicate]
    split <;> simp
  | succ m ih =>
    obtain ⟨hlength, hbit⟩ := ih fun i hi => hm i (Nat.lt_succ_of_lt hi)
    have hlast := hlength ▸ hm m (Nat.lt_succ_self m)
    rw [List.range_succ, List.foldl_append, List.foldl_cons, List.foldl_nil,
      length_setViewBit hlast, bitAt_setViewBit hlast, hbit]
    refine ⟨hlength, ?_⟩
    by_cases hjm : j = m
    · subst hjm
      simp
    · have hiff : j < m + 1 ↔ j < m := by omega
      simp [hjm, hiff]

variable (inBuf) in
theorem viewBits_bitAt (size : ℕ) (hlength : memOffset.length = outMemShape.length)
    (hpart : List.Forall₂ (· ≤ ·) (shift outMemShape memOffset) inMemShape)
    (hin : ∀ i < inMemShape.prod, i / CHAR_BIT < inBuf.length)
    (hout : ∀ i < outMemShape.prod, i / CHAR_BIT < size) :
    ∃ data, loop_1d outMemShape.prod (viewBit inBuf memOffset inMemShape outMemShape)
        (List.replicate size 0) = .ok data ∧ data.length = size ∧
      ∀ k, InBox outMemShape k → bitAt data (rowMajor outMemShape k) =
        bitAt inBuf (rowMajor inMemShape (shift k memOffset)) := by
  let src := fun n => rowMajor inMemShape (shift (pointAt outMemShape n) memOffset)
  have hrun : loop_1d outMemShape.prod (viewBit inBuf memOffset inMemShape outMemShape)
      (List.replicate size 0) =
      .ok ((List.range outMemShape.prod).foldl (setViewBit inBuf src)
        (List.replicate size 0)) := by
    refine foldlM_eq_pure (P := fun buf : Buffer => buf.length = size) ?_ ?_
      List.length_replicate
    · intro buf n hn hbuf
      have hlt := List.mem_range.mp hn
      have hk := (enumerates_pointAt outMemShape _).mpr ⟨n, hn, rfl⟩
      have hshift := hk.shift hpart hlength
      have hread : ¬ inBuf.length ≤ src n / CHAR_BIT :=
        Nat.not_le_of_lt (hin _ (rowMajor_lt hshift))
      have hwrite : n / CHAR_BIT < buf.length := hbuf ▸ hout n hlt
      unfold viewBit
      rw [getMemIndexND_eq hlt]
      change (getMemIndex1D _ _ >>= _ : Except Fault Buffer) = _
      rw [getMemIndex1D_eq hshift]
      change (if inBuf.length ≤ src n / CHAR_BIT then .error .overread
        else if bitAt inBuf (src n) then _ else _ : Except Fault Buffer) = _
      rw [if_neg hread, setViewBit]
      split_ifs
      · exact if_pos hwrite
      · rfl
    · intro buf n hn hbuf
      rw [length_setViewBit (hbuf ▸ hout n (List.mem_range.mp hn)), hbuf]
  have hfold := bitAt_foldl_setViewBit inBuf src hout
  refine ⟨_, hrun, (hfold 0).1, ?_⟩
  intro k hk
  rw [(hfold _).2, decide_eq_true (rowMajor_lt hk), Bool.true_and]
  simp only [src, pointAt_rowMajor hk]

end Bits

section Transform

variable {attr : SubViewAttr} {input : Content}

/-- The part lies in the tensor and its elements are bytes or single bits. -/
structure Legal (attr : SubViewAttr) (input : NDType) : Prop where
  inside : List.Forall₂ (· ≤ ·) (shift attr.shape attr.offset) input.shape
  width : getElemTypeSize input.elemType = 1 ∨ CHAR_BIT ≤ getElemTypeSize input.elemType

theorem Legal.length_eq {input : NDType} (h : attr.Legal input) :
    attr.shape.length = input.shape.length := by
  have hinside := h.inside.length_eq
  simpa [shift, attr.length_eq] using hinside

theorem Legal.rank {input : NDType} (h : attr.Legal input) :
    attr.shape.length = input.dimsOrder.numDims := h.length_eq.trans input.numDims_eq.symm

theorem Legal.rank_offset {input : NDType} (h : attr.Legal input) :
    attr.offset.length = input.dimsOrder.numDims := attr.length_eq.trans h.rank

open DimsOrder

theorem Legal.part {input : NDType} (h : attr.Legal input) :
    List.Forall₂ (· ≤ ·) (shift (input.dimsOrder.memoryOrder attr.shape)
      (input.dimsOrder.memoryOrder attr.offset)) input.getMemShape := by
  rw [← memoryOrder_shift h.rank h.rank_offset]
  refine forall₂_memoryOrder h.inside ?_
  rw [h.inside.length_eq, input.numDims_eq]

theorem Legal.add_le {input : NDType} (h : attr.Legal input) {d size : ℕ}
    (hd : input.shape[d]? = some size) :
    attr.shape[d]? = some (attr.shape.getD d 0) ∧
      attr.offset.getD d 0 + attr.shape.getD d 0 ≤ size := by
  obtain ⟨hlt, rfl⟩ := List.getElem?_eq_some_iff.mp hd
  have hshape : d < attr.shape.length := h.length_eq ▸ hlt
  have hoffset : d < attr.offset.length := attr.length_eq ▸ hshape
  have hsum : d < (shift attr.shape attr.offset).length := by
    simp only [shift, List.length_zipWith]
    omega
  have hle := h.inside.get hsum hlt
  simp only [shift, List.get_eq_getElem, List.getElem_zipWith] at hle
  rw [List.getD_eq_getElem _ _ hshape, List.getD_eq_getElem _ _ hoffset]
  exact ⟨List.getElem?_eq_getElem hshape, by omega⟩

theorem tileScalesAndZP_ok {input : NDType} (h : attr.Legal input) :
    ∃ elemType, tileScalesAndZP input.elemType attr.shape attr.offset = .ok elemType ∧
      validateQuantElemType elemType attr.shape := by
  have hvalid := input.validQuant
  unfold tileScalesAndZP
  cases helem : input.elemType with
  | uniformQuantizedPerAxis isSigned storageWidth qDim zeroPoints =>
    rw [helem] at hvalid
    obtain ⟨hsize, hle⟩ := h.add_le hvalid
    have hrank : qDim ≤ attr.shape.length :=
      h.length_eq ▸ (List.getElem?_eq_some_iff.mp hvalid).1.le
    dsimp only
    rw [throwUnless, if_pos attr.length_eq, throwUnless, if_pos hrank]
    split_ifs with hwhole
    · exact ⟨_, rfl, by rw [validateQuantElemType, hsize, hwhole.2]⟩
    · refine ⟨_, rfl, ?_⟩
      rw [validateQuantElemType, hsize, List.length_take, List.length_drop]
      congr 1
      omega
  | _ => exact ⟨_, rfl, trivial⟩

theorem inferOutputType_ok {input : NDType} (h : attr.Legal input) :
    ∃ type, attr.inferOutputType input = .ok type ∧ type.shape = attr.shape ∧
      type.dimsOrder = input.dimsOrder := by
  obtain ⟨elemType, htile, hvalid⟩ := tileScalesAndZP_ok h
  have hdims : input.dimsOrder.numDims = attr.shape.length :=
    input.numDims_eq.trans h.length_eq.symm
  have htype : getTensorType attr.shape elemType input.dimsOrder =
      .ok ⟨attr.shape, elemType, input.dimsOrder, hdims, hvalid⟩ := by
    rw [getTensorType, dif_pos hdims, dif_pos hvalid]
  refine ⟨⟨attr.shape, elemType, input.dimsOrder, hdims, hvalid⟩, ?_, rfl, rfl⟩
  rw [inferOutputType, throwUnless, if_pos h.width.symm, throwUnless]
  change (if attr.shape.length = input.shape.length then .ok () else _ : Except Fault Unit) >>= _ =
    _
  rw [if_pos h.length_eq]
  rw [NDType.extractDenseTile, htile]
  exact htype

theorem transformDense_element {output : Content} (hdense : input.Dense)
    (hlegal : attr.Legal input.type) (hshape : output.type.shape = attr.shape)
    (horder : output.type.dimsOrder = input.type.dimsOrder) (hsplat : output.isSplat = false)
    (hstorage : output.storageElemType = input.storageElemType)
    (hbuf : output.data.length =
      Content.storageBytes input.storageElemType output.type.getNumElements) :
    ∃ data, attr.transformDense input output = .ok data ∧
      data.length = output.data.length ∧
      ∀ x, InBox attr.shape x →
        { output with data := data }.element x = input.element (shift x attr.offset) := by
  have hrank := hlegal.rank
  have hrank' := hlegal.rank_offset
  have hin := input.type.prod_getMemShape
  have hout : (input.type.dimsOrder.memoryOrder attr.shape).prod = output.type.getNumElements := by
    rw [NDType.getNumElements, hshape]
    exact prod_memoryOrder hrank
  have hpart := hlegal.part
  have hlength : (input.type.dimsOrder.memoryOrder attr.offset).length =
      (input.type.dimsOrder.memoryOrder attr.shape).length := by simp
  have hpoint : ∀ x, InBox attr.shape x → input.memIndex (shift x attr.offset) =
      rowMajor input.type.getMemShape (shift (input.type.dimsOrder.memoryOrder x)
        (input.type.dimsOrder.memoryOrder attr.offset)) := by
    intro x hx
    rw [Content.memIndex, memoryOrder_shift (hx.length_eq.trans hrank) hrank']
  have hplace : ∀ x, output.memIndex x = rowMajor (input.type.dimsOrder.memoryOrder attr.shape)
      (input.type.dimsOrder.memoryOrder x) := fun x => memIndex_eq hshape horder x
  have hmem : ∀ x, InBox attr.shape x → InBox (input.type.dimsOrder.memoryOrder attr.shape)
      (input.type.dimsOrder.memoryOrder x) := fun x hx => inBox_memoryOrder hx hrank
  have hstart : attr.transformDense input output =
      (if getElemTypeSize input.storageElemType = 1 then
        loop_1d output.type.getNumElements
          (viewBit input.data (input.type.dimsOrder.memoryOrder attr.offset)
            input.type.getMemShape (input.type.dimsOrder.memoryOrder attr.shape))
          (List.replicate output.data.length 0)
      else do
        let elemSize ← toByte (getElemTypeSize input.storageElemType)
        viewElements elemSize input.data (input.type.dimsOrder.memoryOrder attr.offset)
          input.type.getMemShape (input.type.dimsOrder.memoryOrder attr.shape)
          output.type.getNumElements output.data) := by
    rw [transformDense, NDType.toMemoryOrder_shape, hshape, toMemoryOrder_eq hrank,
      toMemoryOrder_eq hrank']
    rfl
  rw [hstart]
  by_cases hone : getElemTypeSize input.storageElemType = 1
  · obtain ⟨data, hrun, hsize, hbits⟩ := viewBits_bitAt input.data
      output.data.length hlength hpart
      (by
        intro i hi
        rw [hdense.stored]
        exact div_lt_storageBytes hone (hin ▸ hi))
      (by
        intro i hi
        rw [hbuf]
        exact div_lt_storageBytes hone (hout ▸ hi))
    refine ⟨data, ?_, hsize, ?_⟩
    · rw [if_pos hone, ← hout]
      exact hrun
    · intro x hx
      have hbit := hbits _ (hmem x hx)
      have hsplat' : { output with data := data }.isSplat = false := hsplat
      rw [element_of_bit hdense.notSplat hone, element_of_bit hsplat' (hstorage ▸ hone),
        hpoint x hx, ← hbit, ← hplace]
      rfl
  · obtain ⟨hpos, hdvd⟩ := hdense.width.resolve_left hone
    have hw := elemSize_pos hpos hdvd
    obtain ⟨data, hrun, hviews⟩ := viewElements_views input.data
      output.data hw hlength hpart
      (by rw [hdense.stored, storageBytes_of_dvd hdvd, hin])
      (by rw [hbuf, storageBytes_of_dvd hdvd, hout])
    refine ⟨data, ?_, ?_, ?_⟩
    · rw [if_neg hone, toByte_of_dvd hdvd, ← hout]
      exact hrun
    · rw [hviews.length_eq, hbuf, storageBytes_of_dvd hdvd, hout]
    · intro x hx
      have hblock := hviews.placed _ (hmem x hx)
      have hsplat' : { output with data := data }.isSplat = false := hsplat
      rw [element_of_bytes hdense.notSplat hone, element_of_bytes hsplat' (hstorage ▸ hone),
        hpoint x hx, ← hblock, id, ← hplace, hstorage]
      rfl

theorem transform_element (fresh : ℕ → Byte) (hdense : input.Dense)
    (hlegal : attr.Legal input.type) :
    ∃ output, attr.transform fresh input = .ok output ∧ output.type.shape = attr.shape ∧
      output.type.dimsOrder = input.type.dimsOrder ∧ output.Dense ∧
      ∀ x, InBox attr.shape x → output.element x = input.element (shift x attr.offset) := by
  obtain ⟨type, htype, hshape, horder⟩ := inferOutputType_ok hlegal
  let output := Content.allocTempBuffer fresh type input.storageElemType false
  have hbuf : output.data.length =
      Content.storageBytes input.storageElemType output.type.getNumElements :=
    length_allocTempBuffer fresh type input.storageElemType
  obtain ⟨data, hdata, hlength, helement⟩ :=
    transformDense_element hdense hlegal (show output.type.shape = _ from hshape) horder
      rfl rfl hbuf
  refine ⟨{ output with data := data }, ?_, hshape, horder, ⟨rfl, ?_, hdense.width⟩, helement⟩
  · rw [transform, htype, hdense.notSplat]
    change (attr.transformDense input output >>= _ : Except Fault Content) = _
    rw [hdata]
    rfl
  · exact hlength.trans hbuf

end Transform

end SubViewAttr

end Vpux.Const
