import Vpux.Const.Loops
import Vpux.Const.Sparsify

/-! The sparsity map has a bit for every weight that is not zero, as long as the weights of an
output channel fill whole bytes of it. -/
namespace Vpux.Const
open Data

variable {floats : FloatCasts} {content : Content} {number : Number} {zero : Buffer}
  {OC IC KY KX : ℕ}

/-- A constant of weights of a supported type, all of which can be read, with one zero value. -/
structure IsWeights (floats : FloatCasts) (content : Content) (number : Number) (zero : Buffer)
    (OC IC KY KX : ℕ) : Prop where
  shape : content.type.shape = [OC, IC, KY, KX]
  dense : content.Dense
  bytes : getElemTypeSize content.storageElemType ≠ 1
  perChannel : ∀ axis, content.type.elemType.quantizedAxis = some axis → axis = 0
  zeroValue : ∃ elemType zp, content.type.elemType.getSparsifyValue = .ok (elemType, zp) ∧
    elemType.storageType = .ok number ∧ Content.castZeroPoint floats number zp = .ok zero
  readable : ∀ i < OC * (IC * KY * KX), ∃ value, content.getItem floats number i = .ok value

def Content.weight (floats : FloatCasts) (content : Content) (number : Number) (i : ℕ) : Buffer :=
  (content.getItem floats number i).toOption.getD []

open Content

section Read

theorem position_lt {workloadSize oc k : ℕ} (hoc : oc < OC) (hk : k < workloadSize) :
    oc * workloadSize + k < OC * workloadSize := by
  have hle := Nat.mul_le_mul_right workloadSize (Nat.succ_le_of_lt hoc)
  rw [Nat.succ_mul] at hle
  omega

variable {i : ℕ}

theorem length_getItem {value : Buffer} (h : content.getItem floats number i = .ok value) :
    value.length = number.size := by
  unfold getItem at h
  cases hstorage : dispatchByElemType content.storageElemType with
  | error fault =>
    rw [hstorage] at h
    cases h
  | ok storage =>
    rw [hstorage] at h
    change (if content.isSplat = true then (throwUnless _ _ >>= _ : Except Fault Buffer)
      else throwUnless _ _ >>= _) = _ at h
    unfold throwUnless at h
    split_ifs at h
    all_goals first
      | exact length_checkedCast h
      | cases h

variable (h : IsWeights floats content number zero OC IC KY KX)
include h

theorem IsWeights.getItem_ok (hi : i < OC * (IC * KY * KX)) :
    content.getItem floats number i = .ok (content.weight floats number i) := by
  obtain ⟨value, hvalue⟩ := h.readable i hi
  rw [weight, hvalue]
  rfl

theorem IsWeights.length_weight (hi : i < OC * (IC * KY * KX)) :
    (content.weight floats number i).length = number.size :=
  length_getItem (h.getItem_ok hi)

theorem IsWeights.workload : (content.type.shape.drop 1).prod = IC * KY * KX := by
  rw [h.shape]
  simp [mul_assoc]

theorem IsWeights.numElements : content.type.getNumElements = OC * (IC * KY * KX) := by
  rw [NDType.getNumElements, h.shape]
  simp [mul_assoc]

theorem IsWeights.getItem_error (hi : OC * (IC * KY * KX) ≤ i) (value : Buffer) :
    content.getItem floats number i ≠ .ok value := by
  intro hread
  obtain ⟨hpos, hdvd⟩ := h.dense.width.resolve_left h.bytes
  have hlength := h.dense.stored
  rw [storageBytes_of_dvd hdvd, h.numElements] at hlength
  unfold getItem at hread
  cases hstorage : dispatchByElemType content.storageElemType with
  | error fault =>
    rw [hstorage] at hread
    cases hread
  | ok storage =>
    have hsize : getElemTypeSize content.storageElemType / CHAR_BIT = storage.size := by
      rw [dispatchByElemType_size hstorage, Nat.mul_div_cancel_left _ (by decide)]
    have hge : ¬ i * storage.size < content.data.length := by
      rw [hlength, hsize]
      exact not_lt.mpr (Nat.mul_le_mul_right _ hi)
    rw [hstorage] at hread
    change (if content.isSplat = true then (throwUnless _ _ >>= _ : Except Fault Buffer)
      else throwUnless _ _ >>= _) = _ at hread
    rw [h.dense.notSplat, if_neg (by simp), throwUnless, if_neg hge] at hread
    cases hread

theorem IsWeights.storageType_size :
    getElemTypeSize content.type.elemType = CHAR_BIT * number.size := by
  obtain ⟨elemType, zp, hzp, hnumber, -⟩ := h.zeroValue
  have hsize : getElemTypeSize elemType = CHAR_BIT * number.size := by
    unfold ElemType.storageType at hnumber
    split at hnumber
    all_goals first
      | exact Except.ok.inj hnumber ▸ rfl
      | cases hnumber
  unfold ElemType.getSparsifyValue at hzp
  split at hzp
  next heq =>
    cases hzp
    rw [heq]
    exact hsize
  next zeroPoints heq =>
    rw [heq]
    cases zeroPoints with
    | nil =>
      cases hzp
    | cons zeroPoint zeroPoints =>
      unfold throwUnless at hzp
      split_ifs at hzp
      · cases hzp
        exact hsize
      · cases hzp
  next =>
    cases hzp
    exact hsize

end Read

section Byte

/-- The bits of the first `n` of eight values that are not zero. -/
def zeroBits (number : Number) (zero : Buffer) (values : ℕ → Buffer) (n : ℕ) : Byte :=
  (List.range n).foldl (fun byteValue k =>
    if sameValue number (values k) zero then byteValue else byteValue ||| 1#8 <<< k) 0#8

theorem getLsbD_oneBit : ∀ n < 8, ∀ j < 8, (1#8 <<< n).getLsbD j = decide (j = n) := by decide

theorem getLsbD_zeroBits (values : ℕ → Buffer) {n j : ℕ} (hn : n ≤ 8) (hj : j < 8) :
    (zeroBits number zero values n).getLsbD j =
      (decide (j < n) && !sameValue number (values j) zero) := by
  induction n with
  | zero => simp [zeroBits]
  | succ n ih =>
    have hbefore := ih (by omega)
    unfold zeroBits at hbefore ⊢
    rw [List.range_succ, List.foldl_append, List.foldl_cons, List.foldl_nil]
    rcases Nat.lt_trichotomy j n with hlt | rfl | hgt
    · have hne : j ≠ n := hlt.ne
      split_ifs <;> simp [getLsbD_oneBit n (by omega) j hj, hbefore, hlt, hne,
        Nat.lt_succ_of_lt hlt]
    · split_ifs with hsame <;>
        simp [getLsbD_oneBit j (by omega) j hj, hbefore, hsame]
    · have hge : ¬ j < n + 1 := by omega
      split_ifs <;>
        simp [getLsbD_oneBit n (by omega) j hj, hbefore, hge, hgt.ne', not_lt.mpr hgt.le]

theorem sparsityByte_eq {values : ℕ → Buffer} {byteStart : ℕ}
    (hread : ∀ k < 8, content.getItem floats number (byteStart + k) = .ok (values k)) :
    content.sparsityByte floats number zero byteStart = .ok (zeroBits number zero values 8) := by
  refine foldlM_eq_pure (P := fun _ => True) ?_ (fun _ _ _ _ => trivial) trivial
  intro byteValue k hk _
  rw [hread k (List.mem_range.mp hk)]
  rfl

end Byte

section OutputType

theorem getTensorType_ok {shape : List ℕ} {elemType : ElemType} {order : DimsOrder}
    (hdims : order.numDims = shape.length) (hquant : validateQuantElemType elemType shape) :
    ∃ type, getTensorType shape elemType order = .ok type ∧ type.shape = shape ∧
      type.elemType = elemType ∧ type.dimsOrder = order :=
  ⟨⟨shape, elemType, order, hdims, hquant⟩, by rw [getTensorType, dif_pos hdims, dif_pos hquant],
    rfl, rfl, rfl⟩

theorem getQuantizedAxis_rows {A a : ℕ} (hA : A ≠ 1)
    (h : getQuantizedAxis 0 [OC, IC, KY, KX] [OC, 1, 1, A] = some a) :
    [OC, 1, 1, A][a]? = some OC := by
  by_cases hOC : OC = 1
  · subst hOC
    have hnew : [1, 1, 1, A].findIdx (· ≠ 1) = 3 := by simp [List.findIdx_cons, hA]
    have hprev : 1 ≤ [1, IC, KY, KX].findIdx (· ≠ 1) := by simp [List.findIdx_cons]
    unfold getQuantizedAxis at h
    simp only [hnew] at h
    split_ifs at h
    all_goals cases h
    · rfl
    · have hle : ((0 : ℕ) + ((3 : ℕ) - ([1, IC, KY, KX].findIdx (· ≠ 1) : ℕ) : ℤ)).toNat ≤ 2 := by
        omega
      generalize ((0 : ℕ) + ((3 : ℕ) - ([1, IC, KY, KX].findIdx (· ≠ 1) : ℕ) : ℤ)).toNat = a at *
      have hcases : a = 0 ∨ a = 1 ∨ a = 2 := by omega
      rcases hcases with rfl | rfl | rfl <;> rfl
  · unfold getQuantizedAxis at h
    simp only [List.findIdx_cons] at h
    simp [hOC] at h
    obtain ⟨-, rfl⟩ := h
    rfl

variable (h : IsWeights floats content number zero OC IC KY KX)
include h

theorem IsWeights.numDims : content.type.dimsOrder.numDims = 4 := by
  rw [content.type.numDims_eq, h.shape]
  rfl

theorem IsWeights.reshapedOrder_numDims {shape : List ℕ} (hshape : shape.length = 4) :
    (content.type.reshapedOrder shape).numDims = shape.length := by
  unfold NDType.reshapedOrder
  split_ifs
  · exact List.length_range
  · rw [h.numDims, hshape]

theorem IsWeights.validQuant_rows {A : ℕ} (hA : A ≠ 1) :
    validateQuantElemType (content.type.elemType.reshape content.type.shape [OC, 1, 1, A])
      [OC, 1, 1, A] := by
  have hvalid := content.type.validQuant
  have hperChannel := h.perChannel
  rw [h.shape] at hvalid ⊢
  cases helem : content.type.elemType with
  | uniformQuantizedPerAxis isSigned storageWidth qDim zps =>
    rw [helem] at hvalid hperChannel
    obtain rfl : qDim = 0 := hperChannel qDim rfl
    have hzps : OC = zps.length := by simpa [validateQuantElemType] using hvalid
    unfold ElemType.reshape
    dsimp only
    split
    next axis haxis =>
      rw [validateQuantElemType, getQuantizedAxis_rows hA haxis, hzps]
    next => simpa [validateQuantElemType] using hzps
  | _ => trivial

open GetSparsityMapAttr

theorem IsWeights.inferOutputType_ok :
    ∃ outputType, inferOutputType content.type = .ok outputType ∧
      outputType.shape = [OC, 1, 1, alignValUp (IC * KY * KX) (16 * CHAR_BIT)] ∧
      outputType.elemType = .integer 1 .Signless := by
  have hrows : inferWeightsSparsityMapShape content.type.shape =
      .ok [OC, 1, 1, alignValUp (IC * KY * KX) (16 * CHAR_BIT)] := by
    simp only [inferWeightsSparsityMapShape, h.workload]
    rw [h.shape]
    rfl
  have hA : alignValUp (IC * KY * KX) (16 * CHAR_BIT) ≠ 1 := by
    intro hone
    have hdvd : 16 * CHAR_BIT ∣ 1 := hone ▸ Dvd.intro_left _ rfl
    revert hdvd
    decide
  generalize alignValUp (IC * KY * KX) (16 * CHAR_BIT) = A at *
  have hdims := h.reshapedOrder_numDims (show [OC, 1, 1, A].length = 4 from rfl)
  obtain ⟨type, hchange, hshape, -, -⟩ := getTensorType_ok hdims (h.validQuant_rows hA)
  have hchange' : content.type.changeShape [OC, 1, 1, A] = .ok type := by
    unfold NDType.changeShape
    dsimp only
    rw [throwUnless, if_pos hdims]
    exact hchange
  have horder : ∃ type', inDefaultOrder type = .ok type' ∧
      type'.shape = type.shape := by
    unfold inDefaultOrder
    split_ifs
    · exact ⟨type, rfl, rfl⟩
    · have hdims' : (DimsOrder.fromNumDims type.shape.length).numDims = type.shape.length :=
        List.length_range
      obtain ⟨type', hok, hsame, -, -⟩ := getTensorType_ok hdims' type.validQuant
      exact ⟨type', hok, hsame⟩
  obtain ⟨type', horder', hshape'⟩ := horder
  have hquant : validateQuantElemType (.integer 1 .Signless) type'.shape := trivial
  obtain ⟨outputType, hout, houtShape, houtElem, -⟩ := getTensorType_ok type'.numDims_eq hquant
  refine ⟨outputType, ?_, houtShape.trans (hshape'.trans hshape), houtElem⟩
  unfold inferOutputType
  rw [hrows]
  change (content.type.changeShape [OC, 1, 1, A] >>= _ : Except Fault NDType) = _
  rw [hchange']
  change (inDefaultOrder type >>= _ : Except Fault NDType) = _
  rw [horder']
  exact hout

end OutputType

section Map

theorem staticCast_eq {zp : ℤ} (hzero : castZeroPoint floats number zp = .ok zero) :
    staticCast floats number zp = .ok zero := by
  unfold castZeroPoint checkedCast at hzero
  cases number with
  | floating type => exact hzero
  | integer isSigned size =>
    dsimp only [Number.int64] at hzero
    split_ifs at hzero
    exact hzero

/-- The bits of the map: set for the weights that are not zero, clear in the padding. -/
def IsSparsityMap (floats : FloatCasts) (content : Content) (number : Number) (zero : Buffer)
    (OC workloadSize rowSize : ℕ) (map : Buffer) : Prop :=
  ∀ oc < OC, ∀ k < rowSize, bitAt map (oc * rowSize + k) =
    (decide (k < workloadSize) &&
      !sameValue number (content.weight floats number (oc * workloadSize + k)) zero)

theorem bitAt_of_block {buf : Buffer} {i j : ℕ} {byte : Byte} (hblock : block 1 i buf = [byte])
    (hj : j < 8) : bitAt buf (i * 8 + j) = byte.getLsbD j := by
  have hget := congrArg (·[0]?) hblock
  simp only [getElem?_block Nat.one_pos, Nat.mul_one, Nat.add_zero, List.getElem?_cons_zero] at hget
  have hdiv : (i * 8 + j) / CHAR_BIT = i := by
    unfold CHAR_BIT
    omega
  have hmod : (i * 8 + j) % CHAR_BIT = j := by
    unfold CHAR_BIT
    omega
  rw [bitAt, hdiv, hmod, List.getD_eq_getElem?_getD, hget]
  rfl

theorem rowSize_eq (workloadSize : ℕ) :
    ∃ bytes, alignValUp workloadSize (16 * CHAR_BIT) = bytes * 8 ∧ workloadSize ≤ bytes * 8 := by
  refine ⟨(workloadSize + 16 * CHAR_BIT - 1) / (16 * CHAR_BIT) * 16, ?_, ?_⟩
  · rw [alignValUp, mul_assoc]
    rfl
  · unfold CHAR_BIT
    omega

theorem block_zeros {n i : ℕ} (hi : i < n) :
    block 1 i (List.replicate n (0 : Byte)) = [0] := by
  have hflat : List.replicate n (0 : Byte) = (List.replicate n [(0 : Byte)]).flatten := by
    rw [← List.replicate_one, List.flatten_replicate_replicate, Nat.mul_one]
  have hblock : block 1 i (List.replicate n [(0 : Byte)]).flatten = [0] :=
    block_replicate _ rfl hi
  exact hflat ▸ hblock

variable (h : IsWeights floats content number zero OC IC KY KX)
include h

theorem IsWeights.sparsityByte_ok {oc group : ℕ} (hoc : oc < OC)
    (hgroup : group * 8 + 8 ≤ IC * KY * KX) :
    content.sparsityByte floats number zero (oc * (IC * KY * KX) + group * CHAR_BIT) =
      .ok (zeroBits number zero (fun j =>
        content.weight floats number (oc * (IC * KY * KX) + (group * 8 + j))) 8) := by
  apply sparsityByte_eq
  intro j hj
  have hlt : group * 8 + j < IC * KY * KX := by omega
  rw [Nat.add_assoc]
  exact h.getItem_ok (position_lt hoc hlt)

theorem IsWeights.generateSparsityMap_ok (hrows : OC = 0 ∨ 8 ∣ IC * KY * KX)
    (fresh : ℕ → Byte) {zp : ℤ} (hzero : castZeroPoint floats number zp = .ok zero)
    {outputType : NDType}
    (hshape : outputType.shape = [OC, 1, 1, alignValUp (IC * KY * KX) (16 * CHAR_BIT)])
    (helem : outputType.elemType = .integer 1 .Signless) :
    ∃ data, content.generateSparsityMap floats fresh number zp outputType =
        .ok ⟨outputType, sparsityMapElementType, data, false⟩ ∧
      IsSparsityMap floats content number zero OC (IC * KY * KX)
        (alignValUp (IC * KY * KX) (16 * CHAR_BIT)) data := by
  obtain ⟨groups, hgroups⟩ : ∃ groups, (IC * KY * KX + CHAR_BIT - 1) / CHAR_BIT = groups :=
    ⟨_, rfl⟩
  have hwhole : ∀ oc < OC, IC * KY * KX = 8 * groups := by
    intro oc hoc
    unfold CHAR_BIT at hgroups
    omega
  have hgroupsLe : groups * 8 ≤ IC * KY * KX + 7 := by
    unfold CHAR_BIT at hgroups
    omega
  obtain ⟨bytes, hbytes, hle⟩ := rowSize_eq (IC * KY * KX)
  rw [hbytes] at hshape ⊢
  have hsize : storageBytes sparsityMapElementType outputType.getNumElements =
      OC * bytes := by
    have hcount : outputType.getNumElements = OC * bytes * 8 := by
      rw [NDType.getNumElements, hshape]
      simp [mul_assoc]
    rw [storageBytes, hcount]
    change (1 * (OC * bytes * 8) + 7) / 8 = OC * bytes
    omega
  have hfill : (allocTempBuffer fresh outputType sparsityMapElementType
      false).fillWithZero floats = .ok ⟨outputType, sparsityMapElementType,
        List.replicate (OC * bytes) 0, false⟩ := by
    have hlength := length_allocTempBuffer fresh outputType sparsityMapElementType
    rw [hsize] at hlength
    unfold fillWithZero
    rw [show (allocTempBuffer fresh outputType sparsityMapElementType
      false).type.elemType = .integer 1 .Signless from helem]
    rw [hlength]
    rfl
  have hloop : ∃ data, loop_2d OC groups (fun oc group buf => do
      let byteValue ← content.sparsityByte floats number zero
        (oc * (IC * KY * KX) + group * CHAR_BIT)
      store [byteValue] (oc * (bytes * 8) / CHAR_BIT + group) buf)
      (List.replicate (OC * bytes) 0) = .ok data ∧
      Places 1 [OC, groups] [OC, bytes] id (fun point => [zeroBits number zero (fun j =>
        content.weight floats number
          (point.getD 0 0 * (IC * KY * KX) + (point.getD 1 0 * 8 + j))) 8])
        (List.replicate (OC * bytes) 0) data := by
    refine Places.of_loop (enumerates_two OC groups) (by simp) (fun _ _ => rfl) ?_
      (fun _ _ _ _ heq => heq) ?_
    · intro k hk
      obtain ⟨oc, group, rfl⟩ := List.length_eq_two.mp hk.length_eq
      simp only [inBox_cons] at hk
      simpa using ⟨hk.1, show group < bytes by omega⟩
    · intro j hj buf hbuf
      obtain ⟨oc, group⟩ := j
      obtain ⟨hoc, hgroup⟩ : oc < OC ∧ group < groups := by
        simpa [List.pair_mem_product] using hj
      dsimp only
      rw [h.sparsityByte_ok hoc (by omega)]
      change store _ (oc * (bytes * 8) / CHAR_BIT + group) buf = _
      have hrow : oc * (bytes * 8) / CHAR_BIT = oc * bytes := by
        rw [← mul_assoc]
        exact Nat.mul_div_cancel _ (by decide)
      rw [hrow]
      simp [rowMajor]
  obtain ⟨data, hrun, hplaces⟩ := hloop
  refine ⟨data, ?_, ?_⟩
  · unfold generateSparsityMap
    rw [hfill]
    change (staticCast floats number zp >>= fun zero => loop_2d (outputType.shape.getD 0 0)
      (((content.type.shape.drop 1).prod + CHAR_BIT - 1) / CHAR_BIT) _ _ >>= _ :
      Except Fault Content) = _
    rw [staticCast_eq hzero, hshape, h.workload]
    have hprod : (List.drop 1 [OC, 1, 1, bytes * 8]).prod = bytes * 8 := by simp
    rw [hgroups, hprod]
    change (loop_2d OC groups _ _ >>= _ : Except Fault Content) = _
    rw [hrun]
    rfl
  · intro oc hoc k hk
    have hwork := hwhole oc hoc
    have hbyte : k / 8 < bytes := by omega
    have hj : k % 8 < 8 := Nat.mod_lt k (by decide)
    have hindex : oc * (bytes * 8) + k = (oc * bytes + k / 8) * 8 + k % 8 := by
      rw [Nat.add_mul, mul_assoc, Nat.add_assoc, Nat.div_add_mod']
    have hrow : rowMajor [OC, bytes] [oc, k / 8] = oc * bytes + k / 8 := by simp [rowMajor]
    have hdiv : k / 8 * 8 + k % 8 = k := Nat.div_add_mod' k 8
    rw [hindex]
    by_cases hlt : k < IC * KY * KX
    · have hin : InBox [OC, groups] [oc, k / 8] := by
        simpa using ⟨hoc, show k / 8 < groups by omega⟩
      have hplaced := hplaces.placed _ hin
      rw [id_eq, hrow] at hplaced
      rw [bitAt_of_block hplaced hj, getLsbD_zeroBits _ le_rfl hj]
      simp [hj, hlt, hdiv]
    · have hfree : ∀ point, InBox [OC, groups] point → id point ≠ [oc, k / 8] := by
        intro point hpoint heq
        have hlt' : k / 8 < groups := by
          rw [id_eq] at heq
          rw [heq] at hpoint
          simp only [inBox_cons] at hpoint
          exact hpoint.2.1
        omega
      have hin : InBox [OC, bytes] [oc, k / 8] := by simpa using ⟨hoc, hbyte⟩
      have hkept := hplaces.kept _ hin hfree
      have hbound : oc * bytes + k / 8 < OC * bytes := position_lt hoc hbyte
      rw [hrow, block_zeros hbound] at hkept
      rw [bitAt_of_block hkept hj]
      simp [hlt]

end Map

end Vpux.Const
