import Mathlib.Algebra.BigOperators.Ring.Finset
import Vpux.Const.SparsityMap
import Vpux.Core.StrideReqs

/-! The bytes of a constant, and the copy of them that `Content::copyTo` makes. -/
namespace Vpux.Const
open Data List

namespace NDType

/-- Tensors are always compact. -/
def getMemStrides (type : NDType) : List ℤ :=
  (Core.StrideReqs.compact type.dimsOrder.numDims).calcStrides (getElemTypeSize type.elemType)
    (type.getMemShape.map Int.ofNat)

def getTotalAllocSize (type : NDType) : Except Fault ℕ :=
  if type.getRank = 0 then toByte (getElemTypeSize type.elemType)
  else
    let bits := (type.getMemStrides.headD 0 * (type.getMemShape.headD 0 : ℤ)).toNat
    .ok ((bits + (CHAR_BIT - 1)) / CHAR_BIT)

theorem headD_getMemStrides {type : NDType} (hrank : type.getRank ≠ 0) :
    type.getMemStrides.headD 0 * (type.getMemShape.headD 0 : ℤ) =
      (getElemTypeSize type.elemType * type.getNumElements : ℕ) := by
  obtain ⟨size, sizes, hsizes⟩ := exists_cons_of_length_pos
    (show 0 < type.getMemShape.length by
      rw [getMemShape, DimsOrder.length_memoryOrder, type.numDims_eq]
      exact Nat.pos_of_ne_zero hrank)
  have hextent := innerExtent_compactStrides (getElemTypeSize type.elemType)
  have hprod : ((size :: sizes).map Int.ofNat).prod = ((size :: sizes).prod : ℕ) :=
    (Nat.cast_list_prod _).symm
  rw [← prod_getMemShape, getMemStrides, Core.StrideReqs.calcStrides_compact, hsizes,
    Nat.cast_mul, ← hprod, ← hextent]
  rfl

theorem getTotalAllocSize_eq {type : NDType}
    (h : type.getRank ≠ 0 ∨ CHAR_BIT ∣ getElemTypeSize type.elemType) :
    type.getTotalAllocSize =
      .ok (Content.storageBytes type.elemType type.getNumElements) := by
  unfold getTotalAllocSize
  split
  · next hrank =>
    have hbyte := h.resolve_left (not_not.mpr hrank)
    have hone : type.getNumElements = 1 := by
      rw [getNumElements, length_eq_zero_iff.mp hrank, prod_nil]
    rw [toByte_of_dvd hbyte, storageBytes_of_dvd hbyte, hone, one_mul]
  · next hrank =>
    simp only [headD_getMemStrides hrank, Int.toNat_natCast]
    rfl

end NDType

/-- A byte filled with copies of the low bits of a value. -/
def filledByte (width : ℕ) (value : Byte) : Byte :=
  (BitVec.ofBoolListLE ((List.range CHAR_BIT).map fun k => value.getLsbD (k % width))).cast
    (by rw [List.length_map, List.length_range, CHAR_BIT])

namespace Content

variable (floats : FloatCasts)

/-- `getValues`, whose elements are converted when they are read. -/
def getValues (content : Content) (number : Number) : Except Fault (ℕ → Except Fault Buffer) := do
  let storage ← dispatchByElemType content.storageElemType
  throwUnless (content.isSplat → content.data.length = storage.size)
    "Splat data store size doesn't match element type size"
  .ok (content.getItem floats number)

/-- The bytes of a constant with all of its elements stored. -/
def bytes (content : Content) : Except Fault Buffer :=
  let elemType := content.type.elemType
  if content.isSplat ∧ getElemTypeSize elemType < CHAR_BIT then
    .ok (List.replicate (storageBytes elemType content.type.getNumElements)
      (filledByte (getElemTypeSize elemType) (content.data.headD 0)))
  else if getElemTypeSize elemType < CHAR_BIT ∨
      ¬content.isSplat ∧ elemType = content.storageElemType then .ok content.data
  else do
    let number ← dispatchByElemType elemType
    let range ← content.getValues floats number
    let values ← (List.range content.type.getNumElements).mapM range
    .ok values.flatten

/-- The value of a sub-byte splat, shifted into all of a byte. -/
def splatByteValue (elemSize : ℕ) (subByteValue : Byte) : Byte :=
  (List.range (CHAR_BIT / elemSize)).foldl
    (fun byteValue _ => (byteValue <<< elemSize) + subByteValue) 0

def fillBuf (range : ℕ → Except Fault Buffer) (size valueByteSize : ℕ) : Write := fun buf => do
  throwUnless (size * valueByteSize ≤ buf.length)
    "Buffer with byte size is not enough to hold actual elements"
  loop_1d size (fun i buf => do
    let value ← range i
    store value (i * valueByteSize) buf) buf

def copyTo (content : Content) : Write := fun buf =>
  let elemType := content.type.elemType
  let isTrivialStorage := elemType = content.storageElemType
  let isSubByte := getElemTypeSize elemType < CHAR_BIT
  if ¬content.isSplat ∧ (isTrivialStorage ∨ isSubByte) then do
    throwUnless (content.data.length ≤ buf.length)
      "Byte sizes of the input buffer is smaller then stored elements"
    store content.data 0 buf
  else if content.isSplat ∧ isSubByte then
    match content.data with
    | subByteValue :: _ =>
      .ok (List.replicate buf.length (splatByteValue (getElemTypeSize elemType) subByteValue))
    | [] => .error .overread
  else do
    let number ← dispatchByElemType elemType
    let range ← content.getValues floats number
    fillBuf range content.type.getNumElements number.size buf

/-- The stored bytes are those of the elements: small elements are packed, and a bit that is
repeated is stored as itself or as a byte of ones. -/
structure IsConstant (content : Content) : Prop where
  width : getElemTypeSize content.type.elemType ∈ [1, 2, 4] ∨
    0 < getElemTypeSize content.type.elemType ∧ CHAR_BIT ∣ getElemTypeSize content.type.elemType
  stored : content.isSplat = false →
    content.type.elemType = content.storageElemType ∨
      getElemTypeSize content.type.elemType < CHAR_BIT →
    content.data.length = storageBytes content.type.elemType content.type.getNumElements
  splat : content.isSplat = true → getElemTypeSize content.type.elemType < CHAR_BIT →
    ∃ value, content.data = [value] ∧
      (value.toNat < 2 ^ getElemTypeSize content.type.elemType ∨
        getElemTypeSize content.type.elemType = 1 ∧ value = 0xFF)

section Copy

variable {floats : FloatCasts} {content : Content} {range : ℕ → Except Fault Buffer}

theorem fillBuf_eq {value : ℕ → Buffer} {count size : ℕ}
    (hrange : ∀ i < count, range i = .ok (value i)) (hsize : ∀ i < count, (value i).length = size)
    {buf : Buffer} (hbuf : count * size ≤ buf.length) :
    fillBuf range count size buf =
      .ok ((List.range count).flatMap value ++ buf.drop (count * size)) := by
  have hloop : ∀ n ≤ count, (List.range n).foldlM (fun buf i => do
      let value ← range i
      store value (i * size) buf) buf =
        (.ok ((List.range n).flatMap value ++ buf.drop (n * size)) : Except Fault Buffer) ∧
      ((List.range n).flatMap value).length = n * size := by
    intro n hn
    induction n with
    | zero => simp [pure, Except.pure]
    | succ n ih =>
      obtain ⟨hstep, hlength⟩ := ih (by omega)
      have hvalue := hsize n (by omega)
      have hroom : (n + 1) * size ≤ count * size := Nat.mul_le_mul_right size hn
      rw [Nat.succ_mul] at hroom
      have hstore : n * size + (value n).length ≤
          ((List.range n).flatMap value ++ buf.drop (n * size)).length := by
        rw [length_append, length_drop, hlength, hvalue]
        omega
      have hnext : overwrite ((List.range n).flatMap value ++ buf.drop (n * size)) (n * size)
          (value n) = (List.range n).flatMap value ++ value n ++ buf.drop ((n + 1) * size) := by
        rw [overwrite, take_left' hlength, hvalue, drop_append, drop_drop, hlength,
          drop_eq_nil_of_le (by omega), nil_append, Nat.succ_mul,
          Nat.add_sub_cancel_left]
      rw [List.range_succ, List.foldlM_append, hstep, List.flatMap_append, List.flatMap_singleton]
      refine ⟨?_, by rw [length_append, hlength, hvalue, Nat.succ_mul]⟩
      rw [← hnext]
      change (range n >>= _ : Except Fault Buffer) >>= _ = _
      rw [hrange n (by omega)]
      change (store (value n) (n * size) _ : Except Fault Buffer) >>= _ = _
      rw [store, if_pos hstore]
      rfl
  unfold fillBuf
  rw [throwUnless, if_pos hbuf]
  exact (hloop count le_rfl).1

structure Converted (floats : FloatCasts) (content : Content) (bytes : Buffer) (number : Number)
    (range : ℕ → Except Fault Buffer) (value : ℕ → Buffer) : Prop where
  dispatch : dispatchByElemType content.type.elemType = .ok number
  values : content.getValues floats number = .ok range
  range_eq : ∀ i < content.type.getNumElements, range i = .ok (value i)
  length_eq : ∀ i < content.type.getNumElements, (value i).length = number.size
  bytes_eq : bytes = (List.range content.type.getNumElements).flatMap value
  splat : content.isSplat = true → ∀ i < content.type.getNumElements,
    ∀ j < content.type.getNumElements, value i = value j

theorem getItem_of_splat (hsplat : content.isSplat = true) (number : Number) (i j : ℕ) :
    content.getItem floats number i = content.getItem floats number j := by
  unfold getItem
  simp only [hsplat, if_true]

theorem exists_converted {b : Buffer} (hbytes : content.bytes floats = .ok b)
    (hwidth : ¬getElemTypeSize content.type.elemType < CHAR_BIT)
    (hstorage : content.isSplat = true ∨ content.type.elemType ≠ content.storageElemType) :
    ∃ number range value, Converted floats content b number range value := by
  have hcopied : ¬(getElemTypeSize content.type.elemType < CHAR_BIT ∨
      ¬content.isSplat ∧ content.type.elemType = content.storageElemType) := by
    rintro (hsmall | ⟨hdense, htrivial⟩)
    · exact hwidth hsmall
    · exact hstorage.elim hdense (fun hne => hne htrivial)
  unfold bytes at hbytes
  rw [if_neg (fun h => hwidth h.2), if_neg hcopied, bind_eq_ok] at hbytes
  obtain ⟨number, hdispatch, hbytes⟩ := hbytes
  obtain ⟨range, hvalues, hbytes⟩ := bind_eq_ok.mp hbytes
  obtain ⟨values, hmap, hbytes⟩ := bind_eq_ok.mp hbytes
  have hitem : range = content.getItem floats number := by
    obtain ⟨storage, -, hvalues⟩ := bind_eq_ok.mp hvalues
    obtain ⟨_, -, hvalues⟩ := bind_eq_ok.mp hvalues
    exact (Except.ok.inj hvalues).symm
  have hrange : ∀ i < content.type.getNumElements, range i = .ok ((range i).toOption.getD []) := by
    intro i hi
    obtain ⟨value, hvalue⟩ := mapM_runs hmap i (mem_range.mpr hi)
    rw [hvalue]
    rfl
  have hmapped := mapM_ok fun i hi => hrange i (mem_range.mp hi)
  rw [hmap] at hmapped
  refine ⟨number, range, fun i => (range i).toOption.getD [], hdispatch, hvalues, hrange, ?_, ?_,
    ?_⟩
  · intro i hi
    have hread := hrange i hi
    rw [hitem] at hread ⊢
    exact length_getItem hread
  · rw [← Except.ok.inj hbytes, Except.ok.inj hmapped]
    rfl
  · intro hsplat i _ j _
    rw [hitem, getItem_of_splat hsplat number i j]

theorem Converted.length_bytes {b : Buffer} {number : Number} {value : ℕ → Buffer}
    (h : Converted floats content b number range value) :
    b.length = content.type.getNumElements * number.size := by
  have hlength : ∀ n ≤ content.type.getNumElements,
      ((List.range n).flatMap value).length = n * number.size := by
    intro n hn
    induction n with
    | zero => simp
    | succ n ih =>
      rw [List.range_succ, List.flatMap_append, List.flatMap_singleton, length_append,
        ih (by omega), h.length_eq n (by omega), Nat.succ_mul]
  rw [h.bytes_eq]
  exact hlength _ le_rfl

theorem dispatchByElemType_size_mem {elemType : ElemType} {number : Number}
    (h : dispatchByElemType elemType = .ok number) : number.size ∈ [1, 2, 4, 8] := by
  cases elemType with
  | integer width signedness =>
    simp only [dispatchByElemType] at h
    split_ifs at h with hwidth
    cases h
    simp only [mem_cons, not_mem_nil, or_false] at hwidth
    rcases hwidth with rfl | rfl | rfl | rfl <;> simp [Number.size, CHAR_BIT]
  | uniformQuantized isSigned storageWidth zeroPoint =>
    simp only [dispatchByElemType] at h
    split_ifs at h
    cases h
    simp [Number.size]
  | uniformQuantizedPerAxis isSigned storageWidth qDim zeroPoints =>
    simp only [dispatchByElemType] at h
    split_ifs at h
    cases h
    simp [Number.size]
  | _ =>
    cases h
    decide

theorem splatByteValue_eq {width : ℕ} (hwidth : width ∈ [1, 2, 4]) {value : Byte}
    (h : value.toNat < 2 ^ width) : splatByteValue width value = filledByte width value := by
  have hall : ∀ w ∈ [1, 2, 4], ∀ v : Byte, v.toNat < 2 ^ w →
      splatByteValue w v = filledByte w v := by decide
  exact hall width hwidth value h

theorem bytes_cases {b : Buffer} (hbytes : content.bytes floats = .ok b) :
    (content.isSplat = true ∧ getElemTypeSize content.type.elemType < CHAR_BIT ∧
      b = List.replicate (storageBytes content.type.elemType content.type.getNumElements)
        (filledByte (getElemTypeSize content.type.elemType) (content.data.headD 0))) ∨
    (content.isSplat = false ∧ (content.type.elemType = content.storageElemType ∨
      getElemTypeSize content.type.elemType < CHAR_BIT) ∧ b = content.data) ∨
    (¬getElemTypeSize content.type.elemType < CHAR_BIT ∧
      (content.isSplat = true ∨ content.type.elemType ≠ content.storageElemType) ∧
      ∃ number range value, Converted floats content b number range value) := by
  by_cases hsmall : getElemTypeSize content.type.elemType < CHAR_BIT
  · cases hsplat : content.isSplat with
    | true =>
      simp only [bytes, hsplat, hsmall, true_and, if_true, Except.ok.injEq] at hbytes
      exact .inl ⟨rfl, hsmall, hbytes.symm⟩
    | false =>
      simp only [bytes, hsplat, hsmall, true_or, if_true, false_and, if_false, Except.ok.injEq,
        Bool.false_eq_true] at hbytes
      exact .inr (.inl ⟨rfl, .inr hsmall, hbytes.symm⟩)
  · by_cases hstorage : content.isSplat = true ∨ content.type.elemType ≠ content.storageElemType
    · exact .inr (.inr ⟨hsmall, hstorage, exists_converted hbytes hsmall hstorage⟩)
    · obtain ⟨hsplat, htrivial⟩ := not_or.mp hstorage
      rw [Bool.not_eq_true] at hsplat
      rw [ne_eq, not_not] at htrivial
      unfold bytes at hbytes
      rw [if_neg (fun h => hsmall h.2), if_pos (.inr ⟨by simp [hsplat], htrivial⟩)] at hbytes
      exact .inr (.inl ⟨hsplat, .inl htrivial, (Except.ok.inj hbytes).symm⟩)

variable (hconst : content.IsConstant) {b : Buffer} (hbytes : content.bytes floats = .ok b)
include hconst hbytes

theorem length_bytes :
    b.length = storageBytes content.type.elemType content.type.getNumElements := by
  rcases bytes_cases hbytes with ⟨-, -, rfl⟩ | ⟨hsplat, hstored, rfl⟩ |
    ⟨-, -, number, range, value, hconverted⟩
  · exact length_replicate
  · exact hconst.stored hsplat hstored
  · have hsize := dispatchByElemType_size hconverted.dispatch
    have hpos : 0 < CHAR_BIT := by decide
    rw [hconverted.length_bytes, storageBytes_of_dvd (Dvd.intro _ hsize.symm), hsize,
      Nat.mul_div_cancel_left _ hpos]

theorem copyTo_bytes (hwidth : getElemTypeSize content.type.elemType ≠ 1) {size : ℕ}
    (hsize : b.length ≤ size) : ∃ values, content.copyTo floats (List.replicate size 0) =
      .ok values ∧ values.length = size ∧ values.take b.length = b := by
  rcases bytes_cases hbytes with ⟨hsplat, hsmall, rfl⟩ | ⟨hsplat, hstored, rfl⟩ |
    ⟨hsmall, hstorage, number, range, value, hconverted⟩
  · obtain ⟨subByteValue, hdata, hvalue⟩ := hconst.splat hsplat hsmall
    have hfit := hvalue.resolve_right fun h => hwidth h.1
    have hsub : getElemTypeSize content.type.elemType ∈ [1, 2, 4] :=
      hconst.width.resolve_right fun h => absurd (Nat.le_of_dvd h.1 h.2) (Nat.not_le.mpr hsmall)
    rw [length_replicate] at hsize
    refine ⟨List.replicate size (splatByteValue (getElemTypeSize content.type.elemType)
      subByteValue), ?_, length_replicate, ?_⟩
    · unfold copyTo
      rw [if_neg (by simp [hsplat]), if_pos ⟨hsplat, hsmall⟩, hdata, length_replicate]
    · rw [length_replicate, take_replicate, Nat.min_eq_left hsize,
        splatByteValue_eq hsub hfit, hdata]
      rfl
  · refine ⟨content.data ++ List.replicate (size - content.data.length) 0, ?_, ?_,
      take_left⟩
    · have hfits : content.data.length ≤ (List.replicate size (0 : Byte)).length := by
        rwa [length_replicate]
      unfold copyTo
      rw [if_pos ⟨by simp [hsplat], hstored⟩, throwUnless, if_pos hfits]
      change store content.data 0 _ = _
      rw [store, if_pos (by omega), overwrite, take_zero, nil_append, Nat.zero_add,
        drop_replicate]
    · rw [length_append, length_replicate]
      omega
  · have hlength := hconverted.length_bytes
    refine ⟨b ++ List.replicate (size - b.length) 0, ?_, ?_, take_left⟩
    · have hneg : ¬(¬content.isSplat ∧ (content.type.elemType = content.storageElemType ∨
          getElemTypeSize content.type.elemType < CHAR_BIT)) := by
        rintro ⟨hdense, htrivial | hs⟩
        · exact hstorage.elim hdense (fun hne => hne htrivial)
        · exact hsmall hs
      unfold copyTo
      rw [if_neg hneg, if_neg (fun h => hsmall h.2), hconverted.dispatch]
      change content.getValues floats number >>= _ = _
      rw [hconverted.values]
      change fillBuf range content.type.getNumElements number.size _ = _
      rw [fillBuf_eq hconverted.range_eq hconverted.length_eq
        (by rw [length_replicate]; omega), hconverted.bytes_eq, drop_replicate,
        ← hconverted.bytes_eq, hlength]
    · rw [length_append, length_replicate]
      omega

omit hconst in
theorem bytes_of_splat (hsplat : content.isSplat = true) :
    ∃ elemSize ∈ [1, 2, 4, 8], elemSize ∣ b.length ∧
      ∀ k < b.length, ∀ k' < b.length, k % elemSize = k' % elemSize → b[k]? = b[k']? := by
  rcases bytes_cases hbytes with ⟨-, -, rfl⟩ | ⟨hdense, -⟩ |
    ⟨-, -, number, range, value, hconverted⟩
  · refine ⟨1, by simp, one_dvd _, fun k hk k' hk' _ => ?_⟩
    rw [length_replicate] at hk hk'
    rw [getElem?_replicate, getElem?_replicate, if_pos hk, if_pos hk']
  · rw [hsplat] at hdense
    cases hdense
  · have hsize := dispatchByElemType_size_mem hconverted.dispatch
    have hpos : 0 < number.size := by
      simp only [mem_cons, not_mem_nil, or_false] at hsize
      omega
    have hlength := hconverted.length_bytes
    have hread : ∀ k < b.length, k / number.size < content.type.getNumElements ∧
        b[k]? = (value (k / number.size))[k % number.size]? := by
      intro k hk
      have hlt : k / number.size < content.type.getNumElements := by
        rw [Nat.div_lt_iff_lt_mul hpos, ← hlength]
        exact hk
      refine ⟨hlt, ?_⟩
      have hitem := getElem?_flatMap_range hconverted.length_eq hlt (Nat.mod_lt k hpos)
      rw [Nat.div_add_mod', ← hconverted.bytes_eq] at hitem
      exact hitem
    refine ⟨number.size, hsize, hlength ▸ Nat.dvd_mul_left _ _, fun k hk k' hk' hmod => ?_⟩
    obtain ⟨hlt, hbyte⟩ := hread k hk
    obtain ⟨hlt', hbyte'⟩ := hread k' hk'
    rw [hbyte, hbyte', hmod, hconverted.splat hsplat _ hlt _ hlt']

end Copy

end Content

end Vpux.Const
