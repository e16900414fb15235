import Vpux.Const.CopyTo
import Vpux.Const.SwizzleBytes

/-! Constants that are swizzled when they are folded (`attributes/swizzle_transform.cpp`). -/
namespace Vpux.Const
open Data BufferTransform
open VPU (ArchKind alignSizeForSwizzling)

def getUInt8Type : ElemType := .integer 8 .Unsigned

def Content.fromRawBuffer (type : NDType) (data : Buffer) (storageElemType : ElemType)
    (isSplat : Bool) : Content :=
  ⟨type, storageElemType, data, isSplat⟩

structure SwizzleConstantAttr where
  swizzleKey : BitVec 32
  arch : ArchKind
  alignSize : Option Bool
  deriving DecidableEq, Repr

/-- `fresh` is what the memory of the output holds before it is written. -/
def swizzleValues (floats : FloatCasts) (fresh : ℕ → Byte) (input : Content)
    (bufferSwizzleTransform : AddressTransform) (outputType : NDType) : Except Fault Content := do
  let output := Content.allocTempBuffer fresh outputType outputType.elemType false
  let totalSize ← outputType.getTotalAllocSize
  let inputValues ← input.copyTo floats (List.replicate totalSize 0)
  let inputTotalSize ← input.type.getTotalAllocSize
  let padVal := if input.isSplat then inputValues.headD 0 else 0
  let inputValues :=
    if totalSize > inputTotalSize then
      inputValues.take inputTotalSize ++ List.replicate (totalSize - inputTotalSize) padVal
    else inputValues
  throwUnless (inputValues.length = output.data.length) "Mismatch of buffer sizes"
  let data ←
    if input.isSplat then .ok inputValues
    else swizzle bufferSwizzleTransform inputValues output.data
  .ok { output with data := data }

namespace SwizzleConstantAttr

def inferOutputType (attr : SwizzleConstantAttr) (inputType : NDType) : Except Fault NDType :=
  if attr.alignSize = some true then do
    let size ← inputType.getTotalAllocSize
    let newSize ← alignSizeForSwizzling size attr.arch
    if getElemTypeSize inputType.elemType = 1 then
      inputType.changeShape [newSize * CHAR_BIT, 1, 1, 1]
    else inputType.changeShapeElemType [newSize, 1, 1, 1] getUInt8Type
  else .ok inputType

/-- Bits as bytes. A repeated bit that is set becomes a byte of ones. -/
def packInput (input : Content) (packedInputType : NDType) : Content :=
  let data := if input.isSplat ∧ input.data.headD 0 = 1 then [0xFF] else input.data
  Content.fromRawBuffer packedInputType data getUInt8Type input.isSplat

def transform (attr : SwizzleConstantAttr) (floats : FloatCasts) (fresh : ℕ → Byte)
    (input : Content) : Except Fault Content := do
  let dataWidth := getElemTypeSize input.type.elemType
  let outputType ← attr.inferOutputType input.type
  let bufferSwizzleTransform ← AddressTransform.setStaggerBits attr.swizzleKey attr.arch
  if dataWidth ≠ 1 then swizzleValues floats fresh input bufferSwizzleTransform outputType
  else do
    throwUnless (input.type.getNumElements % CHAR_BIT = 0) "Elements cannot be packed in bytes"
    let packedNumElems := input.type.getNumElements / CHAR_BIT
    let packedInputType ←
      input.type.changeShapeElemType [1, 1, 1, packedNumElems] getUInt8Type
    let packedOutput ← swizzleValues floats fresh (packInput input packedInputType)
      bufferSwizzleTransform outputType
    .ok { Content.moveBuffer outputType packedOutput with
      storageElemType := input.storageElemType }

/-- The checks that the transformation makes on a type. -/
structure Accepts (attr : SwizzleConstantAttr) (type : NDType) : Prop where
  arch : attr.arch = .VPUX37XX
  output : ∃ outputType, attr.inferOutputType type = .ok outputType
  sized : ∃ size, type.getTotalAllocSize = .ok size
  packed : getElemTypeSize type.elemType = 1 → type.getNumElements % CHAR_BIT = 0 ∧
    ∃ packedType, type.changeShapeElemType [1, 1, 1, type.getNumElements / CHAR_BIT]
      getUInt8Type = .ok packedType

/-- Deswizzling the transformed constant gives back its bytes, whatever the memory held. -/
def RestoresConstant (attr : SwizzleConstantAttr) (floats : FloatCasts) (content : Content)
    (bytes : Buffer) : Prop :=
  ∃ t, AddressTransform.setStaggerBits attr.swizzleKey attr.arch = .ok t ∧
    ∀ fresh, ∃ output, attr.transform floats fresh content = .ok output ∧
      Restores t output.data bytes

end SwizzleConstantAttr

open Content

section Staged

/-- The bytes that are swizzled, or kept as they are for a splat. -/
def staged (isSplat : Bool) (bytes : Buffer) (size : ℕ) : Buffer :=
  bytes ++ List.replicate (size - bytes.length) (if isSplat then bytes.headD 0 else 0)

theorem length_staged {isSplat : Bool} {bytes : Buffer} {size : ℕ} (h : bytes.length ≤ size) :
    (staged isSplat bytes size).length = size := by
  rw [staged, List.length_append, List.length_replicate]
  omega

theorem staged_self (isSplat : Bool) (bytes : Buffer) : staged isSplat bytes bytes.length =
    bytes := by
  rw [staged, Nat.sub_self, List.replicate_zero, List.append_nil]

theorem take_staged (isSplat : Bool) (bytes : Buffer) (size : ℕ) :
    (staged isSplat bytes size).take bytes.length = bytes := List.take_left

variable {floats : FloatCasts} {fresh : ℕ → Byte} {input : Content} {t : AddressTransform}
  {outputType : NDType} {bytes values : Buffer} {size : ℕ}

theorem swizzleValues_eq (htotal : outputType.getTotalAllocSize = .ok size)
    (halloc : storageBytes outputType.elemType outputType.getNumElements = size)
    (hcopy : input.copyTo floats (List.replicate size 0) = .ok values)
    (hlength : values.length = size) (htake : values.take bytes.length = bytes)
    (hinput : input.type.getTotalAllocSize = .ok bytes.length) (hle : bytes.length ≤ size)
    (hempty : bytes = [] → size = 0) :
    swizzleValues floats fresh input t outputType =
      (if input.isSplat then .ok (staged input.isSplat bytes size)
        else swizzle t (staged input.isSplat bytes size) ((List.range size).map fresh)) >>=
      fun data => .ok ⟨outputType, outputType.elemType, data, false⟩ := by
  have hpadded : (if size > bytes.length then values.take bytes.length ++
      List.replicate (size - bytes.length) (if input.isSplat then values.headD 0 else 0)
      else values) = staged input.isSplat bytes size := by
    unfold staged
    split
    · next hlt =>
      have hhead : values.headD 0 = bytes.headD 0 := by
        obtain ⟨byte, rest, hbytes⟩ := List.exists_cons_of_ne_nil
          (fun hnil => absurd (hempty hnil) (by omega) : bytes ≠ [])
        rw [hbytes] at htake
        cases values with
        | nil => simp at htake
        | cons value values =>
          rw [hbytes]
          exact (List.cons.inj htake).1
      rw [htake, hhead]
    · next hge =>
      rw [show size - bytes.length = 0 by omega, List.replicate_zero, List.append_nil, ← htake,
        List.take_of_length_le (by omega)]
  have hdata : (allocTempBuffer fresh outputType outputType.elemType false).data =
      (List.range size).map fresh := by
    rw [← halloc]
    rfl
  have hsizes : (staged input.isSplat bytes size).length =
      (allocTempBuffer fresh outputType outputType.elemType false).data.length := by
    rw [length_staged hle, hdata, List.length_map, List.length_range]
  unfold swizzleValues
  rw [htotal]
  change input.copyTo floats (List.replicate size 0) >>= _ = _
  rw [hcopy]
  rw [hinput]
  dsimp only [bind, Except.bind]
  rw [hpadded, throwUnless, if_pos hsizes, hdata]
  cases input.isSplat <;> rfl

end Staged

section Types

variable {type newType : NDType} {shape : List ℕ}

theorem getTotalAllocSize_of_ok (h : ∃ size, type.getTotalAllocSize = .ok size) :
    type.getTotalAllocSize =
      .ok (storageBytes type.elemType type.getNumElements) := by
  obtain ⟨size, hsize⟩ := h
  apply NDType.getTotalAllocSize_eq
  by_cases hrank : type.getRank = 0
  · right
    rw [NDType.getTotalAllocSize, if_pos hrank, toByte] at hsize
    split_ifs at hsize with hbyte
    exact Nat.dvd_of_mod_eq_zero hbyte
  · exact .inl hrank

theorem getElemTypeSize_reshape (elemType : ElemType) (prevShape newShape : List ℕ) :
    getElemTypeSize (elemType.reshape prevShape newShape) = getElemTypeSize elemType := by
  unfold ElemType.reshape
  split
  · split <;> rfl
  · rfl

theorem changeShape_shape (h : type.changeShape shape = .ok newType) :
    newType.shape = shape ∧ getElemTypeSize newType.elemType = getElemTypeSize type.elemType := by
  obtain ⟨_, -, h⟩ := bind_eq_ok.mp h
  obtain ⟨hshape, helem, -⟩ := getTensorType_shape h
  exact ⟨hshape, by rw [helem, getElemTypeSize_reshape]⟩

theorem changeShapeElemType_shape {elemType : ElemType}
    (h : type.changeShapeElemType shape elemType = .ok newType) :
    newType.shape = shape ∧ newType.elemType = elemType := by
  obtain ⟨_, -, h⟩ := bind_eq_ok.mp h
  obtain ⟨hshape, helem, -⟩ := getTensorType_shape h
  exact ⟨hshape, helem⟩

theorem getTotalAllocSize_of_shape {a b c d : ℕ} (h : newType.shape = [a, b, c, d]) :
    newType.getTotalAllocSize =
      .ok (storageBytes newType.elemType newType.getNumElements) := by
  apply NDType.getTotalAllocSize_eq
  left
  rw [NDType.getRank, h]
  exact Nat.succ_ne_zero 3

end Types

namespace SwizzleConstantAttr

def outputSize (attr : SwizzleConstantAttr) (size : ℕ) : ℕ :=
  if attr.alignSize = some true then (size + 511) / 512 * 512 else size

variable {attr : SwizzleConstantAttr} {floats : FloatCasts} {content : Content} {bytes : Buffer}

theorem le_outputSize (attr : SwizzleConstantAttr) (size : ℕ) : size ≤ attr.outputSize size := by
  unfold outputSize
  split <;> omega

variable {type : NDType}

theorem inferOutputType_sizes (haccepts : attr.Accepts type) {size : ℕ}
    (hsize : storageBytes type.elemType type.getNumElements = size) :
    ∃ outputType, attr.inferOutputType type = .ok outputType ∧
      outputType.getTotalAllocSize = .ok (attr.outputSize size) ∧
      storageBytes outputType.elemType outputType.getNumElements =
        attr.outputSize size := by
  obtain ⟨outputType, houtput⟩ := haccepts.output
  have htotal := getTotalAllocSize_of_ok haccepts.sized
  rw [hsize] at htotal
  refine ⟨outputType, houtput, ?_⟩
  unfold inferOutputType at houtput
  unfold outputSize
  split at houtput
  · next halign =>
    rw [htotal] at houtput
    change alignSizeForSwizzling size attr.arch >>= _ = _ at houtput
    rw [haccepts.arch, VPU.alignSizeForSwizzling_eq] at houtput
    rw [if_pos halign]
    generalize (size + 511) / 512 * 512 = newSize at *
    split at houtput
    · next hbit =>
      obtain ⟨hshape, helem⟩ := changeShape_shape houtput
      have hbytes : storageBytes outputType.elemType outputType.getNumElements =
          newSize := by
        simp only [storageBytes, helem, hbit, NDType.getNumElements, hshape, CHAR_BIT,
          List.prod_cons, List.prod_nil]
        omega
      exact ⟨(getTotalAllocSize_of_shape hshape).trans (congrArg Except.ok hbytes), hbytes⟩
    · obtain ⟨hshape, helem⟩ := changeShapeElemType_shape houtput
      have hbytes : storageBytes outputType.elemType outputType.getNumElements =
          newSize := by
        simp only [storageBytes, helem, getUInt8Type, getElemTypeSize,
          NDType.getNumElements, hshape, CHAR_BIT, List.prod_cons, List.prod_nil]
        omega
      exact ⟨(getTotalAllocSize_of_shape hshape).trans (congrArg Except.ok hbytes), hbytes⟩
  · next halign =>
    cases houtput
    rw [if_neg halign]
    exact ⟨htotal, hsize⟩

theorem checkedCast_byte (floats : FloatCasts) (byte : Byte) :
    checkedCast floats (.integer false 1) (.integer false 1) [byte] = .ok [byte] := by
  have hvalue : decode false [byte] = byte.toNat := by simp [decode]
  have hin : Number.lowest false 1 ≤ (byte.toNat : ℤ) ∧ (byte.toNat : ℤ) ≤ Number.max false 1 := by
    simp only [Number.lowest, Number.max, CHAR_BIT, Bool.false_eq_true, if_false]
    omega
  have hencode : encode 1 byte.toNat = [byte] := by
    simp [encode, BitVec.ofInt_natCast]
  simp only [checkedCast, hvalue]
  rw [if_pos hin, hencode]

theorem bytes_of_repeated {storageElemType : ElemType} {number storage : Number}
    {data value : Buffer} (hdispatch : dispatchByElemType type.elemType = .ok number)
    (hwidth : ¬getElemTypeSize type.elemType < CHAR_BIT)
    (hstorage : dispatchByElemType storageElemType = .ok storage)
    (hdata : data.length = storage.size)
    (hcast : checkedCast floats storage number data = .ok value) :
    (fromRawBuffer type data storageElemType true).bytes floats =
      .ok ((List.range type.getNumElements).flatMap fun _ => value) := by
  have hvalues : (fromRawBuffer type data storageElemType true).getValues floats number =
      .ok ((fromRawBuffer type data storageElemType true).getItem floats number) :=
    bind_eq_ok.mpr ⟨storage, hstorage, bind_eq_ok.mpr ⟨(), if_pos fun _ => hdata, rfl⟩⟩
  have hitem : ∀ i ∈ List.range type.getNumElements,
      (fromRawBuffer type data storageElemType true).getItem floats number i =
        .ok value := by
    intro i _
    exact bind_eq_ok.mpr ⟨storage, hstorage, bind_eq_ok.mpr ⟨(), if_pos hdata, hcast⟩⟩
  have hcopied : ¬(getElemTypeSize type.elemType < CHAR_BIT ∨
      ¬true = true ∧ type.elemType = storageElemType) := by
    rintro (hsmall | ⟨hdense, -⟩)
    · exact hwidth hsmall
    · exact hdense rfl
  unfold Content.bytes fromRawBuffer
  rw [if_neg (fun h => hwidth h.2), if_neg hcopied]
  exact bind_eq_ok.mpr ⟨number, hdispatch, bind_eq_ok.mpr ⟨_, hvalues, bind_eq_ok.mpr
    ⟨_, mapM_ok hitem, rfl⟩⟩⟩

theorem bytes_of_repeatedByte (helem : type.elemType = getUInt8Type) (byte : Byte) :
    (fromRawBuffer type [byte] getUInt8Type true).bytes floats =
      .ok (List.replicate type.getNumElements byte) := by
  have hdispatch : dispatchByElemType getUInt8Type = .ok (.integer false 1) := by decide
  have hflat : ∀ n : ℕ, ((List.range n).flatMap fun _ => [byte]) = List.replicate n byte := by
    intro n
    induction n with
    | zero => rfl
    | succ n ih =>
      rw [List.range_succ, List.flatMap_append, ih, List.flatMap_singleton, List.replicate_succ']
  rw [← hflat]
  apply bytes_of_repeated _ _ hdispatch rfl (checkedCast_byte floats byte)
  · rw [helem, hdispatch]
  · rw [helem]
    decide

theorem packed_bit {value : Byte} (h : value.toNat < 2 ^ 1 ∨ value = 0xFF) :
    (if value = 1 then 0xFF else value) = filledByte 1 value := by
  have hall : ∀ v : Byte, v.toNat < 2 ^ 1 ∨ v = 0xFF →
      (if v = 1 then 0xFF else v) = filledByte 1 v := by decide
  exact hall value h

section Packed

variable {packedType : NDType} (hconst : content.IsConstant)
  (hbit : getElemTypeSize content.type.elemType = 1)
  (hpack : content.type.getNumElements % CHAR_BIT = 0)
  (htype : content.type.changeShapeElemType [1, 1, 1, content.type.getNumElements / CHAR_BIT]
    getUInt8Type = .ok packedType)
include hconst hbit hpack htype

omit hconst in
theorem storageBytes_packed :
    storageBytes content.type.elemType content.type.getNumElements =
        packedType.getNumElements ∧
      storageBytes packedType.elemType packedType.getNumElements =
        packedType.getNumElements := by
  obtain ⟨hshape, helem⟩ := changeShapeElemType_shape htype
  have hcount : packedType.getNumElements = content.type.getNumElements / CHAR_BIT := by
    rw [NDType.getNumElements, hshape]
    simp
  have hbyte : CHAR_BIT ∣ getElemTypeSize packedType.elemType := by
    rw [helem]
    decide
  constructor
  · rw [storageBytes, hbit, hcount]
    unfold CHAR_BIT at *
    omega
  · rw [storageBytes_of_dvd hbyte, helem]
    exact Nat.mul_one _

theorem packInput_isConstant : (packInput content packedType).IsConstant := by
  obtain ⟨-, helem⟩ := changeShapeElemType_shape htype
  have hwidth : ¬getElemTypeSize packedType.elemType < CHAR_BIT := by
    rw [helem]
    decide
  constructor
  · right
    change 0 < getElemTypeSize packedType.elemType ∧ CHAR_BIT ∣ getElemTypeSize packedType.elemType
    rw [helem]
    decide
  · intro hsplat _
    have hdense : content.isSplat = false := hsplat
    have hsmall : getElemTypeSize content.type.elemType < CHAR_BIT := by
      rw [hbit]
      decide
    have hdata : (packInput content packedType).data = content.data := by
      simp [packInput, fromRawBuffer, hdense]
    obtain ⟨hbits, hbytes⟩ := storageBytes_packed hbit hpack htype
    rw [hdata, hconst.stored hdense (.inr hsmall), hbits]
    exact hbytes.symm
  · intro _ hsmall
    exact absurd hsmall hwidth

theorem packInput_bytes (hbytes : content.bytes floats = .ok bytes) :
    (packInput content packedType).bytes floats = .ok bytes := by
  obtain ⟨-, helem⟩ := changeShapeElemType_shape htype
  obtain ⟨hbits, -⟩ := storageBytes_packed hbit hpack htype
  have hsmall : getElemTypeSize content.type.elemType < CHAR_BIT := by
    rw [hbit]
    decide
  cases hsplat : content.isSplat with
  | false =>
    have hinput : bytes = content.data := by
      rcases bytes_cases hbytes with ⟨h, -⟩ | ⟨-, -, h⟩ | ⟨h, -⟩
      · rw [hsplat] at h
        cases h
      · exact h
      · exact absurd hsmall h
    simp [Content.bytes, packInput, fromRawBuffer, hsplat, helem, hinput]
  | true =>
    obtain ⟨value, hdata, hvalue⟩ := hconst.splat hsplat hsmall
    have hinput : bytes = List.replicate packedType.getNumElements (filledByte 1 value) := by
      rcases bytes_cases hbytes with ⟨-, -, h⟩ | ⟨h, -⟩ | ⟨h, -⟩
      · rw [h, hbits, hbit, hdata]
        rfl
      · rw [hsplat] at h
        cases h
      · exact absurd hsmall h
    have hpacked : packInput content packedType =
        fromRawBuffer packedType [filledByte 1 value] getUInt8Type true := by
      have hfit : value.toNat < 2 ^ 1 ∨ value = 0xFF := by
        rw [hbit] at hvalue
        exact hvalue.imp_right And.right
      rw [← packed_bit hfit, packInput, hsplat, hdata]
      by_cases hone : value = 1
      · subst hone
        rfl
      · rw [if_neg (fun h => hone h.2), if_neg hone]
    rw [hpacked, bytes_of_repeatedByte helem, hinput]

end Packed

section Transform

variable (hconst : content.IsConstant) (hbytes : content.bytes floats = .ok bytes)
  (haccepts : attr.Accepts content.type) {t : AddressTransform}
  (ht : AddressTransform.setStaggerBits attr.swizzleKey attr.arch = .ok t)
include hconst hbytes haccepts ht

theorem transform_eq (fresh : ℕ → Byte) : ∃ outputType storageElemType,
    attr.transform floats fresh content =
      (if content.isSplat then .ok (staged content.isSplat bytes (attr.outputSize bytes.length))
        else swizzle t (staged content.isSplat bytes (attr.outputSize bytes.length))
          ((List.range (attr.outputSize bytes.length)).map fresh)) >>=
      fun data => .ok ⟨outputType, storageElemType, data, false⟩ := by
  have hlength := length_bytes hconst hbytes
  obtain ⟨outputType, houtput, htotal, halloc⟩ := inferOutputType_sizes haccepts hlength.symm
  have hempty : bytes = [] → attr.outputSize bytes.length = 0 := by
    rintro rfl
    unfold outputSize
    split <;> rfl
  have hle := le_outputSize attr bytes.length
  refine ⟨outputType, ?_⟩
  by_cases hbit : getElemTypeSize content.type.elemType = 1
  · obtain ⟨hpack, packedType, htype⟩ := haccepts.packed hbit
    obtain ⟨hshape, helem⟩ := changeShapeElemType_shape htype
    obtain ⟨hbits, hpacked⟩ := storageBytes_packed hbit hpack htype
    have hwidth : getElemTypeSize (packInput content packedType).type.elemType ≠ 1 := by
      change getElemTypeSize packedType.elemType ≠ 1
      rw [helem]
      decide
    obtain ⟨values, hcopy, hvalues, htake⟩ := copyTo_bytes
      (packInput_isConstant hconst hbit hpack htype)
      (packInput_bytes hconst hbit hpack htype hbytes) hwidth hle
    have hinput : packedType.getTotalAllocSize = .ok bytes.length := by
      rw [getTotalAllocSize_of_shape hshape, hpacked, ← hbits, hlength]
    refine ⟨content.storageElemType, ?_⟩
    unfold transform
    rw [houtput]
    rw [ht]
    change (if getElemTypeSize content.type.elemType ≠ 1 then _ else _) = _
    rw [if_neg (not_not.mpr hbit), throwUnless, if_pos hpack]
    change content.type.changeShapeElemType _ _ >>= _ = _
    rw [htype]
    change swizzleValues floats fresh _ t outputType >>= _ = _
    rw [swizzleValues_eq htotal halloc hcopy hvalues htake hinput hle hempty, bind_assoc]
    rfl
  · obtain ⟨values, hcopy, hvalues, htake⟩ := copyTo_bytes hconst hbytes hbit hle
    have hinput := getTotalAllocSize_of_ok haccepts.sized
    rw [← hlength] at hinput
    refine ⟨outputType.elemType, ?_⟩
    unfold transform
    rw [houtput]
    rw [ht]
    change (if getElemTypeSize content.type.elemType ≠ 1 then _ else _) = _
    rw [if_pos hbit]
    exact swizzleValues_eq htotal halloc hcopy hvalues htake hinput hle hempty

theorem restoresConstant_iff : attr.RestoresConstant floats content bytes ↔
    if content.isSplat then Restores t (staged true bytes (attr.outputSize bytes.length)) bytes
    else ∀ fresh : ℕ → Byte, ∃ mid, swizzle t (staged false bytes (attr.outputSize bytes.length))
      ((List.range (attr.outputSize bytes.length)).map fresh) = .ok mid ∧ Restores t mid bytes := by
  have htransform := transform_eq hconst hbytes haccepts ht
  cases hsplat : content.isSplat with
  | true =>
    rw [hsplat] at htransform
    constructor
    · rintro ⟨t', ht', hall⟩
      obtain rfl : t = t' := Except.ok.inj (ht.symm.trans ht')
      obtain ⟨output, houtput, hrestores⟩ := hall fun _ => 0
      obtain ⟨_, _, heq⟩ := htransform fun _ => 0
      rw [houtput] at heq
      obtain rfl := Except.ok.inj heq
      exact hrestores
    · intro hrestores
      refine ⟨t, ht, fun fresh => ?_⟩
      obtain ⟨_, _, heq⟩ := htransform fresh
      exact ⟨_, heq, hrestores⟩
  | false =>
    rw [hsplat] at htransform
    constructor
    · rintro ⟨t', ht', hall⟩ fresh
      obtain rfl : t = t' := Except.ok.inj (ht.symm.trans ht')
      obtain ⟨output, houtput, hrestores⟩ := hall fresh
      obtain ⟨_, _, heq⟩ := htransform fresh
      rw [houtput] at heq
      obtain ⟨mid, hmid, hout⟩ := bind_eq_ok.mp heq.symm
      obtain rfl := Except.ok.inj hout
      exact ⟨mid, hmid, hrestores⟩
    · intro hall
      refine ⟨t, ht, fun fresh => ?_⟩
      obtain ⟨mid, hmid, hrestores⟩ := hall fresh
      obtain ⟨_, _, heq⟩ := htransform fresh
      refine ⟨_, heq.trans (bind_eq_ok.mpr ⟨mid, hmid, rfl⟩), hrestores⟩

omit hconst haccepts in
theorem restores_splat (hsplat : content.isSplat = true) :
    Restores t (staged true bytes (attr.outputSize bytes.length)) bytes ↔
      bytes.length ≤ 2 ^ 32 ∧
        if attr.alignSize = some true then
          (∀ byte ∈ bytes, byte = bytes.headD 0) ∨ LastLineStays attr.swizzleKey bytes.length
        else 16 ∣ bytes.length ∧ LastLineStays attr.swizzleKey bytes.length := by
  obtain ⟨elemSize, helem, hwhole, hrepeat⟩ := bytes_of_splat hbytes hsplat
  by_cases halign : attr.alignSize = some true
  · have hsize : attr.outputSize bytes.length = (bytes.length + 511) / 512 * 512 := if_pos halign
    have hiff := restores_splat_iff ht helem hwhole hrepeat hsize
    rw [if_pos halign]
    constructor
    · intro hrestores
      have hlarge := length_le_of_restores
        ((le_outputSize attr bytes.length).trans (length_staged (le_outputSize attr _)).ge)
          hrestores
      exact ⟨hlarge, (hiff (by omega)).mp hrestores⟩
    · rintro ⟨hlarge, hcond⟩
      exact (hiff (by omega)).mpr hcond
  · have hsize : attr.outputSize bytes.length = bytes.length := if_neg halign
    rw [if_neg halign, hsize, staged_self]
    constructor
    · intro hrestores
      have hlarge := length_le_of_restores le_rfl hrestores
      exact ⟨hlarge, lastLineStays_of_restores ht hlarge hrestores⟩
    · rintro ⟨hlarge, hblocks, hlast⟩
      refine (restores_iff ht hlarge hblocks hlast le_rfl).mpr fun k hk => ?_
      exact hrepeat _ (physicalByte_lt_of_stays hlast hk) k hk (physicalByte_mod helem k)

omit hconst hbytes haccepts in
theorem restores_dense (bytes : Buffer) :
    (∀ fresh : ℕ → Byte, ∃ mid, swizzle t (staged false bytes (attr.outputSize bytes.length))
      ((List.range (attr.outputSize bytes.length)).map fresh) = .ok mid ∧
        Restores t mid bytes) ↔
      bytes.length ≤ 2 ^ 32 ∧ (attr.alignSize = some true ∨
        16 ∣ bytes.length ∧ LastLineStays attr.swizzleKey bytes.length) := by
  have hstaged : (staged false bytes (attr.outputSize bytes.length)).length =
      attr.outputSize bytes.length := length_staged (le_outputSize attr _)
  have hfresh : ∀ fresh : ℕ → Byte, ((List.range (attr.outputSize bytes.length)).map fresh).length =
      (staged false bytes (attr.outputSize bytes.length)).length := by
    intro fresh
    rw [List.length_map, List.length_range, hstaged]
  constructor
  · intro hall
    obtain ⟨mid, hmid, hrestores⟩ := hall fun _ => 0
    have hlength : mid.length = attr.outputSize bytes.length := by
      rw [length_of_copyBlocks hmid, hfresh, hstaged]
    have hlarge := length_le_of_restores (hlength ▸ le_outputSize attr _) hrestores
    refine ⟨hlarge, or_iff_not_imp_left.mpr fun halign => ?_⟩
    have hsize : attr.outputSize bytes.length = bytes.length := if_neg halign
    rw [hsize, staged_self] at hmid
    exact lastLineStays_of_swizzle ht hlarge (by rw [List.length_map, List.length_range]) hmid
  · rintro ⟨hlarge, hcond⟩ fresh
    by_cases halign : attr.alignSize = some true
    · have hsize : attr.outputSize bytes.length = (bytes.length + 511) / 512 * 512 := if_pos halign
      exact restores_of_swizzle ht (by omega) (by omega) (.inl (by omega)) (hfresh fresh)
        (take_staged _ _ _)
    · have hsize : attr.outputSize bytes.length = bytes.length := if_neg halign
      obtain ⟨hblocks, hlast⟩ := hcond.resolve_left halign
      rw [hsize, staged_self] at hfresh ⊢
      exact restores_of_swizzle ht hlarge hblocks hlast (hfresh fresh) List.take_length

end Transform

/-- A swizzled constant is restored exactly when it has at most `2 ^ 32` bytes, and when, without
alignment, it fills blocks of 16 bytes that stay inside of it, and, with alignment, it is dense or
has equal bytes, or its last line is full or not rotated. -/
theorem swizzleConstant_restores_iff (attr : SwizzleConstantAttr) (floats : FloatCasts)
    (content : Content) (hconst : content.IsConstant) (bytes : Buffer)
    (hbytes : content.bytes floats = .ok bytes) (haccepts : attr.Accepts content.type) :
    attr.RestoresConstant floats content bytes ↔
      bytes.length ≤ 2 ^ 32 ∧
        if attr.alignSize = some true then
          content.isSplat = false ∨ (∀ byte ∈ bytes, byte = bytes.headD 0) ∨
            LastLineStays attr.swizzleKey bytes.length
        else 16 ∣ bytes.length ∧ LastLineStays attr.swizzleKey bytes.length := by
  obtain ⟨t, ht⟩ : ∃ t, AddressTransform.setStaggerBits attr.swizzleKey attr.arch = .ok t := by
    rw [haccepts.arch]
    exact ⟨_, rfl⟩
  rw [restoresConstant_iff hconst hbytes haccepts ht]
  cases hsplat : content.isSplat with
  | true =>
    rw [if_pos rfl, restores_splat hbytes ht hsplat]
    simp
  | false =>
    rw [if_neg Bool.false_ne_true, restores_dense ht]
    by_cases halign : attr.alignSize = some true
    · simp [halign]
    · simp [halign]

theorem numDims_fromNumDims_four : (DimsOrder.fromNumDims 4).numDims = 4 := rfl

/-- A repeated one of two bytes, which fills a line and a quarter of the next. -/
def splatOfOnes : Content :=
  Content.fromRawBuffer ⟨[1, 1, 1, 320], .integer 16 .Unsigned, DimsOrder.fromNumDims 4,
    numDims_fromNumDims_four, trivial⟩ [1, 0] (.integer 16 .Unsigned) true

theorem splatOfOnes_isConstant : splatOfOnes.IsConstant := by
  constructor
  · decide
  · intro h
    cases h
  · intro _ h
    exact absurd h (by decide)

/-- The bytes of ones that take two bytes. -/
def bytesOfOnes (count : ℕ) : Buffer := (List.range count).flatMap fun _ => [1, 0]

theorem length_bytesOfOnes (count : ℕ) : (bytesOfOnes count).length = count * 2 := by
  induction count with
  | zero => rfl
  | succ count ih =>
    unfold bytesOfOnes at *
    rw [List.range_succ, List.flatMap_append, List.length_append, ih, List.flatMap_singleton,
      Nat.succ_mul]
    rfl

theorem splatOfOnes_bytes (floats : FloatCasts) :
    splatOfOnes.bytes floats = .ok (bytesOfOnes 320) := by
  have hnumber : dispatchByElemType (.integer 16 .Unsigned) = .ok (.integer false 2) := by decide
  exact bytes_of_repeated hnumber (by decide) hnumber rfl rfl

theorem splatOfOnes_accepted (key : BitVec 32) :
    (SwizzleConstantAttr.mk key .VPUX37XX (some true)).Accepts splatOfOnes.type := by
  constructor
  · rfl
  · exact ⟨_, rfl⟩
  · exact ⟨_, rfl⟩
  · intro h
    exact absurd h (by decide)

/-- Under a key without stagger bits a splat stays where it is. -/
theorem swizzleConstant_restores_iff_keyless :
    (SwizzleConstantAttr.mk 0 .VPUX37XX (some true)).RestoresConstant zeroCasts splatOfOnes
      (bytesOfOnes 320) := by
  apply (swizzleConstant_restores_iff ⟨0, .VPUX37XX, some true⟩ zeroCasts splatOfOnes
    splatOfOnes_isConstant _ (splatOfOnes_bytes zeroCasts) (splatOfOnes_accepted 0)).mpr
  rw [length_bytesOfOnes, if_pos rfl]
  exact ⟨by decide, .inr (.inr (by decide))⟩

/-- Under the largest key the padding of a splat, with its first byte only, gets into it. -/
theorem not_restores_splat :
    splatOfOnes.IsConstant ∧ (SwizzleConstantAttr.mk 5 .VPUX37XX (some true)).Accepts
      splatOfOnes.type ∧ ∀ floats : FloatCasts,
      splatOfOnes.bytes floats = .ok (bytesOfOnes 320) ∧
      ¬(SwizzleConstantAttr.mk 5 .VPUX37XX (some true)).RestoresConstant floats splatOfOnes
        (bytesOfOnes 320) := by
  refine ⟨splatOfOnes_isConstant, splatOfOnes_accepted 5, fun floats =>
    ⟨splatOfOnes_bytes floats, fun hrestores => ?_⟩⟩
  have hkey : AddressTransform.setStaggerBits 5 .VPUX37XX = .ok ⟨5, 31, 4⟩ := by decide
  have hsplat := (restoresConstant_iff splatOfOnes_isConstant (splatOfOnes_bytes floats)
    (splatOfOnes_accepted 5) hkey).mp hrestores
  obtain ⟨-, hcond⟩ := (restores_splat (splatOfOnes_bytes floats) hkey rfl).mp hsplat
  rw [if_pos rfl, length_bytesOfOnes] at hcond
  rcases hcond with hequal | hlast
  · have hzero : (0 : Byte) ∈ bytesOfOnes 320 :=
      List.mem_flatMap.mpr ⟨0, List.mem_range.mpr (by decide), by decide⟩
    exact absurd (hequal 0 hzero) (by decide)
  · exact absurd hlast (by decide)

end SwizzleConstantAttr

end Vpux.Const
