import Vpux.Const.ReadBytes
import Vpux.Const.SwizzleConstant

/-! The constants of an NCE task, put into one buffer (`passes/fuse_constants.cpp`). -/
namespace Vpux.VPUIP
open Vpux.Const Data

section Model

def getAllocSize (scheme : CompressionSchemeAttr) (elemType : ElemType) :
    Except Fault ℕ := do
  let elemByteSize ← toByte (getElemTypeSize elemType)
  let alignment := scheme.alignment.getD 1
  pure (scheme.numElems.map fun num => alignValUp (num * elemByteSize) alignment).sum

/-- The type of a constant in memory. Its strides are compact; swizzling and a fixed size come with
later passes. -/
structure BufferType where
  ndType : NDType
  compressionScheme : Option CompressionSchemeAttr
  deriving DecidableEq

def BufferType.getTotalAllocSize (type : BufferType) : Except Fault ℕ := do
  let elemType := type.ndType.elemType
  if type.ndType.getRank = 0 then toByte (getElemTypeSize elemType)
  else
    let bits := (type.ndType.getMemStrides.headD 0 * (type.ndType.getMemShape.headD 0 : ℤ)).toNat
    let allocSizeByte ← toByte bits
    match type.compressionScheme with
    | none => pure allocSizeByte
    | some scheme => getAllocSize scheme elemType

/-- A constant with its type and its folded content. -/
structure DeclareOp where
  type : BufferType
  content : Content
  deriving DecidableEq

/-- The constants in the order in which they are fused. -/
structure ConstantVector where
  weight_table : DeclareOp
  weights : Option DeclareOp
  weights_sparsity_map : Option DeclareOp
  activation_window : Option DeclareOp

def ConstantVector.toList (constants : ConstantVector) : List DeclareOp :=
  constants.weight_table :: (constants.weights.toList ++
    (constants.weights_sparsity_map.toList ++ constants.activation_window.toList))

def getSInt32Type : ElemType := .integer 32 .Signed

def getInt1Type : ElemType := .integer 1 .Signless

variable (floats : FloatCasts)

/-- Eight bits in a row are read as one byte. -/
def packedBytes (contentType : NDType) (content : Content) : Except Fault Buffer := do
  let packedNumElems := contentType.getNumElements / CHAR_BIT
  let packedContentType ← contentType.changeShapeElemType [1, 1, 1, packedNumElems] getUInt8Type
  let packedContent := Content.fromRawBuffer packedContentType content.data getUInt8Type
      content.isSplat
  packedContent.valueBytes floats (.integer false 1)

/-- What the loop over the constants adds to the buffer for one of them. -/
def DeclareOp.fusedValues (op : DeclareOp) : Except Fault Buffer :=
  let elemType := if op.type.compressionScheme.isSome then getUInt8Type else op.type.ndType.elemType
  if isQuantized elemType ∨ elemType = getUInt8Type then op.content.valueBytes floats
    (.integer false 1)
  else if elemType = .f16 then op.content.valueBytes floats (.floating .float16)
  else if elemType = getSInt32Type then op.content.valueBytes floats (.integer true 4)
  else if getElemTypeSize elemType = 1 then packedBytes floats op.type.ndType op.content
  else .error (.exception "Unsupported data type for constant")

/-- The announced size, and the buffer. -/
def populateFusedConstantBuffer (constants : List DeclareOp) : Except Fault (ℕ × Buffer) := do
  let totalTensorsize ← constants.foldlM (fun total op => do
    pure (total + (← op.type.getTotalAllocSize))) 0
  let fusedValuesBuf ← constants.foldlM (fun buf op => do
    pure (buf ++ (← op.fusedValues floats))) []
  pure (totalTensorsize, fusedValuesBuf)

structure SubViewOp where
  static_offsets : List ℕ
  static_sizes : List ℕ
  deriving DecidableEq, Repr

/-- The views into the fused constant, from an offset on. -/
def replaceConstantsWithFusedConstant : List DeclareOp → ℕ → Except Fault (List SubViewOp)
  | [], _ => pure []
  | constant :: constants, offset => do
    let size ← constant.type.getTotalAllocSize
    let subViewOps ← replaceConstantsWithFusedConstant constants (offset + size)
    pure (⟨[0, 0, 0, offset], [1, 1, 1, size]⟩ :: subViewOps)

/-- What the later passes take for the offset of a constant. -/
def getOffsetForConstant (subViewOp : SubViewOp) : Except Fault ℕ := do
  throwUnless (∀ offset ∈ subViewOp.static_offsets, (offset : ℤ) ≤ Number.max true 4)
    "Can not safely cast"
  pure (subViewOp.static_offsets.getLastD 0)

end Model

section Property

def normalizeQuantStorageType : ElemType → ElemType
  | .uniformQuantized isSigned storageWidth _ => .quantStorageType isSigned storageWidth
  | .uniformQuantizedPerAxis isSigned storageWidth _ _ => .quantStorageType isSigned storageWidth
  | elemType => elemType

/-- The content is of the type that is declared. What is left of sparse weights are plain bytes. -/
structure DeclareOp.IsDeclared (floats : FloatCasts) (op : DeclareOp) (bytes : Buffer) : Prop where
  constant : op.content.IsConstant
  bytes_eq : op.content.bytes floats = .ok bytes
  compressed : op.type.compressionScheme ≠ none →
    op.content.type.elemType = getUInt8Type ∧ op.type.getTotalAllocSize = .ok bytes.length
  shape : op.type.compressionScheme = none → op.content.type.shape = op.type.ndType.shape
  elemType : op.type.compressionScheme = none →
    op.content.type.elemType = op.type.ndType.elemType ∨
      op.content.type.elemType = normalizeQuantStorageType op.type.ndType.elemType

/-- The element types that an NCE task takes. -/
structure ConstantVector.Typed (constants : ConstantVector) : Prop where
  weight_table : constants.weight_table.type.ndType.elemType = getSInt32Type
  weights : ∀ op ∈ constants.weights, op.type.ndType.elemType ∈ [.f16, .bf16] ∨
    isQuantized op.type.ndType.elemType
  weights_sparsity_map : ∀ op ∈ constants.weights_sparsity_map, op.type.ndType.elemType =
    getInt1Type
  activation_window : ∀ op ∈ constants.activation_window, op.type.ndType.elemType = getUInt8Type

def SubViewOp.offset (subViewOp : SubViewOp) : ℕ := subViewOp.static_offsets.getLastD 0

def SubViewOp.size (subViewOp : SubViewOp) : ℕ := subViewOp.static_sizes.getLastD 0

/-- Every constant is where its view is, and nothing else is in the buffer. -/
structure ReadsBack (floats : FloatCasts) (constants : List DeclareOp) (totalTensorsize : ℕ)
    (fusedValuesBuf : Buffer) (subViewOps : List SubViewOp) : Prop where
  size : fusedValuesBuf.length = totalTensorsize
  bytes : List.Forall₂ (fun (op : DeclareOp) (view : SubViewOp) => op.content.bytes floats =
    .ok ((fusedValuesBuf.drop view.offset).take view.size)) constants subViewOps
  apart : subViewOps.Pairwise fun view view' => view.offset + view.size ≤ view'.offset
  offset : ∀ view ∈ subViewOps, ∀ offset, getOffsetForConstant view = .ok offset → offset =
    view.offset

/-- The constant is compressed, or it has one byte for each quantized value, a repeated bit fills
its byte, and what is read as `float16` is what was stored. -/
def DeclareOp.KeepsBytes (floats : FloatCasts) (op : DeclareOp) : Prop :=
  let elemType := op.type.ndType.elemType
  op.type.compressionScheme = none → op.type.ndType.getNumElements ≠ 0 →
    (isQuantized elemType → getElemTypeSize elemType = CHAR_BIT) ∧
    (elemType = getInt1Type → op.content.isSplat = true → op.content.data.headD 0 ∈ [0, 0xFF]) ∧
    (elemType = .f16 → op.content.isSplat = false → op.content.storageElemType = .f16 →
      ∀ i < op.type.ndType.getNumElements,
        floats.cast (.floating .float16) (.floating .float16) (block 2 i op.content.data) =
          .ok (block 2 i op.content.data))

/-- Where a floating-point number can be converted to both types of one byte, it is converted to the
same byte. -/
def ConvertsBytes (floats : FloatCasts) : Prop :=
  ∀ type x value value', floats.cast (.floating type) (.integer true 1) x = .ok value →
    floats.cast (.floating type) (.integer false 1) x = .ok value' → value' = value

end Property

open List

section Constant

variable {floats : FloatCasts} {op : DeclareOp} {bytes values : Buffer} {size : ℕ}

theorem getElemTypeSize_normalizeQuantStorageType (elemType : ElemType) :
    getElemTypeSize (normalizeQuantStorageType elemType) = getElemTypeSize elemType := by
  cases elemType <;> rfl

section

variable (h : op.IsDeclared floats bytes) (hscheme : op.type.compressionScheme = none)
include h hscheme

theorem DeclareOp.IsDeclared.numElements_eq :
    op.content.type.getNumElements = op.type.ndType.getNumElements := by
  rw [NDType.getNumElements, NDType.getNumElements, h.shape hscheme]

theorem DeclareOp.IsDeclared.elemTypeSize_eq :
    getElemTypeSize op.content.type.elemType = getElemTypeSize op.type.ndType.elemType := by
  rcases h.elemType hscheme with heq | heq
  · rw [heq]
  · rw [heq, getElemTypeSize_normalizeQuantStorageType]

end

theorem toByte_eq_ok {bits byte : ℕ} (h : toByte bits = .ok byte) : bits = byte * CHAR_BIT := by
  unfold toByte at h
  split_ifs at h with hdvd
  rw [← Except.ok.inj h]
  exact (Nat.div_mul_cancel (Nat.dvd_of_mod_eq_zero hdvd)).symm

theorem getTotalAllocSize_bits (hscheme : op.type.compressionScheme = none)
    (hsize : op.type.getTotalAllocSize = .ok size) :
    getElemTypeSize op.type.ndType.elemType * op.type.ndType.getNumElements = size * CHAR_BIT := by
  unfold BufferType.getTotalAllocSize at hsize
  split at hsize
  next hrank =>
    have hone : op.type.ndType.getNumElements = 1 := by
      rw [NDType.getNumElements, length_eq_zero_iff.mp hrank, prod_nil]
    rw [hone, mul_one]
    exact toByte_eq_ok hsize
  next hrank =>
    obtain ⟨allocSizeByte, hbits, hsize⟩ := bind_eq_ok.mp hsize
    rw [hscheme] at hsize
    obtain rfl := Except.ok.inj hsize
    rw [NDType.headD_getMemStrides hrank, Int.toNat_natCast] at hbits
    exact toByte_eq_ok hbits

open Content

theorem DeclareOp.IsDeclared.size_eq (h : op.IsDeclared floats bytes)
    (hsize : op.type.getTotalAllocSize = .ok size) : size = bytes.length := by
  cases hscheme : op.type.compressionScheme with
  | some scheme =>
    have hcompressed := (h.compressed (by simp [hscheme])).2
    exact Except.ok.inj (hsize.symm.trans hcompressed)
  | none =>
    have hbits := getTotalAllocSize_bits hscheme hsize
    rw [length_bytes h.constant h.bytes_eq, storageBytes, h.elemTypeSize_eq hscheme,
      h.numElements_eq hscheme, hbits]
    unfold CHAR_BIT
    omega

variable {isSigned : Bool}

theorem checkedCast_self {k i n : ℕ} {data value : Buffer} (hdata : data.length = n * k)
    (hi : i < n) (h : checkedCast floats (.integer isSigned k) (.integer false k) (block k i data) =
      .ok value ∨ checkedCast floats (.integer isSigned k) (.integer isSigned k) (block k i data) =
      .ok value) : value = block k i data := by
  have hlength : (block k i data).length = k :=
    length_block (hdata ▸ Nat.mul_le_mul_right k (Nat.succ_le_of_lt hi))
  have hvalue : value = encode k (decode isSigned (block k i data)) :=
    h.elim checkedCast_integer checkedCast_integer
  have hencode := encode_decode isSigned (block k i data)
  rw [hlength] at hencode
  rw [hvalue, hencode]

section

variable (h : op.IsDeclared floats bytes)
include h

theorem DeclareOp.IsDeclared.length_data {number : Number}
    (hdispatch : dispatchByElemType op.content.type.elemType = .ok number)
    (hdense : op.content.isSplat = false)
    (htrivial : op.content.type.elemType = op.content.storageElemType) :
    op.content.data.length = op.content.type.getNumElements * number.size := by
  have hwidth := dispatchByElemType_size hdispatch
  have hstored := h.constant.stored hdense (.inl htrivial)
  rw [hstored, storageBytes_of_dvd (Dvd.intro _ hwidth.symm), hwidth,
    Nat.mul_div_cancel_left _ (by decide)]

theorem DeclareOp.IsDeclared.valueBytes_integer {k : ℕ}
    (hdispatch : dispatchByElemType op.content.type.elemType = .ok (.integer isSigned k))
    (hvalues : op.content.valueBytes floats (.integer isSigned k) = .ok values) :
    values = bytes := by
  apply valueBytes_eq_bytes h.constant h.bytes_eq hdispatch hvalues rfl
  · intro hdense htrivial i hi value hcast
    exact checkedCast_self (h.length_data hdispatch hdense htrivial) hi (.inr hcast)
  · intro storage x value value' hcast hcast'
    exact Except.ok.inj (hcast'.symm.trans hcast)

theorem DeclareOp.IsDeclared.valueBytes_byte (hconverts : ConvertsBytes floats)
    (hdispatch : dispatchByElemType op.content.type.elemType = .ok (.integer isSigned 1))
    (hvalues : op.content.valueBytes floats (.integer false 1) = .ok values) : values = bytes := by
  apply valueBytes_eq_bytes h.constant h.bytes_eq hdispatch hvalues rfl
  · intro hdense htrivial i hi value hcast
    exact checkedCast_self (h.length_data hdispatch hdense htrivial) hi (.inl hcast)
  · intro storage x value value' hcast hcast'
    cases isSigned with
    | false => exact Except.ok.inj (hcast'.symm.trans hcast)
    | true =>
      cases storage with
      | integer isSigned' k => rw [checkedCast_integer hcast, checkedCast_integer hcast']
      | floating type => exact hconverts type x value value' hcast hcast'

end

theorem dispatchByElemType_quantized {elemType declared : ElemType} (hquant : isQuantized declared)
    (hwidth : getElemTypeSize declared = CHAR_BIT)
    (h : elemType = declared ∨ elemType = normalizeQuantStorageType declared) :
    ∃ isSigned, dispatchByElemType elemType = .ok (.integer isSigned 1) := by
  cases declared with
  | uniformQuantized isSigned storageWidth zeroPoint =>
    obtain rfl : storageWidth = CHAR_BIT := hwidth
    rcases h with rfl | rfl
    · exact ⟨isSigned, rfl⟩
    · exact ⟨_, rfl⟩
  | uniformQuantizedPerAxis isSigned storageWidth qDim zeroPoints =>
    obtain rfl : storageWidth = CHAR_BIT := hwidth
    rcases h with rfl | rfl
    · exact ⟨isSigned, rfl⟩
    · exact ⟨_, rfl⟩
  | _ => cases hquant

section

variable (h : op.IsDeclared floats bytes)
include h

theorem DeclareOp.IsDeclared.length_quantized (hsize : op.type.getTotalAllocSize = .ok size)
    (hscheme : op.type.compressionScheme = none)
    (hvalues : op.content.valueBytes floats (.integer false 1) = .ok values) :
    values.length = bytes.length ↔
      (op.type.ndType.getNumElements ≠ 0 → getElemTypeSize op.type.ndType.elemType = CHAR_BIT) := by
  have hlength := length_valueBytes hvalues
  rw [h.numElements_eq hscheme, Number.size, mul_one] at hlength
  have hbits := getTotalAllocSize_bits hscheme hsize
  rw [h.size_eq hsize] at hbits
  constructor
  · intro heq hne
    rw [← heq, hlength, mul_comm] at hbits
    exact Nat.eq_of_mul_eq_mul_left (Nat.pos_of_ne_zero hne) hbits
  · intro hwidth
    by_cases hne : op.type.ndType.getNumElements = 0
    · rw [hne, mul_zero] at hbits
      unfold CHAR_BIT at hbits
      omega
    · rw [hwidth hne, mul_comm] at hbits
      rw [hlength]
      exact Nat.eq_of_mul_eq_mul_right (by decide) hbits

theorem DeclareOp.IsDeclared.fused_quantized (hconverts : ConvertsBytes floats)
    (hsize : op.type.getTotalAllocSize = .ok size) (hscheme : op.type.compressionScheme = none)
    (hquant : isQuantized op.type.ndType.elemType)
    (hvalues : op.content.valueBytes floats (.integer false 1) = .ok values) :
    values = bytes ↔
      (op.type.ndType.getNumElements ≠ 0 → getElemTypeSize op.type.ndType.elemType = CHAR_BIT) := by
  have hlength := h.length_quantized hsize hscheme hvalues
  constructor
  · exact fun heq => hlength.mp (congrArg List.length heq)
  · intro hwidth
    by_cases hcount : op.type.ndType.getNumElements = 0
    · have hsame := hlength.mpr hwidth
      have hempty := length_valueBytes hvalues
      rw [h.numElements_eq hscheme, hcount, zero_mul] at hempty
      rw [hempty] at hsame
      rw [eq_nil_of_length_eq_zero hempty, eq_nil_of_length_eq_zero hsame.symm]
    · obtain ⟨isSigned, hdispatch⟩ :=
        dispatchByElemType_quantized hquant (hwidth hcount) (h.elemType hscheme)
      exact h.valueBytes_byte hconverts hdispatch hvalues

variable (hscheme : op.type.compressionScheme = none) (helem : op.type.ndType.elemType = .f16)
  (hvalues : op.content.valueBytes floats (.floating .float16) = .ok values)
include hscheme helem hvalues

theorem DeclareOp.IsDeclared.length_float16 :
    values.length = bytes.length := by
  have hwidth := h.elemTypeSize_eq hscheme
  have hstored := length_bytes h.constant h.bytes_eq
  rw [storageBytes, hwidth, helem] at hstored
  rw [length_valueBytes hvalues, hstored]
  simp only [getElemTypeSize, Number.size, CHAR_BIT]
  omega

theorem DeclareOp.IsDeclared.fused_float16 :
    values = bytes ↔ (op.content.isSplat = false → op.content.storageElemType = .f16 →
      ∀ i < op.type.ndType.getNumElements,
        floats.cast (.floating .float16) (.floating .float16) (block 2 i op.content.data) =
          .ok (block 2 i op.content.data)) := by
  have htype : op.content.type.elemType = .f16 := by
    rcases h.elemType hscheme with heq | heq
    · rw [heq, helem]
    · rw [heq, helem]
      rfl
  have hdispatch : dispatchByElemType op.content.type.elemType = .ok (.floating .float16) := by
    rw [htype, dispatchByElemType]
  rw [← h.numElements_eq hscheme]
  constructor
  · rintro rfl hdense hstorage i hi
    obtain ⟨value, heq, hvalue⟩ := exists_values hvalues
    have hdata : values = op.content.data := by
      rcases bytes_cases h.bytes_eq with ⟨hsplat, -⟩ | ⟨-, -, hdata⟩ | ⟨-, hstored, -⟩
      · rw [hdense] at hsplat
        cases hsplat
      · exact hdata
      · rw [hdense, htype, hstorage] at hstored
        exact absurd rfl (hstored.resolve_left (by decide))
    obtain ⟨storage, x, hread, hcast, hx⟩ := getItem_cases (hvalue i hi)
    rw [hstorage, dispatchByElemType] at hread
    obtain rfl := Except.ok.inj hread
    rw [hdense, if_neg (by decide)] at hx
    subst hx
    have hblock : block 2 i op.content.data = value i := by
      apply block_ext length_block_le (length_getItem (hvalue i hi)).le
      intro k hk
      rw [getElem?_block hk, ← hdata, heq]
      exact getElem?_flatMap_range (fun j hj => length_getItem (hvalue j hj)) hi hk
    rw [← hblock] at hcast
    exact hcast
  · intro hkeeps
    apply valueBytes_eq_bytes h.constant h.bytes_eq hdispatch hvalues rfl
    · intro hdense htrivial i hi value hcast
      exact Except.ok.inj (hcast.symm.trans (hkeeps hdense (htrivial ▸ htype) i hi))
    · intro storage x value value' hcast hcast'
      exact Except.ok.inj (hcast'.symm.trans hcast)

end

theorem valueBytes_of_bytes {type : NDType} (helem : type.elemType = getUInt8Type) {data : Buffer}
    {isSplat : Bool} (hdata : isSplat = false → data.length = type.getNumElements)
    (hbytes : (fromRawBuffer type data getUInt8Type isSplat).bytes floats = .ok bytes)
    (hvalues : (fromRawBuffer type data getUInt8Type isSplat).valueBytes floats
      (.integer false 1) = .ok values) : values = bytes := by
  have hdispatch : dispatchByElemType type.elemType = .ok (.integer false 1) := by
    rw [helem]
    decide
  have hstored : isSplat = false →
      data.length = storageBytes type.elemType type.getNumElements := by
    intro hdense
    rw [hdata hdense, helem, storageBytes_of_dvd (by decide)]
    exact (Nat.mul_one _).symm
  have hconst : (fromRawBuffer type data getUInt8Type isSplat).IsConstant := by
    refine ⟨.inr ?_, fun hdense _ => hstored hdense, fun _ hsmall => ?_⟩
    · change 0 < getElemTypeSize type.elemType ∧ CHAR_BIT ∣ getElemTypeSize type.elemType
      rw [helem]
      decide
    · change getElemTypeSize type.elemType < CHAR_BIT at hsmall
      rw [helem] at hsmall
      exact absurd hsmall (by decide)
  apply valueBytes_eq_bytes hconst hbytes hdispatch hvalues rfl
  · intro hdense _ i hi value hcast
    exact checkedCast_self ((hdata hdense).trans (Nat.mul_one _).symm) hi (.inl hcast)
  · intro storage x value value' hcast hcast'
    exact Except.ok.inj (hcast'.symm.trans hcast)

theorem filledByte_eq_self {value : Byte} (h : value.toNat < 2 ^ 1 ∨ value = 0xFF) :
    value = filledByte 1 value ↔ value ∈ [0, 0xFF] := by
  have hall : ∀ v : Byte, v.toNat < 2 ^ 1 ∨ v = 0xFF → (v = filledByte 1 v ↔ v ∈ [0, 0xFF]) := by
    decide
  exact hall value h

theorem DeclareOp.IsDeclared.fused_bit (h : op.IsDeclared floats bytes)
    (hsize : op.type.getTotalAllocSize = .ok size) (hscheme : op.type.compressionScheme = none)
    (helem : op.type.ndType.elemType = getInt1Type)
    (hvalues : packedBytes floats op.type.ndType op.content = .ok values) :
    values.length = bytes.length ∧ (values = bytes ↔ (op.type.ndType.getNumElements ≠ 0 →
      op.content.isSplat = true → op.content.data.headD 0 ∈ [0, 0xFF])) := by
  have hwidth : getElemTypeSize op.content.type.elemType = 1 := by
    rw [h.elemTypeSize_eq hscheme, helem]
    rfl
  have hsmall : getElemTypeSize op.content.type.elemType < CHAR_BIT := by
    rw [hwidth]
    decide
  have hbits := getTotalAllocSize_bits hscheme hsize
  rw [helem, getInt1Type, getElemTypeSize, one_mul] at hbits
  obtain ⟨packedContentType, htype, hvalues⟩ := bind_eq_ok.mp hvalues
  obtain ⟨hshape, hbyte⟩ := changeShapeElemType_shape htype
  have hcount : packedContentType.getNumElements = size := by
    rw [NDType.getNumElements, hshape, hbits]
    simp [CHAR_BIT]
  have hlength := length_valueBytes hvalues
  change values.length = packedContentType.getNumElements * 1 at hlength
  rw [hcount, mul_one, h.size_eq hsize] at hlength
  refine ⟨hlength, ?_⟩
  have hstored := length_bytes h.constant h.bytes_eq
  cases hsplat : op.content.isSplat with
  | false =>
    have hdata : bytes = op.content.data := by
      rcases bytes_cases h.bytes_eq with ⟨hsplat', -⟩ | ⟨-, -, hdata⟩ | ⟨hlarge, -⟩
      · rw [hsplat] at hsplat'
        cases hsplat'
      · exact hdata
      · exact absurd hsmall hlarge
    have hpacked : (fromRawBuffer packedContentType op.content.data getUInt8Type false).bytes
        floats = .ok bytes := by
      simp [Content.bytes, fromRawBuffer, hbyte, hdata]
    rw [hsplat] at hvalues
    simp only [Bool.false_eq_true, false_implies, implies_true, iff_true]
    apply valueBytes_of_bytes hbyte _ hpacked hvalues
    intro _
    rw [hcount, ← hdata, h.size_eq hsize]
  | true =>
    obtain ⟨value, hdata, hvalue⟩ := h.constant.splat hsplat hsmall
    have hbytes : bytes = List.replicate size (filledByte 1 value) := by
      rcases bytes_cases h.bytes_eq with ⟨-, -, hbytes⟩ | ⟨hdense, -⟩ | ⟨hlarge, -⟩
      · rw [hbytes, ← hstored, ← h.size_eq hsize, hwidth, hdata]
        rfl
      · rw [hsplat] at hdense
        cases hdense
      · exact absurd hsmall hlarge
    have hpacked : (fromRawBuffer packedContentType [value] getUInt8Type true).bytes floats =
        .ok (List.replicate packedContentType.getNumElements value) :=
      SwizzleConstantAttr.bytes_of_repeatedByte hbyte value
    rw [hsplat, hdata] at hvalues
    have hread := valueBytes_of_bytes hbyte (by simp) hpacked hvalues
    rw [hwidth] at hvalue
    rw [hread, hbytes, hcount, replicate_inj, hdata]
    rw [filledByte_eq_self (hvalue.imp_right And.right), hbits]
    simp [CHAR_BIT, or_iff_not_imp_left]

/-- The bytes that are put into the buffer are those of the constant just when they are kept, and
only quantized values may need another number of bytes. -/
theorem DeclareOp.IsDeclared.fusedValues_iff (h : op.IsDeclared floats bytes)
    (hconverts : ConvertsBytes floats) (hsize : op.type.getTotalAllocSize = .ok size)
    (hvalues : op.fusedValues floats = .ok values)
    (htyped : op.type.ndType.elemType ∈ [.f16, .bf16, getSInt32Type, getInt1Type, getUInt8Type] ∨
      isQuantized op.type.ndType.elemType) :
    (values = bytes ↔ op.KeepsBytes floats) ∧
      (isQuantized op.type.ndType.elemType = false → values.length = bytes.length) := by
  have hboth : values = bytes → op.KeepsBytes floats →
      (values = bytes ↔ op.KeepsBytes floats) ∧
        (isQuantized op.type.ndType.elemType = false → values.length = bytes.length) := by
    rintro rfl hkeeps
    exact ⟨⟨fun _ => hkeeps, fun _ => rfl⟩, fun _ => rfl⟩
  rw [DeclareOp.fusedValues] at hvalues
  cases hscheme : op.type.compressionScheme with
  | some scheme =>
    have hcompressed := (h.compressed (by simp [hscheme])).1
    have hdispatch : dispatchByElemType op.content.type.elemType = .ok (.integer false 1) := by
      rw [hcompressed]
      decide
    simp only [hscheme, Option.isSome_some, if_true, or_true] at hvalues
    apply hboth (h.valueBytes_integer hdispatch hvalues)
    intro hnone
    rw [hscheme] at hnone
    cases hnone
  | none =>
    simp only [hscheme, Option.isSome_none, Bool.false_eq_true, if_false] at hvalues
    have hnone := fun P : Prop => (forall_prop_of_true hscheme : (_ → P) ↔ P)
    rw [DeclareOp.KeepsBytes, hnone]
    rcases htyped with htyped | hquant
    · simp only [mem_cons, not_mem_nil, or_false] at htyped
      rcases htyped with helem | helem | helem | helem | helem
      · simp only [helem, isQuantized, getUInt8Type, Bool.false_eq_true, reduceCtorEq, or_self,
          if_false, if_true] at hvalues
        refine ⟨?_, fun _ => h.length_float16 hscheme helem hvalues⟩
        rw [h.fused_float16 hscheme helem hvalues]
        simp only [helem, isQuantized, getInt1Type, Bool.false_eq_true, reduceCtorEq, false_implies,
          true_and, true_implies]
        constructor
        · exact fun hcast _ => hcast
        · exact fun hcast hdense hstorage i hi =>
            hcast (Nat.ne_of_gt (Nat.zero_lt_of_lt hi)) hdense hstorage i hi
      · rw [helem] at hvalues
        cases hvalues
      · have hdispatch : dispatchByElemType op.content.type.elemType = .ok (.integer true 4) := by
          rcases h.elemType hscheme with heq | heq <;> rw [heq, helem] <;> decide
        simp only [helem, isQuantized, getUInt8Type, getSInt32Type, Bool.false_eq_true,
          reduceCtorEq,
          ElemType.integer.injEq, Nat.reduceEqDiff, false_and, or_self, if_false,
            if_true] at hvalues
        have heq := h.valueBytes_integer hdispatch hvalues
        refine ⟨⟨fun _ => ?_, fun _ => heq⟩, fun _ => congrArg List.length heq⟩
        simp [helem, isQuantized, getSInt32Type, getInt1Type]
      · simp only [helem, isQuantized, getUInt8Type, getSInt32Type, getInt1Type, Bool.false_eq_true,
          getElemTypeSize, if_true] at hvalues
        obtain ⟨hlength, hiff⟩ := h.fused_bit hsize hscheme helem hvalues
        refine ⟨hiff.trans ?_, fun _ => hlength⟩
        simp [helem, isQuantized, getInt1Type]
      · have hdispatch : dispatchByElemType op.content.type.elemType = .ok (.integer false 1) := by
          rcases h.elemType hscheme with heq | heq <;> rw [heq, helem] <;> decide
        simp only [helem, or_true, if_true] at hvalues
        have heq := h.valueBytes_integer hdispatch hvalues
        refine ⟨⟨fun _ => ?_, fun _ => heq⟩, fun _ => congrArg List.length heq⟩
        simp [helem, isQuantized, getUInt8Type, getInt1Type]
    · rw [if_pos (.inl hquant)] at hvalues
      have hbit : op.type.ndType.elemType ≠ getInt1Type := by
        intro helem
        rw [helem] at hquant
        cases hquant
      have hfloat : op.type.ndType.elemType ≠ .f16 := by
        intro helem
        rw [helem] at hquant
        cases hquant
      refine ⟨?_, fun hplain => absurd hquant (by simp [hplain])⟩
      rw [h.fused_quantized hconverts hsize hscheme hquant hvalues]
      simp [hquant, hbit, hfloat]

end Constant

section Fused

variable {α β γ ε : Type}

theorem foldlM_combine {f : α → Except ε β} {combine : γ → β → γ} {value : α → β}
    (hvalue : ∀ a v, f a = .ok v → value a = v) {l : List α} {c c' : γ}
    (h : l.foldlM (fun c a => do pure (combine c (← f a))) c = .ok c') :
    (∀ a ∈ l, f a = .ok (value a)) ∧ c' = l.foldl (fun c a => combine c (value a)) c := by
  induction l generalizing c with
  | nil => exact ⟨fun a ha => absurd ha not_mem_nil, (Except.ok.inj h).symm⟩
  | cons a l ih =>
    obtain ⟨d, hd, h⟩ := bind_eq_ok.mp h
    obtain ⟨v, hv, hd⟩ := bind_eq_ok.mp hd
    obtain rfl := hvalue a v hv
    obtain rfl := Except.ok.inj hd
    obtain ⟨hall, hfold⟩ := ih h
    exact ⟨forall_mem_cons.mpr ⟨hv, hall⟩, hfold⟩

/-- The bytes that are announced for a constant, and those that are put into the buffer. -/
def sizeOf (op : DeclareOp) : ℕ := op.type.getTotalAllocSize.toOption.getD 0

def valuesOf (floats : FloatCasts) (op : DeclareOp) : Buffer :=
    (op.fusedValues floats).toOption.getD []

def placedViews : List ℕ → ℕ → List SubViewOp
  | [], _ => []
  | size :: sizes, offset => ⟨[0, 0, 0, offset], [1, 1, 1, size]⟩ :: placedViews sizes
      (offset + size)

variable {floats : FloatCasts} {constants : List DeclareOp} {total : ℕ} {buf : Buffer}
  {views : List SubViewOp}

theorem populateFusedConstantBuffer_eq
    (h : populateFusedConstantBuffer floats constants = .ok (total, buf)) :
    (∀ op ∈ constants, op.type.getTotalAllocSize = .ok (sizeOf op)) ∧
      (∀ op ∈ constants, op.fusedValues floats = .ok (valuesOf floats op)) ∧
      total = (constants.map sizeOf).sum ∧ buf = constants.flatMap (valuesOf floats) := by
  obtain ⟨total', htotal, h⟩ := bind_eq_ok.mp h
  obtain ⟨buf', hbuf, h⟩ := bind_eq_ok.mp h
  obtain ⟨rfl, rfl⟩ := Prod.mk.inj (Except.ok.inj h)
  have hsize : ∀ (op : DeclareOp) size, op.type.getTotalAllocSize = .ok size → sizeOf op =
      size := by
    intro op size hsize
    rw [sizeOf, hsize]
    rfl
  have hvalues : ∀ (op : DeclareOp) values, op.fusedValues floats = .ok values →
      valuesOf floats op = values := by
    intro op values hvalues
    rw [valuesOf, hvalues]
    rfl
  obtain ⟨hsizes, hsum⟩ := foldlM_combine hsize htotal
  obtain ⟨hall, happend⟩ := foldlM_combine hvalues hbuf
  refine ⟨hsizes, hall, ?_, ?_⟩
  · rw [hsum, sum_eq_foldl, foldl_map]
  · rw [happend, flatMap_eq_foldl]

theorem replaceConstantsWithFusedConstant_eq {offset : ℕ}
    (h : replaceConstantsWithFusedConstant constants offset = .ok views) :
    views = placedViews (constants.map sizeOf) offset := by
  induction constants generalizing offset views with
  | nil => exact (Except.ok.inj h).symm
  | cons constant constants ih =>
    obtain ⟨size, hsize, h⟩ := bind_eq_ok.mp h
    obtain ⟨rest, hrest, h⟩ := bind_eq_ok.mp h
    have hof : sizeOf constant = size := by
      rw [sizeOf, hsize]
      rfl
    rw [← Except.ok.inj h, map_cons, placedViews, hof, ih hrest]

theorem slices_placedViews (parts : List Buffer) (front : Buffer) :
    (placedViews (parts.map List.length) front.length).map (fun view =>
      ((front ++ parts.flatten).drop view.offset).take view.size) = parts := by
  induction parts generalizing front with
  | nil => rfl
  | cons part parts ih =>
    have hrest := ih (front ++ part)
    rw [length_append, append_assoc] at hrest
    rw [map_cons, placedViews, map_cons, flatten_cons, hrest]
    simp [SubViewOp.offset, SubViewOp.size]

theorem placedViews_apart (sizes : List ℕ) (offset : ℕ) :
    (∀ view ∈ placedViews sizes offset, offset ≤ view.offset) ∧
      (placedViews sizes offset).Pairwise fun view view' => view.offset + view.size ≤
        view'.offset := by
  induction sizes generalizing offset with
  | nil => simp [placedViews]
  | cons size sizes ih =>
    obtain ⟨hfrom, hapart⟩ := ih (offset + size)
    constructor
    · intro view hview
      rcases mem_cons.mp hview with rfl | hview
      · exact le_rfl
      · exact (Nat.le_add_right _ _).trans (hfrom view hview)
    · exact pairwise_cons.mpr ⟨hfrom, hapart⟩

theorem getOffsetForConstant_eq {view : SubViewOp} {offset : ℕ}
    (h : getOffsetForConstant view = .ok offset) : offset = view.offset := by
  obtain ⟨_, -, h⟩ := bind_eq_ok.mp h
  exact (Except.ok.inj h).symm

def bytesOf (floats : FloatCasts) (op : DeclareOp) : Buffer :=
    (op.content.bytes floats).toOption.getD []

theorem forall₂_bytes_iff (hbytes : ∀ op ∈ constants, op.content.bytes floats =
    .ok (bytesOf floats op))
    (slice : SubViewOp → Buffer) :
    List.Forall₂ (fun (op : DeclareOp) view => op.content.bytes floats = .ok (slice view)) constants
      views ↔
      constants.map (bytesOf floats) = views.map slice := by
  induction constants generalizing views with
  | nil => cases views <;> simp
  | cons op constants ih =>
    obtain ⟨hop, hrest⟩ := forall_mem_cons.mp hbytes
    cases views with
    | nil => simp
    | cons view views => rw [forall₂_cons, ih hrest, hop, Except.ok.injEq, map_cons,
        map_cons, List.cons.injEq]

theorem ConstantVector.length_eq {constants : ConstantVector} {f g : DeclareOp → ℕ}
    (hplain : ∀ op ∈ constants.toList, isQuantized op.type.ndType.elemType = false → f op = g op)
    (htyped : constants.Typed) (hsum : (constants.toList.map f).sum =
      (constants.toList.map g).sum) :
    ∀ op ∈ constants.toList, f op = g op := by
  have htable : f constants.weight_table = g constants.weight_table := by
    apply hplain _ mem_cons_self
    rw [htyped.weight_table]
    rfl
  have hrest : ∀ op ∈ constants.weights_sparsity_map.toList ++ constants.activation_window.toList,
      f op = g op := by
    intro op hop
    apply hplain op (mem_cons_of_mem _ (mem_append_right _ hop))
    rcases mem_append.mp hop with hop | hop
    · rw [htyped.weights_sparsity_map op (Option.mem_toList.mp hop)]
      rfl
    · rw [htyped.activation_window op (Option.mem_toList.mp hop)]
      rfl
  have hrestSum := congrArg List.sum (map_congr_left hrest)
  simp only [ConstantVector.toList, map_cons, map_append, sum_cons, sum_append] at hsum hrestSum
  have hweights : ∀ op ∈ constants.weights.toList, f op = g op := by
    intro op hop
    rw [Option.mem_toList] at hop
    simp only [hop, Option.toList_some, map_cons, map_nil, sum_cons, sum_nil] at hsum
    omega
  intro op hop
  rcases mem_cons.mp hop with rfl | hop
  · exact htable
  · rcases mem_append.mp hop with hop | hop
    · exact hweights op hop
    · exact hrest op hop

theorem ConstantVector.Typed.elemType {constants : ConstantVector} (h : constants.Typed)
    {op : DeclareOp} (hop : op ∈ constants.toList) :
    op.type.ndType.elemType ∈ [.f16, .bf16, getSInt32Type, getInt1Type, getUInt8Type] ∨
      isQuantized op.type.ndType.elemType := by
  simp only [ConstantVector.toList, mem_cons, mem_append, Option.mem_toList] at hop
  rcases hop with rfl | hop | hop | hop
  · rw [h.weight_table]
    simp
  · rcases h.weights op hop with helem | hquant
    · simp only [mem_cons, not_mem_nil, or_false] at helem ⊢
      tauto
    · exact .inr hquant
  · rw [h.weights_sparsity_map op hop]
    simp
  · rw [h.activation_window op hop]
    simp

/-- The fused buffer has every constant as it was stored just when none of them is a constant whose
bytes are not kept. -/
theorem fuseConstants_readsBack_iff (floats : FloatCasts) (hconverts : ConvertsBytes floats)
    (constants : ConstantVector) (htyped : constants.Typed)
    (hdeclared : ∀ op ∈ constants.toList, ∃ bytes, op.IsDeclared floats bytes)
    (totalTensorsize : ℕ) (fusedValuesBuf : Buffer) (subViewOps : List SubViewOp)
    (hbuf : populateFusedConstantBuffer floats constants.toList =
      .ok (totalTensorsize, fusedValuesBuf))
    (hviews : replaceConstantsWithFusedConstant constants.toList 0 = .ok subViewOps) :
    ReadsBack floats constants.toList totalTensorsize fusedValuesBuf subViewOps ↔
      ∀ op ∈ constants.toList, op.KeepsBytes floats := by
  obtain ⟨hsizes, hvalues, rfl, rfl⟩ := populateFusedConstantBuffer_eq hbuf
  obtain rfl := replaceConstantsWithFusedConstant_eq hviews
  have hdecl : ∀ op ∈ constants.toList, op.IsDeclared floats (bytesOf floats op) := by
    intro op hop
    obtain ⟨bytes, hbytes⟩ := hdeclared op hop
    rwa [bytesOf, hbytes.bytes_eq]
  have hiff : ∀ op ∈ constants.toList, _ := fun op hop => (hdecl op hop).fusedValues_iff hconverts
    (hsizes op hop) (hvalues op hop) (htyped.elemType hop)
  have hsizeOf : constants.toList.map sizeOf =
      (constants.toList.map (bytesOf floats)).map List.length := by
    rw [List.map_map]
    exact List.map_congr_left fun op hop => (hdecl op hop).size_eq (hsizes op hop)
  have hread : ∀ slice : SubViewOp → Buffer, List.Forall₂ (fun (op : DeclareOp) view =>
      op.content.bytes floats = .ok (slice view)) constants.toList
      (placedViews (constants.toList.map sizeOf) 0) ↔ _ :=
    forall₂_bytes_iff fun op hop => (hdecl op hop).bytes_eq
  have hslices : (constants.toList.map (valuesOf floats)).map List.length =
      constants.toList.map sizeOf →
      (placedViews (constants.toList.map sizeOf) 0).map (fun view =>
        ((constants.toList.flatMap (valuesOf floats)).drop view.offset).take view.size) =
        constants.toList.map (valuesOf floats) := by
    intro hlengths
    have hplaced := slices_placedViews (constants.toList.map (valuesOf floats)) []
    rwa [hlengths, List.nil_append] at hplaced
  constructor
  · intro hback op hop
    have hsum := hback.size
    rw [List.length_flatMap, hsizeOf, List.map_map] at hsum
    have hlengths := ConstantVector.length_eq (fun op hop => (hiff op hop).2) htyped hsum
    have hall := (hread _).mp hback.bytes
    have hsizes : (constants.toList.map (valuesOf floats)).map List.length =
        constants.toList.map sizeOf := by
      rw [hsizeOf, List.map_map, List.map_map]
      exact List.map_congr_left hlengths
    rw [hslices hsizes] at hall
    exact (hiff op hop).1.mp (List.map_inj_left.mp hall op hop).symm
  · intro hkeeps
    have hsame : constants.toList.map (valuesOf floats) = constants.toList.map (bytesOf floats) :=
      List.map_congr_left fun op hop => (hiff op hop).1.mpr (hkeeps op hop)
    constructor
    · rw [List.length_flatMap, hsizeOf, ← hsame, List.map_map]
      rfl
    · rw [hread, hslices (by rw [hsizeOf, hsame]), hsame]
    · exact (placedViews_apart _ 0).2
    · exact fun view _ offset => getOffsetForConstant_eq

theorem numDims_row (count : ℕ) : (DimsOrder.fromNumDims 4).numDims = [1, 1, 1, count].length := rfl

/-- A row of elements, stored as elements of the same or of another type. -/
def rowOf (count : ℕ) (elemType storageElemType : ElemType)
    (hquant : validateQuantElemType elemType [1, 1, 1, count]) (data : Buffer) (isSplat : Bool) :
      DeclareOp :=
  let ndType : NDType :=
    ⟨[1, 1, 1, count], elemType, DimsOrder.fromNumDims 4, numDims_row count, hquant⟩
  ⟨⟨ndType, none⟩, ⟨ndType, storageElemType, data, isSplat⟩⟩

def zeroTable : DeclareOp :=
  rowOf 4 getSInt32Type getSInt32Type trivial (List.replicate 16 0) false

def byteWeights : DeclareOp :=
  rowOf 4 (.uniformQuantized false 8 0) getUInt8Type trivial [1, 2, 3, 4] false

/-- A bit that came from a byte, one for each of sixteen elements. -/
def repeatedBit : DeclareOp := rowOf 16 getInt1Type (.integer 8 .Signless) trivial [1] true

theorem zeroTable_isDeclared : zeroTable.IsDeclared zeroCasts (List.replicate 16 0) where
  constant := ⟨.inr (by decide), fun _ _ => rfl, fun h => by cases h⟩
  bytes_eq := rfl
  compressed := fun h => absurd rfl h
  shape := fun _ => rfl
  elemType := fun _ => .inl rfl

theorem byteWeights_isDeclared : byteWeights.IsDeclared zeroCasts [1, 2, 3, 4] where
  constant := ⟨.inr (by decide), fun _ _ => rfl, fun h => by cases h⟩
  bytes_eq := by decide +kernel
  compressed := fun h => absurd rfl h
  shape := fun _ => rfl
  elemType := fun _ => .inl rfl

theorem repeatedBit_isDeclared : repeatedBit.IsDeclared zeroCasts [0xFF, 0xFF] where
  constant := ⟨.inl (by decide), fun h => (by cases h), fun _ _ => ⟨1, rfl, .inl (by decide)⟩⟩
  bytes_eq := by decide +kernel
  compressed := fun h => absurd rfl h
  shape := fun _ => rfl
  elemType := fun _ => .inl rfl

theorem zeroCasts_convertsBytes : ConvertsBytes zeroCasts := by
  intro type x value value' h h'
  simp only [zeroCasts] at h h'
  split_ifs at h h'
  rw [← Except.ok.inj h, ← Except.ok.inj h']
  rfl

def quantizedConvolution : ConstantVector := ⟨zeroTable, some byteWeights, none, none⟩

def repeatedBitMap : ConstantVector := ⟨zeroTable, none, some repeatedBit, none⟩

theorem quantizedConvolution_typed : quantizedConvolution.Typed :=
  ⟨rfl, by simp [quantizedConvolution, byteWeights, rowOf, isQuantized], by
    simp [quantizedConvolution],
    by simp [quantizedConvolution]⟩

theorem quantizedConvolution_isDeclared :
    ∀ op ∈ quantizedConvolution.toList, ∃ bytes, op.IsDeclared zeroCasts bytes := by
  intro op hop
  simp only [ConstantVector.toList, quantizedConvolution, Option.toList_some, Option.toList_none,
    append_nil, mem_cons, not_mem_nil, or_false] at hop
  rcases hop with rfl | rfl
  · exact ⟨_, zeroTable_isDeclared⟩
  · exact ⟨_, byteWeights_isDeclared⟩

/-- The table and the weights of a convolution are read back from a buffer of twenty bytes. -/
theorem fuseConstants_readsBack_quantized : ∃ subViewOps,
    ReadsBack zeroCasts quantizedConvolution.toList 20
    (List.replicate 16 0 ++ [1, 2, 3, 4]) subViewOps := by
  refine ⟨_, (fuseConstants_readsBack_iff zeroCasts zeroCasts_convertsBytes quantizedConvolution
    quantizedConvolution_typed quantizedConvolution_isDeclared 20
      (List.replicate 16 0 ++ [1, 2, 3, 4])
    [⟨[0, 0, 0, 0], [1, 1, 1, 16]⟩, ⟨[0, 0, 0, 16], [1, 1, 1, 4]⟩] ?_ ?_).mpr ?_⟩
  · decide +kernel
  · decide +kernel
  · intro op hop _ _
    simp only [ConstantVector.toList, quantizedConvolution, Option.toList_some, Option.toList_none,
      List.append_nil, List.mem_cons, List.not_mem_nil, or_false] at hop
    rcases hop with rfl | rfl
    · exact ⟨by decide, fun h => absurd h (by decide), fun h => absurd h (by decide)⟩
    · exact ⟨fun _ => by decide, fun h => absurd h (by decide), fun h => absurd h (by decide)⟩

/-- A repeated bit is put into the buffer as the byte that it came from. -/
theorem not_fuseConstants_readsBack : repeatedBitMap.Typed ∧
    (∀ op ∈ repeatedBitMap.toList, ∃ bytes, op.IsDeclared zeroCasts bytes) ∧
    ∃ totalTensorsize fusedValuesBuf subViewOps,
      populateFusedConstantBuffer zeroCasts repeatedBitMap.toList =
        .ok (totalTensorsize, fusedValuesBuf) ∧
      replaceConstantsWithFusedConstant repeatedBitMap.toList 0 = .ok subViewOps ∧
      ¬ ReadsBack zeroCasts repeatedBitMap.toList totalTensorsize fusedValuesBuf subViewOps := by
  refine ⟨⟨rfl, by simp [repeatedBitMap], by simp [repeatedBitMap, repeatedBit, rowOf],
    by simp [repeatedBitMap]⟩, ?_, 18, List.replicate 16 0 ++ [1, 1],
    [⟨[0, 0, 0, 0], [1, 1, 1, 16]⟩, ⟨[0, 0, 0, 16], [1, 1, 1, 2]⟩], ?_, ?_, ?_⟩
  · intro op hop
    simp only [ConstantVector.toList, repeatedBitMap, Option.toList_some, Option.toList_none,
      List.nil_append, List.append_nil, List.mem_cons, List.not_mem_nil, or_false] at hop
    rcases hop with rfl | rfl
    · exact ⟨_, zeroTable_isDeclared⟩
    · exact ⟨_, repeatedBit_isDeclared⟩
  · decide +kernel
  · decide +kernel
  · intro hback
    obtain ⟨-, hrest⟩ := List.forall₂_cons.mp hback.bytes
    obtain ⟨hbit, -⟩ := List.forall₂_cons.mp hrest
    exact absurd (repeatedBit_isDeclared.bytes_eq.symm.trans hbit) (by decide)

end Fused

end Vpux.VPUIP
