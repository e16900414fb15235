import Vpux.Const.Types
import Vpux.Data.Blocks
import Mathlib.Tactic.Positivity

/-! The stored elements of a constant and the loops that move them. -/
namespace Vpux.Const
open Data

abbrev Byte := BitVec 8
abbrev Buffer := List Byte

inductive FloatType where
  | float
  | double
  | float16
  | bfloat16
  deriving DecidableEq, Repr

/-- The number types that the stored elements are read as. -/
inductive Number where
  | integer (isSigned : Bool) (size : ℕ)
  | floating (type : FloatType)
  deriving DecidableEq, Repr

namespace Number

def size : Number → ℕ
  | .integer _ size => size
  | .floating .float => 4
  | .floating .double => 8
  | .floating .float16 => 2
  | .floating .bfloat16 => 2

def int64 : Number := integer true 8

def lowest (isSigned : Bool) (size : ℕ) : ℤ := if isSigned then -2 ^ (CHAR_BIT * size - 1) else 0

def max (isSigned : Bool) (size : ℕ) : ℤ :=
  if isSigned then 2 ^ (CHAR_BIT * size - 1) - 1 else 2 ^ (CHAR_BIT * size) - 1

end Number

/-- The bytes of an integer, the lowest first. -/
def encode (size : ℕ) (value : ℤ) : Buffer :=
  (List.range size).map fun i => BitVec.ofInt 8 (value / 256 ^ i)

def decode (isSigned : Bool) (bytes : Buffer) : ℤ :=
  let value : ℤ := bytes.foldr (fun byte value => byte.toNat + 256 * value) 0
  if isSigned ∧ 2 ^ (CHAR_BIT * bytes.length - 1) ≤ value then
    value - 2 ^ (CHAR_BIT * bytes.length)
  else value

section Integers

theorem length_encode (size : ℕ) (value : ℤ) : (encode size value).length = size := by
  simp [encode]

theorem encode_succ (size : ℕ) (value : ℤ) :
    encode (size + 1) value = BitVec.ofInt 8 value :: encode size (value / 256) := by
  unfold encode
  rw [List.range_succ_eq_map, List.map_cons, List.map_map, pow_zero, Int.ediv_one]
  congr 1
  apply List.map_congr_left
  intro i _
  rw [Function.comp_apply, pow_succ', Int.ediv_ediv_of_nonneg (by decide)]

theorem foldr_encode (size : ℕ) (value : ℤ) :
    (encode size value).foldr (fun (byte : Byte) (value : ℤ) => byte.toNat + 256 * value) 0 =
      value % 256 ^ size := by
  induction size generalizing value with
  | zero => simp [encode]
  | succ size ih =>
    have hbyte : ((BitVec.ofInt 8 value).toNat : ℤ) = value % 256 := by
      exact Int.toNat_of_nonneg (Int.emod_nonneg _ (by decide))
    rw [encode_succ, List.foldr_cons, ih, hbyte, pow_succ', Int.emod_def, Int.emod_def,
      Int.emod_def value, ← Int.ediv_ediv_of_nonneg (by decide)]
    ring

theorem decode_encode {isSigned : Bool} {size : ℕ} {value : ℤ} (hsize : 0 < size)
    (hlow : Number.lowest isSigned size ≤ value) (hhigh : value ≤ Number.max isSigned size) :
    decode isSigned (encode size value) = value := by
  have hpow : (256 : ℤ) ^ size = 2 ^ (CHAR_BIT * size) := by
    rw [pow_mul]
    rfl
  have hhalf : (2 : ℤ) ^ (CHAR_BIT * size) = 2 * 2 ^ (CHAR_BIT * size - 1) := by
    rw [← pow_succ']
    congr 1
    unfold CHAR_BIT
    omega
  unfold decode Number.lowest Number.max at *
  rw [foldr_encode, length_encode, hpow, hhalf]
  generalize hmodulus : (2 : ℤ) ^ (CHAR_BIT * size - 1) = half at *
  cases isSigned with
  | false =>
    exact Int.emod_eq_of_lt hlow (by omega)
  | true =>
    rw [if_pos rfl] at hlow hhigh
    rcases lt_or_ge value 0 with hneg | hnonneg
    · have hmod : value % (2 * half) = value + 2 * half := by
        rw [← Int.add_emod_right, Int.emod_eq_of_lt (by omega) (by omega)]
      rw [hmod, if_pos ⟨rfl, by omega⟩]
      omega
    · rw [Int.emod_eq_of_lt hnonneg (by omega), if_neg (by omega)]

end Integers

structure FloatCasts where
  cast : Number → Number → Buffer → Except Fault Buffer
  length_cast : ∀ {src dst : Number} {bytes bytes' : Buffer}, cast src dst bytes = .ok bytes' →
    bytes'.length = dst.size

/-- No conversion but that of zero, which all formats store as zero bytes. -/
def zeroCasts : FloatCasts where
  cast _ dst bytes := if bytes.all (· = 0) then .ok (List.replicate dst.size 0)
    else .error (.exception "Can not safely cast")
  length_cast := by
    intro src dst bytes bytes' h
    split at h
    · cases h
      exact List.length_replicate
    · cases h

def checkedCast (floats : FloatCasts) (src dst : Number) (bytes : Buffer) : Except Fault Buffer :=
  match src, dst with
  | .integer isSigned _, .integer isSigned' size' =>
    let value := decode isSigned bytes
    if Number.lowest isSigned' size' ≤ value ∧ value ≤ Number.max isSigned' size' then
      .ok (encode size' value)
    else .error (.exception "Can not safely cast")
  | _, _ => floats.cast src dst bytes

theorem length_checkedCast {floats : FloatCasts} {src dst : Number} {bytes bytes' : Buffer}
    (h : checkedCast floats src dst bytes = .ok bytes') : bytes'.length = dst.size := by
  unfold checkedCast at h
  split at h
  · dsimp only at h
    split_ifs at h
    cases h
    simp [encode, Number.size]
  · exact floats.length_cast h

def dispatchByElemType : ElemType → Except Fault Number
  | .integer width signedness =>
    if width ∈ [8, 16, 32, 64] then
      .ok (.integer (signedness = .Signed) (width / CHAR_BIT))
    else .error (.exception "Unsupported element type")
  | .f32 => .ok (.floating .float)
  | .f64 => .ok (.floating .double)
  | .f16 => .ok (.floating .float16)
  | .bf16 => .ok (.floating .bfloat16)
  | .uniformQuantized isSigned storageWidth _ =>
    if storageWidth = 8 then .ok (.integer isSigned 1)
    else .error (.exception "Unsupported quantized storage type")
  | .uniformQuantizedPerAxis isSigned storageWidth _ _ =>
    if storageWidth = 8 then .ok (.integer isSigned 1)
    else .error (.exception "Unsupported quantized storage type")

theorem dispatchByElemType_size {elemType : ElemType} {number : Number}
    (h : dispatchByElemType elemType = .ok number) :
    getElemTypeSize elemType = CHAR_BIT * number.size := by
  cases elemType with
  | integer width signedness =>
    simp only [dispatchByElemType] at h
    split_ifs at h with hwidth
    cases h
    simp only [List.mem_cons, List.not_mem_nil, or_false] at hwidth
    rcases hwidth with rfl | rfl | rfl | rfl <;> rfl
  | uniformQuantized isSigned storageWidth zeroPoint =>
    simp only [dispatchByElemType] at h
    split_ifs at h with hwidth
    cases h
    exact hwidth
  | uniformQuantizedPerAxis isSigned storageWidth qDim zeroPoints =>
    simp only [dispatchByElemType] at h
    split_ifs at h with hwidth
    cases h
    exact hwidth
  | _ =>
    cases h
    rfl

/-- The stored elements may have another element type than the content is meant to have. -/
structure Content where
  type : NDType
  storageElemType : ElemType
  data : Buffer
  isSplat : Bool
  deriving DecidableEq

section Loops

abbrev Write := Buffer → Except Fault Buffer

def loop_1d (dim0 : ℕ) (proc : ℕ → Write) : Write := fun buf =>
  (List.range dim0).foldlM (fun buf i => proc i buf) buf

def loop_2d (dim0 dim1 : ℕ) (proc : ℕ → ℕ → Write) : Write := fun buf =>
  (List.range dim0 ×ˢ List.range dim1).foldlM (fun buf i => proc i.1 i.2 buf) buf

def loop_3d (dim0 dim1 dim2 : ℕ) (proc : ℕ → ℕ → ℕ → Write) : Write := fun buf =>
  (List.range dim0 ×ˢ List.range dim1 ×ˢ List.range dim2).foldlM
    (fun buf i => proc i.1 i.2.1 i.2.2 buf) buf

def loop_4d (dim0 dim1 dim2 dim3 : ℕ) (proc : ℕ → ℕ → ℕ → ℕ → Write) : Write := fun buf =>
  (List.range dim0 ×ˢ List.range dim1 ×ˢ List.range dim2 ×ˢ List.range dim3).foldlM
    (fun buf i => proc i.1 i.2.1 i.2.2.1 i.2.2.2 buf) buf

/-- Writes values over a buffer from a position on. -/
def store (values : Buffer) (pos : ℕ) : Write := fun buf =>
  if pos + values.length ≤ buf.length then .ok (overwrite buf pos values)
  else .error .overwrite

def copy_n (src : Buffer) (srcPos count dstPos : ℕ) : Write := fun buf =>
  if srcPos + count ≤ src.length then store ((src.drop srcPos).take count) dstPos buf
  else .error .overread

end Loops

def getMemIndexND (memIndex1D : ℕ) (memShape : List ℕ) : Except Fault (List ℕ) :=
  let (memIndexND, tempIndex1D) := memShape.foldr
    (fun mdSize (memIndexND, tempIndex1D) =>
      let ind := tempIndex1D % mdSize
      (ind :: memIndexND, (tempIndex1D - ind) / mdSize)) ([], memIndex1D)
  if tempIndex1D = 0 then .ok memIndexND
  else .error (.exception "Memory index 1D is not compatible with memory shape")

def getMemIndex1D (memIndexND memShape : List ℕ) : Except Fault ℕ := do
  throwUnless (memIndexND.length = memShape.length)
    "Memory index ND is not compatible with memory shape"
  let (memIndex1D, _) ← (memIndexND.zip memShape).foldrM
    (fun (mdInd, mdSize) (memIndex1D, tempSize) => do
      throwUnless (mdInd < mdSize) "Memory index ND is not compatible with memory shape"
      .ok (memIndex1D + mdInd * tempSize, tempSize * mdSize)) (0, 1)
  .ok memIndex1D

/-- A bit of a packed buffer, the lowest of each byte first. -/
def bitAt (buf : Buffer) (i : ℕ) : Bool := (buf.getD (i / CHAR_BIT) 0).getLsbD (i % CHAR_BIT)

/-- What is stored for an element. -/
inductive Element where
  | bit (value : Bool)
  | bytes (value : Buffer)
  deriving DecidableEq, Repr

namespace Content

def storageBytes (storageElemType : ElemType) (count : ℕ) : ℕ :=
  (getElemTypeSize storageElemType * count + (CHAR_BIT - 1)) / CHAR_BIT

/-- A fresh buffer; `fresh` is what the memory holds before anything is written. -/
def allocTempBuffer (fresh : ℕ → Byte) (type : NDType) (storageElemType : ElemType)
    (isSplat : Bool) : Content where
  type := type
  storageElemType := storageElemType
  data := (List.range (storageBytes storageElemType
    (if isSplat then 1 else type.getNumElements))).map fresh
  isSplat := isSplat

/-- The place of an element in memory, by its logical coordinates. -/
def memIndex (content : Content) (x : List ℕ) : ℕ :=
  rowMajor content.type.getMemShape (content.type.dimsOrder.memoryOrder x)

def element (content : Content) (x : List ℕ) : Element :=
  let index := if content.isSplat then 0 else content.memIndex x
  if getElemTypeSize content.storageElemType = 1 then .bit (bitAt content.data index)
  else .bytes (block (getElemTypeSize content.storageElemType / CHAR_BIT) index content.data)

/-- All elements are stored, in whole bytes or as single bits. -/
structure Dense (content : Content) : Prop where
  notSplat : content.isSplat = false
  stored : content.data.length =
    storageBytes content.storageElemType content.type.getNumElements
  width : getElemTypeSize content.storageElemType = 1 ∨
    0 < getElemTypeSize content.storageElemType ∧
      CHAR_BIT ∣ getElemTypeSize content.storageElemType

def moveBuffer (type : NDType) (other : Content) : Content := { other with type := type }

section FillWithZero

variable (floats : FloatCasts)

/-- A zero point as an element of the buffer. -/
def castZeroPoint (number : Number) (zp : ℤ) : Except Fault Buffer :=
  checkedCast floats Number.int64 number (encode 8 zp)

def fillChannel (content : Content) (outMemShape : List ℕ) (zeroPoints : List ℤ)
    (IC H W i : ℕ) : Write := fun buf => do
  let number ← dispatchByElemType content.storageElemType
  loop_3d IC H W (fun ic h w buf => do
    let inMemIndND ← content.type.dimsOrder.toMemoryOrder [i, ic, h, w]
    let inMemInd1D ← getMemIndex1D inMemIndND outMemShape
    let value ← castZeroPoint floats number (zeroPoints.getD i 0)
    store value (inMemInd1D * number.size) buf) buf

def fillWithZero (content : Content) : Except Fault Content := do
  match content.type.elemType with
  | .uniformQuantizedPerAxis _ _ quantizedDimension zeroPoints =>
    let outShape := content.type.shape
    let outMemShape ← content.type.dimsOrder.toMemoryOrder outShape
    throwUnless (outShape.length = 4) "Unsupported shape size"
    throwUnless (quantizedDimension = 0) "Only per-channel quantization is supported"
    let data ← loop_1d (outShape.getD 0 0) (content.fillChannel floats outMemShape zeroPoints
      (outShape.getD 1 0) (outShape.getD 2 0) (outShape.getD 3 0)) content.data
    .ok { content with data := data }
  | .uniformQuantized _ _ zp =>
    let number ← dispatchByElemType content.storageElemType
    let value ← castZeroPoint floats number zp
    .ok { content with
      data := (List.replicate (content.data.length / number.size) value).flatten }
  | _ => .ok { content with data := List.replicate content.data.length 0 }

end FillWithZero

end Content

end Vpux.Const
