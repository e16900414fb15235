import Vpux.Const.Content

/-! Sparse weights: the bits of the weights that are not zero, the weights that are kept and how
many these are (`attributes/get_sparsity_map.cpp`, `attributes/sparsify.cpp`,
`utils/sparsity.cpp`). -/
namespace Vpux.Const
open Data

def VPU_WEIGHT_SET_BYTE_ALIGNMENT : ℕ := 16

def alignValUp (val align : ℕ) : ℕ := (val + align - 1) / align * align

/-- The size of a floating-point number without its sign from which on it is not a number. -/
def infinity : FloatType → ℕ
  | .float => 0x7F800000
  | .double => 0x7FF0000000000000
  | .float16 => 0x7C00
  | .bfloat16 => 0x7F80

/-- `==` of the stored numbers. Both zeros are equal, and what is not a number equals nothing. -/
def sameValue : Number → Buffer → Buffer → Bool
  | .integer isSigned _, a, b => decode isSigned a = decode isSigned b
  | .floating type, a, b =>
    let signBit : ℤ := 2 ^ (CHAR_BIT * (Number.floating type).size - 1)
    let x := decode false a
    let y := decode false b
    x % signBit ≤ infinity type ∧ y % signBit ≤ infinity type ∧
      (x = y ∨ x % signBit = 0 ∧ y % signBit = 0)

namespace ElemType

/-- `normalizeQuantStorageType`. -/
def quantStorageType (isSigned : Bool) (storageWidth : ℕ) : ElemType :=
  .integer storageWidth (if isSigned then .Signed else .Unsigned)

/-- `getSparsifyValue`: the zero value, and the type that the weights are stored as. -/
def getSparsifyValue : ElemType → Except Fault (ElemType × ℤ)
  | .uniformQuantized isSigned storageWidth zeroPoint =>
    .ok (quantStorageType isSigned storageWidth, zeroPoint)
  | .uniformQuantizedPerAxis isSigned storageWidth _ zeroPoints => do
    throwUnless (∀ zp ∈ zeroPoints, zp = zeroPoints.headD 0) "Not all zero-points are equal"
    match zeroPoints with
    | [] => .error .overread
    | zeroPoint :: _ => .ok (quantStorageType isSigned storageWidth, zeroPoint)
  | elemType => .ok (elemType, 0)

/-- The number type that weights of an element type are read as. -/
def storageType : ElemType → Except Fault Number
  | .integer 8 .Signed => .ok (.integer true 1)
  | .integer 8 .Unsigned => .ok (.integer false 1)
  | .f16 => .ok (.floating .float16)
  | .bf16 => .ok (.floating .bfloat16)
  | .f32 => .ok (.floating .float)
  | _ => .error (.exception "Unexpected weights data type")

end ElemType

namespace Content

variable (floats : FloatCasts)

/-- An element of `getValues`, by its position in memory. -/
def getItem (content : Content) (number : Number) (ind : ℕ) : Except Fault Buffer := do
  let storage ← dispatchByElemType content.storageElemType
  if content.isSplat then
    throwUnless (content.data.length = storage.size)
      "Splat data store size doesn't match element type size"
    checkedCast floats storage number content.data
  else
    throwUnless (ind * storage.size < content.data.length)
      "Out-of-bound access in ContentRangeBase"
    if content.data.length < ind * storage.size + storage.size then .error .overread
    else checkedCast floats storage number (block storage.size ind content.data)

/-- `StorageType(value)`, which wraps integers around. -/
def staticCast (number : Number) (value : ℤ) : Except Fault Buffer :=
  match number with
  | .integer _ size => .ok (encode size (decode true (encode 8 value)))
  | .floating _ => checkedCast floats Number.int64 number (encode 8 value)

def sparsityMapElementType : ElemType := .integer 1 .Unsigned

/-- The bits of eight elements in a row. -/
def sparsityByte (content : Content) (number : Number) (zero : Buffer) (byteStart : ℕ) :
    Except Fault Byte :=
  (List.range CHAR_BIT).foldlM (fun (byteValue : Byte) bitShift => do
    let value ← content.getItem floats number (byteStart + bitShift)
    .ok (if sameValue number value zero then byteValue else byteValue ||| 1#8 <<< bitShift)) 0#8

def generateSparsityMap (fresh : ℕ → Byte) (content : Content) (number : Number)
    (sparsifyValue : ℤ) (outputType : NDType) : Except Fault Content := do
  let output ←
    (allocTempBuffer fresh outputType sparsityMapElementType false).fillWithZero floats
  let inputWorkloadSize := (content.type.shape.drop 1).prod
  let outputWorkloadSize := (outputType.shape.drop 1).prod
  let zero ← staticCast floats number sparsifyValue
  let data ← loop_2d (outputType.shape.getD 0 0)
    ((inputWorkloadSize + CHAR_BIT - 1) / CHAR_BIT) (fun oc group buf => do
      let byteStart := oc * inputWorkloadSize + group * CHAR_BIT
      let byteValue ← content.sparsityByte floats number zero byteStart
      store [byteValue] (oc * outputWorkloadSize / CHAR_BIT + group) buf) output.data
  .ok { output with data := data }

end Content

def inferWeightsSparsityMapShape (dataShape : List ℕ) : Except Fault (List ℕ) := do
  throwUnless (dataShape.length = 4) "Expected data shape to be 4D"
  let workloadSize := (dataShape.drop 1).prod
  let alignment := 16 * CHAR_BIT
  .ok [dataShape.getD 0 0, 1, 1, alignValUp workloadSize alignment]

namespace GetSparsityMapAttr

/-- The rows of a map are stored one after the other. -/
def inDefaultOrder (type : NDType) : Except Fault NDType :=
  if type.dimsOrder.isIdentity then .ok type
  else type.changeDimsOrder (DimsOrder.fromNumDims type.shape.length)

def inferOutputType (input : NDType) : Except Fault NDType := do
  let newShape ← inferWeightsSparsityMapShape input.shape
  let outputType ← input.changeShape newShape
  let outputType ← inDefaultOrder outputType
  outputType.changeElemType (.integer 1 .Signless)

def transform (floats : FloatCasts) (fresh : ℕ → Byte) (input : Content) :
    Except Fault Content := do
  let outputType ← inferOutputType input.type
  let (inputElementType, sparsifyValue) ← input.type.elemType.getSparsifyValue
  let number ← inputElementType.storageType
  input.generateSparsityMap floats fresh number sparsifyValue outputType

end GetSparsityMapAttr

/-- `getNumActualElements`: the weights of every output channel that are not zero. -/
def getNumActualElements (floats : FloatCasts) (content : Content) (elementType : ElemType) :
    Except Fault (List ℕ) := do
  let (elementType, sparsifyValue) ← elementType.getSparsifyValue
  let number ← elementType.storageType
  throwUnless (content.type.shape.length = 4) "got unxpected content shape"
  let workloadSize := (content.type.shape.drop 1).prod
  let zero ← Content.castZeroPoint floats number sparsifyValue
  (List.range (content.type.shape.getD 0 0)).mapM fun oc =>
    (List.range workloadSize).foldlM (fun elems k => do
      let value ← content.getItem floats number (oc * workloadSize + k)
      .ok (if sameValue number value zero then elems else elems + 1)) 0

namespace SparsifyAttr

/-- The kept weights of every channel take whole chunks of sixteen bytes. -/
def compressType (inputType : NDType) (numElems : List ℕ) : Except Fault NDType := do
  let elemByteSize ← toByte (getElemTypeSize inputType.elemType)
  let totalByteSize :=
    (numElems.map fun num => alignValUp (num * elemByteSize) VPU_WEIGHT_SET_BYTE_ALIGNMENT).sum
  inputType.changeShapeElemType [totalByteSize, 1, 1, 1] (.integer 8 .Unsigned)

/-- The weights of a channel that are not zero, one after the other from `outputIndex` on. -/
def sparsifyChannel (floats : FloatCasts) (content : Content) (number : Number) (zero : Buffer)
    (workloadSize oc : ℕ) (state : ℕ × Buffer) : Except Fault (ℕ × Buffer) := do
  let (outputIndex, outBuf) ← (List.range workloadSize).foldlM (fun (outputIndex, outBuf) k => do
    let value ← content.getItem floats number (oc * workloadSize + k)
    if sameValue number value zero then .ok (outputIndex, outBuf)
    else do
      let outBuf ← store value (outputIndex * number.size) outBuf
      .ok (outputIndex + 1, outBuf)) state
  let outputIndexByte := outputIndex * number.size
  if outputIndexByte % VPU_WEIGHT_SET_BYTE_ALIGNMENT ≠ 0 then
    .ok (alignValUp outputIndexByte VPU_WEIGHT_SET_BYTE_ALIGNMENT / number.size, outBuf)
  else .ok (outputIndex, outBuf)

def sparsify (floats : FloatCasts) (fresh : ℕ → Byte) (content : Content) (number : Number)
    (sparsifyValue : ℤ) (outputType : NDType) : Except Fault Content := do
  let output ←
    (Content.allocTempBuffer fresh outputType outputType.elemType false).fillWithZero floats
  throwUnless (content.type.shape.length = 4) "Expected 4D input shape"
  let workloadSize := (content.type.shape.drop 1).prod
  let zero ← Content.castZeroPoint floats number sparsifyValue
  let (_, data) ← (List.range (content.type.shape.getD 0 0)).foldlM (fun state oc =>
    sparsifyChannel floats content number zero workloadSize oc state) (0, output.data)
  .ok { output with data := data }

/-- `transform` with the counts that the attribute carries. -/
def transform (floats : FloatCasts) (fresh : ℕ → Byte) (numActualElements : List ℕ)
    (input : Content) : Except Fault Content := do
  let outputType ← compressType input.type numActualElements
  let (inputElementType, sparsifyValue) ← input.type.elemType.getSparsifyValue
  let number ← inputElementType.storageType
  sparsify floats fresh input number sparsifyValue outputType

end SparsifyAttr

end Vpux.Const
