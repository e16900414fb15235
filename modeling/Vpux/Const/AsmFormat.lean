import Vpux.Const.Content

/-! The text form of constants and of their transformations: what each `print` writes and what
each `parse` makes of it (`attributes/*.cpp`). -/
namespace Vpux.Const.Asm

structure IntegerAttr where
  value : ℤ
  type : ElemType
  deriving DecidableEq, Repr

/-- A number by its bits. -/
structure FloatAttr where
  value : ℕ
  type : ElemType
  deriving DecidableEq, Repr

structure AffineMapAttr where
  numDims : ℕ
  results : List ℕ
  deriving DecidableEq, Repr

structure DenseElementsAttr where
  type : NDType
  values : List ℤ
  deriving DecidableEq

/-- The parts of a `Const.CompressionSchemeAttr` as attributes, which have types. -/
structure CompressionSchemeAttr where
  axis : Option IntegerAttr
  numElems : DenseElementsAttr
  alignment : Option IntegerAttr
  deriving DecidableEq

/-- The attributes of other dialects, whose text is not written here. -/
inductive Attribute where
  | integer (attr : IntegerAttr)
  | float (attr : FloatAttr)
  | affineMap (attr : AffineMapAttr)
  | array (value : List Attribute)
  | denseElements (attr : DenseElementsAttr)
  | compressionScheme (attr : CompressionSchemeAttr)

abbrev ArrayAttr := List Attribute

/-- Truth values are integers of one bit. -/
def BoolAttr.get (value : Bool) : IntegerAttr := ⟨if value then 1 else 0, .integer 1 .Signless⟩

namespace ElemType

def isIntOrFloat (type : ElemType) : Bool := !isQuantized type

def isInteger : ElemType → Bool
  | .integer .. => true
  | _ => false

end ElemType

abbrev QuantizedType := { type : ElemType // isQuantized type = true }

inductive Mnemonic where
  | OpaqueElements
  | Broadcast
  | ConvertElemType
  | QuantCast
  | Dequantize
  | Rescale
  | Add
  | Reshape
  | Reverse
  | Reorder
  | PadWithZero
  | SubView
  | BitPack
  | Transpose
  | ExpandDilated
  | GetSparsityMap
  | Sparsify
  | RelocateWeightsTable
  | SwizzleConstant
  | ChangeShapeAndElemType
  deriving DecidableEq, Repr

/-- The transformations of the dialect with their parameters, those that may be null as options. -/
inductive TransformAttr where
  | Broadcast (axis value : IntegerAttr)
  | ConvertElemType (elemType : ElemType)
  | QuantCast (elemType : Option QuantizedType)
  | Dequantize
  | Rescale (scale : FloatAttr)
  | Add (bias : FloatAttr)
  | Reshape (shape : ArrayAttr)
  | Reverse (axis : IntegerAttr)
  | Reorder (order : AffineMapAttr)
  | PadWithZero (padBefore padAfter : ArrayAttr)
  | SubView (offset shape : ArrayAttr)
  | BitPack (width : IntegerAttr)
  | Transpose (order : AffineMapAttr)
  | ExpandDilated (dilations : ArrayAttr)
  | GetSparsityMap
  | Sparsify (compressOutputType : Bool) (numActualElements : Option DenseElementsAttr)
  | RelocateWeightsTable (weightsPtr : ArrayAttr) (sparsityPtr : IntegerAttr)
      (offsets : ArrayAttr) (weightsElemByteSize : Option IntegerAttr)
      (weightsCompression : Option CompressionSchemeAttr)
  | SwizzleConstant (swizzleKey arch : IntegerAttr) (alignSize : Option Bool)
  | ChangeShapeAndElemType (shape : ArrayAttr) (elemType : ElemType)

inductive Token where
  | less
  | greater
  | comma
  | colon
  | l_square
  | r_square
  | string (value : String)
  | hash_identifier (name : Mnemonic)
  | attribute (attr : Attribute)
  | type (type : ElemType)
  | shapedType (type : NDType)

section Print

def printOne (param : Token) : List Token := [.less, param, .greater]

def printTwo (param param' : Token) : List Token := [.less, param, .comma, param', .greater]

/-- A parameter that is left out with its comma when it is null. -/
def printOptional : Option Attribute → List Token
  | some attr => [.comma, .attribute attr]
  | none => []

end Print

namespace TransformAttr

def mnemonic : TransformAttr → Mnemonic
  | Broadcast .. => .Broadcast
  | ConvertElemType .. => .ConvertElemType
  | QuantCast .. => .QuantCast
  | Dequantize => .Dequantize
  | Rescale .. => .Rescale
  | Add .. => .Add
  | Reshape .. => .Reshape
  | Reverse .. => .Reverse
  | Reorder .. => .Reorder
  | PadWithZero .. => .PadWithZero
  | SubView .. => .SubView
  | BitPack .. => .BitPack
  | Transpose .. => .Transpose
  | ExpandDilated .. => .ExpandDilated
  | GetSparsityMap => .GetSparsityMap
  | Sparsify .. => .Sparsify
  | RelocateWeightsTable .. => .RelocateWeightsTable
  | SwizzleConstant .. => .SwizzleConstant
  | ChangeShapeAndElemType .. => .ChangeShapeAndElemType

/-- All entries are integers, with a property. -/
def allIntegers (cond : ℤ → Bool) (values : ArrayAttr) : Bool :=
  values.all fun
    | .integer attr => cond attr.value
    | _ => false

def isPermutation (map : AffineMapAttr) : Bool :=
  map.numDims = map.results.length ∧ map.results.Perm (List.range map.results.length)

def verify : TransformAttr → Bool
  | ConvertElemType elemType => ElemType.isIntOrFloat elemType
  | Reshape shape => allIntegers (0 < ·) shape
  | Reorder order => isPermutation order
  | PadWithZero padBefore padAfter => padBefore.length = padAfter.length ∧
      allIntegers (fun _ => true) padBefore ∧ allIntegers (fun _ => true) padAfter
  | SubView offset shape => offset.length = shape.length ∧ allIntegers (0 ≤ ·) offset ∧
      allIntegers (0 < ·) shape
  | BitPack width => width.value = 4
  | Transpose order => isPermutation order
  | ExpandDilated dilations => allIntegers (0 < ·) dilations
  | Sparsify _ numActualElements => numActualElements.all fun elements =>
      ElemType.isInteger elements.type.elemType ∧ elements.values.all (0 ≤ ·)
  | ChangeShapeAndElemType shape _ => allIntegers (0 < ·) shape
  | _ => true

def print : TransformAttr → List Token
  | Broadcast axis value => printTwo (.attribute (.integer axis)) (.attribute (.integer value))
  | ConvertElemType elemType => printOne (.type elemType)
  | QuantCast elemType =>
    [.less] ++ (elemType.map fun elemType => .type elemType.val).toList ++ [.greater]
  | Dequantize => []
  | Rescale scale => printOne (.attribute (.float scale))
  | Add bias => printOne (.attribute (.float bias))
  | Reshape shape => printOne (.attribute (.array shape))
  | Reverse axis => printOne (.attribute (.integer axis))
  | Reorder order => printOne (.attribute (.affineMap order))
  | PadWithZero padBefore padAfter =>
    printTwo (.attribute (.array padBefore)) (.attribute (.array padAfter))
  | SubView offset shape => printTwo (.attribute (.array offset)) (.attribute (.array shape))
  | BitPack width => printOne (.attribute (.integer width))
  | Transpose order => printOne (.attribute (.affineMap order))
  | ExpandDilated dilations => printOne (.attribute (.array dilations))
  | GetSparsityMap => []
  | Sparsify compressOutputType numActualElements =>
    [.less, .attribute (.integer (BoolAttr.get compressOutputType))] ++
      printOptional (numActualElements.map .denseElements) ++ [.greater]
  | RelocateWeightsTable weightsPtr sparsityPtr offsets weightsElemByteSize weightsCompression =>
    [.less, .attribute (.array weightsPtr), .comma, .attribute (.integer sparsityPtr), .comma,
      .attribute (.array offsets)] ++ printOptional (weightsElemByteSize.map .integer) ++
      printOptional (weightsCompression.map .compressionScheme) ++ [.greater]
  | SwizzleConstant swizzleKey arch alignSize =>
    [.less, .attribute (.integer swizzleKey), .comma, .attribute (.integer arch)] ++
      printOptional (alignSize.map fun value => .integer (BoolAttr.get value)) ++ [.greater]
  | ChangeShapeAndElemType shape elemType => printTwo (.attribute (.array shape)) (.type elemType)

end TransformAttr

abbrev Parser (α : Type) := StateT (List Token) Option α

section Tokens

def parseLess : Parser Unit
  | .less :: tokens => some ((), tokens)
  | _ => none

def parseGreater : Parser Unit
  | .greater :: tokens => some ((), tokens)
  | _ => none

def parseComma : Parser Unit
  | .comma :: tokens => some ((), tokens)
  | _ => none

def parseColon : Parser Unit
  | .colon :: tokens => some ((), tokens)
  | _ => none

def parseString : Parser String
  | .string value :: tokens => some (value, tokens)
  | _ => none

def parseType : Parser ElemType
  | .type type :: tokens => some (type, tokens)
  | _ => none

def parseShapedType : Parser NDType
  | .shapedType type :: tokens => some (type, tokens)
  | _ => none

/-- `parseAttribute`, where the kind of the attribute is that of the variable it goes to. -/
def parseAttribute {α : Type} (cast : Attribute → Option α) : Parser α
  | .attribute attr :: tokens => (cast attr).map fun value => (value, tokens)
  | _ => none

namespace Attribute

def asInteger : Attribute → Option IntegerAttr
  | integer attr => some attr
  | _ => none

def asBool : Attribute → Option Bool
  | integer attr => if attr.type = .integer 1 .Signless then some (attr.value ≠ 0) else none
  | _ => none

def asFloat : Attribute → Option FloatAttr
  | float attr => some attr
  | _ => none

def asAffineMap : Attribute → Option AffineMapAttr
  | affineMap attr => some attr
  | _ => none

def asArray : Attribute → Option ArrayAttr
  | array attr => some attr
  | _ => none

def asDenseElements : Attribute → Option DenseElementsAttr
  | denseElements attr => some attr
  | _ => none

def asCompressionScheme : Attribute → Option CompressionSchemeAttr
  | compressionScheme attr => some attr
  | _ => none

end Attribute

/-- Whether a parser succeeds; when it does not, nothing is read. -/
def succeeded (parser : Parser Unit) : Parser Bool := fun tokens =>
  match parser tokens with
  | some (_, rest) => some (true, rest)
  | none => some (false, tokens)

end Tokens

section Parse

variable {α β : Type}

def parseOne (parser : Parser α) : Parser α := do
  parseLess
  let value ← parser
  parseGreater
  return value

def parseTwo (parser : Parser α) (parser' : Parser β) : Parser (α × β) := do
  parseLess
  let value ← parser
  parseComma
  let value' ← parser'
  parseGreater
  return (value, value')

/-- A parameter that may be missing together with its comma. -/
def parseOptional (parser : Parser α) : Parser (Option α) := do
  if ← succeeded parseComma then
    let value ← parser
    return some value
  return none

def getChecked (attr : TransformAttr) : Parser TransformAttr :=
  if attr.verify then return attr else failure

def parseIntegerAttr : Parser IntegerAttr := parseAttribute Attribute.asInteger

def parseArrayAttr : Parser ArrayAttr := parseAttribute Attribute.asArray

def BroadcastAttr.parse : Parser TransformAttr := do
  let (axis, value) ← parseTwo parseIntegerAttr parseIntegerAttr
  return .Broadcast axis value

def ConvertElemTypeAttr.parse : Parser TransformAttr := do
  let elemType ← parseOne parseType
  getChecked (.ConvertElemType elemType)

/-- A type of another kind counts as none. -/
def parseOptionalQuantizedType : Parser (Option QuantizedType)
  | .type type :: tokens =>
    some (if h : isQuantized type = true then some ⟨type, h⟩ else none, tokens)
  | tokens => some (none, tokens)

def QuantCastAttr.parse : Parser TransformAttr := do
  parseLess
  let elemType ← parseOptionalQuantizedType
  parseGreater
  getChecked (.QuantCast elemType)

def DequantizeAttr.parse : Parser TransformAttr := return .Dequantize

def RescaleAttr.parse : Parser TransformAttr := do
  let scale ← parseOne (parseAttribute Attribute.asFloat)
  return .Rescale scale

def AddAttr.parse : Parser TransformAttr := do
  let bias ← parseOne (parseAttribute Attribute.asFloat)
  return .Add bias

def ReshapeAttr.parse : Parser TransformAttr := do
  let shape ← parseOne parseArrayAttr
  getChecked (.Reshape shape)

def ReverseAttr.parse : Parser TransformAttr := do
  parseLess
  let axis ← parseIntegerAttr
  parseComma
  return .Reverse axis

def ReorderAttr.parse : Parser TransformAttr := do
  let order ← parseOne (parseAttribute Attribute.asAffineMap)
  getChecked (.Reorder order)

def PadWithZeroAttr.parse : Parser TransformAttr := do
  let (padBefore, padAfter) ← parseTwo parseArrayAttr parseArrayAttr
  getChecked (.PadWithZero padBefore padAfter)

def SubViewAttr.parse : Parser TransformAttr := do
  let (offset, shape) ← parseTwo parseArrayAttr parseArrayAttr
  getChecked (.SubView offset shape)

def BitPackAttr.parse : Parser TransformAttr := do
  let width ← parseOne parseIntegerAttr
  return .BitPack width

def TransposeAttr.parse : Parser TransformAttr := do
  let order ← parseOne (parseAttribute Attribute.asAffineMap)
  getChecked (.Transpose order)

def ExpandDilatedAttr.parse : Parser TransformAttr := do
  let dilations ← parseOne parseArrayAttr
  getChecked (.ExpandDilated dilations)

def GetSparsityMapAttr.parse : Parser TransformAttr := return .GetSparsityMap

def SparsifyAttr.parse : Parser TransformAttr := do
  parseLess
  let compressOutputType ← parseAttribute Attribute.asBool
  let numActualElements ← parseOptional (parseAttribute Attribute.asDenseElements)
  parseGreater
  getChecked (.Sparsify compressOutputType numActualElements)

def RelocateWeightsTableAttr.parse : Parser TransformAttr := do
  parseLess
  let weightsPtr ← parseArrayAttr
  parseComma
  let sparsityPtr ← parseIntegerAttr
  parseComma
  let offsets ← parseArrayAttr
  if ← succeeded parseGreater then
    return .RelocateWeightsTable weightsPtr sparsityPtr offsets none none
  parseComma
  let weightsElemByteSize ← parseIntegerAttr
  if ← succeeded parseGreater then
    return .RelocateWeightsTable weightsPtr sparsityPtr offsets (some weightsElemByteSize) none
  parseComma
  let weightsCompression ← parseAttribute Attribute.asCompressionScheme
  parseGreater
  return .RelocateWeightsTable weightsPtr sparsityPtr offsets (some weightsElemByteSize)
    (some weightsCompression)

def SwizzleConstantAttr.parse : Parser TransformAttr := do
  parseLess
  let swizzleKey ← parseIntegerAttr
  parseComma
  let arch ← parseIntegerAttr
  let alignSize ← parseOptional (parseAttribute Attribute.asBool)
  parseGreater
  return .SwizzleConstant swizzleKey arch alignSize

def ChangeShapeAndElemTypeAttr.parse : Parser TransformAttr := do
  parseLess
  let shape ← parseArrayAttr
  parseComma
  let elemType ← parseType
  parseComma
  return .ChangeShapeAndElemType shape elemType

/-- The parser of each transformation; `OpaqueElements` is none. -/
def TransformAttr.parse : Mnemonic → Parser TransformAttr
  | .OpaqueElements => failure
  | .Broadcast => BroadcastAttr.parse
  | .ConvertElemType => ConvertElemTypeAttr.parse
  | .QuantCast => QuantCastAttr.parse
  | .Dequantize => DequantizeAttr.parse
  | .Rescale => RescaleAttr.parse
  | .Add => AddAttr.parse
  | .Reshape => ReshapeAttr.parse
  | .Reverse => ReverseAttr.parse
  | .Reorder => ReorderAttr.parse
  | .PadWithZero => PadWithZeroAttr.parse
  | .SubView => SubViewAttr.parse
  | .BitPack => BitPackAttr.parse
  | .Transpose => TransposeAttr.parse
  | .ExpandDilated => ExpandDilatedAttr.parse
  | .GetSparsityMap => GetSparsityMapAttr.parse
  | .Sparsify => SparsifyAttr.parse
  | .RelocateWeightsTable => RelocateWeightsTableAttr.parse
  | .SwizzleConstant => SwizzleConstantAttr.parse
  | .ChangeShapeAndElemType => ChangeShapeAndElemTypeAttr.parse

end Parse

-- The text of a dialect attribute is a name with a body in brackets. The body is cut out first and
-- given to the parser of the attribute.
section Body

variable {α : Type}

-- whether the reader of dialect attributes accepts what a parser leaves of its body
variable (acceptsRest : List Token → Bool)

def Token.isGreater : Token → Bool
  | .greater => true
  | _ => false

def parseBody : Parser (List Token)
  | .less :: tokens =>
    match tokens.dropWhile (!·.isGreater) with
    | closing :: rest => some (.less :: tokens.takeWhile (!·.isGreater) ++ [closing], rest)
    | [] => none
  | tokens => some ([], tokens)

def parseWhole (parser : Parser α) (body : List Token) : Option α :=
  match parser body with
  | some (value, rest) => if acceptsRest rest then some value else none
  | none => none

def TransformAttr.printAttribute (attr : TransformAttr) : List Token :=
  .hash_identifier attr.mnemonic :: attr.print

def parseTransformAttr : Parser TransformAttr
  | .hash_identifier name :: tokens => do
    let (body, tokens) ← parseBody tokens
    let attr ← parseWhole acceptsRest (TransformAttr.parse name) body
    return (attr, tokens)
  | _ => none

end Body

section Opaque

def toHex (value : Buffer) : String :=
  String.ofList (value.flatMap fun byte => [hexdigit (byte.toNat / 16), hexdigit (byte.toNat % 16)])
where
  hexdigit (digit : ℕ) : Char :=
    if digit < 10 then Char.ofNat ('0'.toNat + digit) else Char.ofNat ('A'.toNat + (digit - 10))

def hexDigitValue (c : Char) : Option ℕ :=
  if '0' ≤ c ∧ c ≤ '9' then some (c.toNat - '0'.toNat)
  else if 'A' ≤ c ∧ c ≤ 'F' then some (c.toNat - 'A'.toNat + 10)
  else if 'a' ≤ c ∧ c ≤ 'f' then some (c.toNat - 'a'.toNat + 10)
  else none

/-- The first digit of an odd number of them is a byte of its own. -/
def tryGetFromHex (digits : List Char) : Option Buffer :=
  if digits.length % 2 = 0 then pairs digits
  else do
    let first ← digits.head?
    let value ← hexDigitValue first
    let rest ← pairs digits.tail
    return BitVec.ofNat 8 value :: rest
where
  pairs : List Char → Option Buffer
    | high :: low :: digits => do
      let highValue ← hexDigitValue high
      let lowValue ← hexDigitValue low
      let rest ← pairs digits
      return BitVec.ofNat 8 (16 * highValue + lowValue) :: rest
    | _ => some []

structure OpaqueElementsAttr where
  type : NDType
  value : Buffer

def elidedLargeConstStr : String := "elided_large_const"

/-- Large values may be left out. -/
def OpaqueElementsAttr.print (shouldElide : Bool) (attr : OpaqueElementsAttr) : List Token :=
  if shouldElide then [.less, .string elidedLargeConstStr, .comma, .string "0xDEADBEEF", .greater]
  else [.less, .string ("0x" ++ toHex attr.value), .greater]

/-- The value that stands behind the name of elements that were left out. -/
def parseElided (data : String) : Parser String :=
  if data = elidedLargeConstStr then do
    parseComma
    parseString
  else return data

def getFromHex (data : String) : Option Buffer :=
  if data.toList.take 2 = ['0', 'x'] then tryGetFromHex (data.toList.drop 2) else none

def OpaqueElementsAttr.parse : Parser Buffer := do
  parseLess
  let data ← parseString
  let data ← parseElided data
  getFromHex data

end Opaque

inductive ElementsAttr where
  | denseElements (attr : DenseElementsAttr)
  | opaqueElements (attr : OpaqueElementsAttr)

namespace ElementsAttr

def getType : ElementsAttr → NDType
  | denseElements attr => attr.type
  | opaqueElements attr => attr.type

def printAttribute (shouldElide : OpaqueElementsAttr → Bool) : ElementsAttr → List Token
  | denseElements attr => [.attribute (.denseElements attr)]
  | opaqueElements attr => .hash_identifier .OpaqueElements :: attr.print (shouldElide attr) ++
    [.colon, .shapedType attr.type]

end ElementsAttr

def parseElementsAttr (acceptsRest : List Token → Bool) : Parser ElementsAttr
  | .attribute (.denseElements attr) :: tokens => some (.denseElements attr, tokens)
  | .hash_identifier .OpaqueElements :: tokens => do
    let (body, tokens) ← parseBody tokens
    let (_, tokens) ← parseColon tokens
    let (type, tokens) ← parseShapedType tokens
    let value ← parseWhole acceptsRest OpaqueElementsAttr.parse body
    return (.opaqueElements ⟨type, value⟩, tokens)
  | _ => none

/-- A constant: the base content and, unless there are none, the transformations. -/
structure ContentAttr where
  baseContent : ElementsAttr
  transformations : Option (List TransformAttr)
  finalType : NDType

section Content

variable (acceptsRest : List Token → Bool)

-- the output types of the transformations
variable (inferOutputType : TransformAttr → NDType → Except Fault NDType)

def inferFinalType (baseType : NDType) (transformations : List TransformAttr) :
    Except Fault NDType :=
  transformations.foldlM (fun type attr => inferOutputType attr type) baseType

namespace ContentAttr

def verify (content : ContentAttr) : Bool :=
  let elemType := content.baseContent.getType.elemType
  ElemType.isIntOrFloat elemType &&
    (match content.baseContent with
      | .denseElements _ => true
      | .opaqueElements attr => decide (CHAR_BIT * attr.value.length =
          attr.type.getNumElements * getElemTypeSize attr.type.elemType)) &&
    (match content.transformations with
      | some transformations =>
        decide (inferFinalType inferOutputType content.baseContent.getType transformations =
          .ok content.finalType)
      | none => true)

/-- `printAttribute` of an array. -/
def printTransformations : List TransformAttr → List Token
  | [] => []
  | attr :: rest => attr.printAttribute ++ rest.flatMap fun attr => .comma :: attr.printAttribute

def print (shouldElide : OpaqueElementsAttr → Bool) (content : ContentAttr) : List Token :=
  content.baseContent.printAttribute shouldElide ++
    match content.transformations with
    | some transformations =>
      [.comma, .l_square] ++ printTransformations transformations ++ [.r_square]
    | none => []

/-- Attributes up to the end of their array; `fuel` bounds how many there are. -/
def parseElements : ℕ → Parser (List TransformAttr)
  | 0 => failure
  | fuel + 1 => do
    let attr ← parseTransformAttr acceptsRest
    if ← succeeded parseComma then do
      let rest ← parseElements fuel
      return attr :: rest
    else return [attr]

def parseTransformations : Parser (List TransformAttr)
  | .l_square :: .r_square :: tokens => some ([], tokens)
  | .l_square :: tokens => do
    let (transformations, tokens) ← parseElements acceptsRest tokens.length tokens
    match tokens with
    | .r_square :: tokens => some (transformations, tokens)
    | _ => none
  | _ => none

/-- The attribute with the type that its transformations lead to. -/
def infer (baseContent : ElementsAttr) (transformations : Option (List TransformAttr)) :
    Option ContentAttr :=
  match inferFinalType inferOutputType baseContent.getType (transformations.getD []) with
  | .ok finalType =>
    let content : ContentAttr := ⟨baseContent, transformations, finalType⟩
    if content.verify inferOutputType then some content else none
  | .error _ => none

def parse : Parser ContentAttr := do
  let baseContent ← parseElementsAttr acceptsRest
  let transformations ← parseOptional (parseTransformations acceptsRest)
  infer inferOutputType baseContent transformations

end ContentAttr

end Content

end Vpux.Const.Asm
