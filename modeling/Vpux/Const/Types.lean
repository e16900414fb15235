import Mathlib.Data.List.Perm.Basic
import Mathlib.Data.List.GetD
import Vpux.Data.RowMajor

/-! Ranked tensor types: shape, element type and the order of the dimensions in memory. -/
namespace Vpux.Const
open Data

/-- Why a computation stops: a failed check, one without a text of its own, or an access that
leaves a buffer. -/
inductive Fault where
  | exception (message : String)
  | rejected
  | overread
  | overwrite
  deriving DecidableEq, Repr

def throwUnless (cond : Prop) [Decidable cond] (message : String) : Except Fault Unit :=
  if cond then .ok () else .error (.exception message)

theorem throwUnless_eq_ok {cond : Prop} [Decidable cond] {message : String} {u : Unit} :
    throwUnless cond message = .ok u ↔ cond := by
  unfold throwUnless
  split <;> simp [*]

def rejectUnless (cond : Prop) [Decidable cond] : Except Fault Unit :=
  if cond then .ok () else .error .rejected

theorem rejectUnless_eq_ok {cond : Prop} [Decidable cond] {u : Unit} :
    rejectUnless cond = .ok u ↔ cond := by
  unfold rejectUnless
  split <;> simp [*]

def CHAR_BIT : ℕ := 8

inductive Signedness where
  | Signless
  | Signed
  | Unsigned
  deriving DecidableEq, Repr

/-- The scales of a quantized type decide nothing here; there are as many as zero points. -/
inductive ElemType where
  | integer (width : ℕ) (signedness : Signedness)
  | bf16
  | f16
  | f32
  | f64
  | uniformQuantized (isSigned : Bool) (storageWidth : ℕ) (zeroPoint : ℤ)
  | uniformQuantizedPerAxis (isSigned : Bool) (storageWidth : ℕ) (quantizedDimension : ℕ)
      (zeroPoints : List ℤ)
  deriving DecidableEq, Repr

namespace ElemType

def zeroPoints : ElemType → List ℤ
  | uniformQuantizedPerAxis _ _ _ zeroPoints => zeroPoints
  | uniformQuantized _ _ zeroPoint => [zeroPoint]
  | _ => []

/-- The dimension whose slices have zero points of their own. -/
def quantizedAxis : ElemType → Option ℕ
  | uniformQuantizedPerAxis _ _ quantizedDimension _ => some quantizedDimension
  | _ => none

end ElemType

def isQuantized : ElemType → Bool
  | .uniformQuantized .. => true
  | .uniformQuantizedPerAxis .. => true
  | _ => false

/-- The elements that are left in the parts of a constant whose zeros are not stored. -/
structure CompressionSchemeAttr where
  numElems : List ℕ
  alignment : Option ℕ
  deriving DecidableEq, Repr

/-- In bits. -/
def getElemTypeSize : ElemType → ℕ
  | .integer width _ => width
  | .bf16 => 16
  | .f16 => 16
  | .f32 => 32
  | .f64 => 64
  | .uniformQuantized _ storageWidth _ => storageWidth
  | .uniformQuantizedPerAxis _ storageWidth _ _ => storageWidth

def toByte (bits : ℕ) : Except Fault ℕ :=
  if bits % CHAR_BIT = 0 then .ok (bits / CHAR_BIT)
  else .error (.exception "Can't convert Bit to Byte")

/-- The dimensions from major to minor. -/
structure DimsOrder where
  toPermutation : List ℕ
  isPermutation : toPermutation.Perm (List.range toPermutation.length)
  deriving DecidableEq

variable {order : DimsOrder}

open DimsOrder List

namespace DimsOrder

def numDims (order : DimsOrder) : ℕ := order.toPermutation.length

def fromNumDims (numDims : ℕ) : DimsOrder where
  toPermutation := List.range numDims
  isPermutation := by rw [List.length_range]

def fromPermutation (perm : List ℕ) : Except Fault DimsOrder :=
  if h : perm.Perm (List.range perm.length) then .ok ⟨perm, h⟩
  else .error (.exception "Dim is out of DimsOrder permutation range or was used twice")

def NHWC : DimsOrder := ⟨[0, 2, 3, 1], by decide⟩

def NDHWC : DimsOrder := ⟨[0, 2, 3, 4, 1], by decide⟩

def dimPos (order : DimsOrder) (d : ℕ) : ℕ := order.toPermutation.idxOf d

def dimAt (order : DimsOrder) (pos : ℕ) : ℕ := order.toPermutation.getD pos 0

def isIdentity (order : DimsOrder) : Prop := order = fromNumDims order.numDims

instance (order : DimsOrder) : Decidable order.isIdentity := inferInstanceAs (Decidable (_ = _))

/-- The values of the dimensions from major to minor. -/
def memoryOrder (order : DimsOrder) (values : List ℕ) : List ℕ :=
  order.toPermutation.map fun d => values.getD d 0

def toMemoryOrder (order : DimsOrder) (values : List ℕ) : Except Fault (List ℕ) :=
  if values.length = order.numDims then .ok (order.memoryOrder values)
  else .error (.exception "DimValues are not compatible with DimsOrder")

/-- The values of the dimensions by their logical numbers. -/
def logicalOrder (order : DimsOrder) (values : List ℕ) : List ℕ :=
  (List.range order.numDims).map fun d => values.getD (order.dimPos d) 0

variable {values : List ℕ}

theorem toMemoryOrder_eq (h : values.length = order.numDims) :
    order.toMemoryOrder values = .ok (order.memoryOrder values) := if_pos h

@[simp] theorem length_memoryOrder (order : DimsOrder) (values : List ℕ) :
    (order.memoryOrder values).length = order.numDims := length_map _

variable {i : ℕ}

theorem getElem_memoryOrder (hi : i < (order.memoryOrder values).length) :
    (order.memoryOrder values)[i] = values.getD (order.dimAt i) 0 := by
  have hi' : i < order.toPermutation.length := by simpa [numDims] using hi
  simp only [memoryOrder, getElem_map, dimAt, getD_eq_getElem _ _ hi']

theorem dimAt_lt (hi : i < order.numDims) : order.dimAt i < order.numDims := by
  have hmem : order.dimAt i ∈ order.toPermutation := by
    rw [dimAt, getD_eq_getElem _ _ hi]
    exact getElem_mem hi
  simpa [numDims] using order.isPermutation.subset hmem

theorem nodup_toPermutation (order : DimsOrder) : order.toPermutation.Nodup :=
  order.isPermutation.nodup_iff.mpr nodup_range

variable {d : ℕ}

theorem mem_toPermutation : d ∈ order.toPermutation ↔ d < order.numDims := by
  rw [order.isPermutation.mem_iff, mem_range, numDims]

theorem dimPos_lt (hd : d < order.numDims) : order.dimPos d < order.numDims :=
  idxOf_lt_length_of_mem (mem_toPermutation.mpr hd)

theorem dimAt_dimPos (hd : d < order.numDims) : order.dimAt (order.dimPos d) = d := by
  rw [dimAt, getD_eq_getElem _ _ (dimPos_lt hd)]
  exact getElem_idxOf (dimPos_lt hd)

theorem dimPos_dimAt (hi : i < order.numDims) : order.dimPos (order.dimAt i) = i := by
  rw [dimAt, getD_eq_getElem _ _ hi]
  exact order.nodup_toPermutation.idxOf_getElem i hi

theorem map_dimAt_range (order : DimsOrder) :
    (List.range order.numDims).map order.dimAt = order.toPermutation := by
  apply ext_getElem (by simp [numDims])
  intro i hi hi'
  rw [getElem_map, getElem_range, dimAt, getD_eq_getElem _ _ hi']

theorem fromPermutation_toPermutation (order : DimsOrder) :
    fromPermutation order.toPermutation = .ok order := dif_pos order.isPermutation

@[simp] theorem length_logicalOrder (order : DimsOrder) (values : List ℕ) :
    (order.logicalOrder values).length = order.numDims := by
  rw [logicalOrder, length_map, length_range]

theorem getElem_logicalOrder (hd : d < (order.logicalOrder values).length) :
    (order.logicalOrder values)[d] = values.getD (order.dimPos d) 0 := by
  simp only [logicalOrder, getElem_map, getElem_range]

section Values

variable {α β : Type} [Zero α] [Zero β] {order : DimsOrder}

/-- Values of any kind, one for each dimension, from major to minor. -/
def toMemory (order : DimsOrder) (values : List α) : List α :=
  order.toPermutation.map fun d => values.getD d 0

/-- Such values by the logical numbers of the dimensions. -/
def toLogical (order : DimsOrder) (values : List α) : List α :=
  (List.range order.numDims).map fun d => values.getD (order.dimPos d) 0

@[simp] theorem length_toMemory (order : DimsOrder) (values : List α) :
    (order.toMemory values).length = order.numDims := length_map _

@[simp] theorem length_toLogical (order : DimsOrder) (values : List α) :
    (order.toLogical values).length = order.numDims := by
  rw [toLogical, length_map, length_range]

theorem getElem_toMemory {values : List α} (hi : i < (order.toMemory values).length) :
    (order.toMemory values)[i] = values.getD (order.dimAt i) 0 := by
  have hi' : i < order.toPermutation.length := by simpa [numDims] using hi
  simp only [toMemory, getElem_map, dimAt, getD_eq_getElem _ _ hi']

theorem getElem_toLogical {values : List α} (hd : d < (order.toLogical values).length) :
    (order.toLogical values)[d] = values.getD (order.dimPos d) 0 := by
  simp only [toLogical, getElem_map, getElem_range]

theorem toMemory_toLogical {values : List α} (h : values.length = order.numDims) :
    order.toMemory (order.toLogical values) = values := by
  apply ext_getElem (by simp [h])
  intro i hi hi'
  have hd : order.dimAt i < (order.toLogical values).length :=
    (order.length_toLogical values).symm ▸ dimAt_lt (h ▸ hi')
  rw [getElem_toMemory, getD_eq_getElem _ _ hd, getElem_toLogical,
    dimPos_dimAt (h ▸ hi'), getD_eq_getElem _ _ hi']

theorem forall₂_toMemory {l : List α} {l' : List β} {R : α → β → Prop}
    (h : List.Forall₂ R l l') (hnum : l.length = order.numDims) :
    List.Forall₂ R (order.toMemory l) (order.toMemory l') := by
  refine forall₂_iff_get.mpr ⟨by simp, fun i hi hi' => ?_⟩
  have hd : order.dimAt i < l.length := hnum ▸ dimAt_lt (by simpa using hi)
  have hd' : order.dimAt i < l'.length := h.length_eq ▸ hd
  rw [get_eq_getElem, get_eq_getElem, getElem_toMemory, getElem_toMemory,
    getD_eq_getElem _ _ hd, getD_eq_getElem _ _ hd']
  exact h.get hd hd'

theorem toMemory_injective {values values' : List α} (h : values.length = order.numDims)
    (h' : values'.length = order.numDims)
    (heq : order.toMemory values = order.toMemory values') : values = values' := by
  apply ext_getElem (h.trans h'.symm)
  intro d hd hd'
  have hpos := dimPos_lt (h ▸ hd : d < order.numDims)
  have hat := congrArg (·[order.dimPos d]?) heq
  have hvalue : order.dimPos d < (order.toMemory values).length := by simpa using hpos
  have hvalue' : order.dimPos d < (order.toMemory values').length := by simpa using hpos
  simp only [getElem?_eq_getElem hvalue, getElem?_eq_getElem hvalue',
    Option.some.injEq, getElem_toMemory] at hat
  rwa [dimAt_dimPos (h ▸ hd), getD_eq_getElem _ _ hd, getD_eq_getElem _ _ hd'] at hat

theorem toMemory_perm {values : List α} (h : values.length = order.numDims) :
    (order.toMemory values).Perm values := by
  have hvalues : (List.range order.toPermutation.length).map (fun d => values.getD d 0) =
      values := by
    apply ext_getElem (by simp [h, numDims])
    intro d hd hd'
    rw [getElem_map, getElem_range]
    exact getD_eq_getElem _ _ hd'
  have hperm := order.isPermutation.map fun d => values.getD d 0
  rwa [hvalues] at hperm

end Values

theorem memoryOrder_injective (order : DimsOrder) {values values' : List ℕ}
    (h : values.length = order.numDims) (h' : values'.length = order.numDims)
    (heq : order.memoryOrder values = order.memoryOrder values') : values = values' :=
  toMemory_injective h h' heq

theorem memoryOrder_logicalOrder (h : values.length = order.numDims) :
    order.memoryOrder (order.logicalOrder values) = values :=
  toMemory_toLogical h

theorem inBox_memoryOrder {sizes point : List ℕ} (h : InBox sizes point)
    (hnum : sizes.length = order.numDims) :
    InBox (order.memoryOrder sizes) (order.memoryOrder point) := by
  apply inBox_of_getElem (by simp)
  intro i hi hi'
  have hd : order.dimAt i < sizes.length := hnum ▸ dimAt_lt (by simpa using hi)
  have hd' : order.dimAt i < point.length := h.length_eq ▸ hd
  rw [getElem_memoryOrder, getElem_memoryOrder, getD_eq_getElem _ _ hd,
    getD_eq_getElem _ _ hd']
  exact h.getElem_lt hd' hd

theorem inBox_logicalOrder {sizes point : List ℕ} (h : InBox (order.memoryOrder sizes) point)
    (hnum : sizes.length = order.numDims) :
    InBox sizes (order.logicalOrder point) := by
  have hlength : point.length = order.numDims := by
    rw [h.length_eq, length_memoryOrder]
  apply inBox_of_getElem (by simp [hnum])
  intro d hd hd'
  have hpos : order.dimPos d < point.length := hlength ▸ dimPos_lt (hnum ▸ hd')
  have hpos' : order.dimPos d < (order.memoryOrder sizes).length := h.length_eq ▸ hpos
  have hlt := h.getElem_lt hpos hpos'
  rw [getElem_memoryOrder, dimAt_dimPos (hnum ▸ hd'), getD_eq_getElem _ _ hd'] at hlt
  rwa [getElem_logicalOrder, getD_eq_getElem _ _ hpos]

theorem memoryOrder_zipWith (f : ℕ → ℕ → ℕ) {values values' : List ℕ}
    (h : values.length = order.numDims) (h' : values'.length = order.numDims) :
    order.memoryOrder (List.zipWith f values values') =
      List.zipWith f (order.memoryOrder values) (order.memoryOrder values') := by
  apply ext_getElem (by simp)
  intro i hi hi'
  have hd : order.dimAt i < order.numDims := dimAt_lt (by simpa using hi)
  have hboth : order.dimAt i < (List.zipWith f values values').length := by
    rw [length_zipWith]
    omega
  have hvalue := getD_eq_getElem (List.zipWith f values values') 0 hboth
  simp only [getElem_zipWith, getElem_memoryOrder] at hvalue ⊢
  rw [hvalue, getD_eq_getElem _ _ (h ▸ hd), getD_eq_getElem _ _ (h' ▸ hd)]

theorem memoryOrder_shift {point offset : List ℕ} (hpoint : point.length = order.numDims)
    (hoffset : offset.length = order.numDims) :
    order.memoryOrder (shift point offset) =
      shift (order.memoryOrder point) (order.memoryOrder offset) :=
  memoryOrder_zipWith (· + ·) hpoint hoffset

theorem memoryOrder_getD (values : List ℕ) {axis : ℕ} (haxis : axis < order.numDims) :
    (order.memoryOrder values).getD (order.dimPos axis) 0 = values.getD axis 0 := by
  have hpos : order.dimPos axis < (order.memoryOrder values).length := by
    rw [length_memoryOrder]
    exact dimPos_lt haxis
  rw [getD_eq_getElem _ _ hpos, getElem_memoryOrder, dimAt_dimPos haxis]

theorem memoryOrder_set {axis : ℕ} (h : values.length = order.numDims)
    (haxis : axis < order.numDims) (value : ℕ) :
    order.memoryOrder (values.set axis value) =
      (order.memoryOrder values).set (order.dimPos axis) value := by
  apply ext_getElem (by simp)
  intro i hi hi'
  have hnum : i < order.numDims := by simpa using hi
  have hd : order.dimAt i < values.length := h ▸ dimAt_lt hnum
  have hpos : order.dimPos axis = i ↔ axis = order.dimAt i := by
    constructor
    · rintro rfl
      exact (dimAt_dimPos haxis).symm
    · rintro rfl
      exact dimPos_dimAt hnum
  rw [getElem_memoryOrder, getD_eq_getElem _ _ (by simpa using hd), getElem_set,
    getElem_set, getElem_memoryOrder, getD_eq_getElem _ _ hd]
  simp only [hpos]

theorem forall₂_memoryOrder {l l' : List ℕ} {R : ℕ → ℕ → Prop} (h : List.Forall₂ R l l')
    (hnum : l.length = order.numDims) :
    List.Forall₂ R (order.memoryOrder l) (order.memoryOrder l') :=
  forall₂_toMemory h hnum

theorem prod_memoryOrder (h : values.length = order.numDims) :
    (order.memoryOrder values).prod = values.prod :=
  (toMemory_perm h).prod_eq

end DimsOrder

/-- Every slice along the quantized dimension has its zero point. -/
def validateQuantElemType (elemType : ElemType) (shape : List ℕ) : Prop :=
  match elemType with
  | .uniformQuantizedPerAxis _ _ quantizedDimension zeroPoints =>
    shape[quantizedDimension]? = some zeroPoints.length
  | _ => True

instance (elemType : ElemType) (shape : List ℕ) :
    Decidable (validateQuantElemType elemType shape) := by
  unfold validateQuantElemType
  split <;> infer_instance

structure NDType where
  shape : List ℕ
  elemType : ElemType
  dimsOrder : DimsOrder
  numDims_eq : dimsOrder.numDims = shape.length
  validQuant : validateQuantElemType elemType shape
  deriving DecidableEq

def getTensorType (shape : List ℕ) (elemType : ElemType) (order : DimsOrder) :
    Except Fault NDType :=
  if hdims : order.numDims = shape.length then
    if hquant : validateQuantElemType elemType shape then
      .ok ⟨shape, elemType, order, hdims, hquant⟩
    else .error (.exception "Got invalid ShapedType")
  else .error (.exception "DimsOrder doesn't match to shape")

/-- The zero points of a part of the slices. -/
def tileScalesAndZP (elemType : ElemType) (shape offsets : List ℕ) : Except Fault ElemType :=
  match elemType with
  | .uniformQuantizedPerAxis isSigned storageWidth qDim zeroPoints => do
    throwUnless (offsets.length = shape.length) "Offsets doesn't match shape"
    throwUnless (qDim ≤ shape.length) "Unsupported shape size"
    let qSliceSize := shape.getD qDim 0
    let qSliceOffset := offsets.getD qDim 0
    if qSliceOffset = 0 ∧ qSliceSize = zeroPoints.length then
      .ok elemType
    else if qSliceOffset + qSliceSize ≤ zeroPoints.length then
      .ok (.uniformQuantizedPerAxis isSigned storageWidth qDim
        ((zeroPoints.drop qSliceOffset).take qSliceSize))
    else .error .overread
  | _ => .ok elemType

/-- The zero points with those of the added slices. -/
def expandScalesAndZP (elemType : ElemType) (padBefore padAfter : List ℕ) :
    Except Fault ElemType :=
  match elemType with
  | .uniformQuantizedPerAxis isSigned storageWidth qDim zeroPoints => do
    throwUnless (qDim ≤ padBefore.length) "Unsupported shape size"
    throwUnless (qDim ≤ padAfter.length) "Unsupported shape size"
    let padBeforeOC := padBefore.getD qDim 0
    let padAfterOC := padAfter.getD qDim 0
    if padBeforeOC = 0 ∧ padAfterOC = 0 then .ok elemType
    else do
      throwUnless (zeroPoints ≠ []) "Can't get value for expand scales."
      throwUnless (∀ zp ∈ zeroPoints, zp = zeroPoints.headD 0) "All zero points should be equal"
      .ok (.uniformQuantizedPerAxis isSigned storageWidth qDim
        (List.replicate padBeforeOC (zeroPoints.headD 0) ++ zeroPoints ++
          List.replicate padAfterOC (zeroPoints.getLastD 0)))
  | _ => .ok elemType

/-- Where the quantized dimension goes when dimensions of size one are added or dropped. -/
def getQuantizedAxis (axis : ℕ) (prevShape newShape : List ℕ) : Option ℕ :=
  let firstPrev := prevShape.findIdx (· ≠ 1)
  let firstNew := newShape.findIdx (· ≠ 1)
  let gap : ℤ := firstNew - firstPrev
  if prevShape.length ≤ axis then none
  else if firstPrev = prevShape.length ∨ firstNew = newShape.length then some axis
  else if prevShape.filter (· ≠ 1) ≠ newShape.filter (· ≠ 1) then none
  else if axis < -gap ∨ newShape.length ≤ axis + gap then none
  else some (axis + gap).toNat

/-- The element type with the quantized dimension where the new shape has it. -/
def ElemType.reshape (elemType : ElemType) (prevShape newShape : List ℕ) : ElemType :=
  match elemType with
  | .uniformQuantizedPerAxis isSigned storageWidth qDim zeroPoints =>
    match getQuantizedAxis qDim prevShape newShape with
    | some axis => .uniformQuantizedPerAxis isSigned storageWidth axis zeroPoints
    | none => elemType
  | _ => elemType

namespace NDType

def getNumElements (type : NDType) : ℕ := type.shape.prod

def getRank (type : NDType) : ℕ := type.shape.length

def getMemShape (type : NDType) : List ℕ := type.dimsOrder.memoryOrder type.shape

def extractDenseTile (type : NDType) (tileOffsets tileShape : List ℕ) : Except Fault NDType := do
  let elemType ← tileScalesAndZP type.elemType tileShape tileOffsets
  getTensorType tileShape elemType type.dimsOrder

/-- A layout of its own is kept; the default one is that of the new rank. -/
def reshapedOrder (type : NDType) (shape : List ℕ) : DimsOrder :=
  if type.dimsOrder.isIdentity then DimsOrder.fromNumDims shape.length else type.dimsOrder

def changeShape (type : NDType) (shape : List ℕ) : Except Fault NDType := do
  let newOrder := type.reshapedOrder shape
  throwUnless (newOrder.numDims = shape.length) "Order is incompatible with the new shape"
  getTensorType shape (type.elemType.reshape type.shape shape) newOrder

def changeShapeElemType (type : NDType) (shape : List ℕ) (elemType : ElemType) :
    Except Fault NDType := do
  let newOrder := type.reshapedOrder shape
  throwUnless (newOrder.numDims = shape.length) "Order is incompatible with the new shape"
  getTensorType shape elemType newOrder

def changeElemType (type : NDType) (elemType : ElemType) : Except Fault NDType :=
  getTensorType type.shape elemType type.dimsOrder

def changeDimsOrder (type : NDType) (order : DimsOrder) : Except Fault NDType :=
  getTensorType type.shape type.elemType order

def pad (type : NDType) (padBefore padAfter : List ℕ) : Except Fault NDType := do
  throwUnless (padBefore.length = padAfter.length)
    "Got non consistent 'padBefore' and 'padAfter' values"
  throwUnless (type.shape.length = padBefore.length) "Paddings and input shape are not consistent"
  let newShape := shift (shift type.shape padBefore) padAfter
  let elemType ← expandScalesAndZP type.elemType padBefore padAfter
  getTensorType newShape elemType type.dimsOrder

variable {type : NDType}

theorem toMemoryOrder_shape (type : NDType) :
    type.dimsOrder.toMemoryOrder type.shape = .ok type.getMemShape :=
  toMemoryOrder_eq type.numDims_eq.symm

theorem prod_getMemShape (type : NDType) : type.getMemShape.prod = type.getNumElements :=
  prod_memoryOrder type.numDims_eq.symm

theorem exists_memIndex (type : NDType) {n : ℕ} (hn : n < type.getNumElements) :
    ∃ x, InBox type.shape x ∧ rowMajor type.getMemShape (type.dimsOrder.memoryOrder x) = n := by
  rw [← type.prod_getMemShape] at hn
  have hpoint := inBox_pointAt (Nat.zero_lt_of_lt hn) n
  refine ⟨_, inBox_logicalOrder hpoint type.numDims_eq.symm, ?_⟩
  rw [memoryOrder_logicalOrder
    (hpoint.length_eq.trans (length_memoryOrder _ _)), rowMajor_pointAt hn]

theorem memIndex_lt {x : List ℕ} (hx : InBox type.shape x) :
    rowMajor type.getMemShape (type.dimsOrder.memoryOrder x) < type.getNumElements := by
  rw [← type.prod_getMemShape]
  exact rowMajor_lt (inBox_memoryOrder hx type.numDims_eq.symm)

theorem memIndex_injective {x y : List ℕ} (hx : InBox type.shape x)
    (hy : InBox type.shape y)
    (heq : rowMajor type.getMemShape (type.dimsOrder.memoryOrder x) =
      rowMajor type.getMemShape (type.dimsOrder.memoryOrder y)) : x = y := by
  have hnum := type.numDims_eq.symm
  exact type.dimsOrder.memoryOrder_injective (hx.length_eq.trans hnum) (hy.length_eq.trans hnum)
    (rowMajor_injective (inBox_memoryOrder hx hnum)
      (inBox_memoryOrder hy hnum) heq)

end NDType

variable {shape : List ℕ}

theorem NDType.reshapedOrder_eq {type : NDType} (h : type.dimsOrder.numDims = shape.length) :
    type.reshapedOrder shape = type.dimsOrder := by
  unfold NDType.reshapedOrder
  split_ifs with hidentity
  · rw [isIdentity, h] at hidentity
    exact hidentity.symm
  · rfl

theorem getTensorType_shape {elemType : ElemType} {type : NDType}
    (h : getTensorType shape elemType order = .ok type) :
    type.shape = shape ∧ type.elemType = elemType ∧ type.dimsOrder = order := by
  unfold getTensorType at h
  split_ifs at h
  cases h
  exact ⟨rfl, rfl, rfl⟩

section Pad

variable {type : NDType} {padBefore padAfter : List ℕ}

def paddedShape (shape padBefore padAfter : List ℕ) : List ℕ :=
  shift (shift shape padBefore) padAfter

section

variable (hbefore : padBefore.length = shape.length) (hafter : padAfter.length = shape.length)
include hbefore hafter

theorem getElem?_paddedShape {d size : ℕ} (hd : shape[d]? = some size) :
    (paddedShape shape padBefore padAfter)[d]? =
      some (size + padBefore.getD d 0 + padAfter.getD d 0) := by
  obtain ⟨hlt, rfl⟩ := List.getElem?_eq_some_iff.mp hd
  have hbefore' : d < padBefore.length := hbefore ▸ hlt
  have hafter' : d < padAfter.length := hafter ▸ hlt
  simp [paddedShape, shift, hlt, hbefore', hafter']

theorem length_paddedShape :
    (paddedShape shape padBefore padAfter).length = shape.length := by
  simp [paddedShape, shift, hbefore, hafter]

theorem shift_le_paddedShape :
    List.Forall₂ (· ≤ ·) (shift shape padBefore) (paddedShape shape padBefore padAfter) := by
  refine forall₂_iff_get.mpr ⟨by simp [paddedShape, shift, hbefore, hafter], ?_⟩
  intro i hi hi'
  simp only [paddedShape, shift, get_eq_getElem, getElem_zipWith]
  exact Nat.le_add_right _ _

end

/-- Slices can be added along the quantized dimension when all zero points are equal. -/
def Expandable (elemType : ElemType) (padBefore padAfter : List ℕ) : Prop :=
  ∀ axis, elemType.quantizedAxis = some axis →
    padBefore.getD axis 0 = 0 ∧ padAfter.getD axis 0 = 0 ∨ elemType.zeroPoints ≠ [] ∧
      ∀ zp ∈ elemType.zeroPoints, zp = elemType.zeroPoints.headD 0

variable (hbefore : padBefore.length = type.shape.length)
  (hafter : padAfter.length = type.shape.length)
  (hexpand : Expandable type.elemType padBefore padAfter)
include hbefore hafter hexpand

/-- The padded element type has the zero points of the input, and possibly more of them. -/
theorem expandScalesAndZP_ok :
    ∃ elemType, expandScalesAndZP type.elemType padBefore padAfter = .ok elemType ∧
      validateQuantElemType elemType (paddedShape type.shape padBefore padAfter) ∧
      elemType.quantizedAxis = type.elemType.quantizedAxis ∧
      (∀ zp ∈ elemType.zeroPoints, zp ∈ type.elemType.zeroPoints) ∧
      (type.elemType.zeroPoints ≠ [] → elemType.zeroPoints ≠ []) := by
  have hvalid := type.validQuant
  unfold expandScalesAndZP
  cases helem : type.elemType with
  | uniformQuantizedPerAxis isSigned storageWidth qDim zps =>
    rw [helem] at hvalid hexpand
    have hsize := getElem?_paddedShape hbefore hafter hvalid
    obtain ⟨hlt, hzps⟩ := List.getElem?_eq_some_iff.mp hvalid
    dsimp only
    rw [throwUnless, if_pos (by omega), throwUnless, if_pos (by omega)]
    split_ifs with hzero
    · refine ⟨_, rfl, ?_, rfl, fun zp hzp => hzp, id⟩
      rw [validateQuantElemType, hsize, hzero.1, hzero.2]
      rfl
    · obtain ⟨hne, hequal⟩ : zps ≠ [] ∧ ∀ zp ∈ zps, zp = zps.headD 0 :=
        (hexpand qDim rfl).resolve_left hzero
      rw [throwUnless, if_pos hne, throwUnless, if_pos hequal]
      refine ⟨_, rfl, ?_, rfl, ?_, by simp [ElemType.zeroPoints, hne]⟩
      · rw [validateQuantElemType, hsize]
        simp only [length_append, length_replicate]
        congr 1
        omega
      · intro zp hzp
        obtain ⟨first, rest, rfl⟩ := exists_cons_of_ne_nil hne
        have hlast : (first :: rest).getLastD 0 ∈ first :: rest := by
          rw [getLastD_cons]
          exact getLastD_mem_cons
        simp only [ElemType.zeroPoints, mem_append, mem_replicate] at hzp ⊢
        rcases hzp with (⟨_, rfl⟩ | hzp) | ⟨_, rfl⟩
        · exact mem_cons_self
        · exact hzp
        · exact hlast
  | _ => exact ⟨_, rfl, trivial, rfl, fun zp hzp => hzp, id⟩

theorem NDType.pad_ok :
    ∃ outputType, type.pad padBefore padAfter = .ok outputType ∧
      outputType.shape = paddedShape type.shape padBefore padAfter ∧
      outputType.dimsOrder = type.dimsOrder ∧
      outputType.elemType.quantizedAxis = type.elemType.quantizedAxis ∧
      (∀ zp ∈ outputType.elemType.zeroPoints, zp ∈ type.elemType.zeroPoints) ∧
      (type.elemType.zeroPoints ≠ [] → outputType.elemType.zeroPoints ≠ []) := by
  obtain ⟨elemType, helem, hvalid, haxis, hzps⟩ := expandScalesAndZP_ok hbefore hafter hexpand
  have hdims : type.dimsOrder.numDims = (paddedShape type.shape padBefore padAfter).length := by
    rw [length_paddedShape hbefore hafter, type.numDims_eq]
  have htype : getTensorType (paddedShape type.shape padBefore padAfter) elemType
      type.dimsOrder = .ok ⟨_, elemType, type.dimsOrder, hdims, hvalid⟩ := by
    rw [getTensorType, dif_pos hdims, dif_pos hvalid]
  refine ⟨⟨_, elemType, type.dimsOrder, hdims, hvalid⟩, ?_, rfl, rfl, haxis, hzps⟩
  rw [NDType.pad, throwUnless, if_pos (hbefore.trans hafter.symm), throwUnless,
    if_pos hbefore.symm, helem]
  exact htype

end Pad

end Vpux.Const
