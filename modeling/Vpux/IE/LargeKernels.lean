import Vpux.IE.Operations

/-! A convolution with a large kernel as a sum of convolutions with slices of its filter. -/
namespace Vpux.IE.ConvRewriter
open Vpux.Const Data

variable {α : Type}

def alignTo (value align : ℕ) : ℕ := (value + align - 1) / align * align

/-- The passes over `j` and, inside, over `i`. -/
def sliceIndices (numXSlices numYSlices : ℕ) : List (ℕ × ℕ) :=
  (List.range numYSlices).flatMap fun j => (List.range numXSlices).map fun i => (j, i)

/-- The kernel size of a slice in one dimension. -/
def slicedSize (K numSlices targetKernelSize i : ℕ) : ℤ :=
  if i + 1 = numSlices then K - (numSlices - 1) * targetKernelSize else min K targetKernelSize

def filterSlice (KX KY numXSlices numYSlices targetKernelSize j i : ℕ) : Slice where
  offsetY := j * targetKernelSize
  offsetX := i * targetKernelSize
  sizeY := slicedSize KY numYSlices targetKernelSize j
  sizeX := slicedSize KX numXSlices targetKernelSize i

def filterSlices (filterToSplit : Tensor α) (numXSlices numYSlices targetKernelSize : ℕ) :
    List Slice :=
  (sliceIndices numXSlices numYSlices).map fun (j, i) =>
    filterSlice filterToSplit.W filterToSplit.H numXSlices numYSlices targetKernelSize j i

def sliceFilter (filterToSplit : Tensor α) (numXSlices numYSlices targetKernelSize : ℕ) :
    Except Fault (List (Tensor α)) :=
  (filterSlices filterToSplit numXSlices numYSlices targetKernelSize).mapM (sliceOp filterToSplit)

abbrev OrigOp := TypedConvolutionOp

variable [Semiring α]

def getZerosConst (N C H W : ℕ) (origOp : OrigOp α) : Except Fault (Tensor α) :=
  createZeros "ConvolutionOp has incompatible data type, only float16 or float32 are supported"
    origOp.elemType N C H W

/-- The begin pads decide how much is added on either side: an end pad only decides whether
anything is added behind, `PadsEnd::Right` and `PadsEnd::Bottom` being the entries of
`PadsBegin::Left` and `PadsBegin::Top`. -/
def getExtendedActivation (origOp : OrigOp α) : Except Fault (Tensor α) := do
  let activation := origOp.input
  let padStart := origOp.padsBegin
  let padEnd := origOp.padsEnd
  let withLeft ←
    if 0 < padStart.X then do
      concatW (← getZerosConst activation.N activation.C activation.H padStart.X origOp) activation
    else pure activation
  let tempActivation ←
    if 0 < padEnd.X then do
      concatW withLeft (← getZerosConst activation.N activation.C activation.H padStart.X origOp)
    else pure withLeft
  let newWidth := tempActivation.W
  let withTop ←
    if 0 < padStart.Y then do
      concatH (← getZerosConst activation.N activation.C padStart.Y newWidth origOp) tempActivation
    else pure tempActivation
  if 0 < padEnd.Y then do
    concatH withTop (← getZerosConst activation.N activation.C padStart.Y newWidth origOp)
  else pure withTop

/-- The size of an activation slice in one dimension, by the truncating division of the source. -/
def newActivationSize (extended origK stride : ℕ) (sliced : ℤ) : ℤ :=
  min ((((extended : ℤ) - origK).tdiv stride) * stride + sliced) extended

structure SubGraph (α : Type) where
  activationSlices : List Slice
  accumulativeOutputTensors : List (Tensor α)

/-- One pass: a slice of the activation, its convolution and the addition to what there is. -/
def rewriteSlice (origOp : OrigOp α) (slicedFilters : List (Tensor α))
    (extendedActivation : Tensor α) (numXSlices numYSlices targetKernelSize : ℕ)
    (graph : SubGraph α) (index : ℕ × ℕ) : Except Fault (SubGraph α) := do
  let (j, i) := index
  let startW := i * targetKernelSize
  throwUnless (startW < extendedActivation.W) "dimension W out of range"
  let startH := j * targetKernelSize
  throwUnless (startH < extendedActivation.H) "dimension H out of range"
  let slicedFilter ← (slicedFilters[j * numXSlices + i]?).elim (.error .overread) .ok
  let slice : Slice := {
    offsetY := startH
    offsetX := startW
    sizeY := newActivationSize extendedActivation.H origOp.filter.H origOp.strides.Y slicedFilter.H
    sizeX := newActivationSize extendedActivation.W origOp.filter.W origOp.strides.X slicedFilter.W
      }
  let convInput ← sliceOp extendedActivation slice
  let isLastSlice := i + 1 = numXSlices ∧ j + 1 = numYSlices
  let conv ← ConvolutionOp.eval {
    input := convInput
    filter := slicedFilter
    bias := if isLastSlice then origOp.bias else none
    strides := origOp.strides
    padsBegin := ⟨0, 0⟩
    padsEnd := ⟨0, 0⟩
    dilations := origOp.dilations
    postOp := none
    kind := origOp.kind }
  let output ←
    match graph.accumulativeOutputTensors.getLast? with
    | some back => addOp back conv (if isLastSlice then origOp.postOp else none)
    | none => pure conv
  pure ⟨graph.activationSlices ++ [slice], graph.accumulativeOutputTensors ++ [output]⟩

def rewriteSubGraph (origOp : OrigOp α) (slicedFilters : List (Tensor α))
    (extendedActivation : Tensor α) (numXSlices numYSlices targetKernelSize : ℕ) :
    Except Fault (SubGraph α) :=
  (sliceIndices numXSlices numYSlices).foldlM
    (rewriteSlice origOp slicedFilters extendedActivation numXSlices numYSlices targetKernelSize)
    ⟨[], []⟩

/-- What the rewritten convolution is made of. -/
structure Rewritten (α : Type) where
  filterSlices : List Slice
  slicedFilters : List (Tensor α)
  extendedActivation : Tensor α
  activationSlices : List Slice
  output : Tensor α

def numSlices (K : ℕ) : ℕ := alignTo K MAX_KERNEL_SIZE / MAX_KERNEL_SIZE

def matchAndRewrite (origOp : OrigOp α) : Except Fault (Rewritten α) := do
  let targetKernelSize := MAX_KERNEL_SIZE
  let numXSlices := numSlices origOp.filter.W
  let numYSlices := numSlices origOp.filter.H
  let slicedFilters ← sliceFilter origOp.filter numXSlices numYSlices targetKernelSize
  let extendedActivation ← getExtendedActivation origOp
  let graph ← rewriteSubGraph origOp slicedFilters extendedActivation numXSlices numYSlices
    targetKernelSize
  let output ← (graph.accumulativeOutputTensors.getLast?).elim (.error .overread) .ok
  pure ⟨filterSlices origOp.filter numXSlices numYSlices targetKernelSize, slicedFilters,
    extendedActivation, graph.activationSlices, output⟩

/-- The target of the conversion, for an activation and a filter of rank four. -/
def isLegal (op : ConvolutionOp α) : Prop :=
  op.filter.H ≤ MAX_KERNEL_SIZE ∧ op.filter.W ≤ MAX_KERNEL_SIZE

end Vpux.IE.ConvRewriter
