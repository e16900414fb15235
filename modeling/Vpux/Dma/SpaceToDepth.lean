import Vpux.Dma.Descriptor

/-! Space to depth as transfers (`passes/unroll_space_to_depth_dma.cpp` and the generator of its
descriptors). -/
namespace Vpux.Dma
open Data Vpux.Const

namespace Act

def N (shape : List ℕ) : ℕ := shape.getD 0 0

def C (shape : List ℕ) : ℕ := shape.getD 1 0

def H (shape : List ℕ) : ℕ := shape.getD 2 0

def W (shape : List ℕ) : ℕ := shape.getD 3 0

variable (n c h w : ℕ)

@[simp] theorem C_eq : C [n, c, h, w] = c := rfl

@[simp] theorem H_eq : H [n, c, h, w] = h := rfl

@[simp] theorem W_eq : W [n, c, h, w] = w := rfl

end Act

inductive BlockMode where
  | BLOCKS_FIRST
  | DEPTH_FIRST
  deriving DecidableEq, Repr

/-- An operation that is not distributed and has no descriptor yet, with the byte offsets of the
buffers it reads and writes. -/
structure SpaceToDepthDMAOp where
  input : NDType
  output : NDType
  srcOffset : ℕ
  dstOffset : ℕ
  blockSize : ℕ
  mode : BlockMode

namespace SpaceToDepthDmaDescriptorGenerator

variable (inShape outShape : List ℕ) (elemTypeSize blockSize : ℕ)

def generateBlocksFirstNCHW2NCHW : DMADescriptorAttr where
  len := Act.W inShape * elemTypeSize
  srcWidth := elemTypeSize
  srcStride := blockSize * elemTypeSize
  srcPlaneStride := elemTypeSize
  dstWidth := Act.W outShape * elemTypeSize
  dstStride := Act.H outShape * Act.W outShape * Act.C outShape / blockSize * elemTypeSize
  dstPlaneStride := Act.H outShape * Act.W outShape * Act.C inShape * elemTypeSize
  numPlanes := blockSize

def generateBlocksFirstNHWC2NHWC : DMADescriptorAttr where
  len := Act.C inShape * Act.W inShape * Act.H outShape * elemTypeSize
  srcWidth := Act.C inShape * Act.W inShape * elemTypeSize
  srcStride := Act.C inShape * Act.W inShape * blockSize * elemTypeSize
  srcPlaneStride := Act.C inShape * Act.W inShape * elemTypeSize
  dstWidth := Act.C inShape * blockSize * elemTypeSize
  dstStride := Act.C outShape * elemTypeSize
  dstPlaneStride := Act.C inShape * blockSize * elemTypeSize
  numPlanes := blockSize

def generateBlocksFirstNCHW2NHWC : DMADescriptorAttr where
  len := blockSize * blockSize * elemTypeSize
  srcWidth := blockSize * elemTypeSize
  srcStride := Act.W inShape * elemTypeSize
  srcPlaneStride := blockSize * elemTypeSize
  dstWidth := elemTypeSize
  dstStride := Act.C inShape * elemTypeSize
  dstPlaneStride := Act.C outShape * elemTypeSize
  numPlanes := Act.W outShape

def generateDepthFirstNCHW2NCHW : DMADescriptorAttr where
  len := Act.W inShape * elemTypeSize
  srcWidth := elemTypeSize
  srcStride := blockSize * elemTypeSize
  srcPlaneStride := elemTypeSize
  dstWidth := Act.W outShape * elemTypeSize
  dstStride := Act.H outShape * Act.W outShape * blockSize * elemTypeSize
  dstPlaneStride := Act.H outShape * Act.W outShape * elemTypeSize
  numPlanes := blockSize

def generateDepthFirstNHWC2NHWC : DMADescriptorAttr where
  len := Act.W inShape * elemTypeSize
  srcWidth := elemTypeSize
  srcStride := Act.C inShape * elemTypeSize
  srcPlaneStride := elemTypeSize
  dstWidth := blockSize * elemTypeSize
  dstStride := Act.C outShape * elemTypeSize
  dstPlaneStride := blockSize * blockSize * elemTypeSize
  numPlanes := Act.C inShape

/-- The plane stride has the height and width of the tensors where the other strides have the
block size. -/
def generateDepthFirstNCHW2NHWC : DMADescriptorAttr where
  len := Act.W inShape * Act.H outShape * elemTypeSize
  srcWidth := Act.W inShape * elemTypeSize
  srcStride := Act.W inShape * blockSize * elemTypeSize
  srcPlaneStride := Act.W inShape * elemTypeSize
  dstWidth := blockSize * elemTypeSize
  dstStride := Act.C outShape * elemTypeSize
  dstPlaneStride := Act.W outShape * Act.H inShape * elemTypeSize
  numPlanes := blockSize

end SpaceToDepthDmaDescriptorGenerator

namespace SpaceToDepthDMAOp
open SpaceToDepthDmaDescriptorGenerator

/-- `SpaceToDepthDmaDescriptorGenerator::generate`. -/
def generate (op : SpaceToDepthDMAOp) : Except Fault DMADescriptorAttr := do
  let inOrder := op.input.dimsOrder
  let outOrder := op.output.dimsOrder
  throwUnless (inOrder = NHWC ∧ outOrder = NHWC ∨ inOrder = NCHW ∧ outOrder = NCHW ∨
    inOrder = NCHW ∧ outOrder = NHWC) "Unsupported layout"
  let elemTypeSize ← toByte (getElemTypeSize op.input.elemType)
  let inShape := op.input.shape
  let outShape := op.output.shape
  if inOrder = NCHW ∧ outOrder = NCHW ∧ op.mode = .BLOCKS_FIRST then
    .ok (generateBlocksFirstNCHW2NCHW inShape outShape elemTypeSize op.blockSize)
  else if inOrder = NCHW ∧ outOrder = NCHW ∧ op.mode = .DEPTH_FIRST then
    .ok (generateDepthFirstNCHW2NCHW inShape outShape elemTypeSize op.blockSize)
  else if inOrder = NHWC ∧ outOrder = NHWC ∧ op.mode = .BLOCKS_FIRST then
    .ok (generateBlocksFirstNHWC2NHWC inShape outShape elemTypeSize op.blockSize)
  else if inOrder = NHWC ∧ outOrder = NHWC ∧ op.mode = .DEPTH_FIRST then
    .ok (generateDepthFirstNHWC2NHWC inShape outShape elemTypeSize op.blockSize)
  else if inOrder = NCHW ∧ outOrder = NHWC ∧ op.mode = .BLOCKS_FIRST then
    .ok (generateBlocksFirstNCHW2NHWC inShape outShape elemTypeSize op.blockSize)
  else if inOrder = NCHW ∧ outOrder = NHWC ∧ op.mode = .DEPTH_FIRST then
    .ok (generateDepthFirstNCHW2NHWC inShape outShape elemTypeSize op.blockSize)
  else .error (.exception "SpaceToDepthDMA layout is not supported yet.")

def start (op : SpaceToDepthDMAOp) : Unrolled := ⟨0, op.srcOffset, op.dstOffset, []⟩

variable (dmaPortCount : ℕ) (op : SpaceToDepthDMAOp)

def unrollBlocksFirstNCHW2NCHW : Except Fault (List SubDMA) := do
  let elemTypeSize ← toByte (getElemTypeSize op.input.elemType)
  let dmaDescriptor ← op.generate
  let srcStep := Act.W op.input.shape * op.blockSize * elemTypeSize
  let dstStep := Act.W op.output.shape * elemTypeSize
  .ok (op.start.createRows dmaPortCount srcStep dstStep dmaDescriptor (Act.C op.input.shape)
    (Act.H op.output.shape) fun _ dstOffset => dstOffset).created

def unrollBlocksFirstNHWC2NHWC : Except Fault (List SubDMA) := do
  let dmaDescriptor ← op.generate
  .ok [⟨0, dmaDescriptor, op.srcOffset, op.dstOffset⟩]

def unrollBlocksFirstNCHW2NHWC : Except Fault (List SubDMA) := do
  let elemTypeSize ← toByte (getElemTypeSize op.input.elemType)
  let dmaDescriptor ← op.generate
  let srcStep := Act.W op.input.shape * op.blockSize * elemTypeSize
  let dstStep := Act.C op.output.shape * Act.W op.output.shape * elemTypeSize
  .ok (op.start.createRows dmaPortCount srcStep dstStep dmaDescriptor (Act.C op.input.shape)
    (Act.H op.output.shape) fun startDstIdx _ => startDstIdx + elemTypeSize).created

def unrollDepthFirstNCHW2NCHW : Except Fault (List SubDMA) := do
  let elemTypeSize ← toByte (getElemTypeSize op.input.elemType)
  let dmaDescriptor ← op.generate
  let srcStep := Act.W op.input.shape * op.blockSize * elemTypeSize
  let dstStep := Act.W op.output.shape * elemTypeSize
  .ok (op.start.createRows dmaPortCount srcStep dstStep dmaDescriptor (Act.C op.input.shape)
    (Act.H op.output.shape) fun startDstIdx _ =>
      startDstIdx + Act.W op.input.shape * Act.H op.input.shape * elemTypeSize).created

def unrollDepthFirstNHWC2NHWC : Except Fault (List SubDMA) := do
  let elemTypeSize ← toByte (getElemTypeSize op.input.elemType)
  let dmaDescriptor ← op.generate
  let srcStep := Act.W op.input.shape * Act.C op.input.shape * elemTypeSize
  let dstStep := op.blockSize * elemTypeSize
  .ok (op.start.createRows dmaPortCount srcStep dstStep dmaDescriptor (Act.H op.output.shape)
    op.blockSize fun startDstIdx _ =>
      startDstIdx + Act.W op.output.shape * Act.C op.output.shape * elemTypeSize).created

def unrollDepthFirstNCHW2NHWC : Except Fault (List SubDMA) := do
  let elemTypeSize ← toByte (getElemTypeSize op.input.elemType)
  let dmaDescriptor ← op.generate
  let srcStep := Act.W op.input.shape * Act.H op.input.shape * elemTypeSize
  let dstStep := op.blockSize * op.blockSize * elemTypeSize
  .ok (op.start.createRow dmaPortCount srcStep dstStep dmaDescriptor
    (Act.C op.input.shape)).created

def matchAndRewrite : Except Fault (List SubDMA) :=
  let inOrder := op.input.dimsOrder
  let outOrder := op.output.dimsOrder
  if inOrder = NCHW ∧ outOrder = NCHW ∧ op.mode = .BLOCKS_FIRST then
    op.unrollBlocksFirstNCHW2NCHW dmaPortCount
  else if inOrder = NCHW ∧ outOrder = NCHW ∧ op.mode = .DEPTH_FIRST then
    op.unrollDepthFirstNCHW2NCHW dmaPortCount
  else if inOrder = NHWC ∧ outOrder = NHWC ∧ op.mode = .BLOCKS_FIRST then
    op.unrollBlocksFirstNHWC2NHWC
  else if inOrder = NHWC ∧ outOrder = NHWC ∧ op.mode = .DEPTH_FIRST then
    op.unrollDepthFirstNHWC2NHWC dmaPortCount
  else if inOrder = NCHW ∧ outOrder = NHWC ∧ op.mode = .BLOCKS_FIRST then
    op.unrollBlocksFirstNCHW2NHWC dmaPortCount
  else if inOrder = NCHW ∧ outOrder = NHWC ∧ op.mode = .DEPTH_FIRST then
    op.unrollDepthFirstNCHW2NHWC dmaPortCount
  else .error (.exception "SpaceToDepthDMA layout is not supported yet.")

end SpaceToDepthDMAOp

end Vpux.Dma
