import Vpux.Const.Types
import Vpux.Data.Folds
import Vpux.Data.Tensor

/-! Operations of the IE dialect on tensors of rank four: what they accept and what they compute. -/
namespace Vpux.IE
open Finset Vpux.Const Data

section Operations

/-- One entry for each spatial dimension, rows first. -/
structure Dims2D where
  Y : ℕ
  X : ℕ
  deriving DecidableEq, Repr

variable {α : Type}

/-- The window of a slice, with its sizes as they are computed: nothing keeps them positive. -/
structure Slice where
  offsetY : ℕ
  offsetX : ℕ
  sizeY : ℤ
  sizeX : ℤ
  deriving DecidableEq, Repr

namespace Slice

def Fits (slice : Slice) (H W : ℕ) : Prop :=
  (0 < slice.sizeY ∧ slice.offsetY + slice.sizeY ≤ H) ∧
    0 < slice.sizeX ∧ slice.offsetX + slice.sizeX ≤ W

instance (slice : Slice) (H W : ℕ) : Decidable (slice.Fits H W) :=
  inferInstanceAs (Decidable (_ ∧ _))

def Holds (slice : Slice) (y x : ℕ) : Prop :=
  (slice.offsetY ≤ y ∧ (y : ℤ) < slice.offsetY + slice.sizeY) ∧
    slice.offsetX ≤ x ∧ (x : ℤ) < slice.offsetX + slice.sizeX

end Slice

/-- All rows of the first two dimensions, cut in the other two. -/
def sliceOp (source : Tensor α) (slice : Slice) : Except Fault (Tensor α) := do
  rejectUnless (slice.Fits source.H source.W)
  pure (source.crop slice.offsetY slice.offsetX slice.sizeY.toNat slice.sizeX.toNat)

theorem sliceOp_eq_ok {source t : Tensor α} {slice : Slice} :
    sliceOp source slice = .ok t ↔ slice.Fits source.H source.W ∧
      source.crop slice.offsetY slice.offsetX slice.sizeY.toNat slice.sizeX.toNat = t := by
  simp [sliceOp, bind_eq_ok, rejectUnless_eq_ok, pure, Except.pure]

def concatW (t u : Tensor α) : Except Fault (Tensor α) := do
  rejectUnless (t.N = u.N ∧ t.C = u.C ∧ t.H = u.H)
  pure (t.besideW u)

def concatH (t u : Tensor α) : Except Fault (Tensor α) := do
  rejectUnless (t.N = u.N ∧ t.C = u.C ∧ t.W = u.W)
  pure (t.aboveH u)

theorem concatW_eq_ok {t u v : Tensor α} :
    concatW t u = .ok v ↔ (t.N = u.N ∧ t.C = u.C ∧ t.H = u.H) ∧ t.besideW u = v := by
  simp [concatW, bind_eq_ok, rejectUnless_eq_ok, pure, Except.pure]

theorem concatH_eq_ok {t u v : Tensor α} :
    concatH t u = .ok v ↔ (t.N = u.N ∧ t.C = u.C ∧ t.W = u.W) ∧ t.aboveH u = v := by
  simp [concatH, bind_eq_ok, rejectUnless_eq_ok, pure, Except.pure]

/-- The post operation of an operation, on each element. -/
def applyPostOp (postOp : Option (α → α)) (a : α) : α := (postOp.getD id) a

/-- Without broadcast: both inputs have the shape of the output. -/
def addOp [Add α] (input1 input2 : Tensor α) (postOp : Option (α → α)) :
    Except Fault (Tensor α) := do
  throwUnless (input1.N = input2.N ∧ input1.C = input2.C ∧ input1.H = input2.H ∧
    input1.W = input2.W) "Got non broadcastable dimensions pair"
  pure ((input1.zipWith (· + ·) input2).map (applyPostOp postOp))

/-- The size of a dimension after windows of `kernel` places, `dilation` apart, have moved over
it. -/
def inferDim (size begin end' kernel stride dilation : ℕ) : Except Fault ℕ := do
  rejectUnless (0 < stride ∧ 0 < dilation ∧ 0 < kernel)
  rejectUnless ((kernel - 1) * dilation + 1 ≤ size + begin + end')
  pure ((size + begin + end' - ((kernel - 1) * dilation + 1)) / stride + 1)

theorem inferDim_eq_ok {size begin end' kernel stride dilation out : ℕ} :
    inferDim size begin end' kernel stride dilation = .ok out ↔
      (0 < stride ∧ 0 < dilation ∧ 0 < kernel) ∧
        (kernel - 1) * dilation + 1 ≤ size + begin + end' ∧
        (size + begin + end' - ((kernel - 1) * dilation + 1)) / stride + 1 = out := by
  simp [inferDim, bind_eq_ok, rejectUnless_eq_ok, pure, Except.pure]

/-- Which of the two operations; a group convolution has a filter of rank four with the number
of its groups. -/
inductive ConvKind where
  | Convolution
  | GroupConvolution (groups : ℕ)
  deriving DecidableEq, Repr

/-- A filter has its output channels, input channels and kernel sizes in the four dimensions. -/
structure ConvolutionOp (α : Type) where
  input : Tensor α
  filter : Tensor α
  /-- One value for each output channel. -/
  bias : Option (Tensor α)
  strides : Dims2D
  padsBegin : Dims2D
  padsEnd : Dims2D
  dilations : Dims2D
  postOp : Option (α → α)
  kind : ConvKind

namespace ConvolutionOp

def biasAt [Zero α] (bias : Option (Tensor α)) (oc : ℕ) : α :=
  match bias with
  | some bias => bias.get 0 oc 0 0
  | none => 0

/-- The channels of the input that a group reads. -/
def groupChannels (op : ConvolutionOp α) : ℕ :=
  match op.kind with
  | .Convolution => op.input.C
  | .GroupConvolution groups => op.input.C / groups

/-- The channel of the input for an output channel and a channel of the filter. -/
def inputChannel (op : ConvolutionOp α) (oc ic : ℕ) : ℕ :=
  match op.kind with
  | .Convolution => ic
  | .GroupConvolution groups => oc / (op.filter.N / groups) * op.filter.C + ic

variable [Semiring α]

/-- The sum over the window of one output value. -/
def windowSum (op : ConvolutionOp α) (n oc y x : ℕ) : α :=
  ∑ ic ∈ range op.filter.C, ∑ ky ∈ range op.filter.H, ∑ kx ∈ range op.filter.W,
    op.input.padded op.padsBegin.Y op.padsBegin.X n (op.inputChannel oc ic)
      (y * op.strides.Y + ky * op.dilations.Y) (x * op.strides.X + kx * op.dilations.X) *
      op.filter.get oc ic ky kx

def eval (op : ConvolutionOp α) : Except Fault (Tensor α) := do
  throwUnless (op.groupChannels = op.filter.C)
    "Channels count of input tensor shape and filter shape must be the same"
  let H ← inferDim op.input.H op.padsBegin.Y op.padsEnd.Y op.filter.H op.strides.Y op.dilations.Y
  let W ← inferDim op.input.W op.padsBegin.X op.padsEnd.X op.filter.W op.strides.X op.dilations.X
  pure ⟨op.input.N, op.filter.N, H, W, fun n oc y x =>
    applyPostOp op.postOp (op.windowSum n oc y x + biasAt op.bias oc)⟩

theorem eval_eq_ok {op : ConvolutionOp α} {out : Tensor α} :
    op.eval = .ok out ↔ op.groupChannels = op.filter.C ∧ ∃ H W,
      inferDim op.input.H op.padsBegin.Y op.padsEnd.Y op.filter.H op.strides.Y op.dilations.Y =
        .ok H ∧
      inferDim op.input.W op.padsBegin.X op.padsEnd.X op.filter.W op.strides.X op.dilations.X =
        .ok W ∧
      ⟨op.input.N, op.filter.N, H, W, fun n oc y x =>
        applyPostOp op.postOp (op.windowSum n oc y x + biasAt op.bias oc)⟩ = out := by
  simp [eval, bind_eq_ok, throwUnless_eq_ok, pure, Except.pure]

theorem eval_agrees {op : ConvolutionOp α} {H W : ℕ} {f : ℕ → ℕ → ℕ → ℕ → α}
    (hchannels : op.groupChannels = op.filter.C)
    (hH : inferDim op.input.H op.padsBegin.Y op.padsEnd.Y op.filter.H op.strides.Y op.dilations.Y =
      .ok H)
    (hW : inferDim op.input.W op.padsBegin.X op.padsEnd.X op.filter.W op.strides.X op.dilations.X =
      .ok W)
    (hsum : ∀ n, ∀ oc < op.filter.N, ∀ y < H, ∀ x < W, op.windowSum n oc y x = f n oc y x) :
    ∃ t, op.eval = .ok t ∧ t.Agrees ⟨op.input.N, op.filter.N, H, W, fun n oc y x =>
      applyPostOp op.postOp (f n oc y x + biasAt op.bias oc)⟩ := by
  refine ⟨_, eval_eq_ok.mpr ⟨hchannels, H, W, hH, hW, rfl⟩, rfl, rfl, rfl, rfl, ?_⟩
  intro n _ oc hoc y hy x hx
  change applyPostOp op.postOp (op.windowSum n oc y x + biasAt op.bias oc) = _
  rw [hsum n oc hoc y hy x hx]

end ConvolutionOp

/-- The kernel with zeros between its values. -/
def expandDilatedOp [Zero α] (filter : Tensor α) (dilations : Dims2D) : Tensor α where
  N := filter.N
  C := filter.C
  H := filter.H + (filter.H - 1) * (dilations.Y - 1)
  W := filter.W + (filter.W - 1) * (dilations.X - 1)
  get oc ic dky dkx :=
    match (List.range filter.H).find? fun ky => ky + (dilations.Y - 1) * ky = dky,
      (List.range filter.W).find? fun kx => kx + (dilations.X - 1) * kx = dkx with
    | some ky, some kx => filter.get oc ic ky kx
    | _, _ => 0

end Operations

section Passes

/-- `NCEInvariant::MAX_KERNEL_SIZE`. -/
def MAX_KERNEL_SIZE : ℕ := 11

/-- A convolution and the element type of its input. -/
structure TypedConvolutionOp (α : Type) extends ConvolutionOp α where
  elemType : ElemType

/-- The types that zeros can be made of. -/
def ZerosAllowed (elemType : ElemType) : Prop := elemType = .f32 ∨ elemType = .f16

instance (elemType : ElemType) : Decidable (ZerosAllowed elemType) :=
  inferInstanceAs (Decidable (_ ∨ _))

variable {α : Type} [Zero α]

/-- The zeros that a pass joins to a tensor, or its own message. -/
def createZeros (message : String) (elemType : ElemType) (N C H W : ℕ) :
    Except Fault (Tensor α) := do
  throwUnless (ZerosAllowed elemType) message
  pure (Tensor.fill N C H W 0)

theorem createZeros_eq_ok {message : String} {elemType : ElemType} {N C H W : ℕ} {t : Tensor α} :
    createZeros message elemType N C H W = .ok t ↔
      ZerosAllowed elemType ∧ Tensor.fill N C H W 0 = t := by
  simp [createZeros, bind_eq_ok, throwUnless_eq_ok, pure, Except.pure]

end Passes

-- A convolution with its two spatial dimensions in the other order.
variable {α : Type}

def Dims2D.transpose (d : Dims2D) : Dims2D := ⟨d.X, d.Y⟩

namespace ConvolutionOp

def transpose (op : ConvolutionOp α) : ConvolutionOp α where
  input := op.input.transpose
  filter := op.filter.transpose
  bias := op.bias
  strides := op.strides.transpose
  padsBegin := op.padsBegin.transpose
  padsEnd := op.padsEnd.transpose
  dilations := op.dilations.transpose
  postOp := op.postOp
  kind := op.kind

variable [Semiring α] {op : ConvolutionOp α}

theorem windowSum_transpose (n oc y x : ℕ) :
    op.transpose.windowSum n oc y x = op.windowSum n oc x y := by
  apply sum_congr rfl
  intro ic _
  rw [sum_comm]
  apply sum_congr rfl
  intro ky _
  apply sum_congr rfl
  intro kx _
  exact congrArg (· * op.filter.get oc ic ky kx) (Tensor.padded_transpose _ _ _ _ _ _ _)

theorem eval_transpose {t : Tensor α} (h : op.eval = .ok t) :
    op.transpose.eval = .ok t.transpose := by
  obtain ⟨hchannels, H, W, hH, hW, rfl⟩ := eval_eq_ok.mp h
  refine eval_eq_ok.mpr ⟨hchannels, W, H, hW, hH, ?_⟩
  simp only [windowSum_transpose]
  rfl

end ConvolutionOp

end Vpux.IE
