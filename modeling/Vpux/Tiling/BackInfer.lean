import Vpux.Data.SlidingWindow
import Vpux.Tiling.Divide

/-! The input that a tile of the output needs, for convolutions and poolings
(`core/tiling.cpp`). -/
namespace Vpux.Tiling
open Data

structure DimRange where
  begin : ℤ
  stop : ℤ
  deriving DecidableEq, Repr

def DimRange.length (range : DimRange) : ℤ := range.stop - range.begin

structure PadInfo where
  left : ℤ
  right : ℤ
  top : ℤ
  bottom : ℤ
  deriving DecidableEq, Repr

/-- What the checks throw, with the values that their messages print. -/
inductive TilingError where
  /-- "Got wrong dimension range" -/
  | wrongRange (begin stop : ℤ)
  /-- "Wrong output tile" -/
  | wrongOutputTile (output : DimRange)
  /-- "Wrong initial input range" -/
  | wrongInitialInputRange (initialInputRange : DimRange)
  | wrongKernel (kernel : ℤ)
  | wrongStride (stride : ℤ)
  | wrongPadBefore (padBefore : ℤ)
  | wrongPadAfter (padAfter : ℤ)
  /-- "Input tile and padBefore doesn't match to initial range" -/
  | padBeforeMismatch (input : DimRange) (padBefore : ℤ) (initialInputRange : DimRange)
  /-- "Input tile and padAfter doesn't match to initial range" -/
  | padAfterMismatch (input : DimRange) (padAfter : ℤ) (initialInputRange : DimRange)
  /-- "Input tile doesn't match to initial range" -/
  | inputTileMismatch (input initialInputRange : DimRange)
  | invalidPlanarDim (planarDim : ℕ)
  /-- "Invalid back inferring size over dim" -/
  | invalidBackInferringSize (size : ℤ) (planarDim : ℕ)
  /-- "Kernel shouldn't be nullptr" -/
  | noKernel
  /-- "Strides shouldn't be nullptr" -/
  | noStrides
  /-- "Expected kernel size to be 2" -/
  | kernelSize (size : ℕ)
  /-- "Expected strides size to be 2" -/
  | stridesSize (size : ℕ)
  | invalidPads (pads : PadInfo)
  /-- "Inferred output height and width should be larger than zero" -/
  | emptyOutput
  deriving DecidableEq, Repr

def throwUnless (cond : Prop) [Decidable cond] (error : TilingError) : Except TilingError Unit :=
  if cond then .ok () else .error error

theorem throwUnless_bind {α : Type} {cond : Prop} [Decidable cond] (h : cond)
    (error : TilingError) (f : Unit → Except TilingError α) :
    throwUnless cond error >>= f = f () := by
  rw [throwUnless, if_pos h]
  rfl

def DimRange.make (begin stop : ℤ) : Except TilingError DimRange := do
  throwUnless (stop ≥ begin) (.wrongRange begin stop)
  return ⟨begin, stop⟩

/-- The input range that the output range reads, with the padding it needs on both sides. -/
def inputForOutputDim (output : DimRange) (kernel stride : ℤ) (initialInputRange : DimRange)
    (padBefore padAfter : ℤ) : Except TilingError (DimRange × ℤ × ℤ) := do
  throwUnless (output.length > 0) (.wrongOutputTile output)
  throwUnless (initialInputRange.length > 0) (.wrongInitialInputRange initialInputRange)
  throwUnless (kernel > 0) (.wrongKernel kernel)
  throwUnless (stride > 0) (.wrongStride stride)
  throwUnless (padBefore ≥ 0) (.wrongPadBefore padBefore)
  throwUnless (padAfter ≥ 0) (.wrongPadAfter padAfter)
  let inputBegin := output.begin * stride - padBefore
  let (inputBegin, before) ←
    if inputBegin < initialInputRange.begin then do
      throwUnless (initialInputRange.begin - inputBegin ≤ padBefore)
        (.padBeforeMismatch ⟨inputBegin, 0⟩ padBefore initialInputRange)
      pure (initialInputRange.begin, min (initialInputRange.begin - inputBegin) padBefore)
    else pure (inputBegin, 0)
  throwUnless (inputBegin < initialInputRange.stop)
    (.inputTileMismatch ⟨inputBegin, 0⟩ initialInputRange)
  let inputEnd := (output.stop - 1) * stride + kernel - padBefore
  let (inputEnd, after) ←
    if inputEnd > initialInputRange.stop then do
      throwUnless (inputEnd - initialInputRange.stop ≤ padAfter)
        (.padAfterMismatch ⟨inputBegin, inputEnd⟩ padAfter initialInputRange)
      pure (initialInputRange.stop, min (inputEnd - initialInputRange.stop) padAfter)
    else pure (inputEnd, 0)
  let input : DimRange := ⟨inputBegin, inputEnd⟩
  throwUnless (input.stop > initialInputRange.begin) (.inputTileMismatch input initialInputRange)
  throwUnless (input.length > 0) (.inputTileMismatch input initialInputRange)
  return (input, before, after)

namespace Dims4D

def Act.N : ℕ := 0
def Act.C : ℕ := 1
def Act.H : ℕ := 2
def Act.W : ℕ := 3
def Filter.OC : ℕ := 0
def Filter.IC : ℕ := 1
def Filter.KY : ℕ := 2
def Filter.KX : ℕ := 3
/-- The order of `Dims4D::Kernel` and `Dims4D::Strides`. -/
def Kernel.Y : ℕ := 0
def Kernel.X : ℕ := 1

end Dims4D

open Dims4D

structure PlaneTile where
  width : DimRange
  height : DimRange
  deriving DecidableEq, Repr

def inputForOutputTile (output : PlaneTile) (kernelX kernelY strideX strideY : ℤ)
    (initialInputDims : Shape) (initialPad : PadInfo) :
    Except TilingError (PlaneTile × PadInfo) := do
  let initialHeight ← DimRange.make 0 (initialInputDims.dim Act.H)
  let (height, top, bottom) ← inputForOutputDim output.height kernelY strideY initialHeight
    initialPad.top initialPad.bottom
  let initialWidth ← DimRange.make 0 (initialInputDims.dim Act.W)
  let (width, left, right) ← inputForOutputDim output.width kernelX strideX initialWidth
    initialPad.left initialPad.right
  return (⟨width, height⟩, ⟨left, right, top, bottom⟩)

/-- A dimension that is not tiled keeps its whole input. -/
def restorePlanarShapeForInputTile (inputTile : TileInfo) (origInputShape : Shape)
    (planarDim : ℕ) : Except TilingError TileInfo := do
  throwUnless (planarDim = Act.H ∨ planarDim = Act.W) (.invalidPlanarDim planarDim)
  throwUnless (inputTile.shape.dim planarDim ≤ origInputShape.dim planarDim)
    (.invalidBackInferringSize (inputTile.shape.dim planarDim) planarDim)
  return { inputTile with
    shape := inputTile.shape.set planarDim (origInputShape.dim planarDim) }

/-- The input and parameter tiles of an operation. -/
structure TilingInfo where
  tiles : List TileInfo
  pads : Option PadInfo
  deriving DecidableEq, Repr

namespace TileInfo

def plane (outputTile : TileInfo) : PlaneTile where
  height := ⟨outputTile.offsets.dim Act.H,
    outputTile.offsets.dim Act.H + outputTile.shape.dim Act.H⟩
  width := ⟨outputTile.offsets.dim Act.W,
    outputTile.offsets.dim Act.W + outputTile.shape.dim Act.W⟩

/-- Takes one dimension over from a dimension of another tile. -/
def copyDim (tile : TileInfo) (d : ℕ) (source : TileInfo) (d' : ℕ) : TileInfo :=
  { tile with
    shape := tile.shape.set d (source.shape.dim d')
    offsets := tile.offsets.set d (source.offsets.dim d') }

def setRange (tile : TileInfo) (d : ℕ) (range : DimRange) : TileInfo :=
  { tile with
    shape := tile.shape.set d range.length
    offsets := tile.offsets.set d range.begin }

end TileInfo

def restoreIfUntiled (outputTile inputTile : TileInfo) (origInputShape : Shape)
    (planarDim : ℕ) : Except TilingError TileInfo :=
  if outputTile.isCompletedTile ∧ outputTile.axis.dim planarDim = 1 then
    restorePlanarShapeForInputTile inputTile origInputShape planarDim
  else .ok inputTile

def backInferConvTile (outputTile : TileInfo) (origInputShape origFilterShape
    origBiasShape : Shape) (strides : List ℤ) (origPadding : PadInfo) :
    Except TilingError TilingInfo := do
  let (solution, inputPad) ← inputForOutputTile outputTile.plane (origFilterShape.dim Filter.KX)
    (origFilterShape.dim Filter.KY) (strides.getD Kernel.X 0) (strides.getD Kernel.Y 0)
    origInputShape origPadding
  let inputTile := (((TileInfo.ofShape origInputShape).copyDim Act.N outputTile Act.N).setRange
    Act.H solution.height).setRange Act.W solution.width
  let inputTile ← restoreIfUntiled outputTile inputTile origInputShape Act.H
  let inputTile ← restoreIfUntiled outputTile inputTile origInputShape Act.W
  let filterTile := (TileInfo.ofShape origFilterShape).copyDim Filter.OC outputTile Act.C
  let biasTile := TileInfo.ofShape origBiasShape
  if biasTile.shape ≠ [] then
    return ⟨[inputTile, filterTile, biasTile.copyDim Act.C outputTile Act.C], some inputPad⟩
  else return ⟨[inputTile, filterTile], some inputPad⟩

def backInferPoolTile (outputTile : TileInfo) (origInputShape : Shape) (kernelSize strides : List ℤ)
    (origPadding : PadInfo) : Except TilingError TilingInfo := do
  let (solution, inputPad) ← inputForOutputTile outputTile.plane (kernelSize.getD Kernel.X 0)
    (kernelSize.getD Kernel.Y 0) (strides.getD Kernel.X 0) (strides.getD Kernel.Y 0)
    origInputShape origPadding
  let inputTile := ((((TileInfo.ofShape origInputShape).copyDim Act.N outputTile Act.N).copyDim
    Act.C outputTile Act.C).setRange Act.H solution.height).setRange Act.W solution.width
  let inputTile ← restoreIfUntiled outputTile inputTile origInputShape Act.H
  let inputTile ← restoreIfUntiled outputTile inputTile origInputShape Act.W
  return ⟨[inputTile], some inputPad⟩

/-- The output height and width of an input window. -/
def spatialOutputForInputWindowSize (inputHW : ℤ × ℤ) (kernel strides : Option (List ℤ))
    (pads : PadInfo) : Except TilingError (ℤ × ℤ) := do
  let kernel ← kernel.elim (.error .noKernel) .ok
  let strides ← strides.elim (.error .noStrides) .ok
  throwUnless (kernel.length = 2) (.kernelSize kernel.length)
  throwUnless (strides.length = 2) (.stridesSize strides.length)
  throwUnless (0 ≤ pads.top ∧ 0 ≤ pads.bottom ∧ 0 ≤ pads.left ∧ 0 ≤ pads.right)
    (.invalidPads pads)
  let outputHeight := (inputHW.1 - kernel.getD Kernel.Y 0 + pads.top + pads.bottom).tdiv
    (strides.getD Kernel.Y 0) + 1
  let outputWidth := (inputHW.2 - kernel.getD Kernel.X 0 + pads.left + pads.right).tdiv
    (strides.getD Kernel.X 0) + 1
  throwUnless (outputHeight > 0 ∧ outputWidth > 0) .emptyOutput
  return (outputHeight, outputWidth)

section Dim

variable {kernel stride size padBefore padAfter : ℤ} {output : DimRange}

/-- Inside the outputs no check fails, and the needed range is clipped on both sides. -/
theorem inputForOutputDim_eq (hkernel : 0 < kernel) (hstride : 0 < stride) (hsize : 0 < size)
    (hbefore : 0 ≤ padBefore) (hbefore' : padBefore < kernel)
    (hafter : 0 ≤ padAfter) (hafter' : padAfter < kernel)
    (hbegin : 0 ≤ output.begin) (hlength : 0 < output.length)
    (hstop : output.stop ≤ (PaddedRange.mk 0 size padBefore padAfter).outputs kernel stride) :
    inputForOutputDim output kernel stride ⟨0, size⟩ padBefore padAfter =
      .ok (⟨max 0 (output.begin * stride - padBefore),
          min size ((output.stop - 1) * stride + kernel - padBefore)⟩,
        max 0 (padBefore - output.begin * stride),
        max 0 ((output.stop - 1) * stride + kernel - padBefore - size)) := by
  have hlast : (output.stop - 1) * stride + kernel ≤ padBefore + size + padAfter :=
    (PaddedRange.le_outputs_iff hstride).mp hstop
  have hlen : output.begin ≤ output.stop - 1 := by rw [DimRange.length] at hlength; omega
  have hmono : output.begin * stride ≤ (output.stop - 1) * stride :=
    Int.mul_le_mul_of_nonneg_right hlen (Int.le_of_lt hstride)
  have hfirst : 0 ≤ output.begin * stride := Int.mul_nonneg hbegin (Int.le_of_lt hstride)
  have hinit : (DimRange.mk 0 size).length > 0 := by simpa [DimRange.length] using hsize
  simp only [inputForOutputDim, throwUnless_bind hlength, throwUnless_bind hinit,
    throwUnless_bind hafter]
  generalize output.begin * stride = first at *
  generalize (output.stop - 1) * stride = last at *
  -- no clipping, or clipping on the left, on the right or on both sides
  by_cases hleft : first - padBefore < 0 <;>
    by_cases hright : last + kernel - padBefore > size <;>
    simp (disch := first | omega | (simp only [DimRange.length]; omega)) only
      [hleft, hright, ite_true,
      ite_false, throwUnless_bind, pure_bind] <;>
    simp only [pure, Except.pure, Except.ok.injEq, Prod.mk.injEq, DimRange.mk.injEq] <;>
    omega

end Dim

end Vpux.Tiling
