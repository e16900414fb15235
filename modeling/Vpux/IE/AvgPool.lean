import Mathlib.Algebra.BigOperators.Field
import Mathlib.Data.Rat.Defs
import Mathlib.Algebra.Field.Rat
import Vpux.IE.MaxPool

/-! The AvgPool and StridedSlice operations on tensors of rank four, in exact arithmetic. -/
namespace Vpux.IE
open Finset Vpux.Const Data

structure AvgPoolOp where
  kernelSize : Dims2D
  strides : Dims2D
  padsBegin : Dims2D
  padsEnd : Dims2D
  roundingType : RoundingType
  excludePads : Bool
  postOp : Option (ℚ → ℚ)

namespace AvgPoolOp

/-- The places of the input that the window of an output value reads. -/
def places (op : AvgPoolOp) (H W y x : ℕ) : Finset (ℕ × ℕ) :=
  windowPlane (H, W) (op.padsBegin.Y, op.padsBegin.X) (op.kernelSize.Y, op.kernelSize.X)
    (y * op.strides.Y, x * op.strides.X)

/-- Padding adds nothing; it only counts when it is not excluded. -/
def average (op : AvgPoolOp) (input : Tensor ℚ) (n c y x : ℕ) : ℚ :=
  let places := op.places input.H input.W y x
  (∑ i ∈ places, input.get n c i.1 i.2) /
    (if op.excludePads then places.card else op.kernelSize.Y * op.kernelSize.X : ℕ)

def eval (op : AvgPoolOp) (input : Tensor ℚ) : Except Fault (Tensor ℚ) := do
  let H ← inferPoolDim input.H op.padsBegin.Y op.padsEnd.Y op.kernelSize.Y op.strides.Y
    op.roundingType
  let W ← inferPoolDim input.W op.padsBegin.X op.padsEnd.X op.kernelSize.X op.strides.X
    op.roundingType
  pure ⟨input.N, input.C, H, W, fun n c y x => applyPostOp op.postOp (op.average input n c y x)⟩

theorem eval_eq_ok {op : AvgPoolOp} {input out : Tensor ℚ} : op.eval input = .ok out ↔ ∃ H W,
    inferPoolDim input.H op.padsBegin.Y op.padsEnd.Y op.kernelSize.Y op.strides.Y
      op.roundingType = .ok H ∧
    inferPoolDim input.W op.padsBegin.X op.padsEnd.X op.kernelSize.X op.strides.X
      op.roundingType = .ok W ∧
    ⟨input.N, input.C, H, W, fun n c y x =>
      applyPostOp op.postOp (op.average input n c y x)⟩ = out := by
  simp [eval, bind_eq_ok, pure, Except.pure]

end AvgPoolOp

/-- Negative indices count from the end, and what is outside is left out. -/
def sliceBound (size : ℕ) (index : ℤ) : ℕ :=
  min size (if index < 0 then index + size else index).toNat

/-- All rows of the first two dimensions; the other two are cut with unit strides. -/
def stridedSliceOp {α : Type} (input : Tensor α) (beginY beginX endY endX : ℤ) : Tensor α :=
  let y := sliceBound input.H beginY
  let x := sliceBound input.W beginX
  input.crop y x (sliceBound input.H endY - y) (sliceBound input.W endX - x)

theorem sliceBound_natCast (size index : ℕ) : sliceBound size index = min size index := by
  rw [sliceBound, if_neg (by omega), Int.toNat_natCast]

end Vpux.IE
