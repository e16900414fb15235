import Vpux.Data.Chains
import Vpux.Data.WindowMax
import Vpux.IE.Operations

/-! The MaxPool operation on tensors of rank four, and its windows at unit strides. -/
namespace Vpux.IE
open Finset Vpux.Const Data

inductive RoundingType where
  | FLOOR
  | CEIL
  deriving DecidableEq, Repr

/-- The size of a dimension after a pooling over it. -/
def inferPoolDim (size begin end' kernel stride : ℕ) (roundingType : RoundingType) :
    Except Fault ℕ := do
  rejectUnless (0 < stride ∧ 0 < kernel)
  rejectUnless (kernel ≤ size + begin + end')
  match roundingType with
  | .FLOOR => pure ((size + begin + end' - kernel) / stride + 1)
  | .CEIL => pure ((size + begin + end' - kernel + stride - 1) / stride + 1)

/-- Its strides are positive, or no type is inferred for it. -/
structure MaxPoolOp (α : Type) where
  kernelSize : Dims2D
  strides : Dims2D
  padsBegin : Dims2D
  padsEnd : Dims2D
  roundingType : RoundingType
  postOp : Option (α → α)
  strides_pos : 0 < strides.Y ∧ 0 < strides.X

theorem unitStrides_pos : 0 < (⟨1, 1⟩ : Dims2D).Y ∧ 0 < (⟨1, 1⟩ : Dims2D).X := by decide

namespace MaxPoolOp

variable {α : Type} [LinearOrder α] [OrderBot α]

/-- The maximum over the window of one output value; padding has the least value. -/
def windowMax (op : MaxPoolOp α) (input : Tensor α) (n c y x : ℕ) : α :=
  (range op.kernelSize.Y ×ˢ range op.kernelSize.X).sup fun k =>
    let y' := y * op.strides.Y + k.1
    let x' := x * op.strides.X + k.2
    if (op.padsBegin.Y ≤ y' ∧ y' < op.padsBegin.Y + input.H) ∧
        op.padsBegin.X ≤ x' ∧ x' < op.padsBegin.X + input.W then
      input.get n c (y' - op.padsBegin.Y) (x' - op.padsBegin.X)
    else ⊥

def eval (op : MaxPoolOp α) (input : Tensor α) : Except Fault (Tensor α) := do
  let H ← inferPoolDim input.H op.padsBegin.Y op.padsEnd.Y op.kernelSize.Y op.strides.Y
    op.roundingType
  let W ← inferPoolDim input.W op.padsBegin.X op.padsEnd.X op.kernelSize.X op.strides.X
    op.roundingType
  pure ⟨input.N, input.C, H, W, fun n c y x => applyPostOp op.postOp (op.windowMax input n c y x)⟩

end MaxPoolOp

/-- The places of the input that the window of an output value reads. -/
def MaxPoolOp.places {α : Type} (op : MaxPoolOp α) (H W y x : ℕ) : Finset (ℕ × ℕ) :=
  windowPlane (H, W) (op.padsBegin.Y, op.padsBegin.X) (op.kernelSize.Y, op.kernelSize.X) (y, x)

theorem inferPoolDim_unit {size begin end' kernel out : ℕ} {roundingType : RoundingType} :
    inferPoolDim size begin end' kernel 1 roundingType = .ok out ↔
      0 < kernel ∧ kernel ≤ size + begin + end' ∧ out + kernel = size + begin + end' + 1 := by
  cases roundingType <;>
    simp [inferPoolDim, bind_eq_ok, rejectUnless_eq_ok, pure, Except.pure] <;> omega

namespace MaxPoolOp

variable {α : Type} [LinearOrder α] [OrderBot α] {op : MaxPoolOp α}

theorem eval_eq_ok {input out : Tensor α} : op.eval input = .ok out ↔ ∃ H W,
    inferPoolDim input.H op.padsBegin.Y op.padsEnd.Y op.kernelSize.Y op.strides.Y
      op.roundingType = .ok H ∧
    inferPoolDim input.W op.padsBegin.X op.padsEnd.X op.kernelSize.X op.strides.X
      op.roundingType = .ok W ∧
    ⟨input.N, input.C, H, W, fun n c y x =>
      applyPostOp op.postOp (op.windowMax input n c y x)⟩ = out := by
  simp [eval, bind_eq_ok, pure, Except.pure]

theorem windowMax_congr {t u : Tensor α} (h : t.Agrees u) {n c : ℕ} (hn : n < t.N) (hc : c < t.C)
    (y x : ℕ) : op.windowMax t n c y x = op.windowMax u n c y x := by
  apply sup_congr rfl
  intro k _
  dsimp only
  rw [← h.H, ← h.W]
  split_ifs with hin
  · exact h.get n hn c hc _ (by omega) _ (by omega)
  · rfl

theorem chainKeeps_self (op : MaxPoolOp α) : ChainKeeps eval Tensor.Agrees [op] [op] := by
  intro t u out h hout
  rw [runChain_singleton] at hout ⊢
  obtain ⟨H, W, hH, hW, rfl⟩ := eval_eq_ok.mp hout
  rw [h.H] at hH
  rw [h.W] at hW
  refine ⟨_, eval_eq_ok.mpr ⟨H, W, hH, hW, rfl⟩, h.N, h.C, rfl, rfl, ?_⟩
  intro n hn c hc y _ x _
  exact congrArg (applyPostOp op.postOp) (windowMax_congr h hn hc y x)

theorem windowMax_eq_sup_windowPlane (t : Tensor α) (n c y x : ℕ) :
    op.windowMax t n c y x = (windowPlane (t.H, t.W) (op.padsBegin.Y, op.padsBegin.X)
      (op.kernelSize.Y, op.kernelSize.X) (y * op.strides.Y, x * op.strides.X)).sup
        fun i => t.get n c i.1 i.2 := by
  rw [windowMax]
  generalize y * op.strides.Y = y, x * op.strides.X = x
  apply le_antisymm
  · apply Finset.sup_le
    intro k hk
    simp only [mem_product, mem_range] at hk
    dsimp only
    split_ifs with hin
    · refine le_sup_of_le (b := (y + k.1 - op.padsBegin.Y, x + k.2 - op.padsBegin.X)) ?_ le_rfl
      simp only [mem_windowPlane, mem_window]
      omega
    · exact bot_le
  · apply Finset.sup_le
    intro i hi
    simp only [mem_windowPlane, mem_window] at hi
    refine le_sup_of_le (b := (i.1 + op.padsBegin.Y - y, i.2 + op.padsBegin.X - x)) ?_ ?_
    · simp only [mem_product, mem_range]
      omega
    · rw [if_pos (by omega)]
      have hy : y + (i.1 + op.padsBegin.Y - y) - op.padsBegin.Y = i.1 := by omega
      have hx : x + (i.2 + op.padsBegin.X - x) - op.padsBegin.X = i.2 := by omega
      rw [hy, hx]

theorem windowMax_eq_sup (hY : op.strides.Y = 1) (hX : op.strides.X = 1) (t : Tensor α)
    (n c y x : ℕ) :
    op.windowMax t n c y x = (op.places t.H t.W y x).sup fun i => t.get n c i.1 i.2 := by
  rw [windowMax_eq_sup_windowPlane, hY, hX, Nat.mul_one, Nat.mul_one]
  rfl

/-- The result of a given size. -/
def pooled (op : MaxPoolOp α) (input : Tensor α) (H W : ℕ) : Tensor α :=
  ⟨input.N, input.C, H, W, fun n c y x =>
    applyPostOp op.postOp ((op.places input.H input.W y x).sup fun i => input.get n c i.1 i.2)⟩

theorem eval_unit (hY : op.strides.Y = 1) (hX : op.strides.X = 1) {input out : Tensor α} :
    op.eval input = .ok out ↔ ∃ H W,
      (0 < op.kernelSize.Y ∧ op.kernelSize.Y ≤ input.H + op.padsBegin.Y + op.padsEnd.Y ∧
        H + op.kernelSize.Y = input.H + op.padsBegin.Y + op.padsEnd.Y + 1) ∧
      (0 < op.kernelSize.X ∧ op.kernelSize.X ≤ input.W + op.padsBegin.X + op.padsEnd.X ∧
        W + op.kernelSize.X = input.W + op.padsBegin.X + op.padsEnd.X + 1) ∧
      op.pooled input H W = out := by
  simp only [eval_eq_ok, windowMax_eq_sup hY hX, hY, hX, inferPoolDim_unit, pooled]

end MaxPoolOp

end Vpux.IE
