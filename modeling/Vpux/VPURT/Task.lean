import Mathlib.Data.List.Nodup
import Mathlib.Data.List.Range
import Mathlib.Data.PNat.Basic
import Vpux.Graph.Relations

/-! The VPURT view of a function: tasks in program order, each with an executor
and two lists of barrier operands. Barriers are named by their position among
the barrier declarations. -/
namespace Vpux.VPURT

inductive ExecutorKind
  | DMA_NN | NCE | SHAVE_UPA | SHAVE_ACT
  deriving DecidableEq, Repr

inductive DmaChannelType
  | DDR | CMX
  deriving DecidableEq, Repr

def DmaChannelType.value : DmaChannelType → ℕ
  | .DDR => 0
  | .CMX => 1

/-- The wrapped operation, with the attributes the barrier passes read. A DMA has
`clusters` when its input is a segmented or overlapped distributed buffer. An NCE
task has at least one variant: its verifier rejects the others. -/
inductive InnerTask
  | dma (port : ℕ) (channel : DmaChannelType) (clusters : Option ℕ+)
  | nce (numVariants : ℕ+) (clusterId : ℕ)
  | act (numKernelRuns : ℕ)
  | upa
  deriving DecidableEq

structure TaskOp where
  inner : InnerTask
  waitBarriers : List ℕ
  updateBarriers : List ℕ
  deriving DecidableEq

/-- A function with `numBarriers` declared virtual barriers. -/
structure FuncOp where
  numBarriers : ℕ
  tasks : List TaskOp
  deriving DecidableEq

/-- Operands are results of the declared barriers. -/
def FuncOp.WellFormed (func : FuncOp) : Prop :=
  ∀ op ∈ func.tasks, ∀ b, b ∈ op.waitBarriers ∨ b ∈ op.updateBarriers → b < func.numBarriers

def FuncOp.Updates (func : FuncOp) (t b : ℕ) : Prop :=
  ∃ op, func.tasks[t]? = some op ∧ b ∈ op.updateBarriers

def FuncOp.Waits (func : FuncOp) (t b : ℕ) : Prop :=
  ∃ op, func.tasks[t]? = some op ∧ b ∈ op.waitBarriers

def TaskOp.getExecutorKind (op : TaskOp) : ExecutorKind :=
  match op.inner with
  | .dma .. => .DMA_NN
  | .nce .. => .NCE
  | .act _ => .SHAVE_ACT
  | .upa => .SHAVE_UPA

/-- Barrier slots: one for each variant, kernel run or plain task. -/
def getNumOfSlotsUsed (op : TaskOp) : ℕ :=
  match op.inner with
  | .nce numVariants _ => numVariants
  | .act numKernelRuns => numKernelRuns
  | .dma .. => 1
  | .upa => 1

/-- `getMaxEnumValForDmaChannelType() + 1` values share one port. -/
def getDMAQueueIdEncoding (port channelIdx : ℕ) : ℕ := port * 2 + channelIdx

structure TaskQueueType where
  type : ExecutorKind
  id : ℕ
  deriving DecidableEq

/-- `getTaskQueueType` with `ignoreIndexForNce = false` -/
def getTaskQueueType (op : TaskOp) : TaskQueueType :=
  match op.inner with
  | .dma port channel _ => ⟨.DMA_NN, getDMAQueueIdEncoding port channel.value⟩
  | .nce _ clusterId => ⟨.NCE, clusterId⟩
  | .act _ => ⟨.SHAVE_ACT, 0⟩
  | .upa => ⟨.SHAVE_UPA, 0⟩

theorem getTaskQueueType_type (op : TaskOp) : (getTaskQueueType op).type = op.getExecutorKind := by
  unfold getTaskQueueType TaskOp.getExecutorKind
  cases op.inner <;> rfl

/-- The ports a DMA occupies, on a device with `dmaPortCount` of them. -/
def getDMATaskPorts (dmaPortCount port : ℕ) : Option ℕ+ → List ℕ
  | some numClusters => List.range (min numClusters dmaPortCount)
  | none => [port]

theorem getDMATaskPorts_ne_nil {n : ℕ} (hn : 0 < n) (port : ℕ) (c : Option ℕ+) :
    getDMATaskPorts n port c ≠ [] := by
  cases c with
  | none => simp [getDMATaskPorts]
  | some k => simp [getDMATaskPorts, k.ne_zero, hn.ne']

-- Execution order as barriers impose it. `upd t b` says that task `t` updates barrier `b`, `wait t
-- b` that it waits for it; the definitions do not depend on where the two relations are stored.
section Order
open Relation

variable {upd wait upd' wait' : ℕ → ℕ → Prop}

/-- Task `a` updates a barrier that task `c` waits on. -/
def Drives (upd wait : ℕ → ℕ → Prop) (a c : ℕ) : Prop := ∃ b, upd a b ∧ wait c b

/-- Barrier order: the transitive closure of `Drives`. -/
def Before (upd wait : ℕ → ℕ → Prop) : ℕ → ℕ → Prop := TransGen (Drives upd wait)

/-- Producers of a barrier have smaller task indices than its consumers. -/
def Forward (upd wait : ℕ → ℕ → Prop) : Prop := ∀ b a c, upd a b → wait c b → a < c

theorem Forward.ranked (h : Forward upd wait) : Graph.Ranked id (Drives upd wait) := by
  rintro a c ⟨b, ha, hc⟩
  exact h b a c ha hc

theorem Forward.mono (h : Forward upd wait) (hu : ∀ t b, upd' t b → upd t b)
    (hw : ∀ t b, wait' t b → wait t b) : Forward upd' wait' :=
  fun b a c ha hc => h b a c (hu a b ha) (hw c b hc)

theorem Before.mono (hu : ∀ t b, upd t b → upd' t b) (hw : ∀ t b, wait t b → wait' t b)
    {a c : ℕ} (h : Before upd wait a c) : Before upd' wait' a c := by
  refine TransGen.mono ?_ _ _ h
  rintro x y ⟨b, hx, hy⟩
  exact ⟨b, hu x b hx, hw y b hy⟩

namespace FuncOp

abbrev Before (func : FuncOp) : ℕ → ℕ → Prop := VPURT.Before func.Updates func.Waits
abbrev Forward (func : FuncOp) : Prop := VPURT.Forward func.Updates func.Waits

instance (func : FuncOp) : Decidable func.WellFormed :=
  decidable_of_iff
    (∀ op ∈ func.tasks, ∀ b ∈ op.waitBarriers ++ op.updateBarriers, b < func.numBarriers)
    (by simp [WellFormed])

theorem forward_iff (func : FuncOp) : func.Forward ↔
    ∀ a ∈ func.tasks.zipIdx, ∀ c ∈ func.tasks.zipIdx,
      ∀ b ∈ a.1.updateBarriers, b ∈ c.1.waitBarriers → a.2 < c.2 := by
  constructor
  · rintro h ⟨op, a⟩ ha ⟨op', c⟩ hc b hu hw
    exact h b a c ⟨op, List.mem_zipIdx_iff_getElem?.mp ha, hu⟩
      ⟨op', List.mem_zipIdx_iff_getElem?.mp hc, hw⟩
  · rintro h b a c ⟨op, ha, hu⟩ ⟨op', hc, hw⟩
    exact h (op, a) (List.mem_zipIdx_iff_getElem?.mpr ha) (op', c)
      (List.mem_zipIdx_iff_getElem?.mpr hc) b hu hw

instance (func : FuncOp) : Decidable func.Forward := decidable_of_iff _ func.forward_iff.symm

end FuncOp

end Order

end Vpux.VPURT
