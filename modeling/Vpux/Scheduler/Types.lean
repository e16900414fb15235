import Mathlib.Data.Nat.Notation

/-! The operations of a schedule (`core/feasible_memory_scheduler.hpp`). -/
namespace Vpux.Scheduler

inductive ExecutorKind
  | DMA_NN | NCE | DPU | SHAVE_UPA | SHAVE_NN | SHAVE_ACT
  deriving DecidableEq, Repr

inductive EOpType
  | ORIGINAL_OP
  | ORIGINAL_PREFETCHED_OP
  | ORIGINAL_SPILL_READ_OP
  | ORIGINAL_SPILL_WRITE_OP
  | IMPLICIT_SPILL_READ_OP
  | IMPLICIT_SPILL_WRITE_OP
  | IMPLICIT_SPILL_WRITE_FRAG_OP
  deriving DecidableEq, Repr

structure IntervalInfo (V : Type) where
  begin : ℕ
  stop : ℕ
  buffer : V
  deriving DecidableEq

structure ScheduledOpInfo (V : Type) where
  op : ℕ
  opType : EOpType
  outputResourceInfo : List (IntervalInfo V)
  inputResourceInfo : List (IntervalInfo V)
  cycleBegin : ℕ
  cycleEnd : ℕ
  isDataOp : Bool
  freeCmx : ℕ
  executor : ExecutorKind
  executorInstanceMask : List ℕ
  isNonComputeChain : Bool
  deriving DecidableEq

end Vpux.Scheduler
