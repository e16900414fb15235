import Vpux.Barrier.Info
import Vpux.Data.Packing

/-! `SatisfyOneWaitBarrierPerTask`: the wait barriers of a task are replaced by one
barrier over all their producers or, when these take too many slots, by a chain of
barriers over batches of them. -/
namespace Vpux.Barrier
open Data Data.TaskSet VPURT

namespace BarrierInfo

variable {S : Type} [TaskSet S]

def producersOf (info : BarrierInfo S) (bars : List ℕ) : S :=
  bars.foldl (fun acc b => setUnion acc (info.getBarrierProducers b)) empty

def getBarriersProducerTasks (info : BarrierInfo S) (waitBarriers : S) : S :=
  info.producersOf (toList waitBarriers)

/-- `getNumOfSlotsUsed(getTaskOpAtIndex(taskInd))` -/
def numSlotsUsed (func : FuncOp) (taskInd : ℕ) : ℕ :=
  ((func.tasks[taskInd]?).map getNumOfSlotsUsed).getD 0

section Slots

variable (slots : ℕ → ℕ) (availableSlots : ℕ)

/-- The loop stops as soon as the slots are exceeded. -/
def fitsFrom : ℕ → List ℕ → Bool
  | _, [] => true
  | producerSlotCount, producerInd :: producers =>
    let producerSlotCount := producerSlotCount + slots producerInd
    if availableSlots < producerSlotCount then false
    else fitsFrom producerSlotCount producers

def canMergeBarriersForTasks (producers : S) : Bool :=
  fitsFrom slots availableSlots 0 (toList producers)

/-- The state is the finished batches and the open one. -/
def createLegalVariantBatchesFrom : List S → S → ℕ → List ℕ → List S
  | done, back, _, [] => done ++ [back]
  | done, back, totalSlotCount, taskInd :: tasks =>
    if totalSlotCount + slots taskInd ≤ availableSlots then
      createLegalVariantBatchesFrom done (insert back taskInd) (totalSlotCount + slots taskInd)
        tasks
    else
      createLegalVariantBatchesFrom (done ++ [back]) (insert empty taskInd) (slots taskInd) tasks

def createLegalVariantBatches (tasks : S) : List S :=
  createLegalVariantBatchesFrom slots availableSlots [] empty 0
    ((toList tasks).insertionSort (· ≤ ·))

/-- `none` is the dereferenced end iterator of an empty producer set, `some []` the
refusal. The state is the last producer seen, the finished batches and the open one. -/
def createProducerBatchesFrom (info : BarrierInfo S) : ℕ → List S → S → List ℕ → Option (List S)
  | _, done, back, [] => some (done ++ [back])
  | prevLastUserInd, done, back, waitBarrierInd :: waitBarriers =>
    let barrierProducers := info.getBarrierProducers waitBarrierInd
    match (toList barrierProducers).min?, (toList barrierProducers).max? with
    | some firstUserInd, some lastUserInd =>
      if 0 < firstUserInd ∧ firstUserInd ≤ prevLastUserInd then some []
      else
        let merged := setUnion back barrierProducers
        if canMergeBarriersForTasks slots availableSlots merged then
          createProducerBatchesFrom info lastUserInd done merged waitBarriers
        else
          createProducerBatchesFrom info lastUserInd (done ++ [back]) barrierProducers waitBarriers
    | _, _ => none

def createProducerBatches (info : BarrierInfo S) (waitBarriers : S) : Option (List S) :=
  createProducerBatchesFrom slots availableSlots info 0 [] empty (toList waitBarriers)

end Slots

def mergeLegalParallelProducers (info : BarrierInfo S) (taskInd : ℕ) (parallelProducers : S) :
    BarrierInfo S :=
  let newBarrier := info.numBarriers
  (info.addNewBarrier.addProducers newBarrier parallelProducers).addConsumer newBarrier taskInd

/-- A new barrier from each batch to the one after it; the batches come last first. -/
def linkBatches (info : BarrierInfo S) (nextBatch : S) : List S → BarrierInfo S
  | [] => info
  | batch :: batches =>
    let newBarrier := info.numBarriers
    linkBatches ((info.addNewBarrier.addProducers newBarrier batch).addConsumers newBarrier
      nextBatch)
      batch batches

/-- The local `legalBatches`, with its fallback. -/
def legalBatches (slots : ℕ → ℕ) (availableSlots : ℕ) (info : BarrierInfo S)
    (waitBarriers parallelProducers : S) : Option (List S) :=
  (createProducerBatches slots availableSlots info waitBarriers).map fun batches =>
    if batches.isEmpty then createLegalVariantBatches slots availableSlots parallelProducers
    else batches

def linearizeLegalParallelProducers (slots : ℕ → ℕ) (availableSlots : ℕ) (info : BarrierInfo S)
    (taskInd : ℕ) (waitBarriers parallelProducers : S) : Option (BarrierInfo S) :=
  (legalBatches slots availableSlots info waitBarriers parallelProducers).map fun batches =>
    info.linkBatches (insert empty taskInd) batches.reverse

/-- The body of the loop in `unlinkTaskFromParallelBarriers`. -/
def unlinkFrom (taskInd : ℕ) (info : BarrierInfo S) (waitBarrierInd : ℕ) : BarrierInfo S :=
  if size (info.getBarrierConsumers waitBarrierInd) = 1 then info.resetBarrier waitBarrierInd
  else info.removeConsumer taskInd waitBarrierInd

def unlinkTaskFromParallelBarriers (info : BarrierInfo S) (taskInd : ℕ) (waitBarriers : S) :
    BarrierInfo S :=
  (toList waitBarriers).foldl (unlinkFrom taskInd) info

def ensureTaskDrivenBySingleBarrier (slots : ℕ → ℕ) (availableSlots : ℕ) (info : BarrierInfo S)
    (taskInd : ℕ) (waitBarriers : S) : Option (BarrierInfo S) :=
  let parallelProducers := info.getBarriersProducerTasks waitBarriers
  let linked :=
    if canMergeBarriersForTasks slots availableSlots parallelProducers then
      some (info.mergeLegalParallelProducers taskInd parallelProducers)
    else
      linearizeLegalParallelProducers slots availableSlots info taskInd waitBarriers
        parallelProducers
  linked.map fun info => info.unlinkTaskFromParallelBarriers taskInd waitBarriers

def satisfyTask (slots : ℕ → ℕ) (availableSlots : ℕ) (state : BarrierInfo S × Bool)
    (taskInd : ℕ) : Option (BarrierInfo S × Bool) :=
  let waitBarriers := state.1.getWaitBarriers taskInd
  if size waitBarriers < 2 then some state
  else (ensureTaskDrivenBySingleBarrier slots availableSlots state.1 taskInd waitBarriers).map
    fun info => (info, true)

/-- The walk over the first `n` tasks. -/
def satisfyTasks (slots : ℕ → ℕ) (availableSlots : ℕ) (info : BarrierInfo S) :
    ℕ → Option (BarrierInfo S × Bool)
  | 0 => some (info, false)
  | n + 1 => (satisfyTasks slots availableSlots info n).bind fun state =>
      satisfyTask slots availableSlots state n

end BarrierInfo

open BarrierInfo

/-- `SatisfyOneWaitBarrierPerTaskPass::safeRunOnFunc`. Half of the slots are for producers. -/
def satisfyOneWaitBarrierPerTask (S : Type) [TaskSet S] (maxVariantCount : ℕ) (func : FuncOp) :
    Option FuncOp :=
  let info : BarrierInfo S := buildBarrierMaps func
  (satisfyTasks (numSlotsUsed func) (maxVariantCount / 2) info info.numTasks).map fun state =>
    if state.2 then state.1.updateIR func else func

end Vpux.Barrier
