import Mathlib.Data.Finset.Basic
import Mathlib.Data.Finset.Insert
import Vpux.Barrier.Info

/-! The control relation between tasks: which tasks are known to run after a given one,
through barriers or because both sit in the same DMA queue. -/
namespace Vpux.VPURT

/-- Two DMAs of one queue; these run in program order. -/
def FuncOp.Fifo (func : FuncOp) (p c : ℕ) : Prop :=
  p < c ∧ ∃ op op', func.tasks[p]? = some op ∧ func.tasks[c]? = some op' ∧
    op.getExecutorKind = .DMA_NN ∧ getTaskQueueType op = getTaskQueueType op'

/-- Order through barriers together with the order of the DMA queues. -/
def FuncOp.RunsBefore (func : FuncOp) : ℕ → ℕ → Prop :=
  Relation.TransGen fun a c => Drives func.Updates func.Waits a c ∨ func.Fifo a c

end Vpux.VPURT

namespace Vpux.Barrier
open Data Data.TaskSet VPURT Relation

variable {p c : ℕ}

/-- The keys of `_taskQueueTypeMap`: channel 0 of every DMA port. -/
def taskQueueTypes (dmaPortNum : ℕ) : List TaskQueueType :=
  (List.range dmaPortNum).map fun dmaPortIdx => ⟨.DMA_NN, getDMAQueueIdEncoding dmaPortIdx 0⟩

/-- The queue of a task, which must exist. -/
def taskQueueType? (func : FuncOp) (taskInd : ℕ) : Option TaskQueueType :=
  func.tasks[taskInd]?.map getTaskQueueType

/-- The bit vector of one key, set from the last task to the first. -/
def tasksInSameFIFO (func : FuncOp) (type : TaskQueueType) : Finset ℕ :=
  (List.range func.tasks.length).reverse.foldl
    (fun bits taskInd => if taskQueueType? func taskInd =
      some type then insert taskInd bits else bits) ∅

def taskQueueTypeMap (dmaPortNum : ℕ) (func : FuncOp) : List (TaskQueueType × Finset ℕ) :=
  (taskQueueTypes dmaPortNum).map fun type => (type, tasksInSameFIFO func type)

/-- `set_bits()` of a bit vector with `n` bits -/
def setBits (n : ℕ) (bits : Finset ℕ) : List ℕ := (List.range n).filter (· ∈ bits)

namespace BarrierInfo

variable {S : Type} [TaskSet S]

/-- `_taskControllMap[taskInd].set(nextTaskInd)` -/
def setControll (controll : ℕ → Finset ℕ) (taskInd nextTaskInd : ℕ) : ℕ → Finset ℕ :=
  Function.update controll taskInd (insert nextTaskInd (controll taskInd))

/-- Every task of a queue controls the tasks behind it. -/
def addFifoControll (n : ℕ) (controll : ℕ → Finset ℕ) (bits : Finset ℕ) : ℕ → Finset ℕ :=
  (setBits n bits).foldl (fun controll taskInd =>
    ((setBits n bits).filter (taskInd < ·)).foldl (fun controll nextTaskInd =>
      setControll controll taskInd nextTaskInd) controll) controll

/-- Visit the tasks from the last to the first, and for each one the consumers of its barriers. -/
def forEachConsumer {σ : Type} (info : BarrierInfo S) (visit : σ → ℕ → ℕ → σ) (init : σ) : σ :=
  (List.range info.numTasks).reverse.foldl (fun s taskInd =>
    (toList (info.getUpdateBarriers taskInd)).foldl (fun s updateBarrierInd =>
      (toList (info.getBarrierConsumers updateBarrierInd)).foldl (fun s consumerInd =>
        visit s taskInd consumerInd) s) s) init

/-- `buildTaskControllMap` on the map that an earlier call has left. -/
def rebuildTaskControllMap (info : BarrierInfo S) (queues : List (TaskQueueType × Finset ℕ))
    (considerTaskFifoDependency : Bool) (controll : ℕ → Finset ℕ) : ℕ → Finset ℕ :=
  let fifo :=
    if considerTaskFifoDependency then
      queues.foldl (fun controll item => addFifoControll info.numTasks controll item.2) controll
    else controll
  let direct := info.forEachConsumer setControll fifo
  info.forEachConsumer (fun controll taskInd childTaskInd =>
    Function.update controll taskInd (controll taskInd ∪ controll childTaskInd)) direct

/-- The first call, with the order of the queues. -/
def buildTaskControllMap (info : BarrierInfo S) (queues : List (TaskQueueType × Finset ℕ)) :
    ℕ → Finset ℕ :=
  info.rebuildTaskControllMap queues true fun _ => ∅

def controlPathExistsBetween (controll : ℕ → Finset ℕ) (taskAInd taskBInd : ℕ) : Bool :=
  taskBInd ∈ controll taskAInd

def haveSameImplicitDependencyTaskQueueType (queues : List (TaskQueueType × Finset ℕ))
    (taskInds : S) : Option TaskQueueType :=
  match toList taskInds with
  | [] => none
  | firstTaskInd :: _ =>
    match queues.find? (firstTaskInd ∈ ·.2) with
    | none => none
    | some item => if (toList taskInds).all (· ∈ item.2) then some item.1 else none

def inImplicitQueueTypeDependencyList (queues : List (TaskQueueType × Finset ℕ)) (taskList : S) :
    Bool :=
  (toList taskList).all fun taskInd => queues.any (taskInd ∈ ·.2)

def producersControllsAllConsumers (queues : List (TaskQueueType × Finset ℕ))
    (origProducers newConsumers origConsumers : S) (origWaitBarriersMap : ℕ → S) : Bool :=
  let consumersWithoutDirectControl := setDifference newConsumers origConsumers
  if isEmpty consumersWithoutDirectControl then true
  else if isEmpty origProducers then false
  else if !inImplicitQueueTypeDependencyList queues consumersWithoutDirectControl then false
  else if !inImplicitQueueTypeDependencyList queues origProducers then false
  else
    match (toList origProducers).max?, (toList consumersWithoutDirectControl).min? with
    | some lastProducer, some firstConsumer =>
      if firstConsumer ≤ lastProducer then false
      else
        let anyProducerCanRunParallelWithConsumer :=
          (toList origProducers).any fun producer =>
            (toList consumersWithoutDirectControl).any fun consumer =>
              equal (origWaitBarriersMap producer) (origWaitBarriersMap consumer)
        !anyProducerCanRunParallelWithConsumer
    | _, _ => false

def canBarriersBeMerged (queues : List (TaskQueueType × Finset ℕ))
    (barrierProducersA barrierConsumersA barrierProducersB barrierConsumersB : S)
    (origWaitBarriersMap : ℕ → S) : Bool :=
  if !producersControllsAllConsumers queues barrierProducersA barrierConsumersB barrierConsumersA
      origWaitBarriersMap then false
  else if !producersControllsAllConsumers queues barrierProducersB barrierConsumersA
      barrierConsumersB origWaitBarriersMap then false
  else true

section Fifo

variable {func : FuncOp} {dmaPortNum : ℕ}

theorem mem_tasksInSameFIFO (type : TaskQueueType) (t : ℕ) :
    t ∈ tasksInSameFIFO func type ↔ taskQueueType? func t = some type := by
  rw [tasksInSameFIFO, TaskSet.mem_foldl_insertIf (R := fun s y => y ∈ s) fun _ _ _ =>
    Finset.mem_insert]
  simp only [List.mem_reverse, List.mem_range, Finset.notMem_empty, or_false, and_iff_right_iff_imp]
  intro h
  obtain ⟨op, hop, -⟩ := Option.map_eq_some_iff.mp h
  exact (List.getElem?_eq_some_iff.mp hop).1

variable {item : TaskQueueType × Finset ℕ}

variable (h : item ∈ taskQueueTypeMap dmaPortNum func)
include h

theorem type_of_mem_taskQueueTypeMap :
    item.1.type = .DMA_NN ∧ item.2 = tasksInSameFIFO func item.1 := by
  obtain ⟨type, htype, rfl⟩ := List.mem_map.mp h
  obtain ⟨port, -, rfl⟩ := List.mem_map.mp htype
  exact ⟨rfl, rfl⟩

theorem fifo_of_mem_queue (hp : taskQueueType? func p = some item.1)
    (hc : taskQueueType? func c = some item.1) (hlt : p < c) : func.Fifo p c := by
  obtain ⟨op, hop, hp⟩ := Option.map_eq_some_iff.mp hp
  obtain ⟨op', hop', hc⟩ := Option.map_eq_some_iff.mp hc
  refine ⟨hlt, op, op', hop, hop', ?_, hp.trans hc.symm⟩
  rw [← getTaskQueueType_type, hp]
  exact (type_of_mem_taskQueueTypeMap h).1

end Fifo

section Soundness

variable (info : BarrierInfo S) {r : ℕ → ℕ → Prop}

/-- The control map records reachability only. -/
def Sound (r : ℕ → ℕ → Prop) (controll : ℕ → Finset ℕ) : Prop := ∀ t u, u ∈ controll t → r t u

variable {controll : ℕ → Finset ℕ}

theorem Sound.setControll (h : Sound r controll) {t u : ℕ} (htu : r t u) :
    Sound r (setControll controll t u) := by
  intro x y hy
  by_cases hx : x = t
  · subst hx
    rw [BarrierInfo.setControll, Function.update_self, Finset.mem_insert] at hy
    rcases hy with rfl | hy
    · exact htu
    · exact h x y hy
  · rw [BarrierInfo.setControll, Function.update_of_ne hx] at hy
    exact h x y hy

theorem Sound.addFifoControll (h : Sound r controll) (n : ℕ) (bits : Finset ℕ)
    (hbits : ∀ t ∈ bits, ∀ u ∈ bits, t < u → r t u) :
    Sound r (addFifoControll n controll bits) := by
  have hmem : ∀ {t}, t ∈ setBits n bits → t ∈ bits := by
    intro t ht
    simpa using (List.mem_filter.mp ht).2
  refine List.foldlRecOn (setBits n bits) _ h fun c hc t ht => ?_
  refine List.foldlRecOn ((setBits n bits).filter (t < ·)) _ hc fun c hc u hu => ?_
  obtain ⟨hu, hlt⟩ := List.mem_filter.mp hu
  exact hc.setControll (hbits t (hmem ht) u (hmem hu) (by simpa using hlt))

theorem forEachConsumer_rec {σ : Type} {motive : σ → Prop} {visit : σ → ℕ → ℕ → σ} {init : σ}
    (hinit : motive init) (hvisit : ∀ s t u, motive s → info.Drives t u → motive (visit s t u)) :
    motive (info.forEachConsumer visit init) := by
  refine List.foldlRecOn (List.range info.numTasks).reverse _ hinit fun s hs t _ => ?_
  refine List.foldlRecOn (toList (info.getUpdateBarriers t)) _ hs fun s hs b hb => ?_
  refine List.foldlRecOn (toList (info.getBarrierConsumers b)) _ hs fun s hs u hu => ?_
  exact hvisit s t u hs ⟨b, hb, (info.mem_getBarrierConsumers b u).mp hu⟩

theorem sound_buildTaskControllMap (htrans : ∀ a b c, r a b → r b c → r a c)
    (hdrives : ∀ t u, info.Drives t u → r t u) (queues : List (TaskQueueType × Finset ℕ))
    (hqueues : ∀ item ∈ queues, ∀ t ∈ item.2, ∀ u ∈ item.2, t < u → r t u) :
    Sound r (info.buildTaskControllMap queues) := by
  have hempty : Sound r fun _ => ∅ := by
    intro t u hu
    simp at hu
  have hfifo : Sound r (queues.foldl
      (fun controll item => addFifoControll info.numTasks controll item.2) fun _ => ∅) :=
    List.foldlRecOn queues _ hempty fun c hc item hitem =>
      hc.addFifoControll info.numTasks item.2 (hqueues item hitem)
  have hdirect : Sound r (info.forEachConsumer setControll _) :=
    info.forEachConsumer_rec hfifo fun c t u hc htu => hc.setControll (hdrives t u htu)
  refine info.forEachConsumer_rec (motive := Sound r) hdirect fun c t u hc htu x y hy => ?_
  by_cases hx : x = t
  · subst hx
    rw [Function.update_self, Finset.mem_union] at hy
    rcases hy with hy | hy
    · exact hc x y hy
    · exact htrans x u y (hdrives x u htu) (hc u y hy)
  · rw [Function.update_of_ne hx] at hy
    exact hc x y hy

end Soundness

section Queries

variable {queues : List (TaskQueueType × Finset ℕ)}

theorem mem_of_haveSame {tasks : S} {type : TaskQueueType}
    (h : haveSameImplicitDependencyTaskQueueType queues tasks = some type) :
    ∃ item ∈ queues, item.1 = type ∧ ∀ t ∈ toList tasks, t ∈ item.2 := by
  unfold haveSameImplicitDependencyTaskQueueType at h
  cases hl : toList tasks with
  | nil => simp [hl] at h
  | cons first rest =>
    simp only [hl] at h
    cases hfind : queues.find? (first ∈ ·.2) with
    | none => simp [hfind] at h
    | some item =>
      simp only [hfind] at h
      split_ifs at h with hall
      refine ⟨item, List.mem_of_find?_eq_some hfind, Option.some.inj h, ?_⟩
      simpa using hall

theorem lt_of_producersControllsAllConsumers {producers newConsumers origConsumers : S}
    {origWaitBarriersMap : ℕ → S}
    (h : producersControllsAllConsumers queues producers newConsumers origConsumers
      origWaitBarriersMap = true) (hp : p ∈ toList producers) (hc : c ∈ toList newConsumers) :
    c ∈ toList origConsumers ∨ p < c := by
  by_cases hin : c ∈ toList origConsumers
  · exact Or.inl hin
  · have hdiff : c ∈ toList (setDifference newConsumers origConsumers) :=
      (mem_setDifference _ _ _).mpr ⟨hc, hin⟩
    unfold producersControllsAllConsumers at h
    dsimp only at h
    split_ifs at h with h1 h2 h3 h4
    · rw [TaskSet.isEmpty_iff] at h1
      rw [h1] at hdiff
      simp at hdiff
    · cases hmax : (toList producers).max? with
      | none => simp [hmax] at h
      | some last =>
        cases hmin : (toList (setDifference newConsumers origConsumers)).min? with
        | none => simp [hmax, hmin] at h
        | some first =>
          simp only [hmax, hmin] at h
          split_ifs at h with hle
          have hlast := (List.max?_eq_some_iff.mp hmax).2 p hp
          have hfirst := (List.min?_eq_some_iff.mp hmin).2 c hdiff
          omega

end Queries

end BarrierInfo
end Vpux.Barrier
