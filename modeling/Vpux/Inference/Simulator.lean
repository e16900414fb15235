import Mathlib.Algebra.BigOperators.Group.Finset.Basic
import Mathlib.Data.Finset.Lattice.Fold
import Mathlib.Data.List.Nodup
import Mathlib.Data.PNat.Basic
import Vpux.Graph.Relations

/-! The simulation of an inference: every queue of tasks runs in order, a task starts when the
barriers it waits for are released (`dialect/VPURT/inference_execution_simulator.cpp`). -/
namespace Vpux.Inference

/-- The cost is at least one: `getTaskCycleCost` replaces smaller ones. -/
structure TaskConfig where
  virtBarrierWaits : List ℕ
  virtBarrierUpdates : List ℕ
  cycleCost : ℕ+
  deriving DecidableEq

inductive SimError (Q : Type)
  | notYetReleased
  | alreadyReleased (virtBarrierId : ℕ)
  | smallerCycle (newCycle cycle : ℕ)
  | notAllProcessed (queueType : Q)
  deriving DecidableEq

structure BarrierConfig where
  producerCount : ℕ
  lastCycleUpdate : ℕ
  deriving DecidableEq

namespace BarrierConfig

def isReleased (barrier : BarrierConfig) : Bool := barrier.producerCount = 0

def addProducer (barrier : BarrierConfig) : BarrierConfig :=
  { barrier with producerCount := barrier.producerCount + 1 }

def decrementAtCycle (barrier : BarrierConfig) (cycle : ℕ) : BarrierConfig where
  lastCycleUpdate := max barrier.lastCycleUpdate cycle
  producerCount := barrier.producerCount - 1

def getReleaseCycle {Q : Type} (barrier : BarrierConfig) : Except (SimError Q) ℕ :=
  if barrier.producerCount = 0 then .ok barrier.lastCycleUpdate else .error .notYetReleased

end BarrierConfig

/-- When each executor of a queue is free again, and the next task of the queue. -/
structure QueueState where
  cycle : List ℕ
  taskIdx : ℕ
  nonempty : cycle ≠ []

/-- The executor that is free first takes the next task. -/
def progressCycles (cycles : List ℕ) (newCycle : ℕ) : List ℕ :=
  cycles.set (cycles.idxOf (cycles.min?.getD 0)) newCycle

theorem progressCycles_ne_nil {cycles : List ℕ} (h : cycles ≠ []) (newCycle : ℕ) :
    progressCycles cycles newCycle ≠ [] := by
  simpa [progressCycles] using h

namespace QueueState

/-- `executors` that are told apart only at inference. -/
def start (executors : ℕ+) : QueueState where
  cycle := List.replicate executors 0
  taskIdx := 0
  nonempty := by simp

def getCycle (queue : QueueState) : ℕ := queue.cycle.min?.getD 0

def progressQueueToCycle {Q : Type} (queue : QueueState) (newCycle : ℕ) :
    Except (SimError Q) QueueState :=
  if newCycle < queue.getCycle then .error (.smallerCycle newCycle queue.getCycle)
  else .ok {
    cycle := progressCycles queue.cycle newCycle
    taskIdx := queue.taskIdx + 1
    nonempty := progressCycles_ne_nil queue.nonempty newCycle }

end QueueState

/-- The tasks of a function with their queues, in program order. -/
structure InferenceExecutionSimulator (Q : Type) where
  taskOps : List (Q × TaskConfig)
  numOfExecutors : Q → ℕ+

structure SimState (Q : Type) where
  queueState : Q → QueueState
  virtBarriers : ℕ → BarrierConfig
  /-- `cycleStart` of the tasks, by queue and place in it. -/
  cycleStart : Q → ℕ → Option ℕ

namespace InferenceExecutionSimulator

variable {Q : Type} [DecidableEq Q]

section ParseFunc

variable (sim : InferenceExecutionSimulator Q)

def queueTasks (queueType : Q) : List TaskConfig :=
  (sim.taskOps.filter fun op => op.1 = queueType).map Prod.snd

def parsedBarriers : ℕ → BarrierConfig :=
  sim.taskOps.foldl (fun virtBarriers op =>
    op.2.virtBarrierUpdates.foldl (fun virtBarriers virtBarrierId =>
      Function.update virtBarriers virtBarrierId (virtBarriers virtBarrierId).addProducer)
      virtBarriers) fun _ => ⟨0, 0⟩

/-- The keys of the map from queues to tasks, in the order in which it is walked. -/
structure QueueOrder where
  queueTypes : List Q
  nodup : queueTypes.Nodup
  mem_iff : ∀ queueType, queueType ∈ queueTypes ↔ ∃ op ∈ sim.taskOps, op.1 = queueType

end ParseFunc

/-- The cycle from which all barriers are released, if they are. -/
def waitFor (virtBarriers : ℕ → BarrierConfig) :
    List ℕ → ℕ → Except (SimError Q) (Option ℕ)
  | [], cycleBegin => .ok (some cycleBegin)
  | waitVirtBarrierId :: rest, cycleBegin =>
    if !(virtBarriers waitVirtBarrierId).isReleased then .ok none
    else do
      let releaseCycle ← (virtBarriers waitVirtBarrierId).getReleaseCycle
      waitFor virtBarriers rest (max cycleBegin releaseCycle)

def updateBarrier (cycleEnd : ℕ) (virtBarriers : ℕ → BarrierConfig) (updateVirtBarrierId : ℕ) :
    Except (SimError Q) (ℕ → BarrierConfig) :=
  if (virtBarriers updateVirtBarrierId).isReleased then
    .error (.alreadyReleased updateVirtBarrierId)
  else .ok (Function.update virtBarriers updateVirtBarrierId
    ((virtBarriers updateVirtBarrierId).decrementAtCycle cycleEnd))

variable (sim : InferenceExecutionSimulator Q)

def run (s : SimState Q) (queueType : Q) (task : TaskConfig) (cycleBegin : ℕ) :
    Except (SimError Q) (SimState Q) := do
  let cycleEnd := cycleBegin + task.cycleCost
  let virtBarriers ← task.virtBarrierUpdates.foldlM (updateBarrier cycleEnd) s.virtBarriers
  let queue ← (s.queueState queueType).progressQueueToCycle cycleEnd
  .ok {
    queueState := Function.update s.queueState queueType queue
    virtBarriers
    cycleStart := Function.update s.cycleStart queueType (Function.update
      (s.cycleStart queueType) (s.queueState queueType).taskIdx (some cycleBegin)) }

/-- One turn of the loop over the queues; the flag tells that a task was run. -/
def visit (state : SimState Q × Bool) (queueType : Q) :
    Except (SimError Q) (SimState Q × Bool) :=
  let (s, progressed) := state
  let queue := s.queueState queueType
  match (sim.queueTasks queueType)[queue.taskIdx]? with
  | none => .ok (s, progressed)
  | some task => do
    match ← waitFor s.virtBarriers task.virtBarrierWaits queue.getCycle with
    | none => .ok (s, progressed)
    | some cycleBegin => do
      let s ← run s queueType task cycleBegin
      .ok (s, true)

def checkQueue (s : SimState Q) (queueType : Q) : Except (SimError Q) Unit :=
  if (s.queueState queueType).taskIdx ≠ (sim.queueTasks queueType).length then
    .error (.notAllProcessed queueType)
  else .ok ()

/-- The loop ends after a round in which nothing was run; `none` when `fuel` rounds are not
enough. -/
def simLoop (order : List Q) : ℕ → SimState Q → Option (Except (SimError Q) (SimState Q))
  | 0, _ => none
  | fuel + 1, s =>
    match order.foldlM sim.visit (s, false) with
    | .error e => some (.error e)
    | .ok (s, true) => simLoop order fuel s
    | .ok (s, false) => some do
      order.forM (sim.checkQueue s)
      .ok s

def initialState : SimState Q where
  queueState queueType := QueueState.start (sim.numOfExecutors queueType)
  virtBarriers := sim.parsedBarriers
  cycleStart _ _ := none

def runSim (order : sim.QueueOrder) (fuel : ℕ) : Option (Except (SimError Q) (SimState Q)) :=
  sim.simLoop order.queueTypes fuel sim.initialState

end InferenceExecutionSimulator

-- The earliest schedule of the tasks: what the simulation computes, without its counters.
section Earliest
open Vpux.Graph

/-- A queue and a place in it. -/
abbrev Task (Q : Type) := Q × ℕ

namespace InferenceExecutionSimulator

variable {Q : Type} [DecidableEq Q] (sim : InferenceExecutionSimulator Q)

def taskAt (t : Task Q) : Option TaskConfig := (sim.queueTasks t.1)[t.2]?

def waits (t : Task Q) : List ℕ := ((sim.taskAt t).map TaskConfig.virtBarrierWaits).getD []

def updates (t : Task Q) : List ℕ := ((sim.taskAt t).map TaskConfig.virtBarrierUpdates).getD []

def cost (t : Task Q) : ℕ := ((sim.taskAt t).map fun task => (task.cycleCost : ℕ)).getD 0

def tasks : Finset (Task Q) :=
  (sim.taskOps.map Prod.fst).toFinset.biUnion fun queueType =>
    (Finset.range (sim.queueTasks queueType).length).image fun index => (queueType, index)

/-- The order of a queue, and the barriers that one task updates and another waits for. -/
def Precedes (p t : Task Q) : Prop :=
  p.1 = t.1 ∧ p.2 < t.2 ∧ t ∈ sim.tasks ∨ ∃ b ∈ sim.updates p, b ∈ sim.waits t

def producers (t : Task Q) : Finset (Task Q) :=
  sim.tasks.filter fun p => ∃ b ∈ sim.waits t, b ∈ sim.updates p

variable (start : Task Q → ℕ)

/-- When the executors of a queue are free after its first tasks. -/
def freeCycles (queueType : Q) : ℕ → List ℕ
  | 0 => List.replicate (sim.numOfExecutors queueType) 0
  | index + 1 => progressCycles (freeCycles queueType index)
      (start (queueType, index) + sim.cost (queueType, index))

def earliestFree (t : Task Q) : ℕ := (sim.freeCycles start t.1 t.2).min?.getD 0

def latestEnd (t : Task Q) : ℕ := (sim.producers t).sup fun p => start p + sim.cost p

/-- Every task starts when an executor is free and all that it waits for has ended. -/
def Earliest : Prop :=
  ∀ t ∈ sim.tasks, start t = max (sim.earliestFree start t) (sim.latestEnd start t)

variable {sim start} {t : Task Q}

theorem mem_tasks_iff : t ∈ sim.tasks ↔ t.2 < (sim.queueTasks t.1).length := by
  simp only [tasks, Finset.mem_biUnion, List.mem_toFinset, Finset.mem_image, Finset.mem_range]
  constructor
  · rintro ⟨q, -, i, hi, rfl⟩
    exact hi
  · intro h
    refine ⟨t.1, ?_, t.2, h, rfl⟩
    obtain ⟨task, htask⟩ := List.exists_mem_of_length_pos (Nat.zero_lt_of_lt h)
    simp only [queueTasks, List.mem_map, List.mem_filter, decide_eq_true_eq] at htask
    obtain ⟨op, ⟨hop, hq⟩, -⟩ := htask
    exact List.mem_map.mpr ⟨op, hop, hq⟩

theorem mem_tasks_of_taskAt {task : TaskConfig} (h : sim.taskAt t = some task) : t ∈ sim.tasks :=
  mem_tasks_iff.mpr (List.getElem?_eq_some_iff.mp h).1

theorem mem_tasks_of_updates {b : ℕ} (h : b ∈ sim.updates t) : t ∈ sim.tasks := by
  cases htask : sim.taskAt t with
  | none => simp [updates, htask] at h
  | some task => exact mem_tasks_of_taskAt htask

theorem mem_tasks_of_waits {b : ℕ} (h : b ∈ sim.waits t) : t ∈ sim.tasks := by
  cases htask : sim.taskAt t with
  | none => simp [waits, htask] at h
  | some task => exact mem_tasks_of_taskAt htask

theorem mem_producers {p t : Task Q} :
    p ∈ sim.producers t ↔ ∃ b ∈ sim.waits t, b ∈ sim.updates p := by
  simp only [producers, Finset.mem_filter, and_iff_right_iff_imp]
  rintro ⟨b, -, hb⟩
  exact mem_tasks_of_updates hb

theorem precedes_of_producer {p t : Task Q} (h : p ∈ sim.producers t) : sim.Precedes p t := by
  obtain ⟨b, hwait, hupdate⟩ := mem_producers.mp h
  exact .inr ⟨b, hupdate, hwait⟩

theorem Precedes.mem_left {p t : Task Q} (h : sim.Precedes p t) : p ∈ sim.tasks := by
  rcases h with ⟨hq, hlt, ht⟩ | ⟨b, hb, -⟩
  · rw [mem_tasks_iff] at ht ⊢
    rw [hq]
    exact hlt.trans ht
  · exact mem_tasks_of_updates hb

theorem Precedes.mem_right {p t : Task Q} (h : sim.Precedes p t) : t ∈ sim.tasks := by
  rcases h with ⟨-, -, ht⟩ | ⟨b, -, hb⟩
  · exact ht
  · exact mem_tasks_of_waits hb

section Congr

variable {start' : Task Q → ℕ}

theorem freeCycles_congr {queueType : Q} {index : ℕ}
    (h : ∀ j < index, start (queueType, j) = start' (queueType, j)) :
    sim.freeCycles start queueType index = sim.freeCycles start' queueType index := by
  induction index with
  | zero => rfl
  | succ index ih =>
    rw [freeCycles, freeCycles, ih fun j hj => h j (hj.trans (Nat.lt_succ_self _)),
      h index (Nat.lt_succ_self _)]

theorem latestEnd_congr (h : ∀ p ∈ sim.producers t, start p = start' p) :
    sim.latestEnd start t = sim.latestEnd start' t :=
  Finset.sup_congr rfl fun p hp => by rw [h p hp]

theorem earliest_congr (ht : t ∈ sim.tasks) (h : ∀ p, sim.Precedes p t → start p = start' p) :
    max (sim.earliestFree start t) (sim.latestEnd start t) =
      max (sim.earliestFree start' t) (sim.latestEnd start' t) := by
  have hfree : sim.freeCycles start t.1 t.2 = sim.freeCycles start' t.1 t.2 :=
    freeCycles_congr fun j hj => h _ (.inl ⟨rfl, hj, ht⟩)
  have hends : sim.latestEnd start t = sim.latestEnd start' t :=
    latestEnd_congr fun p hp => h p (precedes_of_producer hp)
  rw [earliestFree, earliestFree, hfree, hends]

theorem Earliest.unique (hacyclic : Acyclic sim.Precedes) (h : sim.Earliest start)
    (h' : sim.Earliest start') : ∀ t ∈ sim.tasks, start t = start' t := by
  refine hacyclic.induction fun t ht ih => ?_
  rw [h t ht, h' t ht]
  exact earliest_congr ht fun p hp => ih p hp.mem_left hp

end Congr

end InferenceExecutionSimulator

end Earliest

end Vpux.Inference
