import Vpux.Simulator.ParsedTasks
import Vpux.Data.RingBuffer

/-! The barrier simulation without legalization, one turn of a loop at a time. -/
namespace Vpux.Simulator
open VPURT Data

/-- The variables of `simulateBarriers`. In `status` the value `true` of a key of
`_multiQueueDmaTaskStatus` is the task that was processed for it; `executed` lists the tasks
that `processSim` has succeeded for. -/
structure SimState where
  realId : ℕ → Option ℕ
  producerCount : ℕ → ℕ
  consumerCount : ℕ → ℕ
  toVirtual : ℕ → Option ℕ
  nextReal : RingBuffer ℕ
  bar : ℕ
  pos : Queue → ℕ
  status : List DmaTaskIdx → Option ℕ
  executed : List ℕ

inductive Status
  | Success (s : SimState)
  | Skip
  | Fail

/-- What a turn of the loop over a queue does: the head of the queue is dealt with, or the
loop is left, or the simulation. -/
inductive Turn
  | advanced (s : SimState)
  | blocked
  | failed

/-- Where the simulation is: in the loop that maps barriers, in the loops over the queues that
are left in this round, or at its end. -/
inductive Phase
  | mapBarriers
  | poll (qs : List Queue)

inductive Point
  | running (phase : Phase) (progressed : Bool) (s : SimState)
  | returned (success : Bool) (s : SimState)

def Point.state : Point → SimState
  | .running _ _ s => s
  | .returned _ s => s

namespace BarrierSimulator

variable (sim : BarrierSimulator) (limit : ℕ)

def isBarrierMapped (s : SimState) (v : ℕ) : Bool :=
  match s.realId v with
  | none => false
  | some r => r < limit && (sim.isDynamicBarriers || s.toVirtual r = some v)

/-- The barrier has no consumers left: its physical barrier is free. -/
def release (s : SimState) (r : ℕ) : SimState :=
  { s with
    toVirtual := Function.update s.toVirtual r none
    nextReal := if sim.isDynamicBarriers then s.nextReal.push r else s.nextReal }

def consume (count : ℕ) (s : SimState) (v : ℕ) : Option SimState :=
  match s.realId v with
  | none => none
  | some r =>
    if !sim.isBarrierMapped limit s v then none
    else if s.producerCount v ≠ 0 ∨ s.consumerCount v < count then none
    else
      let s' := { s with
        consumerCount := Function.update s.consumerCount v (s.consumerCount v - count) }
      some (if s'.consumerCount v = 0 then sim.release s' r else s')

def produce (count : ℕ) (s : SimState) (v : ℕ) : Option SimState :=
  if !sim.isBarrierMapped limit s v then none
  else if s.producerCount v < count then none
  else some { s with
    producerCount := Function.update s.producerCount v (s.producerCount v - count) }

def processSim (user : BarrierUserConfig) (s : SimState) : Status :=
  if user.consumer.any fun v => !sim.isBarrierMapped limit s v || 0 < s.producerCount v then .Skip
  else if user.producer.any fun v => !sim.isBarrierMapped limit s v then .Skip
  else
    match user.consumer.foldlM (sim.consume limit user.count) s with
    | none => .Fail
    | some s =>
      match user.producer.foldlM (sim.produce limit user.count) s with
      | none => .Fail
      | some s => .Success s

def hasBarriersToMap (s : SimState) : Bool :=
  if sim.isDynamicBarriers then !s.nextReal.empty
  else match s.realId s.bar with
    | none => false
    | some r => s.toVirtual r = none

def mapBarrier (s : SimState) : SimState :=
  if sim.isDynamicBarriers then
    let real := s.nextReal.front
    { s with
      nextReal := s.nextReal.pop
      realId := Function.update s.realId s.bar (some real)
      toVirtual := Function.update s.toVirtual real (some s.bar)
      bar := s.bar + 1 }
  else match s.realId s.bar with
    | none => s
    | some real =>
      { s with toVirtual := Function.update s.toVirtual real (some s.bar), bar := s.bar + 1 }

def advance (q : Queue) (s : SimState) : SimState :=
  { s with pos := Function.update s.pos q (s.pos q + 1) }

/-- The task is processed, and marked so under its key. -/
def markProcessed (key : Option (List DmaTaskIdx)) (task : ℕ) (s : SimState) : SimState :=
  { s with
    executed := s.executed ++ [task]
    status := match key with
      | none => s.status
      | some key => Function.update s.status key (some task) }

def pollQueue (q : Queue) (s : SimState) : Turn :=
  match (sim.tasks.queue q)[s.pos q]? with
  | none => .blocked
  | some user =>
    let iter := sim.multiQueueKey q (s.pos q)
    match iter.bind s.status with
    | some _ => .advanced (advance q s)
    | none =>
      match sim.processSim limit user s with
      | .Skip => .blocked
      | .Fail => .failed
      | .Success s' => .advanced (advance q (markProcessed iter user.task s'))

/-- The condition of the outer loop -/
def unfinished (s : SimState) : Bool :=
  s.bar < sim.numBarriers || sim.queues.any fun q => s.pos q < (sim.tasks.queue q).length

/-- A new round of the outer loop, or its end. -/
def startRound (s : SimState) : Point :=
  if sim.unfinished s then .running .mapBarriers false s else .returned true s

def step : Point → Point
  | .returned success s => .returned success s
  | .running .mapBarriers progressed s =>
    if s.bar < sim.numBarriers && sim.hasBarriersToMap s then
      .running .mapBarriers true (sim.mapBarrier s)
    else .running (.poll sim.queues) progressed s
  | .running (.poll (q :: qs)) progressed s =>
    match sim.pollQueue limit q s with
    | .advanced s' => .running (.poll (q :: qs)) true s'
    | .blocked => .running (.poll qs) progressed s
    | .failed => .returned false s
  | .running (.poll []) progressed s =>
    if progressed then sim.startRound s else .returned false s

/-- `while (!nextReal.full()) nextReal.push(nextReal.size())`, from a buffer that is empty -/
def fillNextReal : ℕ → RingBuffer ℕ → RingBuffer ℕ
  | 0, b => b
  | n + 1, b => if b.full then b else fillNextReal n (b.push b.size)

def initial : SimState where
  realId := sim.realId
  producerCount := sim.tasks.producerCount
  consumerCount := sim.tasks.consumerCount
  toVirtual := fun _ => none
  nextReal := if sim.isDynamicBarriers then fillNextReal limit (RingBuffer.new.reset limit)
    else RingBuffer.new
  bar := 0
  pos := fun _ => 0
  status := fun _ => none
  executed := []

def point (n : ℕ) : Point := (sim.step limit)^[n] (sim.startRound (sim.initial limit))

def remaining (s : SimState) : ℕ :=
  (sim.numBarriers - s.bar) + (sim.queues.map fun q => (sim.tasks.queue q).length - s.pos q).sum

/-- A bound on the number of points, and so on the turns of all loops. -/
def maxSteps : ℕ := 2 * (sim.queues.length + 3) * (sim.remaining (sim.initial limit) + 1)

/-- The result is `none` where the code throws, else whether it succeeded, and its last state. -/
def simulateBarriers (numBarriers : Option ℕ) : Option (Bool × SimState) :=
  let limit := numBarriers.getD sim.platform.availableBarriers
  if limit ≤ sim.platform.availableBarriers then
    match sim.point limit (sim.maxSteps limit) with
    | .running .. => none
    | .returned success s => some (success, s)
  else none

end BarrierSimulator
end Vpux.Simulator
