import Mathlib.Algebra.BigOperators.Group.Finset.Basic
import Mathlib.Data.List.Count
import Mathlib.Data.List.Induction
import Mathlib.Logic.Function.Basic
import Vpux.VPURT.Task

/-! What the barrier simulator keeps of a function: its barriers with their counters, and its
tasks in the queues that execute them. -/
namespace Vpux.Simulator
open VPURT

/-- A DMA task index: queue index and index in the queue. -/
abbrev DmaTaskIdx := ℕ × ℕ

/-- What the simulator reads from the device, and the order in which it walks an
`unordered_map`, about which the code knows nothing. -/
structure Platform where
  dmaPortCount : ℕ
  availableBarriers : ℕ
  barrierMaxVariantCount : ℕ
  dmaPortCount_pos : 0 < dmaPortCount
  mapOrder : List (List DmaTaskIdx) → List (List DmaTaskIdx)
  mapOrder_perm : ∀ l, (mapOrder l).Perm l

/-- `_dmaTasks[e]`, `_nceTasks`, `_actTasks` and `_upaTasks` -/
inductive Queue
  | dma (e : ℕ)
  | dpu
  | act
  | upa
  deriving DecidableEq

/-- An entry of a queue, with the barriers that its dependency ranges over. The task is the
one it was made for. -/
structure BarrierUserConfig where
  task : ℕ
  consumer : List ℕ
  producer : List ℕ
  count : ℕ
  deriving DecidableEq

/-- The state of `parseTasks`. The index of a DMA queue id is its position in
`dmaQueueIdToIndexMap`; `dmaTaskIndexs` keeps that variable for every task. -/
structure Parsed where
  dmaQueueIdToIndexMap : List ℕ
  queue : Queue → List BarrierUserConfig
  multiQueueDmaTasks : List (List DmaTaskIdx)
  producerCount : ℕ → ℕ
  consumerCount : ℕ → ℕ
  dmaTaskIndexs : ℕ → List DmaTaskIdx

namespace Parsed

def empty : Parsed := ⟨[], fun _ => [], [], fun _ => 0, fun _ => 0, fun _ => []⟩

def emplaceBack (p : Parsed) (q : Queue) (user : BarrierUserConfig) : Parsed :=
  { p with queue := Function.update p.queue q (p.queue q ++ [user]) }

/-- `counts[v] += count` for every barrier of a list -/
def addCounts (counts : ℕ → ℕ) (bars : List ℕ) (count : ℕ) : ℕ → ℕ :=
  bars.foldl (fun counts v => Function.update counts v (counts v + count)) counts

def updateBarrierConfigs (p : Parsed) (taskOp : TaskOp) (count : ℕ) : Parsed :=
  { p with
    consumerCount := addCounts p.consumerCount taskOp.waitBarriers count
    producerCount := addCounts p.producerCount taskOp.updateBarriers count }

end Parsed

section Parse

variable (platform : Platform)

def userConfig (t : ℕ) (taskOp : TaskOp) (count : ℕ) : BarrierUserConfig :=
  ⟨t, taskOp.waitBarriers, taskOp.updateBarriers, count⟩

/-- One port of a DMA: its queue is looked up or made, unless there are too many. The index
that is kept names the port, not the queue. -/
def parsePort (user : BarrierUserConfig) (channel : DmaChannelType) (s : Parsed × List DmaTaskIdx)
    (port : ℕ) : Option (Parsed × List DmaTaskIdx) :=
  let dmaQueueId := getDMAQueueIdEncoding port channel.value
  let known := s.1.dmaQueueIdToIndexMap
  let ids := if dmaQueueId ∈ known then known else known ++ [dmaQueueId]
  let dmaTasksQueueIndex := ids.idxOf dmaQueueId
  if dmaTasksQueueIndex < platform.dmaPortCount then
    let dmaTaskIdx := (port, (s.1.queue (.dma dmaTasksQueueIndex)).length)
    some ({ s.1 with dmaQueueIdToIndexMap := ids }.emplaceBack (.dma dmaTasksQueueIndex) user,
      s.2 ++ [dmaTaskIdx])
  else none

/-- `_multiQueueDmaTaskStatus.insert`, for a task with several queues -/
def insertMultiQueue (p : Parsed) (t : ℕ) (dmaTaskIndexs : List DmaTaskIdx) : Parsed :=
  { p with
    dmaTaskIndexs := Function.update p.dmaTaskIndexs t dmaTaskIndexs
    multiQueueDmaTasks :=
      if dmaTaskIndexs.length > 1 ∧ dmaTaskIndexs ∉ p.multiQueueDmaTasks then
        p.multiQueueDmaTasks ++ [dmaTaskIndexs]
      else p.multiQueueDmaTasks }

def parseTask (p : Parsed) (task : TaskOp × ℕ) : Option Parsed :=
  let (taskOp, t) := task
  match taskOp.inner with
  | .dma port channel clusters => do
    let ports := getDMATaskPorts platform.dmaPortCount port clusters
    let (p, dmaTaskIndexs) ← ports.foldlM (parsePort platform (userConfig t taskOp 1) channel)
        (p, [])
    return insertMultiQueue (p.updateBarrierConfigs taskOp 1) t dmaTaskIndexs
  | .nce numVariants _ =>
    some ((p.emplaceBack .dpu (userConfig t taskOp numVariants)).updateBarrierConfigs taskOp
      numVariants)
  | .act _ => some ((p.emplaceBack .act (userConfig t taskOp 1)).updateBarrierConfigs taskOp 1)
  | .upa => some ((p.emplaceBack .upa (userConfig t taskOp 1)).updateBarrierConfigs taskOp 1)

/-- The result is `none` where the code throws. -/
def parseTasks (tasks : List TaskOp) : Option Parsed :=
  tasks.zipIdx.foldlM (parseTask platform) .empty

end Parse

/-- A function whose barriers are configured, with their ids (`none` in place of `-1`). -/
structure ConfiguredFuncOp where
  ids : List (Option ℕ)
  tasks : List TaskOp

/-- The object after its constructor. A barrier's `realId` is `none` in place of `-1`. -/
structure BarrierSimulator where
  isDynamicBarriers : Bool
  numBarriers : ℕ
  realId : ℕ → Option ℕ
  tasks : Parsed
  platform : Platform

namespace BarrierSimulator

/-- `assignVirtualIds` throws when an id does not fit an `unsigned short`. -/
def assignVirtualIds (numBarriers : ℕ) : Option Unit :=
  if ∃ vid < numBarriers, vid > 65535 then none else some ()

def ofFunc (platform : Platform) (func : FuncOp) : Option BarrierSimulator := do
  assignVirtualIds func.numBarriers
  let tasks ← parseTasks platform func.tasks
  return {
    isDynamicBarriers := 0 < func.numBarriers
    numBarriers := func.numBarriers
    realId := fun _ => none
    tasks := tasks
    platform := platform }

def ofConfigured (platform : Platform) (func : ConfiguredFuncOp) : Option BarrierSimulator := do
  assignVirtualIds func.ids.length
  let tasks ← parseTasks platform func.tasks
  return {
    isDynamicBarriers := false
    numBarriers := func.ids.length
    realId := fun v => func.ids[v]?.join
    tasks := tasks
    platform := platform }

section Constructors

variable {platform : Platform} {sim : BarrierSimulator}

theorem ofFunc_eq_some {func : FuncOp} (h : ofFunc platform func = some sim) :
    sim.platform = platform ∧ parseTasks platform func.tasks = some sim.tasks ∧
      sim.numBarriers = func.numBarriers ∧ (∀ v, sim.realId v = none) ∧
      sim.isDynamicBarriers = decide (0 < func.numBarriers) := by
  obtain ⟨_, -, h⟩ := Option.bind_eq_some_iff.mp h
  obtain ⟨tasks, htasks, h⟩ := Option.bind_eq_some_iff.mp h
  obtain rfl := Option.some.inj h
  exact ⟨rfl, htasks, rfl, fun _ => rfl, rfl⟩

theorem ofConfigured_eq_some {func : ConfiguredFuncOp} (h : ofConfigured platform func = some sim) :
    sim.platform = platform ∧ parseTasks platform func.tasks = some sim.tasks ∧
      sim.numBarriers = func.ids.length ∧ (∀ v, sim.realId v = func.ids[v]?.join) ∧
      sim.isDynamicBarriers = false := by
  obtain ⟨_, -, h⟩ := Option.bind_eq_some_iff.mp h
  obtain ⟨tasks, htasks, h⟩ := Option.bind_eq_some_iff.mp h
  obtain rfl := Option.some.inj h
  exact ⟨rfl, htasks, rfl, fun _ => rfl, rfl⟩

theorem ofConfigured_of_ofFunc {func : FuncOp} {ids : List (Option ℕ)}
    (h : ofFunc platform func = some sim) (hlen : ids.length = func.numBarriers) :
    ∃ stat, ofConfigured platform ⟨ids, func.tasks⟩ = some stat := by
  obtain ⟨u, hu, h⟩ := Option.bind_eq_some_iff.mp h
  obtain ⟨tasks, htasks, -⟩ := Option.bind_eq_some_iff.mp h
  unfold ofConfigured
  rw [hlen, hu, htasks]
  exact ⟨_, rfl⟩

end Constructors

def checkProducerCount (sim : BarrierSimulator) : Bool :=
  (List.range sim.numBarriers).all fun vid =>
    sim.tasks.producerCount vid ≤ sim.platform.barrierMaxVariantCount

/-- The queues in the order in which they are polled -/
def queues (sim : BarrierSimulator) : List Queue :=
  (List.range sim.platform.dmaPortCount).map .dma ++ [.dpu, .act, .upa]

/-- The key that `find_if` ends at for the task at an index of a queue, if any -/
def multiQueueKey (sim : BarrierSimulator) (q : Queue) (index : ℕ) : Option (List DmaTaskIdx) :=
  match q with
  | .dma e => (sim.platform.mapOrder sim.tasks.multiQueueDmaTasks).find? fun key => (e, index) ∈ key
  | _ => none

end BarrierSimulator

-- What the parser leaves in the queues and the counters.

/-- The count of a task's queue entries -/
def taskCount (op : TaskOp) : ℕ :=
  match op.inner with
  | .nce numVariants _ => numVariants
  | _ => 1

theorem taskCount_pos (op : TaskOp) : 0 < taskCount op := by
  unfold taskCount
  cases op.inner with
  | nce numVariants clusterId => exact numVariants.pos
  | dma port channel clusters => exact Nat.one_pos
  | act numKernelRuns => exact Nat.one_pos
  | upa => exact Nat.one_pos

/-- How much task `t` takes off the consumer counter of a barrier. -/
def waitCount (tasks : List TaskOp) (v t : ℕ) : ℕ :=
  (tasks[t]?.map fun op => taskCount op * op.waitBarriers.count v).getD 0

/-- How much task `t` takes off the producer counter of a barrier. -/
def updateCount (tasks : List TaskOp) (v t : ℕ) : ℕ :=
  (tasks[t]?.map fun op => taskCount op * op.updateBarriers.count v).getD 0

def numPorts (platform : Platform) (op : TaskOp) : ℕ :=
  match op.inner with
  | .dma port _ clusters => (getDMATaskPorts platform.dmaPortCount port clusters).length
  | _ => 0

def Platform.HasQueue (platform : Platform) : Queue → Prop
  | .dma e => e < platform.dmaPortCount
  | _ => True

namespace Parsed

def taskAt (p : Parsed) (q : Queue) (i : ℕ) : Option ℕ := (p.queue q)[i]?.map (·.task)

/-- What holds after the tasks of a list are parsed. -/
structure Of (platform : Platform) (tasks : List TaskOp) (p : Parsed) : Prop where
  entry : ∀ q, ∀ user ∈ p.queue q, platform.HasQueue q ∧
    ∃ op, tasks[user.task]? = some op ∧ user = userConfig user.task op (taskCount op)
  entered : ∀ t < tasks.length, ∃ q i, p.taskAt q i = some t
  /-- A task with one queue has one entry. -/
  single : ∀ {q i q' i' t}, p.taskAt q i = some t → p.taskAt q' i' = some t →
    (q = q' ∧ i = i') ∨ 1 < (p.dmaTaskIndexs t).length
  /-- Only a DMA has several queues. -/
  dma : ∀ {q i t}, p.taskAt q i = some t → 1 < (p.dmaTaskIndexs t).length → ∃ e, q = .dma e
  multi : ∀ key, key ∈ p.multiQueueDmaTasks ↔ ∃ t, p.dmaTaskIndexs t = key ∧ 1 < key.length
  indexs : ∀ {t op}, tasks[t]? = some op → (p.dmaTaskIndexs t).length = numPorts platform op
  unparsed : ∀ t, tasks.length ≤ t → p.dmaTaskIndexs t = []
  consumer : ∀ v, p.consumerCount v = ∑ t ∈ Finset.range tasks.length, waitCount tasks v t
  producer : ∀ v, p.producerCount v = ∑ t ∈ Finset.range tasks.length, updateCount tasks v t

open List

theorem Of.empty (platform : Platform) : Of platform [] .empty where
  entry q user h := absurd h not_mem_nil
  entered t h := absurd h (Nat.not_lt_zero t)
  single h := by cases h
  dma h := by cases h
  multi key := by
    constructor
    · intro h
      cases h
    · rintro ⟨t, rfl, hlen⟩
      exact absurd hlen (Nat.not_lt_zero 1)
  indexs h := by cases h
  unparsed t _ := rfl
  consumer v := rfl
  producer v := rfl

theorem addCounts_apply (counts : ℕ → ℕ) (bars : List ℕ) (count v : ℕ) :
    addCounts counts bars count v = counts v + count * bars.count v := by
  unfold addCounts
  induction bars generalizing counts with
  | nil => simp
  | cons b bars ih =>
    rw [foldl_cons, ih]
    by_cases h : v = b
    · subst h
      rw [Function.update_self, count_cons_self, Nat.mul_add_one]
      omega
    · rw [Function.update_of_ne h, count_cons_of_ne (Ne.symm h)]

/-- The entries that a task adds to the queues: one for each queue of a list. -/
structure Adds (p p' : Parsed) (user : BarrierUserConfig) (qs : List Queue) : Prop where
  queue : ∀ q, p'.queue q = p.queue q ++ List.replicate (qs.count q) user
  multiQueueDmaTasks : p'.multiQueueDmaTasks = p.multiQueueDmaTasks
  producerCount : p'.producerCount = p.producerCount
  consumerCount : p'.consumerCount = p.consumerCount
  dmaTaskIndexs : p'.dmaTaskIndexs = p.dmaTaskIndexs

theorem Adds.emplaceBack (p : Parsed) (q : Queue) (user : BarrierUserConfig) :
    Adds p (p.emplaceBack q user) user [q] where
  queue q' := by
    unfold Parsed.emplaceBack
    by_cases h : q' = q
    · subst h
      simp
    · simp [h, Ne.symm h]
  multiQueueDmaTasks := rfl
  producerCount := rfl
  consumerCount := rfl
  dmaTaskIndexs := rfl

theorem Adds.trans {p p' p'' : Parsed} {user : BarrierUserConfig} {qs qs' : List Queue}
    (h : Adds p p' user qs) (h' : Adds p' p'' user qs') : Adds p p'' user (qs ++ qs') where
  queue q := by
    rw [h'.queue q, h.queue q, append_assoc, count_append, replicate_add]
  multiQueueDmaTasks := h'.multiQueueDmaTasks.trans h.multiQueueDmaTasks
  producerCount := h'.producerCount.trans h.producerCount
  consumerCount := h'.consumerCount.trans h.consumerCount
  dmaTaskIndexs := h'.dmaTaskIndexs.trans h.dmaTaskIndexs

theorem Adds.nil (p : Parsed) (user : BarrierUserConfig) : Adds p p user [] where
  queue q := by simp
  multiQueueDmaTasks := rfl
  producerCount := rfl
  consumerCount := rfl
  dmaTaskIndexs := rfl

variable {platform : Platform} {p p' : Parsed} {user : BarrierUserConfig} {channel : DmaChannelType}

theorem parsePort_adds {idxs idxs' : List DmaTaskIdx} {port : ℕ}
    (h : parsePort platform user channel (p, idxs) port = some (p', idxs')) :
    ∃ e, platform.HasQueue (.dma e) ∧ Adds p p' user [.dma e] ∧
      idxs'.length = idxs.length + 1 := by
  unfold parsePort at h
  dsimp only at h
  generalize (if getDMAQueueIdEncoding port channel.value ∈ p.dmaQueueIdToIndexMap then _ else _) =
    ids at h
  split_ifs at h with hlt
  obtain ⟨rfl, rfl⟩ := Prod.mk.inj (Option.some.inj h)
  refine ⟨ids.idxOf (getDMAQueueIdEncoding port channel.value), hlt, ?_, by simp⟩
  have hadds := Adds.emplaceBack p (.dma (ids.idxOf (getDMAQueueIdEncoding port channel.value)))
      user
  exact ⟨hadds.queue, rfl, rfl, rfl, rfl⟩

theorem parsePorts_adds (ports : List ℕ) {idxs idxs' : List DmaTaskIdx}
    (h : ports.foldlM (parsePort platform user channel) (p, idxs) = some (p', idxs')) :
    ∃ qs, (∀ q ∈ qs, platform.HasQueue q ∧ ∃ e, q = .dma e) ∧ qs.length = ports.length ∧
      Adds p p' user qs ∧ idxs'.length = idxs.length + ports.length := by
  induction ports generalizing p idxs with
  | nil =>
    obtain ⟨rfl, rfl⟩ := Prod.mk.inj (Option.some.inj h)
    exact ⟨[], by simp, rfl, .nil p user, rfl⟩
  | cons port ports ih =>
    obtain ⟨⟨p₁, idxs₁⟩, h₁, h₂⟩ := Option.bind_eq_some_iff.mp h
    obtain ⟨e, he, hadds, hlen⟩ := parsePort_adds h₁
    obtain ⟨qs, hqs, hcount, hadds', hlen'⟩ := ih h₂
    refine ⟨.dma e :: qs, by simpa [he] using hqs, by simp [hcount], hadds.trans hadds', ?_⟩
    rw [hlen', hlen, length_cons]
    omega

theorem Adds.taskAt {qs : List Queue} (h : Adds p p' user qs) (q : Queue) (i t : ℕ) :
    p'.taskAt q i = some t ↔ p.taskAt q i = some t ∨
      (user.task = t ∧ (p.queue q).length ≤ i ∧ i < (p.queue q).length + qs.count q) := by
  unfold Parsed.taskAt
  rw [h.queue q]
  by_cases hold : i < (p.queue q).length
  · rw [getElem?_append_left hold]
    constructor
    · exact Or.inl
    · rintro (hi | ⟨-, hle, -⟩)
      · exact hi
      · omega
  · have hnone : (p.queue q)[i]? = none := getElem?_eq_none (Nat.le_of_not_lt hold)
    rw [getElem?_append_right (Nat.le_of_not_lt hold), hnone, getElem?_replicate]
    by_cases hnew : i - (p.queue q).length < qs.count q
    · rw [if_pos hnew]
      simp only [Option.map_some, Option.some.injEq, Option.map_none, reduceCtorEq, false_or]
      constructor
      · intro ht
        exact ⟨ht, by omega, by omega⟩
      · exact fun ht => ht.1
    · rw [if_neg hnew]
      simp only [Option.map_none, reduceCtorEq, false_or, false_iff, not_and]
      omega

theorem sum_append (f : List TaskOp → ℕ → ℕ) (tasks : List TaskOp) (op : TaskOp)
    (hf : ∀ t < tasks.length, f (tasks ++ [op]) t = f tasks t) :
    ∑ t ∈ Finset.range (tasks ++ [op]).length, f (tasks ++ [op]) t =
      ∑ t ∈ Finset.range tasks.length, f tasks t + f (tasks ++ [op]) tasks.length := by
  rw [length_append, length_singleton, Finset.sum_range_succ]
  congr 1
  exact Finset.sum_congr rfl fun t ht => hf t (Finset.mem_range.mp ht)

section Step

variable {tasks : List TaskOp} {op : TaskOp} {qs : List Queue} {p₁ : Parsed}

section

variable (h : Of platform tasks p)
include h

theorem Of.task_lt {q : Queue} {i t : ℕ} (ht : p.taskAt q i = some t) : t < tasks.length := by
  obtain ⟨user, huser, rfl⟩ := Option.map_eq_some_iff.mp ht
  obtain ⟨-, op, hop, -⟩ := h.entry q user (mem_of_getElem? huser)
  exact (List.getElem?_eq_some_iff.mp hop).1

theorem Of.entered_step (hne : qs ≠ [])
    (hadds : Adds p p₁ (userConfig tasks.length op (taskCount op)) qs) :
    ∀ t < (tasks ++ [op]).length, ∃ q i, p₁.taskAt q i = some t := by
  intro t ht
  rw [length_append, length_singleton] at ht
  by_cases hlast : t = tasks.length
  · obtain ⟨q, hq⟩ := exists_mem_of_ne_nil qs hne
    have hcount : 0 < qs.count q := count_pos_iff.mpr hq
    exact ⟨q, (p.queue q).length, (hadds.taskAt q _ t).mpr (Or.inr ⟨hlast.symm, le_rfl, by omega⟩)⟩
  · obtain ⟨q, i, hi⟩ := h.entered t (by omega)
    exact ⟨q, i, (hadds.taskAt q i t).mpr (Or.inl hi)⟩

variable {idxs : List DmaTaskIdx}

section

variable (hadds : Adds p p₁ (userConfig tasks.length op (taskCount op)) qs)
include hadds

theorem Of.single_step (hidxs : 1 < qs.length → 1 < idxs.length) {q q' : Queue} {i i' t : ℕ}
    (ht : p₁.taskAt q i = some t) (ht' : p₁.taskAt q' i' = some t) :
    (q = q' ∧ i = i') ∨ 1 < (Function.update p.dmaTaskIndexs tasks.length idxs t).length := by
  rcases (hadds.taskAt q i t).mp ht with hold | ⟨hnew, hlo, hhi⟩
  · have hlt := h.task_lt hold
    rcases (hadds.taskAt q' i' t).mp ht' with hold' | ⟨hnew', -, -⟩
    · rw [Function.update_of_ne (Nat.ne_of_lt hlt)]
      exact h.single hold hold'
    · exact absurd hnew'.symm (Nat.ne_of_lt hlt)
  · rcases (hadds.taskAt q' i' t).mp ht' with hold' | ⟨-, hlo', hhi'⟩
    · exact absurd hnew.symm (Nat.ne_of_lt (h.task_lt hold'))
    · by_cases hmany : 1 < qs.length
      · right
        obtain rfl : tasks.length = t := hnew
        rw [Function.update_self]
        exact hidxs hmany
      · -- one queue: both are its entry
        left
        have hq : q ∈ qs := count_pos_iff.mp (by omega)
        have hq' : q' ∈ qs := count_pos_iff.mp (by omega)
        obtain ⟨q₀, rfl⟩ : ∃ q₀, qs = [q₀] :=
          length_eq_one_iff.mp (by have := length_pos_of_mem hq; omega)
        obtain rfl := mem_singleton.mp hq
        obtain rfl := mem_singleton.mp hq'
        rw [count_singleton_self] at hhi hhi'
        exact ⟨rfl, by omega⟩

theorem Of.dma_step (hdma : 1 < idxs.length → ∀ q ∈ qs, ∃ e, q = .dma e) {q : Queue} {i t : ℕ}
    (ht : p₁.taskAt q i = some t)
    (hmany : 1 < (Function.update p.dmaTaskIndexs tasks.length idxs t).length) :
    ∃ e, q = .dma e := by
  rcases (hadds.taskAt q i t).mp ht with hold | ⟨hnew, hlo, hhi⟩
  · rw [Function.update_of_ne (Nat.ne_of_lt (h.task_lt hold))] at hmany
    exact h.dma hold hmany
  · obtain rfl : tasks.length = t := hnew
    rw [Function.update_self] at hmany
    exact hdma hmany q (count_pos_iff.mp (by omega))

end

theorem Of.multi_step (idxs key : List DmaTaskIdx) :
    key ∈ (insertMultiQueue p tasks.length idxs).multiQueueDmaTasks ↔
      ∃ t, Function.update p.dmaTaskIndexs tasks.length idxs t = key ∧ 1 < key.length := by
  have hmem : key ∈ (insertMultiQueue p tasks.length idxs).multiQueueDmaTasks ↔
      key ∈ p.multiQueueDmaTasks ∨ (key = idxs ∧ 1 < key.length) := by
    unfold insertMultiQueue
    split_ifs with hins
    · rw [mem_append, mem_singleton]
      constructor
      · rintro (hkey | rfl)
        · exact Or.inl hkey
        · exact Or.inr ⟨rfl, hins.1⟩
      · rintro (hkey | ⟨rfl, -⟩)
        · exact Or.inl hkey
        · exact Or.inr rfl
    · constructor
      · exact Or.inl
      · rintro (hkey | ⟨rfl, hlen⟩)
        · exact hkey
        · exact Classical.not_not.mp fun hnot => hins ⟨hlen, hnot⟩
  rw [hmem, h.multi key]
  constructor
  · rintro (⟨t, rfl, hlen⟩ | ⟨rfl, hlen⟩)
    · have hne : t ≠ tasks.length := by
        rintro rfl
        rw [h.unparsed _ le_rfl] at hlen
        exact absurd hlen (Nat.not_lt_zero 1)
      exact ⟨t, Function.update_of_ne hne _ _, hlen⟩
    · exact ⟨tasks.length, Function.update_self _ _ _, hlen⟩
  · rintro ⟨t, rfl, hlen⟩
    by_cases hlast : t = tasks.length
    · subst hlast
      exact Or.inr ⟨Function.update_self _ _ _, hlen⟩
    · rw [Function.update_of_ne hlast] at hlen ⊢
      exact Or.inl ⟨t, rfl, hlen⟩

theorem Of.step (hqs : ∀ q ∈ qs, platform.HasQueue q) (hne : qs ≠ [])
    (hadds : Adds p p₁ (userConfig tasks.length op (taskCount op)) qs)
    (hidxs : 1 < qs.length → 1 < idxs.length) (hdma : 1 < idxs.length → ∀ q ∈ qs, ∃ e, q = .dma e)
    (hlen : idxs.length = numPorts platform op) :
    Of platform (tasks ++ [op])
      (insertMultiQueue (p₁.updateBarrierConfigs op (taskCount op)) tasks.length idxs) := by
  have hlast : (tasks ++ [op])[tasks.length]? = some op := getElem?_concat_length
  have hold : ∀ t < tasks.length, (tasks ++ [op])[t]? = tasks[t]? :=
    fun t ht => getElem?_append_left ht
  refine ⟨?_, fun t ht => h.entered_step hne hadds t ht, ?_, ?_, ?_, ?_, ?_, ?_, ?_⟩
  · intro q user huser
    have hmem : user ∈ p₁.queue q := huser
    rw [hadds.queue q] at hmem
    rcases mem_append.mp hmem with hmem | hmem
    · obtain ⟨hq, op', hop', huser'⟩ := h.entry q user hmem
      have hlt := (List.getElem?_eq_some_iff.mp hop').1
      exact ⟨hq, op', by rw [hold _ hlt]; exact hop', huser'⟩
    · obtain ⟨hcount, rfl⟩ := mem_replicate.mp hmem
      exact ⟨hqs q (count_pos_iff.mp (Nat.pos_of_ne_zero hcount)), op, hlast, rfl⟩
  · intro q i q' i' t ht ht'
    show _ ∨ 1 < (Function.update p₁.dmaTaskIndexs tasks.length idxs t).length
    rw [hadds.dmaTaskIndexs]
    exact h.single_step hadds hidxs ht ht'
  · intro q i t ht hmany
    have hmany' : 1 < (Function.update p₁.dmaTaskIndexs tasks.length idxs t).length := hmany
    rw [hadds.dmaTaskIndexs] at hmany'
    exact h.dma_step hadds hdma ht hmany'
  · intro key
    have hsame : (insertMultiQueue (p₁.updateBarrierConfigs op (taskCount op)) tasks.length
        idxs).multiQueueDmaTasks = (insertMultiQueue p tasks.length idxs).multiQueueDmaTasks := by
      unfold insertMultiQueue updateBarrierConfigs
      rw [hadds.multiQueueDmaTasks]
    rw [hsame, h.multi_step]
    show _ ↔ ∃ t, Function.update p₁.dmaTaskIndexs tasks.length idxs t = key ∧ _
    rw [hadds.dmaTaskIndexs]
  · intro t op' hop'
    show (Function.update p₁.dmaTaskIndexs tasks.length idxs t).length = _
    by_cases hnew : t = tasks.length
    · subst hnew
      obtain rfl := Option.some.inj (hlast.symm.trans hop')
      rw [Function.update_self, hlen]
    · have hlt : t < tasks.length := by
        have hlt := (List.getElem?_eq_some_iff.mp hop').1
        rw [length_append, length_singleton] at hlt
        omega
      rw [Function.update_of_ne hnew, hadds.dmaTaskIndexs]
      exact h.indexs ((hold t hlt).symm.trans hop')
  · intro t ht
    rw [length_append, length_singleton] at ht
    show Function.update p₁.dmaTaskIndexs tasks.length idxs t = []
    rw [Function.update_of_ne (by omega), hadds.dmaTaskIndexs]
    exact h.unparsed t (by omega)
  · intro v
    show addCounts p₁.consumerCount op.waitBarriers (taskCount op) v = _
    rw [addCounts_apply, hadds.consumerCount, h.consumer v,
      sum_append (fun tasks t => waitCount tasks v t) tasks op]
    · unfold waitCount
      rw [hlast]
      rfl
    · intro t ht
      unfold waitCount
      rw [hold t ht]
  · intro v
    show addCounts p₁.producerCount op.updateBarriers (taskCount op) v = _
    rw [addCounts_apply, hadds.producerCount, h.producer v,
      sum_append (fun tasks t => updateCount tasks v t) tasks op]
    · unfold updateCount
      rw [hlast]
      rfl
    · intro t ht
      unfold updateCount
      rw [hold t ht]

end

theorem insertMultiQueue_nil {t : ℕ} (h : p.dmaTaskIndexs t = []) : insertMultiQueue p t [] =
    p := by
  unfold insertMultiQueue
  rw [← h, Function.update_eq_self, h]
  simp

theorem Of.parseTask {p' : Parsed} (h : Of platform tasks p)
    (hrun : parseTask platform p (op, tasks.length) = some p') :
      Of platform (tasks ++ [op]) p' := by
  have hsingle : numPorts platform op = 0 → ∀ q, platform.HasQueue q →
      Of platform (tasks ++ [op]) (((p.emplaceBack q
        (userConfig tasks.length op (taskCount op))).updateBarrierConfigs op (taskCount op))) := by
    intro hports q hq
    have hadds := Adds.emplaceBack p q (userConfig tasks.length op (taskCount op))
    have hidxs : 1 < ([] : List DmaTaskIdx).length → ∀ q' ∈ [q], ∃ e, q' = Queue.dma e :=
      fun hlen => absurd hlen (Nat.not_lt_zero 1)
    have hstep := h.step (by simpa using hq) (by simp) hadds
      (fun hlen => absurd hlen (Nat.lt_irrefl 1)) hidxs hports.symm
    have hnone : ((p.emplaceBack q (userConfig tasks.length op (taskCount op))).updateBarrierConfigs
        op (taskCount op)).dmaTaskIndexs tasks.length = [] := h.unparsed _ le_rfl
    rwa [insertMultiQueue_nil hnone] at hstep
  unfold Simulator.parseTask at hrun
  cases hinner : op.inner with
  | dma port channel clusters =>
    simp only [hinner] at hrun
    obtain ⟨⟨p₁, idxs⟩, hports, hp'⟩ := Option.bind_eq_some_iff.mp hrun
    obtain ⟨qs, hqs, hlen, hadds, hidxs⟩ := parsePorts_adds _ hports
    have hcount : taskCount op = 1 := by simp [taskCount, hinner]
    have hports := getDMATaskPorts_ne_nil platform.dmaPortCount_pos port clusters
    have hne : qs ≠ [] := by
      rintro rfl
      exact hports (length_eq_zero_iff.mp hlen.symm)
    obtain rfl := Option.some.inj hp'
    rw [← hcount] at hadds ⊢
    have hlen' : idxs.length = (getDMATaskPorts platform.dmaPortCount port clusters).length :=
      hidxs.trans (Nat.zero_add _)
    refine h.step (fun q hq => (hqs q hq).1) hne hadds (fun hmany => ?_)
      (fun _ q hq => (hqs q hq).2)
      ?_
    · show 1 < idxs.length
      omega
    · simp [numPorts, hinner, hlen']
  | nce numVariants clusterId =>
    have hcount : taskCount op = numVariants := by simp [taskCount, hinner]
    simp only [hinner, Option.some.injEq] at hrun
    rw [← hrun, ← hcount]
    exact hsingle (by simp [numPorts, hinner]) .dpu trivial
  | act numKernelRuns =>
    have hcount : taskCount op = 1 := by simp [taskCount, hinner]
    simp only [hinner, Option.some.injEq] at hrun
    rw [← hrun, ← hcount]
    exact hsingle (by simp [numPorts, hinner]) .act trivial
  | upa =>
    have hcount : taskCount op = 1 := by simp [taskCount, hinner]
    simp only [hinner, Option.some.injEq] at hrun
    rw [← hrun, ← hcount]
    exact hsingle (by simp [numPorts, hinner]) .upa trivial

theorem of_parseTasks (tasks : List TaskOp) {p : Parsed} (h : parseTasks platform tasks = some p) :
    Of platform tasks p := by
  unfold parseTasks at h
  induction tasks using List.reverseRecOn generalizing p with
  | nil =>
    obtain rfl := Option.some.inj h
    exact .empty platform
  | append_singleton tasks op ih =>
    rw [zipIdx_append, foldlM_append] at h
    obtain ⟨p₁, h₁, h₂⟩ := Option.bind_eq_some_iff.mp h
    have hone : Simulator.parseTask platform p₁ (op, tasks.length) = some p := by simpa using h₂
    exact (ih h₁).parseTask hone

theorem Of.hasQueue (h : Of platform tasks p) {q : Queue} {i t : ℕ} (ht : p.taskAt q i = some t) :
    platform.HasQueue q := by
  obtain ⟨user, huser, -⟩ := Option.map_eq_some_iff.mp ht
  exact (h.entry q user (mem_of_getElem? huser)).1

end Step
end Parsed

end Vpux.Simulator
