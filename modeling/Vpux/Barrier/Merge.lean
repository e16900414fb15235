import Vpux.Barrier.Controll

/-! Whether merging two barriers that the check accepts orders tasks that were not ordered. -/
namespace Vpux.Barrier.BarrierInfo
open Data Data.TaskSet VPURT Relation

variable {S : Type} [TaskSet S] {info info' : BarrierInfo S} {func : FuncOp}
  {dmaPortNum barrier barrier' barrierA barrierB p c : ℕ} {origWaitBarriersMap : ℕ → S}

/-- Barrier edges and hops in the DMA queues. -/
def Step (info : BarrierInfo S) (func : FuncOp) (t u : ℕ) : Prop := info.Drives t u ∨ func.Fifo t u

/-- The producers of the barrier that two barriers are merged into were ordered before all its
consumers. -/
def MergeKeepsOrder (info : BarrierInfo S) (func : FuncOp) (barrierA barrierB : ℕ) : Prop :=
  ∀ p c, info.Updates p barrierA ∨ info.Updates p barrierB →
    info.Waits c barrierA ∨ info.Waits c barrierB → TransGen (info.Step func) p c

/-- A producer of one barrier and a consumer of the other one only. -/
def Crosses (info : BarrierInfo S) (barrierA barrierB p c : ℕ) : Prop :=
  (info.Updates p barrierA ∧ info.Waits c barrierB ∧ ¬ info.Waits c barrierA) ∨
    info.Updates p barrierB ∧ info.Waits c barrierA ∧ ¬ info.Waits c barrierB

/-- A task of a DMA queue that is kept. -/
def HasQueue (dmaPortNum : ℕ) (func : FuncOp) (t : ℕ) : Prop :=
  ∃ type ∈ taskQueueTypes dmaPortNum, taskQueueType? func t = some type

/-- What the check asks of the producers of a barrier and of the consumers that only the other
barrier has: they are in kept DMA queues, the producers come first, and no two of them wait for
the same barriers. -/
def LooksControlled (info : BarrierInfo S) (func : FuncOp) (dmaPortNum : ℕ)
    (origWaitBarriersMap : ℕ → S) (barrier barrier' : ℕ) : Prop :=
  ∀ c, info.Waits c barrier' → ¬ info.Waits c barrier →
    (∃ p, info.Updates p barrier) ∧ HasQueue dmaPortNum func c ∧
      ∀ p, info.Updates p barrier → HasQueue dmaPortNum func p ∧ p < c ∧
        equal (origWaitBarriersMap p) (origWaitBarriersMap c) = false

/-- The task, or one behind it in its DMA queue, updates a barrier that the other task, or one in
front of it in its DMA queue, waits for. -/
def Connects (info : BarrierInfo S) (func : FuncOp) (barrier p c : ℕ) : Prop :=
  ∃ p' c', (p' = p ∨ func.Fifo p p') ∧ info.Updates p' barrier ∧ info.Waits c' barrier ∧
    (c' = c ∨ func.Fifo c' c)

/-- One of the two barriers connects each crossing pair of tasks in different queues. -/
def ConnectsCrossing (info : BarrierInfo S) (func : FuncOp) (barrierA barrierB : ℕ) : Prop :=
  ∀ p c, info.Crosses barrierA barrierB p c → taskQueueType? func p ≠ taskQueueType? func c →
    info.Connects func barrierA p c ∨ info.Connects func barrierB p c

/-- The same to the check: the tasks wait for the same barriers, and the two barriers have the same
producers. -/
structure SameToCheck (info info' : BarrierInfo S) (barrierA barrierB : ℕ) : Prop where
  waits : ∀ t b, info'.Waits t b ↔ info.Waits t b
  updatesA : ∀ t, info'.Updates t barrierA ↔ info.Updates t barrierA
  updatesB : ∀ t, info'.Updates t barrierB ↔ info.Updates t barrierB

theorem fifo_trans {a b c : ℕ} (hab : func.Fifo a b) (hbc : func.Fifo b c) : func.Fifo a c := by
  obtain ⟨hlt, op, op', hop, hop', hdma, hsame⟩ := hab
  obtain ⟨hlt', op₁, op₂, hop₁, hop₂, -, hsame'⟩ := hbc
  obtain rfl : op' = op₁ := by simpa [hop'] using hop₁
  exact ⟨hlt.trans hlt', op, op₂, hop, hop₂, hdma, hsame.trans hsame'⟩

theorem queueType_of_fifo {a b : ℕ} (h : func.Fifo a b) :
    taskQueueType? func a = taskQueueType? func b := by
  obtain ⟨-, op, op', hop, hop', -, hsame⟩ := h
  simp [taskQueueType?, hop, hop', hsame]

theorem Connects.ordered (h : info.Connects func barrier p c) : TransGen (info.Step func) p c := by
  obtain ⟨p', c', hp, hup, hwait, hc⟩ := h
  have hedge : TransGen (info.Step func) p' c' := .single (Or.inl ⟨barrier, hup, hwait⟩)
  have hfrom : TransGen (info.Step func) p c' := by
    rcases hp with rfl | hp
    · exact hedge
    · exact .head (Or.inr hp) hedge
  rcases hc with rfl | hc
  · exact hfrom
  · exact hfrom.tail (Or.inr hc)

theorem Connects.tail {d : ℕ} (h : info.Connects func barrier p c) (hfifo : func.Fifo c d) :
    info.Connects func barrier p d := by
  obtain ⟨p', c', hp, hup, hwait, rfl | hc⟩ := h
  · exact ⟨p', c', hp, hup, hwait, Or.inr hfifo⟩
  · exact ⟨p', c', hp, hup, hwait, Or.inr (fifo_trans hc hfifo)⟩

section Check

theorem exists_mem_queues_iff (t : ℕ) :
    (∃ item ∈ taskQueueTypeMap dmaPortNum func, t ∈ item.2) ↔ HasQueue dmaPortNum func t := by
  simp only [taskQueueTypeMap, List.mem_map, exists_exists_and_eq_and, mem_tasksInSameFIFO,
    HasQueue]

theorem inImplicitQueueTypeDependencyList_iff (tasks : S) :
    inImplicitQueueTypeDependencyList (taskQueueTypeMap dmaPortNum func) tasks = true ↔
      ∀ t ∈ toList tasks, HasQueue dmaPortNum func t := by
  simp only [inImplicitQueueTypeDependencyList, List.all_eq_true, List.any_eq_true,
    decide_eq_true_eq, exists_mem_queues_iff]

theorem HasQueue.fifo (h : HasQueue dmaPortNum func p)
    (hsame : taskQueueType? func p = taskQueueType? func c) (hlt : p < c) : func.Fifo p c := by
  obtain ⟨type, htype, hp⟩ := h
  have hitem : (type, tasksInSameFIFO func type) ∈ taskQueueTypeMap dmaPortNum func :=
    List.mem_map.mpr ⟨type, htype, rfl⟩
  exact fifo_of_mem_queue hitem hp (hsame ▸ hp) hlt

theorem producersControllsAllConsumers_eq_true (producers newConsumers origConsumers : S) :
    producersControllsAllConsumers (taskQueueTypeMap dmaPortNum func) producers newConsumers
        origConsumers origWaitBarriersMap = true ↔
      ∀ c ∈ toList (setDifference newConsumers origConsumers),
        (∃ p, p ∈ toList producers) ∧ HasQueue dmaPortNum func c ∧
          ∀ p ∈ toList producers, HasQueue dmaPortNum func p ∧ p < c ∧
            equal (origWaitBarriersMap p) (origWaitBarriersMap c) = false := by
  unfold producersControllsAllConsumers
  generalize setDifference newConsumers origConsumers = fresh
  dsimp only
  split_ifs with hnone hproducer hfresh hqueued
  · rw [TaskSet.isEmpty_iff] at hnone
    simp [hnone]
  · rw [TaskSet.isEmpty_iff] at hnone hproducer
    obtain ⟨c, hc⟩ := List.exists_mem_of_ne_nil _ hnone
    refine iff_of_false (by simp) fun h => ?_
    obtain ⟨⟨p, hp⟩, -⟩ := h c hc
    rw [hproducer] at hp
    cases hp
  · rw [Bool.not_eq_true', ← Bool.not_eq_true, inImplicitQueueTypeDependencyList_iff]
      at hfresh
    exact iff_of_false (by simp) fun h => hfresh fun c hc => (h c hc).2.1
  · rw [TaskSet.isEmpty_iff] at hnone
    rw [Bool.not_eq_true', ← Bool.not_eq_true, inImplicitQueueTypeDependencyList_iff] at hqueued
    obtain ⟨c, hc⟩ := List.exists_mem_of_ne_nil _ hnone
    exact iff_of_false (by simp) fun h => hqueued fun p hp => ((h c hc).2.2 p hp).1
  · rw [Bool.not_eq_true', Bool.not_eq_false, inImplicitQueueTypeDependencyList_iff]
      at hfresh hqueued
    rw [TaskSet.isEmpty_iff] at hnone hproducer
    obtain ⟨last, hlast⟩ := Option.ne_none_iff_exists'.mp (mt List.max?_eq_none_iff.mp hproducer)
    obtain ⟨first, hfirst⟩ := Option.ne_none_iff_exists'.mp (mt List.min?_eq_none_iff.mp hnone)
    obtain ⟨hlastMem, hlastMax⟩ := List.max?_eq_some_iff.mp hlast
    obtain ⟨hfirstMem, hfirstMin⟩ := List.min?_eq_some_iff.mp hfirst
    rw [hlast, hfirst]
    dsimp only
    split_ifs with hle
    · refine iff_of_false (by simp) fun h => ?_
      have hlt := ((h first hfirstMem).2.2 last hlastMem).2.1
      omega
    · simp only [Bool.not_eq_true', List.any_eq_false, Bool.not_eq_true]
      constructor
      · intro hwaits c hc
        refine ⟨⟨last, hlastMem⟩, hfresh c hc, fun p hp =>
          ⟨hqueued p hp, ?_, hwaits p hp c hc⟩⟩
        have hp' := hlastMax p hp
        have hc' := hfirstMin c hc
        omega
      · exact fun h p hp c hc => ((h c hc).2.2 p hp).2.2

theorem producersControllsAllConsumers_iff (info : BarrierInfo S) (func : FuncOp)
    (dmaPortNum barrier barrier' : ℕ) (origWaitBarriersMap : ℕ → S) :
    producersControllsAllConsumers (taskQueueTypeMap dmaPortNum func)
        (info.getBarrierProducers barrier) (info.getBarrierConsumers barrier')
        (info.getBarrierConsumers barrier) origWaitBarriersMap = true ↔
      info.LooksControlled func dmaPortNum origWaitBarriersMap barrier barrier' := by
  simp only [producersControllsAllConsumers_eq_true, mem_setDifference, mem_getBarrierProducers,
    mem_getBarrierConsumers, and_imp, LooksControlled]

theorem canBarriersBeMerged_iff (info : BarrierInfo S) (func : FuncOp)
    (dmaPortNum barrierA barrierB : ℕ) (origWaitBarriersMap : ℕ → S) :
    canBarriersBeMerged (taskQueueTypeMap dmaPortNum func) (info.getBarrierProducers barrierA)
        (info.getBarrierConsumers barrierA) (info.getBarrierProducers barrierB)
        (info.getBarrierConsumers barrierB) origWaitBarriersMap = true ↔
      info.LooksControlled func dmaPortNum origWaitBarriersMap barrierA barrierB ∧
        info.LooksControlled func dmaPortNum origWaitBarriersMap barrierB barrierA := by
  rw [← producersControllsAllConsumers_iff, ← producersControllsAllConsumers_iff,
    canBarriersBeMerged]
  split_ifs with hA hB <;> simp_all

/-- A crossing pair in one queue is in the order of the queue. -/
theorem fifo_of_crosses (hAB : info.LooksControlled func dmaPortNum origWaitBarriersMap barrierA
      barrierB)
    (hBA : info.LooksControlled func dmaPortNum origWaitBarriersMap barrierB barrierA)
    (hcross : info.Crosses barrierA barrierB p c)
    (hsame : taskQueueType? func p = taskQueueType? func c) : func.Fifo p c := by
  rcases hcross with ⟨hp, hc, hnew⟩ | ⟨hp, hc, hnew⟩
  · obtain ⟨hqueued, hlt, -⟩ := (hAB c hc hnew).2.2 p hp
    exact hqueued.fifo hsame hlt
  · obtain ⟨hqueued, hlt, -⟩ := (hBA c hc hnew).2.2 p hp
    exact hqueued.fifo hsame hlt

theorem mergeKeepsOrder_of_crossing
    (h : ∀ p c, info.Crosses barrierA barrierB p c → TransGen (info.Step func) p c) :
    info.MergeKeepsOrder func barrierA barrierB := by
  intro p c hp hc
  -- pairs of one barrier are ordered by it
  have hown : ∀ b, info.Updates p b → info.Waits c b → TransGen (info.Step func) p c :=
    fun b hp hc => .single (Or.inl ⟨b, hp, hc⟩)
  rcases hp with hp | hp <;> rcases hc with hc | hc
  · exact hown barrierA hp hc
  · by_cases hboth : info.Waits c barrierA
    · exact hown barrierA hp hboth
    · exact h p c (Or.inl ⟨hp, hc, hboth⟩)
  · by_cases hboth : info.Waits c barrierB
    · exact hown barrierB hp hboth
    · exact h p c (Or.inr ⟨hp, hc, hboth⟩)
  · exact hown barrierB hp hc

/-- The order that the other barriers give is not there. -/
def onlyBarriers (info : BarrierInfo S) (barrierA barrierB : ℕ) : BarrierInfo S :=
  { info with produced := .nothing }
    |>.addProducers barrierA (info.getBarrierProducers barrierA)
    |>.addProducers barrierB (info.getBarrierProducers barrierB)

theorem updates_onlyBarriers (t b : ℕ) : (info.onlyBarriers barrierA barrierB).Updates t b ↔
    info.Updates t b ∧ (b = barrierA ∨ b = barrierB) := by
  have hnone : ¬ ({ info with produced := .nothing } : BarrierInfo S).Updates t b :=
    Incidence.rel_nothing t b
  simp only [onlyBarriers, updates_addProducers, mem_getBarrierProducers, hnone, or_false]
  constructor
  · rintro (⟨h, rfl⟩ | ⟨h, rfl⟩)
    · exact ⟨h, Or.inr rfl⟩
    · exact ⟨h, Or.inl rfl⟩
  · rintro ⟨h, rfl | rfl⟩
    · exact Or.inr ⟨h, rfl⟩
    · exact Or.inl ⟨h, rfl⟩

theorem waits_onlyBarriers (t b : ℕ) : (info.onlyBarriers barrierA barrierB).Waits t b ↔
    info.Waits t b := by
  simp only [onlyBarriers, waits_addProducers]
  exact Iff.rfl

theorem sameToCheck_onlyBarriers (info : BarrierInfo S) (barrierA barrierB : ℕ) :
    SameToCheck info (info.onlyBarriers barrierA barrierB) barrierA barrierB where
  waits := waits_onlyBarriers
  updatesA t := (updates_onlyBarriers t barrierA).trans (and_iff_left (Or.inl rfl))
  updatesB t := (updates_onlyBarriers t barrierB).trans (and_iff_left (Or.inr rfl))

theorem forward_onlyBarriers (h : info.Forward) :
    (info.onlyBarriers barrierA barrierB).Forward := by
  intro b p c hp hc
  exact h b p c ((updates_onlyBarriers p b).mp hp).1 ((waits_onlyBarriers c b).mp hc)

/-- All producers of two barriers that look controlled come before all their consumers. -/
theorem lt_of_looksControlled (h : info.Forward)
    (hcontrolled : info.LooksControlled func dmaPortNum origWaitBarriersMap barrier barrier')
    (hp : info.Updates p barrier) (hc : info.Waits c barrier') : p < c := by
  by_cases hboth : info.Waits c barrier
  · exact h barrier p c hp hboth
  · exact ((hcontrolled c hc hboth).2.2 p hp).2.1

section Path

variable (h : info.Forward)
  (hAB : info.LooksControlled func dmaPortNum origWaitBarriersMap barrierA barrierB)
  (hBA : info.LooksControlled func dmaPortNum origWaitBarriersMap barrierB barrierA)
include h hAB hBA

theorem lt_of_two_barriers (hb : barrier = barrierA ∨ barrier = barrierB)
    (hb' : barrier' = barrierA ∨ barrier' = barrierB) (hp : info.Updates p barrier)
    (hc : info.Waits c barrier') : p < c := by
  rcases hb with rfl | rfl <;> rcases hb' with rfl | rfl
  · exact h _ p c hp hc
  · exact lt_of_looksControlled h hAB hp hc
  · exact lt_of_looksControlled h hBA hp hc
  · exact h _ p c hp hc

/-- Through two barriers alone a path takes at most one barrier edge, since what comes behind it
comes behind all producers of the two barriers. -/
theorem fifo_or_connects_of_onlyBarriers
    (hpath : TransGen ((info.onlyBarriers barrierA barrierB).Step func) p c) :
    func.Fifo p c ∨ ∃ b, (b = barrierA ∨ b = barrierB) ∧ info.Connects func b p c := by
  induction hpath with
  | single hstep =>
    rcases hstep with ⟨b, hup, hwait⟩ | hfifo
    · obtain ⟨hup, hb⟩ := (updates_onlyBarriers _ b).mp hup
      exact Or.inr ⟨b, hb, _, _, Or.inl rfl, hup, (waits_onlyBarriers _ b).mp hwait, Or.inl rfl⟩
    · exact Or.inl hfifo
  | @tail m c _ hstep ih =>
    rcases hstep with ⟨b, hup, hwait⟩ | hfifo
    · obtain ⟨hup, hb⟩ := (updates_onlyBarriers m b).mp hup
      have hwait := (waits_onlyBarriers c b).mp hwait
      rcases ih with hfifo | ⟨b', hb', -, c', -, -, hwait', hc'⟩
      · exact Or.inr ⟨b, hb, m, c, Or.inr hfifo, hup, hwait, Or.inl rfl⟩
      · -- a second barrier edge would start in front of the end of the first one
        have hlt : m < c' := lt_of_two_barriers h hAB hBA hb hb' hup hwait'
        have hle : c' ≤ m := by
          rcases hc' with rfl | hfifo
          · exact le_rfl
          · exact hfifo.1.le
        omega
    · rcases ih with hbefore | ⟨b, hb, hconnects⟩
      · exact Or.inl (fifo_trans hbefore hfifo)
      · exact Or.inr ⟨b, hb, hconnects.tail hfifo⟩

end Path

theorem SameToCheck.looksControlled (h : SameToCheck info info' barrierA barrierB) :
    (info'.LooksControlled func dmaPortNum origWaitBarriersMap barrierA barrierB ↔
      info.LooksControlled func dmaPortNum origWaitBarriersMap barrierA barrierB) ∧
    (info'.LooksControlled func dmaPortNum origWaitBarriersMap barrierB barrierA ↔
      info.LooksControlled func dmaPortNum origWaitBarriersMap barrierB barrierA) := by
  simp only [LooksControlled, h.waits, h.updatesA, h.updatesB, and_self]

theorem SameToCheck.crosses (h : SameToCheck info info' barrierA barrierB) :
    info'.Crosses barrierA barrierB p c ↔ info.Crosses barrierA barrierB p c := by
  simp only [Crosses, h.waits, h.updatesA, h.updatesB]

theorem SameToCheck.connectsCrossing (h : SameToCheck info info' barrierA barrierB) :
    info'.ConnectsCrossing func barrierA barrierB ↔
      info.ConnectsCrossing func barrierA barrierB := by
  simp only [ConnectsCrossing, h.crosses, Connects, h.waits, h.updatesA, h.updatesB]

theorem mergeKeepsOrder_of_connects
    (hAB : info.LooksControlled func dmaPortNum origWaitBarriersMap barrierA barrierB)
    (hBA : info.LooksControlled func dmaPortNum origWaitBarriersMap barrierB barrierA)
    (hconnects : info.ConnectsCrossing func barrierA barrierB) :
    info.MergeKeepsOrder func barrierA barrierB := by
  refine mergeKeepsOrder_of_crossing fun p c hcross => ?_
  by_cases hsame : taskQueueType? func p = taskQueueType? func c
  · exact .single (Or.inr (fifo_of_crosses hAB hBA hcross hsame))
  · rcases hconnects p c hcross hsame with hconnects | hconnects
    · exact hconnects.ordered
    · exact hconnects.ordered

/-- The check is right about two barriers, whatever the others order, if and only if it refuses
them or one of the two connects each crossing pair of tasks in different queues. -/
theorem canBarriersBeMerged_keepsOrder_iff (h : info.Forward) (func : FuncOp)
    (dmaPortNum barrierA barrierB : ℕ) (origWaitBarriersMap : ℕ → S) :
    (∀ info' : BarrierInfo S, info'.Forward → SameToCheck info info' barrierA barrierB →
      canBarriersBeMerged (taskQueueTypeMap dmaPortNum func) (info'.getBarrierProducers barrierA)
          (info'.getBarrierConsumers barrierA) (info'.getBarrierProducers barrierB)
          (info'.getBarrierConsumers barrierB) origWaitBarriersMap = true →
        info'.MergeKeepsOrder func barrierA barrierB) ↔
    (info.LooksControlled func dmaPortNum origWaitBarriersMap barrierA barrierB →
      info.LooksControlled func dmaPortNum origWaitBarriersMap barrierB barrierA →
        info.ConnectsCrossing func barrierA barrierB) := by
  constructor
  · intro hkeeps hAB hBA p c hcross hqueues
    have hsame := sameToCheck_onlyBarriers info barrierA barrierB
    have hmerge := hkeeps _ (forward_onlyBarriers h) hsame ((canBarriersBeMerged_iff ..).mpr
      ⟨hsame.looksControlled.1.mpr hAB, hsame.looksControlled.2.mpr hBA⟩)
    have hordered : TransGen ((info.onlyBarriers barrierA barrierB).Step func) p c := by
      rcases hsame.crosses.mpr hcross with ⟨hp, hc, -⟩ | ⟨hp, hc, -⟩
      · exact hmerge p c (Or.inl hp) (Or.inr hc)
      · exact hmerge p c (Or.inr hp) (Or.inl hc)
    rcases fifo_or_connects_of_onlyBarriers h hAB hBA
      hordered with hfifo | ⟨b, rfl | rfl, hconnects⟩
    · exact absurd (queueType_of_fifo hfifo) hqueues
    · exact Or.inl hconnects
    · exact Or.inr hconnects
  · intro hconnects info' _ hsame hmerge
    obtain ⟨hAB, hBA⟩ := (canBarriersBeMerged_iff ..).mp hmerge
    exact mergeKeepsOrder_of_connects hAB hBA (hsame.connectsCrossing.mpr
      (hconnects (hsame.looksControlled.1.mp hAB) (hsame.looksControlled.2.mp hBA)))

/-- On each of two queues one DMA waits for another one. -/
def twoQueues : FuncOp where
  numBarriers := 2
  tasks := [⟨.dma 0 .DDR none, [], [0]⟩, ⟨.dma 1 .DDR none, [], [1]⟩, ⟨.dma 0 .DDR none, [0], []⟩,
    ⟨.dma 1 .DDR none, [1], []⟩]

/-- The check lets the two barriers be merged, and the first DMA was not ordered before the last. -/
theorem not_mergeKeepsOrder_twoQueues :
    let info : BarrierInfo (SmallSet 16) := buildBarrierMaps twoQueues
    info.Forward ∧
      canBarriersBeMerged (taskQueueTypeMap 2 twoQueues) (info.getBarrierProducers 0)
        (info.getBarrierConsumers 0) (info.getBarrierProducers 1) (info.getBarrierConsumers 1)
        info.getWaitBarriers = true ∧
      ¬ info.MergeKeepsOrder twoQueues 0 1 := by
  intro info
  refine ⟨forward_buildBarrierMaps twoQueues (by decide), by decide, ?_⟩
  intro hkeeps
  have hpath := hkeeps 0 3 (Or.inl (by decide)) (Or.inr (by decide))
  have hrange := inRange_buildBarrierMaps (S := SmallSet 16) twoQueues (by decide)
  -- every step keeps the parity of the index
  have hdrives : ∀ t < 4, ∀ u < 4, ∀ b < 2, info.Updates t b → info.Waits u b → t % 2 = u % 2 := by
    decide
  have hqueue : ∀ t < 4, ∀ u < 4, taskQueueType? twoQueues t = taskQueueType? twoQueues u →
      t % 2 = u % 2 := by decide
  have hstep : ∀ t u, info.Step twoQueues t u → t % 2 = u % 2 := by
    rintro t u (⟨b, ht, hu⟩ | hfifo)
    · have hb := hrange.updates t b ht
      exact hdrives t hb.1 u (hrange.waits u b hu).1 b hb.2 ht hu
    · have hsame := queueType_of_fifo hfifo
      obtain ⟨-, op, op', hop, hop', -⟩ := hfifo
      exact hqueue t (List.getElem?_eq_some_iff.mp hop).1 u (List.getElem?_eq_some_iff.mp hop').1
        hsame
  have hparity : ∀ u, TransGen (info.Step twoQueues) 0 u → 0 = u % 2 := by
    intro u hu
    induction hu with
    | single h => exact hstep 0 _ h
    | tail _ h ih => exact ih.trans (hstep _ _ h)
  exact absurd (hparity 3 hpath) (by decide)

/-- On each of two queues two DMAs update barriers and two wait for them. -/
def crossedQueues : FuncOp where
  numBarriers := 2
  tasks := [⟨.dma 0 .DDR none, [], [1]⟩, ⟨.dma 1 .DDR none, [], [1]⟩, ⟨.dma 0 .DDR none, [], [0]⟩,
    ⟨.dma 1 .DDR none, [], [0]⟩, ⟨.dma 0 .DDR none, [0], []⟩, ⟨.dma 1 .DDR none, [0], []⟩,
    ⟨.dma 0 .DDR none, [1], []⟩, ⟨.dma 1 .DDR none, [1], []⟩]

/-- The first barrier connects what the merge connects across the queues, in both directions. -/
theorem mergeKeepsOrder_crossedQueues :
    let info : BarrierInfo (SmallSet 16) := buildBarrierMaps crossedQueues
    canBarriersBeMerged (taskQueueTypeMap 2 crossedQueues) (info.getBarrierProducers 0)
        (info.getBarrierConsumers 0) (info.getBarrierProducers 1) (info.getBarrierConsumers 1)
        info.getWaitBarriers = true ∧
      info.MergeKeepsOrder crossedQueues 0 1 := by
  intro info
  have hforward : info.Forward := forward_buildBarrierMaps crossedQueues (by decide)
  have hrange := inRange_buildBarrierMaps (S := SmallSet 16) crossedQueues (by decide)
  have hmerge : canBarriersBeMerged (taskQueueTypeMap 2 crossedQueues) (info.getBarrierProducers 0)
      (info.getBarrierConsumers 0) (info.getBarrierProducers 1) (info.getBarrierConsumers 1)
      info.getWaitBarriers = true := by decide +kernel
  have hqueued : ∀ t < 8, ∃ type ∈ taskQueueTypes 2, taskQueueType? crossedQueues t =
      some type := by
    decide
  have hqueue : ∀ t u, t ≤ u → t < 8 → taskQueueType? crossedQueues t =
      taskQueueType? crossedQueues u → u = t ∨ crossedQueues.Fifo t u := by
    intro t u hle ht hsame
    rcases hle.eq_or_lt with rfl | hlt
    · exact Or.inl rfl
    · exact Or.inr (HasQueue.fifo (hqueued t ht) hsame hlt)
  have hproducer : ∀ p < 8, info.Updates p 0 ∨ info.Updates p 1 → p ≤ 2 + p % 2 ∧
      taskQueueType? crossedQueues p = taskQueueType? crossedQueues (2 + p % 2) ∧
      info.Updates (2 + p % 2) 0 := by decide +kernel
  have hconsumer : ∀ c < 8, info.Waits c 0 ∨ info.Waits c 1 → 4 + c % 2 ≤ c ∧
      taskQueueType? crossedQueues (4 + c % 2) = taskQueueType? crossedQueues c ∧
      info.Waits (4 + c % 2) 0 := by decide +kernel
  refine ⟨hmerge, (canBarriersBeMerged_keepsOrder_iff hforward crossedQueues 2 0 1
    info.getWaitBarriers).mpr (fun _ _ p c hcross _ => Or.inl ?_) info hforward
      ⟨fun _ _ => Iff.rfl, fun _ => Iff.rfl, fun _ => Iff.rfl⟩ hmerge⟩
  have hp : info.Updates p 0 ∨ info.Updates p 1 := hcross.imp (·.1) (·.1)
  have hc : info.Waits c 0 ∨ info.Waits c 1 := hcross.symm.imp (·.2.1) (·.2.1)
  have hp8 : p < 8 := hp.elim (fun h => (hrange.updates p 0 h).1) fun h => (hrange.updates p 1 h).1
  have hc8 : c < 8 := hc.elim (fun h => (hrange.waits c 0 h).1) fun h => (hrange.waits c 1 h).1
  obtain ⟨hle, hsame, hup⟩ := hproducer p hp8 hp
  obtain ⟨hle', hsame', hwait⟩ := hconsumer c hc8 hc
  exact ⟨2 + p % 2, 4 + c % 2, hqueue p _ hle hp8 hsame, hup, hwait,
    (hqueue _ c hle' (by omega) hsame').imp_left Eq.symm⟩

end Check

end Vpux.Barrier.BarrierInfo
