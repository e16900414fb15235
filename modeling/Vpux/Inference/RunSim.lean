import Mathlib.Algebra.BigOperators.Group.Finset.Piecewise
import Vpux.Inference.Progress

/-! The simulation ends, and runs every task at its earliest cycle unless tasks wait for each
other in a circle. -/
namespace Vpux.Inference.InferenceExecutionSimulator
open Vpux.Graph

variable {Q : Type} [DecidableEq Q] {sim : InferenceExecutionSimulator Q} {s : SimState Q} {q : Q}

section Rounds

variable (sim) in
/-- The queue is at its end, or its next task waits for one that has not run. -/
def Blocked (s : SimState Q) (q : Q) : Prop :=
  s.head q ∈ sim.tasks → ∃ p ∈ sim.producers (s.head q), ¬ s.Done p

variable (h : sim.Simulated s)
include h

theorem Simulated.released_iff (b : ℕ) :
    (s.virtBarriers b).producerCount = 0 ↔ ∀ p, b ∈ sim.updates p → s.Done p := by
  rw [h.producerCount, Finset.sum_eq_zero_iff]
  constructor
  · intro hzero p hb
    by_contra hp
    have := hzero p (mem_undone.mpr ⟨mem_tasks_of_updates hb, hp⟩)
    exact List.count_eq_zero.mp this hb
  · intro hdone t ht
    exact List.count_eq_zero.mpr fun hb => (mem_undone.mp ht).2 (hdone t hb)

theorem Simulated.releases_le_iff {t : Task Q} (hready : ∀ p ∈ sim.producers t, s.Done p) (x : ℕ) :
    (∀ b ∈ sim.waits t, (s.virtBarriers b).lastCycleUpdate ≤ x) ↔
      sim.latestEnd s.start t ≤ x := by
  simp only [h.lastCycleUpdate, latestEnd, Finset.sup_le_iff, Finset.mem_filter, mem_done]
  constructor
  · intro hle p hp
    obtain ⟨b, hwait, hupdate⟩ := mem_producers.mp hp
    exact hle b hwait p ⟨⟨mem_tasks_of_updates hupdate, hready p hp⟩, hupdate⟩
  · intro hle b hwait p hp
    exact hle p (mem_producers.mpr ⟨b, hwait, hp.2⟩)

/-- A turn runs the next task of the queue, or changes nothing because there is none ready. -/
theorem Simulated.visit (q : Q) (progressed : Bool) :
    ∃ s' progressed', sim.visit (s, progressed) q = .ok (s', progressed') ∧ sim.Simulated s' ∧
      (s' = s ∧ progressed' = progressed ∧ sim.Blocked s q ∨
        progressed' = true ∧ (sim.undone s').card < (sim.undone s).card) := by
  cases htask : sim.taskAt (s.head q) with
  | none =>
    refine ⟨s, progressed, ?_, h, .inl ⟨rfl, rfl, fun hhead => ?_⟩⟩
    · have hnone : (sim.queueTasks q)[(s.queueState q).taskIdx]? = none := htask
      simp only [InferenceExecutionSimulator.visit, hnone]
    · have hlt := mem_tasks_iff.mp hhead
      exact absurd hlt (Nat.not_lt.mpr (List.getElem?_eq_none_iff.mp htask))
  | some task =>
    have hsome : (sim.queueTasks q)[(s.queueState q).taskIdx]? = some task := htask
    by_cases hready : ∀ p ∈ sim.producers (s.head q), s.Done p
    · have hreleased : ∀ b ∈ task.virtBarrierWaits, (s.virtBarriers b).producerCount = 0 := by
        intro b hb
        rw [h.released_iff]
        exact fun p hp => hready p (mem_producers.mpr ⟨b, waits_eq htask ▸ hb, hp⟩)
      obtain ⟨cycleBegin, hwait, hle⟩ :=
        waitFor_released (Q := Q) hreleased (s.queueState q).getCycle
      have hbegin : cycleBegin =
          max (s.queueState q).getCycle (sim.latestEnd s.start (s.head q)) := by
        apply eq_of_forall_ge_iff
        intro x
        rw [hle, max_le_iff, ← h.releases_le_iff hready, waits_eq htask]
      obtain ⟨s', hrun, hs', hran⟩ := h.run htask hready hbegin
      refine ⟨s', true, ?_, hs', .inr ⟨rfl, ?_⟩⟩
      · simp only [InferenceExecutionSimulator.visit, hsome, hwait, hrun, bind, Except.bind]
      · rw [hran.undone_eq]
        exact Finset.card_erase_lt_of_mem
          (mem_undone.mpr ⟨mem_tasks_of_taskAt htask, not_done_head s q⟩)
    · push Not at hready
      obtain ⟨p, hp, hdone⟩ := hready
      obtain ⟨b, hwait, hupdate⟩ := mem_producers.mp hp
      have hcount : (s.virtBarriers b).producerCount ≠ 0 :=
        fun hzero => hdone ((h.released_iff b).mp hzero p hupdate)
      have hblocked := waitFor_blocked (Q := Q) (waits_eq htask ▸ hwait) hcount
      refine ⟨s, progressed, ?_, h, .inl ⟨rfl, rfl, fun _ => ⟨p, hp, hdone⟩⟩⟩
      simp only [InferenceExecutionSimulator.visit, hsome, hblocked, bind, Except.bind]

theorem Simulated.round (order : List Q) (progressed : Bool) :
    ∃ s' progressed', order.foldlM sim.visit (s, progressed) = .ok (s', progressed') ∧
      sim.Simulated s' ∧
      (s' = s ∧ progressed' = progressed ∧ (∀ q ∈ order, sim.Blocked s q) ∨
        progressed' = true ∧ (sim.undone s').card < (sim.undone s).card) := by
  induction order generalizing s progressed with
  | nil => exact ⟨s, progressed, rfl, h, .inl ⟨rfl, rfl, by simp⟩⟩
  | cons q order ih =>
    obtain ⟨s₁, progressed₁, hvisit, hs₁, hcases⟩ := h.visit q progressed
    obtain ⟨s₂, progressed₂, hrest, hs₂, hcases'⟩ := ih hs₁ progressed₁
    refine ⟨s₂, progressed₂, ?_, hs₂, ?_⟩
    · rw [List.foldlM_cons, hvisit]
      exact hrest
    · rcases hcases with ⟨rfl, rfl, hblocked⟩ | ⟨rfl, hlt⟩
      · rcases hcases' with ⟨rfl, rfl, hall⟩ | hprogress
        · exact .inl ⟨rfl, rfl, List.forall_mem_cons.mpr ⟨hblocked, hall⟩⟩
        · exact .inr hprogress
      · rcases hcases' with ⟨rfl, rfl, -⟩ | ⟨rfl, hlt'⟩
        · exact .inr ⟨rfl, hlt⟩
        · exact .inr ⟨rfl, hlt'.trans hlt⟩

theorem Simulated.loop (order : List Q) {fuel : ℕ} (hfuel : (sim.undone s).card < fuel) :
    ∃ s', sim.simLoop order fuel s = some (do order.forM (sim.checkQueue s'); .ok s') ∧
      sim.Simulated s' ∧ ∀ q ∈ order, sim.Blocked s' q := by
  induction fuel generalizing s with
  | zero => simp at hfuel
  | succ fuel ih =>
    obtain ⟨s', progressed, hround, hs', hcases⟩ := h.round order false
    rcases hcases with ⟨rfl, rfl, hblocked⟩ | ⟨rfl, hlt⟩
    · exact ⟨s', by simp only [simLoop, hround], h, hblocked⟩
    · obtain ⟨s'', hloop, hs'', hblocked⟩ := ih hs' (by omega)
      exact ⟨s'', by simp only [simLoop, hround, hloop], hs'', hblocked⟩

end Rounds

section Start

theorem sum_queues (f : TaskConfig → ℕ) (ops : List (Q × TaskConfig)) {keys : Finset Q}
    (hkeys : ∀ op ∈ ops, op.1 ∈ keys) :
    ∑ q ∈ keys, (((ops.filter fun op => op.1 = q).map Prod.snd).map f).sum =
      (ops.map fun op => f op.2).sum := by
  induction ops with
  | nil => simp
  | cons op ops ih =>
    have hsplit : ∀ q ∈ keys,
        ((((op :: ops).filter fun op => op.1 = q).map Prod.snd).map f).sum =
          (if op.1 = q then f op.2 else 0) +
            (((ops.filter fun op => op.1 = q).map Prod.snd).map f).sum := by
      intro q _
      by_cases hq : op.1 = q
      · simp [hq]
      · simp [hq]
    rw [Finset.sum_congr rfl hsplit, Finset.sum_add_distrib, ih fun o ho => hkeys o (by simp [ho]),
      Finset.sum_ite_eq, if_pos (hkeys op (by simp)), List.map_cons, List.sum_cons]

theorem sum_range_getD (l : List TaskConfig) (f : TaskConfig → ℕ) :
    ∑ i ∈ Finset.range l.length, ((l[i]?.map f).getD 0) = (l.map f).sum := by
  induction l with
  | nil => simp
  | cons task l ih => simp [Finset.sum_range_succ', ih, add_comm]

theorem sum_tasks (b : ℕ) : ∑ t ∈ sim.tasks, (sim.updates t).count b =
    (sim.taskOps.map fun op => op.2.virtBarrierUpdates.count b).sum := by
  have hdisjoint : Set.PairwiseDisjoint ((sim.taskOps.map Prod.fst).toFinset : Set Q) fun q =>
      (Finset.range (sim.queueTasks q).length).image fun index => (q, index) := by
    intro q _ q' _ hne
    rw [Function.onFun, Finset.disjoint_left]
    intro t ht ht'
    obtain ⟨i, -, rfl⟩ := Finset.mem_image.mp ht
    obtain ⟨j, -, heq⟩ := Finset.mem_image.mp ht'
    exact hne (congrArg Prod.fst heq).symm
  have hqueue : ∀ q ∈ (sim.taskOps.map Prod.fst).toFinset,
      ∑ t ∈ (Finset.range (sim.queueTasks q).length).image fun index => (q, index),
        (sim.updates t).count b =
      ((sim.queueTasks q).map fun task => task.virtBarrierUpdates.count b).sum := by
    intro q _
    rw [Finset.sum_image fun i _ j _ heq => congrArg Prod.snd heq, ← sum_range_getD]
    refine Finset.sum_congr rfl fun i _ => ?_
    rw [updates, taskAt]
    cases (sim.queueTasks q)[i]? with
    | none => rfl
    | some task => rfl
  rw [tasks, Finset.sum_biUnion hdisjoint, Finset.sum_congr rfl hqueue]
  apply sum_queues
  intro op hop
  exact List.mem_toFinset.mpr (List.mem_map_of_mem hop)

theorem addProducers_eq (updates : List ℕ) (virtBarriers : ℕ → BarrierConfig) (b : ℕ) :
    updates.foldl (fun virtBarriers virtBarrierId =>
        Function.update virtBarriers virtBarrierId (virtBarriers virtBarrierId).addProducer)
      virtBarriers b =
      { virtBarriers b with
        producerCount := (virtBarriers b).producerCount + updates.count b } := by
  induction updates generalizing virtBarriers with
  | nil => rfl
  | cons u updates ih =>
    rw [List.foldl_cons, ih]
    by_cases hb : b = u
    · subst hb
      simp [BarrierConfig.addProducer, Nat.add_comm, Nat.add_left_comm]
    · simp [hb, List.count_cons_of_ne (Ne.symm hb)]

omit [DecidableEq Q] in
theorem parsedBarriers_eq (b : ℕ) : sim.parsedBarriers b =
    ⟨(sim.taskOps.map fun op => op.2.virtBarrierUpdates.count b).sum, 0⟩ := by
  have hfold : ∀ (ops : List (Q × TaskConfig)) (virtBarriers : ℕ → BarrierConfig),
      ops.foldl (fun virtBarriers op => op.2.virtBarrierUpdates.foldl
        (fun virtBarriers virtBarrierId =>
          Function.update virtBarriers virtBarrierId (virtBarriers virtBarrierId).addProducer)
        virtBarriers) virtBarriers b =
      { virtBarriers b with
        producerCount := (virtBarriers b).producerCount +
          (ops.map fun op => op.2.virtBarrierUpdates.count b).sum } := by
    intro ops
    induction ops with
    | nil => exact fun _ => rfl
    | cons op ops ih =>
      intro virtBarriers
      rw [List.foldl_cons, ih, addProducers_eq]
      simp [Nat.add_assoc]
  rw [parsedBarriers, hfold]
  simp

theorem simulated_initialState : sim.Simulated sim.initialState := by
  have hnone : ∀ t, ¬ sim.initialState.Done t := fun t => Nat.not_lt_zero t.2
  constructor
  case taskIdx_le => exact fun q => Nat.zero_le _
  case started => exact fun t ht => absurd ht (hnone t)
  case cycle => exact fun q => rfl
  case producerCount =>
    intro b
    have hall : sim.undone sim.initialState = sim.tasks :=
      Finset.filter_true_of_mem fun t _ => hnone t
    rw [hall, sum_tasks]
    exact congrArg BarrierConfig.producerCount (parsedBarriers_eq b)
  case lastCycleUpdate =>
    intro b
    have hall : sim.done sim.initialState = ∅ :=
      Finset.filter_false_of_mem fun t _ => hnone t
    rw [hall]
    exact congrArg BarrierConfig.lastCycleUpdate (parsedBarriers_eq b)
  case closed => exact fun p t _ ht => absurd ht (hnone t)
  case earliest => exact fun t _ ht => absurd ht (hnone t)
  case ranked => exact ⟨fun _ => 0, fun p t _ ht => absurd ht (hnone t)⟩

end Start

section Outcome

variable (order : sim.QueueOrder)

theorem QueueOrder.mem_of_mem_tasks {t : Task Q} (ht : t ∈ sim.tasks) : t.1 ∈ order.queueTypes := by
  obtain ⟨q, hq, ht⟩ := Finset.mem_biUnion.mp ht
  obtain ⟨i, -, rfl⟩ := Finset.mem_image.mp ht
  obtain ⟨op, hop, rfl⟩ := List.mem_map.mp (List.mem_toFinset.mp hq)
  exact (order.mem_iff _).mpr ⟨op, hop, rfl⟩

/-- When nothing is ready any more, tasks are left exactly when some wait in a circle. -/
theorem Simulated.acyclic_iff (h : sim.Simulated s)
    (hblocked : ∀ q ∈ order.queueTypes, sim.Blocked s q) :
    Acyclic sim.Precedes ↔ ∀ t ∈ sim.tasks, s.Done t := by
  constructor
  · intro hacyclic t ht
    by_contra hdone
    have hundone : t ∈ sim.undone s := mem_undone.mpr ⟨ht, hdone⟩
    obtain ⟨m, hm, hsource⟩ := hacyclic.exists_source ⟨t, hundone⟩
    obtain ⟨hmt, hmdone⟩ := mem_undone.mp hm
    have hle : (s.queueState m.1).taskIdx ≤ m.2 := Nat.not_lt.mp hmdone
    have hhead : s.head m.1 ∈ sim.tasks :=
      mem_tasks_iff.mpr (hle.trans_lt (mem_tasks_iff.mp hmt))
    rcases Nat.lt_or_eq_of_le hle with hlt | heq
    · exact hsource _ (mem_undone.mpr ⟨hhead, not_done_head s m.1⟩) (.inl ⟨rfl, hlt, hmt⟩)
    · have hm' : s.head m.1 = m := Prod.ext rfl heq
      obtain ⟨p, hp, hpdone⟩ := hblocked m.1 (order.mem_of_mem_tasks hmt) hhead
      rw [hm'] at hp
      have hprecedes := precedes_of_producer hp
      exact hsource p (mem_undone.mpr ⟨hprecedes.mem_left, hpdone⟩) hprecedes
  · intro hall
    obtain ⟨rank, hrank⟩ := h.ranked
    have hranked : Ranked rank sim.Precedes :=
      fun p t hp => hrank p t hp (hall t hp.mem_right)
    exact hranked.irrefl

theorem Simulated.done_iff (h : sim.Simulated s) :
    (∀ t ∈ sim.tasks, s.Done t) ↔
      ∀ q ∈ order.queueTypes, (s.queueState q).taskIdx = (sim.queueTasks q).length := by
  constructor
  · intro hall q _
    refine Nat.le_antisymm (h.taskIdx_le q) (Nat.not_lt.mp fun hlt => ?_)
    exact not_done_head s q (hall _ (mem_tasks_iff.mpr hlt))
  · intro hidx t ht
    rw [SimState.Done, hidx t.1 (order.mem_of_mem_tasks ht)]
    exact mem_tasks_iff.mp ht

theorem forM_checkQueue_ok {queues : List Q}
    (h : ∀ q ∈ queues, (s.queueState q).taskIdx = (sim.queueTasks q).length) :
    queues.forM (sim.checkQueue s) = .ok () := by
  induction queues with
  | nil => rfl
  | cons q queues ih =>
    have hq : sim.checkQueue s q = .ok () := by simp [checkQueue, h q (by simp)]
    change (sim.checkQueue s q >>= fun _ => queues.forM (sim.checkQueue s)) = _
    rw [hq]
    exact ih fun q' hq' => h q' (by simp [hq'])

theorem forM_checkQueue_error {queues : List Q} {q : Q} (hq : q ∈ queues)
    (hne : (s.queueState q).taskIdx ≠ (sim.queueTasks q).length) :
    ∃ q', queues.forM (sim.checkQueue s) = .error (.notAllProcessed q') := by
  induction queues with
  | nil => simp at hq
  | cons q' queues ih =>
    by_cases hq' : (s.queueState q').taskIdx = (sim.queueTasks q').length
    · have hrest : q ∈ queues := by
        rcases List.mem_cons.mp hq with rfl | hrest
        · exact absurd hq' hne
        · exact hrest
      obtain ⟨q'', herror⟩ := ih hrest
      have hok : sim.checkQueue s q' = .ok () := by simp [checkQueue, hq']
      refine ⟨q'', ?_⟩
      change (sim.checkQueue s q' >>= fun _ => queues.forM (sim.checkQueue s)) = _
      rw [hok]
      exact herror
    · refine ⟨q', ?_⟩
      have hstop : sim.checkQueue s q' = .error (.notAllProcessed q') := by
        simp [checkQueue, hq']
      change (sim.checkQueue s q' >>= fun _ => queues.forM (sim.checkQueue s)) = _
      rw [hstop]
      rfl

variable (sim) in
/-- The queues in the order of their first tasks. -/
def programOrder : sim.QueueOrder where
  queueTypes := (sim.taskOps.map Prod.fst).dedup
  nodup := List.nodup_dedup _
  mem_iff queueType := by simp

theorem Simulated.earliest_start (h : sim.Simulated s) (hall : ∀ t ∈ sim.tasks, s.Done t) :
    sim.Earliest s.start :=
  fun t ht => h.earliest t ht (hall t ht)

variable (sim) in
theorem runSim_simulated {fuel : ℕ} (hfuel : sim.tasks.card < fuel) :
    ∃ s, sim.runSim order fuel = some (do order.queueTypes.forM (sim.checkQueue s); .ok s) ∧
      sim.Simulated s ∧ ∀ q ∈ order.queueTypes, sim.Blocked s q := by
  have hcard : (sim.undone sim.initialState).card ≤ sim.tasks.card :=
    Finset.card_le_card (Finset.filter_subset _ _)
  exact simulated_initialState.loop order.queueTypes (hcard.trans_lt hfuel)

theorem runSim_ok {fuel : ℕ} (hfuel : sim.tasks.card < fuel)
    (hacyclic : Acyclic sim.Precedes) :
    ∃ s, sim.runSim order fuel = some (.ok s) ∧ sim.Earliest s.start ∧
      ∀ t ∈ sim.tasks, s.cycleStart t.1 t.2 = some (s.start t) := by
  obtain ⟨s, hrun, hs, hblocked⟩ := sim.runSim_simulated order hfuel
  have hall := (hs.acyclic_iff order hblocked).mp hacyclic
  have hcheck := forM_checkQueue_ok ((hs.done_iff order).mp hall)
  refine ⟨s, ?_, hs.earliest_start hall, fun t ht => hs.started t (hall t ht)⟩
  rw [hrun, hcheck]
  rfl

theorem runSim_error {fuel : ℕ} (hfuel : sim.tasks.card < fuel)
    (hcyclic : ¬ Acyclic sim.Precedes) :
    ∃ queueType, sim.runSim order fuel = some (.error (.notAllProcessed queueType)) := by
  obtain ⟨s, hrun, hs, hblocked⟩ := sim.runSim_simulated order hfuel
  rw [hs.acyclic_iff order hblocked, hs.done_iff order] at hcyclic
  push Not at hcyclic
  obtain ⟨q, hq, hne⟩ := hcyclic
  obtain ⟨queueType, herror⟩ := forM_checkQueue_error hq hne
  refine ⟨queueType, ?_⟩
  rw [hrun, herror]
  rfl

/-- With one round for each task and one more the simulation ends. It succeeds unless tasks
wait in a circle, and then finds the one earliest schedule, for every order of the queues. -/
theorem runSim_earliest (sim : InferenceExecutionSimulator Q) :
    (Acyclic sim.Precedes → ∃ start : Task Q → ℕ, sim.Earliest start ∧
      (∀ start', sim.Earliest start' → ∀ t ∈ sim.tasks, start' t = start t) ∧
      ∀ (order : sim.QueueOrder) (fuel : ℕ), sim.tasks.card < fuel →
        ∃ s, sim.runSim order fuel = some (.ok s) ∧
          ∀ t ∈ sim.tasks, s.cycleStart t.1 t.2 = some (start t)) ∧
    (¬ Acyclic sim.Precedes → ∀ (order : sim.QueueOrder) (fuel : ℕ), sim.tasks.card < fuel →
      ∃ queueType, sim.runSim order fuel = some (.error (.notAllProcessed queueType))) := by
  constructor
  · intro hacyclic
    obtain ⟨s, -, hearliest, -⟩ :=
      runSim_ok sim.programOrder (Nat.lt_succ_self sim.tasks.card) hacyclic
    refine ⟨s.start, hearliest, fun start' h' => h'.unique hacyclic hearliest, ?_⟩
    intro order fuel hfuel
    obtain ⟨s', hrun, hearliest', hstarted⟩ := runSim_ok order hfuel hacyclic
    refine ⟨s', hrun, fun t ht => ?_⟩
    rw [hstarted t ht, hearliest'.unique hacyclic hearliest t ht]
  · intro hcyclic order fuel hfuel
    exact runSim_error order hfuel hcyclic

/-- A task that waits for itself. -/
def selfWaiting : InferenceExecutionSimulator Unit where
  taskOps := [((), ⟨[0], [0], Nat.succPNat 0⟩)]
  numOfExecutors _ := Nat.succPNat 0

/-- A DMA waits for the first of two tasks of a queue with two executors. -/
def waitingDMA : InferenceExecutionSimulator Bool where
  taskOps := [(false, ⟨[], [0], 10⟩), (false, ⟨[], [], 1⟩), (true, ⟨[0], [], 3⟩)]
  numOfExecutors queueType := Nat.succPNat (if queueType then 0 else 1)

/-- The two tasks start together and the DMA after the first of them, for every order of the
queues. The simulation of the task that waits for itself fails. -/
theorem runSim_earliest_waitingDMA :
    (∀ (order : waitingDMA.QueueOrder) (fuel : ℕ), 3 < fuel →
      ∃ s, waitingDMA.runSim order fuel = some (.ok s) ∧ s.cycleStart false 0 = some 0 ∧
        s.cycleStart false 1 = some 0 ∧ s.cycleStart true 0 = some 10) ∧
    ∃ queueType, selfWaiting.runSim selfWaiting.programOrder 2 =
      some (.error (.notAllProcessed queueType)) := by
  have hrun : ∃ s, waitingDMA.runSim waitingDMA.programOrder 4 = some (.ok s) ∧
      s.cycleStart false 0 = some 0 ∧ s.cycleStart false 1 = some 0 ∧
      s.cycleStart true 0 = some 10 := ⟨_, rfl, rfl, rfl, rfl⟩
  have hself : selfWaiting.Precedes ((), 0) ((), 0) := .inr ⟨0, by decide, by decide⟩
  obtain ⟨s, hrun, hstarts⟩ := hrun
  constructor
  · have hacyclic : Acyclic waitingDMA.Precedes := by
      by_contra hcyclic
      obtain ⟨queueType, herror⟩ :=
        (runSim_earliest waitingDMA).2 hcyclic waitingDMA.programOrder 4 (by decide)
      rw [hrun] at herror
      cases herror
    obtain ⟨start, -, -, hruns⟩ := (runSim_earliest waitingDMA).1 hacyclic
    obtain ⟨s', hrun', hstarts'⟩ := hruns waitingDMA.programOrder 4 (by decide)
    rw [hrun] at hrun'
    cases hrun'
    intro order fuel hfuel
    obtain ⟨s'', hrun'', hstarts''⟩ := hruns order fuel hfuel
    have hsame : ∀ t ∈ waitingDMA.tasks, s''.cycleStart t.1 t.2 = s.cycleStart t.1 t.2 :=
      fun t ht => (hstarts'' t ht).trans (hstarts' t ht).symm
    refine ⟨s'', hrun'', ?_⟩
    rw [hsame (false, 0) (by decide), hsame (false, 1) (by decide), hsame (true, 0) (by decide)]
    exact hstarts
  · exact (runSim_earliest selfWaiting).2 (fun h => h _ (.single hself)) _ 2 (by decide)

end Outcome

end Vpux.Inference.InferenceExecutionSimulator
