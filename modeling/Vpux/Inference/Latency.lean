import Vpux.Inference.CostChains

/-! The latency of an inference is the end of the last task of some queue. With several executors
an earlier task of the queue can end later. -/
namespace Vpux.Inference.InferenceExecutionSimulator
open Vpux.Graph

variable {Q : Type} [DecidableEq Q] {sim : InferenceExecutionSimulator Q} {s : SimState Q}
  {order : sim.QueueOrder}

section Success

theorem simLoop_mono {order : List Q} {fuel : ℕ} {r : Except (SimError Q) (SimState Q)}
    (h : sim.simLoop order fuel s = some r) (k : ℕ) : sim.simLoop order (fuel + k) s = some r := by
  induction fuel generalizing s with
  | zero => simp [simLoop] at h
  | succ fuel ih =>
    rw [Nat.add_right_comm]
    unfold simLoop at h ⊢
    split at h
    · exact h
    · exact ih h
    · exact h

theorem simulated_of_runSim {fuel : ℕ} (h : sim.runSim order fuel = some (.ok s)) :
    sim.Simulated s ∧ ∀ t ∈ sim.tasks, s.Done t := by
  have hmore : sim.runSim order (fuel + (sim.tasks.card + 1)) = some (.ok s) := simLoop_mono h _
  obtain ⟨s', hrun, hs', -⟩ :=
    sim.runSim_simulated order (show sim.tasks.card < fuel + (sim.tasks.card + 1) by omega)
  have hok := Option.some.inj (hrun.symm.trans hmore)
  have hindex : ∀ q ∈ order.queueTypes, (s'.queueState q).taskIdx = (sim.queueTasks q).length := by
    intro q hq
    by_contra hne
    obtain ⟨q', herror⟩ := forM_checkQueue_error hq hne
    rw [herror] at hok
    cases hok
  rw [forM_checkQueue_ok hindex] at hok
  obtain rfl : s' = s := Except.ok.inj hok
  exact ⟨hs', (hs'.done_iff order).mpr hindex⟩

end Success

section Latency

variable (sim) in
def cycleEnd (s : SimState Q) (t : Task Q) : ℕ := s.start t + sim.cost t

variable (sim) in
def lastTask (queueType : Q) : Task Q := (queueType, (sim.queueTasks queueType).length - 1)

/-- The queues of the map have tasks, so that there is a last one. -/
def getInferenceLatencyInCycles (order : sim.QueueOrder) (s : SimState Q) : ℕ :=
  order.queueTypes.foldl (fun latency queueType =>
    let lastTaskCycleEnd := sim.cycleEnd s (sim.lastTask queueType)
    if lastTaskCycleEnd > latency then lastTaskCycleEnd else latency) 0

variable (sim) in
/-- The end of the whole inference. -/
def inferenceEnd (s : SimState Q) : ℕ := sim.tasks.sup (sim.cycleEnd s)

theorem foldl_later_le_iff {α : Type} (f : α → ℕ) (l : List α) (latency x : ℕ) :
    l.foldl (fun latency a => if f a > latency then f a else latency) latency ≤ x ↔
      latency ≤ x ∧ ∀ a ∈ l, f a ≤ x := by
  induction l generalizing latency with
  | nil => simp
  | cons a l ih =>
    rw [List.foldl_cons, ih, List.forall_mem_cons, ← and_assoc]
    apply and_congr_left'
    split <;> omega

theorem getInferenceLatencyInCycles_le_iff {x : ℕ} :
    getInferenceLatencyInCycles order s ≤ x ↔
      ∀ q ∈ order.queueTypes, sim.cycleEnd s (sim.lastTask q) ≤ x := by
  have h := foldl_later_le_iff (fun q => sim.cycleEnd s (sim.lastTask q)) order.queueTypes 0 x
  rw [getInferenceLatencyInCycles, h]
  exact and_iff_right (Nat.zero_le x)

theorem lastTask_mem {q : Q} (hq : q ∈ order.queueTypes) : sim.lastTask q ∈ sim.tasks := by
  obtain ⟨op, hop, rfl⟩ := (order.mem_iff q).mp hq
  have hpos : 0 < (sim.queueTasks op.1).length := by
    apply List.length_pos_of_mem (a := op.2)
    exact List.mem_map.mpr ⟨op, List.mem_filter.mpr ⟨hop, by simp⟩, rfl⟩
  rw [mem_tasks_iff]
  exact Nat.sub_one_lt_of_lt hpos

theorem Earliest.cycleEnd_le_succ (h : sim.Earliest s.start) {q : Q}
    (hone : sim.numOfExecutors q = 1) {i : ℕ} (hi : (q, i + 1) ∈ sim.tasks) :
    sim.cycleEnd s (q, i) ≤ sim.cycleEnd s (q, i + 1) := by
  have hfree : ∀ j, ∃ cycle, sim.freeCycles s.start q j = [cycle] := by
    intro j
    induction j with
    | zero => exact ⟨0, by simp [freeCycles, hone]⟩
    | succ j ih =>
      obtain ⟨cycle, hcycle⟩ := ih
      exact ⟨_, by rw [freeCycles, hcycle]; simp [progressCycles]; rfl⟩
  obtain ⟨cycle, hcycle⟩ := hfree i
  have hnext : sim.earliestFree s.start (q, i + 1) = sim.cycleEnd s (q, i) := by
    simp [earliestFree, freeCycles, hcycle, progressCycles, cycleEnd]
  have hstart := h _ hi
  rw [hnext] at hstart
  have hle := le_max_left (sim.cycleEnd s (q, i)) (sim.latestEnd s.start (q, i + 1))
  rw [← hstart] at hle
  exact hle.trans (Nat.le_add_right _ _)

theorem Earliest.cycleEnd_le_lastTask (h : sim.Earliest s.start) {t : Task Q}
    (hone : sim.numOfExecutors t.1 = 1) (ht : t ∈ sim.tasks) :
    sim.cycleEnd s t ≤ sim.cycleEnd s (sim.lastTask t.1) := by
  have hlast := mem_tasks_iff.mp ht
  have hsteps : ∀ k, t.2 + k < (sim.queueTasks t.1).length →
      sim.cycleEnd s t ≤ sim.cycleEnd s (t.1, t.2 + k) := by
    intro k
    induction k with
    | zero => exact fun _ => le_rfl
    | succ k ih =>
      intro hk
      exact (ih (by omega)).trans (h.cycleEnd_le_succ hone (mem_tasks_iff.mpr hk))
  have hall := hsteps ((sim.queueTasks t.1).length - 1 - t.2) (by omega)
  rwa [show t.2 + ((sim.queueTasks t.1).length - 1 - t.2) = (sim.queueTasks t.1).length - 1 by
    omega] at hall

variable (sim) in
/-- No task of several executors that is followed by another one is held up by higher costs than
the last tasks of all queues are. -/
def CostsReachLast : Prop :=
  ∀ t ∈ sim.tasks, 1 < (sim.numOfExecutors t.1 : ℕ) → t ≠ sim.lastTask t.1 →
    ∀ x, sim.Takes x t → ∃ op ∈ sim.taskOps, sim.Takes x (sim.lastTask op.1)

variable (sim) in
/-- Every task of several executors holds up the last task of some queue. -/
def LastFollows : Prop :=
  ∀ t ∈ sim.tasks, 1 < (sim.numOfExecutors t.1 : ℕ) → t ≠ sim.lastTask t.1 →
    ∃ op ∈ sim.taskOps, sim.Follows t (sim.lastTask op.1)

theorem le_getInferenceLatencyInCycles_iff {x : ℕ} (hx : 0 < x) :
    x ≤ getInferenceLatencyInCycles order s ↔
      ∃ q ∈ order.queueTypes, x ≤ sim.cycleEnd s (sim.lastTask q) := by
  have hle := @getInferenceLatencyInCycles_le_iff _ _ _ s order (x - 1)
  constructor
  · intro hlatency
    by_contra hnone
    push Not at hnone
    have hless := hle.mpr fun q hq => Nat.le_sub_one_of_lt (hnone q hq)
    omega
  · rintro ⟨q, hq, hend⟩
    by_contra hlatency
    have hless := hle.mp (by omega) q hq
    omega

theorem acyclic_of_runSim {fuel : ℕ} (h : sim.runSim order fuel = some (.ok s)) :
    Acyclic sim.Precedes := by
  obtain ⟨hs, hdone⟩ := simulated_of_runSim h
  obtain ⟨rank, hrank⟩ := hs.ranked
  have hranked : Ranked rank sim.Precedes := fun p t hp => hrank p t hp (hdone t hp.mem_right)
  exact hranked.irrefl

/-- The costs that hold up a task of a successful run say when it ends. -/
theorem takes_iff_of_runSim {fuel : ℕ} (h : sim.runSim order fuel = some (.ok s)) {t : Task Q}
    (ht : t ∈ sim.tasks) {x : ℕ} : sim.Takes x t ↔ x ≤ sim.cycleEnd s t := by
  obtain ⟨hs, hdone⟩ := simulated_of_runSim h
  exact takes_iff (acyclic_of_runSim h) (hs.earliest_start hdone) ht

theorem latency_eq_iff_costsReachLast {fuel : ℕ} (h : sim.runSim order fuel = some (.ok s)) :
    getInferenceLatencyInCycles order s = sim.inferenceEnd s ↔ sim.CostsReachLast := by
  obtain ⟨hs, hdone⟩ := simulated_of_runSim h
  have hearliest := hs.earliest_start hdone
  constructor
  · intro heq t ht _ _ x htakes
    have hend := (takes_iff_of_runSim h ht).mp htakes
    have hown := order.mem_of_mem_tasks ht
    rcases Nat.eq_zero_or_pos x with rfl | hx
    · obtain ⟨op, hop, hq⟩ := (order.mem_iff t.1).mp hown
      exact ⟨op, hop, hq ▸ .alone (lastTask_mem hown) (Nat.zero_le _)⟩
    · have hall : sim.cycleEnd s t ≤ sim.inferenceEnd s := Finset.le_sup ht
      obtain ⟨q, hq, hlast⟩ :=
        (le_getInferenceLatencyInCycles_iff hx).mp (hend.trans (hall.trans heq.ge))
      obtain ⟨op, hop, rfl⟩ := (order.mem_iff q).mp hq
      exact ⟨op, hop, (takes_iff_of_runSim h (lastTask_mem hq)).mpr hlast⟩
  · intro hcosts
    apply le_antisymm
    · rw [getInferenceLatencyInCycles_le_iff]
      exact fun q hq => Finset.le_sup (lastTask_mem hq)
    · apply Finset.sup_le
      intro t ht
      have hown := order.mem_of_mem_tasks ht
      have hqueues := (@getInferenceLatencyInCycles_le_iff _ _ _ s order _).mp le_rfl
      by_cases hone : sim.numOfExecutors t.1 = 1
      · exact (hearliest.cycleEnd_le_lastTask hone ht).trans (hqueues _ hown)
      · by_cases hisLast : t = sim.lastTask t.1
        · rw [hisLast]
          exact hqueues _ hown
        · have hmany : 1 < (sim.numOfExecutors t.1 : ℕ) :=
            PNat.coe_lt_coe _ _ |>.mpr (lt_of_le_of_ne one_le (Ne.symm hone))
          obtain ⟨op, hop, htakes⟩ := hcosts t ht hmany hisLast _
            ((takes_iff_of_runSim h ht).mpr le_rfl)
          have hq := (order.mem_iff op.1).mpr ⟨op, hop, rfl⟩
          exact ((takes_iff_of_runSim h (lastTask_mem hq)).mp htakes).trans (hqueues _ hq)

section Costs

variable {costs : Task Q → ℕ+}

@[simp] theorem lastTask_withCosts (q : Q) : (sim.withCosts costs).lastTask q = sim.lastTask q := by
  rw [lastTask, lastTask, length_queueTasks_withCosts]

theorem exists_taskOps_withCosts {p : Q → Prop} :
    (∃ op ∈ (sim.withCosts costs).taskOps, p op.1) ↔ ∃ op ∈ sim.taskOps, p op.1 := by
  have hqueues := map_fst_recost costs (fun _ => 0) sim.taskOps
  constructor
  · rintro ⟨op, hop, hp⟩
    obtain ⟨op', hop', heq⟩ := List.mem_map.mp (hqueues ▸ List.mem_map_of_mem (f := Prod.fst) hop)
    exact ⟨op', hop', heq ▸ hp⟩
  · rintro ⟨op, hop, hp⟩
    obtain ⟨op', hop', heq⟩ :=
      List.mem_map.mp (hqueues.symm ▸ List.mem_map_of_mem (f := Prod.fst) hop)
    exact ⟨op', hop', heq ▸ hp⟩

theorem LastFollows.costsReachLast (h : sim.LastFollows) :
    (sim.withCosts costs).CostsReachLast := by
  intro t ht hmany hne x htakes
  rw [tasks_withCosts] at ht
  rw [lastTask_withCosts] at hne
  obtain ⟨op, hop, hfollows⟩ := h t ht hmany hne
  refine (exists_taskOps_withCosts (p := fun q =>
    (sim.withCosts costs).Takes x ((sim.withCosts costs).lastTask q))).mpr ⟨op, hop, ?_⟩
  rw [lastTask_withCosts]
  exact (follows_withCosts.mpr hfollows).takes htakes

/-- A task that holds up no last task outlasts them all if its cost is high enough. -/
theorem lastFollows_of_costsReachLast (hacyclic : Acyclic sim.Precedes)
    (h : ∀ costs, (sim.withCosts costs).CostsReachLast) : sim.LastFollows := by
  intro t ht hmany hne
  by_contra hnone
  push Not at hnone
  obtain ⟨s, -, hs, hblocked⟩ := sim.runSim_simulated sim.programOrder (Nat.lt_succ_self _)
  have hdone := (hs.acyclic_iff sim.programOrder hblocked).mp hacyclic
  obtain ⟨rank, hrank⟩ := hs.ranked
  have hranked : ∀ p u, sim.Precedes p u → rank p < rank u :=
    fun p u hp => hrank p u hp (hdone u hp.mem_right)
  let high := Nat.succPNat (sim.tasks.sup rank + 1)
  let costs : Task Q → ℕ+ := fun u => if u = t then high else 1
  have hcost : (sim.withCosts costs).cost t = high := by
    rw [cost_withCosts ht]
    exact congrArg _ (if_pos rfl)
  have htakes : (sim.withCosts costs).Takes high t := .alone (by simpa using ht) hcost.ge
  obtain ⟨op, hop, hlast⟩ := (exists_taskOps_withCosts (p := fun q =>
    (sim.withCosts costs).Takes high ((sim.withCosts costs).lastTask q))).mp
      (h costs t (by simpa using ht) hmany (by simpa using hne) high htakes)
  rw [lastTask_withCosts] at hlast
  have hbound : (high : ℕ) ≤ rank (sim.lastTask op.1) + 1 := by
    refine hlast.le_rank (t := t) ?_ (fun u hu hut => ?_) (by simpa using ht) ?_
    · rw [precedes_withCosts]
      exact hranked
    · rw [cost_withCosts (by simpa using hu)]
      exact congrArg _ (if_neg hut)
    · rw [follows_withCosts]
      exact hnone op hop
  have hmem : sim.lastTask op.1 ∈ sim.tasks := by simpa using hlast.mem_tasks
  have hrankle : rank (sim.lastTask op.1) ≤ sim.tasks.sup rank := Finset.le_sup hmem
  have hhigh : (high : ℕ) = sim.tasks.sup rank + 2 := rfl
  omega

end Costs

/-- The latency of a successful run is its end exactly when the costs that hold up tasks of several
executors also hold up a last task; that it is its end whatever the tasks cost, exactly when these
tasks hold up a last task. -/
theorem getInferenceLatencyInCycles_eq_iff (sim : InferenceExecutionSimulator Q) :
    (∀ (order : sim.QueueOrder) (fuel : ℕ) (s : SimState Q),
      sim.runSim order fuel = some (.ok s) →
        (getInferenceLatencyInCycles order s = sim.inferenceEnd s ↔ sim.CostsReachLast)) ∧
    (Acyclic sim.Precedes →
      ((∀ (costs : Task Q → ℕ+) (order : (sim.withCosts costs).QueueOrder) (fuel : ℕ)
          (s : SimState Q), (sim.withCosts costs).runSim order fuel = some (.ok s) →
            getInferenceLatencyInCycles order s = (sim.withCosts costs).inferenceEnd s) ↔
        sim.LastFollows)) := by
  refine ⟨fun order fuel s h => latency_eq_iff_costsReachLast h, fun hacyclic => ⟨fun h => ?_, ?_⟩⟩
  · refine lastFollows_of_costsReachLast hacyclic fun costs => ?_
    have hacyclic' : Acyclic (sim.withCosts costs).Precedes := by rwa [precedes_withCosts]
    obtain ⟨s, hrun, -⟩ :=
      runSim_ok (sim.withCosts costs).programOrder (Nat.lt_succ_self _) hacyclic'
    exact (latency_eq_iff_costsReachLast hrun).mp (h costs _ _ s hrun)
  · intro hfollows costs order fuel s hrun
    exact (latency_eq_iff_costsReachLast hrun).mpr hfollows.costsReachLast

/-- Two tasks of one queue of executors. -/
def twoTasks (first second : ℕ+) : InferenceExecutionSimulator Unit where
  taskOps := [((), ⟨[], [], first⟩), ((), ⟨[], [], second⟩)]
  numOfExecutors _ := Nat.succPNat 1

theorem costsReachLast_shortFirst : (twoTasks 1 10).CostsReachLast := by
  intro t ht _ hne x htakes
  have hfirst : ∀ t ∈ (twoTasks 1 10).tasks, t ≠ (twoTasks 1 10).lastTask t.1 → t = ((), 0) := by
    decide
  obtain rfl := hfirst t ht hne
  have hx : x ≤ 1 := by
    cases htakes with
    | alone _ hx => exact hx
    | barrier hp =>
      have hnone : (twoTasks 1 10).producers ((), 0) = ∅ := by decide
      rw [hnone] at hp
      exact absurd hp (Finset.notMem_empty _)
    | executors _ busy hcard hbefore =>
      obtain ⟨i, hi⟩ := Finset.card_pos.mp (hcard ▸ ((twoTasks 1 10).numOfExecutors ()).pos)
      exact absurd (hbefore i hi) (Nat.not_lt_zero i)
  exact ⟨((), ⟨[], [], 10⟩), by decide, .alone (by decide) (hx.trans (by decide))⟩

theorem lastFollows_waitingDMA : waitingDMA.LastFollows := by
  have hfirst : ∀ t ∈ waitingDMA.tasks, 1 < (waitingDMA.numOfExecutors t.1 : ℕ) →
      t ≠ waitingDMA.lastTask t.1 → t = (false, 0) := by decide
  intro t ht hmany hne
  obtain rfl := hfirst t ht hmany hne
  exact ⟨(true, ⟨[0], [], 3⟩), by decide, .barrier (by decide) (.self ht)⟩

theorem latency_shortFirst :
    (∃ s, (twoTasks 1 10).runSim (twoTasks 1 10).programOrder 3 = some (.ok s) ∧
      getInferenceLatencyInCycles (twoTasks 1 10).programOrder s =
        (twoTasks 1 10).inferenceEnd s) ∧
    ∀ (costs : Task Bool → ℕ+) (order : (waitingDMA.withCosts costs).QueueOrder) (fuel : ℕ)
      (s : SimState Bool), (waitingDMA.withCosts costs).runSim order fuel = some (.ok s) →
        getInferenceLatencyInCycles order s = (waitingDMA.withCosts costs).inferenceEnd s := by
  have hrun : ∃ s, waitingDMA.runSim waitingDMA.programOrder 4 = some (.ok s) := ⟨_, rfl⟩
  obtain ⟨s, hrun⟩ := hrun
  constructor
  · exact ⟨_, rfl, ((getInferenceLatencyInCycles_eq_iff (twoTasks 1 10)).1 _ 3 _ rfl).mpr
      costsReachLast_shortFirst⟩
  · exact ((getInferenceLatencyInCycles_eq_iff waitingDMA).2 (acyclic_of_runSim hrun)).mpr
      lastFollows_waitingDMA

/-- The long task is not the last one of its queue. -/
theorem not_latency_longFirst :
    ∃ s, (twoTasks 10 1).runSim (twoTasks 10 1).programOrder 3 = some (.ok s) ∧
      getInferenceLatencyInCycles (twoTasks 10 1).programOrder s = 1 ∧
      (twoTasks 10 1).inferenceEnd s = 10 :=
  ⟨_, rfl, by decide +kernel, by decide +kernel⟩

end Latency

end Vpux.Inference.InferenceExecutionSimulator
