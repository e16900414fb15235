import Mathlib.Algebra.Order.BigOperators.Group.Finset
import Vpux.Inference.Simulator

/-! What the simulation knows about the tasks that have run, and that every turn keeps it. -/
namespace Vpux.Inference
open Vpux.Graph

namespace SimState

variable {Q : Type} (s : SimState Q)

def start (t : Task Q) : ℕ := (s.cycleStart t.1 t.2).getD 0

def Done (t : Task Q) : Prop := t.2 < (s.queueState t.1).taskIdx

instance (t : Task Q) : Decidable (s.Done t) := inferInstanceAs (Decidable (_ < _))

/-- The next task of a queue. -/
def head (q : Q) : Task Q := (q, (s.queueState q).taskIdx)

end SimState

namespace InferenceExecutionSimulator

variable {Q : Type} [DecidableEq Q] {sim : InferenceExecutionSimulator Q} {s s' : SimState Q}
  {q : Q} {task : TaskConfig}

section Waiting

variable {virtBarriers : ℕ → BarrierConfig}

open BarrierConfig

omit [DecidableEq Q] in
theorem waitFor_blocked {waits : List ℕ} {b : ℕ} (hb : b ∈ waits)
    (hcount : (virtBarriers b).producerCount ≠ 0) (cycleBegin : ℕ) :
    waitFor (Q := Q) virtBarriers waits cycleBegin = .ok none := by
  induction waits generalizing cycleBegin with
  | nil => simp at hb
  | cons w waits ih =>
    by_cases hw : (virtBarriers w).producerCount = 0
    · have hrest : b ∈ waits := by
        rcases List.mem_cons.mp hb with rfl | h
        · exact absurd hw hcount
        · exact h
      simp [waitFor, isReleased, getReleaseCycle, hw, ih hrest, bind,
        Except.bind]
    · simp [waitFor, isReleased, hw]

omit [DecidableEq Q] in
theorem waitFor_released {waits : List ℕ}
    (h : ∀ b ∈ waits, (virtBarriers b).producerCount = 0) (cycleBegin : ℕ) :
    ∃ cycle, waitFor (Q := Q) virtBarriers waits cycleBegin = .ok (some cycle) ∧
      ∀ x, cycle ≤ x ↔ cycleBegin ≤ x ∧ ∀ b ∈ waits, (virtBarriers b).lastCycleUpdate ≤ x := by
  induction waits generalizing cycleBegin with
  | nil => exact ⟨cycleBegin, rfl, by simp⟩
  | cons w waits ih =>
    have hw := h w (by simp)
    obtain ⟨cycle, hcycle, hle⟩ := ih (fun b hb => h b (by simp [hb]))
      (max cycleBegin (virtBarriers w).lastCycleUpdate)
    refine ⟨cycle, ?_, fun x => ?_⟩
    · simp [waitFor, isReleased, getReleaseCycle, hw, hcycle, bind,
        Except.bind]
    · rw [hle, max_le_iff, List.forall_mem_cons, and_assoc]

omit [DecidableEq Q] in
theorem updateBarriers_ok {updates : List ℕ} (cycleEnd : ℕ)
    (h : ∀ b, updates.count b ≤ (virtBarriers b).producerCount) :
    ∃ virtBarriers', updates.foldlM (updateBarrier (Q := Q) cycleEnd) virtBarriers =
        .ok virtBarriers' ∧
      ∀ b, (virtBarriers' b).producerCount = (virtBarriers b).producerCount - updates.count b ∧
        (virtBarriers' b).lastCycleUpdate = if b ∈ updates then
          max (virtBarriers b).lastCycleUpdate cycleEnd else (virtBarriers b).lastCycleUpdate := by
  induction updates generalizing virtBarriers with
  | nil => exact ⟨virtBarriers, rfl, by simp⟩
  | cons u updates ih =>
    have hpos : (virtBarriers u).producerCount ≠ 0 := by
      have := h u
      rw [List.count_cons_self] at this
      omega
    let next := Function.update virtBarriers u ((virtBarriers u).decrementAtCycle cycleEnd)
    have hnext : ∀ b, updates.count b ≤ (next b).producerCount := by
      intro b
      have := h b
      by_cases hb : b = u
      · subst hb
        rw [List.count_cons_self] at this
        simp only [next, Function.update_self, decrementAtCycle]
        omega
      · rw [List.count_cons_of_ne (Ne.symm hb)] at this
        simpa [next, hb] using this
    obtain ⟨virtBarriers', hrun, hvalues⟩ := ih hnext
    refine ⟨virtBarriers', ?_, fun b => ?_⟩
    · rw [List.foldlM_cons]
      have hstep : updateBarrier (Q := Q) cycleEnd virtBarriers u = .ok next := by
        simp [updateBarrier, isReleased, hpos, next]
      rw [hstep]
      exact hrun
    · rw [(hvalues b).1, (hvalues b).2]
      by_cases hb : b = u
      · subst hb
        simp only [next, Function.update_self, decrementAtCycle,
          List.count_cons_self, List.mem_cons, true_or, if_true]
        refine ⟨by omega, ?_⟩
        split_ifs
        · rw [max_assoc, max_self]
        · rfl
      · rw [List.count_cons_of_ne (Ne.symm hb)]
        simp [next, hb]

end Waiting

variable (sim) in
def undone (s : SimState Q) : Finset (Task Q) := sim.tasks.filter fun t => ¬ s.Done t

variable (sim) in
def done (s : SimState Q) : Finset (Task Q) := sim.tasks.filter s.Done

variable (sim) in
/-- The counters tell what has run, and what has run started as early as it could. -/
structure Simulated (s : SimState Q) : Prop where
  taskIdx_le : ∀ q, (s.queueState q).taskIdx ≤ (sim.queueTasks q).length
  started : ∀ t, s.Done t → s.cycleStart t.1 t.2 = some (s.start t)
  cycle : ∀ q, (s.queueState q).cycle = sim.freeCycles s.start q (s.queueState q).taskIdx
  producerCount : ∀ b, (s.virtBarriers b).producerCount =
    ∑ t ∈ sim.undone s, (sim.updates t).count b
  lastCycleUpdate : ∀ b, (s.virtBarriers b).lastCycleUpdate =
    ((sim.done s).filter fun p => b ∈ sim.updates p).sup fun p => s.start p + sim.cost p
  closed : ∀ p t, sim.Precedes p t → s.Done t → s.Done p
  earliest : ∀ t ∈ sim.tasks, s.Done t →
    s.start t = max (sim.earliestFree s.start t) (sim.latestEnd s.start t)
  ranked : ∃ rank : Task Q → ℕ, ∀ p t, sim.Precedes p t → s.Done t → rank p < rank t

omit [DecidableEq Q] in
theorem not_done_head (s : SimState Q) (q : Q) : ¬ s.Done (s.head q) := Nat.lt_irrefl _

variable {t : Task Q}

theorem mem_undone : t ∈ sim.undone s ↔ t ∈ sim.tasks ∧ ¬ s.Done t :=
  Finset.mem_filter

theorem mem_done : t ∈ sim.done s ↔ t ∈ sim.tasks ∧ s.Done t := Finset.mem_filter

section Run

variable {cycleBegin cycleEnd : ℕ}

/-- The next task of a queue has run. -/
structure Ran (s s' : SimState Q) (q : Q) (cycleBegin cycleEnd : ℕ) : Prop where
  done : ∀ t, s'.Done t ↔ s.Done t ∨ t = s.head q
  started : s'.cycleStart q (s.head q).2 = some cycleBegin
  kept : ∀ t, t ≠ s.head q → s'.cycleStart t.1 t.2 = s.cycleStart t.1 t.2
  taskIdx : (s'.queueState q).taskIdx = (s.queueState q).taskIdx + 1
  cycle : (s'.queueState q).cycle = progressCycles (s.queueState q).cycle cycleEnd
  others : ∀ q', q' ≠ q → s'.queueState q' = s.queueState q'

theorem run_eq {virtBarriers : ℕ → BarrierConfig} (hle : (s.queueState q).getCycle ≤ cycleBegin)
    (hupdate : task.virtBarrierUpdates.foldlM (updateBarrier (Q := Q) (cycleBegin + task.cycleCost))
      s.virtBarriers = .ok virtBarriers) :
    ∃ s', run s q task cycleBegin = .ok s' ∧ s'.virtBarriers = virtBarriers ∧
      Ran s s' q cycleBegin (cycleBegin + task.cycleCost) := by
  have hcycle : ¬ cycleBegin + task.cycleCost < (s.queueState q).getCycle := by omega
  simp only [run, hupdate, bind, Except.bind, QueueState.progressQueueToCycle, if_neg hcycle]
  refine ⟨_, rfl, rfl, ?_⟩
  constructor
  case done =>
    intro ⟨q', i⟩
    by_cases hq : q' = q
    · subst hq
      simp only [SimState.Done, SimState.head, Function.update_self, Prod.mk.injEq, true_and]
      omega
    · simp [SimState.Done, SimState.head, hq]
  case kept =>
    intro ⟨q', i⟩ ht
    by_cases hq : q' = q
    · subst hq
      have hi : i ≠ (s.queueState q').taskIdx := by
        rintro rfl
        exact ht rfl
      simp [hi]
    · simp [hq]
  case others =>
    intro q' hq
    simp [hq]
  all_goals simp [SimState.head]

omit [DecidableEq Q] in
theorem Ran.start_head (h : Ran s s' q cycleBegin cycleEnd) : s'.start (s.head q) = cycleBegin := by
  have hstarted := h.started
  rw [SimState.head] at hstarted
  rw [SimState.start, SimState.head, hstarted]
  rfl

omit [DecidableEq Q] in
theorem Ran.start_of_ne (h : Ran s s' q cycleBegin cycleEnd) (ht : t ≠ s.head q) :
    s'.start t = s.start t := by
  rw [SimState.start, SimState.start, h.kept t ht]

theorem Ran.undone_eq (h : Ran s s' q cycleBegin cycleEnd) :
    sim.undone s' = (sim.undone s).erase (s.head q) := by
  ext t
  rw [mem_undone, Finset.mem_erase, mem_undone, h.done]
  tauto

theorem Ran.done_eq (h : Ran s s' q cycleBegin cycleEnd) (hhead : s.head q ∈ sim.tasks) :
    sim.done s' = insert (s.head q) (sim.done s) := by
  ext t
  rw [mem_done, Finset.mem_insert, mem_done, h.done]
  constructor
  · tauto
  · rintro (rfl | ht)
    · exact ⟨hhead, .inr rfl⟩
    · exact ⟨ht.1, .inl ht.2⟩

omit [DecidableEq Q] in
theorem Ran.start_of_done (h : Ran s s' q cycleBegin cycleEnd) (ht : s.Done t) :
    s'.start t = s.start t :=
  h.start_of_ne fun heq => not_done_head s q (heq ▸ ht)

theorem Ran.freeCycles_eq (h : Ran s s' q cycleBegin cycleEnd) {q' : Q} {index : ℕ}
    (hindex : index ≤ (s.queueState q').taskIdx) :
    sim.freeCycles s'.start q' index = sim.freeCycles s.start q' index :=
  freeCycles_congr fun _ hj => h.start_of_done (hj.trans_le hindex)

theorem Ran.latestEnd_eq (h : Ran s s' q cycleBegin cycleEnd)
    (hclosed : ∀ p ∈ sim.producers t, s.Done p) :
    sim.latestEnd s'.start t = sim.latestEnd s.start t :=
  latestEnd_congr fun p hp => h.start_of_done (hclosed p hp)

end Run

section Step

variable {virtBarriers : ℕ → BarrierConfig} {cycleBegin : ℕ}

section

variable (h : sim.taskAt t = some task)
include h

theorem updates_eq : sim.updates t = task.virtBarrierUpdates := by
  rw [updates, h]
  rfl

theorem waits_eq : sim.waits t = task.virtBarrierWaits := by
  rw [waits, h]
  rfl

theorem cost_eq : sim.cost t = task.cycleCost := by
  rw [cost, h]
  rfl

end

theorem Simulated.run (h : sim.Simulated s) (htask : sim.taskAt (s.head q) = some task)
    (hready : ∀ p ∈ sim.producers (s.head q), s.Done p)
    (hbegin : cycleBegin =
      max (s.queueState q).getCycle (sim.latestEnd s.start (s.head q))) :
    ∃ s', run s q task cycleBegin = .ok s' ∧ sim.Simulated s' ∧
      Ran s s' q cycleBegin (cycleBegin + task.cycleCost) := by
  have hhead : s.head q ∈ sim.tasks := mem_tasks_of_taskAt htask
  have hundone : s.head q ∈ sim.undone s := mem_undone.mpr ⟨hhead, not_done_head s q⟩
  have hroom : ∀ b, task.virtBarrierUpdates.count b ≤ (s.virtBarriers b).producerCount := by
    intro b
    rw [h.producerCount, ← updates_eq htask]
    exact Finset.single_le_sum (f := fun t => (sim.updates t).count b)
      (fun _ _ => Nat.zero_le _) hundone
  obtain ⟨virtBarriers, hupdate, hvalues⟩ :=
    updateBarriers_ok (Q := Q) (cycleBegin + task.cycleCost) hroom
  have hfree : (s.queueState q).getCycle = sim.earliestFree s.start (s.head q) := by
    rw [QueueState.getCycle, h.cycle]
    rfl
  obtain ⟨s', hrun, hbarriers, hran⟩ := run_eq (hbegin ▸ le_max_left _ _) hupdate
  have hclosed : ∀ p t, sim.Precedes p t → s'.Done t → s.Done p := by
    intro p t hp ht
    rcases (hran.done t).mp ht with ht | rfl
    · exact h.closed p t hp ht
    · rcases hp with ⟨hq, hlt, -⟩ | ⟨b, hb, hb'⟩
      · rw [SimState.Done, hq]
        exact hlt
      · exact hready p (mem_producers.mpr ⟨b, hb', hb⟩)
  refine ⟨s', hrun, ?_, hran⟩
  constructor
  case taskIdx_le =>
    intro q'
    by_cases hq : q' = q
    · subst hq
      rw [hran.taskIdx]
      exact mem_tasks_iff.mp hhead
    · rw [hran.others q' hq]
      exact h.taskIdx_le q'
  case started =>
    intro t ht
    by_cases heq : t = s.head q
    · rw [heq, hran.start_head]
      exact hran.started
    · rw [hran.kept t heq, hran.start_of_ne heq]
      exact h.started t (((hran.done t).mp ht).resolve_right heq)
  case cycle =>
    intro q'
    by_cases hq : q' = q
    · subst hq
      rw [hran.cycle, hran.taskIdx, freeCycles, hran.freeCycles_eq le_rfl, ← h.cycle]
      have hstart : s'.start (q', (s.queueState q').taskIdx) = cycleBegin := hran.start_head
      have hcost : sim.cost (q', (s.queueState q').taskIdx) = task.cycleCost := cost_eq htask
      rw [hstart, hcost]
    · rw [hran.others q' hq, hran.freeCycles_eq le_rfl, h.cycle]
  case producerCount =>
    intro b
    rw [hbarriers, (hvalues b).1, h.producerCount, hran.undone_eq, ← updates_eq htask,
      ← Finset.add_sum_erase _ _ hundone, Nat.add_sub_cancel_left]
  case lastCycleUpdate =>
    intro b
    have hkept : (((sim.done s).filter fun p => b ∈ sim.updates p).sup
          fun p => s'.start p + sim.cost p) =
        ((sim.done s).filter fun p => b ∈ sim.updates p).sup fun p => s.start p + sim.cost p :=
      Finset.sup_congr rfl fun p hp => by
        rw [hran.start_of_done (mem_done.mp (Finset.mem_filter.mp hp).1).2]
    rw [hbarriers, (hvalues b).2, h.lastCycleUpdate, hran.done_eq hhead, Finset.filter_insert,
      updates_eq htask]
    split_ifs
    · rw [Finset.sup_insert, hkept, hran.start_head, cost_eq htask, max_comm]
    · exact hkept.symm
  case closed => exact fun p t hp ht => (hran.done p).mpr (.inl (hclosed p t hp ht))
  case earliest =>
    intro t ht hdone
    have hproducers : ∀ p ∈ sim.producers t, s.Done p :=
      fun p hp => hclosed p t (precedes_of_producer hp) hdone
    rw [hran.latestEnd_eq hproducers]
    rcases (hran.done t).mp hdone with hdone | rfl
    · rw [hran.start_of_done hdone, h.earliest t ht hdone, earliestFree, earliestFree,
        hran.freeCycles_eq (Nat.le_of_lt hdone)]
    · have hcycles : sim.freeCycles s'.start (s.head q).1 (s.head q).2 =
          sim.freeCycles s.start (s.head q).1 (s.head q).2 := hran.freeCycles_eq le_rfl
      rw [hran.start_head, hbegin, hfree, earliestFree, earliestFree, hcycles]
  case ranked =>
    obtain ⟨rank, hrank⟩ := h.ranked
    -- the task that has just run comes after all that ran before
    refine ⟨Function.update rank (s.head q) (((sim.done s).sup rank) + 1), ?_⟩
    intro p t hp ht
    have hpdone := hclosed p t hp ht
    have hpne : p ≠ s.head q := fun heq => not_done_head s q (heq ▸ hpdone)
    rw [Function.update_of_ne hpne]
    rcases (hran.done t).mp ht with ht | rfl
    · have htne : t ≠ s.head q := fun heq => not_done_head s q (heq ▸ ht)
      rw [Function.update_of_ne htne]
      exact hrank p t hp ht
    · rw [Function.update_self]
      exact Nat.lt_succ_of_le (Finset.le_sup (f := rank) (mem_done.mpr ⟨hp.mem_left, hpdone⟩))

end Step

end InferenceExecutionSimulator

end Vpux.Inference
