import Mathlib.Data.Finset.Card
import Vpux.Inference.RunSim

/-! How long tasks take, and which tasks hold up others, read off the costs, the barriers and the
numbers of executors. -/
namespace Vpux.Inference.InferenceExecutionSimulator
open Vpux.Graph

variable {Q : Type} [DecidableEq Q] {sim : InferenceExecutionSimulator Q}
  {start : Task Q → ℕ} {p t u : Task Q} {x y : ℕ}

/-- Costs that a task cannot end before: its own, after those of a task that updates a barrier it
waits for, or after those of as many earlier tasks of its queue as the queue has executors. -/
inductive Takes (sim : InferenceExecutionSimulator Q) : ℕ → Task Q → Prop
  | alone {x : ℕ} {t : Task Q} (ht : t ∈ sim.tasks) (hx : x ≤ sim.cost t) : Takes sim x t
  | barrier {x y : ℕ} {p t : Task Q} (hp : p ∈ sim.producers t) (hx : Takes sim x p)
      (hy : y ≤ x + sim.cost t) : Takes sim y t
  | executors {x y : ℕ} {t : Task Q} (ht : t ∈ sim.tasks) (busy : Finset ℕ)
      (hcard : busy.card = sim.numOfExecutors t.1) (hbefore : ∀ i ∈ busy, i < t.2)
      (hx : ∀ i ∈ busy, Takes sim x (t.1, i)) (hy : y ≤ x + sim.cost t) : Takes sim y t

/-- A task is held up by another one, whatever the costs are: by a barrier, or because all
executors of its queue are. -/
inductive Follows (sim : InferenceExecutionSimulator Q) (t : Task Q) : Task Q → Prop
  | self (ht : t ∈ sim.tasks) : Follows sim t t
  | barrier {p u : Task Q} (hp : p ∈ sim.producers u) (h : Follows sim t p) : Follows sim t u
  | executors {u : Task Q} (hu : u ∈ sim.tasks) (busy : Finset ℕ)
      (hcard : busy.card = sim.numOfExecutors u.1) (hbefore : ∀ i ∈ busy, i < u.2)
      (h : ∀ i ∈ busy, Follows sim t (u.1, i)) : Follows sim t u

theorem mem_tasks_of_lt (ht : t ∈ sim.tasks) {i : ℕ} (hi : i < t.2) : (t.1, i) ∈ sim.tasks :=
  mem_tasks_iff.mpr (hi.trans (mem_tasks_iff.mp ht))

theorem Takes.mem_tasks (h : sim.Takes x t) : t ∈ sim.tasks := by
  cases h with
  | alone ht => exact ht
  | barrier hp => exact (precedes_of_producer hp).mem_right
  | executors ht => exact ht

section Executors

theorem min_getD_mem {cycles : List ℕ} (h : cycles ≠ []) : cycles.min?.getD 0 ∈ cycles := by
  obtain ⟨least, hleast⟩ := Option.ne_none_iff_exists'.mp (mt List.min?_eq_none_iff.mp h)
  rw [hleast]
  exact List.min?_mem hleast

theorem le_min_getD_iff {cycles : List ℕ} (h : cycles ≠ []) (x : ℕ) :
    x ≤ cycles.min?.getD 0 ↔ ∀ cycle ∈ cycles, x ≤ cycle := by
  obtain ⟨least, hleast⟩ := Option.ne_none_iff_exists'.mp (mt List.min?_eq_none_iff.mp h)
  rw [hleast]
  exact List.le_min?_iff hleast

/-- The executor that is free first takes the next task, so that one more executor is busy at a
cycle if the task ends behind it and one was free. -/
theorem countP_progressCycles {cycles : List ℕ} (h : cycles ≠ []) {newCycle : ℕ}
    (hle : cycles.min?.getD 0 ≤ newCycle) (x : ℕ) :
    (progressCycles cycles newCycle).countP (x ≤ ·) =
      min cycles.length (cycles.countP (x ≤ ·) + if x ≤ newCycle then 1 else 0) := by
  have hmem := min_getD_mem h
  have hindex := List.idxOf_lt_length_of_mem hmem
  rw [progressCycles, List.countP_set hindex, List.getElem_idxOf]
  simp only [decide_eq_true_eq]
  by_cases hleast : x ≤ cycles.min?.getD 0
  · have hall : cycles.countP (x ≤ ·) = cycles.length := by
      rw [List.countP_eq_length]
      exact fun cycle hcycle => decide_eq_true ((le_min_getD_iff h x).mp hleast cycle hcycle)
    rw [hall, if_pos hleast, if_pos (hleast.trans hle)]
    omega
  · have hfree : cycles.countP (x ≤ ·) < cycles.length := by
      refine lt_of_le_of_ne List.countP_le_length fun hall => hleast ?_
      exact of_decide_eq_true (List.countP_eq_length.mp hall _ hmem)
    rw [if_neg hleast]
    split_ifs <;> omega

theorem length_freeCycles (start : Task Q → ℕ) (q : Q) (index : ℕ) :
    (sim.freeCycles start q index).length = sim.numOfExecutors q := by
  induction index with
  | zero => simp [freeCycles]
  | succ index ih => simpa [freeCycles, progressCycles] using ih

theorem freeCycles_ne_nil (start : Task Q → ℕ) (q : Q) (index : ℕ) :
    sim.freeCycles start q index ≠ [] := by
  rw [← List.length_pos_iff, length_freeCycles]
  exact (sim.numOfExecutors q).pos

/-- As many executors are busy at a cycle as earlier tasks end behind it, up to their number. -/
theorem Earliest.countP_freeCycles (h : sim.Earliest start) (hx : 0 < x) {q : Q} {index : ℕ}
    (hindex : index ≤ (sim.queueTasks q).length) :
    (sim.freeCycles start q index).countP (x ≤ ·) = min (sim.numOfExecutors q : ℕ)
      ((Finset.range index).filter fun i => x ≤ start (q, i) + sim.cost (q, i)).card := by
  induction index with
  | zero =>
    have hnone : ¬ x ≤ 0 := by omega
    simp [freeCycles, List.countP_replicate, hnone]
  | succ index ih =>
    have hstart := h (q, index) (mem_tasks_iff.mpr hindex)
    have hle : (sim.freeCycles start q index).min?.getD 0 ≤
        start (q, index) + sim.cost (q, index) :=
      (hstart ▸ le_max_left _ _ : sim.earliestFree start (q, index) ≤ _).trans
        (Nat.le_add_right _ _)
    rw [freeCycles, countP_progressCycles (freeCycles_ne_nil start q index) hle,
      length_freeCycles, ih (by omega), Finset.range_add_one, Finset.filter_insert]
    split_ifs
    · rw [Finset.card_insert_of_notMem (by simp)]
      omega
    · omega

theorem Earliest.le_earliestFree_iff (h : sim.Earliest start) (ht : t ∈ sim.tasks) (hx : 0 < x) :
    x ≤ sim.earliestFree start t ↔ (sim.numOfExecutors t.1 : ℕ) ≤
      ((Finset.range t.2).filter fun i => x ≤ start (t.1, i) + sim.cost (t.1, i)).card := by
  have hcount := h.countP_freeCycles hx (mem_tasks_iff.mp ht).le
  rw [earliestFree, le_min_getD_iff (freeCycles_ne_nil start t.1 t.2)]
  have hall : (∀ cycle ∈ sim.freeCycles start t.1 t.2, x ≤ cycle) ↔
      (sim.freeCycles start t.1 t.2).countP (x ≤ ·) = sim.numOfExecutors t.1 := by
    rw [← length_freeCycles start t.1 t.2, List.countP_eq_length]
    simp only [decide_eq_true_eq]
  rw [hall, hcount]
  exact min_eq_left_iff

end Executors

theorem Takes.le_end (h : sim.Earliest start) (htakes : sim.Takes x t) :
    x ≤ start t + sim.cost t := by
  induction htakes with
  | alone ht hx => omega
  | @barrier x y p t hp _ hy ih =>
    have hlatest : start p + sim.cost p ≤ sim.latestEnd start t :=
      Finset.le_sup (f := fun p => start p + sim.cost p) hp
    have hstart := h t (precedes_of_producer hp).mem_right
    omega
  | @executors x y t ht busy hcard hbefore _ hy ih =>
    rcases Nat.eq_zero_or_pos x with rfl | hx
    · omega
    · have hsubset : busy ⊆ (Finset.range t.2).filter fun i =>
          x ≤ start (t.1, i) + sim.cost (t.1, i) := fun i hi =>
        Finset.mem_filter.mpr ⟨Finset.mem_range.mpr (hbefore i hi), ih i hi⟩
      have hfree : x ≤ sim.earliestFree start t :=
        (h.le_earliestFree_iff ht hx).mpr (hcard ▸ Finset.card_le_card hsubset)
      have hstart := h t ht
      omega

/-- In the earliest schedule a task ends when the costs that hold it up say. -/
theorem takes_iff (hacyclic : Acyclic sim.Precedes) (h : sim.Earliest start)
    (ht : t ∈ sim.tasks) : sim.Takes x t ↔ x ≤ start t + sim.cost t := by
  refine ⟨Takes.le_end h, ?_⟩
  revert x
  refine hacyclic.induction (p := fun t => ∀ {x}, x ≤ start t + sim.cost t → sim.Takes x t)
    (fun t ht ih x hx => ?_) t ht
  have hstart := h t ht
  rcases Nat.eq_zero_or_pos (start t) with hzero | hpos
  · exact .alone ht (by omega)
  rcases le_total (sim.latestEnd start t) (sim.earliestFree start t) with hle | hle
  · -- all executors are busy up to the start
    rw [max_eq_left hle] at hstart
    have hbusy := (h.le_earliestFree_iff ht hpos).mp hstart.le
    obtain ⟨busy, hsubset, hcard⟩ := Finset.exists_subset_card_eq hbusy
    have hmem : ∀ i ∈ busy, i < t.2 ∧ start t ≤ start (t.1, i) + sim.cost (t.1, i) := by
      intro i hi
      obtain ⟨hrange, hend⟩ := Finset.mem_filter.mp (hsubset hi)
      exact ⟨Finset.mem_range.mp hrange, hend⟩
    refine .executors ht busy hcard (fun i hi => (hmem i hi).1) (fun i hi => ?_) hx
    obtain ⟨hbefore, hend⟩ := hmem i hi
    exact ih (t.1, i) (mem_tasks_of_lt ht hbefore) (.inl ⟨rfl, hbefore, ht⟩) hend
  · -- a producer ends at the start
    rw [max_eq_right hle] at hstart
    have hne : (sim.producers t).Nonempty := by
      by_contra hempty
      rw [Finset.not_nonempty_iff_eq_empty] at hempty
      rw [latestEnd, hempty, Finset.sup_empty] at hstart
      exact absurd hstart hpos.ne'
    obtain ⟨p, hp, hend⟩ := Finset.exists_mem_eq_sup _ hne fun p => start p + sim.cost p
    have hprecedes := precedes_of_producer hp
    refine .barrier hp (ih p hprecedes.mem_left hprecedes (x := start t) ?_) hx
    rw [hstart, latestEnd, hend]

theorem Follows.takes (h : sim.Follows t u) (htakes : sim.Takes x t) : sim.Takes x u := by
  induction h with
  | self => exact htakes
  | barrier hp _ ih => exact .barrier hp ih (Nat.le_add_right _ _)
  | executors hu busy hcard hbefore _ ih =>
    exact .executors hu busy hcard hbefore ih (Nat.le_add_right _ _)

/-- Only the places of the tasks, the barriers and the executors count. -/
theorem Follows.congr {sim' : InferenceExecutionSimulator Q} (htasks : sim'.tasks = sim.tasks)
    (hproducers : ∀ u, sim'.producers u = sim.producers u)
    (hexecutors : sim'.numOfExecutors = sim.numOfExecutors) (h : sim.Follows t u) :
    sim'.Follows t u := by
  induction h with
  | self ht => exact .self (htasks ▸ ht)
  | barrier hp _ ih => exact .barrier ((hproducers _).symm ▸ hp) ih
  | executors hu busy hcard hbefore _ ih =>
    exact .executors (htasks ▸ hu) busy (hexecutors ▸ hcard) hbefore ih

/-- Where all but one of the tasks cost one cycle, those that do not follow it are held up for no
longer than their rank. -/
theorem Takes.le_rank {rank : Task Q → ℕ} (hrank : ∀ p u, sim.Precedes p u → rank p < rank u)
    (hcost : ∀ u ∈ sim.tasks, u ≠ t → sim.cost u = 1) (ht : t ∈ sim.tasks)
    (htakes : sim.Takes x u) (hfollows : ¬ sim.Follows t u) : x ≤ rank u + 1 := by
  have hone : ∀ {u}, u ∈ sim.tasks → ¬ sim.Follows t u → sim.cost u = 1 := by
    intro u hu hfollows
    refine hcost u hu ?_
    rintro rfl
    exact hfollows (.self hu)
  induction htakes with
  | alone hu hx =>
    have := hone hu hfollows
    omega
  | @barrier x y p u hp _ hy ih =>
    have hprecedes := precedes_of_producer hp
    have hcost := hone hprecedes.mem_right hfollows
    have hx := ih fun h => hfollows (.barrier hp h)
    have hlt := hrank p u hprecedes
    omega
  | @executors x y u hu busy hcard hbefore _ hy ih =>
    have hcost := hone hu hfollows
    have hsome : ∃ i ∈ busy, ¬ sim.Follows t (u.1, i) := by
      by_contra hall
      push Not at hall
      exact hfollows (.executors hu busy hcard hbefore hall)
    obtain ⟨i, hi, hnot⟩ := hsome
    have hx := ih i hi hnot
    have hlt := hrank (u.1, i) u (.inl ⟨rfl, hbefore i hi, hu⟩)
    omega

section Costs

/-- Tasks with other costs, by queue and place in it; `seen` counts the tasks in front. -/
def recost (costs : Task Q → ℕ+) : (Q → ℕ) → List (Q × TaskConfig) → List (Q × TaskConfig)
  | _, [] => []
  | seen, (q, task) :: ops =>
    (q, { task with cycleCost := costs (q, seen q) }) ::
      recost costs (Function.update seen q (seen q + 1)) ops

variable (sim) in
def withCosts (costs : Task Q → ℕ+) : InferenceExecutionSimulator Q :=
  { sim with taskOps := recost costs (fun _ => 0) sim.taskOps }

variable {costs : Task Q → ℕ+}

theorem map_fst_recost (costs : Task Q → ℕ+) (seen : Q → ℕ) (ops : List (Q × TaskConfig)) :
    (recost costs seen ops).map Prod.fst = ops.map Prod.fst := by
  induction ops generalizing seen with
  | nil => rfl
  | cons op ops ih => rw [recost, List.map_cons, List.map_cons, ih]

theorem filter_recost (costs : Task Q → ℕ+) (seen : Q → ℕ) (ops : List (Q × TaskConfig)) (q : Q) :
    ((recost costs seen ops).filter fun op => op.1 = q).map Prod.snd =
      ((ops.filter fun op => op.1 = q).map Prod.snd).mapIdx fun i task =>
        { task with cycleCost := costs (q, seen q + i) } := by
  induction ops generalizing seen with
  | nil => rfl
  | cons op ops ih =>
    obtain ⟨q', task⟩ := op
    rw [recost]
    by_cases hq : q' = q
    · subst hq
      simp [ih, Nat.add_assoc, Nat.add_comm 1]
    · simp [hq, ih, Function.update_of_ne (Ne.symm hq)]

theorem taskAt_withCosts (t : Task Q) : (sim.withCosts costs).taskAt t =
    (sim.taskAt t).map fun task => { task with cycleCost := costs t } := by
  have hqueue := filter_recost costs (fun _ => 0) sim.taskOps t.1
  rw [taskAt, taskAt, queueTasks, queueTasks, withCosts, hqueue, List.getElem?_mapIdx, Nat.zero_add]

@[simp] theorem length_queueTasks_withCosts (q : Q) :
    ((sim.withCosts costs).queueTasks q).length = (sim.queueTasks q).length := by
  rw [queueTasks, withCosts, filter_recost, List.length_mapIdx, queueTasks]

@[simp] theorem tasks_withCosts : (sim.withCosts costs).tasks = sim.tasks := by
  ext t
  rw [mem_tasks_iff, mem_tasks_iff, length_queueTasks_withCosts]

@[simp] theorem waits_withCosts (t : Task Q) : (sim.withCosts costs).waits t = sim.waits t := by
  rw [waits, waits, taskAt_withCosts, Option.map_map]
  rfl

@[simp] theorem updates_withCosts (t : Task Q) :
    (sim.withCosts costs).updates t = sim.updates t := by
  rw [updates, updates, taskAt_withCosts, Option.map_map]
  rfl

theorem cost_withCosts (ht : t ∈ sim.tasks) : (sim.withCosts costs).cost t = costs t := by
  obtain ⟨task, htask⟩ : ∃ task, sim.taskAt t = some task :=
    ⟨_, List.getElem?_eq_getElem (mem_tasks_iff.mp ht)⟩
  rw [cost, taskAt_withCosts, htask]
  rfl

@[simp] theorem producers_withCosts (t : Task Q) :
    (sim.withCosts costs).producers t = sim.producers t := by
  simp only [producers, tasks_withCosts, waits_withCosts, updates_withCosts]

theorem precedes_withCosts : (sim.withCosts costs).Precedes = sim.Precedes := by
  funext p t
  simp only [Precedes, tasks_withCosts, waits_withCosts, updates_withCosts]

theorem follows_withCosts : (sim.withCosts costs).Follows t u ↔ sim.Follows t u := by
  constructor
  · exact Follows.congr tasks_withCosts.symm (fun u => (producers_withCosts u).symm) rfl
  · exact Follows.congr tasks_withCosts producers_withCosts rfl

end Costs

end Vpux.Inference.InferenceExecutionSimulator
