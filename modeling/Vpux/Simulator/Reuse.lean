import Vpux.Simulator.Assignment
import Vpux.Simulator.Accounting

/-! Two virtual barriers share a physical one only one after the other: the consumer counter of
a barrier reaches zero when all its consumers have been processed, provided every task takes
part once. -/
namespace Vpux.Simulator
open VPURT Data
namespace BarrierSimulator

variable {sim : BarrierSimulator} {limit : ℕ} {tasks : List TaskOp} {s : SimState}

theorem sum_eq_of_counted {w : ℕ → ℕ} {executed : List ℕ} {n left : ℕ} (hnodup : executed.Nodup)
    (hlt : ∀ t ∈ executed, t < n) (hsum : left + (executed.map w).sum = ∑ t ∈ Finset.range n, w t) :
    left = ∑ t ∈ Finset.range n \ executed.toFinset, w t := by
  have hsub : executed.toFinset ⊆ Finset.range n := by
    intro t ht
    exact Finset.mem_range.mpr (hlt t (List.mem_toFinset.mp ht))
  have hlist : (executed.map w).sum = ∑ t ∈ executed.toFinset, w t :=
    (List.sum_toFinset w hnodup).symm
  have hsplit := Finset.sum_sdiff (f := w) hsub
  omega

theorem eq_zero_of_counted {w : ℕ → ℕ} {executed : List ℕ} {n left : ℕ} (hnodup : executed.Nodup)
    (hlt : ∀ t ∈ executed, t < n) (hsum : left + (executed.map w).sum = ∑ t ∈ Finset.range n, w t) :
    left = 0 ↔ ∀ t < n, t ∉ executed → w t = 0 := by
  rw [sum_eq_of_counted hnodup hlt hsum, Finset.sum_eq_zero_iff]
  simp only [Finset.mem_sdiff, Finset.mem_range, List.mem_toFinset, and_imp]

theorem waitCount_eq_zero {v t : ℕ} :
    waitCount tasks v t = 0 ↔ ∀ op, tasks[t]? = some op → v ∉ op.waitBarriers := by
  unfold waitCount
  cases tasks[t]? with
  | none => simp
  | some op => simp [(taskCount_pos op).ne', List.count_eq_zero]

theorem updateCount_eq_zero {v t : ℕ} :
    updateCount tasks v t = 0 ↔ ∀ op, tasks[t]? = some op → v ∉ op.updateBarriers := by
  unfold updateCount
  cases tasks[t]? with
  | none => simp
  | some op => simp [(taskCount_pos op).ne', List.count_eq_zero]

theorem Processed.task_lt (hp : sim.Processed s) (h : Parsed.Of sim.platform tasks sim.tasks)
    {t : ℕ} (ht : t ∈ s.executed) : t < tasks.length := by
  obtain ⟨q, i, -, hti⟩ := hp.started t ht
  exact h.task_lt hti

section

variable (hc : sim.Counters tasks s) (hp : sim.Processed s)
  (h : Parsed.Of sim.platform tasks sim.tasks) (v : ℕ)
include hc hp h v

theorem Counters.consumer_zero : s.consumerCount v = 0 ↔
      ∀ t op, tasks[t]? = some op → v ∈ op.waitBarriers → t ∈ s.executed := by
  rw [eq_zero_of_counted hp.nodup (fun t ht => hp.task_lt h ht)
    ((hc.consumer v).trans (h.consumer v))]
  simp only [waitCount_eq_zero]
  constructor
  · intro hall t op hop hv
    by_contra hnot
    exact hall t (List.getElem?_eq_some_iff.mp hop).1 hnot op hop hv
  · intro hall t _ hnot op hop hv
    exact hnot (hall t op hop hv)

theorem Counters.producer_zero : s.producerCount v = 0 ↔
      ∀ t op, tasks[t]? = some op → v ∈ op.updateBarriers → t ∈ s.executed := by
  rw [eq_zero_of_counted hp.nodup (fun t ht => hp.task_lt h ht)
    ((hc.producer v).trans (h.producer v))]
  simp only [updateCount_eq_zero]
  constructor
  · intro hall t op hop hv
    by_contra hnot
    exact hall t (List.getElem?_eq_some_iff.mp hop).1 hnot op hop hv
  · intro hall t _ hnot op hop hv
    exact hnot (hall t op hop hv)

end

structure ReusesSafely (sim : BarrierSimulator) (tasks : List TaskOp) (limit : ℕ) : Prop where
  /-- A simulation that succeeds gives every barrier an id. -/
  ids : ∀ n s, sim.point limit n = .returned true s →
    ∀ v < sim.numBarriers, ∃ r < limit, s.realId v = some r
  /-- When a later barrier has the id, all consumers of the earlier one are through. -/
  apart : ∀ n v v' r t op, let s := (sim.point limit n).state
    v < v' → v' < s.bar → s.realId v = some r → s.realId v' = some r →
      tasks[t]? = some op → v ∈ op.waitBarriers → t ∈ s.executed
  /-- The ring buffer holds the free ids, each once. -/
  free : ∀ n, let s := (sim.point limit n).state
    ∃ l, s.nextReal.Holds l ∧ l.Nodup ∧ ∀ r, r ∈ l ↔ r < limit ∧ s.toVirtual r = none
  /-- A barrier with consumers left is the one that its id leads to. -/
  held : ∀ n v, let s := (sim.point limit n).state
    v < s.bar → s.consumerCount v ≠ 0 → ∃ r, s.realId v = some r ∧ s.toVirtual r = some v

/-- In every run the ids are reused safely, as long as the indices kept for the tasks with
several queues are right. -/
theorem reusesSafely_of_keysMatch {platform : Platform} {func : FuncOp}
    (hsim : ofFunc platform func = some sim) (hdyn : 0 < func.numBarriers)
    (hkeys : sim.tasks.KeysMatch) (limit : ℕ) : sim.ReusesSafely func.tasks limit := by
  obtain ⟨hplat, hparse, -, hreal, hdynamic⟩ := ofFunc_eq_some hsim
  rw [← hplat] at hparse
  have h := Parsed.of_parseTasks _ hparse
  have hassigned := assigned_point (by rw [hdynamic]; exact decide_eq_true hdyn) hreal
    (positiveCounts_of h) limit
  refine ⟨?_, ?_, ?_, ?_⟩
  · intro n s hs v hv
    have ha := hassigned n
    rw [hs] at ha
    have hbar := bar_of_finished (unfinished_point hs)
    obtain ⟨r, hr, hrlt, -⟩ := ha.mapped v (Nat.lt_of_lt_of_le hv hbar)
    exact ⟨r, hrlt, hr⟩
  · intro n v v' r t op s hlt hbar hr hr' hop hv
    have ha := hassigned n
    obtain ⟨i, hi, -, hin⟩ := ha.mapped v (Nat.lt_trans hlt hbar)
    obtain rfl : r = i := Option.some.inj (hr.symm.trans hi)
    have hzero : s.consumerCount v = 0 := by
      rcases hin with hheld | ⟨hc, -⟩
      · exact absurd (ha.latest r v hheld v' hbar hr') (Nat.not_le_of_lt hlt)
      · exact hc
    exact ((counters_point h n).consumer_zero (processed_point h hkeys limit n) h v).mp hzero t op
      hop hv
  · intro n
    obtain ⟨l, hl, -, hnodup, hfree⟩ := (hassigned n).free
    exact ⟨l, hl, hnodup, hfree⟩
  · intro n v s hv hc
    obtain ⟨r, hr, -, -⟩ := (hassigned n).mapped v hv
    exact ⟨r, hr, (hassigned n).toVirtual_eq hr (Or.inl hc)⟩

theorem reusesSafely_portZero : ∃ sim, ofFunc twoPorts (bothPorts 0) = some sim ∧
    sim.ReusesSafely (bothPorts 0).tasks 1 := by
  obtain ⟨sim, hsim⟩ : ∃ sim, ofFunc twoPorts (bothPorts 0) = some sim :=
    Option.isSome_iff_exists.mp (by decide)
  obtain ⟨hplat, hparse, -⟩ := ofFunc_eq_some hsim
  exact ⟨sim, hsim, reusesSafely_of_keysMatch hsim (by decide)
    (keysMatch_portZero (hplat ▸ hparse)) 1⟩

/-- With port 1 first, barrier 1 gets the id of barrier 0, which task 2 has not waited for yet. -/
theorem not_reusesSafely_portOne : ∃ sim, ofFunc twoPorts (bothPorts 1) = some sim ∧
    (∃ s, sim.simulateBarriers (some 1) = some (true, s)) ∧
    ¬ sim.ReusesSafely (bothPorts 1).tasks 1 := by
  have hrun : ((ofFunc twoPorts (bothPorts 1)).bind fun sim =>
      (sim.simulateBarriers (some 1)).map fun r =>
        (r.1, r.2.executed, r.2.bar, r.2.realId 0, r.2.realId 1)) =
        some (true, [0, 1, 1, 3, 4], 2, some 0, some 0) := by
    decide +kernel
  obtain ⟨sim, hsim, hrun⟩ := Option.bind_eq_some_iff.mp hrun
  obtain ⟨⟨success, s⟩, hrun, heq⟩ := Option.map_eq_some_iff.mp hrun
  simp only [Prod.mk.injEq] at heq
  obtain ⟨rfl, hexec, hbar, hreal, hreal'⟩ := heq
  refine ⟨sim, hsim, ⟨s, hrun⟩, fun h => ?_⟩
  have hpoint := (simulateBarriers_iff.mp hrun).2
  have happ := h.apart (sim.maxSteps 1) 0 1 0 2 ⟨.dma 0 .DDR none, [0], []⟩
  dsimp only at happ
  rw [show sim.point 1 (sim.maxSteps 1) = .returned true s from hpoint] at happ
  have hmem := happ Nat.zero_lt_one (by show 1 < s.bar; rw [hbar]; decide) hreal hreal' rfl
    (by decide)
  rw [show (Point.returned true s).state.executed = [0, 1, 1, 3, 4] from hexec] at hmem
  exact absurd hmem (by decide)

end BarrierSimulator
end Vpux.Simulator
