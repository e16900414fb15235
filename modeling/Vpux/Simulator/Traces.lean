import Vpux.Graph.Reorder
import Vpux.Simulator.Polling

/-! What tasks the interleavings of a function execute, and in what orders. -/
namespace Vpux.Simulator.BarrierSimulator
open Relation VPURT

/-- The entries of the queues that an interleaving executes, in their order. -/
inductive Executes (sim : BarrierSimulator) (limit : ℕ) : List (Queue × ℕ) → Interleaving → Prop
  | start : Executes sim limit [] interleavingStart
  | map {order : List (Queue × ℕ)} {st : Interleaving} {r : ℕ} (h : Executes sim limit order st)
      (hbar : st.bar < sim.numBarriers) (hr : r < limit) (hfree : st.toVirtual r = none) :
      Executes sim limit order { st with
        bar := st.bar + 1
        toVirtual := Function.update st.toVirtual r (some st.bar) }
  | execute {order : List (Queue × ℕ)} {st : Interleaving} {q : Queue} {user : BarrierUserConfig}
      (h : Executes sim limit order st) (hq : q ∈ sim.queues)
      (huser : (sim.tasks.queue q)[st.pos q]? = some user)
      (hready : sim.Ready st.toProgress user) :
      Executes sim limit (order ++ [(q, st.pos q)]) (sim.execute st q user)

/-- One task is ahead of the other one in a queue, or produces a barrier that this one waits
for. -/
def Before (sim : BarrierSimulator) (i j : Queue × ℕ) : Prop :=
  i.1 ∈ sim.queues ∧ ∃ user ∈ (sim.tasks.queue i.1)[i.2]?, ∃ user' ∈ (sim.tasks.queue j.1)[j.2]?,
    (i.1 = j.1 ∧ i.2 < j.2) ∨ ∃ v ∈ user.producer, v ∈ user'.consumer

variable {sim : BarrierSimulator} {limit limit' : ℕ} {order order' : List (Queue × ℕ)}
  {st st' : Interleaving}

section Executes

section

variable (h : sim.Executes limit order st)
include h

theorem Executes.reachable : sim.Reachable limit st := by
  induction h with
  | start => exact .refl
  | map _ hbar hr hfree ih => exact .tail ih (.map hbar hr hfree)
  | execute _ hq huser hready ih => exact .tail ih (.execute hq huser hready)

theorem Executes.mem_iff {i : Queue × ℕ} :
    i ∈ order ↔ i.1 ∈ sim.queues ∧ i.2 < st.pos i.1 := by
  induction h with
  | start => simp [interleavingStart]
  | map _ _ _ _ ih => exact ih
  | @execute order st q user _ hq _ _ ih =>
    rw [List.mem_append, ih, List.mem_singleton]
    show _ ↔ i.1 ∈ sim.queues ∧ i.2 < (st.toProgress.pop q).pos i.1
    obtain ⟨q', n⟩ := i
    by_cases hqq : q' = q
    · subst hqq
      rw [Progress.pop_pos_self, Prod.mk.injEq]
      simp only [hq, true_and]
      omega
    · simp [Progress.pop_pos_of_ne _ hqq, hqq]

theorem Executes.nodup : order.Nodup := by
  induction h with
  | start => exact .nil
  | map _ _ _ _ ih => exact ih
  | execute h _ _ _ ih =>
    rw [List.nodup_append]
    refine ⟨ih, List.nodup_singleton _, fun i hi j hj => ?_⟩
    rintro rfl
    obtain rfl := List.mem_singleton.mp hj
    exact Nat.lt_irrefl _ (h.mem_iff.mp hi).2

/-- The queues go in order, and no wait ends before the last producer of the barrier. -/
theorem Executes.respects :
    Graph.Respects sim.Before order := by
  induction h with
  | start => exact fun i j _ hj => absurd hj List.not_mem_nil
  | map _ _ _ _ ih => exact ih
  | @execute order st q user h hq huser hready ih =>
    refine ih.snoc (fun hmem => Nat.lt_irrefl _ (h.mem_iff.mp hmem).2) fun i hi => ?_
    obtain ⟨hqi, user', hi', user'', hj, ⟨hsame, hlt⟩ | ⟨v, hv, hv'⟩⟩ := hi
    · exact h.mem_iff.mpr ⟨hqi, by rwa [hsame]⟩
    · obtain rfl := Option.some.inj (huser.symm.trans hj)
      refine h.mem_iff.mpr ⟨hqi, Nat.lt_of_not_le fun hle => ?_⟩
      have hleft : sim.toProduce st.pos v = true :=
        anyLeft_iff.mpr ⟨i.1, hqi, i.2, hle, user', hi', by simpa using hv⟩
      rw [(hready.waits v hv').2] at hleft
      cases hleft

end

theorem Reachable.exists_executes (h : sim.Reachable limit st) :
    ∃ order, sim.Executes limit order st := by
  induction h with
  | refl => exact ⟨[], .start⟩
  | tail _ hstep ih =>
    obtain ⟨order, h⟩ := ih
    cases hstep with
    | map hbar hr hfree => exact ⟨_, h.map hbar hr hfree⟩
    | execute hq huser hready => exact ⟨_, h.execute hq huser hready⟩

theorem Executes.mem_iff_of_complete (h : sim.Executes limit order st)
    (hc : sim.Complete st.toProgress) {i : Queue × ℕ} :
    i ∈ order ↔ i.1 ∈ sim.queues ∧ i.2 < (sim.tasks.queue i.1).length := by
  rw [h.mem_iff]
  exact and_congr_right fun hq => by rw [hc.2 _ hq]

end Executes

section Simulation

theorem Reachable.mono (h : sim.Reachable limit st) (hle : limit ≤ limit') :
    sim.Reachable limit' st := by
  induction h with
  | refl => exact .refl
  | tail _ hstep ih =>
    refine ReflTransGen.tail ih ?_
    cases hstep with
    | map hbar hr hfree => exact .map hbar (hr.trans_le hle) hfree
    | execute hq huser hready => exact .execute hq huser hready

variable {platform : Platform} {func : FuncOp} {numBarriers : Option ℕ} {s : SimState}

/-- The verdict of a simulation, with the simulation itself. -/
theorem simulateBarriers_eq_some_iff (hsim : ofFunc platform func = some sim)
    (hdyn : 0 < func.numBarriers) (hports : ∀ op ∈ func.tasks, numPorts platform op ≤ 1) :
    (∃ s, sim.simulateBarriers numBarriers = some (true, s)) ↔
      numBarriers.getD platform.availableBarriers ≤ platform.availableBarriers ∧
        ∃ st, sim.Reachable (numBarriers.getD platform.availableBarriers) st ∧
          sim.Complete st.toProgress := by
  obtain ⟨rfl, hparse, -, hreal, hdynamic⟩ := ofFunc_eq_some hsim
  have hsearched := fun limit => @searched_point sim limit _ (Parsed.of_parseTasks _ hparse) hports
    (hdynamic.trans (decide_eq_true hdyn)) hreal (sim.maxSteps limit)
  simp only [simulateBarriers_iff]
  generalize numBarriers.getD sim.platform.availableBarriers = limit at *
  obtain ⟨success, s, hend⟩ := point_maxSteps sim limit
  have hverdict := (hend ▸ hsearched limit).verdict.complete
  rw [hend]
  simp only [Point.returned.injEq, exists_and_left, exists_eq', and_true, ← hverdict]

/-- More physical barriers do no harm. -/
theorem simulateBarriers_mono (hsim : ofFunc platform func = some sim)
    (hdyn : 0 < func.numBarriers) (hports : ∀ op ∈ func.tasks, numPorts platform op ≤ 1)
    (hrun : sim.simulateBarriers (some limit) = some (true, s)) (hle : limit ≤ limit')
    (hlimit : limit' ≤ platform.availableBarriers) :
    ∃ s', sim.simulateBarriers (some limit') = some (true, s') := by
  obtain ⟨-, st, hreach, hall⟩ := (simulateBarriers_eq_some_iff hsim hdyn hports).mp ⟨s, hrun⟩
  exact (simulateBarriers_eq_some_iff hsim hdyn hports).mpr ⟨hlimit, st, hreach.mono hle, hall⟩

/-- Two physical barriers are enough, so three are. -/
theorem simulateBarriers_mono_relay : ∃ sim s, ofFunc twoPorts relay = some sim ∧
    sim.simulateBarriers (some 3) = some (true, s) := by
  have hrun : ((ofFunc twoPorts relay).bind fun sim => sim.simulateBarriers (some 2)).map Prod.fst =
      some true := by decide +kernel
  obtain ⟨⟨_, s⟩, hrun, rfl⟩ := Option.map_eq_some_iff.mp hrun
  obtain ⟨sim, hsim, hrun⟩ := Option.bind_eq_some_iff.mp hrun
  obtain ⟨s', hrun'⟩ := simulateBarriers_mono hsim Nat.two_pos (by decide) hrun (Nat.le_succ 2)
    (by decide)
  exact ⟨sim, s', hsim, hrun'⟩

/-- An order in which a maximal interleaving executes the tasks, each of them once. -/
structure Schedules (sim : BarrierSimulator) (limit : ℕ) (order : List (Queue × ℕ)) : Prop where
  maximal : ∃ st, sim.Executes limit order st ∧ Graph.Stuck (sim.InterleavingStep limit) st
  nodup : order.Nodup
  mem_iff : ∀ i, i ∈ order ↔ i.1 ∈ sim.queues ∧ i.2 < (sim.tasks.queue i.1).length

/-- The first and the second task of the relay write the same cell. -/
def stamp (i : Queue × ℕ) : Graph.Operation Unit (Queue × ℕ) where
  reads := ∅
  writes := {_x | i = (.dma 0, 0) ∨ i = (.upa, 0)}
  effect m x := if i = (.dma 0, 0) ∨ i = (.upa, 0) then i else m x
  frame _ _ hx := if_neg hx
  determined _ _ _ _ hx := (if_pos hx).trans (if_pos hx).symm

end Simulation

end Vpux.Simulator.BarrierSimulator
