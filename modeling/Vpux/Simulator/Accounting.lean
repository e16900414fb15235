import Vpux.Simulator.Steps

/-! Which tasks the simulation has processed, and what they took off the counters. A task with
several queues is recognised by the indices kept for it, which name ports; all is well as long
as these are also the indices of its queues. -/
namespace Vpux.Simulator
open VPURT Data

/-- The indices kept for each task with several queues are those of its queue entries. -/
def Parsed.KeysMatch (p : Parsed) : Prop :=
  ∀ t, 1 < (p.dmaTaskIndexs t).length →
    ∀ e i, (e, i) ∈ p.dmaTaskIndexs t ↔ p.taskAt (.dma e) i = some t

theorem Parsed.keysMatch_iff {platform : Platform} {tasks : List TaskOp} {p : Parsed}
    (h : p.Of platform tasks) : p.KeysMatch ↔
      ∀ t ∈ List.range tasks.length, 1 < (p.dmaTaskIndexs t).length →
        (∀ x ∈ p.dmaTaskIndexs t, p.taskAt (.dma x.1) x.2 = some t) ∧
        ∀ e ∈ List.range platform.dmaPortCount, ∀ i ∈ List.range (p.queue (.dma e)).length,
          p.taskAt (.dma e) i = some t → (e, i) ∈ p.dmaTaskIndexs t := by
  simp only [List.mem_range]
  constructor
  · intro hkeys t _ hmany
    exact ⟨fun x hx => (hkeys t hmany x.1 x.2).mp hx, fun e _ i _ hi => (hkeys t hmany e i).mpr hi⟩
  · intro hall t hmany e i
    have hlt : t < tasks.length := by
      by_contra hge
      rw [h.unparsed t (Nat.le_of_not_lt hge)] at hmany
      exact absurd hmany (Nat.not_lt_zero 1)
    obtain ⟨hto, hfrom⟩ := hall t hlt hmany
    constructor
    · exact hto (e, i)
    · intro hi
      obtain ⟨user, huser, -⟩ := Option.map_eq_some_iff.mp hi
      exact hfrom e (h.hasQueue hi) i (List.getElem?_eq_some_iff.mp huser).1 hi

namespace BarrierSimulator

variable {sim : BarrierSimulator} {limit : ℕ} {tasks : List TaskOp} {s s' : SimState}

section Keys

variable {q : Queue} {i t : ℕ}

section

variable (h : Parsed.Of sim.platform tasks sim.tasks)
include h

theorem mem_multiQueueKey {key : List DmaTaskIdx} (hkey : sim.multiQueueKey q i = some key) :
    ∃ e t, q = .dma e ∧ (e, i) ∈ key ∧ sim.tasks.dmaTaskIndexs t = key ∧ 1 < key.length := by
  cases q with
  | dma e =>
    have hmem := (sim.platform.mapOrder_perm _).mem_iff.mp (List.mem_of_find?_eq_some hkey)
    obtain ⟨t, ht, hlen⟩ := (h.multi key).mp hmem
    have hfound := List.find?_some hkey
    exact ⟨e, t, rfl, by simpa using hfound, ht, hlen⟩
  | dpu => cases hkey
  | act => cases hkey
  | upa => cases hkey

variable (hkeys : sim.tasks.KeysMatch) (ht : sim.tasks.taskAt q i = some t)
include hkeys ht

theorem multiQueueKey_single (hone : ¬ 1 < (sim.tasks.dmaTaskIndexs t).length) :
    sim.multiQueueKey q i = none := by
  cases hkey : sim.multiQueueKey q i with
  | none => rfl
  | some key =>
    obtain ⟨e, t', rfl, hmem, rfl, hlen⟩ := mem_multiQueueKey h hkey
    obtain rfl : t' = t := Option.some.inj (((hkeys t' hlen e i).mp hmem).symm.trans ht)
    exact absurd hlen hone

theorem multiQueueKey_multi (hmany : 1 < (sim.tasks.dmaTaskIndexs t).length) :
    sim.multiQueueKey q i = some (sim.tasks.dmaTaskIndexs t) := by
  obtain ⟨e, rfl⟩ := h.dma ht hmany
  have hin : sim.tasks.dmaTaskIndexs t ∈ sim.platform.mapOrder sim.tasks.multiQueueDmaTasks :=
    (sim.platform.mapOrder_perm _).mem_iff.mpr ((h.multi _).mpr ⟨t, rfl, hmany⟩)
  have hfind : (sim.multiQueueKey (.dma e) i).isSome = true := by
    unfold multiQueueKey
    rw [List.find?_isSome]
    exact ⟨_, hin, by simpa using (hkeys t hmany e i).mpr ht⟩
  obtain ⟨key, hkey⟩ := Option.isSome_iff_exists.mp hfind
  obtain ⟨e', t', he, hmem, rfl, hlen⟩ := mem_multiQueueKey h hkey
  obtain rfl := Queue.dma.inj he
  obtain rfl : t' = t := Option.some.inj (((hkeys t' hlen e i).mp hmem).symm.trans ht)
  exact hkey

end

theorem dmaTaskIndexs_inj (hkeys : sim.tasks.KeysMatch) {t' : ℕ}
    (hmany : 1 < (sim.tasks.dmaTaskIndexs t).length)
    (heq : sim.tasks.dmaTaskIndexs t = sim.tasks.dmaTaskIndexs t') : t = t' := by
  obtain ⟨⟨e, i⟩, hmem⟩ := List.exists_mem_of_length_pos (Nat.lt_of_succ_lt hmany)
  have ht := (hkeys t hmany e i).mp hmem
  have ht' := (hkeys t' (heq ▸ hmany) e i).mp (heq ▸ hmem)
  exact Option.some.inj (ht.symm.trans ht')

end Keys

/-- The counters are the totals less what the processed tasks took. -/
structure Counters (sim : BarrierSimulator) (tasks : List TaskOp) (s : SimState) : Prop where
  consumer : ∀ v, s.consumerCount v + (s.executed.map (waitCount tasks v)).sum =
    sim.tasks.consumerCount v
  producer : ∀ v, s.producerCount v + (s.executed.map (updateCount tasks v)).sum =
    sim.tasks.producerCount v

variable (h : Parsed.Of sim.platform tasks sim.tasks)

include h in
theorem waitCount_entry {q : Queue} {user : BarrierUserConfig} (huser : user ∈ sim.tasks.queue q)
    (v : ℕ) :
    waitCount tasks v user.task = user.count * user.consumer.count v ∧
      updateCount tasks v user.task = user.count * user.producer.count v := by
  obtain ⟨-, op, hop, heq⟩ := h.entry q user huser
  rw [waitCount, updateCount, hop, heq]
  exact ⟨rfl, rfl⟩

include h in
theorem Counters.pollQueue {q : Queue} (hc : sim.Counters tasks s)
    (hrun : sim.pollQueue limit q s = .advanced s') :
    sim.Counters tasks s' := by
  obtain ⟨user, huser, ⟨key, t, -, -, rfl⟩ | ⟨-, s₁, hsim, rfl⟩⟩ := pollQueue_eq_advanced hrun
  · exact ⟨hc.consumer, hc.producer⟩
  · have hcounted := counted_processSim hsim
    have hentry := waitCount_entry h (List.mem_of_getElem? huser)
    constructor
    · intro v
      show s₁.consumerCount v + ((s₁.executed ++ [user.task]).map (waitCount tasks v)).sum = _
      rw [← hc.consumer v, hcounted.consumer v, hcounted.executed, List.map_append,
        List.sum_append, List.map_singleton, List.sum_singleton, (hentry v).1]
      omega
    · intro v
      show s₁.producerCount v + ((s₁.executed ++ [user.task]).map (updateCount tasks v)).sum = _
      rw [← hc.producer v, hcounted.producer v, hcounted.executed, List.map_append,
        List.sum_append, List.map_singleton, List.sum_singleton, (hentry v).2]
      omega

theorem mapBarrier_frame (sim : BarrierSimulator) (s : SimState) :
    (sim.mapBarrier s).consumerCount = s.consumerCount ∧
    (sim.mapBarrier s).producerCount = s.producerCount ∧ (sim.mapBarrier s).pos = s.pos ∧
    (sim.mapBarrier s).status = s.status ∧ (sim.mapBarrier s).executed = s.executed := by
  unfold mapBarrier
  split_ifs with hdyn
  · exact ⟨rfl, rfl, rfl, rfl, rfl⟩
  · cases s.realId s.bar with
    | none => exact ⟨rfl, rfl, rfl, rfl, rfl⟩
    | some r => exact ⟨rfl, rfl, rfl, rfl, rfl⟩

theorem Counters.mapBarrier (hc : sim.Counters tasks s) :
    sim.Counters tasks (sim.mapBarrier s) := by
  obtain ⟨hcons, hprod, -, -, hexec⟩ := mapBarrier_frame sim s
  constructor
  · rw [hcons, hexec]
    exact hc.consumer
  · rw [hprod, hexec]
    exact hc.producer

theorem Counters.initial : sim.Counters tasks (sim.initial limit) :=
  ⟨fun _ => rfl, fun _ => rfl⟩

include h in
theorem counters_point (n : ℕ) : sim.Counters tasks (sim.point limit n).state :=
  invariant_point .initial (fun _ hc _ _ => hc.mapBarrier)
    (fun _ _ _ hc hrun => hc.pollQueue h hrun) n

/-- The processed tasks are those of the entries that are behind the heads of the queues. -/
structure Processed (sim : BarrierSimulator) (s : SimState) : Prop where
  nodup : s.executed.Nodup
  visited : ∀ {q i t}, i < s.pos q → sim.tasks.taskAt q i = some t → t ∈ s.executed
  started : ∀ t ∈ s.executed, ∃ q i, i < s.pos q ∧ sim.tasks.taskAt q i = some t
  marked : ∀ t, 1 < (sim.tasks.dmaTaskIndexs t).length →
    s.status (sim.tasks.dmaTaskIndexs t) = if t ∈ s.executed then some t else none

theorem Processed.initial : sim.Processed (sim.initial limit) where
  nodup := List.nodup_nil
  visited hi := absurd hi (Nat.not_lt_zero _)
  started t ht := by cases ht
  marked t _ := rfl

section Polling

variable {q : Queue} {user : BarrierUserConfig}

theorem taskAt_head (huser : (sim.tasks.queue q)[s.pos q]? = some user) :
    sim.tasks.taskAt q (s.pos q) = some user.task := by
  unfold Parsed.taskAt
  rw [huser]
  rfl

variable (hp : sim.Processed s) (h : Parsed.Of sim.platform tasks sim.tasks)
  (hkeys : sim.tasks.KeysMatch)
include hp h hkeys

/-- The head of a queue is skipped only when its own task has been processed. -/
theorem Processed.skip (huser : (sim.tasks.queue q)[s.pos q]? = some user) {key : List DmaTaskIdx}
    {t : ℕ} (hkey : sim.multiQueueKey q (s.pos q) = some key) (ht : s.status key = some t) :
    t = user.task ∧ user.task ∈ s.executed := by
  have hhead := taskAt_head huser
  by_cases hmany : 1 < (sim.tasks.dmaTaskIndexs user.task).length
  · have hown := multiQueueKey_multi h hkeys hhead hmany
    obtain rfl := Option.some.inj (hown.symm.trans hkey)
    rw [hp.marked _ hmany] at ht
    split_ifs at ht with hmem
    exact ⟨(Option.some.inj ht).symm, hmem⟩
  · rw [multiQueueKey_single h hkeys hhead hmany] at hkey
    cases hkey

theorem Processed.fresh (huser : (sim.tasks.queue q)[s.pos q]? = some user)
    (hkey : (sim.multiQueueKey q (s.pos q)).bind s.status = none) : user.task ∉ s.executed := by
  intro hmem
  have hhead := taskAt_head huser
  by_cases hmany : 1 < (sim.tasks.dmaTaskIndexs user.task).length
  · rw [multiQueueKey_multi h hkeys hhead hmany, Option.bind_some, hp.marked _ hmany,
      if_pos hmem] at hkey
    cases hkey
  · obtain ⟨q', i', hi', ht'⟩ := hp.started _ hmem
    rcases h.single hhead ht' with ⟨rfl, heq⟩ | hmany'
    · omega
    · exact hmany hmany'

theorem Processed.pollQueue (hrun : sim.pollQueue limit q s = .advanced s') : sim.Processed s' := by
  have hbehind : ∀ {p i : _}, i < Function.update s.pos q (s.pos q + 1) p →
      i < s.pos p ∨ (p = q ∧ i = s.pos q) := by
    intro p i hi
    by_cases hpq : p = q
    · subst hpq
      rw [Function.update_self] at hi
      exact (Nat.lt_succ_iff_lt_or_eq.mp hi).imp id fun heq => ⟨rfl, heq⟩
    · rw [Function.update_of_ne hpq] at hi
      exact Or.inl hi
  have hstill : ∀ {p i : _}, i < s.pos p → i < Function.update s.pos q (s.pos q + 1) p := by
    intro p i hi
    by_cases hpq : p = q
    · subst hpq
      rw [Function.update_self]
      omega
    · rwa [Function.update_of_ne hpq]
  obtain ⟨user, huser, ⟨key, t, hkey, ht, rfl⟩ | ⟨hkey, s₁, hsim, rfl⟩⟩ :=
    pollQueue_eq_advanced hrun
  · have hmem := (hp.skip h hkeys huser hkey ht).2
    refine ⟨hp.nodup, ?_, ?_, hp.marked⟩
    · intro p i t' hi ht'
      rcases hbehind hi with hi | ⟨rfl, rfl⟩
      · exact hp.visited hi ht'
      · obtain rfl := Option.some.inj ((taskAt_head huser).symm.trans ht')
        exact hmem
    · intro t' ht'
      obtain ⟨p, i, hi, hti⟩ := hp.started t' ht'
      exact ⟨p, i, hstill hi, hti⟩
  · have hfresh := hp.fresh h hkeys huser hkey
    have hcounted := counted_processSim hsim
    have hexec : (advance q (markProcessed (sim.multiQueueKey q (s.pos q)) user.task s₁)).executed =
        s.executed ++ [user.task] := by
      show s₁.executed ++ [user.task] = _
      rw [hcounted.executed]
    have hpos : (advance q (markProcessed (sim.multiQueueKey q (s.pos q)) user.task s₁)).pos =
        Function.update s.pos q (s.pos q + 1) := by
      show Function.update s₁.pos q (s₁.pos q + 1) = _
      rw [hcounted.pos]
    refine ⟨?_, ?_, ?_, ?_⟩
    · rw [hexec]
      exact List.nodup_append.mpr ⟨hp.nodup, List.nodup_singleton _, fun a ha b hb => by
        obtain rfl := List.mem_singleton.mp hb
        exact fun heq => hfresh (heq ▸ ha)⟩
    · intro p i t' hi ht'
      rw [hpos] at hi
      rw [hexec, List.mem_append, List.mem_singleton]
      rcases hbehind hi with hi | ⟨rfl, rfl⟩
      · exact Or.inl (hp.visited hi ht')
      · exact Or.inr (Option.some.inj ((taskAt_head huser).symm.trans ht')).symm
    · intro t' ht'
      rw [hexec, List.mem_append, List.mem_singleton] at ht'
      rw [hpos]
      rcases ht' with ht' | rfl
      · obtain ⟨p, i, hi, hti⟩ := hp.started t' ht'
        exact ⟨p, i, hstill hi, hti⟩
      · refine ⟨q, s.pos q, ?_, taskAt_head huser⟩
        rw [Function.update_self]
        exact Nat.lt_succ_self _
    · intro t' hmany'
      rw [hexec]
      simp only [List.mem_append, List.mem_singleton]
      unfold advance markProcessed
      rw [hcounted.status]
      by_cases hmany : 1 < (sim.tasks.dmaTaskIndexs user.task).length
      · rw [multiQueueKey_multi h hkeys (taskAt_head huser) hmany]
        dsimp only
        by_cases heq : t' = user.task
        · subst heq
          rw [Function.update_self, if_pos (Or.inr rfl)]
        · have hne : sim.tasks.dmaTaskIndexs t' ≠ sim.tasks.dmaTaskIndexs user.task :=
            fun hsame => heq (dmaTaskIndexs_inj hkeys hmany' hsame)
          rw [Function.update_of_ne hne, hp.marked t' hmany']
          simp [heq]
      · have hne : t' ≠ user.task := by
          rintro rfl
          exact hmany hmany'
        rw [multiQueueKey_single h hkeys (taskAt_head huser) hmany]
        rw [hp.marked t' hmany']
        simp [hne]

end Polling

theorem Processed.mapBarrier (hp : sim.Processed s) : sim.Processed (sim.mapBarrier s) := by
  obtain ⟨-, -, hpos, hstatus, hexec⟩ := mapBarrier_frame sim s
  refine ⟨?_, ?_, ?_, ?_⟩
  · rw [hexec]
    exact hp.nodup
  · rw [hpos, hexec]
    exact hp.visited
  · rw [hpos, hexec]
    exact hp.started
  · rw [hstatus, hexec]
    exact hp.marked

include h in
theorem processed_point (hkeys : sim.tasks.KeysMatch) (limit n : ℕ) :
    sim.Processed (sim.point limit n).state :=
  invariant_point .initial (fun _ hp _ _ => hp.mapBarrier)
    (fun _ _ _ hp hrun => hp.pollQueue h hkeys hrun) n

theorem Processed.perm (hp : sim.Processed s) (h : Parsed.Of sim.platform tasks sim.tasks)
    (hend : sim.unfinished s = false) : s.executed.Perm (List.range tasks.length) := by
  rw [List.perm_ext_iff_of_nodup hp.nodup List.nodup_range]
  intro t
  rw [List.mem_range]
  constructor
  · intro ht
    obtain ⟨q, i, -, hti⟩ := hp.started t ht
    exact h.task_lt hti
  · intro ht
    obtain ⟨q, i, hti⟩ := h.entered t ht
    have hq : q ∈ sim.queues := mem_queues.mpr (h.hasQueue hti)
    have hlen := pos_of_finished hend hq
    have hi : i < (sim.tasks.queue q).length := by
      obtain ⟨user, huser, -⟩ := Option.map_eq_some_iff.mp hti
      exact (List.getElem?_eq_some_iff.mp huser).1
    exact hp.visited (by omega) hti

/-- Every task takes part in the synchronisation exactly once. -/
structure TakesPartOnce (sim : BarrierSimulator) (tasks : List TaskOp) (limit : ℕ) : Prop where
  processed : ∀ n s, sim.point limit n = .returned true s →
    s.executed.Perm (List.range tasks.length)
  counted : ∀ n, sim.Counters tasks (sim.point limit n).state ∧
    (sim.point limit n).state.executed.Nodup
  /-- An entry is skipped only for the sake of its own task. -/
  skipped : ∀ n q user key t, let s := (sim.point limit n).state
    (sim.tasks.queue q)[s.pos q]? = some user → sim.multiQueueKey q (s.pos q) = some key →
      s.status key = some t → t = user.task

/-- As long as the indices kept for the tasks with several queues are right, every task takes
part once, in every run. -/
theorem takesPartOnce_of_keysMatch (hparse : parseTasks sim.platform tasks = some sim.tasks)
    (hkeys : sim.tasks.KeysMatch) (limit : ℕ) : sim.TakesPartOnce tasks limit where
  processed n s hs := by
    have h := Parsed.of_parseTasks tasks hparse
    have hp := processed_point h hkeys limit n
    rw [hs] at hp
    exact hp.perm h (unfinished_point hs)
  counted n := by
    have h := Parsed.of_parseTasks tasks hparse
    exact ⟨counters_point h n, (processed_point h hkeys limit n).nodup⟩
  skipped n q user key t := by
    have h := Parsed.of_parseTasks tasks hparse
    intro s huser hkey ht
    exact ((processed_point h hkeys limit n).skip h hkeys huser hkey ht).1

def twoPorts : Platform where
  dmaPortCount := 2
  availableBarriers := 64
  barrierMaxVariantCount := 256
  dmaPortCount_pos := Nat.two_pos
  mapOrder := id
  mapOrder_perm := List.Perm.refl

/-- Barrier 0 goes from a DMA on port `first` to a DMA on both ports and to one on the other port;
barrier 1 from an UPA task to an ACT task. -/
def bothPorts (first : ℕ) : FuncOp where
  numBarriers := 2
  tasks := [⟨.dma first .DDR none, [], [0]⟩, ⟨.dma 0 .DDR (some ⟨2, Nat.two_pos⟩), [0], []⟩,
    ⟨.dma (1 - first) .DDR none, [0], []⟩, ⟨.upa, [], [1]⟩, ⟨.act 1, [1], []⟩]

theorem keysMatch_portZero {p : Parsed}
    (hparse : parseTasks twoPorts (bothPorts 0).tasks = some p) : p.KeysMatch := by
  rw [Parsed.keysMatch_iff (Parsed.of_parseTasks _ hparse)]
  have hall : (parseTasks twoPorts (bothPorts 0).tasks).all (fun p => decide
      (∀ t ∈ List.range (bothPorts 0).tasks.length, 1 < (p.dmaTaskIndexs t).length →
        (∀ x ∈ p.dmaTaskIndexs t, p.taskAt (.dma x.1) x.2 = some t) ∧
        ∀ e ∈ List.range twoPorts.dmaPortCount, ∀ i ∈ List.range (p.queue (.dma e)).length,
          p.taskAt (.dma e) i = some t → (e, i) ∈ p.dmaTaskIndexs t)) = true := by
    decide
  rw [hparse, Option.all_some, decide_eq_true_eq] at hall
  exact hall

theorem takesPartOnce_portZero : ∃ sim, ofFunc twoPorts (bothPorts 0) = some sim ∧
    sim.TakesPartOnce (bothPorts 0).tasks 1 := by
  obtain ⟨sim, hsim⟩ : ∃ sim, ofFunc twoPorts (bothPorts 0) = some sim :=
    Option.isSome_iff_exists.mp (by decide)
  obtain ⟨hplat, hparse, -⟩ := ofFunc_eq_some hsim
  exact ⟨sim, hsim, takesPartOnce_of_keysMatch (hplat ▸ hparse)
    (keysMatch_portZero (hplat ▸ hparse)) 1⟩

/-- With port 1 first, the task on both ports is processed twice and the next one never. -/
theorem not_takesPartOnce_portOne : ∃ sim, ofFunc twoPorts (bothPorts 1) = some sim ∧
    ¬ sim.TakesPartOnce (bothPorts 1).tasks 1 := by
  have hrun : ((ofFunc twoPorts (bothPorts 1)).bind fun sim =>
      (sim.simulateBarriers (some 1)).map fun r => (r.1, r.2.executed)) =
        some (true, [0, 1, 1, 3, 4]) := by
    decide +kernel
  obtain ⟨sim, hsim, hrun⟩ := Option.bind_eq_some_iff.mp hrun
  obtain ⟨⟨success, s⟩, hrun, heq⟩ := Option.map_eq_some_iff.mp hrun
  obtain ⟨rfl, hexec⟩ := Prod.mk.inj heq
  refine ⟨sim, hsim, fun h => ?_⟩
  have hperm := h.processed _ s (simulateBarriers_iff.mp hrun).2
  have hnodup := hperm.nodup_iff.mpr List.nodup_range
  rw [hexec] at hnodup
  exact absurd hnodup (by decide)

end BarrierSimulator
end Vpux.Simulator
