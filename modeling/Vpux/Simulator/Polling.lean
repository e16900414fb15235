import Vpux.Simulator.Reuse
import Vpux.Simulator.Interleaving
import Mathlib.Algebra.Order.BigOperators.Group.Finset

/-! The simulation runs one of the interleavings, and stops only where all of them stop. Every
task is taken to have one queue. -/
namespace Vpux.Simulator
open VPURT Data Relation

/-- What the simulation has done, as a state of an interleaving -/
def SimState.interleaving (s : SimState) : Interleaving := ⟨⟨s.bar, s.pos⟩, s.toVirtual⟩

namespace BarrierSimulator

variable {sim : BarrierSimulator} {limit : ℕ} {tasks : List TaskOp} {s s' : SimState}

section SingleQueue

variable (h : Parsed.Of sim.platform tasks sim.tasks)
  (hports : ∀ op ∈ tasks, numPorts sim.platform op ≤ 1)

include h hports

theorem single_queue (t : ℕ) : ¬ 1 < (sim.tasks.dmaTaskIndexs t).length := by
  intro hmany
  cases hop : tasks[t]? with
  | none =>
    rw [h.unparsed t (List.getElem?_eq_none_iff.mp hop)] at hmany
    exact absurd hmany (Nat.not_lt_zero 1)
  | some op =>
    have hle := hports op (List.mem_of_getElem? hop)
    rw [h.indexs hop] at hmany
    omega

theorem keysMatch_single : sim.tasks.KeysMatch :=
  fun t hmany => absurd hmany (single_queue h hports t)

theorem multiQueueKey_none (q : Queue) (i : ℕ) : sim.multiQueueKey q i = none := by
  cases hkey : sim.multiQueueKey q i with
  | none => rfl
  | some key =>
    obtain ⟨-, t, -, -, rfl, hlen⟩ := mem_multiQueueKey h hkey
    exact absurd hlen (single_queue h hports t)

theorem anyLeft_iff_task (hp : sim.Processed s) {p : BarrierUserConfig → Bool} :
    sim.anyLeft s.pos p = true ↔ ∃ t op, tasks[t]? = some op ∧ t ∉ s.executed ∧
      p (userConfig t op (taskCount op)) = true := by
  rw [anyLeft_iff]
  constructor
  · rintro ⟨q, -, i, hle, user, huser, hprop⟩
    obtain ⟨-, op, hop, heq⟩ := h.entry q user (List.mem_of_getElem? huser)
    have hat : sim.tasks.taskAt q i = some user.task := by
      unfold Parsed.taskAt
      rw [huser]
      rfl
    refine ⟨user.task, op, hop, ?_, heq ▸ hprop⟩
    intro hmem
    obtain ⟨q', i', hlt, hat'⟩ := hp.started _ hmem
    rcases h.single hat hat' with ⟨rfl, rfl⟩ | hmany
    · exact absurd hlt (Nat.not_lt.mpr hle)
    · exact single_queue h hports _ hmany
  · rintro ⟨t, op, hop, hleft, hprop⟩
    obtain ⟨q, i, hat⟩ := h.entered t (List.getElem?_eq_some_iff.mp hop).1
    obtain ⟨user, huser, rfl⟩ := Option.map_eq_some_iff.mp hat
    obtain ⟨-, op', hop', heq⟩ := h.entry q user (List.mem_of_getElem? huser)
    obtain rfl := Option.some.inj (hop.symm.trans hop')
    refine ⟨q, mem_queues.mpr (h.hasQueue hat), i, ?_, user, huser, heq ▸ hprop⟩
    by_contra hlt
    exact hleft (hp.visited (Nat.lt_of_not_le hlt) hat)

variable (hc : sim.Counters tasks s) (hp : sim.Processed s) (v : ℕ)
include hc hp v

theorem toProduce_iff :
    sim.toProduce s.pos v = false ↔ s.producerCount v = 0 := by
  rw [hc.producer_zero hp h, ← Bool.not_eq_true]
  unfold toProduce
  rw [anyLeft_iff_task h hports hp]
  simp only [decide_eq_true_eq, not_exists, not_and]
  constructor
  · intro hall t op hop hv
    by_contra hleft
    exact hall t op hop hleft hv
  · intro hall t op hop hleft hv
    exact hleft (hall t op hop hv)

theorem toConsume_iff :
    sim.toConsume s.pos v = false ↔ s.consumerCount v = 0 := by
  rw [hc.consumer_zero hp h, ← Bool.not_eq_true]
  unfold toConsume
  rw [anyLeft_iff_task h hports hp]
  simp only [decide_eq_true_eq, not_exists, not_and]
  constructor
  · intro hall t op hop hv
    by_contra hleft
    exact hall t op hop hleft hv
  · intro hall t op hop hleft hv
    exact hleft (hall t op hop hv)

end SingleQueue

section Dynamic

variable {user : BarrierUserConfig} {count : ℕ} {bars : List ℕ}

theorem Assigned.isBarrierMapped_iff (h : Assigned limit s) (hdyn : sim.isDynamicBarriers = true)
    {v : ℕ} : sim.isBarrierMapped limit s v = true ↔ v < s.bar := by
  rw [BarrierSimulator.isBarrierMapped_iff]
  constructor
  · rintro ⟨r, hr, -⟩
    exact h.lt_bar hr
  · intro hv
    obtain ⟨r, hr, hlt, -⟩ := h.mapped v hv
    exact ⟨r, hr, hlt, Or.inl hdyn⟩

theorem Assigned.consume_toVirtual (h : Assigned limit s) {v : ℕ} (hpos : 0 < count)
    (hrun : sim.consume limit count s v = some s') (r w : ℕ) : s'.toVirtual r = some w ↔
      s.toVirtual r = some w ∧ ¬ (w = v ∧ s'.consumerCount v = 0) := by
  obtain ⟨i, hi, -, -, hle, rfl⟩ := consume_eq_some hrun
  have hheld := h.toVirtual_eq hi (Or.inl (by omega))
  split_ifs with hlast
  · show Function.update s.toVirtual i none r = some w ↔
      s.toVirtual r = some w ∧ ¬ (w = v ∧ Function.update s.consumerCount v 0 v = 0)
    rw [Function.update_self]
    by_cases hri : r = i
    · subst hri
      rw [Function.update_self, hheld]
      constructor
      · intro hnone
        cases hnone
      · rintro ⟨heq, hne⟩
        exact absurd ⟨(Option.some.inj heq).symm, rfl⟩ hne
    · rw [Function.update_of_ne hri]
      refine ⟨fun hr => ⟨hr, ?_⟩, And.left⟩
      rintro ⟨rfl, -⟩
      have hreal := (h.holder r w hr).2.2
      exact hri (Option.some.inj (hreal.symm.trans hi))
  · show s.toVirtual r = some w ↔ s.toVirtual r = some w ∧
      ¬ (w = v ∧ Function.update s.consumerCount v (s.consumerCount v - count) v = 0)
    rw [Function.update_self]
    refine ⟨fun hr => ⟨hr, ?_⟩, And.left⟩
    rintro ⟨-, hzero⟩
    omega

theorem Assigned.consumeAll_toVirtual (h : Assigned limit s) (hdyn : sim.isDynamicBarriers = true)
    (hpos : 0 < count) (hrun : bars.foldlM (sim.consume limit count) s = some s') (r w : ℕ) :
    s'.toVirtual r = some w ↔
      s.toVirtual r = some w ∧ ¬ (w ∈ bars ∧ s'.consumerCount w = 0) := by
  induction bars generalizing s with
  | nil =>
    obtain rfl : s = s' := by simpa using hrun
    simp
  | cons v bars ih =>
    obtain ⟨s₁, h₁, h₂⟩ := Option.bind_eq_some_iff.mp hrun
    rw [ih (h.consume hdyn hpos h₁) h₂, h.consume_toVirtual hpos h₁, List.mem_cons]
    have hcount := (counted_consumeAll h₂).consumer w
    constructor
    · rintro ⟨⟨hr, hfirst⟩, hrest⟩
      refine ⟨hr, ?_⟩
      rintro ⟨rfl | hmem, hzero⟩
      · by_cases hmem : w ∈ bars
        · exact hrest ⟨hmem, hzero⟩
        · rw [List.count_eq_zero_of_not_mem hmem, hzero] at hcount
          exact hfirst ⟨rfl, hcount⟩
      · exact hrest ⟨hmem, hzero⟩
    · rintro ⟨hr, hnot⟩
      refine ⟨⟨hr, ?_⟩, fun ⟨hmem, hzero⟩ => hnot ⟨Or.inr hmem, hzero⟩⟩
      rintro ⟨rfl, hzero⟩
      exact hnot ⟨Or.inl rfl, by omega⟩

theorem Assigned.exists_consumeAll (sim : BarrierSimulator) (hdyn : sim.isDynamicBarriers = true)
    (hpos : 0 < count) (h : Assigned limit s)
      (hbars : ∀ v ∈ bars, v < s.bar ∧ s.producerCount v = 0)
    (hcount : ∀ v, count * bars.count v ≤ s.consumerCount v) :
    ∃ s', bars.foldlM (sim.consume limit count) s = some s' := by
  induction bars generalizing s with
  | nil => exact ⟨s, rfl⟩
  | cons v bars ih =>
    obtain ⟨hv, hprod⟩ := hbars v List.mem_cons_self
    obtain ⟨r, hr, -⟩ := h.mapped v hv
    have hle : count ≤ s.consumerCount v := by
      have := hcount v
      rw [List.count_cons_self, Nat.mul_add_one] at this
      omega
    have h₁ := @consume_eq sim _ _ _ _ _ hr ((h.isBarrierMapped_iff hdyn).mpr hv) hprod hle
    have hcounted := counted_consume h₁
    obtain ⟨s', hs'⟩ := ih (h.consume hdyn hpos h₁) (fun w hw => by
        have hold := hbars w (List.mem_cons_of_mem v hw)
        have hsame := hcounted.producer w
        rw [hcounted.bar]
        exact ⟨hold.1, by omega⟩) (fun w => by
        have hold := hcount w
        have hnew := hcounted.consumer w
        rw [List.count_cons, Nat.mul_add] at hold
        rw [List.count_singleton] at hnew
        omega)
    refine ⟨s', ?_⟩
    rw [List.foldlM_cons, h₁]
    exact hs'

theorem Assigned.exists_produceAll (hdyn : sim.isDynamicBarriers = true)
    (h : Assigned limit s) (hbars : ∀ v ∈ bars, v < s.bar)
    (hcount : ∀ v, count * bars.count v ≤ s.producerCount v) :
    ∃ s', bars.foldlM (sim.produce limit count) s = some s' := by
  induction bars generalizing s with
  | nil => exact ⟨s, rfl⟩
  | cons v bars ih =>
    have hle : count ≤ s.producerCount v := by
      have := hcount v
      rw [List.count_cons_self, Nat.mul_add_one] at this
      omega
    have hmapped := (h.isBarrierMapped_iff hdyn).mpr (hbars v List.mem_cons_self)
    have h₁ := @produce_eq sim _ _ _ _ hmapped hle
    obtain ⟨s', hs'⟩ := ih (h.produce h₁)
      (fun w hw => hbars w (List.mem_cons_of_mem v hw)) (fun w => by
        have hold := hcount w
        have hnew := (counted_produce h₁).producer w
        rw [List.count_cons, Nat.mul_add] at hold
        rw [List.count_singleton] at hnew
        omega)
    refine ⟨s', ?_⟩
    rw [List.foldlM_cons, h₁]
    exact hs'

theorem produceAll_toVirtual (hrun : bars.foldlM (sim.produce limit count) s = some s') :
    s'.toVirtual = s.toVirtual := by
  induction bars generalizing s with
  | nil =>
    obtain rfl : s = s' := by simpa using hrun
    rfl
  | cons v bars ih =>
    obtain ⟨s₁, h₁, h₂⟩ := Option.bind_eq_some_iff.mp hrun
    rw [ih h₂]
    obtain ⟨-, -, rfl⟩ := produce_eq_some h₁
    rfl

theorem Assigned.processSim_toVirtual (h : Assigned limit s) (hdyn : sim.isDynamicBarriers = true)
    (hpos : 0 < user.count) (hrun : sim.processSim limit user s = .Success s') (r v : ℕ) :
    s'.toVirtual r = some v ↔
      s.toVirtual r = some v ∧ ¬ (v ∈ user.consumer ∧ s'.consumerCount v = 0) := by
  obtain ⟨-, -, s₁, hc, hp⟩ := processSim_eq_success hrun
  have hsame := (counted_produceAll hp).consumer v
  rw [List.count_nil, Nat.mul_zero, Nat.add_zero] at hsame
  rw [produceAll_toVirtual hp, ← hsame]
  exact h.consumeAll_toVirtual hdyn hpos hc r v

end Dynamic

structure Explored (sim : BarrierSimulator) (limit : ℕ) (tasks : List TaskOp) (s : SimState) :
    Prop where
  assigned : Assigned limit s
  counters : sim.Counters tasks s
  processed : sim.Processed s
  reachable : sim.Reachable limit s.interleaving

section Explored

variable {q : Queue} {user : BarrierUserConfig} (h : Parsed.Of sim.platform tasks sim.tasks)
  (hports : ∀ op ∈ tasks, numPorts sim.platform op ≤ 1) (hdyn : sim.isDynamicBarriers = true)

theorem le_of_counted {w : ℕ → ℕ} {executed : List ℕ} {n left t : ℕ} (hnodup : executed.Nodup)
    (hlt : ∀ t ∈ executed, t < n) (hsum : left + (executed.map w).sum = ∑ t ∈ Finset.range n, w t)
    (ht : t < n) (hleft : t ∉ executed) : w t ≤ left := by
  rw [sum_eq_of_counted hnodup hlt hsum]
  apply Finset.single_le_sum (f := w) (fun _ _ => Nat.zero_le _)
  rw [Finset.mem_sdiff, Finset.mem_range, List.mem_toFinset]
  exact ⟨ht, hleft⟩

theorem hasBarriersToMap_iff (hdyn : sim.isDynamicBarriers = true) (ha : Assigned limit s) :
    sim.hasBarriersToMap s = true ↔ ∃ r < limit, s.toVirtual r = none := by
  obtain ⟨l, hl, -, -, hfree⟩ := ha.free
  unfold hasBarriersToMap
  rw [if_pos hdyn, Bool.not_eq_true', ← Bool.not_eq_true, hl.empty_iff]
  constructor
  · intro hne
    obtain ⟨r, hr⟩ := List.exists_mem_of_ne_nil l hne
    exact ⟨r, (hfree r).mp hr⟩
  · rintro ⟨r, hr⟩ rfl
    exact absurd ((hfree r).mpr hr) List.not_mem_nil

theorem Explored.initial (hreal : ∀ v, sim.realId v = none) (hdyn : sim.isDynamicBarriers = true) :
    sim.Explored limit tasks (sim.initial limit) where
  assigned := .initial hdyn hreal
  counters := .initial
  processed := .initial
  reachable := .refl

theorem Explored.mapBarrier (he : sim.Explored limit tasks s) (hdyn : sim.isDynamicBarriers = true)
    (hbar : s.bar < sim.numBarriers) (hmap : sim.hasBarriersToMap s = true) :
    sim.Explored limit tasks (sim.mapBarrier s) where
  assigned := he.assigned.mapBarrier hdyn hmap
  counters := he.counters.mapBarrier
  processed := he.processed.mapBarrier
  reachable := by
    obtain ⟨l, hl, -, -, hfree⟩ := he.assigned.free
    unfold hasBarriersToMap at hmap
    rw [if_pos hdyn, Bool.not_eq_true', ← Bool.not_eq_true, hl.empty_iff] at hmap
    obtain ⟨r, rest, rfl⟩ := List.exists_cons_of_ne_nil hmap
    obtain ⟨hr, hnone⟩ := (hfree r).mp List.mem_cons_self
    have hnew : (sim.mapBarrier s).interleaving = { s.interleaving with
        bar := s.bar + 1
        toVirtual := Function.update s.toVirtual r (some s.bar) } := by
      unfold BarrierSimulator.mapBarrier
      rw [if_pos hdyn, hl.front]
      rfl
    rw [hnew]
    exact he.reachable.tail (.map hbar hr hnone)

include h hports

section

variable (he : sim.Explored limit tasks s)
include he

theorem Explored.ready_iff (hdyn : sim.isDynamicBarriers = true) :
    sim.Ready s.interleaving.toProgress user ↔ (∀ v ∈ user.consumer,
      sim.isBarrierMapped limit s v = true ∧ s.producerCount v = 0) ∧
      ∀ v ∈ user.producer, sim.isBarrierMapped limit s v = true := by
  simp only [he.assigned.isBarrierMapped_iff hdyn,
    ← toProduce_iff h hports he.counters he.processed]
  exact ⟨fun hready => ⟨hready.waits, hready.posts⟩, fun hall => ⟨hall.1, hall.2⟩⟩

theorem Explored.skip_iff (hdyn : sim.isDynamicBarriers = true) :
    sim.processSim limit user s = .Skip ↔ ¬ sim.Ready s.interleaving.toProgress user := by
  rw [processSim_eq_skip, he.ready_iff h hports hdyn]
  constructor
  · rintro (⟨v, hv, hskip⟩ | ⟨v, hv, hskip⟩) ⟨hwaits, hposts⟩
    · rcases hskip with hskip | hskip
      · rw [(hwaits v hv).1] at hskip
        cases hskip
      · exact absurd (hwaits v hv).2 (Nat.ne_of_gt hskip)
    · rw [hposts v hv] at hskip
      cases hskip
  · intro hnot
    by_contra hall
    simp only [not_or, not_exists, not_and, Bool.not_eq_false, Nat.not_lt, Nat.le_zero] at hall
    exact hnot hall

theorem Explored.fresh (huser : (sim.tasks.queue q)[s.pos q]? = some user) :
    user.task ∉ s.executed := by
  apply he.processed.fresh h (keysMatch_single h hports) huser
  rw [multiQueueKey_none h hports]
  rfl

theorem Explored.exists_success (hdyn : sim.isDynamicBarriers = true)
    (huser : (sim.tasks.queue q)[s.pos q]? = some user)
    (hready : sim.Ready s.interleaving.toProgress user) :
    ∃ s', sim.processSim limit user s = .Success s' := by
  have hmem := List.mem_of_getElem? huser
  have hpos := positiveCounts_of h q user hmem
  have hlt := h.task_lt (taskAt_head huser)
  have hfresh := he.fresh h hports huser
  have hexec := fun t => he.processed.task_lt h (t := t)
  have hentry := waitCount_entry h hmem
  obtain ⟨hwaits, hposts⟩ := (he.ready_iff h hports hdyn).mp hready
  obtain ⟨s₁, hc⟩ := he.assigned.exists_consumeAll sim hdyn hpos
    (fun v hv => ⟨(hready.waits v hv).1, (hwaits v hv).2⟩) (fun v => by
      rw [← (hentry v).1]
      exact le_of_counted he.processed.nodup hexec ((he.counters.consumer v).trans (h.consumer v))
        hlt hfresh)
  have hcounted := counted_consumeAll hc
  have hposts₁ : ∀ v ∈ user.producer, v < s₁.bar := by
    rw [hcounted.bar]
    exact hready.posts
  have hcount₁ : ∀ v, user.count * user.producer.count v ≤ s₁.producerCount v := by
    intro v
    have hsame := hcounted.producer v
    have hle := le_of_counted he.processed.nodup hexec
      ((he.counters.producer v).trans (h.producer v)) hlt hfresh
    rw [(hentry v).2] at hle
    rw [List.count_nil] at hsame
    omega
  obtain ⟨s₂, hp⟩ := (he.assigned.consumeAll hdyn hpos hc).exists_produceAll hdyn hposts₁ hcount₁
  exact ⟨s₂, processSim_eq hwaits hposts hc hp⟩

end

theorem pollQueue_advanced (hrun : sim.pollQueue limit q s = .advanced s') : ∃ user s₁,
      (sim.tasks.queue q)[s.pos q]? = some user ∧ sim.processSim limit user s = .Success s₁ ∧
        s' = advance q (markProcessed none user.task s₁) := by
  obtain ⟨user, huser, ⟨key, t, hkey, -, -⟩ | ⟨-, s₁, hsim, rfl⟩⟩ := pollQueue_eq_advanced hrun
  · rw [multiQueueKey_none h hports] at hkey
    cases hkey
  · refine ⟨user, s₁, huser, hsim, ?_⟩
    rw [multiQueueKey_none h hports]

variable (he : sim.Explored limit tasks s) (hdyn : sim.isDynamicBarriers = true)
include he hdyn

theorem Explored.pollQueue (hrun : sim.pollQueue limit q s = .advanced s') :
    sim.Explored limit tasks s' := by
  have hassigned := he.assigned.pollQueue hdyn (positiveCounts_of h) hrun
  have hcounters := he.counters.pollQueue h hrun
  have hprocessed := he.processed.pollQueue h (keysMatch_single h hports) hrun
  refine ⟨hassigned, hcounters, hprocessed, ?_⟩
  have hzero := toConsume_iff h hports hcounters hprocessed
  obtain ⟨user, s₁, huser, hsim, rfl⟩ := pollQueue_advanced h hports hrun
  have hready : sim.Ready s.interleaving.toProgress user := by
    obtain ⟨hwaits, hposts, -⟩ := processSim_eq_success hsim
    exact (he.ready_iff h hports hdyn).mpr ⟨hwaits, hposts⟩
  have hmem := List.mem_of_getElem? huser
  have hq : q ∈ sim.queues := mem_queues.mpr (h.entry q user hmem).1
  have hcounted := counted_processSim hsim
  have hpos : (advance q (markProcessed none user.task s₁)).pos =
      (s.interleaving.toProgress.pop q).pos := by
    show Function.update s₁.pos q (s₁.pos q + 1) = _
    rw [hcounted.pos]
    rfl
  have hheld : s₁.toVirtual = (sim.execute s.interleaving q user).toVirtual := by
    funext r
    apply Option.ext
    intro v
    rw [he.assigned.processSim_toVirtual hdyn (positiveCounts_of h q user hmem) hsim,
      execute_toVirtual, ← hpos, hzero v]
    rfl
  have hnew : (advance q (markProcessed none user.task s₁)).interleaving =
      sim.execute s.interleaving q user := by
    unfold SimState.interleaving
    rw [hpos]
    show Interleaving.mk ⟨s₁.bar, _⟩ s₁.toVirtual = _
    rw [hheld, hcounted.bar]
    rfl
  rw [hnew]
  exact he.reachable.tail (.execute hq huser hready)

theorem Explored.pollQueue_ne_failed : sim.pollQueue limit q s ≠ .failed := by
  unfold BarrierSimulator.pollQueue
  cases huser : (sim.tasks.queue q)[s.pos q]? with
  | none => simp
  | some user =>
    rw [multiQueueKey_none h hports]
    by_cases hready : sim.Ready s.interleaving.toProgress user
    · obtain ⟨s₁, hsim⟩ := he.exists_success h hports hdyn huser hready
      simp [hsim]
    · simp [(he.skip_iff h hports hdyn).mpr hready]

theorem Explored.stuck (hmap : ¬ (s.bar < sim.numBarriers ∧ sim.hasBarriersToMap s = true))
    (hpoll : ∀ q ∈ sim.queues, sim.pollQueue limit q s = .blocked) :
    Graph.Stuck (sim.ProgressStep limit) s.interleaving.toProgress := by
  intro p hstep
  cases hstep with
  | map hbar hfree =>
    have hnone := he.reachable.consistent.free_iff.mpr hfree
    exact hmap ⟨hbar, (hasBarriersToMap_iff hdyn he.assigned).mpr hnone⟩
  | @execute q user hq huser hready =>
    rcases pollQueue_eq_blocked.mp (hpoll q hq) with hnone | ⟨user', huser', -, hskip⟩
    · cases huser.symm.trans hnone
    · obtain rfl := Option.some.inj (huser.symm.trans huser')
      exact (he.skip_iff h hports hdyn).mp hskip hready

end Explored

theorem Reachable.within {st : Interleaving} (h : sim.Reachable limit st) :
    st.bar ≤ sim.numBarriers ∧ ∀ q, st.pos q ≤ (sim.tasks.queue q).length := by
  induction h with
  | refl => exact ⟨Nat.zero_le _, fun _ => Nat.zero_le _⟩
  | tail _ hstep ih =>
    cases hstep with
    | map hbar hr hfree => exact ⟨hbar, ih.2⟩
    | @execute q user hq huser hready =>
      refine ⟨ih.1, fun q' => ?_⟩
      show (Progress.pop _ q).pos q' ≤ _
      by_cases hqq : q' = q
      · subst hqq
        rw [Progress.pop_pos_self]
        exact (List.getElem?_eq_some_iff.mp huser).1
      · rw [Progress.pop_pos_of_ne _ hqq]
        exact ih.2 q'

theorem Explored.unfinished_iff (he : sim.Explored limit tasks s) :
    sim.unfinished s = false ↔ sim.Complete s.interleaving.toProgress := by
  obtain ⟨hbar, hpos⟩ := he.reachable.within
  constructor
  · intro hend
    exact ⟨Nat.le_antisymm hbar (bar_of_finished hend),
      fun q hq => Nat.le_antisymm (hpos q) (pos_of_finished hend hq)⟩
  · rintro ⟨hall, hdone⟩
    unfold unfinished
    rw [Bool.or_eq_false_iff, decide_eq_false_iff_not, List.any_eq_false]
    refine ⟨Nat.not_lt.mpr (Nat.le_of_eq hall.symm), fun q hq => ?_⟩
    rw [decide_eq_true_eq]
    exact Nat.not_lt.mpr (Nat.le_of_eq (hdone q hq).symm)

/-- What a round without progress has found out so far, and what the verdict rests on. -/
def Searched (sim : BarrierSimulator) (limit : ℕ) (tasks : List TaskOp) : Point → Prop
  | .returned success s => sim.Explored limit tasks s ∧
      Graph.Stuck (sim.ProgressStep limit) s.interleaving.toProgress ∧
      (success = true ↔ sim.Complete s.interleaving.toProgress)
  | .running .mapBarriers progressed s => sim.Explored limit tasks s ∧
      (progressed = false → sim.unfinished s = true)
  | .running (.poll qs) progressed s => sim.Explored limit tasks s ∧
      (progressed = false → sim.unfinished s = true ∧
        ¬ (s.bar < sim.numBarriers ∧ sim.hasBarriersToMap s = true) ∧
        ∀ q ∈ sim.queues, q ∉ qs → sim.pollQueue limit q s = .blocked)

theorem Searched.startRound (he : sim.Explored limit tasks s) :
    sim.Searched limit tasks (sim.startRound s) := by
  unfold BarrierSimulator.startRound
  split_ifs with hleft
  · exact ⟨he, fun _ => hleft⟩
  · have hcomplete := he.unfinished_iff.mp (Bool.not_eq_true _ ▸ hleft)
    exact ⟨he, hcomplete.stuck, fun _ => hcomplete, fun _ => rfl⟩

section

variable (h : Parsed.Of sim.platform tasks sim.tasks)
  (hports : ∀ op ∈ tasks, numPorts sim.platform op ≤ 1) (hdyn : sim.isDynamicBarriers = true)
include h hports hdyn

theorem Searched.step {p : Point} (hp : sim.Searched limit tasks p) :
    sim.Searched limit tasks (sim.step limit p) := by
  match p with
  | .returned success s => exact hp
  | .running .mapBarriers progressed s =>
    rw [step_map]
    split_ifs with hcond
    · rw [Bool.and_eq_true, decide_eq_true_eq] at hcond
      exact ⟨hp.1.mapBarrier hdyn hcond.1 hcond.2, fun hfalse => by cases hfalse⟩
    · rw [Bool.and_eq_true, decide_eq_true_eq] at hcond
      exact ⟨hp.1, fun hprog => ⟨hp.2 hprog, hcond, fun q hq hnot => absurd hq hnot⟩⟩
  | .running (.poll []) progressed s =>
    rw [step_round]
    split_ifs with hprog
    · exact Searched.startRound hp.1
    · obtain ⟨hleft, hmap, hpoll⟩ := hp.2 (Bool.not_eq_true _ ▸ hprog)
      refine ⟨hp.1, hp.1.stuck h hports hdyn hmap fun q hq => hpoll q hq List.not_mem_nil, ?_⟩
      rw [← hp.1.unfinished_iff, hleft]
      simp
  | .running (.poll (q :: qs)) progressed s =>
    rw [step_poll]
    cases hturn : sim.pollQueue limit q s with
    | advanced s' => exact ⟨hp.1.pollQueue h hports hdyn hturn, fun hfalse => by cases hfalse⟩
    | blocked =>
      refine ⟨hp.1, fun hprog => ?_⟩
      obtain ⟨hleft, hmap, hpoll⟩ := hp.2 hprog
      refine ⟨hleft, hmap, fun q' hq' hnot => ?_⟩
      by_cases hqq : q' = q
      · subst hqq
        exact hturn
      · exact hpoll q' hq' (List.not_mem_cons_of_ne_of_not_mem hqq hnot)
    | failed => exact absurd hturn (hp.1.pollQueue_ne_failed h hports hdyn)

theorem searched_point (hreal : ∀ v, sim.realId v = none) (n : ℕ) :
    sim.Searched limit tasks (sim.point limit n) :=
  point_induction (Searched.startRound (.initial hreal hdyn)) (fun _ hp => hp.step h hports hdyn) n

end

/-- The verdict of a simulation is the one of the interleavings: success means that one of them
is complete, and then all maximal ones are. -/
structure Verdict (sim : BarrierSimulator) (limit : ℕ) (success : Bool) : Prop where
  complete : success = true ↔ ∃ st, sim.Reachable limit st ∧ sim.Complete st.toProgress
  maximal : success = true → ∀ st, sim.Reachable limit st →
    Graph.Stuck (sim.InterleavingStep limit) st → sim.Complete st.toProgress
  ends : ∀ f : ℕ → Interleaving, f 0 = interleavingStart →
    ¬ ∀ n, sim.InterleavingStep limit (f n) (f (n + 1))

theorem Searched.verdict {success : Bool}
    (hp : sim.Searched limit tasks (.returned success s)) : sim.Verdict limit success := by
  obtain ⟨he, hstuck, hsuccess⟩ := hp
  have hcomplete : success = true ↔ ∃ st, sim.Reachable limit st ∧ sim.Complete st.toProgress := by
    rw [hsuccess]
    constructor
    · intro hall
      exact ⟨s.interleaving, he.reachable, hall⟩
    · rintro ⟨st, hst, hall⟩
      rw [← hst.progress_unique he.reachable hall.stuck hstuck]
      exact hall
  refine ⟨hcomplete, ?_, ?_⟩
  · intro hs st hst hmax
    obtain ⟨st', hst', hall⟩ := hcomplete.mp hs
    exact hst'.complete hst hall hmax
  · intro f hf
    apply not_infinite f
    rw [hf]
    exact .refl

/-- The simulation returns, and its verdict does not depend on the order in which the queues
are polled. -/
theorem simulateBarriers_verdict {platform : Platform} {func : FuncOp}
    (hsim : ofFunc platform func = some sim) (hdyn : 0 < func.numBarriers)
    (hports : ∀ op ∈ func.tasks, numPorts platform op ≤ 1) (numBarriers : Option ℕ)
    (hlimit : numBarriers.getD platform.availableBarriers ≤ platform.availableBarriers) :
    ∃ success s, sim.simulateBarriers numBarriers = some (success, s) ∧
      sim.Verdict (numBarriers.getD platform.availableBarriers) success := by
  obtain ⟨rfl, hparse, -, hreal, hdynamic⟩ := ofFunc_eq_some hsim
  have h := Parsed.of_parseTasks _ hparse
  have hdyn' : sim.isDynamicBarriers = true := by
    rw [hdynamic]
    exact decide_eq_true hdyn
  generalize hlim : numBarriers.getD sim.platform.availableBarriers = limit at *
  obtain ⟨success, s, hend⟩ := point_maxSteps sim limit
  have hsearched := @searched_point sim limit _ h hports hdyn' hreal (sim.maxSteps limit)
  rw [hend] at hsearched
  refine ⟨success, s, simulateBarriers_iff.mpr ?_, hsearched.verdict⟩
  rw [hlim]
  exact ⟨hlimit, hend⟩

/-- A task in the middle needs both barriers at once. -/
def relay : FuncOp where
  numBarriers := 2
  tasks := [⟨.dma 0 .DDR none, [], [0]⟩, ⟨.upa, [0], [1]⟩, ⟨.act 1, [1], []⟩]

/-- With one physical barrier no interleaving of it gets to the end, with two they all do. -/
theorem simulateBarriers_verdict_relay : ∃ sim, ofFunc twoPorts relay = some sim ∧
    sim.Verdict 1 false ∧ sim.Verdict 2 true := by
  have hrun : ((ofFunc twoPorts relay).map fun sim =>
      ((sim.simulateBarriers (some 1)).map Prod.fst,
        (sim.simulateBarriers (some 2)).map Prod.fst)) =
        some (some false, some true) := by
    decide +kernel
  obtain ⟨sim, hsim, hrun⟩ := Option.map_eq_some_iff.mp hrun
  obtain ⟨hone, htwo⟩ := Prod.mk.inj hrun
  have hports : ∀ op ∈ relay.tasks, numPorts twoPorts op ≤ 1 := by decide
  obtain ⟨b, s, hb, hverdict⟩ := simulateBarriers_verdict hsim Nat.two_pos hports (some 1)
      (by decide)
  obtain ⟨b', s', hb', hverdict'⟩ := simulateBarriers_verdict hsim Nat.two_pos hports (some 2)
    (by decide)
  rw [hb] at hone
  rw [hb'] at htwo
  obtain rfl : b = false := Option.some.inj hone
  obtain rfl : b' = true := Option.some.inj htwo
  exact ⟨sim, hsim, hverdict, hverdict'⟩

end BarrierSimulator
end Vpux.Simulator
