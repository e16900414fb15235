import Vpux.Simulator.Assignment
import Vpux.Simulator.Accounting

/-! The dynamic simulation of a function with virtual barriers and the static simulation of the
function that it configures go through the same points. -/
namespace Vpux.Simulator
open VPURT Data

/-- `AssignPhysicalBarriersPass` up to its rewriting: the last state of the simulation, `none`
when the pass fails. -/
def assignmentSimulation (platform : Platform) (numBarriers : Option ℕ) (func : FuncOp) :
    Option SimState := do
  let sim ← BarrierSimulator.ofFunc platform func
  if !sim.checkProducerCount then none
  else do
    let (success, s) ← sim.simulateBarriers numBarriers
    if success then some s else none

/-- Every virtual barrier is replaced in place by a configured one with the assigned id. -/
def replaceVirtualBarriers (func : FuncOp) (s : SimState) : ConfiguredFuncOp where
  ids := (List.range func.numBarriers).map s.realId
  tasks := func.tasks

/-- `BarrierSimulationPass`; `none` when the pass fails. -/
def barrierSimulation (platform : Platform) (func : ConfiguredFuncOp) : Option Unit := do
  let sim ← BarrierSimulator.ofConfigured platform func
  if !sim.checkProducerCount then none
  else do
    let (success, _) ← sim.simulateBarriers none
    if success then some () else none

namespace BarrierSimulator

section Returned

variable {sim : BarrierSimulator} {limit : ℕ} {s : SimState}

theorem point_of_returned {n : ℕ} {success : Bool} (h : sim.point limit n = .returned success s)
    (k : ℕ) : sim.point limit (n + k) = .returned success s := by
  induction k with
  | zero => exact h
  | succ k ih => rw [← Nat.add_assoc, point_succ, ih, step_returned]

theorem point_maxSteps_of_returned {n : ℕ} {success : Bool}
    (h : sim.point limit n = .returned success s) :
    sim.point limit (sim.maxSteps limit) = .returned success s := by
  obtain ⟨success', s', hmax⟩ := point_maxSteps sim limit
  have hlate := point_of_returned h (sim.maxSteps limit)
  have hlate' := point_of_returned hmax n
  rw [Nat.add_comm, hlate] at hlate'
  rw [hmax, hlate']

theorem realId_point (hdyn : sim.isDynamicBarriers = true) (hreal : ∀ v, sim.realId v = none)
    (hpos : sim.PositiveCounts) {v r n : ℕ} (h : (sim.point limit n).state.realId v = some r)
      (k : ℕ) :
    (sim.point limit (n + k)).state.realId v = some r := by
  induction k with
  | zero => exact h
  | succ k ih =>
    have ha := assigned_point hdyn hreal hpos limit (n + k)
    rw [← Nat.add_assoc, point_succ]
    generalize sim.point limit (n + k) = p at ih ha ⊢
    match p with
    | .returned success s => exact ih
    | .running .mapBarriers progressed s =>
      rw [step_map]
      split_ifs
      · have hne : v ≠ s.bar := Nat.ne_of_lt (ha.lt_bar ih)
        unfold mapBarrier
        rw [if_pos hdyn]
        exact (Function.update_of_ne hne _ _).trans ih
      · exact ih
    | .running (.poll []) progressed s =>
      rw [step_round]
      split_ifs
      · rw [startRound_state]
        exact ih
      · exact ih
    | .running (.poll (q :: qs)) progressed s =>
      rw [step_poll]
      cases hturn : sim.pollQueue limit q s with
      | advanced s' =>
        obtain ⟨user, -, ⟨key, t, -, -, rfl⟩ | ⟨-, s₁, hsim, rfl⟩⟩ := pollQueue_eq_advanced hturn
        · exact ih
        · exact (congrFun (counted_processSim hsim).realId v).trans ih
      | blocked => exact ih
      | failed => exact ih

end Returned

/-- The states of the two simulations, when the second one is given the ids `ids`. -/
structure Agrees (ids : ℕ → Option ℕ) (sd ss : SimState) : Prop where
  producerCount : ss.producerCount = sd.producerCount
  consumerCount : ss.consumerCount = sd.consumerCount
  toVirtual : ss.toVirtual = sd.toVirtual
  bar : ss.bar = sd.bar
  pos : ss.pos = sd.pos
  status : ss.status = sd.status
  executed : ss.executed = sd.executed
  realId : ss.realId = ids
  assigned : ∀ v < sd.bar, sd.realId v = ids v

section Agreement

variable {dyn stat : BarrierSimulator} {limit available : ℕ} {ids : ℕ → Option ℕ}
  {sd sd' ss : SimState}

theorem Agrees.mapped (stat : BarrierSimulator) (hlimit : limit ≤ available) (h : Agrees ids sd ss)
    (ha : Assigned limit sd) {v r : ℕ} (hr : sd.realId v = some r)
    (huse : sd.consumerCount v ≠ 0 ∨ sd.producerCount v ≠ 0) :
    ss.realId v = some r ∧ stat.isBarrierMapped available ss v = true := by
  have hheld := ha.toVirtual_eq hr huse
  obtain ⟨hrlt, hbar, -⟩ := ha.holder r v hheld
  have hid : ss.realId v = some r := by rw [h.realId, ← h.assigned v hbar, hr]
  refine ⟨hid, isBarrierMapped_iff.mpr ⟨r, hid, by omega, Or.inr ?_⟩⟩
  rw [h.toVirtual, hheld]

theorem Agrees.unmapped (h : Agrees ids sd ss) (hdyn : dyn.isDynamicBarriers = true)
    (hstat : stat.isDynamicBarriers = false) (ha : Assigned limit sd) {v : ℕ}
    (hv : dyn.isBarrierMapped limit sd v = false) : stat.isBarrierMapped available ss v =
      false := by
  by_contra hmapped
  obtain ⟨r, hr, -, hheld⟩ := isBarrierMapped_iff.mp (Bool.not_eq_false _ ▸ hmapped)
  rw [hstat] at hheld
  have hold : sd.toVirtual r = some v := by
    rw [← h.toVirtual]
    simpa using hheld
  obtain ⟨hrlt, -, hreal⟩ := ha.holder r v hold
  have hyes : dyn.isBarrierMapped limit sd v = true :=
    isBarrierMapped_iff.mpr ⟨r, hreal, hrlt, Or.inl hdyn⟩
  rw [hv] at hyes
  cases hyes

theorem realId_of_mapped {v : ℕ} (hv : dyn.isBarrierMapped limit sd v = true) :
    ∃ r, sd.realId v = some r := by
  obtain ⟨r, hr, -⟩ := isBarrierMapped_iff.mp hv
  exact ⟨r, hr⟩

theorem Agrees.consume (hlimit : limit ≤ available) {count v : ℕ} (hpos : 0 < count)
    (h : Agrees ids sd ss)
    (ha : Assigned limit sd) (hrun : dyn.consume limit count sd v = some sd') :
    ∃ ss', stat.consume available count ss v = some ss' ∧ Agrees ids sd' ss' := by
  obtain ⟨r, hr, -, hprod, hle, rfl⟩ := consume_eq_some hrun
  obtain ⟨hid, hmapped⟩ := h.mapped stat hlimit ha hr (Or.inl (by omega))
  refine ⟨_, consume_eq hid hmapped (by rw [h.producerCount, hprod])
    (by rw [h.consumerCount]; exact hle), ?_⟩
  rw [h.consumerCount]
  split_ifs with hlast
  · refine ⟨h.producerCount, rfl, ?_, h.bar, h.pos, h.status, h.executed, h.realId, h.assigned⟩
    show Function.update ss.toVirtual r none = Function.update sd.toVirtual r none
    rw [h.toVirtual]
  · exact ⟨h.producerCount, rfl, h.toVirtual, h.bar, h.pos, h.status, h.executed, h.realId,
      h.assigned⟩

theorem Agrees.produce (stat : BarrierSimulator) (hlimit : limit ≤ available) {count v : ℕ}
    (hpos : 0 < count) (h : Agrees ids sd ss) (ha : Assigned limit sd)
    (hrun : dyn.produce limit count sd v = some sd') :
    ∃ ss', stat.produce available count ss v = some ss' ∧ Agrees ids sd' ss' := by
  obtain ⟨hmapped, hle, rfl⟩ := produce_eq_some hrun
  obtain ⟨r, hr⟩ := realId_of_mapped hmapped
  obtain ⟨-, hstatMapped⟩ := h.mapped stat hlimit ha hr (Or.inr (by omega))
  refine ⟨_, produce_eq hstatMapped (by rw [h.producerCount]; exact hle), ?_⟩
  rw [h.producerCount]
  exact ⟨rfl, h.consumerCount, h.toVirtual, h.bar, h.pos, h.status, h.executed, h.realId,
    h.assigned⟩

theorem Agrees.consumeAll (hdyn : dyn.isDynamicBarriers = true) (hlimit : limit ≤ available)
    {count : ℕ} (hpos : 0 < count) {bars : List ℕ} (h : Agrees ids sd ss) (ha : Assigned limit sd)
    (hrun : bars.foldlM (dyn.consume limit count) sd = some sd') :
    ∃ ss', bars.foldlM (stat.consume available count) ss = some ss' ∧ Agrees ids sd' ss' := by
  induction bars generalizing sd ss with
  | nil =>
    obtain rfl : sd = sd' := by simpa using hrun
    exact ⟨ss, rfl, h⟩
  | cons v bars ih =>
    obtain ⟨sd₁, h₁, h₂⟩ := Option.bind_eq_some_iff.mp hrun
    obtain ⟨ss₁, hss, hagree⟩ := h.consume hlimit hpos ha h₁
    obtain ⟨ss', hss', hagree'⟩ := ih hagree (ha.consume hdyn hpos h₁) h₂
    exact ⟨ss', by rw [List.foldlM_cons, hss]; exact hss', hagree'⟩

theorem Agrees.produceAll (stat : BarrierSimulator) (hlimit : limit ≤ available) {count : ℕ}
    (hpos : 0 < count) {bars : List ℕ} (h : Agrees ids sd ss) (ha : Assigned limit sd)
    (hrun : bars.foldlM (dyn.produce limit count) sd = some sd') :
    ∃ ss', bars.foldlM (stat.produce available count) ss = some ss' ∧ Agrees ids sd' ss' := by
  induction bars generalizing sd ss with
  | nil =>
    obtain rfl : sd = sd' := by simpa using hrun
    exact ⟨ss, rfl, h⟩
  | cons v bars ih =>
    obtain ⟨sd₁, h₁, h₂⟩ := Option.bind_eq_some_iff.mp hrun
    obtain ⟨ss₁, hss, hagree⟩ := h.produce stat hlimit hpos ha h₁
    obtain ⟨ss', hss', hagree'⟩ := ih hagree (ha.produce h₁) h₂
    exact ⟨ss', by rw [List.foldlM_cons, hss]; exact hss', hagree'⟩

theorem Agrees.processSim (hdyn : dyn.isDynamicBarriers = true) (hlimit : limit ≤ available)
    {user : BarrierUserConfig} (hpos : 0 < user.count) (h : Agrees ids sd ss)
      (ha : Assigned limit sd)
    (hrun : dyn.processSim limit user sd = .Success sd') :
    ∃ ss', stat.processSim available user ss = .Success ss' ∧ Agrees ids sd' ss' := by
  obtain ⟨hwait, hpost, sd₁, hc, hp⟩ := processSim_eq_success hrun
  have hcounted := counted_processSim hrun
  obtain ⟨ss₁, hss₁, hagree₁⟩ := h.consumeAll hdyn hlimit hpos ha hc
  obtain ⟨ss', hss', hagree'⟩ := hagree₁.produceAll stat hlimit hpos
    (ha.consumeAll hdyn hpos hc) hp
  refine ⟨ss', processSim_eq ?_ ?_ hss₁ hss', hagree'⟩
  · intro v hv
    obtain ⟨r, hr⟩ := realId_of_mapped (hwait v hv).1
    have htake := hcounted.consumer v
    have hmul := Nat.mul_pos hpos (List.count_pos_iff.mpr hv)
    exact ⟨(h.mapped stat hlimit ha hr (Or.inl (by omega))).2, by
      rw [h.producerCount]; exact (hwait v hv).2⟩
  · intro v hv
    obtain ⟨r, hr⟩ := realId_of_mapped (hpost v hv)
    have htake := hcounted.producer v
    have hmul := Nat.mul_pos hpos (List.count_pos_iff.mpr hv)
    exact (h.mapped stat hlimit ha hr (Or.inr (by omega))).2

theorem Agrees.skip {user : BarrierUserConfig} (hdyn : dyn.isDynamicBarriers = true)
    (hstat : stat.isDynamicBarriers = false) (h : Agrees ids sd ss) (ha : Assigned limit sd)
    (hrun : dyn.processSim limit user sd = .Skip) : stat.processSim available user ss = .Skip := by
  rw [processSim_eq_skip] at hrun ⊢
  rcases hrun with ⟨v, hv, hmapped | hprod⟩ | ⟨v, hv, hmapped⟩
  · exact Or.inl ⟨v, hv, Or.inl (h.unmapped hdyn hstat ha hmapped)⟩
  · exact Or.inl ⟨v, hv, Or.inr (by rw [h.producerCount]; exact hprod)⟩
  · exact Or.inr ⟨v, hv, h.unmapped hdyn hstat ha hmapped⟩

/-- The second simulator is the static one of the same tasks, with the ids `ids`. -/
structure Configures (dyn stat : BarrierSimulator) (ids : ℕ → Option ℕ) : Prop where
  dynamic : dyn.isDynamicBarriers = true
  unmapped : ∀ v, dyn.realId v = none
  static : stat.isDynamicBarriers = false
  tasks : stat.tasks = dyn.tasks
  platform : stat.platform = dyn.platform
  numBarriers : stat.numBarriers = dyn.numBarriers
  realId : stat.realId = ids
  counts : dyn.PositiveCounts

section

variable (hcfg : Configures dyn stat ids)
include hcfg

theorem Configures.multiQueueKey (q : Queue) (i : ℕ) :
    stat.multiQueueKey q i = dyn.multiQueueKey q i := by
  unfold BarrierSimulator.multiQueueKey
  rw [hcfg.tasks, hcfg.platform]

theorem Agrees.pollQueue (hlimit : limit ≤ available) {q : Queue} (h : Agrees ids sd ss)
    (ha : Assigned limit sd) (hrun : dyn.pollQueue limit q sd = .advanced sd') :
    ∃ ss', stat.pollQueue available q ss = .advanced ss' ∧ Agrees ids sd' ss' := by
  obtain ⟨user, huser, hcase⟩ := pollQueue_eq_advanced hrun
  have huser' : (stat.tasks.queue q)[ss.pos q]? = some user := by rw [hcfg.tasks, h.pos, huser]
  have hkey : stat.multiQueueKey q (ss.pos q) = dyn.multiQueueKey q (sd.pos q) := by
    rw [h.pos, hcfg.multiQueueKey]
  obtain ⟨key, t, hk, ht, rfl⟩ | ⟨hmark, sd₁, hsim, rfl⟩ := hcase
  · have hmark : (stat.multiQueueKey q (ss.pos q)).bind ss.status = some t := by
      rw [hkey, h.status, hk]
      exact ht
    refine ⟨_, pollQueue_of_marked huser' hmark, ?_⟩
    refine ⟨h.producerCount, h.consumerCount, h.toVirtual, h.bar, ?_, h.status, h.executed,
      h.realId, h.assigned⟩
    show Function.update ss.pos q (ss.pos q + 1) = Function.update sd.pos q (sd.pos q + 1)
    rw [h.pos]
  · have hpos := hcfg.counts q user (List.mem_of_getElem? huser)
    obtain ⟨ss₁, hss₁, h₁⟩ := h.processSim hcfg.dynamic hlimit hpos ha hsim
    refine ⟨_, pollQueue_of_success huser' (by rw [hkey, h.status, hmark]) hss₁, ?_⟩
    rw [hkey]
    refine ⟨h₁.producerCount, h₁.consumerCount, h₁.toVirtual, h₁.bar, ?_, ?_, ?_, h₁.realId,
      h₁.assigned⟩
    · show Function.update ss₁.pos q (ss₁.pos q + 1) = Function.update sd₁.pos q (sd₁.pos q + 1)
      rw [h₁.pos]
    · unfold advance markProcessed
      rw [h₁.status]
    · show ss₁.executed ++ [user.task] = sd₁.executed ++ [user.task]
      rw [h₁.executed]

theorem Agrees.blocked {q : Queue} (h : Agrees ids sd ss) (ha : Assigned limit sd)
    (hrun : dyn.pollQueue limit q sd = .blocked) :
    stat.pollQueue available q ss = .blocked := by
  rw [pollQueue_eq_blocked] at hrun ⊢
  rw [hcfg.tasks, h.pos, hcfg.multiQueueKey, h.status]
  rcases hrun with hnone | ⟨user, huser, hmark, hskip⟩
  · exact Or.inl hnone
  · exact Or.inr ⟨user, huser, hmark, h.skip hcfg.dynamic hcfg.static ha hskip⟩

end

/-- The two simulations are at the same place in states that agree. -/
def SamePoint (ids : ℕ → Option ℕ) : Point → Point → Prop
  | .running phase progressed sd, .running phase' progressed' ss =>
    phase = phase' ∧ progressed = progressed' ∧ Agrees ids sd ss
  | .returned success sd, .returned success' ss => success = success' ∧ Agrees ids sd ss
  | _, _ => False

variable (hcfg : Configures dyn stat ids)
include hcfg

theorem Configures.startRound (h : Agrees ids sd ss) :
    SamePoint ids (dyn.startRound sd) (stat.startRound ss) := by
  have hleft : stat.unfinished ss = dyn.unfinished sd := by
    unfold unfinished queues
    rw [h.bar, h.pos, hcfg.numBarriers, hcfg.platform, hcfg.tasks]
  unfold BarrierSimulator.startRound
  rw [hleft]
  split_ifs
  · exact ⟨rfl, rfl, h⟩
  · exact ⟨rfl, h⟩

/-- The barrier that is mapped next has its physical barrier free in the static simulation if and
only if the ring buffer of the dynamic one is not empty. -/
theorem Configures.mapBarrier (h : Agrees ids sd ss) (ha : Assigned limit sd)
    (hmap : dyn.hasBarriersToMap sd = true) (hid : (dyn.mapBarrier sd).realId sd.bar = ids sd.bar) :
    stat.hasBarriersToMap ss = true ∧ Agrees ids (dyn.mapBarrier sd) (stat.mapBarrier ss) := by
  obtain ⟨l, hl, -, -, hfree⟩ := ha.free
  unfold hasBarriersToMap at hmap
  rw [if_pos hcfg.dynamic] at hmap
  obtain ⟨r, rest, rfl⟩ : ∃ r rest, l = r :: rest := by
    cases l with
    | nil => simp [hl.empty_iff.mpr rfl] at hmap
    | cons r rest => exact ⟨r, rest, rfl⟩
  have hnew : dyn.mapBarrier sd = { sd with
      nextReal := sd.nextReal.pop
      realId := Function.update sd.realId sd.bar (some r)
      toVirtual := Function.update sd.toVirtual r (some sd.bar)
      bar := sd.bar + 1 } := by
    unfold BarrierSimulator.mapBarrier
    rw [if_pos hcfg.dynamic, hl.front]
  rw [hnew] at hid ⊢
  have hreal : ss.realId ss.bar = some r := by
    rw [h.realId, h.bar, ← hid]
    exact Function.update_self _ _ _
  have hstat : ¬ stat.isDynamicBarriers = true := by
    rw [hcfg.static]
    exact Bool.false_ne_true
  constructor
  · unfold BarrierSimulator.hasBarriersToMap
    rw [if_neg hstat, hreal]
    simp [h.toVirtual, ((hfree r).mp List.mem_cons_self).2]
  · unfold BarrierSimulator.mapBarrier
    rw [if_neg hstat, hreal]
    refine ⟨h.producerCount, h.consumerCount, ?_, ?_, h.pos, h.status, h.executed, h.realId, ?_⟩
    · rw [h.toVirtual, h.bar]
    · rw [h.bar]
    · intro v hv
      by_cases hlast : v = sd.bar
      · subst hlast
        exact hid
      · have hold : v < sd.bar := Nat.lt_of_le_of_ne (Nat.lt_succ_iff.mp hv) hlast
        exact (Function.update_of_ne hlast _ _).trans (h.assigned v hold)

theorem Configures.noBarrierToMap (h : Agrees ids sd ss) (ha : Assigned limit sd)
    (hmap : dyn.hasBarriersToMap sd = false) (hid : ∃ r < limit, ids sd.bar = some r) :
    stat.hasBarriersToMap ss = false := by
  obtain ⟨r, hrlt, hr⟩ := hid
  obtain ⟨l, hl, -, -, hfree⟩ := ha.free
  unfold hasBarriersToMap at hmap
  rw [if_pos hcfg.dynamic] at hmap
  have hempty : l = [] := hl.empty_iff.mp (by simpa using hmap)
  have hheld : sd.toVirtual r ≠ none := by
    intro hnone
    have hmem := (hfree r).mpr ⟨hrlt, hnone⟩
    rw [hempty] at hmem
    cases hmem
  have hstat : ¬ stat.isDynamicBarriers = true := by
    rw [hcfg.static]
    exact Bool.false_ne_true
  unfold BarrierSimulator.hasBarriersToMap
  rw [if_neg hstat, h.bar, h.realId, hr]
  simp [h.toVirtual, hheld]

/-- As long as the dynamic simulation succeeds in the end, the static one keeps up with it. -/
theorem Configures.samePoint (hlimit : limit ≤ available) {last : ℕ} {sEnd : SimState}
    (hend : dyn.point limit last = .returned true sEnd) (hids : ∀ v, sEnd.realId v = ids v)
    (n : ℕ) :
    SamePoint ids (dyn.point limit n) (stat.point available n) := by
  have hassigned := assigned_point hcfg.dynamic hcfg.unmapped hcfg.counts limit
  -- an id that a barrier gets at some point is the one it has in the end
  have hfinal : ∀ {m v r}, (dyn.point limit m).state.realId v = some r → ids v = some r := by
    intro m v r hr
    have hlate := realId_point hcfg.dynamic hcfg.unmapped hcfg.counts hr last
    rw [Nat.add_comm, point_of_returned hend m] at hlate
    rw [← hids v]
    exact hlate
  have hnotFailed : ∀ {m s}, dyn.point limit m ≠ .returned false s := by
    intro m s hfail
    have hlate := point_of_returned hfail last
    rw [Nat.add_comm, point_of_returned hend m] at hlate
    cases hlate
  have hmappedEnd : ∀ v < dyn.numBarriers, ∃ r < limit, ids v = some r := by
    intro v hv
    have ha := hassigned last
    rw [hend] at ha
    have hbar := bar_of_finished (unfinished_point hend)
    obtain ⟨r, hr, hrlt, -⟩ := ha.mapped v (Nat.lt_of_lt_of_le hv hbar)
    exact ⟨r, hrlt, by rw [← hids v]; exact hr⟩
  induction n with
  | zero =>
    apply hcfg.startRound
    refine ⟨?_, ?_, rfl, rfl, rfl, rfl, rfl, hcfg.realId, ?_⟩
    · unfold BarrierSimulator.initial
      rw [hcfg.tasks]
    · unfold BarrierSimulator.initial
      rw [hcfg.tasks]
    · exact fun v hv => absurd hv (Nat.not_lt_zero v)
  | succ n ih =>
    have ha := hassigned n
    have hnext := point_succ dyn limit n
    rw [hnext, point_succ]
    cases hd : dyn.point limit n with
    | returned success sd =>
      cases hs : stat.point available n with
      | returned success' ss =>
        rw [hd, hs] at ih
        exact ih
      | running phase' progressed' ss =>
        rw [hd, hs] at ih
        exact ih.elim
    | running phase progressed sd =>
      cases hs : stat.point available n with
      | returned success' ss =>
        rw [hd, hs] at ih
        exact ih.elim
      | running phase' progressed' ss =>
        rw [hd, hs] at ih
        obtain ⟨rfl, rfl, h⟩ := ih
        rw [hd] at ha hnext
        match phase with
        | .mapBarriers =>
          rw [step_map] at hnext
          rw [step_map, step_map, h.bar, hcfg.numBarriers]
          by_cases hbar : sd.bar < dyn.numBarriers
          · cases hmap : dyn.hasBarriersToMap sd with
            | true =>
              rw [hmap, decide_eq_true hbar, Bool.and_true, if_pos rfl] at hnext
              obtain ⟨r, hr⟩ : ∃ r, (dyn.mapBarrier sd).realId sd.bar = some r := by
                unfold BarrierSimulator.mapBarrier
                rw [if_pos hcfg.dynamic]
                exact ⟨_, Function.update_self _ _ _⟩
              have hid : (dyn.mapBarrier sd).realId sd.bar = ids sd.bar := by
                rw [hr]
                refine (hfinal (m := n + 1) ?_).symm
                rw [hnext]
                exact hr
              obtain ⟨hstat, hagree⟩ := hcfg.mapBarrier h ha hmap hid
              rw [hstat, decide_eq_true hbar, Bool.and_true, if_pos rfl, if_pos rfl]
              exact ⟨rfl, rfl, hagree⟩
            | false =>
              have hstat := hcfg.noBarrierToMap h ha hmap (hmappedEnd _ hbar)
              rw [hstat, Bool.and_false, if_neg Bool.false_ne_true, if_neg Bool.false_ne_true]
              refine ⟨?_, rfl, h⟩
              unfold queues
              rw [hcfg.platform]
          · rw [decide_eq_false hbar, Bool.false_and, Bool.false_and, if_neg Bool.false_ne_true,
              if_neg Bool.false_ne_true]
            refine ⟨?_, rfl, h⟩
            unfold queues
            rw [hcfg.platform]
        | .poll [] =>
          rw [step_round, step_round]
          split_ifs
          · exact hcfg.startRound h
          · exact ⟨rfl, h⟩
        | .poll (q :: qs) =>
          rw [step_poll] at hnext
          rw [step_poll, step_poll]
          cases hturn : dyn.pollQueue limit q sd with
          | advanced sd' =>
            obtain ⟨ss', hturn', hagree⟩ := h.pollQueue hcfg hlimit ha hturn
            rw [hturn']
            exact ⟨rfl, rfl, hagree⟩
          | blocked =>
            rw [h.blocked hcfg ha hturn]
            exact ⟨rfl, rfl, h⟩
          | failed =>
            rw [hturn] at hnext
            exact absurd hnext hnotFailed

end Agreement
end BarrierSimulator

open BarrierSimulator

theorem replaceVirtualBarriers_realId {func : FuncOp} {s : SimState} {v : ℕ}
    (hout : func.numBarriers ≤ v → s.realId v = none) :
    (replaceVirtualBarriers func s).ids[v]?.join = s.realId v := by
  unfold replaceVirtualBarriers
  rw [List.getElem?_map]
  by_cases hv : v < func.numBarriers
  · rw [List.getElem?_range hv]
    rfl
  · rw [List.getElem?_eq_none (by rw [List.length_range]; omega), hout (Nat.le_of_not_lt hv)]
    rfl

/-- What the assignment accepts, the validation of its result accepts. -/
theorem barrierSimulation_of_assignment {platform : Platform} {numBarriers : Option ℕ}
    {func : FuncOp} {s : SimState} (hvirtual : 0 < func.numBarriers)
    (h : assignmentSimulation platform numBarriers func = some s) :
    barrierSimulation platform (replaceVirtualBarriers func s) = some () := by
  obtain ⟨dyn, hdyn, h⟩ := Option.bind_eq_some_iff.mp h
  split_ifs at h with hcheck
  obtain ⟨⟨success, s'⟩, hrun, h⟩ := Option.bind_eq_some_iff.mp h
  dsimp only at h
  split_ifs at h with hsuccess
  obtain rfl := Option.some.inj h
  obtain ⟨hplat, hparse, hnum, hreal, hdynamic⟩ := ofFunc_eq_some hdyn
  have hlen : (replaceVirtualBarriers func s').ids.length = func.numBarriers := by
    simp [replaceVirtualBarriers]
  obtain ⟨stat, hstat⟩ := ofConfigured_of_ofFunc hdyn hlen
  obtain ⟨hplat', hparse', hnum', hreal', hstatic⟩ := ofConfigured_eq_some hstat
  have htasks : stat.tasks = dyn.tasks := Option.some.inj (hparse'.symm.trans hparse)
  have hpos : dyn.PositiveCounts := positiveCounts_of (Parsed.of_parseTasks _ (hplat ▸ hparse))
  have hdynTrue : dyn.isDynamicBarriers = true := by
    rw [hdynamic]
    exact decide_eq_true hvirtual
  obtain ⟨hlimit, hpoint⟩ := simulateBarriers_iff.mp hrun
  rw [hsuccess] at hpoint
  have hassigned := assigned_point hdynTrue hreal hpos
    (numBarriers.getD dyn.platform.availableBarriers)
    (dyn.maxSteps (numBarriers.getD dyn.platform.availableBarriers))
  have hbar := bar_point dyn (numBarriers.getD dyn.platform.availableBarriers)
    (dyn.maxSteps (numBarriers.getD dyn.platform.availableBarriers))
  rw [hpoint] at hassigned hbar
  have hcfg : Configures dyn stat s'.realId := by
    refine ⟨hdynTrue, hreal, hstatic, htasks, hplat'.trans hplat.symm, ?_, ?_, hpos⟩
    · rw [hnum', hlen, hnum]
    · funext v
      rw [hreal']
      exact replaceVirtualBarriers_realId fun hv =>
        hassigned.unmapped v (Nat.le_trans hbar (hnum ▸ hv))
  have havailable : numBarriers.getD dyn.platform.availableBarriers ≤
      stat.platform.availableBarriers := by
    rw [hcfg.platform]
    exact hlimit
  have hsame := hcfg.samePoint havailable hpoint (fun v => rfl)
    (dyn.maxSteps (numBarriers.getD dyn.platform.availableBarriers))
  rw [hpoint] at hsame
  have hchecked : stat.checkProducerCount = true := by
    unfold checkProducerCount at hcheck ⊢
    rw [hcfg.numBarriers, hcfg.tasks, hcfg.platform]
    simpa using hcheck
  have hreturned : ∃ ss, stat.simulateBarriers none = some (true, ss) := by
    cases hs : stat.point stat.platform.availableBarriers
        (dyn.maxSteps (numBarriers.getD dyn.platform.availableBarriers)) with
    | returned success' ss =>
      rw [hs] at hsame
      obtain ⟨rfl, -⟩ := hsame
      exact ⟨ss, simulateBarriers_iff.mpr ⟨le_rfl, point_maxSteps_of_returned hs⟩⟩
    | running phase progressed ss =>
      rw [hs] at hsame
      exact hsame.elim
  obtain ⟨ss, hss⟩ := hreturned
  unfold barrierSimulation
  rw [show ofConfigured platform (replaceVirtualBarriers func s') = some stat from hstat]
  simp only [Option.bind_eq_bind, Option.bind_some, hchecked, Bool.not_true, Bool.false_eq_true,
    if_false, hss, if_true]

/-- Two barriers of one physical id, with a DMA on two queues -/
theorem barrierSimulation_bothPorts : ∃ s, assignmentSimulation twoPorts (some 1) (bothPorts 0) =
    some s ∧ barrierSimulation twoPorts (replaceVirtualBarriers (bothPorts 0) s) = some () := by
  obtain ⟨s, hs⟩ : ∃ s, assignmentSimulation twoPorts (some 1) (bothPorts 0) = some s :=
    Option.isSome_iff_exists.mp (by decide +kernel)
  exact ⟨s, hs, barrierSimulation_of_assignment (by decide) hs⟩

end Vpux.Simulator
