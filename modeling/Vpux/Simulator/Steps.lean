import Vpux.Simulator.Simulate
import Mathlib.Algebra.Order.BigOperators.Group.List

/-! What one turn of the simulation can do, and that the simulation ends. -/
namespace Vpux.Simulator
open Data
namespace BarrierSimulator

variable {sim : BarrierSimulator} {limit : ℕ}

section Process

variable {s s' : SimState} {user : BarrierUserConfig} {count v : ℕ} {bars : List ℕ}

theorem isBarrierMapped_iff : sim.isBarrierMapped limit s v = true ↔
    ∃ r, s.realId v = some r ∧ r < limit ∧
      (sim.isDynamicBarriers = true ∨ s.toVirtual r = some v) := by
  unfold isBarrierMapped
  cases s.realId v with
  | none => simp
  | some r => simp

theorem consume_eq_some (h : sim.consume limit count s v = some s') :
    ∃ r, s.realId v = some r ∧ sim.isBarrierMapped limit s v = true ∧ s.producerCount v = 0 ∧
      count ≤ s.consumerCount v ∧
      s' = if s.consumerCount v = count then
          sim.release { s with consumerCount := Function.update s.consumerCount v 0 } r
        else { s with
          consumerCount := Function.update s.consumerCount v (s.consumerCount v - count) } := by
  unfold consume at h
  cases hr : s.realId v with
  | none => simp [hr] at h
  | some r =>
    simp only [hr] at h
    split_ifs at h with hmapped hready hlast
    · simp only [not_or, not_not, Nat.not_lt] at hready
      refine ⟨r, rfl, by simpa using hmapped, hready.1, hready.2, ?_⟩
      have hzero : s.consumerCount v - count = 0 := by simpa using hlast
      have heq : s.consumerCount v = count := by omega
      rw [if_pos heq, ← Option.some.inj h, hzero]
    · simp only [not_or, not_not, Nat.not_lt] at hready
      refine ⟨r, rfl, by simpa using hmapped, hready.1, hready.2, ?_⟩
      have hne : s.consumerCount v ≠ count := by
        intro heq
        simp [heq] at hlast
      rw [if_neg hne, ← Option.some.inj h]

theorem consume_eq {r : ℕ} (hr : s.realId v = some r)
    (hmapped : sim.isBarrierMapped limit s v = true)
    (hprod : s.producerCount v = 0) (hle : count ≤ s.consumerCount v) :
    sim.consume limit count s v = some (if s.consumerCount v = count then
        sim.release { s with consumerCount := Function.update s.consumerCount v 0 } r
      else { s with
        consumerCount := Function.update s.consumerCount v (s.consumerCount v - count) }) := by
  unfold consume
  have hready : ¬ (s.producerCount v ≠ 0 ∨ s.consumerCount v < count) := by omega
  simp only [hr, hmapped, Bool.not_true, Bool.false_eq_true, if_false, if_neg hready,
    Function.update_self]
  by_cases hlast : s.consumerCount v = count
  · rw [if_pos (by omega), if_pos hlast, hlast, Nat.sub_self]
  · rw [if_neg (by omega), if_neg hlast]

theorem produce_eq (hmapped : sim.isBarrierMapped limit s v = true)
    (hle : count ≤ s.producerCount v) : sim.produce limit count s v = some { s with
      producerCount := Function.update s.producerCount v (s.producerCount v - count) } := by
  unfold produce
  rw [hmapped]
  simp only [Bool.not_true, Bool.false_eq_true, if_false, if_neg (Nat.not_lt.mpr hle)]

theorem produce_eq_some (h : sim.produce limit count s v = some s') :
    sim.isBarrierMapped limit s v = true ∧ count ≤ s.producerCount v ∧
      s' = { s with
        producerCount := Function.update s.producerCount v (s.producerCount v - count) } := by
  unfold produce at h
  split_ifs at h with hmapped hcount
  · exact ⟨by simpa using hmapped, Nat.le_of_not_lt hcount, (Option.some.inj h).symm⟩

theorem processSim_eq_success (h : sim.processSim limit user s = .Success s') :
    (∀ v ∈ user.consumer, sim.isBarrierMapped limit s v = true ∧ s.producerCount v = 0) ∧
    (∀ v ∈ user.producer, sim.isBarrierMapped limit s v = true) ∧
    ∃ s₁, user.consumer.foldlM (sim.consume limit user.count) s = some s₁ ∧
      user.producer.foldlM (sim.produce limit user.count) s₁ = some s' := by
  unfold processSim at h
  split_ifs at h with hwait hpost
  refine ⟨?_, ?_, ?_⟩
  · simpa using hwait
  · simpa using hpost
  · cases hc : user.consumer.foldlM (sim.consume limit user.count) s with
    | none => simp [hc] at h
    | some s₁ =>
      cases hp : user.producer.foldlM (sim.produce limit user.count) s₁ with
      | none => simp [hc, hp] at h
      | some s₂ =>
        simp only [hc, hp, Status.Success.injEq] at h
        exact ⟨s₁, rfl, h ▸ hp⟩

theorem processSim_eq {s₁ : SimState}
    (hwait : ∀ v ∈ user.consumer, sim.isBarrierMapped limit s v = true ∧ s.producerCount v = 0)
    (hpost : ∀ v ∈ user.producer, sim.isBarrierMapped limit s v = true)
    (hc : user.consumer.foldlM (sim.consume limit user.count) s = some s₁)
    (hp : user.producer.foldlM (sim.produce limit user.count) s₁ = some s') :
    sim.processSim limit user s = .Success s' := by
  unfold processSim
  rw [if_neg (by simpa using hwait), if_neg (by simpa using hpost), hc]
  dsimp only
  rw [hp]

theorem processSim_eq_skip : sim.processSim limit user s = .Skip ↔
    (∃ v ∈ user.consumer, sim.isBarrierMapped limit s v = false ∨ 0 < s.producerCount v) ∨
      ∃ v ∈ user.producer, sim.isBarrierMapped limit s v = false := by
  unfold processSim
  split_ifs with hwait hpost
  · have hw : ∃ v ∈ user.consumer, sim.isBarrierMapped limit s v = false ∨ 0 <
      s.producerCount v := by
      simpa using hwait
    exact ⟨fun _ => Or.inl hw, fun _ => rfl⟩
  · have hp : ∃ v ∈ user.producer, sim.isBarrierMapped limit s v = false := by simpa using hpost
    exact ⟨fun _ => Or.inr hp, fun _ => rfl⟩
  · constructor
    · intro h
      split at h
      · cases h
      · split at h <;> cases h
    · rintro (⟨v, hv, hskip⟩ | ⟨v, hv, hskip⟩)
      · exact absurd (List.any_eq_true.mpr ⟨v, hv, by simpa using hskip⟩) hwait
      · exact absurd (List.any_eq_true.mpr ⟨v, hv, by simpa using hskip⟩) hpost

/-- What a list of consumed or produced barriers leaves alone, and its effect on the counters. -/
structure Counted (s s' : SimState) (consumed produced : List ℕ) (count : ℕ) : Prop where
  realId : s'.realId = s.realId
  bar : s'.bar = s.bar
  pos : s'.pos = s.pos
  status : s'.status = s.status
  executed : s'.executed = s.executed
  consumer : ∀ v, s.consumerCount v = s'.consumerCount v + count * consumed.count v
  producer : ∀ v, s.producerCount v = s'.producerCount v + count * produced.count v

theorem Counted.refl (s : SimState) (count : ℕ) : Counted s s [] [] count where
  realId := rfl
  bar := rfl
  pos := rfl
  status := rfl
  executed := rfl
  consumer v := by simp
  producer v := by simp

theorem Counted.trans {s₁ s₂ s₃ : SimState} {c c' p p' : List ℕ} (h : Counted s₁ s₂ c p count)
    (h' : Counted s₂ s₃ c' p' count) : Counted s₁ s₃ (c ++ c') (p ++ p') count where
  realId := h'.realId.trans h.realId
  bar := h'.bar.trans h.bar
  pos := h'.pos.trans h.pos
  status := h'.status.trans h.status
  executed := h'.executed.trans h.executed
  consumer v := by
    rw [h.consumer v, h'.consumer v, List.count_append, Nat.mul_add]
    omega
  producer v := by
    rw [h.producer v, h'.producer v, List.count_append, Nat.mul_add]
    omega

theorem counted_consume (h : sim.consume limit count s v = some s') :
    Counted s s' [v] [] count := by
  obtain ⟨r, hr, -, -, hle, rfl⟩ := consume_eq_some h
  split_ifs with hlast
  · refine ⟨rfl, rfl, rfl, rfl, rfl, fun w => ?_, fun w => by simp [release]⟩
    by_cases hw : w = v
    · subst hw
      simp [release, hlast]
    · simp [release, hw, Ne.symm hw]
  · refine ⟨rfl, rfl, rfl, rfl, rfl, fun w => ?_, fun w => by simp⟩
    by_cases hw : w = v
    · subst hw
      simp only [Function.update_self, List.count_singleton_self]
      omega
    · simp [hw, Ne.symm hw]

theorem counted_produce (h : sim.produce limit count s v = some s') :
    Counted s s' [] [v] count := by
  obtain ⟨-, hle, rfl⟩ := produce_eq_some h
  refine ⟨rfl, rfl, rfl, rfl, rfl, fun w => by simp, fun w => ?_⟩
  by_cases hw : w = v
  · subst hw
    simp only [Function.update_self, List.count_singleton_self]
    omega
  · simp [hw, Ne.symm hw]

theorem counted_consumeAll (h : bars.foldlM (sim.consume limit count) s = some s') :
    Counted s s' bars [] count := by
  induction bars generalizing s with
  | nil =>
    obtain rfl : s = s' := by simpa using h
    exact .refl s count
  | cons v bars ih =>
    obtain ⟨s₁, h₁, h₂⟩ := Option.bind_eq_some_iff.mp h
    exact (counted_consume h₁).trans (ih h₂)

theorem counted_produceAll (h : bars.foldlM (sim.produce limit count) s = some s') :
    Counted s s' [] bars count := by
  induction bars generalizing s with
  | nil =>
    obtain rfl : s = s' := by simpa using h
    exact .refl s count
  | cons v bars ih =>
    obtain ⟨s₁, h₁, h₂⟩ := Option.bind_eq_some_iff.mp h
    exact (counted_produce h₁).trans (ih h₂)

theorem counted_processSim (h : sim.processSim limit user s = .Success s') :
    Counted s s' user.consumer user.producer user.count := by
  obtain ⟨-, -, s₁, hc, hp⟩ := processSim_eq_success h
  simpa using (counted_consumeAll hc).trans (counted_produceAll hp)

end Process

section Turn

variable {q : Queue} {s s' : SimState}

theorem pollQueue_eq_advanced (h : sim.pollQueue limit q s = .advanced s') :
    ∃ user, (sim.tasks.queue q)[s.pos q]? = some user ∧
      ((∃ key t, sim.multiQueueKey q (s.pos q) = some key ∧ s.status key = some t ∧
        s' = advance q s) ∨
      ((sim.multiQueueKey q (s.pos q)).bind s.status = none ∧
        ∃ s₁, sim.processSim limit user s = .Success s₁ ∧
          s' = advance q (markProcessed (sim.multiQueueKey q (s.pos q)) user.task s₁))) := by
  unfold pollQueue at h
  cases huser : (sim.tasks.queue q)[s.pos q]? with
  | none => simp [huser] at h
  | some user =>
    simp only [huser] at h
    refine ⟨user, rfl, ?_⟩
    cases hmark : (sim.multiQueueKey q (s.pos q)).bind s.status with
    | some t =>
      simp only [hmark, Turn.advanced.injEq] at h
      obtain ⟨key, hkey, hstatus⟩ := Option.bind_eq_some_iff.mp hmark
      exact Or.inl ⟨key, t, hkey, hstatus, h.symm⟩
    | none =>
      simp only [hmark] at h
      cases hsim : sim.processSim limit user s with
      | Skip => simp [hsim] at h
      | Fail => simp [hsim] at h
      | Success s₁ =>
        simp only [hsim, Turn.advanced.injEq] at h
        exact Or.inr ⟨rfl, s₁, rfl, h.symm⟩

theorem pollQueue_eq_blocked : sim.pollQueue limit q s = .blocked ↔
    (sim.tasks.queue q)[s.pos q]? = none ∨
    ∃ user, (sim.tasks.queue q)[s.pos q]? = some user ∧
      (sim.multiQueueKey q (s.pos q)).bind s.status = none ∧
      sim.processSim limit user s = .Skip := by
  unfold pollQueue
  cases huser : (sim.tasks.queue q)[s.pos q]? with
  | none => simp
  | some user =>
    dsimp only
    cases hmark : (sim.multiQueueKey q (s.pos q)).bind s.status with
    | some t => simp
    | none => cases hsim : sim.processSim limit user s <;> simp [hsim]

theorem pollQueue_of_marked {user : BarrierUserConfig} {t : ℕ}
    (huser : (sim.tasks.queue q)[s.pos q]? = some user)
    (hmark : (sim.multiQueueKey q (s.pos q)).bind s.status = some t) :
    sim.pollQueue limit q s = .advanced (advance q s) := by
  unfold pollQueue
  rw [huser]
  dsimp only
  rw [hmark]

theorem pollQueue_of_success {user : BarrierUserConfig} {s₁ : SimState}
    (huser : (sim.tasks.queue q)[s.pos q]? = some user)
    (hmark : (sim.multiQueueKey q (s.pos q)).bind s.status = none)
    (hsim : sim.processSim limit user s = .Success s₁) :
    sim.pollQueue limit q s =
      .advanced (advance q (markProcessed (sim.multiQueueKey q (s.pos q)) user.task s₁)) := by
  unfold pollQueue
  rw [huser]
  dsimp only
  rw [hmark]
  rw [hsim]

theorem mapBarrier_bar (hmap : sim.hasBarriersToMap s = true) :
    (sim.mapBarrier s).bar = s.bar + 1 := by
  unfold mapBarrier
  unfold hasBarriersToMap at hmap
  split_ifs at hmap ⊢ with hdyn
  · rfl
  · cases hr : s.realId s.bar with
    | none => simp [hr] at hmap
    | some r => rfl

theorem mapBarrier_pos : (sim.mapBarrier s).pos = s.pos := by
  unfold mapBarrier
  split_ifs with hdyn
  · rfl
  · cases s.realId s.bar <;> rfl

theorem pollQueue_bar (h : sim.pollQueue limit q s = .advanced s') : s'.bar = s.bar := by
  obtain ⟨user, -, ⟨key, t, -, -, rfl⟩ | ⟨-, s₁, hsim, rfl⟩⟩ := pollQueue_eq_advanced h
  · rfl
  · exact (counted_processSim hsim).bar

theorem pollQueue_pos (h : sim.pollQueue limit q s = .advanced s') :
    s.pos q < (sim.tasks.queue q).length ∧ s'.pos = Function.update s.pos q (s.pos q + 1) := by
  obtain ⟨user, huser, hcase⟩ := pollQueue_eq_advanced h
  refine ⟨(List.getElem?_eq_some_iff.mp huser).1, ?_⟩
  obtain ⟨key, t, -, -, rfl⟩ | ⟨-, s₁, hsim, rfl⟩ := hcase
  · rfl
  · show Function.update s₁.pos q (s₁.pos q + 1) = _
    rw [(counted_processSim hsim).pos]

end Turn

section Runs

variable {progressed : Bool} {s : SimState} {q : Queue} {qs : List Queue}

theorem step_map : sim.step limit (.running .mapBarriers progressed s) =
    if s.bar < sim.numBarriers && sim.hasBarriersToMap s then
      .running .mapBarriers true (sim.mapBarrier s)
    else .running (.poll sim.queues) progressed s := rfl

theorem step_poll : sim.step limit (.running (.poll (q :: qs)) progressed s) =
    match sim.pollQueue limit q s with
    | .advanced s' => .running (.poll (q :: qs)) true s'
    | .blocked => .running (.poll qs) progressed s
    | .failed => .returned false s := rfl

theorem step_round : sim.step limit (.running (.poll []) progressed s) =
    if progressed then sim.startRound s else .returned false s := rfl

theorem step_returned {success : Bool} :
    sim.step limit (.returned success s) = .returned success s := rfl

theorem point_succ (sim : BarrierSimulator) (limit n : ℕ) : sim.point limit (n + 1) =
    sim.step limit (sim.point limit n) :=
  Function.iterate_succ_apply' (sim.step limit) n _

theorem point_induction {P : Point → Prop} (hinit : P (sim.startRound (sim.initial limit)))
    (hstep : ∀ p, P p → P (sim.step limit p)) (n : ℕ) : P (sim.point limit n) := by
  induction n with
  | zero => exact hinit
  | succ n ih =>
    rw [point_succ]
    exact hstep _ ih

theorem startRound_state : (sim.startRound s).state = s := by
  unfold startRound
  split_ifs <;> rfl

theorem invariant_point {I : SimState → Prop} (hinit : I (sim.initial limit))
    (hmap : ∀ s, I s → s.bar < sim.numBarriers → sim.hasBarriersToMap s = true →
      I (sim.mapBarrier s))
    (hpoll : ∀ q s s', I s → sim.pollQueue limit q s = .advanced s' → I s') (n : ℕ) :
    I (sim.point limit n).state := by
  refine point_induction (P := fun p => I p.state) ?_ ?_ n
  · rw [startRound_state]
    exact hinit
  · intro p hp
    match p with
    | .returned success s => exact hp
    | .running .mapBarriers progressed s =>
      rw [step_map]
      split_ifs with hcond
      · rw [Bool.and_eq_true, decide_eq_true_eq] at hcond
        exact hmap s hp hcond.1 hcond.2
      · exact hp
    | .running (.poll []) progressed s =>
      rw [step_round]
      split_ifs
      · rw [startRound_state]
        exact hp
      · exact hp
    | .running (.poll (q :: qs)) progressed s =>
      rw [step_poll]
      cases hturn : sim.pollQueue limit q s with
      | advanced s' => exact hpoll q s s' hp hturn
      | blocked => exact hp
      | failed => exact hp

end Runs

section Ends

variable {q : Queue} {s s' : SimState}

theorem remaining_mapBarrier (h : s.bar < sim.numBarriers) (hmap : sim.hasBarriersToMap s = true) :
    sim.remaining (sim.mapBarrier s) < sim.remaining s := by
  unfold remaining
  rw [mapBarrier_bar hmap, mapBarrier_pos]
  omega

theorem remaining_pollQueue (hq : q ∈ sim.queues) (h : sim.pollQueue limit q s = .advanced s') :
    sim.remaining s' < sim.remaining s := by
  obtain ⟨hlt, hpos⟩ := pollQueue_pos h
  unfold remaining
  rw [pollQueue_bar h, hpos]
  apply Nat.add_lt_add_left
  apply List.sum_lt_sum
  · intro p hp
    by_cases heq : p = q
    · subst heq
      rw [Function.update_self]
      omega
    · rw [Function.update_of_ne heq]
  · refine ⟨q, hq, ?_⟩
    rw [Function.update_self]
    omega

/-- Turns that are left, at most; the queues of a round are among those of the simulator. -/
def turnsLeft (sim : BarrierSimulator) : Point → ℕ
  | .returned .. => 0
  | .running phase progressed s =>
    2 * (sim.queues.length + 3) * sim.remaining s +
      (if progressed then sim.queues.length + 3 else 0) +
      (match phase with
        | .mapBarriers => sim.queues.length + 1
        | .poll qs => qs.length) + 1

def Polling (sim : BarrierSimulator) : Point → Prop
  | .running (.poll qs) _ _ => qs ⊆ sim.queues ∧ qs.length ≤ sim.queues.length
  | _ => True

theorem turnsLeft_startRound (sim : BarrierSimulator) (s : SimState) :
    sim.turnsLeft (sim.startRound s) ≤
    2 * (sim.queues.length + 3) * sim.remaining s + (sim.queues.length + 2) := by
  unfold startRound
  split_ifs
  · exact le_rfl
  · exact Nat.zero_le _

theorem turnsLeft_progress {n n' k r : ℕ} {progressed : Bool} (h : n' < n) :
    2 * (k + 3) * n' + (k + 3) + r + 1 < 2 * (k + 3) * n + (if progressed then k + 3 else 0) + r +
      1 := by
  have hmul : 2 * (k + 3) * (n' + 1) ≤ 2 * (k + 3) * n := Nat.mul_le_mul_left _ h
  rw [Nat.mul_add] at hmul
  omega

theorem turnsLeft_step (limit : ℕ) {p : Point} (hp : sim.Polling p) (hpos : 0 < sim.turnsLeft p) :
    sim.turnsLeft (sim.step limit p) < sim.turnsLeft p ∧ sim.Polling (sim.step limit p) := by
  match p with
  | .returned success s => exact absurd hpos (Nat.lt_irrefl 0)
  | .running .mapBarriers progressed s =>
    rw [step_map]
    split_ifs with hcond
    · rw [Bool.and_eq_true, decide_eq_true_eq] at hcond
      exact ⟨turnsLeft_progress (remaining_mapBarrier hcond.1 hcond.2), trivial⟩
    · refine ⟨?_, List.Subset.refl _, le_rfl⟩
      unfold turnsLeft
      dsimp only
      omega
  | .running (.poll []) progressed s =>
    rw [step_round]
    split_ifs with hprog
    · refine ⟨?_, ?_⟩
      · have hround := turnsLeft_startRound sim s
        have hleft : sim.turnsLeft (.running (.poll []) progressed s) =
            2 * (sim.queues.length + 3) * sim.remaining s + (sim.queues.length + 3) + 0 + 1 := by
          rw [hprog]
          rfl
        omega
      · unfold startRound
        split_ifs <;> trivial
    · exact ⟨hpos, trivial⟩
  | .running (.poll (q :: qs)) progressed s =>
    rw [step_poll]
    cases hturn : sim.pollQueue limit q s with
    | advanced s' =>
      exact ⟨turnsLeft_progress (remaining_pollQueue (hp.1 List.mem_cons_self) hturn), hp⟩
    | blocked =>
      refine ⟨?_, fun p hp' => hp.1 (List.mem_cons_of_mem q hp'), Nat.le_of_succ_le hp.2⟩
      unfold turnsLeft
      dsimp only [List.length_cons]
      omega
    | failed => exact ⟨hpos, trivial⟩

theorem turnsLeft_point (sim : BarrierSimulator) (limit n : ℕ) : sim.Polling (sim.point limit n) ∧
    sim.turnsLeft (sim.point limit n) ≤ sim.turnsLeft (sim.point limit 0) - n := by
  induction n with
  | zero =>
    refine ⟨?_, le_rfl⟩
    show sim.Polling (sim.startRound (sim.initial limit))
    unfold startRound
    split_ifs <;> trivial
  | succ n ih =>
    rw [point_succ]
    by_cases hpos : 0 < sim.turnsLeft (sim.point limit n)
    · have hstep := turnsLeft_step limit ih.1 hpos
      exact ⟨hstep.2, by omega⟩
    · cases hp : sim.point limit n with
      | returned success s => exact ⟨trivial, Nat.zero_le _⟩
      | running phase progressed s =>
        rw [hp] at hpos
        exact absurd (Nat.succ_pos _) hpos

theorem point_maxSteps (sim : BarrierSimulator) (limit : ℕ) :
    ∃ success s, sim.point limit (sim.maxSteps limit) = .returned success s := by
  have hleft := (turnsLeft_point sim limit (sim.maxSteps limit)).2
  have hround : sim.turnsLeft (sim.point limit 0) ≤ _ := turnsLeft_startRound sim _
  have hbound : sim.turnsLeft (sim.point limit 0) ≤ sim.maxSteps limit := by
    have hmul := Nat.mul_add_one (2 * (sim.queues.length + 3)) (sim.remaining (sim.initial limit))
    unfold maxSteps
    omega
  cases hp : sim.point limit (sim.maxSteps limit) with
  | returned success s => exact ⟨success, s, rfl⟩
  | running phase progressed s =>
    rw [hp] at hleft
    have hpos : 0 < sim.turnsLeft (.running phase progressed s) := Nat.succ_pos _
    omega

theorem unfinished_point {n : ℕ} (h : sim.point limit n = .returned true s) :
    sim.unfinished s = false := by
  have hround : ∀ s₁, sim.startRound s₁ = .returned true s → sim.unfinished s = false := by
    intro s₁ hs
    unfold startRound at hs
    split_ifs at hs with hleft
    obtain rfl := (Point.returned.inj hs).2
    exact Bool.not_eq_true _ ▸ hleft
  refine point_induction (P := fun p => p = .returned true s → sim.unfinished s = false)
    (hround _) ?_ n h
  intro p hp hs
  match p with
  | .returned success s₁ => exact hp hs
  | .running .mapBarriers progressed s₁ =>
    rw [step_map] at hs
    split_ifs at hs
  | .running (.poll []) progressed s₁ =>
    rw [step_round] at hs
    split_ifs at hs
    · exact hround s₁ hs
    · cases hs
  | .running (.poll (q :: qs)) progressed s₁ =>
    rw [step_poll] at hs
    cases hturn : sim.pollQueue limit q s₁ with
    | advanced s' => simp [hturn] at hs
    | blocked => simp [hturn] at hs
    | failed => simp [hturn] at hs

theorem bar_point (sim : BarrierSimulator) (limit n : ℕ) : (sim.point limit n).state.bar ≤
    sim.numBarriers := by
  refine invariant_point (I := fun s => s.bar ≤ sim.numBarriers) ?_ ?_ ?_ n
  · exact Nat.zero_le _
  · intro s _ hlt hmap
    rw [mapBarrier_bar hmap]
    exact hlt
  · intro q s s' hle hrun
    rw [pollQueue_bar hrun]
    exact hle

theorem bar_of_finished (h : sim.unfinished s = false) : sim.numBarriers ≤ s.bar := by
  unfold unfinished at h
  simp only [Bool.or_eq_false_iff, decide_eq_false_iff_not] at h
  omega

theorem pos_of_finished (h : sim.unfinished s = false) (hq : q ∈ sim.queues) :
    (sim.tasks.queue q).length ≤ s.pos q := by
  unfold unfinished at h
  simp only [Bool.or_eq_false_iff, List.any_eq_false, decide_eq_true_eq] at h
  exact Nat.le_of_not_lt (h.2 q hq)

theorem mem_queues : q ∈ sim.queues ↔
    match q with
    | .dma e => e < sim.platform.dmaPortCount
    | _ => True := by
  unfold queues
  cases q <;> simp

theorem simulateBarriers_iff {numBarriers : Option ℕ} {success : Bool} :
    sim.simulateBarriers numBarriers = some (success, s) ↔
      numBarriers.getD sim.platform.availableBarriers ≤ sim.platform.availableBarriers ∧
      sim.point (numBarriers.getD sim.platform.availableBarriers)
        (sim.maxSteps (numBarriers.getD sim.platform.availableBarriers)) = .returned success s := by
  unfold simulateBarriers
  dsimp only
  split_ifs with hlimit
  · obtain ⟨success', s', hpoint⟩ := point_maxSteps sim
      (numBarriers.getD sim.platform.availableBarriers)
    rw [hpoint]
    simp [hlimit]
  · simp [hlimit]

end Ends
end BarrierSimulator
end Vpux.Simulator
