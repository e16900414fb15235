import Vpux.Simulator.Steps

/-! How the dynamic simulation hands out physical barriers: the ring buffer holds the free ones,
and a barrier that is still in use is the holder of its physical barrier. -/
namespace Vpux.Simulator
open Data
namespace BarrierSimulator

variable {sim : BarrierSimulator} {limit : ℕ} {s s' : SimState}

/-- Every entry of a queue takes its count off the counters at least once. -/
def PositiveCounts (sim : BarrierSimulator) : Prop :=
  ∀ q, ∀ user ∈ sim.tasks.queue q, 0 < user.count

theorem positiveCounts_of {tasks : List VPURT.TaskOp}
    (h : Parsed.Of sim.platform tasks sim.tasks) : sim.PositiveCounts := by
  intro q user huser
  obtain ⟨-, op, -, heq⟩ := h.entry q user huser
  rw [heq]
  exact taskCount_pos op

/-- The relation between the ring buffer, the table `toVirtual`, the ids and the counters. -/
structure Assigned (limit : ℕ) (s : SimState) : Prop where
  free : ∃ l, s.nextReal.Holds l ∧ s.nextReal.capacity = limit ∧ l.Nodup ∧
    ∀ r, r ∈ l ↔ r < limit ∧ s.toVirtual r = none
  /-- A mapped barrier holds its physical barrier or is not in use any more. -/
  mapped : ∀ v < s.bar, ∃ r, s.realId v = some r ∧ r < limit ∧
    (s.toVirtual r = some v ∨ (s.consumerCount v = 0 ∧ s.producerCount v = 0))
  unmapped : ∀ v, s.bar ≤ v → s.realId v = none
  holder : ∀ r v, s.toVirtual r = some v → r < limit ∧ v < s.bar ∧ s.realId v = some r
  /-- The holder of a physical barrier is the last one that was mapped to it. -/
  latest : ∀ r w, s.toVirtual r = some w → ∀ v < s.bar, s.realId v = some r → v ≤ w

namespace Assigned

theorem lt_bar (h : Assigned limit s) {v r : ℕ} (hr : s.realId v = some r) : v < s.bar := by
  by_contra hlt
  rw [h.unmapped v (Nat.le_of_not_lt hlt)] at hr
  cases hr

theorem toVirtual_eq (h : Assigned limit s) {v r : ℕ} (hr : s.realId v = some r)
    (huse : s.consumerCount v ≠ 0 ∨ s.producerCount v ≠ 0) : s.toVirtual r = some v := by
  obtain ⟨r', hr', -, hheld⟩ := h.mapped v (h.lt_bar hr)
  obtain rfl : r = r' := Option.some.inj (hr.symm.trans hr')
  rcases hheld with hheld | ⟨hc, hp⟩
  · exact hheld
  · rcases huse with huse | huse
    · exact absurd hc huse
    · exact absurd hp huse

theorem update_none_eq_some {f : ℕ → Option ℕ} {r i w : ℕ}
    (h : Function.update f r none i = some w) : i ≠ r ∧ f i = some w := by
  by_cases hir : i = r
  · subst hir
    rw [Function.update_self] at h
    cases h
  · rw [Function.update_of_ne hir] at h
    exact ⟨hir, h⟩

theorem length_lt {l : List ℕ} {r : ℕ} (hnodup : l.Nodup)
    (hfree : ∀ r, r ∈ l ↔ r < limit ∧ s.toVirtual r = none) (hr : r < limit)
    (hheld : s.toVirtual r ≠ none) : l.length < limit := by
  have hout : r ∉ l := fun hmem => hheld ((hfree r).mp hmem).2
  have hsub : r :: l ⊆ List.range limit := by
    intro i hi
    rcases List.mem_cons.mp hi with rfl | hi
    · exact List.mem_range.mpr hr
    · exact List.mem_range.mpr ((hfree i).mp hi).1
  have hlen := (List.nodup_cons.mpr ⟨hout, hnodup⟩).subperm hsub |>.length_le
  rw [List.length_cons, List.length_range] at hlen
  exact hlen

theorem consume {count v : ℕ} (h : Assigned limit s) (hdyn : sim.isDynamicBarriers = true)
    (hpos : 0 < count) (hrun : sim.consume limit count s v = some s') : Assigned limit s' := by
  obtain ⟨r, hr, -, hprod, hle, rfl⟩ := consume_eq_some hrun
  have hheld := h.toVirtual_eq hr (Or.inl (by omega))
  obtain ⟨hrlt, hvbar, -⟩ := h.holder r v hheld
  split_ifs with hlast
  · obtain ⟨l, hl, hcap, hnodup, hfree⟩ := h.free
    have hout : r ∉ l := by
      intro hmem
      rw [((hfree r).mp hmem).2] at hheld
      cases hheld
    have hroom := length_lt hnodup hfree hrlt (by rw [hheld]; simp)
    refine ⟨⟨l ++ [r], ?_, ?_, ?_, ?_⟩, ?_, h.unmapped, ?_, ?_⟩
    · unfold release
      rw [hdyn]
      exact hl.push (by rw [hcap]; exact hroom)
    · unfold release
      rw [hdyn]
      exact RingBuffer.capacity_push.trans hcap
    · exact List.nodup_append.mpr ⟨hnodup, List.nodup_singleton r, fun i hi j hj => by
        obtain rfl := List.mem_singleton.mp hj
        exact fun heq => hout (heq ▸ hi)⟩
    · intro i
      show i ∈ l ++ [r] ↔ i < limit ∧ Function.update s.toVirtual r none i = none
      rw [List.mem_append, List.mem_singleton, hfree i]
      by_cases hi : i = r
      · subst hi
        simp [hrlt]
      · simp [hi]
    · intro w hw
      show ∃ i, s.realId w = some i ∧ i < limit ∧ (Function.update s.toVirtual r none i = some w ∨
        (Function.update s.consumerCount v 0 w = 0 ∧ s.producerCount w = 0))
      obtain ⟨i, hi, hilt, hin⟩ := h.mapped w hw
      by_cases hwv : w = v
      · subst hwv
        exact ⟨i, hi, hilt, Or.inr ⟨Function.update_self _ _ _, hprod⟩⟩
      · refine ⟨i, hi, hilt, ?_⟩
        rw [Function.update_of_ne hwv]
        rcases hin with hin | hin
        · have hir : i ≠ r := by
            rintro rfl
            exact hwv (Option.some.inj (hin.symm.trans hheld))
          rw [Function.update_of_ne hir]
          exact Or.inl hin
        · exact Or.inr hin
    · intro i w hw
      exact h.holder i w (update_none_eq_some hw).2
    · intro i w hw
      exact h.latest i w (update_none_eq_some hw).2
  · refine ⟨h.free, ?_, h.unmapped, h.holder, h.latest⟩
    intro w hw
    obtain ⟨i, hi, hilt, hin⟩ := h.mapped w hw
    refine ⟨i, hi, hilt, ?_⟩
    by_cases hwv : w = v
    · subst hwv
      obtain rfl : i = r := Option.some.inj (hi.symm.trans hr)
      exact Or.inl hheld
    · rcases hin with hin | ⟨hc, hp⟩
      · exact Or.inl hin
      · exact Or.inr ⟨(Function.update_of_ne hwv _ _).trans hc, hp⟩

theorem produce {count v : ℕ} (h : Assigned limit s)
    (hrun : sim.produce limit count s v = some s') : Assigned limit s' := by
  obtain ⟨-, -, rfl⟩ := produce_eq_some hrun
  refine ⟨h.free, ?_, h.unmapped, h.holder, h.latest⟩
  intro w hw
  obtain ⟨i, hi, hilt, hin⟩ := h.mapped w hw
  refine ⟨i, hi, hilt, ?_⟩
  rcases hin with hin | ⟨hc, hp⟩
  · exact Or.inl hin
  · refine Or.inr ⟨hc, ?_⟩
    by_cases hwv : w = v
    · subst hwv
      show Function.update s.producerCount w (s.producerCount w - count) w = 0
      rw [Function.update_self, hp, Nat.zero_sub]
    · exact (Function.update_of_ne hwv _ _).trans hp

theorem consumeAll {count : ℕ} (hdyn : sim.isDynamicBarriers = true) (hpos : 0 < count)
    {bars : List ℕ} (h : Assigned limit s)
    (hrun : bars.foldlM (sim.consume limit count) s = some s') : Assigned limit s' := by
  induction bars generalizing s with
  | nil =>
    obtain rfl : s = s' := by simpa using hrun
    exact h
  | cons v bars ih =>
    obtain ⟨s₁, h₁, h₂⟩ := Option.bind_eq_some_iff.mp hrun
    exact ih (h.consume hdyn hpos h₁) h₂

section

variable (h : Assigned limit s)
include h

theorem produceAll {count : ℕ} {bars : List ℕ}
    (hrun : bars.foldlM (sim.produce limit count) s = some s') : Assigned limit s' := by
  induction bars generalizing s with
  | nil =>
    obtain rfl : s = s' := by simpa using hrun
    exact h
  | cons v bars ih =>
    obtain ⟨s₁, h₁, h₂⟩ := Option.bind_eq_some_iff.mp hrun
    exact ih (h.produce h₁) h₂

theorem processSim {user : BarrierUserConfig} (hdyn : sim.isDynamicBarriers = true)
    (hpos : 0 < user.count) (hrun : sim.processSim limit user s = .Success s') :
    Assigned limit s' := by
  obtain ⟨-, -, s₁, hc, hp⟩ := processSim_eq_success hrun
  exact (h.consumeAll hdyn hpos hc).produceAll hp

theorem pollQueue {q : Queue} (hdyn : sim.isDynamicBarriers = true) (hpos : sim.PositiveCounts)
    (hrun : sim.pollQueue limit q s = .advanced s') :
    Assigned limit s' := by
  obtain ⟨user, huser, ⟨key, t, -, -, rfl⟩ | ⟨-, s₁, hsim, rfl⟩⟩ := pollQueue_eq_advanced hrun
  · exact ⟨h.free, h.mapped, h.unmapped, h.holder, h.latest⟩
  · have h₁ := h.processSim hdyn (hpos q user (List.mem_of_getElem? huser)) hsim
    exact ⟨h₁.free, h₁.mapped, h₁.unmapped, h₁.holder, h₁.latest⟩

theorem mapBarrier (hdyn : sim.isDynamicBarriers = true) (hmap : sim.hasBarriersToMap s = true) :
    Assigned limit (sim.mapBarrier s) := by
  obtain ⟨l, hl, hcap, hnodup, hfree⟩ := h.free
  unfold hasBarriersToMap at hmap
  rw [if_pos hdyn] at hmap
  obtain ⟨r, rest, rfl⟩ : ∃ r rest, l = r :: rest := by
    cases l with
    | nil => simp [hl.empty_iff.mpr rfl] at hmap
    | cons r rest => exact ⟨r, rest, rfl⟩
  obtain ⟨hrlt, hrfree⟩ := (hfree r).mp List.mem_cons_self
  obtain ⟨hrout, hrest⟩ := List.nodup_cons.mp hnodup
  have hnew : sim.mapBarrier s = { s with
      nextReal := s.nextReal.pop
      realId := Function.update s.realId s.bar (some r)
      toVirtual := Function.update s.toVirtual r (some s.bar)
      bar := s.bar + 1 } := by
    unfold BarrierSimulator.mapBarrier
    rw [if_pos hdyn, hl.front]
  rw [hnew]
  refine ⟨⟨rest, hl.pop, hcap, hrest, ?_⟩, ?_, ?_, ?_, ?_⟩
  · intro i
    show i ∈ rest ↔ i < limit ∧ Function.update s.toVirtual r (some s.bar) i = none
    by_cases hi : i = r
    · subst hi
      simp [hrout]
    · rw [Function.update_of_ne hi, ← hfree i]
      simp [hi]
  · intro v hv
    by_cases hlast : v = s.bar
    · subst hlast
      exact ⟨r, Function.update_self _ _ _, hrlt, Or.inl (Function.update_self _ _ _)⟩
    · have hold : v < s.bar := Nat.lt_of_le_of_ne (Nat.lt_succ_iff.mp hv) hlast
      obtain ⟨i, hi, hilt, hin⟩ := h.mapped v hold
      refine ⟨i, (Function.update_of_ne hlast _ _).trans hi, hilt, ?_⟩
      rcases hin with hin | hin
      · have hir : i ≠ r := by
          rintro rfl
          rw [hrfree] at hin
          cases hin
        exact Or.inl ((Function.update_of_ne hir _ _).trans hin)
      · exact Or.inr hin
  · intro v hv
    have hne : v ≠ s.bar := by
      rintro rfl
      exact absurd hv (Nat.not_succ_le_self _)
    exact (Function.update_of_ne hne _ _).trans (h.unmapped v (Nat.le_of_succ_le hv))
  · intro i v hv
    by_cases hi : i = r
    · subst hi
      obtain rfl : s.bar = v :=
        Option.some.inj ((Function.update_self i (some s.bar) s.toVirtual).symm.trans hv)
      exact ⟨hrlt, Nat.lt_succ_self _, Function.update_self _ _ _⟩
    · have hold : s.toVirtual i = some v :=
        (Function.update_of_ne hi (some s.bar) s.toVirtual).symm.trans hv
      obtain ⟨hilt, hvbar, hreal⟩ := h.holder i v hold
      exact ⟨hilt, Nat.lt_succ_of_lt hvbar,
        (Function.update_of_ne (Nat.ne_of_lt hvbar) _ _).trans hreal⟩
  · intro i w hw v hv hreal
    by_cases hi : i = r
    · subst hi
      obtain rfl : s.bar = w :=
        Option.some.inj ((Function.update_self i (some s.bar) s.toVirtual).symm.trans hw)
      exact Nat.lt_succ_iff.mp hv
    · have hheld : s.toVirtual i = some w :=
        (Function.update_of_ne hi (some s.bar) s.toVirtual).symm.trans hw
      by_cases hlast : v = s.bar
      · subst hlast
        have hir : some r = some i :=
          (Function.update_self s.bar (some r) s.realId).symm.trans hreal
        exact absurd (Option.some.inj hir).symm hi
      · have hold : v < s.bar := Nat.lt_of_le_of_ne (Nat.lt_succ_iff.mp hv) hlast
        exact h.latest i w hheld v hold
          ((Function.update_of_ne hlast (some r) s.realId).symm.trans hreal)

end

theorem fillNextReal_holds (n : ℕ) {b : RingBuffer ℕ} {k : ℕ} (hb : b.Holds (List.range k))
    (hn : k + n = b.capacity) :
    (fillNextReal n b).Holds (List.range b.capacity) ∧ (fillNextReal n b).capacity =
      b.capacity := by
  induction n generalizing b k with
  | zero =>
    obtain rfl : k = b.capacity := hn
    exact ⟨hb, rfl⟩
  | succ n ih =>
    have hroom : (List.range k).length < b.capacity := by
      rw [List.length_range]
      omega
    have hnotFull : b.full = false := by
      rw [← Bool.not_eq_true, hb.full_iff]
      omega
    have hsize : b.size = k := by rw [hb.size, List.length_range]
    have hpush : (b.push b.size).Holds (List.range (k + 1)) := by
      rw [List.range_succ, hsize]
      exact hb.push hroom
    have hcap : (b.push b.size).capacity = b.capacity := RingBuffer.capacity_push
    unfold fillNextReal
    rw [hnotFull]
    have hrest := ih hpush (by rw [hcap]; omega)
    rwa [hcap] at hrest

theorem initial (hdyn : sim.isDynamicBarriers = true) (hreal : ∀ v, sim.realId v = none) :
    Assigned limit (sim.initial limit) := by
  have hcap := RingBuffer.capacity_reset (RingBuffer.new : RingBuffer ℕ) limit
  have hfill := fillNextReal_holds limit (b := RingBuffer.new.reset limit) (k := 0) (.reset _ _)
    (by rw [hcap, Nat.zero_add])
  rw [hcap] at hfill
  refine ⟨⟨List.range limit, ?_, ?_, List.nodup_range, ?_⟩, ?_, ?_, ?_, ?_⟩
  · unfold BarrierSimulator.initial
    rw [if_pos hdyn]
    exact hfill.1
  · unfold BarrierSimulator.initial
    rw [if_pos hdyn]
    exact hfill.2
  · intro r
    show r ∈ List.range limit ↔ r < limit ∧ (none : Option ℕ) = none
    simp
  · intro v hv
    exact absurd hv (Nat.not_lt_zero v)
  · exact fun v _ => hreal v
  · intro r v hv
    cases hv
  · intro r w hw
    cases hw

end Assigned

theorem assigned_point (hdyn : sim.isDynamicBarriers = true) (hreal : ∀ v, sim.realId v = none)
    (hpos : sim.PositiveCounts) (limit n : ℕ) : Assigned limit (sim.point limit n).state :=
  invariant_point (Assigned.initial hdyn hreal) (fun _ h _ hmap => h.mapBarrier hdyn hmap)
    (fun _ _ _ h hrun => h.pollQueue hdyn hpos hrun) n

end BarrierSimulator
end Vpux.Simulator
