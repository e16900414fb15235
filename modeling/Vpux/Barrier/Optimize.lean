import Vpux.Barrier.Info
import Vpux.Data.Sweep

/-! `optimizeBarriers` drops dependencies that others imply: update barriers first,
then barriers with equal producers, then wait barriers. -/
namespace Vpux.Barrier
open Data Data.TaskSet VPURT Relation

namespace BarrierInfo

variable {S : Type} [TaskSet S]

/-- Phase one: tasks are closed from the last to the first and pruned from the first on. -/
def optimizeUpdateBarriers (info : BarrierInfo S) : BarrierInfo S :=
  { info with
    produced := closeAndPrune info.produced info.consumed
      (List.range info.numTasks).reverse (List.range info.numTasks) }

def mergeIfSameProducers (info : BarrierInfo S) (barInd childBarInd : ℕ) : BarrierInfo S :=
  if equal (info.getBarrierProducers barInd) (info.getBarrierProducers childBarInd) then
    (info.addConsumers barInd (info.getBarrierConsumers childBarInd)).resetBarrier childBarInd
  else info

/-- Phase two: barriers with the same producers pass their consumers to the first one. -/
def mergeSameProducers (info : BarrierInfo S) : BarrierInfo S :=
  (List.range info.numBarriers).foldl (fun info barInd =>
    (List.range' (barInd + 1) (info.numBarriers - (barInd + 1))).foldl
      (fun info childBarInd => info.mergeIfSameProducers barInd childBarInd) info) info

/-- Phase three: the mirror image of phase one. -/
def optimizeWaitBarriers (info : BarrierInfo S) : BarrierInfo S :=
  { info with
    consumed := closeAndPrune info.consumed info.produced
      (List.range info.numTasks) (List.range info.numTasks).reverse }

def optimizeBarriers (info : BarrierInfo S) : BarrierInfo S :=
  info.optimizeUpdateBarriers.mergeSameProducers.optimizeWaitBarriers

def TasksInRange (info : BarrierInfo S) : Prop :=
  ∀ t b, info.Updates t b ∨ info.Waits t b → t < info.numTasks

theorem InRange.tasks {info : BarrierInfo S} (h : info.InRange) : info.TasksInRange := by
  rintro t b (hu | hw)
  · exact (h.updates t b hu).1
  · exact (h.waits t b hw).1

theorem forward_iff (info : BarrierInfo S) :
    info.Forward ↔ ∀ a c, info.Drives a c → a < c := by
  constructor
  · intro h a c hd
    exact h.ranked a c hd
  · intro h b a c hu hw
    exact h a c ⟨b, hu, hw⟩

section Phases

variable (info : BarrierInfo S) {a c : ℕ}

theorem before_optimizeUpdateBarriers (hr : info.TasksInRange) (hf : info.Forward) :
    info.optimizeUpdateBarriers.Before a c ↔ info.Before a c := by
  have hnext : ∀ t u, Next info.produced info.consumed t u → t < u ∧ u < info.numTasks := by
    rintro t u ⟨b, ht, hu⟩
    exact ⟨hf b t u ht hu, hr u b (Or.inr hu)⟩
  apply transGen_closeAndPrune info.produced info.consumed hf.ranked
    (afterNext_reverse_range hnext) (beforeNext_range hnext)
  · simp
  · intro t b ht
    simpa using hr t b (Or.inl ht)
  · intro t b ht
    simpa using hr t b (Or.inr ht)

theorem updates_optimizeUpdateBarriers (hr : info.TasksInRange) (hf : info.Forward) {t b : ℕ}
    (h : info.optimizeUpdateBarriers.Updates t b) : info.Updates t b := by
  have hnext : ∀ t u, Next info.produced info.consumed t u → t < u ∧ u < info.numTasks := by
    rintro t u ⟨b, ht, hu⟩
    exact ⟨hf b t u ht hu, hr u b (Or.inr hu)⟩
  have hrel := rel_closeAndPrune info.produced info.consumed
    (afterNext_reverse_range hnext) (beforeNext_range hnext) (by simp)
    (fun t b ht => by simpa using hr t b (Or.inl ht))
    (fun t b ht => by simpa using hr t b (Or.inr ht)) t b
  exact (hrel.mp h).1

theorem drives_mergeIfSameProducers {barInd childBarInd : ℕ} (hne : barInd ≠ childBarInd) :
    (info.mergeIfSameProducers barInd childBarInd).Drives a c ↔ info.Drives a c := by
  unfold mergeIfSameProducers
  split_ifs with heq
  · have hsame : ∀ t, info.Updates t barInd ↔ info.Updates t childBarInd := by
      intro t
      rw [← mem_getBarrierProducers, ← mem_getBarrierProducers]
      exact (equal_iff _ _).mp heq t
    simp only [VPURT.Drives, waits_resetBarrier, updates_resetBarrier, waits_addConsumers,
      updates_addConsumers, mem_getBarrierConsumers]
    constructor
    · rintro ⟨b, ⟨_, hu⟩, _, ⟨hw, rfl⟩ | hw⟩
      · exact ⟨childBarInd, (hsame a).mp hu, hw⟩
      · exact ⟨b, hu, hw⟩
    · rintro ⟨b, hu, hw⟩
      by_cases hb : b = childBarInd
      · subst hb
        exact ⟨barInd, ⟨hne, (hsame a).mpr hu⟩, hne, Or.inl ⟨hw, rfl⟩⟩
      · exact ⟨b, ⟨hb, hu⟩, hb, Or.inr hw⟩
  · rfl

theorem numTasks_mergeIfSameProducers (barInd childBarInd : ℕ) :
    (info.mergeIfSameProducers barInd childBarInd).numTasks = info.numTasks := by
  unfold mergeIfSameProducers
  split_ifs
  · exact foldl_frame numTasks (fun info t => info.addConsumer barInd t) (fun _ _ => rfl) _ info
  · rfl

theorem tasksInRange_mergeIfSameProducers (hr : info.TasksInRange) (barInd childBarInd : ℕ) :
    (info.mergeIfSameProducers barInd childBarInd).TasksInRange := by
  intro t b h
  rw [numTasks_mergeIfSameProducers]
  unfold mergeIfSameProducers at h
  split_ifs at h
  · simp only [waits_resetBarrier, updates_resetBarrier, waits_addConsumers,
      updates_addConsumers, mem_getBarrierConsumers] at h
    rcases h with ⟨_, hu⟩ | ⟨_, ⟨hw, _⟩ | hw⟩
    · exact hr t b (Or.inl hu)
    · exact hr t childBarInd (Or.inr hw)
    · exact hr t b (Or.inr hw)
  · exact hr t b h

structure SameDrives (info info' : BarrierInfo S) : Prop where
  numTasks : info'.numTasks = info.numTasks
  inRange : info.TasksInRange → info'.TasksInRange
  drives : ∀ a c, info'.Drives a c ↔ info.Drives a c

theorem SameDrives.trans {i j k : BarrierInfo S} (h : SameDrives i j) (h' : SameDrives j k) :
    SameDrives i k where
  numTasks := h'.numTasks.trans h.numTasks
  inRange hi := h'.inRange (h.inRange hi)
  drives a c := (h'.drives a c).trans (h.drives a c)

theorem SameDrives.foldl {f : BarrierInfo S → ℕ → BarrierInfo S} (l : List ℕ)
    (hf : ∀ info, ∀ x ∈ l, SameDrives info (f info x)) : SameDrives info (l.foldl f info) :=
  List.foldlRecOn (motive := fun info' => SameDrives info info') l f
    ⟨rfl, id, fun _ _ => Iff.rfl⟩ fun info' h x hx => h.trans (hf info' x hx)

theorem sameDrives_mergeSameProducers : SameDrives info info.mergeSameProducers := by
  apply SameDrives.foldl
  intro info' barInd _
  apply SameDrives.foldl
  intro info'' childBarInd hchild
  have hne : barInd ≠ childBarInd := by
    have := (List.mem_range'_1.mp hchild).1
    omega
  exact ⟨numTasks_mergeIfSameProducers info'' barInd childBarInd,
    fun hr => tasksInRange_mergeIfSameProducers info'' hr barInd childBarInd,
    fun a c => drives_mergeIfSameProducers info'' hne⟩

theorem next_consumed (info : BarrierInfo S) :
    Next info.consumed info.produced = Function.swap info.Drives := by
  funext t u
  exact propext ⟨fun ⟨b, ht, hu⟩ => ⟨b, hu, ht⟩, fun ⟨b, hu, ht⟩ => ⟨b, ht, hu⟩⟩

theorem before_optimizeWaitBarriers (hr : info.TasksInRange) (hf : info.Forward) :
    info.optimizeWaitBarriers.Before a c ↔ info.Before a c := by
  have hnext : ∀ t u, Next info.consumed info.produced t u → u < t ∧ t < info.numTasks := by
    rintro t u ⟨b, ht, hu⟩
    exact ⟨hf b u t hu ht, hr t b (Or.inr ht)⟩
  have hrank : Graph.Ranked (fun t => info.numTasks - t) (Next info.consumed info.produced) := by
    intro t u h
    have := hnext t u h
    dsimp only
    omega
  have hback := transGen_closeAndPrune info.consumed info.produced hrank
    (afterNext_range hnext) (beforeNext_reverse_range hnext) (by simp)
    (fun t b ht => by simpa using hr t b (Or.inr ht))
    (fun t b ht => by simpa using hr t b (Or.inl ht)) (a := c) (c := a)
  have hreverse : ∀ i : BarrierInfo S,
      i.Before a c ↔ TransGen (Next i.consumed i.produced) c a := by
    intro i
    rw [next_consumed, transGen_swap]
    rfl
  exact (hreverse _).trans (hback.trans (hreverse info).symm)

end Phases

/-- Barrier order is the same before and after the three phases. -/
theorem before_optimizeBarriers (info : BarrierInfo S) (hr : info.InRange) (hf : info.Forward)
    (a b : ℕ) : info.optimizeBarriers.Before a b ↔ info.Before a b := by
  have hf1 : info.optimizeUpdateBarriers.Forward :=
    hf.mono (fun t b => info.updates_optimizeUpdateBarriers hr.tasks hf) fun t b h => h
  have hr1 : info.optimizeUpdateBarriers.TasksInRange := by
    rintro t b (hu | hw)
    · exact hr.tasks t b (Or.inl (info.updates_optimizeUpdateBarriers hr.tasks hf hu))
    · exact hr.tasks t b (Or.inr hw)
  have hmerge := sameDrives_mergeSameProducers info.optimizeUpdateBarriers
  have hf2 : info.optimizeUpdateBarriers.mergeSameProducers.Forward := by
    rw [forward_iff] at hf1 ⊢
    exact fun a c h => hf1 a c ((hmerge.drives a c).mp h)
  have hdrives : info.optimizeUpdateBarriers.mergeSameProducers.Before a b ↔
      info.optimizeUpdateBarriers.Before a b :=
    ⟨TransGen.mono (fun x y => (hmerge.drives x y).mp) a b,
      TransGen.mono (fun x y => (hmerge.drives x y).mpr) a b⟩
  calc info.optimizeBarriers.Before a b
      ↔ info.optimizeUpdateBarriers.mergeSameProducers.Before a b :=
        before_optimizeWaitBarriers _ (hmerge.inRange hr1) hf2
    _ ↔ info.optimizeUpdateBarriers.Before a b := hdrives
    _ ↔ info.Before a b := before_optimizeUpdateBarriers info hr.tasks hf

/-- Task 1 sits between tasks 0 and 2, which also share a barrier of their own. -/
def bypass : FuncOp where
  numBarriers := 3
  tasks := [⟨.upa, [], [0, 2]⟩, ⟨.upa, [0], [1]⟩, ⟨.upa, [1, 2], []⟩]

theorem before_optimizeBarriers_bypass :
    (buildBarrierMaps bypass : BarrierInfo (SmallSet 16)).optimizeBarriers.Before 0 2 := by
  apply (before_optimizeBarriers (buildBarrierMaps bypass)
    (inRange_buildBarrierMaps bypass (by decide)) (forward_buildBarrierMaps bypass (by decide)) 0
      2).mpr
  have hdrives : (buildBarrierMaps bypass : BarrierInfo (SmallSet 16)).Drives 0 2 :=
    ⟨2, by decide, by decide⟩
  exact TransGen.single hdrives

/-- The bypassing barrier goes. -/
example :
    toList ((buildBarrierMaps bypass : BarrierInfo (SmallSet 16)).optimizeBarriers.getWaitBarriers
      2)
    = [1] := by decide

end BarrierInfo
end Vpux.Barrier
