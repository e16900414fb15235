import Vpux.Barrier.Controll

/-! `DMABarrierOptimization`: barrier dependencies that a control path or a DMA queue
implies are dropped, and barriers are merged where the queues allow it. -/
namespace Vpux.Barrier
open Data Data.TaskSet VPURT Relation

namespace BarrierInfo

variable {S : Type} [TaskSet S]

/-- The pair loop over the dependencies in iteration order. -/
def findRedundantDependencies (controll : ℕ → Finset ℕ) (producer : Bool) : List ℕ → S → S
  | [], dependenciesToRemove => dependenciesToRemove
  | task :: tasks, dependenciesToRemove =>
    findRedundantDependencies controll producer tasks
      (tasks.foldl (fun dependenciesToRemove next =>
        if controlPathExistsBetween controll task next then
          insert dependenciesToRemove (if producer then task else next)
        else dependenciesToRemove) dependenciesToRemove)

def removeRedundantAt (controll : ℕ → Finset ℕ) (info : BarrierInfo S) (b : ℕ) : BarrierInfo S :=
  let producersToRemove :=
    findRedundantDependencies controll true (toList (info.getBarrierProducers b)) empty
  let info := info.removeProducers b producersToRemove
  let consumersToRemove :=
    findRedundantDependencies controll false (toList (info.getBarrierConsumers b)) empty
  info.removeConsumers b consumersToRemove

def removeRedundantDependencies (controll : ℕ → Finset ℕ) (info : BarrierInfo S) : BarrierInfo S :=
  (List.range info.numBarriers).foldl (removeRedundantAt controll) info

def findExplicitDependencies (func : FuncOp) (dependencies : S) (type : TaskQueueType) : S :=
  (toList dependencies).foldl (fun dependenciesToRemove taskInd =>
    if taskQueueType? func taskInd = some type then insert dependenciesToRemove taskInd
    else dependenciesToRemove) empty

/-- The visit to one barrier; `none` is the failed consistency check. -/
def removeExplicitAt (func : FuncOp) (queues : List (TaskQueueType × Finset ℕ))
    (info : BarrierInfo S) (b : ℕ) : Option (BarrierInfo S) :=
  let barrierProducers := info.getBarrierProducers b
  let info :=
    match haveSameImplicitDependencyTaskQueueType queues barrierProducers with
    | some type =>
      info.removeConsumers b (findExplicitDependencies func (info.getBarrierConsumers b) type)
    | none => info
  let barrierConsumers := info.getBarrierConsumers b
  let info :=
    if isEmpty barrierConsumers then info.removeProducers b barrierProducers
    else
      match haveSameImplicitDependencyTaskQueueType queues barrierConsumers with
      | some type => info.removeProducers b (findExplicitDependencies func barrierProducers type)
      | none => info
  if isEmpty (info.getBarrierConsumers b) ^^ isEmpty (info.getBarrierProducers b) then none
  else some info

def removeExplicitDependencies (func : FuncOp) (queues : List (TaskQueueType × Finset ℕ))
    (info : BarrierInfo S) : Option (BarrierInfo S) :=
  (List.range info.numBarriers).foldlM (removeExplicitAt func queues) info

/-- The body of the inner loop. The state carries the local copies of the users of barrier A. -/
def mergeBarrierInto (queues : List (TaskQueueType × Finset ℕ)) (origWaitBarriersMap : ℕ → S)
    (barrierInd : ℕ) (state : BarrierInfo S × S × S) (nextBarrierInd : ℕ) : BarrierInfo S × S × S :=
  let (info, barrierProducersA, barrierConsumersA) := state
  let barrierProducersB := info.getBarrierProducers nextBarrierInd
  let barrierConsumersB := info.getBarrierConsumers nextBarrierInd
  if isEmpty barrierProducersB then state
  else if isEmpty barrierConsumersB then state
  else if !canBarriersBeMerged queues barrierProducersA barrierConsumersA barrierProducersB
      barrierConsumersB origWaitBarriersMap then state
  else
    (((info.addProducers barrierInd barrierProducersB).addConsumers barrierInd
        barrierConsumersB).resetBarrier nextBarrierInd,
      setUnion barrierProducersA barrierProducersB, setUnion barrierConsumersA barrierConsumersB)

def mergeBarriersInto (queues : List (TaskQueueType × Finset ℕ)) (origWaitBarriersMap : ℕ → S)
    (barrierNum : ℕ) (info : BarrierInfo S) (barrierInd : ℕ) : BarrierInfo S :=
  let barrierProducersA := info.getBarrierProducers barrierInd
  let barrierConsumersA := info.getBarrierConsumers barrierInd
  if isEmpty barrierProducersA then info
  else if isEmpty barrierConsumersA then info
  else
    ((List.range' (barrierInd + 1) (barrierNum - (barrierInd + 1))).foldl
      (mergeBarrierInto queues origWaitBarriersMap barrierInd)
      (info, barrierProducersA, barrierConsumersA)).1

def mergeBarriers (queues : List (TaskQueueType × Finset ℕ)) (origWaitBarriersMap : ℕ → S)
    (info : BarrierInfo S) : BarrierInfo S :=
  (List.range info.numBarriers).foldl
    (mergeBarriersInto queues origWaitBarriersMap info.numBarriers) info

end BarrierInfo

open BarrierInfo

/-- `DMABarrierOptimizationPass::safeRunOnFunc` -/
def dmaBarrierOptimization (S : Type) [TaskSet S] (dmaPortNum : ℕ) (func : FuncOp) :
    Option FuncOp :=
  let info : BarrierInfo S := buildBarrierMaps func
  let queues := taskQueueTypeMap dmaPortNum func
  let controll := info.buildTaskControllMap queues
  let origWaitBarriersMap := info.getWaitBarriers
  (removeExplicitDependencies func queues (info.removeRedundantDependencies controll)).map
    fun info =>
    ((info.mergeBarriers queues origWaitBarriersMap).removeRedundantDependencies controll).updateIR
      func

namespace BarrierInfo

variable {S : Type} [TaskSet S]

section Visits

/-- Nothing but the users of barrier `b` changed. -/
structure OnlyAt (b : ℕ) (info info' : BarrierInfo S) : Prop where
  numTasks : info'.numTasks = info.numTasks
  numBarriers : info'.numBarriers = info.numBarriers
  producers : ∀ x, x ≠ b → info'.getBarrierProducers x = info.getBarrierProducers x
  consumers : ∀ x, x ≠ b → info'.getBarrierConsumers x = info.getBarrierConsumers x

theorem OnlyAt.refl (b : ℕ) (info : BarrierInfo S) : OnlyAt b info info :=
  ⟨rfl, rfl, fun _ _ => rfl, fun _ _ => rfl⟩

theorem OnlyAt.trans {b : ℕ} {i j k : BarrierInfo S} (h : OnlyAt b i j) (h' : OnlyAt b j k) :
    OnlyAt b i k where
  numTasks := h'.numTasks.trans h.numTasks
  numBarriers := h'.numBarriers.trans h.numBarriers
  producers x hx := (h'.producers x hx).trans (h.producers x hx)
  consumers x hx := (h'.consumers x hx).trans (h.consumers x hx)

section

variable (info : BarrierInfo S) (b : ℕ) (ts : S)
include info b ts

theorem onlyAt_removeProducers : OnlyAt b info (info.removeProducers b ts) := by
  refine List.foldlRecOn (motive := OnlyAt b info) (toList ts) _ (.refl b info) fun info' h t _ =>
    ?_
  exact h.trans ⟨rfl, rfl, fun x hx => info'.produced.byBarrier_unlink_of_ne t hx, fun _ _ => rfl⟩

theorem onlyAt_removeConsumers : OnlyAt b info (info.removeConsumers b ts) := by
  refine List.foldlRecOn (motive := OnlyAt b info) (toList ts) _ (.refl b info) fun info' h t _ =>
    ?_
  exact h.trans ⟨rfl, rfl, fun _ _ => rfl, fun x hx => info'.consumed.byBarrier_unlink_of_ne t hx⟩

theorem mem_producers_removeProducers (t : ℕ) :
    t ∈ toList ((info.removeProducers b ts).getBarrierProducers b) ↔
      t ∈ toList (info.getBarrierProducers b) ∧ t ∉ toList ts := by
  rw [mem_getBarrierProducers, updates_removeProducers, mem_getBarrierProducers, and_comm]
  simp

theorem mem_consumers_removeConsumers (t : ℕ) :
    t ∈ toList ((info.removeConsumers b ts).getBarrierConsumers b) ↔
      t ∈ toList (info.getBarrierConsumers b) ∧ t ∉ toList ts := by
  rw [mem_getBarrierConsumers, waits_removeConsumers, mem_getBarrierConsumers, and_comm]
  simp

theorem consumers_removeProducers (x : ℕ) :
    (info.removeProducers b ts).getBarrierConsumers x = info.getBarrierConsumers x :=
  foldl_frame (fun i : BarrierInfo S => i.getBarrierConsumers x)
    (fun info t => info.removeProducer t b) (fun _ _ => rfl) (toList ts) info

theorem producers_removeConsumers (x : ℕ) :
    (info.removeConsumers b ts).getBarrierProducers x = info.getBarrierProducers x :=
  foldl_frame (fun i : BarrierInfo S => i.getBarrierProducers x)
    (fun info t => info.removeConsumer t b) (fun _ _ => rfl) (toList ts) info

end

/-- A loop that visits every barrier once: what a visit does to a barrier that meets `I`
is what the loop does to it. -/
theorem foldlM_barriers {f : BarrierInfo S → ℕ → Option (BarrierInfo S)} {I : S → S → Prop}
    {Q : S → S → S → S → Prop}
    (hf : ∀ info b, I (info.getBarrierProducers b) (info.getBarrierConsumers b) →
      ∃ info', f info b = some info' ∧ OnlyAt b info info' ∧
        Q (info.getBarrierProducers b) (info.getBarrierConsumers b)
          (info'.getBarrierProducers b) (info'.getBarrierConsumers b))
    {l : List ℕ} (hnd : l.Nodup) (info : BarrierInfo S)
    (hI : ∀ b ∈ l, I (info.getBarrierProducers b) (info.getBarrierConsumers b)) :
    ∃ info', l.foldlM f info = some info' ∧ info'.numTasks = info.numTasks ∧
      info'.numBarriers = info.numBarriers ∧
      (∀ b ∈ l, Q (info.getBarrierProducers b) (info.getBarrierConsumers b)
        (info'.getBarrierProducers b) (info'.getBarrierConsumers b)) ∧
      ∀ b, b ∉ l → info'.getBarrierProducers b = info.getBarrierProducers b ∧
        info'.getBarrierConsumers b = info.getBarrierConsumers b := by
  induction l generalizing info with
  | nil => exact ⟨info, rfl, rfl, rfl, by simp, fun _ _ => ⟨rfl, rfl⟩⟩
  | cons b l ih =>
    obtain ⟨hb, hnd⟩ := List.nodup_cons.mp hnd
    obtain ⟨info₁, hsome, honly, hQ⟩ := hf info b (hI b List.mem_cons_self)
    have hne : ∀ x ∈ l, x ≠ b := fun x hx => ne_of_mem_of_not_mem hx hb
    obtain ⟨info₂, hsome₂, hn, hm, hQs, hsame⟩ := ih hnd info₁ fun x hx => by
      rw [honly.producers x (hne x hx), honly.consumers x (hne x hx)]
      exact hI x (List.mem_cons_of_mem b hx)
    refine ⟨info₂, ?_, hn.trans honly.numTasks, hm.trans honly.numBarriers, ?_, ?_⟩
    · rw [List.foldlM_cons, hsome]
      exact hsome₂
    · intro x hx
      rcases List.mem_cons.mp hx with rfl | hx
      · rw [(hsame x hb).1, (hsame x hb).2]
        exact hQ
      · have := hQs x hx
        rwa [honly.producers x (hne x hx), honly.consumers x (hne x hx)] at this
    · intro x hx
      rw [List.mem_cons, not_or] at hx
      obtain ⟨hp, hc⟩ := hsame x hx.2
      exact ⟨hp.trans (honly.producers x hx.1), hc.trans (honly.consumers x hx.1)⟩

end Visits

section Redundant

structure Thinned (controll : ℕ → Finset ℕ) (P C P' C' : S) : Prop where
  producers : ∀ t, t ∈ toList P' → t ∈ toList P
  consumers : ∀ t, t ∈ toList C' → t ∈ toList C
  producer : ∀ p ∈ toList P, p ∈ toList P' ∨ ∃ q ∈ toList P, q ∈ controll p
  consumer : ∀ c ∈ toList C, c ∈ toList C' ∨ ∃ x ∈ toList C, c ∈ controll x

variable (controll : ℕ → Finset ℕ)
include controll

theorem mem_findRedundantDependencies (producer : Bool) (l : List ℕ) (acc : S) {x : ℕ}
    (hx : x ∈ toList (findRedundantDependencies controll producer l acc)) :
    x ∈ toList acc ∨ ∃ t ∈ l, ∃ u ∈ l, u ∈ controll t ∧ x = if producer then t else u := by
  have hrow : ∀ (t : ℕ) (us : List ℕ) (acc : S),
      x ∈ toList (us.foldl (fun acc u => if controlPathExistsBetween controll t u then
        insert acc (if producer then t else u) else acc) acc) →
      x ∈ toList acc ∨ ∃ u ∈ us, u ∈ controll t ∧ x = if producer then t else u := by
    intro t us
    induction us with
    | nil => exact fun acc h => Or.inl h
    | cons u us ih =>
      intro acc h
      rw [List.foldl_cons] at h
      rcases ih _ h with h | ⟨v, hv, hctl, hxv⟩
      · by_cases hu : controlPathExistsBetween controll t u = true
        · rw [if_pos hu, mem_insert] at h
          rcases h with h | h
          · exact Or.inr ⟨u, List.mem_cons_self, by simpa [controlPathExistsBetween] using hu, h⟩
          · exact Or.inl h
        · rw [if_neg hu] at h
          exact Or.inl h
      · exact Or.inr ⟨v, List.mem_cons_of_mem u hv, hctl, hxv⟩
  induction l generalizing acc with
  | nil => exact Or.inl hx
  | cons t l ih =>
    rcases ih _ hx with h | ⟨t', ht', u, hu, hctl, hxu⟩
    · rcases hrow t l acc h with h | ⟨u, hu, hctl, hxu⟩
      · exact Or.inl h
      · exact Or.inr ⟨t, List.mem_cons_self, u, List.mem_cons_of_mem t hu, hctl, hxu⟩
    · exact Or.inr ⟨t', List.mem_cons_of_mem t ht', u, List.mem_cons_of_mem t hu, hctl, hxu⟩

theorem removeRedundantAt_spec (info : BarrierInfo S) (b : ℕ) :
    OnlyAt b info (removeRedundantAt controll info b) ∧
      Thinned controll (info.getBarrierProducers b) (info.getBarrierConsumers b)
        ((removeRedundantAt controll info b).getBarrierProducers b)
        ((removeRedundantAt controll info b).getBarrierConsumers b) := by
  unfold removeRedundantAt
  refine ⟨(onlyAt_removeProducers _ _ _).trans (onlyAt_removeConsumers _ _ _), ?_⟩
  rw [producers_removeConsumers]
  refine ⟨fun t ht => ?_, fun t ht => ?_, fun p hp => ?_, fun c hc => ?_⟩
  · exact ((mem_producers_removeProducers _ _ _ t).mp ht).1
  · have hc := ((mem_consumers_removeConsumers _ _ _ t).mp ht).1
    rwa [consumers_removeProducers] at hc
  · rw [mem_producers_removeProducers]
    by_cases hrem : p ∈ toList (findRedundantDependencies controll true
        (toList (info.getBarrierProducers b)) (empty : S))
    · rcases mem_findRedundantDependencies controll true _ _ hrem with h | ⟨t, -, u, hu, hctl, rfl⟩
      · simp at h
      · exact Or.inr ⟨u, hu, hctl⟩
    · exact Or.inl ⟨hp, hrem⟩
  · rw [mem_consumers_removeConsumers, consumers_removeProducers]
    by_cases hrem : c ∈ toList (findRedundantDependencies controll false
        (toList (info.getBarrierConsumers b)) (empty : S))
    · rcases mem_findRedundantDependencies controll false _ _ hrem with h | ⟨t, ht, u, -, hctl, rfl⟩
      · simp at h
      · exact Or.inr ⟨t, ht, hctl⟩
    · exact Or.inl ⟨hc, hrem⟩

theorem removeRedundantDependencies_spec (info : BarrierInfo S) :
    (info.removeRedundantDependencies controll).numTasks = info.numTasks ∧
    (info.removeRedundantDependencies controll).numBarriers = info.numBarriers ∧
    (∀ b < info.numBarriers, Thinned controll (info.getBarrierProducers b)
      (info.getBarrierConsumers b)
      ((info.removeRedundantDependencies controll).getBarrierProducers b)
      ((info.removeRedundantDependencies controll).getBarrierConsumers b)) ∧
    ∀ b, ¬ b < info.numBarriers →
      (info.removeRedundantDependencies controll).getBarrierProducers b =
        info.getBarrierProducers b ∧
      (info.removeRedundantDependencies controll).getBarrierConsumers b =
        info.getBarrierConsumers b := by
  obtain ⟨info', hsome, hn, hm, hQ, hsame⟩ := foldlM_barriers (I := fun _ _ => True)
    (fun info b _ => ⟨_, rfl, removeRedundantAt_spec controll info b⟩) List.nodup_range info
    (fun _ _ => trivial) (l := List.range info.numBarriers)
  have heq : info.removeRedundantDependencies controll = info' := by
    have hpure : (List.range info.numBarriers).foldlM
        (fun info b => some (removeRedundantAt controll info b)) info =
          some (info.removeRedundantDependencies controll) := List.foldlM_pure
    exact Option.some.inj (hpure.symm.trans hsome)
  rw [heq]
  simp only [List.mem_range] at hQ hsame
  exact ⟨hn, hm, hQ, hsame⟩

end Redundant

section Explicit

/-- Users were dropped only when the DMA queues order them against the other side, and
never one side alone. -/
structure Untied (fifo : ℕ → ℕ → Prop) (P C P' C' : S) : Prop where
  producers : ∀ t, t ∈ toList P' → t ∈ toList P
  consumers : ∀ t, t ∈ toList C' → t ∈ toList C
  tied : ∀ p ∈ toList P, ∀ c ∈ toList C, (p ∈ toList P' ∧ c ∈ toList C') ∨ fifo p c
  empty_iff : toList P' = [] ↔ toList C' = []

/-- What a barrier must meet: producers before consumers, and both or neither. -/
structure Paired (P C : S) : Prop where
  lt : ∀ p ∈ toList P, ∀ c ∈ toList C, p < c
  empty_iff : toList P = [] ↔ toList C = []

theorem mem_findExplicitDependencies (func : FuncOp) (dependencies : S) (type : TaskQueueType)
    (t : ℕ) : t ∈ toList (findExplicitDependencies func dependencies type) ↔
      t ∈ toList dependencies ∧ taskQueueType? func t = some type := by
  rw [findExplicitDependencies, mem_foldl_insertIf (R := fun s y => y ∈ toList s) mem_insert]
  simp

variable {func : FuncOp} {dmaPortNum : ℕ}

theorem type_of_haveSame {tasks : S} {type : TaskQueueType}
    (h : haveSameImplicitDependencyTaskQueueType (taskQueueTypeMap dmaPortNum func) tasks =
      some type) :
    (∃ item ∈ taskQueueTypeMap dmaPortNum func, item.1 = type) ∧
      ∀ t ∈ toList tasks, taskQueueType? func t = some type := by
  obtain ⟨item, hitem, rfl, hall⟩ := mem_of_haveSame h
  refine ⟨⟨item, hitem, rfl⟩, fun t ht => ?_⟩
  have hmem := hall t ht
  rwa [(type_of_mem_taskQueueTypeMap hitem).2, mem_tasksInSameFIFO] at hmem

theorem haveSame_eq_some {tasks : S} {item : TaskQueueType × Finset ℕ}
    (hitem : item ∈ taskQueueTypeMap dmaPortNum func) (hne : toList tasks ≠ [])
    (hall : ∀ t ∈ toList tasks, taskQueueType? func t = some item.1) :
    haveSameImplicitDependencyTaskQueueType (taskQueueTypeMap dmaPortNum func) tasks =
      some item.1 := by
  have hin : ∀ item' ∈ taskQueueTypeMap dmaPortNum func, ∀ t ∈ toList tasks,
      t ∈ item'.2 ↔ item'.1 = item.1 := by
    intro item' hitem' t ht
    rw [(type_of_mem_taskQueueTypeMap hitem').2, mem_tasksInSameFIFO, hall t ht,
      Option.some.injEq, eq_comm]
  unfold haveSameImplicitDependencyTaskQueueType
  cases hl : toList tasks with
  | nil => exact absurd hl hne
  | cons first rest =>
    have hfirst : first ∈ toList tasks := hl ▸ List.mem_cons_self
    dsimp only
    cases hfind : (taskQueueTypeMap dmaPortNum func).find? (first ∈ ·.2) with
    | none =>
      have hno := List.find?_eq_none.mp hfind item hitem
      exact absurd ((hin item hitem first hfirst).mpr rfl) (by simpa using hno)
    | some item' =>
      have hitem' := List.mem_of_find?_eq_some hfind
      have hf : first ∈ item'.2 := by simpa using List.find?_some hfind
      have heq := (hin item' hitem' first hfirst).mp hf
      have hevery : (first :: rest).all (· ∈ item'.2) = true := by
        rw [← hl, List.all_eq_true]
        exact fun t ht => decide_eq_true ((hin item' hitem' t ht).mpr heq)
      simp only [hevery, if_true, heq]

/-- The visit to one barrier never fails on a paired barrier and only drops what a queue
already orders. -/
theorem removeExplicitAt_spec (info : BarrierInfo S) (b : ℕ)
    (hI : Paired (info.getBarrierProducers b) (info.getBarrierConsumers b)) :
    ∃ info', removeExplicitAt func (taskQueueTypeMap dmaPortNum func) info b = some info' ∧
      OnlyAt b info info' ∧
      Untied func.Fifo (info.getBarrierProducers b) (info.getBarrierConsumers b)
        (info'.getBarrierProducers b) (info'.getBarrierConsumers b) := by
  let queues := taskQueueTypeMap dmaPortNum func
  let P := info.getBarrierProducers b
  let C := info.getBarrierConsumers b
  let info₁ := match haveSameImplicitDependencyTaskQueueType queues P with
    | some type => info.removeConsumers b (findExplicitDependencies func C type)
    | none => info
  have honly₁ : OnlyAt b info info₁ := by
    dsimp only [info₁]
    split
    · exact onlyAt_removeConsumers _ _ _
    · exact .refl b info
  have hP₁ : info₁.getBarrierProducers b = P := by
    dsimp only [info₁]
    split
    · exact producers_removeConsumers _ _ _ _
    · rfl
  have hsub₁ : ∀ c ∈ toList (info₁.getBarrierConsumers b), c ∈ toList C ∧
      ∀ type, haveSameImplicitDependencyTaskQueueType queues P = some type →
        taskQueueType? func c ≠ some type := by
    intro c hc
    dsimp only [info₁] at hc
    cases hsame : haveSameImplicitDependencyTaskQueueType queues P with
    | none =>
      rw [hsame] at hc
      exact ⟨hc, by simp⟩
    | some type =>
      rw [hsame] at hc
      obtain ⟨hcC, hn⟩ := (mem_consumers_removeConsumers _ _ _ c).mp hc
      refine ⟨hcC, fun type' htype' hct => hn ?_⟩
      obtain rfl := Option.some.inj htype'
      exact (mem_findExplicitDependencies func C _ c).mpr ⟨hcC, hct⟩
  -- a consumer that is gone shares the queue of all producers
  have hgone : ∀ c ∈ toList C, c ∉ toList (info₁.getBarrierConsumers b) →
      ∀ p ∈ toList P, func.Fifo p c := by
    intro c hc hn p hp
    dsimp only [info₁] at hn
    cases hsame : haveSameImplicitDependencyTaskQueueType queues P with
    | none =>
      rw [hsame] at hn
      exact absurd hc hn
    | some type =>
      rw [hsame] at hn
      have hct : taskQueueType? func c = some type := by
        by_contra hne
        refine hn ((mem_consumers_removeConsumers _ _ _ c).mpr ⟨hc, fun hmem => hne ?_⟩)
        exact ((mem_findExplicitDependencies func C type c).mp hmem).2
      obtain ⟨⟨item, hitem, rfl⟩, hall⟩ := type_of_haveSame hsame
      exact fifo_of_mem_queue hitem (hall p hp) hct (hI.lt p hp c hc)
  have hunfold : removeExplicitAt func queues info b =
      let info₂ :=
        if isEmpty (info₁.getBarrierConsumers b) then info₁.removeProducers b P
        else
          match haveSameImplicitDependencyTaskQueueType queues (info₁.getBarrierConsumers b) with
          | some type => info₁.removeProducers b (findExplicitDependencies func P type)
          | none => info₁
      if isEmpty (info₂.getBarrierConsumers b) ^^ isEmpty (info₂.getBarrierProducers b) then none
      else some info₂ := rfl
  rw [hunfold]
  dsimp only
  have hempty : ∀ s : S, isEmpty s = true ↔ toList s = [] := TaskSet.isEmpty_iff
  by_cases hC₁ : toList (info₁.getBarrierConsumers b) = []
  · -- no consumer left: the producers all go
    have hP₂ : toList ((info₁.removeProducers b P).getBarrierProducers b) = [] := by
      rw [List.eq_nil_iff_forall_not_mem]
      intro t ht
      obtain ⟨ht₁, hn⟩ := (mem_producers_removeProducers _ _ _ t).mp ht
      rw [hP₁] at ht₁
      exact hn ht₁
    have hC₂ : (info₁.removeProducers b P).getBarrierConsumers b = info₁.getBarrierConsumers b :=
      consumers_removeProducers _ _ _ _
    rw [if_pos ((hempty _).mpr hC₁), hC₂, (hempty _).mpr hC₁, (hempty _).mpr hP₂]
    refine ⟨_, rfl, honly₁.trans (onlyAt_removeProducers _ _ _), ?_⟩
    refine ⟨fun t ht => ?_, fun t ht => ?_, fun p hp c hc => ?_, ?_⟩
    · rw [hP₂] at ht
      simp at ht
    · rw [hC₂, hC₁] at ht
      simp at ht
    · exact Or.inr (hgone c hc (by simp [hC₁]) p hp)
    · rw [hC₂]
      exact iff_of_true hP₂ hC₁
  · have hC₁' : ¬ isEmpty (info₁.getBarrierConsumers b) = true := fun h => hC₁ ((hempty _).mp h)
    have hPne : toList P ≠ [] := by
      intro hnil
      obtain ⟨c, hc⟩ := List.exists_mem_of_ne_nil _ hC₁
      have hcC := (hsub₁ c hc).1
      have hCnil : toList C = [] := hI.empty_iff.mp hnil
      rw [hCnil] at hcC
      simp at hcC
    rw [if_neg hC₁']
    cases hsame : haveSameImplicitDependencyTaskQueueType queues (info₁.getBarrierConsumers b) with
    | none =>
      have hP₁' : ¬ isEmpty P = true := fun h => hPne ((hempty _).mp h)
      simp only [hP₁, Bool.eq_false_of_not_eq_true hC₁', Bool.eq_false_of_not_eq_true hP₁']
      refine ⟨info₁, rfl, honly₁, ?_⟩
      rw [hP₁]
      refine ⟨fun t ht => ht, fun t ht => (hsub₁ t ht).1, fun p hp c hc => ?_,
        iff_of_false hPne hC₁⟩
      by_cases hcin : c ∈ toList (info₁.getBarrierConsumers b)
      · exact Or.inl ⟨hp, hcin⟩
      · exact Or.inr (hgone c hc hcin p hp)
    | some type =>
      obtain ⟨⟨item, hitem, rfl⟩, hall⟩ := type_of_haveSame hsame
      have hC₂ :
          (info₁.removeProducers b (findExplicitDependencies func P item.1)).getBarrierConsumers
          b = info₁.getBarrierConsumers b := consumers_removeProducers _ _ _ _
      have hmem : ∀ t, t ∈ toList ((info₁.removeProducers b
          (findExplicitDependencies func P item.1)).getBarrierProducers b) ↔
            t ∈ toList P ∧ taskQueueType? func t ≠ some item.1 := by
        intro t
        rw [mem_producers_removeProducers, hP₁, mem_findExplicitDependencies]
        constructor
        · exact fun h => ⟨h.1, fun ht => h.2 ⟨h.1, ht⟩⟩
        · exact fun h => ⟨h.1, fun ht => h.2 ht.2⟩
      -- producers of that queue only would have taken the consumers with them
      have hP₂ : toList ((info₁.removeProducers b
          (findExplicitDependencies func P item.1)).getBarrierProducers b) ≠ [] := by
        intro hnil
        have hallP : ∀ t ∈ toList P, taskQueueType? func t = some item.1 := by
          intro t ht
          by_contra hne
          have hin := (hmem t).mpr ⟨ht, hne⟩
          rw [hnil] at hin
          simp at hin
        obtain ⟨c, hc⟩ := List.exists_mem_of_ne_nil _ hC₁
        exact (hsub₁ c hc).2 item.1 (haveSame_eq_some hitem hPne hallP) (hall c hc)
      have hP₂' := fun h => hP₂ ((hempty _).mp h)
      simp only [hC₂, Bool.eq_false_of_not_eq_true hC₁', Bool.eq_false_of_not_eq_true hP₂']
      refine ⟨_, rfl, honly₁.trans (onlyAt_removeProducers _ _ _), ?_⟩
      rw [hC₂]
      refine ⟨fun t ht => ((hmem t).mp ht).1, fun t ht => (hsub₁ t ht).1, fun p hp c hc => ?_,
        iff_of_false hP₂ hC₁⟩
      by_cases hcin : c ∈ toList (info₁.getBarrierConsumers b)
      · by_cases hpt : taskQueueType? func p = some item.1
        · exact Or.inr (fifo_of_mem_queue hitem hpt (hall c hcin) (hI.lt p hp c hc))
        · exact Or.inl ⟨(hmem p).mpr ⟨hp, hpt⟩, hcin⟩
      · exact Or.inr (hgone c hc hcin p hp)

end Explicit

section Merge

variable {queues : List (TaskQueueType × Finset ℕ)} {origWaitBarriersMap : ℕ → S}

/-- What merging keeps: every edge, and the direction of all edges. -/
structure Merged (info info' : BarrierInfo S) : Prop where
  numTasks : info'.numTasks = info.numTasks
  numBarriers : info'.numBarriers = info.numBarriers
  inRange : info.InRange → info'.InRange
  drives : ∀ p c, info.Drives p c → info'.Drives p c
  forward : info.Forward → info'.Forward

theorem Merged.refl (info : BarrierInfo S) : Merged info info :=
  ⟨rfl, rfl, id, fun _ _ h => h, id⟩

theorem Merged.trans {i j k : BarrierInfo S} (h : Merged i j) (h' : Merged j k) : Merged i k where
  numTasks := h'.numTasks.trans h.numTasks
  numBarriers := h'.numBarriers.trans h.numBarriers
  inRange hi := h'.inRange (h.inRange hi)
  drives p c hd := h'.drives p c (h.drives p c hd)
  forward hf := h'.forward (h.forward hf)

def Copies (a : ℕ) (state : BarrierInfo S × S × S) : Prop :=
  (∀ t, t ∈ toList state.2.1 ↔ state.1.Updates t a) ∧
    ∀ t, t ∈ toList state.2.2 ↔ state.1.Waits t a

/-- Barrier `a` takes over the users of `next` when each side's producers come before the
other side's consumers. -/
theorem merged_mergeBarrierInto {state : BarrierInfo S × S × S} {a next : ℕ}
    (ha : a < state.1.numBarriers) (hne : a ≠ next) (hcopies : Copies a state) :
    Merged state.1 (mergeBarrierInto queues origWaitBarriersMap a state next).1 ∧
      Copies a (mergeBarrierInto queues origWaitBarriersMap a state next) := by
  obtain ⟨info, P, C⟩ := state
  obtain ⟨hP, hC⟩ := hcopies
  unfold mergeBarrierInto
  dsimp only
  split_ifs with h1 h2 h3
  · exact ⟨.refl info, hP, hC⟩
  · exact ⟨.refl info, hP, hC⟩
  · exact ⟨.refl info, hP, hC⟩
  · have hmerge : canBarriersBeMerged queues P C (info.getBarrierProducers next)
        (info.getBarrierConsumers next) origWaitBarriersMap = true := by simpa using h3
    unfold canBarriersBeMerged at hmerge
    split_ifs at hmerge with hfst hsnd
    simp only [Bool.not_eq_true', Bool.not_eq_false] at hfst hsnd
    have hupd : ∀ t b, (((info.addProducers a (info.getBarrierProducers next)).addConsumers a
        (info.getBarrierConsumers next)).resetBarrier next).Updates t b ↔
          b ≠ next ∧ ((info.Updates t next ∧ b = a) ∨ info.Updates t b) := by
      intro t b
      rw [updates_resetBarrier, updates_addConsumers, updates_addProducers, mem_getBarrierProducers]
    have hwait : ∀ t b, (((info.addProducers a (info.getBarrierProducers next)).addConsumers a
        (info.getBarrierConsumers next)).resetBarrier next).Waits t b ↔
          b ≠ next ∧ ((info.Waits t next ∧ b = a) ∨ info.Waits t b) := by
      intro t b
      rw [waits_resetBarrier, waits_addConsumers, waits_addProducers, mem_getBarrierConsumers]
    have hnum : ∀ {β : Type} (p : BarrierInfo S → β),
        (∀ i b t, p (i.addConsumer b t) = p i) → (∀ i b t, p (i.addProducer b t) = p i) →
        p ((info.addProducers a (info.getBarrierProducers next)).addConsumers a
          (info.getBarrierConsumers next)) = p info := by
      intro β p hc hp
      exact (foldl_frame p (fun i t => i.addConsumer a t) (fun i t => hc i a t) _ _).trans
        (foldl_frame p (fun i t => i.addProducer a t) (fun i t => hp i a t) _ _)
    have hnt := hnum BarrierInfo.numTasks (fun _ _ _ => rfl) fun _ _ _ => rfl
    have hnb := hnum BarrierInfo.numBarriers (fun _ _ _ => rfl) fun _ _ _ => rfl
    refine ⟨⟨hnt, hnb, fun hr => ?_, fun p c hd => ?_, fun hf => ?_⟩, fun t => ?_, fun t => ?_⟩
    · constructor
      · intro t b hu
        rw [BarrierInfo.resetBarrier, hnt, hnb]
        obtain ⟨-, ⟨hnext, rfl⟩ | hold⟩ := (hupd t b).mp hu
        · exact ⟨(hr.updates t next hnext).1, ha⟩
        · exact hr.updates t b hold
      · intro t b hw
        rw [BarrierInfo.resetBarrier, hnt, hnb]
        obtain ⟨-, ⟨hnext, rfl⟩ | hold⟩ := (hwait t b).mp hw
        · exact ⟨(hr.waits t next hnext).1, ha⟩
        · exact hr.waits t b hold
    · obtain ⟨b, hu, hw⟩ := hd
      by_cases hb : b = next
      · subst hb
        exact ⟨a, (hupd p a).mpr ⟨hne, Or.inl ⟨hu, rfl⟩⟩, (hwait c a).mpr ⟨hne, Or.inl ⟨hw, rfl⟩⟩⟩
      · exact ⟨b, (hupd p b).mpr ⟨hb, Or.inr hu⟩, (hwait c b).mpr ⟨hb, Or.inr hw⟩⟩
    · intro b p c hu hw
      obtain ⟨-, hu'⟩ := (hupd p b).mp hu
      obtain ⟨-, hw'⟩ := (hwait c b).mp hw
      clear hu hw
      rcases hu' with ⟨hu, rfl⟩ | hu
      · rcases hw' with ⟨hw, -⟩ | hw
        · exact hf next p c hu hw
        · have hlt := lt_of_producersControllsAllConsumers hsnd
            ((info.mem_getBarrierProducers next p).mpr hu) ((hC c).mpr hw)
          rcases hlt with hin | hlt
          · exact hf next p c hu ((info.mem_getBarrierConsumers next c).mp hin)
          · exact hlt
      · rcases hw' with ⟨hw, rfl⟩ | hw
        · have hlt := lt_of_producersControllsAllConsumers hfst ((hP p).mpr hu)
            ((info.mem_getBarrierConsumers next c).mpr hw)
          rcases hlt with hin | hlt
          · exact hf b p c hu ((hC c).mp hin)
          · exact hlt
        · exact hf b p c hu hw
    · rw [hupd, mem_setUnion, mem_getBarrierProducers, hP]
      simp [hne]
    · rw [hwait, mem_setUnion, mem_getBarrierConsumers, hC]
      simp [hne]

theorem merged_mergeBarriersInto {info : BarrierInfo S} {n a : ℕ} (ha : a < info.numBarriers) :
    Merged info (mergeBarriersInto queues origWaitBarriersMap n info a) := by
  unfold mergeBarriersInto
  dsimp only
  split_ifs with h1 h2
  · exact .refl info
  · exact .refl info
  · have hrun := List.foldlRecOn
      (motive := fun state : BarrierInfo S × S × S => Merged info state.1 ∧ Copies a state)
      (List.range' (a + 1) (n - (a + 1))) (mergeBarrierInto queues origWaitBarriersMap a)
      (b := (info, info.getBarrierProducers a, info.getBarrierConsumers a))
      ⟨.refl info, info.mem_getBarrierProducers a, info.mem_getBarrierConsumers a⟩
      fun state ⟨hmerged, hcopies⟩ next hnext => by
        have hlt : a + 1 ≤ next := (List.mem_range'_1.mp hnext).1
        have ha' : a < state.1.numBarriers := by
          have := hmerged.numBarriers
          omega
        have hstep : Merged state.1 (mergeBarrierInto queues origWaitBarriersMap a state next).1 ∧
            Copies a (mergeBarrierInto queues origWaitBarriersMap a state next) :=
          merged_mergeBarrierInto ha' (by omega) hcopies
        exact ⟨hmerged.trans hstep.1, hstep.2⟩
    exact hrun.1

theorem merged_mergeBarriers (info : BarrierInfo S) :
    Merged info (info.mergeBarriers queues origWaitBarriersMap) := by
  refine List.foldlRecOn (motive := Merged info) (List.range info.numBarriers) _ (.refl info)
    fun info' h a ha => ?_
  refine h.trans (merged_mergeBarriersInto ?_)
  have := h.numBarriers
  have := List.mem_range.mp ha
  omega

end Merge

section Order

variable {controll : ℕ → Finset ℕ}

theorem Thinned.ne_nil {P C P' C' : S} (h : Thinned controll P C P' C')
    (hlt : ∀ t u, u ∈ controll t → t < u) (hP : toList P ≠ []) (hC : toList C ≠ []) :
    toList P' ≠ [] ∧ toList C' ≠ [] := by
  constructor
  · cases hmax : (toList P).max? with
    | none => exact absurd (List.max?_eq_none_iff.mp hmax) hP
    | some last =>
      obtain ⟨hmem, hge⟩ := List.max?_eq_some_iff.mp hmax
      rcases h.producer last hmem with hkept | ⟨q, hq, hctl⟩
      · exact List.ne_nil_of_mem hkept
      · have := hlt last q hctl
        have := hge q hq
        omega
  · cases hmin : (toList C).min? with
    | none => exact absurd (List.min?_eq_none_iff.mp hmin) hC
    | some first =>
      obtain ⟨hmem, hle⟩ := List.min?_eq_some_iff.mp hmin
      rcases h.consumer first hmem with hkept | ⟨x, hx, hctl⟩
      · exact List.ne_nil_of_mem hkept
      · have := hlt x first hctl
        have := hle x hx
        omega

structure Subsumed (info info' : BarrierInfo S) : Prop where
  numTasks : info'.numTasks = info.numTasks
  numBarriers : info'.numBarriers = info.numBarriers
  updates : ∀ t b, info'.Updates t b → info.Updates t b
  waits : ∀ t b, info'.Waits t b → info.Waits t b

variable {info info' : BarrierInfo S}

theorem Subsumed.inRange (h : Subsumed info info') (hr : info.InRange) : info'.InRange := by
  constructor
  · intro t b hu
    rw [h.numTasks, h.numBarriers]
    exact hr.updates t b (h.updates t b hu)
  · intro t b hw
    rw [h.numTasks, h.numBarriers]
    exact hr.waits t b (h.waits t b hw)

theorem Subsumed.forward (h : Subsumed info info') (hf : info.Forward) :
    info'.Forward := hf.mono h.updates h.waits

theorem subsumed_of_barriers (hn : info'.numTasks = info.numTasks)
    (hm : info'.numBarriers = info.numBarriers) (hsub : ∀ b < info.numBarriers,
      (∀ t ∈ toList (info'.getBarrierProducers b), t ∈ toList (info.getBarrierProducers b)) ∧
      ∀ t ∈ toList (info'.getBarrierConsumers b), t ∈ toList (info.getBarrierConsumers b))
    (hsame : ∀ b, ¬ b < info.numBarriers →
      info'.getBarrierProducers b = info.getBarrierProducers b ∧
      info'.getBarrierConsumers b = info.getBarrierConsumers b) : Subsumed info info' where
  numTasks := hn
  numBarriers := hm
  updates t b hu := by
    rw [← mem_getBarrierProducers] at hu ⊢
    by_cases hb : b < info.numBarriers
    · exact (hsub b hb).1 t hu
    · rwa [← (hsame b hb).1]
  waits t b hw := by
    rw [← mem_getBarrierConsumers] at hw ⊢
    by_cases hb : b < info.numBarriers
    · exact (hsub b hb).2 t hw
    · rwa [← (hsame b hb).2]

theorem subsumed_removeRedundantDependencies (info : BarrierInfo S) :
    Subsumed info (info.removeRedundantDependencies controll) := by
  obtain ⟨hn, hm, hthin, hsame⟩ := removeRedundantDependencies_spec controll info
  exact subsumed_of_barriers hn hm
    (fun b hb => ⟨(hthin b hb).producers, (hthin b hb).consumers⟩) hsame

theorem removeRedundantDependencies_covers {r : ℕ → ℕ → Prop} {info : BarrierInfo S}
    (hr : info.InRange) (hsound : Sound (TransGen r) controll)
    (hdrives : ∀ p c, info.Drives p c → r p c) {b p c : ℕ} (hp : info.Updates p b)
    (hc : info.Waits c b) :
    ((info.removeRedundantDependencies controll).Updates p b ∧
        (info.removeRedundantDependencies controll).Waits c b) ∨
      ∃ m, TransGen r p m ∧ TransGen r m c := by
  obtain ⟨-, -, hthin, -⟩ := removeRedundantDependencies_spec controll info
  have hthin := hthin b (hr.updates p b hp).2
  rcases hthin.producer p ((info.mem_getBarrierProducers b p).mpr hp) with hkept | ⟨q, hq, hctl⟩
  · rcases hthin.consumer c ((info.mem_getBarrierConsumers b c).mpr hc) with hkept' | ⟨x, hx, hctl⟩
    · exact Or.inl ⟨(mem_getBarrierProducers _ b p).mp hkept,
        (mem_getBarrierConsumers _ b c).mp hkept'⟩
    · have hpx := hdrives p x ⟨b, hp, (info.mem_getBarrierConsumers b x).mp hx⟩
      exact Or.inr ⟨x, .single hpx, hsound x c hctl⟩
  · have hqc := hdrives q c ⟨b, (info.mem_getBarrierProducers b q).mp hq, hc⟩
    exact Or.inr ⟨q, hsound p q hctl, .single hqc⟩

end Order

theorem fifo_updateIR (info : BarrierInfo S) (func : FuncOp) {p c : ℕ} (h : func.Fifo p c) :
    (info.updateIR func).Fifo p c := by
  obtain ⟨hlt, op, op', hp, hc, hdma, htype⟩ := h
  have hget : ∀ {t : ℕ} {op : TaskOp}, func.tasks[t]? = some op →
      (info.updateIR func).tasks[t]? = some (TaskOp.mk op.inner (toList (info.getWaitBarriers t))
        (toList (info.getUpdateBarriers t))) := by
    intro t op h
    rw [updateIR, List.getElem?_mapIdx, h]
    rfl
  exact ⟨hlt, _, _, hget hp, hget hc, hdma, htype⟩

end BarrierInfo

/-- The optimization never fails its consistency check, loses no order between tasks, and
leaves no barrier edge that points backwards. -/
theorem dmaBarrierOptimization_keeps_order (S : Type) [TaskSet S] (dmaPortNum : ℕ) (func : FuncOp)
    (hw : func.WellFormed) (hf : func.Forward)
    (hused : ∀ b < func.numBarriers, (∃ p, func.Updates p b) ∧ ∃ c, func.Waits c b) :
    ∃ func', dmaBarrierOptimization S dmaPortNum func = some func' ∧
      (∀ a b, func.RunsBefore a b → func'.RunsBefore a b) ∧ func'.Forward := by
  let info₀ : BarrierInfo S := buildBarrierMaps func
  let queues := taskQueueTypeMap dmaPortNum func
  let controll := info₀.buildTaskControllMap queues
  let info₁ := info₀.removeRedundantDependencies controll
  have hr₀ : info₀.InRange := inRange_buildBarrierMaps func hw
  have hf₀ : info₀.Forward := forward_buildBarrierMaps func hf
  -- the control map is sound for the given order, which climbs
  let base : ℕ → ℕ → Prop := fun a c => info₀.Drives a c ∨ func.Fifo a c
  have hbase : Graph.Ranked id base := by
    rintro a c (hd | hfifo)
    · exact hf₀.ranked a c hd
    · exact hfifo.1
  have hsound : Sound (TransGen base) controll := by
    refine info₀.sound_buildTaskControllMap (fun a b c => TransGen.trans)
      (fun t u h => .single (Or.inl h)) queues fun item hitem t ht u hu hlt => ?_
    rw [(type_of_mem_taskQueueTypeMap hitem).2, mem_tasksInSameFIFO] at ht hu
    exact .single (Or.inr (fifo_of_mem_queue hitem ht hu hlt))
  have hctl : ∀ t u, u ∈ controll t → t < u := fun t u hu => hbase.transGen (hsound t u hu)
  -- first redundancy pass
  have hsub₁ : Subsumed info₀ info₁ := subsumed_removeRedundantDependencies info₀
  have hpaired : ∀ b ∈ List.range info₁.numBarriers,
      Paired (info₁.getBarrierProducers b) (info₁.getBarrierConsumers b) := by
    intro b hb
    have hb₀ : b < info₀.numBarriers := hsub₁.numBarriers ▸ List.mem_range.mp hb
    obtain ⟨-, -, hthin, -⟩ := removeRedundantDependencies_spec controll info₀
    obtain ⟨⟨p, hp⟩, c, hc⟩ := hused b (by simpa [info₀] using hb₀)
    have hp₀ := (info₀.mem_getBarrierProducers b p).mpr ((updates_buildBarrierMaps p b func).mpr hp)
    have hc₀ := (info₀.mem_getBarrierConsumers b c).mpr ((waits_buildBarrierMaps c b func).mpr hc)
    obtain ⟨hP, hC⟩ := (hthin b hb₀).ne_nil hctl (List.ne_nil_of_mem hp₀) (List.ne_nil_of_mem hc₀)
    refine ⟨fun p hp c hc => ?_, iff_of_false hP hC⟩
    exact hsub₁.forward hf₀ b p c ((info₁.mem_getBarrierProducers b p).mp hp)
      ((info₁.mem_getBarrierConsumers b c).mp hc)
  -- explicit dependencies
  obtain ⟨info₂, hsome, hn₂, hm₂, huntied, hsame₂⟩ := foldlM_barriers (I := Paired)
    (Q := Untied func.Fifo) (f := removeExplicitAt func queues)
    (fun info b hI => removeExplicitAt_spec info b hI) List.nodup_range info₁ hpaired
  have hsub₂ : Subsumed info₁ info₂ := by
    refine subsumed_of_barriers hn₂ hm₂ (fun b hb => ?_) fun b hb => hsame₂ b (by simpa using hb)
    have hu := huntied b (List.mem_range.mpr hb)
    exact ⟨hu.producers, hu.consumers⟩
  -- merging and the second redundancy pass
  let info₃ := info₂.mergeBarriers queues info₀.getWaitBarriers
  let info₄ := info₃.removeRedundantDependencies controll
  have hmerged : Merged info₂ info₃ := merged_mergeBarriers info₂
  have hr₃ : info₃.InRange := hmerged.inRange (hsub₂.inRange (hsub₁.inRange hr₀))
  have hf₃ : info₃.Forward := hmerged.forward (hsub₂.forward (hsub₁.forward hf₀))
  have hsub₄ : Subsumed info₃ info₄ := subsumed_removeRedundantDependencies info₃
  have hr₄ : info₄.InRange := hsub₄.inRange hr₃
  have hnum : info₄.numTasks = func.tasks.length := by
    rw [hsub₄.numTasks, hmerged.numTasks, hsub₂.numTasks, hsub₁.numTasks]
    exact numTasks_buildBarrierMaps func
  have hresult : dmaBarrierOptimization S dmaPortNum func = some (info₄.updateIR func) := by
    unfold dmaBarrierOptimization
    have hexplicit : removeExplicitDependencies func queues info₁ = some info₂ := hsome
    exact congrArg (Option.map _) hexplicit
  -- all edges that ever occur, and what is left of them
  let all : ℕ → ℕ → Prop := fun a c => base a c ∨ info₃.Drives a c
  let left : ℕ → ℕ → Prop := fun a c => info₄.Drives a c ∨ func.Fifo a c
  have hall : Graph.Ranked id all := by
    rintro a c (hb | hd)
    · exact hbase a c hb
    · exact hf₃.ranked a c hd
  have hsound' : Sound (TransGen all) controll := fun t u hu =>
    TransGen.mono (fun _ _ => Or.inl) t u (hsound t u hu)
  have hmergedEdge : ∀ a c, info₃.Drives a c → Graph.Covered all left a c := by
    rintro a c ⟨b, ha, hc⟩
    rcases removeRedundantDependencies_covers hr₃ hsound' (fun _ _ => Or.inr) ha
      hc with hkept | hsplit
    · exact Or.inl (.single (Or.inl ⟨b, hkept⟩))
    · exact Or.inr hsplit
  have hcovered : ∀ a c, all a c → Graph.Covered all left a c := by
    rintro a c ((⟨b, ha, hc⟩ | hfifo) | hd)
    · rcases removeRedundantDependencies_covers hr₀ hsound' (fun _ _ h => Or.inl (Or.inl h)) ha hc
        with ⟨ha₁, hc₁⟩ | hsplit
      · have hb : b ∈ List.range info₁.numBarriers :=
          List.mem_range.mpr ((hsub₁.inRange hr₀).updates a b ha₁).2
        rcases (huntied b hb).tied a ((info₁.mem_getBarrierProducers b a).mpr ha₁) c
          ((info₁.mem_getBarrierConsumers b c).mpr hc₁) with ⟨ha₂, hc₂⟩ | hfifo
        · exact hmergedEdge a c (hmerged.drives a c ⟨b, (info₂.mem_getBarrierProducers b a).mp ha₂,
            (info₂.mem_getBarrierConsumers b c).mp hc₂⟩)
        · exact Or.inl (.single (Or.inr hfifo))
      · exact Or.inr hsplit
    · exact Or.inl (.single (Or.inr hfifo))
    · exact hmergedEdge a c hd
  refine ⟨info₄.updateIR func, hresult, fun a b hab => ?_, ?_⟩
  · have hstart : TransGen all a b := by
      refine TransGen.mono ?_ a b hab
      rintro x y (⟨d, hx, hy⟩ | hfifo)
      · exact Or.inl (Or.inl ⟨d, (updates_buildBarrierMaps x d func).mpr hx,
          (waits_buildBarrierMaps y d func).mpr hy⟩)
      · exact Or.inl (Or.inr hfifo)
    refine TransGen.mono ?_ a b (Graph.transGen_of_covered hall hcovered hstart)
    rintro x y (⟨d, hx, hy⟩ | hfifo)
    · exact Or.inl ⟨d, (updates_updateIR info₄ x d func hr₄ hnum).mpr hx,
        (waits_updateIR info₄ y d func hr₄ hnum).mpr hy⟩
    · exact Or.inr (fifo_updateIR info₄ func hfifo)
  · exact (hsub₄.forward hf₃).mono (fun t b => (updates_updateIR info₄ t b func hr₄ hnum).mp)
      fun t b => (waits_updateIR info₄ t b func hr₄ hnum).mp

/-- Tasks 0 and 1 share a DMA queue; both produce barrier 0, which task 2 and the DMA
of task 3 wait for. -/
def sharedQueue : FuncOp where
  numBarriers := 2
  tasks := [⟨.dma 0 .DDR none, [], [0]⟩, ⟨.dma 0 .DDR none, [], [0]⟩, ⟨.upa, [0], [1]⟩,
    ⟨.dma 1 .DDR none, [0, 1], []⟩]

theorem dmaBarrierOptimization_sharedQueue :
    ∃ func', dmaBarrierOptimization (SmallSet 16) 2 sharedQueue = some func' ∧
      (∀ a b, sharedQueue.RunsBefore a b → func'.RunsBefore a b) ∧ func'.Forward :=
  dmaBarrierOptimization_keeps_order (SmallSet 16) 2 sharedQueue (by decide) (by decide) (by
    intro b hb
    have hcases : b = 0 ∨ b = 1 := by
      have : b < 2 := hb
      omega
    rcases hcases with rfl | rfl
    · exact ⟨⟨0, _, rfl, by decide⟩, 2, _, rfl, by decide⟩
    · exact ⟨⟨2, _, rfl, by decide⟩, 3, _, rfl, by decide⟩)

/-- Barrier 0 keeps the last DMA of the queue as its only producer. -/
example : (dmaBarrierOptimization (SmallSet 16) 2 sharedQueue).map
    (fun func => func.tasks.map TaskOp.updateBarriers) = some [[], [0], [1], []] := by decide

end Vpux.Barrier
