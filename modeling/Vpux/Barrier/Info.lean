import Vpux.Data.Incidence
import Vpux.VPURT.Task

/-! The barrier analysis: which tasks produce and consume each barrier, kept from
the side of the barriers and from the side of the tasks. -/
namespace Vpux.Barrier
open Data Data.TaskSet VPURT

/-- `produced` holds `_barrierProducerMap` and `_taskUpdateBarriers`, `consumed`
holds `_barrierConsumerMap` and `_taskWaitBarriers`. -/
structure BarrierInfo (S : Type) [TaskSet S] where
  numTasks : ℕ
  numBarriers : ℕ
  produced : Incidence S
  consumed : Incidence S

namespace BarrierInfo

variable {S : Type} [TaskSet S]

def getWaitBarriers (info : BarrierInfo S) (taskInd : ℕ) : S := info.consumed.byTask taskInd

def getUpdateBarriers (info : BarrierInfo S) (taskInd : ℕ) : S := info.produced.byTask taskInd

def getBarrierProducers (info : BarrierInfo S) (barrierInd : ℕ) : S :=
  info.produced.byBarrier barrierInd

def getBarrierConsumers (info : BarrierInfo S) (barrierInd : ℕ) : S :=
  info.consumed.byBarrier barrierInd

def addConsumer (info : BarrierInfo S) (barrierInd taskInd : ℕ) : BarrierInfo S :=
  { info with consumed := info.consumed.link barrierInd taskInd }

def addProducer (info : BarrierInfo S) (barrierInd taskInd : ℕ) : BarrierInfo S :=
  { info with produced := info.produced.link barrierInd taskInd }

def removeConsumer (info : BarrierInfo S) (taskInd barrierInd : ℕ) : BarrierInfo S :=
  { info with consumed := info.consumed.unlink barrierInd taskInd }

def removeProducer (info : BarrierInfo S) (taskInd barrierInd : ℕ) : BarrierInfo S :=
  { info with produced := info.produced.unlink barrierInd taskInd }

def addConsumers (info : BarrierInfo S) (barrierInd : ℕ) (taskInds : S) : BarrierInfo S :=
  (toList taskInds).foldl (fun info taskInd => info.addConsumer barrierInd taskInd) info

def addProducers (info : BarrierInfo S) (barrierInd : ℕ) (taskInds : S) : BarrierInfo S :=
  (toList taskInds).foldl (fun info taskInd => info.addProducer barrierInd taskInd) info

def removeConsumers (info : BarrierInfo S) (barrierInd : ℕ) (taskInds : S) : BarrierInfo S :=
  (toList taskInds).foldl (fun info taskInd => info.removeConsumer taskInd barrierInd) info

def removeProducers (info : BarrierInfo S) (barrierInd : ℕ) (taskInds : S) : BarrierInfo S :=
  (toList taskInds).foldl (fun info taskInd => info.removeProducer taskInd barrierInd) info

def setWaitBarriers (info : BarrierInfo S) (taskInd : ℕ) (barriers : S) : BarrierInfo S :=
  { info with consumed := info.consumed.setTask taskInd barriers }

def setUpdateBarriers (info : BarrierInfo S) (taskInd : ℕ) (barriers : S) : BarrierInfo S :=
  { info with produced := info.produced.setTask taskInd barriers }

def resetBarrier (info : BarrierInfo S) (barrierInd : ℕ) : BarrierInfo S :=
  { info with
    produced := info.produced.clear barrierInd
    consumed := info.consumed.clear barrierInd }

/-- The new barrier gets the index `numBarriers` and no users. -/
def addNewBarrier (info : BarrierInfo S) : BarrierInfo S :=
  { info with numBarriers := info.numBarriers + 1 }

def addTaskOp (info : BarrierInfo S) (taskInd : ℕ) (op : TaskOp) : BarrierInfo S :=
  let info := op.waitBarriers.foldl (fun info bar => info.addConsumer bar taskInd) info
  op.updateBarriers.foldl (fun info bar => info.addProducer bar taskInd) info

/-- The state of `buildBarrierMaps` after the loop has passed the first tasks. -/
def addTaskOps (info : BarrierInfo S) : ℕ → List TaskOp → BarrierInfo S
  | _, [] => info
  | taskInd, op :: ops => addTaskOps (info.addTaskOp taskInd op) (taskInd + 1) ops

def buildBarrierMaps (func : FuncOp) : BarrierInfo S :=
  addTaskOps ⟨func.tasks.length, func.numBarriers, .nothing, .nothing⟩ 0 func.tasks

/-- Write the stored dependencies back to the operands. `postProcessBarrierOps`
then only moves declarations and erases those without use. -/
def updateIR (info : BarrierInfo S) (func : FuncOp) : FuncOp where
  numBarriers := info.numBarriers
  tasks := func.tasks.mapIdx fun taskInd op =>
    { op with
      waitBarriers := toList (info.getWaitBarriers taskInd)
      updateBarriers := toList (info.getUpdateBarriers taskInd) }

def Updates (info : BarrierInfo S) (t b : ℕ) : Prop := info.produced.Rel t b

def Waits (info : BarrierInfo S) (t b : ℕ) : Prop := info.consumed.Rel t b

instance (info : BarrierInfo S) (t b : ℕ) : Decidable (info.Updates t b) :=
  inferInstanceAs (Decidable (info.produced.Rel t b))

instance (info : BarrierInfo S) (t b : ℕ) : Decidable (info.Waits t b) :=
  inferInstanceAs (Decidable (info.consumed.Rel t b))

abbrev Drives (info : BarrierInfo S) : ℕ → ℕ → Prop := VPURT.Drives info.Updates info.Waits
abbrev Before (info : BarrierInfo S) : ℕ → ℕ → Prop := VPURT.Before info.Updates info.Waits
abbrev Forward (info : BarrierInfo S) : Prop := VPURT.Forward info.Updates info.Waits

structure InRange (info : BarrierInfo S) : Prop where
  updates : ∀ t b, info.Updates t b → t < info.numTasks ∧ b < info.numBarriers
  waits : ∀ t b, info.Waits t b → t < info.numTasks ∧ b < info.numBarriers

section

variable (info : BarrierInfo S)
include info

theorem mem_getWaitBarriers (t b : ℕ) :
    b ∈ toList (info.getWaitBarriers t) ↔ info.Waits t b := Iff.rfl

theorem mem_getUpdateBarriers (t b : ℕ) :
    b ∈ toList (info.getUpdateBarriers t) ↔ info.Updates t b := Iff.rfl

theorem mem_getBarrierProducers (b t : ℕ) :
    t ∈ toList (info.getBarrierProducers b) ↔ info.Updates t b := info.produced.mem_byBarrier b t

theorem mem_getBarrierConsumers (b t : ℕ) :
    t ∈ toList (info.getBarrierConsumers b) ↔ info.Waits t b := info.consumed.mem_byBarrier b t

end

section Operations

variable (info : BarrierInfo S) (b t t' b' : ℕ)

@[simp] theorem waits_addConsumer :
    (info.addConsumer b t).Waits t' b' ↔ (t' = t ∧ b' = b) ∨ info.Waits t' b' :=
  info.consumed.rel_link b t t' b'

@[simp] theorem updates_addConsumer :
    (info.addConsumer b t).Updates t' b' ↔ info.Updates t' b' := Iff.rfl

@[simp] theorem updates_addProducer :
    (info.addProducer b t).Updates t' b' ↔ (t' = t ∧ b' = b) ∨ info.Updates t' b' :=
  info.produced.rel_link b t t' b'

@[simp] theorem waits_addProducer :
    (info.addProducer b t).Waits t' b' ↔ info.Waits t' b' := Iff.rfl

@[simp] theorem waits_removeConsumer :
    (info.removeConsumer t b).Waits t' b' ↔ ¬(t' = t ∧ b' = b) ∧ info.Waits t' b' :=
  info.consumed.rel_unlink b t t' b'

@[simp] theorem updates_removeConsumer :
    (info.removeConsumer t b).Updates t' b' ↔ info.Updates t' b' := Iff.rfl

@[simp] theorem updates_removeProducer :
    (info.removeProducer t b).Updates t' b' ↔ ¬(t' = t ∧ b' = b) ∧ info.Updates t' b' :=
  info.produced.rel_unlink b t t' b'

@[simp] theorem waits_removeProducer :
    (info.removeProducer t b).Waits t' b' ↔ info.Waits t' b' := Iff.rfl

@[simp] theorem waits_setWaitBarriers (bs : S) :
    (info.setWaitBarriers t bs).Waits t' b' ↔
      if t' = t then b' ∈ toList bs else info.Waits t' b' :=
  info.consumed.rel_setTask t bs t' b'

@[simp] theorem updates_setWaitBarriers (bs : S) :
    (info.setWaitBarriers t bs).Updates t' b' ↔ info.Updates t' b' := Iff.rfl

@[simp] theorem updates_setUpdateBarriers (bs : S) :
    (info.setUpdateBarriers t bs).Updates t' b' ↔
      if t' = t then b' ∈ toList bs else info.Updates t' b' :=
  info.produced.rel_setTask t bs t' b'

@[simp] theorem waits_setUpdateBarriers (bs : S) :
    (info.setUpdateBarriers t bs).Waits t' b' ↔ info.Waits t' b' := Iff.rfl

@[simp] theorem waits_resetBarrier :
    (info.resetBarrier b).Waits t' b' ↔ b' ≠ b ∧ info.Waits t' b' :=
  info.consumed.rel_clear b t' b'

@[simp] theorem updates_resetBarrier :
    (info.resetBarrier b).Updates t' b' ↔ b' ≠ b ∧ info.Updates t' b' :=
  info.produced.rel_clear b t' b'

@[simp] theorem waits_addNewBarrier : info.addNewBarrier.Waits t' b' ↔ info.Waits t' b' := Iff.rfl

@[simp] theorem updates_addNewBarrier :
    info.addNewBarrier.Updates t' b' ↔ info.Updates t' b' := Iff.rfl

end Operations

section Loops

variable {ι : Type} (l : List ι) (f g : ι → ℕ) (info : BarrierInfo S)

theorem foldl_frame {σ α β : Type} (p : σ → β) (op : σ → α → σ) (hop : ∀ s x, p (op s x) = p s)
    (l : List α) (s : σ) : p (l.foldl op s) = p s :=
  List.foldlRecOn (motive := fun s' => p s' = p s) l op rfl fun s' hs x _ => (hop s' x).trans hs

theorem waits_foldl_addConsumer (t b : ℕ) :
    (l.foldl (fun info x => info.addConsumer (f x) (g x)) info).Waits t b ↔
      (∃ x ∈ l, g x = t ∧ f x = b) ∨ info.Waits t b := by
  induction l generalizing info with
  | nil => simp
  | cons x l ih =>
    rw [List.foldl_cons, ih, waits_addConsumer, eq_comm (a := t), eq_comm (a := b)]
    simp only [List.mem_cons, exists_eq_or_imp, or_assoc, or_left_comm]

theorem updates_foldl_addProducer (t b : ℕ) :
    (l.foldl (fun info x => info.addProducer (f x) (g x)) info).Updates t b ↔
      (∃ x ∈ l, g x = t ∧ f x = b) ∨ info.Updates t b := by
  induction l generalizing info with
  | nil => simp
  | cons x l ih =>
    rw [List.foldl_cons, ih, updates_addProducer, eq_comm (a := t), eq_comm (a := b)]
    simp only [List.mem_cons, exists_eq_or_imp, or_assoc, or_left_comm]

theorem waits_foldl_removeConsumer (t b : ℕ) :
    (l.foldl (fun info x => info.removeConsumer (g x) (f x)) info).Waits t b ↔
      ¬(∃ x ∈ l, g x = t ∧ f x = b) ∧ info.Waits t b := by
  induction l generalizing info with
  | nil => simp
  | cons x l ih =>
    rw [List.foldl_cons, ih, waits_removeConsumer, eq_comm (a := t), eq_comm (a := b)]
    simp only [List.mem_cons, exists_eq_or_imp, not_or, and_assoc]
    exact and_left_comm

theorem updates_foldl_removeProducer (t b : ℕ) :
    (l.foldl (fun info x => info.removeProducer (g x) (f x)) info).Updates t b ↔
      ¬(∃ x ∈ l, g x = t ∧ f x = b) ∧ info.Updates t b := by
  induction l generalizing info with
  | nil => simp
  | cons x l ih =>
    rw [List.foldl_cons, ih, updates_removeProducer, eq_comm (a := t), eq_comm (a := b)]
    simp only [List.mem_cons, exists_eq_or_imp, not_or, and_assoc]
    exact and_left_comm

end Loops

section SetOperations

variable (info : BarrierInfo S) (b : ℕ) (ts : S) (t' b' : ℕ)

@[simp] theorem waits_addConsumers :
    (info.addConsumers b ts).Waits t' b' ↔ (t' ∈ toList ts ∧ b' = b) ∨ info.Waits t' b' :=
  (waits_foldl_addConsumer (toList ts) (fun _ => b) (fun t => t) info t' b').trans
    (by simp [eq_comm (a := b)])

@[simp] theorem updates_addConsumers :
    (info.addConsumers b ts).Updates t' b' ↔ info.Updates t' b' :=
  iff_of_eq (congrArg (fun i => i.Rel t' b')
    (foldl_frame produced (fun info t => info.addConsumer b t) (fun _ _ => rfl) (toList ts) info))

@[simp] theorem updates_addProducers :
    (info.addProducers b ts).Updates t' b' ↔ (t' ∈ toList ts ∧ b' = b) ∨ info.Updates t' b' :=
  (updates_foldl_addProducer (toList ts) (fun _ => b) (fun t => t) info t' b').trans
    (by simp [eq_comm (a := b)])

@[simp] theorem waits_addProducers :
    (info.addProducers b ts).Waits t' b' ↔ info.Waits t' b' :=
  iff_of_eq (congrArg (fun i => i.Rel t' b')
    (foldl_frame consumed (fun info t => info.addProducer b t) (fun _ _ => rfl) (toList ts) info))

@[simp] theorem waits_removeConsumers :
    (info.removeConsumers b ts).Waits t' b' ↔ ¬(t' ∈ toList ts ∧ b' = b) ∧ info.Waits t' b' :=
  (waits_foldl_removeConsumer (toList ts) (fun _ => b) (fun t => t) info t' b').trans
    (by simp [eq_comm (a := b)])

@[simp] theorem updates_removeConsumers :
    (info.removeConsumers b ts).Updates t' b' ↔ info.Updates t' b' :=
  iff_of_eq (congrArg (fun i => i.Rel t' b')
    (foldl_frame produced (fun info t => info.removeConsumer t b) (fun _ _ => rfl) (toList ts)
      info))

@[simp] theorem updates_removeProducers :
    (info.removeProducers b ts).Updates t' b' ↔ ¬(t' ∈ toList ts ∧ b' = b) ∧ info.Updates t' b' :=
  (updates_foldl_removeProducer (toList ts) (fun _ => b) (fun t => t) info t' b').trans
    (by simp [eq_comm (a := b)])

@[simp] theorem waits_removeProducers :
    (info.removeProducers b ts).Waits t' b' ↔ info.Waits t' b' :=
  iff_of_eq (congrArg (fun i => i.Rel t' b')
    (foldl_frame consumed (fun info t => info.removeProducer t b) (fun _ _ => rfl) (toList ts)
      info))

@[simp] theorem numBarriers_addConsumers : (info.addConsumers b ts).numBarriers =
    info.numBarriers :=
  foldl_frame numBarriers (fun info t => info.addConsumer b t) (fun _ _ => rfl) (toList ts) info

@[simp] theorem numBarriers_addProducers : (info.addProducers b ts).numBarriers =
    info.numBarriers :=
  foldl_frame numBarriers (fun info t => info.addProducer b t) (fun _ _ => rfl) (toList ts) info

@[simp] theorem numBarriers_removeConsumers :
    (info.removeConsumers b ts).numBarriers = info.numBarriers :=
  foldl_frame numBarriers (fun info t => info.removeConsumer t b) (fun _ _ => rfl) (toList ts) info

@[simp] theorem numBarriers_removeProducers :
    (info.removeProducers b ts).numBarriers = info.numBarriers :=
  foldl_frame numBarriers (fun info t => info.removeProducer t b) (fun _ _ => rfl) (toList ts) info

end SetOperations

section Build

variable (info : BarrierInfo S) (op : TaskOp) (t t' b : ℕ)

theorem waits_addTaskOp :
    (info.addTaskOp t op).Waits t' b ↔ (t' = t ∧ b ∈ op.waitBarriers) ∨ info.Waits t' b := by
  have hw := waits_foldl_addConsumer op.waitBarriers (fun b => b) (fun _ => t) info t' b
  have hf := foldl_frame consumed (fun info bar => info.addProducer bar t) (fun _ _ => rfl)
    op.updateBarriers (op.waitBarriers.foldl (fun info bar => info.addConsumer bar t) info)
  rw [Waits, addTaskOp, hf]
  refine hw.trans (or_congr_left ?_)
  simp [eq_comm (a := t), and_comm]

theorem updates_addTaskOp :
    (info.addTaskOp t op).Updates t' b ↔ (t' = t ∧ b ∈ op.updateBarriers) ∨ info.Updates t' b := by
  have hf := foldl_frame produced (fun info bar => info.addConsumer bar t) (fun _ _ => rfl)
    op.waitBarriers info
  rw [addTaskOp, updates_foldl_addProducer op.updateBarriers (fun b => b) (fun _ => t), Updates, hf]
  refine or_congr_left ?_
  simp [eq_comm (a := t), and_comm]

theorem waits_addTaskOps (ops : List TaskOp) :
    (addTaskOps info t ops).Waits t' b ↔
      (∃ i op, ops[i]? = some op ∧ t' = t + i ∧ b ∈ op.waitBarriers) ∨ info.Waits t' b := by
  induction ops generalizing info t with
  | nil => simp [addTaskOps]
  | cons op ops ih =>
    rw [addTaskOps, ih, waits_addTaskOp, ← or_assoc]
    refine or_congr_left ⟨?_, ?_⟩
    · rintro (⟨i, op', hi, rfl, hb⟩ | ⟨rfl, hb⟩)
      · exact ⟨i + 1, op', hi, by omega, hb⟩
      · exact ⟨0, op, rfl, rfl, hb⟩
    · rintro ⟨_ | i, op', hi, rfl, hb⟩
      · obtain rfl : op = op' := Option.some.inj hi
        exact Or.inr ⟨rfl, hb⟩
      · exact Or.inl ⟨i, op', hi, by omega, hb⟩

theorem updates_addTaskOps (ops : List TaskOp) :
    (addTaskOps info t ops).Updates t' b ↔
      (∃ i op, ops[i]? = some op ∧ t' = t + i ∧ b ∈ op.updateBarriers) ∨ info.Updates t' b := by
  induction ops generalizing info t with
  | nil => simp [addTaskOps]
  | cons op ops ih =>
    rw [addTaskOps, ih, updates_addTaskOp, ← or_assoc]
    refine or_congr_left ⟨?_, ?_⟩
    · rintro (⟨i, op', hi, rfl, hb⟩ | ⟨rfl, hb⟩)
      · exact ⟨i + 1, op', hi, by omega, hb⟩
      · exact ⟨0, op, rfl, rfl, hb⟩
    · rintro ⟨_ | i, op', hi, rfl, hb⟩
      · obtain rfl : op = op' := Option.some.inj hi
        exact Or.inr ⟨rfl, hb⟩
      · exact Or.inl ⟨i, op', hi, by omega, hb⟩

theorem sizes_addTaskOps (ops : List TaskOp) :
    (addTaskOps info t ops).numTasks = info.numTasks ∧
      (addTaskOps info t ops).numBarriers = info.numBarriers := by
  induction ops generalizing info t with
  | nil => exact ⟨rfl, rfl⟩
  | cons op ops ih =>
    have hf : ∀ {β : Type} (p : BarrierInfo S → β),
        (∀ info b t, p (info.addConsumer b t) = p info) →
        (∀ info b t, p (info.addProducer b t) = p info) → p (info.addTaskOp t op) = p info := by
      intro β p hc hp
      rw [addTaskOp, foldl_frame p _ (fun _ _ => hp _ _ _), foldl_frame p _ (fun _ _ => hc _ _ _)]
    obtain ⟨h1, h2⟩ := ih (info.addTaskOp t op) (t + 1)
    rw [addTaskOps, h1, h2]
    exact ⟨hf numTasks (fun _ _ _ => rfl) (fun _ _ _ => rfl),
      hf numBarriers (fun _ _ _ => rfl) (fun _ _ _ => rfl)⟩

variable (func : FuncOp)

@[simp] theorem numTasks_buildBarrierMaps :
    (buildBarrierMaps func : BarrierInfo S).numTasks = func.tasks.length :=
  (sizes_addTaskOps _ _ _).1

@[simp] theorem numBarriers_buildBarrierMaps :
    (buildBarrierMaps func : BarrierInfo S).numBarriers = func.numBarriers :=
  (sizes_addTaskOps _ _ _).2

@[simp] theorem waits_buildBarrierMaps :
    (buildBarrierMaps func : BarrierInfo S).Waits t b ↔ func.Waits t b := by
  rw [buildBarrierMaps, waits_addTaskOps]
  simp [Waits, FuncOp.Waits]

@[simp] theorem updates_buildBarrierMaps :
    (buildBarrierMaps func : BarrierInfo S).Updates t b ↔ func.Updates t b := by
  rw [buildBarrierMaps, updates_addTaskOps]
  simp [Updates, FuncOp.Updates]

theorem inRange_buildBarrierMaps (hw : func.WellFormed) :
    (buildBarrierMaps func : BarrierInfo S).InRange := by
  constructor
  · intro t b h
    obtain ⟨op, hop, hb⟩ := (updates_buildBarrierMaps t b func).mp h
    obtain ⟨ht, rfl⟩ := List.getElem?_eq_some_iff.mp hop
    simpa using ⟨ht, hw _ (List.getElem_mem ht) b (Or.inr hb)⟩
  · intro t b h
    obtain ⟨op, hop, hb⟩ := (waits_buildBarrierMaps t b func).mp h
    obtain ⟨ht, rfl⟩ := List.getElem?_eq_some_iff.mp hop
    simpa using ⟨ht, hw _ (List.getElem_mem ht) b (Or.inl hb)⟩

theorem forward_buildBarrierMaps (hf : func.Forward) :
    (buildBarrierMaps func : BarrierInfo S).Forward :=
  hf.mono (fun t b => (updates_buildBarrierMaps t b func).mp)
    fun t b => (waits_buildBarrierMaps t b func).mp

variable (hr : info.InRange) (hn : info.numTasks = func.tasks.length)
include hr hn

theorem waits_updateIR :
    (info.updateIR func).Waits t b ↔ info.Waits t b := by
  simp only [FuncOp.Waits, updateIR, List.getElem?_mapIdx, Option.map_eq_some_iff,
    exists_exists_and_eq_and, mem_getWaitBarriers]
  refine ⟨fun ⟨_, _, hb⟩ => hb, fun hb => ?_⟩
  have ht : t < func.tasks.length := hn ▸ (hr.waits t b hb).1
  exact ⟨_, List.getElem?_eq_getElem ht, hb⟩

theorem updates_updateIR :
    (info.updateIR func).Updates t b ↔ info.Updates t b := by
  simp only [FuncOp.Updates, updateIR, List.getElem?_mapIdx, Option.map_eq_some_iff,
    exists_exists_and_eq_and, mem_getUpdateBarriers]
  refine ⟨fun ⟨_, _, hb⟩ => hb, fun hb => ?_⟩
  have ht : t < func.tasks.length := hn ▸ (hr.updates t b hb).1
  exact ⟨_, List.getElem?_eq_getElem ht, hb⟩

end Build

end BarrierInfo
end Vpux.Barrier
