import Vpux.Barrier.Optimize

/-! The barrier analysis as it is stored: four tables with nothing that ties them
together. Each operation updates the two tables of a direction by itself. -/
namespace Vpux.Barrier
open Data Data.TaskSet VPURT

section Tables

structure Tables (S : Type) where
  numTasks : ℕ
  numBarriers : ℕ
  barrierProducerMap : ℕ → S
  barrierConsumerMap : ℕ → S
  taskWaitBarriers : ℕ → S
  taskUpdateBarriers : ℕ → S

variable {S : Type} [TaskSet S]

namespace Tables

def addConsumer (tables : Tables S) (barrierInd taskInd : ℕ) : Tables S :=
  { tables with
    barrierConsumerMap := Function.update tables.barrierConsumerMap barrierInd
      (insert (tables.barrierConsumerMap barrierInd) taskInd)
    taskWaitBarriers := Function.update tables.taskWaitBarriers taskInd
      (insert (tables.taskWaitBarriers taskInd) barrierInd) }

def addConsumers (tables : Tables S) (barrierInd : ℕ) (taskInds : S) : Tables S :=
  (toList taskInds).foldl (fun tables taskInd => tables.addConsumer barrierInd taskInd) tables

def addProducer (tables : Tables S) (barrierInd taskInd : ℕ) : Tables S :=
  { tables with
    barrierProducerMap := Function.update tables.barrierProducerMap barrierInd
      (insert (tables.barrierProducerMap barrierInd) taskInd)
    taskUpdateBarriers := Function.update tables.taskUpdateBarriers taskInd
      (insert (tables.taskUpdateBarriers taskInd) barrierInd) }

def addProducers (tables : Tables S) (barrierInd : ℕ) (taskInds : S) : Tables S :=
  (toList taskInds).foldl (fun tables taskInd => tables.addProducer barrierInd taskInd) tables

def removeProducer (tables : Tables S) (taskInd barrierInd : ℕ) : Tables S :=
  { tables with
    barrierProducerMap := Function.update tables.barrierProducerMap barrierInd
      (erase (tables.barrierProducerMap barrierInd) taskInd)
    taskUpdateBarriers := Function.update tables.taskUpdateBarriers taskInd
      (erase (tables.taskUpdateBarriers taskInd) barrierInd) }

def removeConsumer (tables : Tables S) (taskInd barrierInd : ℕ) : Tables S :=
  { tables with
    barrierConsumerMap := Function.update tables.barrierConsumerMap barrierInd
      (erase (tables.barrierConsumerMap barrierInd) taskInd)
    taskWaitBarriers := Function.update tables.taskWaitBarriers taskInd
      (erase (tables.taskWaitBarriers taskInd) barrierInd) }

def removeProducers (tables : Tables S) (barrierInd : ℕ) (taskInds : S) : Tables S :=
  (toList taskInds).foldl (fun tables taskInd => tables.removeProducer taskInd barrierInd) tables

def removeConsumers (tables : Tables S) (barrierInd : ℕ) (taskInds : S) : Tables S :=
  (toList taskInds).foldl (fun tables taskInd => tables.removeConsumer taskInd barrierInd) tables

def addTaskOp (tables : Tables S) (taskInd : ℕ) (op : TaskOp) : Tables S :=
  let tables := op.waitBarriers.foldl (fun tables bar => tables.addConsumer bar taskInd) tables
  op.updateBarriers.foldl (fun tables bar => tables.addProducer bar taskInd) tables

def addTaskOps (tables : Tables S) : ℕ → List TaskOp → Tables S
  | _, [] => tables
  | taskInd, op :: ops => addTaskOps (tables.addTaskOp taskInd op) (taskInd + 1) ops

/-- The resized tables, then one `addTaskOp` per task. -/
def buildBarrierMaps (func : FuncOp) : Tables S :=
  addTaskOps ⟨func.tasks.length, func.numBarriers, fun _ => empty, fun _ => empty,
    fun _ => empty, fun _ => empty⟩ 0 func.tasks

/-- `push_back` on the two tables indexed by barriers -/
def addNewBarrier (tables : Tables S) : Tables S :=
  { tables with
    numBarriers := tables.numBarriers + 1
    barrierConsumerMap := Function.update tables.barrierConsumerMap tables.numBarriers empty
    barrierProducerMap := Function.update tables.barrierProducerMap tables.numBarriers empty }

def setWaitBarriers (tables : Tables S) (taskInd : ℕ) (barriers : S) : Tables S :=
  -- remove previous wait barriers
  let removed := eraseAt tables.barrierConsumerMap (toList (tables.taskWaitBarriers taskInd))
      taskInd
  { tables with
    barrierConsumerMap := insertAt removed (toList barriers) taskInd
    taskWaitBarriers := Function.update tables.taskWaitBarriers taskInd barriers }

def setUpdateBarriers (tables : Tables S) (taskInd : ℕ) (barriers : S) : Tables S :=
  -- remove previous update barriers
  let removed := eraseAt tables.barrierProducerMap (toList (tables.taskUpdateBarriers taskInd))
      taskInd
  { tables with
    barrierProducerMap := insertAt removed (toList barriers) taskInd
    taskUpdateBarriers := Function.update tables.taskUpdateBarriers taskInd barriers }

def resetBarrier (tables : Tables S) (barrierInd : ℕ) : Tables S :=
  { tables with
    taskUpdateBarriers := eraseAt tables.taskUpdateBarriers
      (toList (tables.barrierProducerMap barrierInd)) barrierInd
    barrierProducerMap := Function.update tables.barrierProducerMap barrierInd empty
    taskWaitBarriers := eraseAt tables.taskWaitBarriers
      (toList (tables.barrierConsumerMap barrierInd)) barrierInd
    barrierConsumerMap := Function.update tables.barrierConsumerMap barrierInd empty }

/-- One round of the second loop: subtract in the copy, then store the result. -/
def pruneUpdateBarriers (st : Tables S × (ℕ → S)) (taskInd : ℕ) : Tables S × (ℕ → S) :=
  let copyUpdateBarriers :=
    sweep setSubtract st.1.taskUpdateBarriers st.1.barrierConsumerMap st.2 taskInd
  (st.1.setUpdateBarriers taskInd (copyUpdateBarriers taskInd), copyUpdateBarriers)

def optimizeUpdateBarriers (tables : Tables S) : Tables S :=
  let copyUpdateBarriers := (List.range tables.numTasks).reverse.foldl
    (sweep setUnion tables.taskUpdateBarriers tables.barrierConsumerMap) tables.taskUpdateBarriers
  ((List.range tables.numTasks).foldl pruneUpdateBarriers (tables, copyUpdateBarriers)).1

def mergeIfSameProducers (tables : Tables S) (barIdn childBarIdn : ℕ) : Tables S :=
  if equal (tables.barrierProducerMap barIdn) (tables.barrierProducerMap childBarIdn) then
    -- move all consumers to one barrier
    ((toList (tables.barrierConsumerMap childBarIdn)).foldl
      (fun tables consumerInd => tables.addConsumer barIdn consumerInd) tables).resetBarrier
        childBarIdn
  else tables

def mergeSameProducers (tables : Tables S) : Tables S :=
  (List.range tables.numBarriers).foldl (fun tables barIdn =>
    (List.range' (barIdn + 1) (tables.numBarriers - (barIdn + 1))).foldl
      (fun tables childBarIdn => tables.mergeIfSameProducers barIdn childBarIdn) tables) tables

def pruneWaitBarriers (st : Tables S × (ℕ → S)) (taskInd : ℕ) : Tables S × (ℕ → S) :=
  let copyWaitBarriers :=
    sweep setSubtract st.1.taskWaitBarriers st.1.barrierProducerMap st.2 taskInd
  (st.1.setWaitBarriers taskInd (copyWaitBarriers taskInd), copyWaitBarriers)

def optimizeWaitBarriers (tables : Tables S) : Tables S :=
  let copyWaitBarriers := (List.range tables.numTasks).foldl
    (sweep setUnion tables.taskWaitBarriers tables.barrierProducerMap) tables.taskWaitBarriers
  ((List.range tables.numTasks).reverse.foldl pruneWaitBarriers (tables, copyWaitBarriers)).1

def optimizeBarriers (tables : Tables S) : Tables S :=
  tables.optimizeUpdateBarriers.mergeSameProducers.optimizeWaitBarriers

end Tables

/-- The public and private mutators of the analysis. -/
inductive Operation (S : Type)
  | addProducer (barrierInd taskInd : ℕ)
  | addProducers (barrierInd : ℕ) (taskInds : S)
  | addConsumer (barrierInd taskInd : ℕ)
  | addConsumers (barrierInd : ℕ) (taskInds : S)
  | removeProducer (taskInd barrierInd : ℕ)
  | removeProducers (barrierInd : ℕ) (taskInds : S)
  | removeConsumer (taskInd barrierInd : ℕ)
  | removeConsumers (barrierInd : ℕ) (taskInds : S)
  | setWaitBarriers (taskInd : ℕ) (barriers : S)
  | setUpdateBarriers (taskInd : ℕ) (barriers : S)
  | resetBarrier (barrierInd : ℕ)
  | addNewBarrier
  | optimizeBarriers

namespace Tables

def apply (tables : Tables S) : Operation S → Tables S
  | .addProducer barrierInd taskInd => tables.addProducer barrierInd taskInd
  | .addProducers barrierInd taskInds => tables.addProducers barrierInd taskInds
  | .addConsumer barrierInd taskInd => tables.addConsumer barrierInd taskInd
  | .addConsumers barrierInd taskInds => tables.addConsumers barrierInd taskInds
  | .removeProducer taskInd barrierInd => tables.removeProducer taskInd barrierInd
  | .removeProducers barrierInd taskInds => tables.removeProducers barrierInd taskInds
  | .removeConsumer taskInd barrierInd => tables.removeConsumer taskInd barrierInd
  | .removeConsumers barrierInd taskInds => tables.removeConsumers barrierInd taskInds
  | .setWaitBarriers taskInd barriers => tables.setWaitBarriers taskInd barriers
  | .setUpdateBarriers taskInd barriers => tables.setUpdateBarriers taskInd barriers
  | .resetBarrier barrierInd => tables.resetBarrier barrierInd
  | .addNewBarrier => tables.addNewBarrier
  | .optimizeBarriers => tables.optimizeBarriers

/-- Every index an operation names is within the tables it is used on. -/
def Valid (tables : Tables S) : Operation S → Prop
  | .addProducer barrierInd taskInd | .addConsumer barrierInd taskInd
  | .removeProducer taskInd barrierInd | .removeConsumer taskInd barrierInd =>
    barrierInd < tables.numBarriers ∧ taskInd < tables.numTasks
  | .addProducers barrierInd taskInds | .addConsumers barrierInd taskInds
  | .removeProducers barrierInd taskInds | .removeConsumers barrierInd taskInds =>
    barrierInd < tables.numBarriers ∧ ∀ t ∈ toList taskInds, t < tables.numTasks
  | .setWaitBarriers taskInd barriers | .setUpdateBarriers taskInd barriers =>
    taskInd < tables.numTasks ∧ ∀ b ∈ toList barriers, b < tables.numBarriers
  | .resetBarrier barrierInd => barrierInd < tables.numBarriers
  | .addNewBarrier | .optimizeBarriers => True

instance (tables : Tables S) : (op : Operation S) → Decidable (tables.Valid op)
  | .addProducer .. | .addConsumer .. | .removeProducer .. | .removeConsumer ..
  | .addProducers .. | .addConsumers .. | .removeProducers .. | .removeConsumers ..
  | .setWaitBarriers .. | .setUpdateBarriers .. => inferInstanceAs (Decidable (_ ∧ _))
  | .resetBarrier _ => inferInstanceAs (Decidable (_ < _))
  | .addNewBarrier | .optimizeBarriers => inferInstanceAs (Decidable True)

/-- The tables after a sequence of operations; `none` at an invalid index. -/
def run (tables : Tables S) : List (Operation S) → Option (Tables S)
  | [] => some tables
  | op :: ops => if tables.Valid op then (tables.apply op).run ops else none

end Tables

end Tables

-- The stored tables refine the analysis whose two sides agree by construction: every valid
-- operation on the tables is the same operation there.
variable {S : Type} [TaskSet S]

section Labels

variable (P : ℕ → Prop) (own other : Incidence S)

theorem labels_sweep {combine : S → S → S}
    (hc : ∀ s u x, x ∈ toList (combine s u) → x ∈ toList s ∨ x ∈ toList u)
    (own other : ℕ → S) (t : ℕ) {copy : ℕ → S} (hcopy : ∀ j, ∀ x ∈ toList (copy j), P x) :
    ∀ j, ∀ x ∈ toList (sweep combine own other copy t j), P x := by
  apply List.foldlRecOn (motive := fun copy : ℕ → S => ∀ j, ∀ x ∈ toList (copy j), P x) _ _ hcopy
  intro copy hcopy b _
  apply List.foldlRecOn (motive := fun copy : ℕ → S => ∀ j, ∀ x ∈ toList (copy j), P x) _ _ hcopy
  intro copy hcopy u _ j x hx
  by_cases hj : j = t
  · subst hj
    rw [Function.update_self] at hx
    cases hc _ _ x hx with
    | inl hs => exact hcopy j x hs
    | inr hu => exact hcopy u x hu
  · rw [Function.update_of_ne hj] at hx
    exact hcopy j x hx

theorem labels_closeAndPrune (closeOrder pruneOrder : List ℕ) (hown : ∀ t x, own.Rel t x → P x)
    {t x : ℕ} (h : (closeAndPrune own other closeOrder pruneOrder).Rel t x) : P x := by
  have hclose : ∀ j, ∀ x ∈ toList (closeSets own other closeOrder j), P x := by
    apply List.foldlRecOn (motive := fun copy : ℕ → S => ∀ j, ∀ x ∈ toList (copy j), P x) _ _ hown
    intro copy hcopy t _
    exact labels_sweep P (fun s u x hx => ((mem_setUnion s u x).mp hx).symm) _ _ t hcopy
  have hprune :
      (∀ t x, (pruneOrder.foldl (pruneSet other) (own, closeSets own other closeOrder)).1.Rel t x →
      P x) ∧ ∀ j, ∀ x ∈ toList ((pruneOrder.foldl (pruneSet other)
        (own, closeSets own other closeOrder)).2 j), P x := by
    apply List.foldlRecOn (motive := fun st : Incidence S × (ℕ → S) =>
      (∀ t x, st.1.Rel t x → P x) ∧ ∀ j, ∀ x ∈ toList (st.2 j), P x) _ _ ⟨hown, hclose⟩
    intro st hst t _
    have hcopy := labels_sweep P (fun s u x hx => Or.inl ((mem_setSubtract s u x).mp hx).2)
      st.1.byTask other.byBarrier t hst.2
    refine ⟨fun t' x hx => ?_, hcopy⟩
    rw [pruneSet, Incidence.rel_setTask] at hx
    split_ifs at hx
    · exact hcopy t x hx
    · exact hst.1 t' x hx
  exact hprune.1 t x h

end Labels

namespace BarrierInfo

def tables (info : BarrierInfo S) : Tables S where
  numTasks := info.numTasks
  numBarriers := info.numBarriers
  barrierProducerMap := info.produced.byBarrier
  barrierConsumerMap := info.consumed.byBarrier
  taskWaitBarriers := info.consumed.byTask
  taskUpdateBarriers := info.produced.byTask

/-- Detaching the unused index of a new barrier makes its sets empty. -/
def applyOperation (info : BarrierInfo S) : Operation S → BarrierInfo S
  | .addProducer barrierInd taskInd => info.addProducer barrierInd taskInd
  | .addProducers barrierInd taskInds => info.addProducers barrierInd taskInds
  | .addConsumer barrierInd taskInd => info.addConsumer barrierInd taskInd
  | .addConsumers barrierInd taskInds => info.addConsumers barrierInd taskInds
  | .removeProducer taskInd barrierInd => info.removeProducer taskInd barrierInd
  | .removeProducers barrierInd taskInds => info.removeProducers barrierInd taskInds
  | .removeConsumer taskInd barrierInd => info.removeConsumer taskInd barrierInd
  | .removeConsumers barrierInd taskInds => info.removeConsumers barrierInd taskInds
  | .setWaitBarriers taskInd barriers => info.setWaitBarriers taskInd barriers
  | .setUpdateBarriers taskInd barriers => info.setUpdateBarriers taskInd barriers
  | .resetBarrier barrierInd => info.resetBarrier barrierInd
  | .addNewBarrier => info.addNewBarrier.resetBarrier info.numBarriers
  | .optimizeBarriers => info.optimizeBarriers

/-- Tasks only name barriers that exist. -/
def BarriersInRange (info : BarrierInfo S) : Prop :=
  ∀ t b, info.Updates t b ∨ info.Waits t b → b < info.numBarriers

section Refinement

variable (info : BarrierInfo S) (b : ℕ) (ts : S)

theorem tables_addConsumers : (info.addConsumers b ts).tables = info.tables.addConsumers b ts :=
  (List.foldl_hom tables fun _ _ => rfl).symm

theorem tables_addProducers : (info.addProducers b ts).tables = info.tables.addProducers b ts :=
  (List.foldl_hom tables fun _ _ => rfl).symm

theorem tables_removeConsumers :
    (info.removeConsumers b ts).tables = info.tables.removeConsumers b ts :=
  (List.foldl_hom tables fun _ _ => rfl).symm

theorem tables_removeProducers :
    (info.removeProducers b ts).tables = info.tables.removeProducers b ts :=
  (List.foldl_hom tables fun _ _ => rfl).symm

theorem tables_addTaskOp (t : ℕ) (op : TaskOp) :
    (info.addTaskOp t op).tables = info.tables.addTaskOp t op := by
  unfold addTaskOp Tables.addTaskOp
  have hwait : op.waitBarriers.foldl (fun tables bar => tables.addConsumer bar t) info.tables =
      (op.waitBarriers.foldl (fun info bar => info.addConsumer bar t) info).tables :=
    List.foldl_hom tables fun _ _ => rfl
  rw [hwait]
  exact (List.foldl_hom tables fun _ _ => rfl).symm

theorem tables_addTaskOps (t : ℕ) (ops : List TaskOp) :
    (info.addTaskOps t ops).tables = info.tables.addTaskOps t ops := by
  induction ops generalizing info t with
  | nil => rfl
  | cons op ops ih => rw [addTaskOps, Tables.addTaskOps, ih, tables_addTaskOp]

theorem tables_buildBarrierMaps (func : FuncOp) :
    (buildBarrierMaps func : BarrierInfo S).tables = Tables.buildBarrierMaps func :=
  tables_addTaskOps _ 0 func.tasks

theorem tables_addNewBarrier (hr : info.BarriersInRange) :
    (info.addNewBarrier.resetBarrier info.numBarriers).tables = info.tables.addNewBarrier := by
  have hunused : ∀ i : Incidence S, (∀ t b, i.Rel t b → b < info.numBarriers) →
      toList (i.byBarrier info.numBarriers) = [] := by
    intro i hi
    apply List.eq_nil_iff_forall_not_mem.mpr
    intro t ht
    exact lt_irrefl _ (hi t _ ((i.mem_byBarrier _ t).mp ht))
  have hproduced := hunused info.produced fun t b h => hr t b (Or.inl h)
  have hconsumed := hunused info.consumed fun t b h => hr t b (Or.inr h)
  simp only [tables, resetBarrier, addNewBarrier, Incidence.clear, Tables.addNewBarrier, hproduced,
    hconsumed, eraseAt, List.foldl_nil]

theorem tables_mergeIfSameProducers (barIdn childBarIdn : ℕ) :
    (info.mergeIfSameProducers barIdn childBarIdn).tables =
      info.tables.mergeIfSameProducers barIdn childBarIdn := by
  unfold mergeIfSameProducers Tables.mergeIfSameProducers
  have hequal : equal (info.getBarrierProducers barIdn) (info.getBarrierProducers childBarIdn) =
      equal (info.tables.barrierProducerMap barIdn) (info.tables.barrierProducerMap childBarIdn) :=
        rfl
  rw [hequal]
  split_ifs
  · exact congrArg (·.resetBarrier childBarIdn)
      (info.tables_addConsumers barIdn (info.getBarrierConsumers childBarIdn))
  · rfl

theorem tables_mergeSameProducers :
    info.mergeSameProducers.tables = info.tables.mergeSameProducers := by
  apply Eq.symm
  apply List.foldl_hom
  intro info' barIdn
  apply List.foldl_hom
  intro info'' childBarIdn
  exact (info''.tables_mergeIfSameProducers barIdn childBarIdn).symm

theorem tables_optimizeUpdateBarriers :
    info.optimizeUpdateBarriers.tables = info.tables.optimizeUpdateBarriers := by
  have hround : ∀ (st : Incidence S × (ℕ → S)) (t : ℕ),
      Tables.pruneUpdateBarriers ({ info with produced := st.1 }.tables, st.2) t =
        ({ info with produced := (pruneSet info.consumed st t).1 }.tables,
          (pruneSet info.consumed st t).2) := fun _ _ => rfl
  have hloop := @List.foldl_hom _ _ _
    (fun st : Incidence S × (ℕ → S) => ({ info with produced := st.1 }.tables, st.2)) _ _
    (List.range info.numTasks) (info.produced, closeSets info.produced info.consumed
      (List.range info.numTasks).reverse) hround
  exact (congrArg Prod.fst hloop).symm

theorem tables_optimizeWaitBarriers :
    info.optimizeWaitBarriers.tables = info.tables.optimizeWaitBarriers := by
  have hround : ∀ (st : Incidence S × (ℕ → S)) (t : ℕ),
      Tables.pruneWaitBarriers ({ info with consumed := st.1 }.tables, st.2) t =
        ({ info with consumed := (pruneSet info.produced st t).1 }.tables,
          (pruneSet info.produced st t).2) := fun _ _ => rfl
  have hloop := @List.foldl_hom _ _ _
    (fun st : Incidence S × (ℕ → S) => ({ info with consumed := st.1 }.tables, st.2)) _ _
    (List.range info.numTasks).reverse (info.consumed, closeSets info.consumed info.produced
      (List.range info.numTasks)) hround
  exact (congrArg Prod.fst hloop).symm

theorem tables_optimizeBarriers : info.optimizeBarriers.tables = info.tables.optimizeBarriers := by
  rw [optimizeBarriers, tables_optimizeWaitBarriers, tables_mergeSameProducers,
    tables_optimizeUpdateBarriers]
  rfl

theorem tables_applyOperation (hr : info.BarriersInRange) (op : Operation S) :
    (info.applyOperation op).tables = info.tables.apply op := by
  cases op with
  | addProducers b ts => exact info.tables_addProducers b ts
  | addConsumers b ts => exact info.tables_addConsumers b ts
  | removeProducers b ts => exact info.tables_removeProducers b ts
  | removeConsumers b ts => exact info.tables_removeConsumers b ts
  | addNewBarrier => exact info.tables_addNewBarrier hr
  | optimizeBarriers => exact info.tables_optimizeBarriers
  | addProducer | addConsumer | removeProducer | removeConsumer | setWaitBarriers
  | setUpdateBarriers | resetBarrier => rfl

end Refinement

section Range

variable {info : BarrierInfo S}

variable (hr : info.BarriersInRange)
include hr

theorem BarriersInRange.mergeIfSameProducers {barIdn : ℕ} (hb : barIdn < info.numBarriers)
    (childBarIdn : ℕ) :
    (info.mergeIfSameProducers barIdn childBarIdn).BarriersInRange ∧
      (info.mergeIfSameProducers barIdn childBarIdn).numBarriers = info.numBarriers := by
  unfold BarrierInfo.mergeIfSameProducers
  split_ifs
  · have hn : ((info.addConsumers barIdn (info.getBarrierConsumers childBarIdn)).resetBarrier
        childBarIdn).numBarriers = info.numBarriers :=
      info.numBarriers_addConsumers barIdn _
    refine ⟨fun t b h => ?_, hn⟩
    rw [hn]
    simp only [waits_resetBarrier, updates_resetBarrier, waits_addConsumers,
      updates_addConsumers] at h
    rcases h with ⟨_, hu⟩ | ⟨_, ⟨_, rfl⟩ | hw⟩
    · exact hr t b (Or.inl hu)
    · exact hb
    · exact hr t b (Or.inr hw)
  · exact ⟨hr, rfl⟩

theorem BarriersInRange.mergeSameProducers :
    info.mergeSameProducers.BarriersInRange ∧
      info.mergeSameProducers.numBarriers = info.numBarriers := by
  apply List.foldlRecOn (motive := fun i : BarrierInfo S =>
    i.BarriersInRange ∧ i.numBarriers = info.numBarriers) _ _ ⟨hr, rfl⟩
  intro info' hinfo' barIdn hb
  apply List.foldlRecOn (motive := fun i : BarrierInfo S =>
    i.BarriersInRange ∧ i.numBarriers = info.numBarriers) _ _ hinfo'
  intro info'' hinfo'' childBarIdn _
  have hb' : barIdn < info''.numBarriers := hinfo''.2 ▸ List.mem_range.mp hb
  have hstep := hinfo''.1.mergeIfSameProducers hb' childBarIdn
  exact ⟨hstep.1, hstep.2.trans hinfo''.2⟩

theorem BarriersInRange.optimizeBarriers : info.optimizeBarriers.BarriersInRange := by
  have hupdate : info.optimizeUpdateBarriers.BarriersInRange := by
    rintro t b (hu | hw)
    · exact labels_closeAndPrune (· < info.numBarriers) info.produced info.consumed _ _
        (fun t b h => hr t b (Or.inl h)) hu
    · exact hr t b (Or.inr hw)
  have hmerge := hupdate.mergeSameProducers.1
  rintro t b (hu | hw)
  · exact hmerge t b (Or.inl hu)
  · exact labels_closeAndPrune (· < info.optimizeUpdateBarriers.mergeSameProducers.numBarriers)
      _ _ _ _ (fun t b h => hmerge t b (Or.inr h)) hw

theorem BarriersInRange.of_new {info' : BarrierInfo S} (hn : info.numBarriers ≤ info'.numBarriers)
    (h : ∀ t b, info'.Updates t b ∨ info'.Waits t b →
      b < info.numBarriers ∨ info.Updates t b ∨ info.Waits t b) :
    info'.BarriersInRange := by
  intro t b hb
  cases h t b hb with
  | inl hlt => exact hlt.trans_le hn
  | inr hold => exact (hr t b hold).trans_le hn

open BarriersInRange

theorem BarriersInRange.applyOperation (op : Operation S) (hv : info.tables.Valid op) :
    (info.applyOperation op).BarriersInRange := by
  cases op with
  | addProducer b t =>
    refine of_new hr (le_refl info.numBarriers) ?_
    intro t' b' h
    simp only [BarrierInfo.applyOperation, updates_addProducer, waits_addProducer] at h
    have hb : b < info.numBarriers := hv.1
    grind
  | addConsumer b t =>
    refine of_new hr (le_refl info.numBarriers) ?_
    intro t' b' h
    simp only [BarrierInfo.applyOperation, updates_addConsumer, waits_addConsumer] at h
    have hb : b < info.numBarriers := hv.1
    grind
  | addProducers b ts =>
    refine of_new hr (info.numBarriers_addProducers b ts).ge ?_
    intro t' b' h
    simp only [BarrierInfo.applyOperation, updates_addProducers, waits_addProducers] at h
    have hb : b < info.numBarriers := hv.1
    grind
  | addConsumers b ts =>
    refine of_new hr (info.numBarriers_addConsumers b ts).ge ?_
    intro t' b' h
    simp only [BarrierInfo.applyOperation, updates_addConsumers, waits_addConsumers] at h
    have hb : b < info.numBarriers := hv.1
    grind
  | removeProducer t b =>
    refine of_new hr (le_refl info.numBarriers) ?_
    intro t' b' h
    simp only [BarrierInfo.applyOperation, updates_removeProducer, waits_removeProducer] at h
    grind
  | removeConsumer t b =>
    refine of_new hr (le_refl info.numBarriers) ?_
    intro t' b' h
    simp only [BarrierInfo.applyOperation, updates_removeConsumer, waits_removeConsumer] at h
    grind
  | removeProducers b ts =>
    refine of_new hr (info.numBarriers_removeProducers b ts).ge ?_
    intro t' b' h
    simp only [BarrierInfo.applyOperation, updates_removeProducers, waits_removeProducers] at h
    grind
  | removeConsumers b ts =>
    refine of_new hr (info.numBarriers_removeConsumers b ts).ge ?_
    intro t' b' h
    simp only [BarrierInfo.applyOperation, updates_removeConsumers, waits_removeConsumers] at h
    grind
  | setWaitBarriers t bs =>
    refine of_new hr (le_refl info.numBarriers) ?_
    intro t' b' h
    simp only [BarrierInfo.applyOperation, updates_setWaitBarriers, waits_setWaitBarriers] at h
    have hbs : ∀ b ∈ toList bs, b < info.numBarriers := hv.2
    grind
  | setUpdateBarriers t bs =>
    refine of_new hr (le_refl info.numBarriers) ?_
    intro t' b' h
    simp only [BarrierInfo.applyOperation, updates_setUpdateBarriers, waits_setUpdateBarriers] at h
    have hbs : ∀ b ∈ toList bs, b < info.numBarriers := hv.2
    grind
  | resetBarrier b =>
    refine of_new hr (le_refl info.numBarriers) ?_
    intro t' b' h
    simp only [BarrierInfo.applyOperation, updates_resetBarrier, waits_resetBarrier] at h
    grind
  | addNewBarrier =>
    refine of_new hr (Nat.le_succ info.numBarriers) ?_
    intro t' b' h
    simp only [BarrierInfo.applyOperation, updates_resetBarrier, waits_resetBarrier,
      updates_addNewBarrier, waits_addNewBarrier] at h
    grind
  | optimizeBarriers => exact hr.optimizeBarriers

theorem exists_info_run (ops : List (Operation S)) {tables : Tables S}
    (h : info.tables.run ops = some tables) :
    ∃ info' : BarrierInfo S, info'.BarriersInRange ∧ info'.tables = tables := by
  induction ops generalizing info with
  | nil => exact ⟨info, hr, Option.some.inj h⟩
  | cons op ops ih =>
    rw [Tables.run, Option.ite_none_right_eq_some] at h
    obtain ⟨hv, hrest⟩ := h
    rw [← info.tables_applyOperation hr op] at hrest
    exact ih (hr.applyOperation op hv) hrest

end Range
end BarrierInfo

/-- Whatever sequence of operations runs, each relation reads the same from the barrier's
table as from the task's. -/
theorem Tables.run_agree (func : FuncOp) (hw : func.WellFormed) (ops : List (Operation S))
    (tables : Tables S) (h : (buildBarrierMaps func).run ops = some tables) (t b : ℕ) :
    (t ∈ toList (tables.barrierProducerMap b) ↔ b ∈ toList (tables.taskUpdateBarriers t)) ∧
      (t ∈ toList (tables.barrierConsumerMap b) ↔ b ∈ toList (tables.taskWaitBarriers t)) := by
  have hbuilt := BarrierInfo.inRange_buildBarrierMaps (S := S) func hw
  have hr : (BarrierInfo.buildBarrierMaps func : BarrierInfo S).BarriersInRange := by
    rintro t b (hu | hw)
    · exact (hbuilt.updates t b hu).2
    · exact (hbuilt.waits t b hw).2
  rw [← BarrierInfo.tables_buildBarrierMaps] at h
  obtain ⟨info, -, rfl⟩ := BarrierInfo.exists_info_run hr ops h
  exact ⟨info.produced.agree b t, info.consumed.agree b t⟩

theorem Tables.run_agree_bypass : ∃ tables : Tables (SmallSet 16),
    (buildBarrierMaps BarrierInfo.bypass).run
      [.addNewBarrier, .addProducer 3 0, .addConsumer 3 2, .optimizeBarriers, .removeConsumer 2 1] =
        some tables ∧
      (0 ∈ toList (tables.barrierProducerMap 0) ↔ 0 ∈ toList (tables.taskUpdateBarriers 0)) ∧
      (2 ∈ toList (tables.barrierConsumerMap 1) ↔ 1 ∈ toList (tables.taskWaitBarriers 2)) := by
  have hruns : ((buildBarrierMaps BarrierInfo.bypass : Tables (SmallSet 16)).run
      [.addNewBarrier, .addProducer 3 0, .addConsumer 3 2, .optimizeBarriers,
        .removeConsumer 2 1]).isSome := by decide
  obtain ⟨tables, h⟩ := Option.isSome_iff_exists.mp hruns
  exact ⟨tables, h, (run_agree BarrierInfo.bypass (by decide) _ tables h 0 0).1,
    (run_agree BarrierInfo.bypass (by decide) _ tables h 2 1).2⟩

end Vpux.Barrier
