import Vpux.Barrier.Slots

/-! `SplitExceedingVariantCountBarriers`: a barrier with too many producers is replaced
by one barrier per batch of them, and likewise for consumers. -/
namespace Vpux.Barrier
open Data Data.TaskSet VPURT

namespace BarrierInfo

variable {S : Type} [TaskSet S]

def addBarrier (info : BarrierInfo S) (producers consumers : S) : BarrierInfo S :=
  let newBarrier := info.numBarriers
  (info.addNewBarrier.addProducers newBarrier producers).addConsumers newBarrier consumers

section Split

variable (slots : ℕ → ℕ) (availableSlots : ℕ)

def splitBarrierProducers (info : BarrierInfo S) (barrierInd : ℕ) : BarrierInfo S :=
  let barrierConsumers := info.getBarrierConsumers barrierInd
  let producerBatches :=
    createLegalVariantBatches slots availableSlots (info.getBarrierProducers barrierInd)
  (producerBatches.foldl (fun info producerBatch => info.addBarrier producerBatch barrierConsumers)
    info).resetBarrier barrierInd

def splitBarrierConsumers (info : BarrierInfo S) (barrierInd : ℕ) : BarrierInfo S :=
  let barrierProducers := info.getBarrierProducers barrierInd
  let consumerBatches :=
    createLegalVariantBatches slots availableSlots (info.getBarrierConsumers barrierInd)
  (consumerBatches.foldl (fun info consumerBatch => info.addBarrier barrierProducers consumerBatch)
    info).resetBarrier barrierInd

/-- A walk over the declarations in their order. The barriers a split creates are declared
before the one it replaces, so this walk passes them by and the next one meets them. -/
def walkBarriers (isLegal : BarrierInfo S → ℕ → Bool) (split : BarrierInfo S → ℕ → BarrierInfo S) :
    BarrierInfo S → List ℕ → BarrierInfo S × List ℕ
  | info, [] => (info, [])
  | info, barrierInd :: barriers =>
    if isLegal info barrierInd then
      let rest := walkBarriers isLegal split info barriers
      (rest.1, barrierInd :: rest.2)
    else
      let info' := split info barrierInd
      let rest := walkBarriers isLegal split info' barriers
      (rest.1, List.range' info.numBarriers (info'.numBarriers - info.numBarriers) ++
        barrierInd :: rest.2)

def splitProducers (info : BarrierInfo S) (barriers : List ℕ) : BarrierInfo S × List ℕ :=
  walkBarriers (fun info b => info.getProducerSlotCount slots b ≤ availableSlots)
    (splitBarrierProducers slots availableSlots) info barriers

def splitConsumers (info : BarrierInfo S) (barriers : List ℕ) : BarrierInfo S × List ℕ :=
  walkBarriers (fun info b => info.getConsumerSlotCount slots b ≤ availableSlots)
    (splitBarrierConsumers slots availableSlots) info barriers

end Split
end BarrierInfo

open BarrierInfo

/-- `SplitExceedingVariantCountBarriersPass::safeRunOnFunc`; `none` when a task by itself
takes too many slots. -/
def splitExceedingVariantCountBarriers (S : Type) [TaskSet S] (maxAvailableSlots : ℕ)
    (func : FuncOp) : Option FuncOp :=
  let availableSlots := maxAvailableSlots / 2
  if ∀ op ∈ func.tasks, getNumOfSlotsUsed op ≤ availableSlots then
    let slots := numSlotsUsed func
    let info : BarrierInfo S := buildBarrierMaps func
    let producersLegal := splitProducers slots availableSlots info (List.range info.numBarriers)
    let legal := splitConsumers slots availableSlots producersLegal.1 producersLegal.2
    some (legal.1.updateIR func)
  else none

namespace BarrierInfo

variable {S : Type} [TaskSet S]

section Walk

variable {isLegal : BarrierInfo S → ℕ → Bool} {split : BarrierInfo S → ℕ → BarrierInfo S}

/-- What a split of barrier `b` must do for the walk: keep `inv`, and make `good` the
replaced barrier and the new ones without touching the others. -/
structure SplitStep (inv : BarrierInfo S → Prop) (good : BarrierInfo S → ℕ → Prop)
    (info info' : BarrierInfo S) (b : ℕ) : Prop where
  inv : inv info'
  grows : info.numBarriers ≤ info'.numBarriers
  replaced : good info' b
  others : ∀ b' < info.numBarriers, b' ≠ b → good info b' → good info' b'
  new : ∀ b', info.numBarriers ≤ b' → b' < info'.numBarriers → good info' b'

/-- What a walk over `barriers` does: every barrier is good in the end, and the list it
returns has them all if `barriers` did. -/
structure Walked (inv : BarrierInfo S → Prop) (good : BarrierInfo S → ℕ → Prop)
    (info : BarrierInfo S) (barriers : List ℕ) (result : BarrierInfo S × List ℕ) : Prop where
  inv : inv result.1
  good : ∀ b < result.1.numBarriers, good result.1 b
  grows : info.numBarriers ≤ result.1.numBarriers
  listed_lt : ∀ b ∈ result.2, b < result.1.numBarriers
  listed : ∀ b < result.1.numBarriers, b ∈ result.2 ∨ b < info.numBarriers ∧ b ∉ barriers

theorem walkBarriers_spec {inv : BarrierInfo S → Prop} {good : BarrierInfo S → ℕ → Prop}
    (hlegal : ∀ info b, isLegal info b = true → good info b)
    (hsplit : ∀ info b, inv info → b < info.numBarriers → SplitStep inv good info (split info b) b)
    (info : BarrierInfo S) (hinv : inv info) (barriers : List ℕ)
    (hin : ∀ b ∈ barriers, b < info.numBarriers)
    (hdone : ∀ b < info.numBarriers, b ∉ barriers → good info b) :
    Walked inv good info barriers (walkBarriers isLegal split info barriers) := by
  induction barriers generalizing info with
  | nil =>
    exact ⟨hinv, fun b hb => hdone b hb List.not_mem_nil, le_rfl, by simp [walkBarriers],
      fun b hb => Or.inr ⟨hb, List.not_mem_nil⟩⟩
  | cons b barriers ih =>
    have hb := hin b List.mem_cons_self
    have hrest : ∀ b' ∈ barriers, b' < info.numBarriers :=
      fun b' hb' => hin b' (List.mem_cons_of_mem b hb')
    unfold walkBarriers
    by_cases h : isLegal info b = true
    · simp only [h, if_true]
      have hdone' : ∀ b' < info.numBarriers, b' ∉ barriers → good info b' := by
        intro b' hb' hn
        by_cases heq : b' = b
        · exact heq ▸ hlegal info b h
        · exact hdone b' hb' (List.not_mem_cons_of_ne_of_not_mem heq hn)
      have hwalk := ih info hinv hrest hdone'
      refine ⟨hwalk.inv, hwalk.good, hwalk.grows, fun b' hb' => ?_, fun b' hb' => ?_⟩
      · cases List.mem_cons.mp hb' with
        | inl heq => exact heq ▸ hb.trans_le hwalk.grows
        | inr hmem => exact hwalk.listed_lt b' hmem
      · have := hwalk.listed b' hb'
        simp only [List.mem_cons]
        tauto
    · simp only [h, Bool.false_eq_true, if_false]
      have hstep := hsplit info b hinv hb
      have hgrows := hstep.grows
      have hdone' : ∀ b' < (split info b).numBarriers, b' ∉ barriers → good (split info b) b' := by
        intro b' hb' hn
        by_cases heq : b' = b
        · exact heq ▸ hstep.replaced
        · by_cases hold : b' < info.numBarriers
          · exact hstep.others b' hold heq (hdone b' hold
              (List.not_mem_cons_of_ne_of_not_mem heq hn))
          · exact hstep.new b' (Nat.le_of_not_lt hold) hb'
      have hwalk := ih (split info b) hstep.inv (fun b' hb' => (hrest b' hb').trans_le hgrows)
          hdone'
      have hgrows' := hwalk.grows
      refine ⟨hwalk.inv, hwalk.good, hgrows.trans hgrows', fun b' hb' => ?_, fun b' hb' => ?_⟩
      · change b' < (walkBarriers isLegal split (split info b) barriers).1.numBarriers
        simp only [List.mem_append, List.mem_range'_1, List.mem_cons] at hb'
        rcases hb' with hnew | heq | hmem
        · omega
        · omega
        · exact hwalk.listed_lt b' hmem
      · simp only [List.mem_append, List.mem_range'_1, List.mem_cons]
        by_cases hold : b' < info.numBarriers
        · have := hwalk.listed b' hb'
          tauto
        · cases hwalk.listed b' hb' with
          | inl hmem => exact Or.inl (Or.inr (Or.inr hmem))
          | inr hlt => exact Or.inl (Or.inl (by omega))

end Walk

section Step

/-- Barrier `b` is given up for new barriers `(producers, consumers)`. -/
structure Splits (info info' : BarrierInfo S) (b : ℕ) (links : List (S × S)) : Prop where
  numTasks : info'.numTasks = info.numTasks
  numBarriers : info'.numBarriers = info.numBarriers + links.length
  updates : ∀ t b', info'.Updates t b' ↔ b' ≠ b ∧ (info.Updates t b' ∨
    ∃ j l, links[j]? = some l ∧ b' = info.numBarriers + j ∧ t ∈ toList l.1)
  waits : ∀ t b', info'.Waits t b' ↔ b' ≠ b ∧ (info.Waits t b' ∨
    ∃ j l, links[j]? = some l ∧ b' = info.numBarriers + j ∧ t ∈ toList l.2)

theorem extends_addBarriers (info : BarrierInfo S) (links : List (S × S)) :
    Extends info (links.foldl (fun info l => info.addBarrier l.1 l.2) info) links := by
  induction links generalizing info with
  | nil => exact .refl info
  | cons l links ih => exact (extends_addLink info l.1 l.2).trans (ih _)

theorem splits_resetBarrier (info : BarrierInfo S) (links : List (S × S)) (b : ℕ) :
    Splits info ((links.foldl (fun info l => info.addBarrier l.1 l.2) info).resetBarrier b) b links
      where
  numTasks := (extends_addBarriers info links).numTasks
  numBarriers := (extends_addBarriers info links).numBarriers
  updates t b' := by rw [updates_resetBarrier, (extends_addBarriers info links).updates]
  waits t b' := by rw [waits_resetBarrier, (extends_addBarriers info links).waits]

variable {info info' : BarrierInfo S} {b : ℕ} {links : List (S × S)}

namespace Splits

section

variable (h : Splits info info' b links)
include h

theorem updates_old {b' : ℕ} (hb' : b' < info.numBarriers) (t : ℕ) :
    info'.Updates t b' ↔ b' ≠ b ∧ info.Updates t b' := by
  rw [h.updates, or_iff_left]
  rintro ⟨j, l, -, rfl, -⟩
  omega

theorem waits_old {b' : ℕ} (hb' : b' < info.numBarriers) (t : ℕ) :
    info'.Waits t b' ↔ b' ≠ b ∧ info.Waits t b' := by
  rw [h.waits, or_iff_left]
  rintro ⟨j, l, -, rfl, -⟩
  omega

theorem new (hr : info.InRange) (hb : b < info.numBarriers) {b' : ℕ} (hge : info.numBarriers ≤ b')
    (hlt : b' < info'.numBarriers) :
    ∃ l ∈ links, (∀ t, info'.Updates t b' ↔ t ∈ toList l.1) ∧
      ∀ t, info'.Waits t b' ↔ t ∈ toList l.2 := by
  obtain ⟨j, rfl⟩ := Nat.exists_eq_add_of_le hge
  have hj : j < links.length := by
    have := h.numBarriers
    omega
  have hne : info.numBarriers + j ≠ b := by omega
  refine ⟨links[j], List.getElem_mem hj, fun t => ?_, fun t => ?_⟩
  · have hold : ¬ info.Updates t (info.numBarriers + j) := by
      intro hu
      have := (hr.updates t _ hu).2
      omega
    rw [h.updates, or_iff_right hold, exists_link_at_iff hj fun l => t ∈ toList l.1]
    exact and_iff_right hne
  · have hold : ¬ info.Waits t (info.numBarriers + j) := by
      intro hw
      have := (hr.waits t _ hw).2
      omega
    rw [h.waits, or_iff_right hold, exists_link_at_iff hj fun l => t ∈ toList l.2]
    exact and_iff_right hne

end

/-- The links stay within the barrier and connect each of its producers to each consumer. -/
structure Partitions (info : BarrierInfo S) (b : ℕ) (links : List (S × S)) : Prop where
  producers : ∀ l ∈ links, ∀ t ∈ toList l.1, info.Updates t b
  consumers : ∀ l ∈ links, ∀ t ∈ toList l.2, info.Waits t b
  covers : ∀ p c, info.Updates p b → info.Waits c b → ∃ l ∈ links, p ∈ toList l.1 ∧ c ∈ toList l.2

variable (h : Splits info info' b links) (hp : Partitions info b links) (hr : info.InRange)
include h hp hr

theorem inRange : info'.InRange := by
  have hnum := h.numBarriers
  have hlen : ∀ {j l}, links[j]? = some l → info.numBarriers + j < info'.numBarriers := by
    intro j l hl
    have := (List.getElem?_eq_some_iff.mp hl).1
    omega
  constructor
  · intro t b' hu
    rw [h.numTasks]
    obtain ⟨-, hold | ⟨j, l, hl, rfl, ht⟩⟩ := (h.updates t b').mp hu
    · have := hr.updates t b' hold
      omega
    · have hb := hp.producers l (List.mem_of_getElem? hl) t ht
      exact ⟨(hr.updates t b hb).1, hlen hl⟩
  · intro t b' hw
    rw [h.numTasks]
    obtain ⟨-, hold | ⟨j, l, hl, rfl, ht⟩⟩ := (h.waits t b').mp hw
    · have := hr.waits t b' hold
      omega
    · have hb := hp.consumers l (List.mem_of_getElem? hl) t ht
      exact ⟨(hr.waits t b hb).1, hlen hl⟩

theorem drives (hb : b < info.numBarriers) (p c : ℕ) : info'.Drives p c ↔ info.Drives p c := by
  constructor
  · rintro ⟨b', hu, hw⟩
    by_cases hold : b' < info.numBarriers
    · exact ⟨b', ((h.updates_old hold p).mp hu).2, ((h.waits_old hold c).mp hw).2⟩
    · have hlt := ((h.inRange hp hr).updates p b' hu).2
      obtain ⟨l, hl, hlu, hlw⟩ := h.new hr hb (Nat.le_of_not_lt hold) hlt
      exact ⟨b, hp.producers l hl p ((hlu p).mp hu), hp.consumers l hl c ((hlw c).mp hw)⟩
  · rintro ⟨b', hu, hw⟩
    by_cases heq : b' = b
    · rw [heq] at hu hw
      obtain ⟨l, hl, hlp, hlc⟩ := hp.covers p c hu hw
      obtain ⟨j, hj⟩ := List.getElem?_of_mem hl
      have hne : info.numBarriers + j ≠ b := by omega
      exact ⟨info.numBarriers + j, (h.updates p _).mpr ⟨hne, Or.inr ⟨j, l, hj, rfl, hlp⟩⟩,
        (h.waits c _).mpr ⟨hne, Or.inr ⟨j, l, hj, rfl, hlc⟩⟩⟩
    · exact ⟨b', (h.updates p b').mpr ⟨heq, Or.inl hu⟩, (h.waits c b').mpr ⟨heq, Or.inl hw⟩⟩

end Splits

section Batches

variable {slots : ℕ → ℕ} {availableSlots : ℕ} {batches : List S}

theorem partitions_producerBatches
    (h : LegalBatches slots availableSlots (toList (info.getBarrierProducers b)) batches) :
    Splits.Partitions info b (batches.map fun batch => (batch, info.getBarrierConsumers b)) where
  producers l hl t ht := by
    obtain ⟨batch, hbatch, rfl⟩ := List.mem_map.mp hl
    exact (info.mem_getBarrierProducers b t).mp ((h.mem_iff t).mp ⟨batch, hbatch, ht⟩)
  consumers l hl t ht := by
    obtain ⟨batch, hbatch, rfl⟩ := List.mem_map.mp hl
    exact (info.mem_getBarrierConsumers b t).mp ht
  covers p c hu hw := by
    obtain ⟨batch, hbatch, hp⟩ := (h.mem_iff p).mpr ((info.mem_getBarrierProducers b p).mpr hu)
    exact ⟨_, List.mem_map_of_mem hbatch, hp, (info.mem_getBarrierConsumers b c).mpr hw⟩

theorem partitions_consumerBatches
    (h : LegalBatches slots availableSlots (toList (info.getBarrierConsumers b)) batches) :
    Splits.Partitions info b (batches.map fun batch => (info.getBarrierProducers b, batch)) where
  producers l hl t ht := by
    obtain ⟨batch, hbatch, rfl⟩ := List.mem_map.mp hl
    exact (info.mem_getBarrierProducers b t).mp ht
  consumers l hl t ht := by
    obtain ⟨batch, hbatch, rfl⟩ := List.mem_map.mp hl
    exact (info.mem_getBarrierConsumers b t).mp ((h.mem_iff t).mp ⟨batch, hbatch, ht⟩)
  covers p c hu hw := by
    obtain ⟨batch, hbatch, hc⟩ := (h.mem_iff c).mpr ((info.mem_getBarrierConsumers b c).mpr hw)
    exact ⟨_, List.mem_map_of_mem hbatch, (info.mem_getBarrierProducers b p).mpr hu, hc⟩

theorem splits_splitBarrierProducers (slots : ℕ → ℕ) (availableSlots : ℕ) (info : BarrierInfo S)
    (b : ℕ) : Splits info (info.splitBarrierProducers slots availableSlots b) b
      ((createLegalVariantBatches slots availableSlots (info.getBarrierProducers b)).map
        fun batch => (batch, info.getBarrierConsumers b)) := by
  have h := splits_resetBarrier info
    ((createLegalVariantBatches slots availableSlots (info.getBarrierProducers b)).map
      fun batch => (batch, info.getBarrierConsumers b)) b
  rwa [List.foldl_map] at h

theorem splits_splitBarrierConsumers (slots : ℕ → ℕ) (availableSlots : ℕ) (info : BarrierInfo S)
    (b : ℕ) : Splits info (info.splitBarrierConsumers slots availableSlots b) b
      ((createLegalVariantBatches slots availableSlots (info.getBarrierConsumers b)).map
        fun batch => (info.getBarrierProducers b, batch)) := by
  have h := splits_resetBarrier info
    ((createLegalVariantBatches slots availableSlots (info.getBarrierConsumers b)).map
      fun batch => (info.getBarrierProducers b, batch)) b
  rwa [List.foldl_map] at h

structure Resynchronized (info₀ info : BarrierInfo S) : Prop where
  inRange : info.InRange
  numTasks : info.numTasks = info₀.numTasks
  drives : ∀ p c, info.Drives p c ↔ info₀.Drives p c

variable {info₀ : BarrierInfo S}

theorem Resynchronized.splits (h : Resynchronized info₀ info) (hs : Splits info info' b links)
    (hp : Splits.Partitions info b links) (hb : b < info.numBarriers) :
    Resynchronized info₀ info' where
  inRange := hs.inRange hp h.inRange
  numTasks := hs.numTasks.trans h.numTasks
  drives p c := (hs.drives hp h.inRange hb p c).trans (h.drives p c)

section

variable (hs : Splits info info' b links)
include hs

theorem Splits.producerSlotCount_old {b' : ℕ} (hb' : b' < info.numBarriers) :
    info'.getProducerSlotCount slots b' ≤ info.getProducerSlotCount slots b' := by
  apply slotCount_mono
  intro t ht
  rw [mem_getBarrierProducers] at ht ⊢
  exact ((hs.updates_old hb' t).mp ht).2

theorem Splits.consumerSlotCount_old {b' : ℕ} (hb' : b' < info.numBarriers) :
    info'.getConsumerSlotCount slots b' ≤ info.getConsumerSlotCount slots b' := by
  apply slotCount_mono
  intro t ht
  rw [mem_getBarrierConsumers] at ht ⊢
  exact ((hs.waits_old hb' t).mp ht).2

theorem Splits.slotCount_replaced :
    info'.getProducerSlotCount slots b = 0 ∧ info'.getConsumerSlotCount slots b = 0 := by
  have hproducers : slotCount slots (info'.getBarrierProducers b) ≤
      (([] : List ℕ).map slots).sum := by
    apply slotCount_le_sum
    intro t ht
    exact absurd rfl ((hs.updates t b).mp ((info'.mem_getBarrierProducers b t).mp ht)).1
  have hconsumers : slotCount slots (info'.getBarrierConsumers b) ≤
      (([] : List ℕ).map slots).sum := by
    apply slotCount_le_sum
    intro t ht
    exact absurd rfl ((hs.waits t b).mp ((info'.mem_getBarrierConsumers b t).mp ht)).1
  exact ⟨Nat.le_zero.mp hproducers, Nat.le_zero.mp hconsumers⟩

end

variable (slots) in
theorem Splits.slotCount_new (hs : Splits info info' b links) (hr : info.InRange)
    (hb : b < info.numBarriers) {b' : ℕ} (hge : info.numBarriers ≤ b')
      (hlt : b' < info'.numBarriers) :
    ∃ l ∈ links, info'.getProducerSlotCount slots b' ≤ slotCount slots l.1 ∧
      info'.getConsumerSlotCount slots b' ≤ slotCount slots l.2 := by
  obtain ⟨l, hl, hu, hw⟩ := hs.new hr hb hge hlt
  refine ⟨l, hl, slotCount_mono slots fun t ht => ?_, slotCount_mono slots fun t ht => ?_⟩
  · exact (hu t).mp ((info'.mem_getBarrierProducers b' t).mp ht)
  · exact (hw t).mp ((info'.mem_getBarrierConsumers b' t).mp ht)

variable (hslots : ∀ t, slots t ≤ availableSlots)
include hslots

theorem splitStep_producers (hinv : Resynchronized info₀ info) (hb : b < info.numBarriers) :
    SplitStep (Resynchronized info₀) (fun info b => info.getProducerSlotCount slots b ≤
      availableSlots)
      info (info.splitBarrierProducers slots availableSlots b) b := by
  have hlegal := legalBatches_createLegalVariantBatches (info.getBarrierProducers b)
    fun t _ => hslots t
  have hs := splits_splitBarrierProducers slots availableSlots info b
  refine ⟨hinv.splits hs (partitions_producerBatches hlegal) hb, ?_, ?_, ?_, ?_⟩
  · rw [hs.numBarriers]
    exact Nat.le_add_right _ _
  · rw [hs.slotCount_replaced.1]
    exact Nat.zero_le _
  · exact fun b' hb' _ h => (hs.producerSlotCount_old hb').trans h
  · intro b' hge hlt
    obtain ⟨l, hl, hle, -⟩ := hs.slotCount_new slots hinv.inRange hb hge hlt
    obtain ⟨batch, hbatch, rfl⟩ := List.mem_map.mp hl
    exact hle.trans (hlegal.fits batch hbatch)

theorem splitStep_consumers (hinv : Resynchronized info₀ info)
    (hproducers : ∀ b < info.numBarriers, info.getProducerSlotCount slots b ≤ availableSlots)
    (hb : b < info.numBarriers) :
    SplitStep (fun info => Resynchronized info₀ info ∧
        ∀ b < info.numBarriers, info.getProducerSlotCount slots b ≤ availableSlots)
      (fun info b => info.getConsumerSlotCount slots b ≤ availableSlots)
      info (info.splitBarrierConsumers slots availableSlots b) b := by
  have hlegal := legalBatches_createLegalVariantBatches (info.getBarrierConsumers b)
    fun t _ => hslots t
  have hs := splits_splitBarrierConsumers slots availableSlots info b
  refine ⟨⟨hinv.splits hs (partitions_consumerBatches hlegal) hb, fun b' hb' => ?_⟩, ?_, ?_, ?_, ?_⟩
  · by_cases hold : b' < info.numBarriers
    · exact (hs.producerSlotCount_old hold).trans (hproducers b' hold)
    · obtain ⟨l, hl, hle, -⟩ :=
        hs.slotCount_new slots hinv.inRange hb (Nat.le_of_not_lt hold) hb'
      obtain ⟨batch, hbatch, rfl⟩ := List.mem_map.mp hl
      exact hle.trans (hproducers b hb)
  · rw [hs.numBarriers]
    exact Nat.le_add_right _ _
  · rw [hs.slotCount_replaced.2]
    exact Nat.zero_le _
  · exact fun b' hb' _ h => (hs.consumerSlotCount_old hb').trans h
  · intro b' hge hlt
    obtain ⟨l, hl, -, hle⟩ := hs.slotCount_new slots hinv.inRange hb hge hlt
    obtain ⟨batch, hbatch, rfl⟩ := List.mem_map.mp hl
    exact hle.trans (hlegal.fits batch hbatch)

theorem splitProducers_spec (info : BarrierInfo S) (hr : info.InRange) :
    Walked (Resynchronized info) (fun info b => info.getProducerSlotCount slots b ≤ availableSlots)
      info (List.range info.numBarriers)
      (splitProducers slots availableSlots info (List.range info.numBarriers)) := by
  apply walkBarriers_spec
  · exact fun info b h => of_decide_eq_true h
  · exact fun info b hinv hb => splitStep_producers hslots hinv hb
  · exact ⟨hr, rfl, fun _ _ => Iff.rfl⟩
  · exact fun b hb => List.mem_range.mp hb
  · exact fun b hb hn => absurd (List.mem_range.mpr hb) hn

theorem splitConsumers_spec {info₀ info : BarrierInfo S} (hinv : Resynchronized info₀ info)
    (hproducers : ∀ b < info.numBarriers, info.getProducerSlotCount slots b ≤ availableSlots)
    {barriers : List ℕ} (hlt : ∀ b ∈ barriers, b < info.numBarriers)
    (hall : ∀ b < info.numBarriers, b ∈ barriers) :
    Walked (fun info => Resynchronized info₀ info ∧
        ∀ b < info.numBarriers, info.getProducerSlotCount slots b ≤ availableSlots)
      (fun info b => info.getConsumerSlotCount slots b ≤ availableSlots)
      info barriers (splitConsumers slots availableSlots info barriers) := by
  apply walkBarriers_spec
  · exact fun info b h => of_decide_eq_true h
  · exact fun info b hinv hb => splitStep_consumers hslots hinv.1 hinv.2 hb
  · exact ⟨hinv, hproducers⟩
  · exact hlt
  · exact fun b hb hn => absurd (hall b hb) hn

end Batches
end Step

end BarrierInfo

/-- The pass legalizes all barriers and keeps which tasks drive which. -/
theorem splitExceedingVariantCountBarriers_legal (S : Type) [TaskSet S] (maxVariantCount : ℕ)
    (func : FuncOp) (hw : func.WellFormed)
    (hslots : ∀ op ∈ func.tasks, getNumOfSlotsUsed op ≤ maxVariantCount / 2) :
    ∃ func', splitExceedingVariantCountBarriers S maxVariantCount func = some func' ∧
      (∀ b, func'.producerSlots b ≤ maxVariantCount / 2 ∧ func'.consumerSlots b ≤
        maxVariantCount / 2) ∧
      ∀ p c, VPURT.Drives func'.Updates func'.Waits p c ↔
        VPURT.Drives func.Updates func.Waits p c := by
  have hr : (buildBarrierMaps func : BarrierInfo S).InRange := inRange_buildBarrierMaps func hw
  have hfirst := splitProducers_spec (numSlotsUsed_le hslots)
      (buildBarrierMaps func : BarrierInfo S) hr
  have hlisted := fun b hb => (hfirst.listed b hb).resolve_right
    fun h => h.2 (List.mem_range.mpr h.1)
  have hsecond := splitConsumers_spec (numSlotsUsed_le hslots) hfirst.inv hfirst.good
    hfirst.listed_lt hlisted
  obtain ⟨hsync, hproducers⟩ := hsecond.inv
  have hn := hsync.numTasks.trans (numTasks_buildBarrierMaps func)
  refine ⟨_, if_pos hslots, LegalSlots.slotsAt_le ⟨hsync.inRange, fun b hb => ?_⟩
    (fun t b => updates_updateIR _ t b func hsync.inRange hn)
    (fun t b => waits_updateIR _ t b func hsync.inRange hn), fun p c => ?_⟩
  · rw [numSlotsUsed_updateIR]
    exact ⟨hproducers b hb, hsecond.good b hb⟩
  calc VPURT.Drives (FuncOp.Updates _) (FuncOp.Waits _) p c
      ↔ BarrierInfo.Drives _ p c := exists_congr fun b => and_congr
        (updates_updateIR _ p b func hsync.inRange hn) (waits_updateIR _ c b func hsync.inRange hn)
    _ ↔ (buildBarrierMaps func : BarrierInfo S).Drives p c := hsync.drives p c
    _ ↔ VPURT.Drives func.Updates func.Waits p c := exists_congr fun b => and_congr
        (updates_buildBarrierMaps p b func) (waits_buildBarrierMaps c b func)

/-- Three producers and three consumers share one barrier. -/
def crowded : FuncOp where
  numBarriers := 1
  tasks := [⟨.upa, [], [0]⟩, ⟨.nce ⟨2, Nat.two_pos⟩ 0, [], [0]⟩, ⟨.upa, [], [0]⟩,
    ⟨.upa, [0], []⟩, ⟨.upa, [0], []⟩, ⟨.act 2, [0], []⟩]

theorem splitExceedingVariantCountBarriers_legal_crowded :
    ∃ func', splitExceedingVariantCountBarriers (SmallSet 16) 5 crowded = some func' ∧
      (∀ b, func'.producerSlots b ≤ 2 ∧ func'.consumerSlots b ≤ 2) ∧
      ∀ p c, VPURT.Drives func'.Updates func'.Waits p c ↔
        VPURT.Drives crowded.Updates crowded.Waits p c :=
  splitExceedingVariantCountBarriers_legal (SmallSet 16) 5 crowded (by decide) (by decide)

/-- Three producer batches, each connected to two consumer batches. -/
example : (splitExceedingVariantCountBarriers (SmallSet 16) 5 crowded).map
    (fun func => func.tasks.map (·.updateBarriers.length)) = some [2, 2, 2, 0, 0, 0] := by decide

end Vpux.Barrier
