import Vpux.Barrier.OneWaitRun

/-! The slots of a barrier: each user takes some, and half of them are for producers. -/
namespace Vpux

namespace Data.TaskSet

variable {S : Type} [TaskSet S] (slots : ℕ → ℕ)

def slotCount (s : S) : ℕ := ((toList s).map slots).sum

theorem slotCount_le_sum {s : S} {l : List ℕ} (hsub : ∀ x ∈ toList s, x ∈ l) :
    slotCount slots s ≤ (l.map slots).sum := by
  obtain ⟨l', hperm, hsl⟩ := List.subperm_of_subset (nodup_toList s) hsub
  calc slotCount slots s
      = (l'.map slots).sum := ((hperm.map slots).sum_eq).symm
    _ ≤ (l.map slots).sum := (hsl.map slots).sum_le_sum (by simp)

theorem slotCount_mono {s s' : S} (hsub : ∀ x ∈ toList s, x ∈ toList s') :
    slotCount slots s ≤ slotCount slots s' :=
  slotCount_le_sum slots hsub

theorem slotCount_singleton (t : ℕ) : slotCount slots (insert (empty : S) t) = slots t := by
  simp [slotCount, Barrier.toList_singleton]

end Data.TaskSet

namespace VPURT.FuncOp

/-- The slots at barrier `b` of the tasks that have it among the given operands. -/
def slotsAt (operands : TaskOp → List ℕ) (func : FuncOp) (b : ℕ) : ℕ :=
  ((func.tasks.filter fun op => b ∈ operands op).map getNumOfSlotsUsed).sum

def producerSlots (func : FuncOp) (b : ℕ) : ℕ := slotsAt (·.updateBarriers) func b

def consumerSlots (func : FuncOp) (b : ℕ) : ℕ := slotsAt (·.waitBarriers) func b

end VPURT.FuncOp

namespace Barrier
open Data Data.TaskSet VPURT BarrierInfo

variable {S : Type} [TaskSet S]

theorem sum_filter_tasks (tasks : List TaskOp) (p : TaskOp → Bool) (g : TaskOp → ℕ) :
    ((tasks.filter p).map g).sum =
      (((List.range tasks.length).filter fun t => (tasks[t]?).any p).map
        fun t => ((tasks[t]?).map g).getD 0).sum := by
  induction tasks with
  | nil => rfl
  | cons op tasks ih =>
    have hrest : ∀ t : ℕ, (op :: tasks)[t + 1]? = tasks[t]? := fun _ => List.getElem?_cons_succ
    rw [List.length_cons, List.range_succ_eq_map, List.filter_cons, List.filter_cons,
      List.filter_map]
    cases hp : p op with
    | true => simp [hp, ih, Function.comp_def, hrest]
    | false => simp [hp, ih, Function.comp_def, hrest]

theorem slotsAt_eq (operands : TaskOp → List ℕ) (func : FuncOp) (b : ℕ) {s : S}
    (hs : ∀ t, t ∈ toList s ↔ ∃ op, func.tasks[t]? = some op ∧ b ∈ operands op) :
    func.slotsAt operands b = slotCount (numSlotsUsed func) s := by
  have hmem : ∀ t, t ∈ (List.range func.tasks.length).filter
      (fun t => (func.tasks[t]?).any fun op => b ∈ operands op) ↔ t ∈ toList s := by
    intro t
    rw [hs, List.mem_filter, List.mem_range]
    constructor
    · rintro ⟨ht, hany⟩
      rw [List.getElem?_eq_getElem ht] at hany ⊢
      exact ⟨_, rfl, by simpa using hany⟩
    · rintro ⟨op, hop, hb⟩
      refine ⟨(List.getElem?_eq_some_iff.mp hop).1, ?_⟩
      simpa [hop] using hb
  have hperm := (List.perm_ext_iff_of_nodup (List.nodup_range.filter _) (nodup_toList s)).mpr hmem
  rw [FuncOp.slotsAt, sum_filter_tasks]
  exact (hperm.map _).sum_eq

theorem producerSlots_eq (func : FuncOp) (b : ℕ) {s : S}
    (hs : ∀ t, t ∈ toList s ↔ func.Updates t b) :
    func.producerSlots b = slotCount (numSlotsUsed func) s :=
  slotsAt_eq _ func b hs

theorem consumerSlots_eq (func : FuncOp) (b : ℕ) {s : S}
    (hs : ∀ t, t ∈ toList s ↔ func.Waits t b) :
    func.consumerSlots b = slotCount (numSlotsUsed func) s :=
  slotsAt_eq _ func b hs

variable {func : FuncOp}

theorem numSlotsUsed_le {availableSlots : ℕ}
    (h : ∀ op ∈ func.tasks, getNumOfSlotsUsed op ≤ availableSlots) (t : ℕ) :
    numSlotsUsed func t ≤ availableSlots := by
  unfold numSlotsUsed
  cases hop : func.tasks[t]? with
  | none => exact Nat.zero_le _
  | some op => exact h op (List.mem_of_getElem? hop)

namespace BarrierInfo

@[simp] theorem numSlotsUsed_updateIR (info : BarrierInfo S) (func : FuncOp) :
    numSlotsUsed (info.updateIR func) = numSlotsUsed func := by
  funext t
  unfold numSlotsUsed updateIR
  rw [List.getElem?_mapIdx]
  cases func.tasks[t]? <;> rfl

section Counts

variable (slots : ℕ → ℕ) (availableSlots : ℕ) (info : BarrierInfo S) (b : ℕ)

def getProducerSlotCount : ℕ := slotCount slots (info.getBarrierProducers b)

def getConsumerSlotCount : ℕ := slotCount slots (info.getBarrierConsumers b)

structure SlotsWithin : Prop where
  producers : info.getProducerSlotCount slots b ≤ availableSlots
  consumers : info.getConsumerSlotCount slots b ≤ availableSlots

theorem slotsWithin_of_subset {l : S × S} (hproducers : slotCount slots l.1 ≤ availableSlots)
    (hconsumers : slotCount slots l.2 ≤ availableSlots)
    (hu : ∀ t, info.Updates t b → t ∈ toList l.1) (hw : ∀ t, info.Waits t b → t ∈ toList l.2) :
    info.SlotsWithin slots availableSlots b where
  producers := (slotCount_mono slots fun t ht =>
    hu t ((info.mem_getBarrierProducers b t).mp ht)).trans hproducers
  consumers := (slotCount_mono slots fun t ht =>
    hw t ((info.mem_getBarrierConsumers b t).mp ht)).trans hconsumers

structure LegalSlots : Prop where
  inRange : info.InRange
  within : ∀ b < info.numBarriers, info.SlotsWithin slots availableSlots b

variable {slots availableSlots info}

theorem LegalSlots.slotsWithin (h : info.LegalSlots slots availableSlots) (b : ℕ) :
    info.SlotsWithin slots availableSlots b := by
  by_cases hb : b < info.numBarriers
  · exact h.within b hb
  · apply slotsWithin_of_subset (l := ((empty : S), (empty : S)))
    · simp [slotCount]
    · simp [slotCount]
    · exact fun t hu => absurd (h.inRange.updates t b hu).2 hb
    · exact fun t hw => absurd (h.inRange.waits t b hw).2 hb

theorem LegalSlots.slotsAt_le (h : info.LegalSlots (numSlotsUsed func) availableSlots)
    (hu : ∀ t b, func.Updates t b ↔ info.Updates t b) (hw : ∀ t b, func.Waits t b ↔ info.Waits t b)
    (b : ℕ) : func.producerSlots b ≤ availableSlots ∧ func.consumerSlots b ≤ availableSlots := by
  have hproducers := producerSlots_eq func b (s := info.getBarrierProducers b)
    fun t => (info.mem_getBarrierProducers b t).trans (hu t b).symm
  have hconsumers := consumerSlots_eq func b (s := info.getBarrierConsumers b)
    fun t => (info.mem_getBarrierConsumers b t).trans (hw t b).symm
  rw [hproducers, hconsumers]
  exact ⟨(h.slotsWithin b).producers, (h.slotsWithin b).consumers⟩

theorem legalSlots_buildBarrierMaps (hwf : func.WellFormed) (h : ∀ b < func.numBarriers,
      func.producerSlots b ≤ availableSlots ∧ func.consumerSlots b ≤ availableSlots) :
    (buildBarrierMaps func : BarrierInfo S).LegalSlots (numSlotsUsed func) availableSlots where
  inRange := inRange_buildBarrierMaps func hwf
  within b hb := by
    rw [numBarriers_buildBarrierMaps] at hb
    have hproducers := producerSlots_eq func b (s := (buildBarrierMaps func).getBarrierProducers b)
      fun t => (mem_getBarrierProducers (S := S) _ b t).trans (updates_buildBarrierMaps t b func)
    have hconsumers := consumerSlots_eq func b (s := (buildBarrierMaps func).getBarrierConsumers b)
      fun t => (mem_getBarrierConsumers (S := S) _ b t).trans (waits_buildBarrierMaps t b func)
    exact ⟨hproducers.symm.trans_le (h b hb).1, hconsumers.symm.trans_le (h b hb).2⟩

end Counts

section Batches

variable {slots : ℕ → ℕ} {availableSlots : ℕ}

theorem fits_of_mem_pack {ι : Type} {fits : List ι → Bool} {cur xs g : List ι}
    (hcur : fits cur = true)
    (hone : ∀ x ∈ xs, fits [x] = true) (hg : g ∈ pack fits cur xs) : fits g = true := by
  induction xs generalizing cur with
  | nil =>
    rw [pack, List.mem_singleton] at hg
    exact hg ▸ hcur
  | cons x xs ih =>
    have hrest : ∀ y ∈ xs, fits [y] = true := fun y hy => hone y (List.mem_cons_of_mem x hy)
    unfold pack at hg
    split_ifs at hg with hfit
    · exact ih hfit hrest hg
    · cases List.mem_cons.mp hg with
      | inl h => exact h ▸ hcur
      | inr h => exact ih (hone x List.mem_cons_self) hrest h

/-- Batches of the tasks in `s`: together they hold these tasks, and each one fits. -/
structure LegalBatches (slots : ℕ → ℕ) (availableSlots : ℕ) (tasks : List ℕ) (batches : List S) :
    Prop where
  mem_iff : ∀ t, (∃ batch ∈ batches, t ∈ toList batch) ↔ t ∈ tasks
  fits : ∀ batch ∈ batches, slotCount slots batch ≤ availableSlots

theorem legalBatches_of_pack {tasks : List ℕ} {batches : List S}
    (hslots : ∀ t ∈ tasks, slots t ≤ availableSlots)
    (hall : List.Forall₂ (fun (s : S) g => ∀ x, x ∈ toList s ↔ x ∈ g) batches
      (pack (tasksFit slots availableSlots) [] tasks)) :
    LegalBatches slots availableSlots tasks batches where
  mem_iff t := by
    rw [exists_mem_iff_of_forall₂ (fun s g hs => hs t) hall, ← List.mem_flatten, flatten_pack,
      List.nil_append]
  fits batch hbatch := by
    obtain ⟨g, hg, hmem⟩ := exists_rel_of_mem hall hbatch
    have hfit : tasksFit slots availableSlots g = true :=
      fits_of_mem_pack (by simp [tasksFit]) (fun t ht => by simpa [tasksFit] using hslots t ht) hg
    calc slotCount slots batch
        ≤ (g.map slots).sum := slotCount_le_sum slots fun t => (hmem t).mp
      _ ≤ availableSlots := by simpa [tasksFit] using hfit

theorem legalBatches_createLegalVariantBatches (tasks : S)
    (hslots : ∀ t ∈ toList tasks, slots t ≤ availableSlots) :
    LegalBatches slots availableSlots (toList tasks)
      (createLegalVariantBatches slots availableSlots tasks) := by
  obtain ⟨batches, heq, hall⟩ := createLegalVariantBatchesFrom_spec slots availableSlots []
    (empty : S) [] ((toList tasks).insertionSort (· ≤ ·)) (by simp)
  have hbatches : createLegalVariantBatches slots availableSlots tasks = batches := heq
  have hlegal := legalBatches_of_pack (by simpa using hslots) hall
  rw [hbatches]
  exact ⟨fun t => (hlegal.mem_iff t).trans (List.mem_insertionSort _), hlegal.fits⟩

end Batches
end BarrierInfo
end Barrier
end Vpux

-- `SatisfyOneWaitBarrierPerTask` and the slots: the barriers it adds are legal when the given ones
-- and the single tasks are.
namespace Vpux.Barrier
open Data Data.TaskSet VPURT

namespace BarrierInfo

variable {S : Type} [TaskSet S] {slots : ℕ → ℕ} {availableSlots : ℕ} {info info' : BarrierInfo S}

structure LegalLink (slots : ℕ → ℕ) (availableSlots : ℕ) (info : BarrierInfo S) (l : S × S) :
    Prop where
  producers : slotCount slots l.1 ≤ availableSlots
  consumers : slotCount slots l.2 ≤ availableSlots
  lt_numTasks : ∀ t, t ∈ toList l.1 ∨ t ∈ toList l.2 → t < info.numTasks

section

variable (h : info.LegalSlots slots availableSlots)
include h

theorem LegalSlots.extends {links : List (S × S)} (he : Extends info info' links)
    (hl : ∀ l ∈ links, LegalLink slots availableSlots info l) :
    info'.LegalSlots slots availableSlots := by
  have hnum := he.numBarriers
  have hlt : ∀ {j l}, links[j]? = some l → info.numBarriers + j < info'.numBarriers := by
    intro j l hj
    have := (List.getElem?_eq_some_iff.mp hj).1
    omega
  constructor
  · constructor
    · intro t b hu
      rw [he.numTasks]
      obtain hold | ⟨j, l, hj, rfl, ht⟩ := (he.updates t b).mp hu
      · have := h.inRange.updates t b hold
        omega
      · exact ⟨(hl l (List.mem_of_getElem? hj)).lt_numTasks t (Or.inl ht), hlt hj⟩
    · intro t b hw
      rw [he.numTasks]
      obtain hold | ⟨j, l, hj, rfl, ht⟩ := (he.waits t b).mp hw
      · have := h.inRange.waits t b hold
        omega
      · exact ⟨(hl l (List.mem_of_getElem? hj)).lt_numTasks t (Or.inr ht), hlt hj⟩
  · intro b hb
    by_cases hold : b < info.numBarriers
    · -- the sets of an old barrier are the same
      apply slotsWithin_of_subset slots availableSlots info' b
        (l := (info.getBarrierProducers b, info.getBarrierConsumers b))
        (h.within b hold).producers (h.within b hold).consumers
      · intro t hu
        obtain hu | ⟨j, l, -, rfl, -⟩ := (he.updates t b).mp hu
        · exact (info.mem_getBarrierProducers b t).mpr hu
        · omega
      · intro t hw
        obtain hw | ⟨j, l, -, rfl, -⟩ := (he.waits t b).mp hw
        · exact (info.mem_getBarrierConsumers b t).mpr hw
        · omega
    · obtain ⟨j, rfl⟩ := Nat.exists_eq_add_of_le (Nat.le_of_not_lt hold)
      have hj : j < links.length := by omega
      have hlegal := hl links[j] (List.getElem_mem hj)
      apply slotsWithin_of_subset slots availableSlots info' _ hlegal.producers hlegal.consumers
      · exact fun t => (he.updates_new h.inRange hj t).mp
      · exact fun t => (he.waits_new h.inRange hj t).mp

theorem LegalSlots.unlinks {t : ℕ} {bars : List ℕ} (hu : Unlinks info info' t bars) :
    info'.LegalSlots slots availableSlots := by
  constructor
  · constructor
    · intro a b hab
      rw [hu.numTasks, hu.numBarriers]
      exact h.inRange.updates a b (hu.updates a b hab)
    · intro c b hcb
      rw [hu.numTasks, hu.numBarriers]
      exact h.inRange.waits c b ((hu.waits c b).mp hcb).1
  · intro b hb
    rw [hu.numBarriers] at hb
    apply slotsWithin_of_subset slots availableSlots info' b
      (l := (info.getBarrierProducers b, info.getBarrierConsumers b))
      (h.within b hb).producers (h.within b hb).consumers
    · exact fun a hab => (info.mem_getBarrierProducers b a).mpr (hu.updates a b hab)
    · exact fun c hcb => (info.mem_getBarrierConsumers b c).mpr ((hu.waits c b).mp hcb).1

/-- Every batch fits: the united producers by the test, the fallback because single tasks
fit, and the batches of whole barriers because single barriers do. -/
theorem LegalSlots.batchesFor (hslots : ∀ t, slots t ≤ availableSlots) {t : ℕ} {batches : List S}
    (hb : batchesFor slots availableSlots info t = some batches) :
    ∀ s ∈ batches, slotCount slots s ≤ availableSlots := by
  cases batchesFor_cases slots availableSlots hb with
  | merged hfit =>
    intro s hs
    obtain rfl := List.mem_singleton.mp hs
    exact (canMergeBarriersForTasks_iff slots availableSlots _).mp hfit
  | refused hfit horder hall => exact (legalBatches_of_pack (fun t _ => hslots t) hall).fits
  | accepted hfit horder hall =>
    intro s hs
    have hone : ∀ b ∈ toList (info.getWaitBarriers t), barriersFit slots availableSlots info [b] =
        true := by
      intro b _
      rw [barriersFit, canMergeBarriersForTasks_iff]
      refine le_trans (slotCount_mono slots fun x hx => ?_) (h.slotsWithin b).producers
      obtain ⟨b', hb', hu⟩ := (info.mem_producersOf [b] x).mp hx
      obtain rfl := List.mem_singleton.mp hb'
      exact (info.mem_getBarrierProducers b' x).mpr hu
    obtain ⟨g, hg, hcovers⟩ := exists_rel_of_mem hall hs
    have hfits : barriersFit slots availableSlots info g = true :=
      fits_of_mem_pack (by simp [barriersFit, producersOf, canMergeBarriersForTasks, fitsFrom]) hone
        hg
    refine le_trans (slotCount_mono slots fun x hx => ?_)
      ((canMergeBarriersForTasks_iff slots availableSlots _).mp hfits)
    exact (info.mem_producersOf g x).mpr ((hcovers x).mp hx)

end

theorem LegalSlots.satisfyTask (hslots : ∀ t, slots t ≤ availableSlots)
    {state state' : BarrierInfo S × Bool} (h : state.1.LegalSlots slots availableSlots) {t : ℕ}
    (hs : satisfyTask slots availableSlots state t = some state') :
    state'.1.LegalSlots slots availableSlots ∧ state'.1.numTasks = state.1.numTasks := by
  unfold BarrierInfo.satisfyTask at hs
  dsimp only at hs
  split_ifs at hs with hsize
  · exact Option.some.inj hs ▸ ⟨h, rfl⟩
  · rw [ensureTaskDrivenBySingleBarrier_eq] at hs
    obtain ⟨info', hinfo', rfl⟩ := Option.map_eq_some_iff.mp hs
    obtain ⟨batches, hb, rfl⟩ := Option.map_eq_some_iff.mp hinfo'
    have hseveral : state.1.SeveralWaits t := Nat.le_of_not_lt hsize
    have ht := h.inRange.lt_of_severalWaits hseveral
    have hfits := h.batchesFor hslots hb
    have hmem : ∀ s ∈ batches, ∀ x ∈ toList s, x < state.1.numTasks := by
      intro s hs x hx
      obtain ⟨b, -, hu⟩ := (mem_batchesFor slots availableSlots hb x).mp ⟨s, hs, hx⟩
      exact (h.inRange.updates x b hu).1
    have hext := extends_linkBatches state.1 (insert empty t) batches.reverse
    have hlinked := h.extends hext fun l hl => by
      have hfirst := List.mem_reverse.mp (mem_chainLinks_fst hl)
      cases mem_chainLinks_snd hl with
      | inl heq =>
        refine ⟨hfits _ hfirst, ?_, ?_⟩
        · rw [heq, slotCount_singleton]
          exact hslots t
        · rintro x (hx | hx)
          · exact hmem _ hfirst x hx
          · rw [heq, toList_singleton, List.mem_singleton] at hx
            exact hx ▸ ht
      | inr hsecond =>
        have hsecond := List.mem_reverse.mp hsecond
        exact ⟨hfits _ hfirst, hfits _ hsecond,
          fun x hx => hx.elim (hmem _ hfirst x) (hmem _ hsecond x)⟩
    have hunlinks := unlinks_unlinkTask _ _ (nodup_toList (state.1.getWaitBarriers t))
      fun b hb => (hext.waits t b).mpr (Or.inl hb)
    exact ⟨hlinked.unlinks hunlinks, hunlinks.numTasks.trans hext.numTasks⟩

theorem LegalSlots.satisfyTasks (hslots : ∀ t, slots t ≤ availableSlots)
    (h : info.LegalSlots slots availableSlots) (n : ℕ) {state : BarrierInfo S × Bool}
    (hs : satisfyTasks slots availableSlots info n = some state) :
    state.1.LegalSlots slots availableSlots ∧ state.1.numTasks = info.numTasks := by
  induction n generalizing state with
  | zero => exact Option.some.inj hs ▸ ⟨h, rfl⟩
  | succ n ih =>
    obtain ⟨before, hbefore, hstep⟩ := Option.bind_eq_some_iff.mp hs
    obtain ⟨hlegal, hnum⟩ := ih hbefore
    obtain ⟨hlegal', hnum'⟩ := hlegal.satisfyTask hslots hstep
    exact ⟨hlegal', hnum'.trans hnum⟩

end BarrierInfo

open BarrierInfo

/-- The pass keeps slot limits. A barrier is read under its index in the result. -/
theorem satisfyOneWaitBarrierPerTask_slots (S : Type) [TaskSet S] (maxVariantCount : ℕ)
    (func func' : FuncOp) (hw : func.WellFormed)
    (hslots : ∀ op ∈ func.tasks, getNumOfSlotsUsed op ≤ maxVariantCount / 2)
    (hbefore : ∀ b < func.numBarriers,
      func.producerSlots b ≤ maxVariantCount / 2 ∧ func.consumerSlots b ≤ maxVariantCount / 2)
    (h : satisfyOneWaitBarrierPerTask S maxVariantCount func = some func') (b : ℕ) :
    func'.producerSlots b ≤ maxVariantCount / 2 ∧ func'.consumerSlots b ≤ maxVariantCount / 2 := by
  have hlegal : (buildBarrierMaps func : BarrierInfo S).LegalSlots _ _ :=
    legalSlots_buildBarrierMaps hw hbefore
  obtain ⟨state, hstate, rfl⟩ := Option.map_eq_some_iff.mp h
  obtain ⟨hlegal', hnum⟩ := hlegal.satisfyTasks (numSlotsUsed_le hslots) _ hstate
  have hn := hnum.trans (numTasks_buildBarrierMaps func)
  split_ifs
  · refine LegalSlots.slotsAt_le (?_ : state.1.LegalSlots _ _) ?_ ?_ _
    · rwa [numSlotsUsed_updateIR]
    · exact fun t b => updates_updateIR state.1 t b func hlegal'.inRange hn
    · exact fun t b => waits_updateIR state.1 t b func hlegal'.inRange hn
  · exact hlegal.slotsAt_le (fun t b => (updates_buildBarrierMaps t b func).symm)
      (fun t b => (waits_buildBarrierMaps t b func).symm) b

/-- Task 4 waits for two full barriers, whose producers have to be linearized. -/
def twoFull : FuncOp where
  numBarriers := 2
  tasks := [⟨.upa, [], [0]⟩, ⟨.upa, [], [0]⟩, ⟨.upa, [], [1]⟩, ⟨.nce ⟨1, Nat.one_pos⟩ 0, [], [1]⟩,
    ⟨.upa, [0, 1], []⟩]

theorem satisfyOneWaitBarrierPerTask_slots_twoFull :
    ∃ func', satisfyOneWaitBarrierPerTask (SmallSet 16) 4 twoFull = some func' ∧
      ∀ b, func'.producerSlots b ≤ 2 ∧ func'.consumerSlots b ≤ 2 := by
  have hruns : (satisfyOneWaitBarrierPerTask (SmallSet 16) 4 twoFull).isSome := by decide
  obtain ⟨func', h⟩ := Option.isSome_iff_exists.mp hruns
  exact ⟨func', h, satisfyOneWaitBarrierPerTask_slots (SmallSet 16) 4 twoFull func' (by decide)
    (by decide) (by decide) h⟩

end Vpux.Barrier
