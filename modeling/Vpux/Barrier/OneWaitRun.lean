import Vpux.Barrier.OneWaitBatches

/-! One walk of `SatisfyOneWaitBarrierPerTask` in closed form. What a task contributes
depends on the given barriers alone: its own wait barriers and their producers stay
as they were until its turn comes. -/
namespace Vpux.Barrier
open Data Data.TaskSet VPURT List

theorem toList_singleton {S : Type} [TaskSet S] (t : ℕ) : toList (insert (empty : S) t) = [t] := by
  have hmem : ∀ x, x ∈ toList (insert (empty : S) t) ↔ x ∈ [t] := by simp
  have hperm := (perm_ext_iff_of_nodup (nodup_toList (insert (empty : S) t))
    (nodup_singleton t)).mpr hmem
  exact perm_singleton.mp hperm

namespace BarrierInfo

variable {S : Type} [TaskSet S] {links : List (S × S)} {t : ℕ}

section Linking

/-- New barriers `(producers, consumers)` were appended; the tasks and barriers that
take no part keep their very sets. -/
structure Extends (info info' : BarrierInfo S) (links : List (S × S)) : Prop where
  numTasks : info'.numTasks = info.numTasks
  numBarriers : info'.numBarriers = info.numBarriers + links.length
  updates : ∀ t b, info'.Updates t b ↔ info.Updates t b ∨
    ∃ j l, links[j]? = some l ∧ b = info.numBarriers + j ∧ t ∈ toList l.1
  waits : ∀ t b, info'.Waits t b ↔ info.Waits t b ∨
    ∃ j l, links[j]? = some l ∧ b = info.numBarriers + j ∧ t ∈ toList l.2
  byTask : ∀ t, (∀ l ∈ links, t ∉ toList l.2) → info'.consumed.byTask t = info.consumed.byTask t
  byBarrier : ∀ b < info.numBarriers, info'.produced.byBarrier b = info.produced.byBarrier b

theorem Extends.refl (info : BarrierInfo S) : Extends info info [] where
  numTasks := rfl
  numBarriers := rfl
  updates t b := by simp
  waits t b := by simp
  byTask _ _ := rfl
  byBarrier _ _ := rfl

omit [TaskSet S] in
private theorem exists_link_append {l₁ l₂ : List (S × S)} {n b : ℕ} (p : S × S → Prop) :
    (∃ j l, (l₁ ++ l₂)[j]? = some l ∧ b = n + j ∧ p l) ↔
      (∃ j l, l₁[j]? = some l ∧ b = n + j ∧ p l) ∨
        ∃ j l, l₂[j]? = some l ∧ b = n + l₁.length + j ∧ p l := by
  constructor
  · rintro ⟨j, l, hl, rfl, hp⟩
    by_cases hj : j < l₁.length
    · exact Or.inl ⟨j, l, by rwa [List.getElem?_append_left hj] at hl, rfl, hp⟩
    · rw [getElem?_append_right (by omega)] at hl
      exact Or.inr ⟨j - l₁.length, l, hl, by omega, hp⟩
  · rintro (⟨j, l, hl, rfl, hp⟩ | ⟨j, l, hl, rfl, hp⟩)
    · refine ⟨j, l, ?_, rfl, hp⟩
      rw [List.getElem?_append_left (List.getElem?_eq_some_iff.mp hl).1, hl]
    · refine ⟨l₁.length + j, l, ?_, by omega, hp⟩
      rw [getElem?_append_right (by omega), Nat.add_sub_cancel_left, hl]

omit [TaskSet S] in
theorem exists_link_at_iff {n j : ℕ} (hj : j < links.length) (p : S × S → Prop) :
    (∃ k l, links[k]? = some l ∧ n + j = n + k ∧ p l) ↔ p links[j] := by
  constructor
  · rintro ⟨k, l, hl, heq, hp⟩
    obtain rfl : j = k := Nat.add_left_cancel heq
    rw [getElem?_eq_getElem hj] at hl
    exact Option.some.inj hl ▸ hp
  · intro hp
    exact ⟨j, links[j], getElem?_eq_getElem hj, rfl, hp⟩

theorem Extends.trans {i j k : BarrierInfo S} {l₁ l₂ : List (S × S)} (h : Extends i j l₁)
    (h' : Extends j k l₂) : Extends i k (l₁ ++ l₂) where
  numTasks := h'.numTasks.trans h.numTasks
  numBarriers := by rw [h'.numBarriers, h.numBarriers, length_append, Nat.add_assoc]
  updates t b := by
    rw [h'.updates, h.updates, h.numBarriers, exists_link_append fun l => t ∈ toList l.1, or_assoc]
  waits t b := by
    rw [h'.waits, h.waits, h.numBarriers, exists_link_append fun l => t ∈ toList l.2, or_assoc]
  byTask t ht := by
    rw [h'.byTask t fun l hl => ht l (mem_append_right l₁ hl),
      h.byTask t fun l hl => ht l (mem_append_left l₂ hl)]
  byBarrier b hb := by
    have hb' : b < j.numBarriers := by
      have := h.numBarriers
      omega
    rw [h'.byBarrier b hb', h.byBarrier b hb]

section New

variable {info info' : BarrierInfo S} {links : List (S × S)} (h : Extends info info' links)
  (hr : info.InRange) {j : ℕ} (hj : j < links.length) (t : ℕ)
include h hr

theorem Extends.updates_new :
    info'.Updates t (info.numBarriers + j) ↔ t ∈ toList links[j].1 := by
  have hold : ¬ info.Updates t (info.numBarriers + j) := by
    intro hu
    have := (hr.updates t _ hu).2
    omega
  rw [h.updates, or_iff_right hold, exists_link_at_iff hj fun l => t ∈ toList l.1]

theorem Extends.waits_new :
    info'.Waits t (info.numBarriers + j) ↔ t ∈ toList links[j].2 := by
  have hold : ¬ info.Waits t (info.numBarriers + j) := by
    intro hw
    have := (hr.waits t _ hw).2
    omega
  rw [h.waits, or_iff_right hold, exists_link_at_iff hj fun l => t ∈ toList l.2]

end New

theorem byTask_addConsumers (info : BarrierInfo S) (b : ℕ) (ts : S) (ht : t ∉ toList ts) :
    (info.addConsumers b ts).consumed.byTask t = info.consumed.byTask t := by
  have hgen : ∀ (l : List ℕ) (info : BarrierInfo S), t ∉ l →
      (l.foldl (fun info x => info.addConsumer b x) info).consumed.byTask t =
        info.consumed.byTask t := by
    intro l
    induction l with
    | nil => intro info _; rfl
    | cons x l ih =>
      intro info hn
      rw [mem_cons, not_or] at hn
      rw [foldl_cons, ih _ hn.2]
      exact info.consumed.byTask_link_of_ne b hn.1
  exact hgen (toList ts) info ht

theorem byBarrier_addProducers (info : BarrierInfo S) {b b' : ℕ} (ts : S) (hb : b' ≠ b) :
    (info.addProducers b ts).produced.byBarrier b' = info.produced.byBarrier b' :=
  foldl_frame (fun i : BarrierInfo S => i.produced.byBarrier b')
    (fun info x => info.addProducer b x)
    (fun info x => info.produced.byBarrier_link_of_ne x hb) (toList ts) info

theorem addConsumers_frame {β : Type} (p : BarrierInfo S → β)
    (hp : ∀ info b t, p (info.addConsumer b t) = p info) (info : BarrierInfo S) (b : ℕ) (ts : S) :
    p (info.addConsumers b ts) = p info :=
  foldl_frame p (fun info t => info.addConsumer b t) (fun info t => hp info b t) (toList ts) info

theorem addProducers_frame {β : Type} (p : BarrierInfo S → β)
    (hp : ∀ info b t, p (info.addProducer b t) = p info) (info : BarrierInfo S) (b : ℕ) (ts : S) :
    p (info.addProducers b ts) = p info :=
  foldl_frame p (fun info t => info.addProducer b t) (fun info t => hp info b t) (toList ts) info

theorem extends_addLink (info : BarrierInfo S) (producers consumers : S) :
    Extends info ((info.addNewBarrier.addProducers info.numBarriers producers).addConsumers
      info.numBarriers consumers) [(producers, consumers)] where
  numTasks := by
    rw [addConsumers_frame BarrierInfo.numTasks fun _ _ _ => rfl,
      addProducers_frame BarrierInfo.numTasks fun _ _ _ => rfl]
    rfl
  numBarriers := by
    rw [addConsumers_frame BarrierInfo.numBarriers fun _ _ _ => rfl,
      addProducers_frame BarrierInfo.numBarriers fun _ _ _ => rfl]
    rfl
  updates t b := by
    rw [updates_addConsumers, updates_addProducers, updates_addNewBarrier, or_comm]
    simp [getElem?_singleton, and_comm]
  waits t b := by
    rw [waits_addConsumers, waits_addProducers, waits_addNewBarrier, or_comm]
    simp [getElem?_singleton, and_comm]
  byTask t ht := by
    rw [byTask_addConsumers _ _ _ (by simpa using ht),
      addProducers_frame BarrierInfo.consumed fun _ _ _ => rfl]
    rfl
  byBarrier b hb := by
    rw [addConsumers_frame BarrierInfo.produced fun _ _ _ => rfl,
      byBarrier_addProducers _ _ (by omega)]
    rfl

/-- The barriers of a chain whose batches come last first. -/
def chainLinks (next : S) : List S → List (S × S)
  | [] => []
  | batch :: batches => (batch, next) :: chainLinks batch batches

theorem extends_linkBatches (info : BarrierInfo S) (next : S) (batches : List S) :
    Extends info (info.linkBatches next batches) (chainLinks next batches) := by
  induction batches generalizing info next with
  | nil => exact .refl info
  | cons batch batches ih => exact (extends_addLink info batch next).trans (ih _ batch)

theorem mergeLegalParallelProducers_eq (info : BarrierInfo S) (t : ℕ) (producers : S) :
    info.mergeLegalParallelProducers t producers =
      info.linkBatches (insert empty t) [producers] := by
  unfold mergeLegalParallelProducers linkBatches linkBatches addConsumers
  rw [toList_singleton, foldl_cons, foldl_nil]

end Linking

section Unlinking

/-- Task `t` no longer waits for `bars`; the other tasks and the barriers still in use
keep their very sets. -/
structure Unlinks (info info' : BarrierInfo S) (t : ℕ) (bars : List ℕ) : Prop where
  numTasks : info'.numTasks = info.numTasks
  numBarriers : info'.numBarriers = info.numBarriers
  waits : ∀ c b, info'.Waits c b ↔ info.Waits c b ∧ ¬(c = t ∧ b ∈ bars)
  updates : ∀ a b, info'.Updates a b → info.Updates a b
  byTask : ∀ c, c ≠ t → info'.consumed.byTask c = info.consumed.byTask c
  byBarrier : ∀ b, (b ∈ bars → ∃ c, c ≠ t ∧ info.Waits c b) →
    info'.produced.byBarrier b = info.produced.byBarrier b

theorem unlinks_unlinkFrom (info : BarrierInfo S) {t b : ℕ} (hb : info.Waits t b) :
    Unlinks info (unlinkFrom t info b) t [b] := by
  have hmem := info.mem_getBarrierConsumers b
  unfold unlinkFrom
  split_ifs with hsize
  · have honly : ∀ c, info.Waits c b → c = t := by
      obtain ⟨x, hx⟩ := length_eq_one_iff.mp hsize
      have hin : ∀ c, info.Waits c b → c = x := by
        intro c hc
        simpa [hx] using (hmem c).mpr hc
      exact fun c hc => (hin c hc).trans (hin t hb).symm
    refine ⟨rfl, rfl, fun c b' => ?_, fun a b' h => ?_, fun c hc => ?_, fun b' hb' => ?_⟩
    · rw [waits_resetBarrier, mem_singleton]
      constructor
      · rintro ⟨hne, hw⟩
        exact ⟨hw, fun h => hne h.2⟩
      · rintro ⟨hw, hn⟩
        refine ⟨?_, hw⟩
        rintro rfl
        exact hn ⟨honly c hw, rfl⟩
    · exact ((info.updates_resetBarrier b a b').mp h).2
    · exact info.consumed.byTask_clear_of_not_rel b fun hw => hc (honly c hw)
    · refine info.produced.byBarrier_clear_of_ne ?_
      rintro rfl
      obtain ⟨c, hc, hw⟩ := hb' mem_cons_self
      exact hc (honly c hw)
  · refine ⟨rfl, rfl, fun c b' => ?_, fun a b' h => h, fun c hc => ?_, fun b' hb' => rfl⟩
    · rw [waits_removeConsumer, mem_singleton, and_comm]
    · exact info.consumed.byTask_unlink_of_ne b hc

theorem unlinks_unlinkTask (info : BarrierInfo S) (bars : List ℕ) (hnd : bars.Nodup)
    (hbars : ∀ b ∈ bars, info.Waits t b) :
    Unlinks info (bars.foldl (unlinkFrom t) info) t bars := by
  induction bars generalizing info with
  | nil => exact ⟨rfl, rfl, by simp, fun _ _ h => h, fun _ _ => rfl, fun _ _ => rfl⟩
  | cons b bars ih =>
    obtain ⟨hnot, hnd⟩ := nodup_cons.mp hnd
    have h1 := unlinks_unlinkFrom info (hbars b mem_cons_self)
    have hrest : ∀ b' ∈ bars, (unlinkFrom t info b).Waits t b' := by
      intro b' hb'
      refine (h1.waits t b').mpr ⟨hbars b' (mem_cons_of_mem b hb'), ?_⟩
      rintro ⟨-, h⟩
      rw [mem_singleton] at h
      exact hnot (h ▸ hb')
    have h2 := ih (unlinkFrom t info b) hnd hrest
    rw [foldl_cons]
    refine ⟨h2.numTasks.trans h1.numTasks, h2.numBarriers.trans h1.numBarriers, fun c b' => ?_,
      fun a b' h => h1.updates a b' (h2.updates a b' h),
      fun c hc => (h2.byTask c hc).trans (h1.byTask c hc), fun b' hb' => ?_⟩
    · rw [h2.waits, h1.waits, and_assoc, mem_singleton, mem_cons, and_or_left, not_or]
    · have hfirst : b' ∈ [b] → ∃ c, c ≠ t ∧ info.Waits c b' := by
        intro h
        exact hb' (mem_cons.mpr (Or.inl (mem_singleton.mp h)))
      have hsecond : b' ∈ bars → ∃ c, c ≠ t ∧ (unlinkFrom t info b).Waits c b' := by
        intro h
        obtain ⟨c, hc, hw⟩ := hb' (mem_cons_of_mem b h)
        exact ⟨c, hc, (h1.waits c b').mpr ⟨hw, fun hx => hc hx.1⟩⟩
      exact (h2.byBarrier b' hsecond).trans (h1.byBarrier b' hfirst)

end Unlinking

section Walk

variable (slots : ℕ → ℕ) (availableSlots : ℕ)

/-- The task has several wait barriers, so the walk rewrites it. -/
def SeveralWaits (info : BarrierInfo S) (t : ℕ) : Prop := 2 ≤ size (info.getWaitBarriers t)

instance (info : BarrierInfo S) (t : ℕ) : Decidable (info.SeveralWaits t) :=
  inferInstanceAs (Decidable (_ ≤ _))

variable {info : BarrierInfo S}

theorem SeveralWaits.ne_nil (h : info.SeveralWaits t) : toList (info.getWaitBarriers t) ≠ [] := by
  intro hnil
  have hlen : 2 ≤ (toList (info.getWaitBarriers t)).length := h
  rw [hnil] at hlen
  simp at hlen

theorem InRange.lt_of_severalWaits (hr : info.InRange) (h : info.SeveralWaits t) :
    t < info.numTasks := by
  obtain ⟨b, hb⟩ := exists_mem_of_ne_nil _ h.ne_nil
  exact (hr.waits t b hb).1

/-- The batches put in front of a rewritten task. -/
def batchesFor (info : BarrierInfo S) (t : ℕ) : Option (List S) :=
  let producers := info.getBarriersProducerTasks (info.getWaitBarriers t)
  if canMergeBarriersForTasks slots availableSlots producers then some [producers]
  else legalBatches slots availableSlots info (info.getWaitBarriers t) producers

def linksFor (info : BarrierInfo S) (t : ℕ) : Option (List (S × S)) :=
  if info.SeveralWaits t then
    (batchesFor slots availableSlots info t).map fun batches =>
      chainLinks (insert empty t) batches.reverse
  else some []

def linksUpTo (info : BarrierInfo S) : ℕ → Option (List (S × S))
  | 0 => some []
  | n + 1 => (linksUpTo info n).bind fun links =>
      (linksFor slots availableSlots info n).map fun new => links ++ new

theorem producersOf_congr {info info' : BarrierInfo S} {bars : List ℕ}
    (h : ∀ b ∈ bars, info.getBarrierProducers b = info'.getBarrierProducers b) :
    info.producersOf bars = info'.producersOf bars :=
  foldl_ext _ _ _ fun acc b hb => by rw [h b hb]

theorem createProducerBatchesFrom_congr {info info' : BarrierInfo S} (prev : ℕ) (done : List S)
    (back : S) {bars : List ℕ}
    (h : ∀ b ∈ bars, info.getBarrierProducers b = info'.getBarrierProducers b) :
    createProducerBatchesFrom slots availableSlots info prev done back bars =
      createProducerBatchesFrom slots availableSlots info' prev done back bars := by
  induction bars generalizing prev done back with
  | nil => rfl
  | cons b bars ih =>
    have hrest := fun b' hb' => h b' (mem_cons_of_mem b hb')
    unfold createProducerBatchesFrom
    rw [h b mem_cons_self]
    simp only [ih _ _ _ hrest]

theorem batchesFor_congr {info info' : BarrierInfo S}
    (ht : info.getWaitBarriers t = info'.getWaitBarriers t)
    (h : ∀ b, info.Waits t b → info.getBarrierProducers b = info'.getBarrierProducers b) :
    batchesFor slots availableSlots info t = batchesFor slots availableSlots info' t := by
  have hbars : ∀ b ∈ toList (info'.getWaitBarriers t),
      info.getBarrierProducers b = info'.getBarrierProducers b := by
    intro b hb
    rw [← ht] at hb
    exact h b hb
  unfold batchesFor legalBatches createProducerBatches getBarriersProducerTasks
  rw [ht, producersOf_congr hbars,
    createProducerBatchesFrom_congr slots availableSlots 0 [] empty hbars]

theorem ensureTaskDrivenBySingleBarrier_eq (info : BarrierInfo S) (t : ℕ) :
    ensureTaskDrivenBySingleBarrier slots availableSlots info t (info.getWaitBarriers t) =
      (batchesFor slots availableSlots info t).map fun batches =>
        (info.linkBatches (insert empty t) batches.reverse).unlinkTaskFromParallelBarriers t
          (info.getWaitBarriers t) := by
  unfold ensureTaskDrivenBySingleBarrier batchesFor linearizeLegalParallelProducers
  dsimp only
  split_ifs with hmerge
  · rw [mergeLegalParallelProducers_eq]
    rfl
  · rw [Option.map_map]
    rfl

structure Progress (info₀ info : BarrierInfo S) (k : ℕ) (links : List (S × S)) : Prop where
  numTasks : info.numTasks = info₀.numTasks
  numBarriers : info.numBarriers = info₀.numBarriers + links.length
  untouched : ∀ t, k ≤ t → info.consumed.byTask t = info₀.consumed.byTask t
  waits_old : ∀ b < info₀.numBarriers, ∀ c,
    info.Waits c b ↔ info₀.Waits c b ∧ (k ≤ c ∨ ¬ info₀.SeveralWaits c)
  producers_old : ∀ b < info₀.numBarriers, (∃ c, info.Waits c b) →
    info.produced.byBarrier b = info₀.produced.byBarrier b
  updates_old : ∀ b < info₀.numBarriers, ∀ a, info.Updates a b → info₀.Updates a b
  waits_new : ∀ j c, info.Waits c (info₀.numBarriers + j) ↔
    ∃ l, links[j]? = some l ∧ c ∈ toList l.2
  updates_new : ∀ j a, info.Updates a (info₀.numBarriers + j) ↔
    ∃ l, links[j]? = some l ∧ a ∈ toList l.1

theorem Progress.start {info₀ : BarrierInfo S} (hr : info₀.InRange) :
    Progress info₀ info₀ 0 [] where
  numTasks := rfl
  numBarriers := rfl
  untouched _ _ := rfl
  waits_old b _ c := by simp
  producers_old _ _ _ := rfl
  updates_old _ _ _ h := h
  waits_new j c := by
    refine iff_of_false (fun h => ?_) (by simp)
    have := (hr.waits c _ h).2
    omega
  updates_new j a := by
    refine iff_of_false (fun h => ?_) (by simp)
    have := (hr.updates a _ h).2
    omega

theorem Progress.skip {info₀ info : BarrierInfo S} {k : ℕ} (h : Progress info₀ info k links)
    (hk : ¬ info₀.SeveralWaits k) :
    Progress info₀ info (k + 1) links where
  numTasks := h.numTasks
  numBarriers := h.numBarriers
  untouched t ht := h.untouched t (by omega)
  waits_old b hb c := by
    rw [h.waits_old b hb c]
    refine and_congr_right fun _ => ?_
    by_cases hc : c = k
    · subst hc
      simp [hk]
    · exact or_congr_left (by omega)
  producers_old := h.producers_old
  updates_old := h.updates_old
  waits_new := h.waits_new
  updates_new := h.updates_new

theorem Progress.rewrite {info₀ info linked info' : BarrierInfo S} {k : ℕ}
    {links new : List (S × S)} (h : Progress info₀ info k links) (hr : info₀.InRange)
    (hk : info₀.SeveralWaits k) (hext : Extends info linked new)
    (hnew : ∀ l ∈ new, ∀ c ∈ toList l.2, c ≤ k)
    (hun : Unlinks linked info' k (toList (info₀.getWaitBarriers k))) :
    Progress info₀ info' (k + 1) (links ++ new) := by
  have hbar : ∀ b, b ∈ toList (info₀.getWaitBarriers k) → b < info₀.numBarriers :=
    fun b hb => (hr.waits k b hb).2
  have hold : ∀ b < info₀.numBarriers, b < info.numBarriers := by
    intro b hb
    have := h.numBarriers
    omega
  have hlinked : ∀ b < info₀.numBarriers, ∀ c, linked.Waits c b ↔ info.Waits c b := by
    intro b hb c
    have := hold b hb
    rw [hext.waits]
    refine or_iff_left ?_
    rintro ⟨j, l, -, rfl, -⟩
    omega
  have hlinkedu : ∀ b < info₀.numBarriers, ∀ a, linked.Updates a b ↔ info.Updates a b := by
    intro b hb a
    have := hold b hb
    rw [hext.updates]
    refine or_iff_left ?_
    rintro ⟨j, l, -, rfl, -⟩
    omega
  have happend : ∀ (j : ℕ) (p : S × S → Prop),
      (∃ l, (links ++ new)[j]? = some l ∧ p l) ↔ (∃ l, links[j]? = some l ∧ p l) ∨
        ∃ i l, new[i]? = some l ∧ info₀.numBarriers + j = info.numBarriers + i ∧ p l := by
    intro j p
    have hnum := h.numBarriers
    constructor
    · rintro ⟨l, hl, hp⟩
      by_cases hj : j < links.length
      · exact Or.inl ⟨l, by rwa [List.getElem?_append_left hj] at hl, hp⟩
      · rw [getElem?_append_right (by omega)] at hl
        exact Or.inr ⟨j - links.length, l, hl, by omega, hp⟩
    · rintro (⟨l, hl, hp⟩ | ⟨i, l, hl, hj, hp⟩)
      · refine ⟨l, ?_, hp⟩
        rw [List.getElem?_append_left (List.getElem?_eq_some_iff.mp hl).1, hl]
      · obtain rfl : j = links.length + i := by omega
        refine ⟨l, ?_, hp⟩
        rw [getElem?_append_right (by omega), Nat.add_sub_cancel_left, hl]
  refine ⟨?_, ?_, fun t ht => ?_, fun b hb c => ?_, fun b hb hc => ?_, fun b hb a ha => ?_,
    fun j c => ?_, fun j a => ?_⟩
  · rw [hun.numTasks, hext.numTasks, h.numTasks]
  · rw [hun.numBarriers, hext.numBarriers, h.numBarriers, length_append, Nat.add_assoc]
  · have hnot : ∀ l ∈ new, t ∉ toList l.2 := by
      intro l hl hmem
      have := hnew l hl t hmem
      omega
    rw [hun.byTask t (by omega), hext.byTask t hnot, h.untouched t (by omega)]
  · rw [hun.waits, hlinked b hb, h.waits_old b hb, and_assoc]
    refine and_congr_right fun hw => ?_
    by_cases hck : c = k
    · subst hck
      simp [hk, show b ∈ toList (info₀.getWaitBarriers c) from hw]
    · have hlt : k ≤ c ↔ k + 1 ≤ c := by omega
      simp [hck, hlt]
  · obtain ⟨c, hc⟩ := hc
    obtain ⟨hcl, hcn⟩ := (hun.waits c b).mp hc
    have hstay : b ∈ toList (info₀.getWaitBarriers k) → ∃ c, c ≠ k ∧ linked.Waits c b :=
      fun hmem => ⟨c, fun hck => hcn ⟨hck, hmem⟩, hcl⟩
    rw [hun.byBarrier b hstay, hext.byBarrier b (hold b hb),
      h.producers_old b hb ⟨c, (hlinked b hb c).mp hcl⟩]
  · exact h.updates_old b hb a ((hlinkedu b hb a).mp (hun.updates a b ha))
  · rw [hun.waits, hext.waits, happend j fun l => c ∈ toList l.2, h.waits_new]
    refine and_iff_left ?_
    rintro ⟨-, hmem⟩
    have := hbar _ hmem
    omega
  · have hkeep : info'.produced.byBarrier (info₀.numBarriers + j) =
        linked.produced.byBarrier (info₀.numBarriers + j) := by
      refine hun.byBarrier _ fun hmem => ?_
      have := hbar _ hmem
      omega
    have hsame : info'.Updates a (info₀.numBarriers + j) ↔
        linked.Updates a (info₀.numBarriers + j) := by
      rw [← mem_getBarrierProducers, ← mem_getBarrierProducers, getBarrierProducers,
        getBarrierProducers, hkeep]
    rw [hsame, hext.updates, happend j fun l => a ∈ toList l.1, h.updates_new]

/-- The producers of the task's wait barriers take too many slots for one barrier. -/
def Linearized (info : BarrierInfo S) (t : ℕ) : Prop :=
  info.SeveralWaits t ∧ canMergeBarriersForTasks slots availableSlots
    (info.getBarriersProducerTasks (info.getWaitBarriers t)) = false

inductive BatchesFor (info : BarrierInfo S) (t : ℕ) : List S → Prop
  | merged
      (hfit : canMergeBarriersForTasks slots availableSlots
        (info.getBarriersProducerTasks (info.getWaitBarriers t)) = true) :
      BatchesFor info t [info.getBarriersProducerTasks (info.getWaitBarriers t)]
  | refused {batches : List S}
      (hfit : canMergeBarriersForTasks slots availableSlots
        (info.getBarriersProducerTasks (info.getWaitBarriers t)) = false)
      (horder : info.Refused (toList (info.getWaitBarriers t)))
      (hall : List.Forall₂ (fun (s : S) g => ∀ x, x ∈ toList s ↔ x ∈ g) batches
        (pack (tasksFit slots availableSlots) []
          (orderedTasks (info.getBarriersProducerTasks (info.getWaitBarriers t))))) :
      BatchesFor info t batches
  | accepted {batches : List S}
      (hfit : canMergeBarriersForTasks slots availableSlots
        (info.getBarriersProducerTasks (info.getWaitBarriers t)) = false)
      (horder : info.Accepted (toList (info.getWaitBarriers t)))
      (hall : List.Forall₂ info.Covers batches
        (pack (barriersFit slots availableSlots info) [] (toList (info.getWaitBarriers t)))) :
      BatchesFor info t batches

variable {batches : List S}

variable (h : batchesFor slots availableSlots info t = some batches)

include h in
theorem batchesFor_cases : BatchesFor slots availableSlots info t batches := by
  unfold batchesFor at h
  dsimp only at h
  split_ifs at h with hmerge
  · obtain rfl := Option.some.inj h
    exact .merged hmerge
  · have hfit := Bool.eq_false_of_not_eq_true hmerge
    by_cases hrefused : info.Refused (toList (info.getWaitBarriers t))
    · obtain ⟨batches', heq, hall⟩ := legalBatches_of_refused slots availableSlots info
        (info.getWaitBarriers t) (info.getBarriersProducerTasks (info.getWaitBarriers t)) hrefused
      obtain rfl : batches' = batches := Option.some.inj (heq.symm.trans h)
      exact .refused hfit hrefused hall
    · by_cases haccepted : info.Accepted (toList (info.getWaitBarriers t))
      · obtain ⟨batches', heq, hall⟩ := legalBatches_of_accepted slots availableSlots info
          (info.getWaitBarriers t) (info.getBarriersProducerTasks (info.getWaitBarriers t))
            haccepted
        obtain rfl : batches' = batches := Option.some.inj (heq.symm.trans h)
        exact .accepted hfit haccepted hall
      · rw [legalBatches_eq_none slots availableSlots info _ _ hrefused haccepted] at h
        contradiction

/-- No batches exactly when the order check stops at a barrier without producers. -/
theorem linksFor_eq_none_iff (info : BarrierInfo S) (t : ℕ) :
    linksFor slots availableSlots info t = none ↔
      Linearized slots availableSlots info t ∧
        ¬ info.Refused (toList (info.getWaitBarriers t)) ∧
        ¬ info.Accepted (toList (info.getWaitBarriers t)) := by
  unfold linksFor Linearized batchesFor
  dsimp only
  by_cases hs : info.SeveralWaits t
  · cases hfit : canMergeBarriersForTasks slots availableSlots
      (info.getBarriersProducerTasks (info.getWaitBarriers t)) with
    | true => simp [hs]
    | false =>
      simp only [hs, if_true, Bool.false_eq_true, if_false, Option.map_eq_none_iff, and_self,
        true_and]
      constructor
      · intro h
        refine ⟨fun hr => ?_, fun ha => ?_⟩
        · obtain ⟨_, heq, _⟩ := legalBatches_of_refused slots availableSlots info
            (info.getWaitBarriers t) (info.getBarriersProducerTasks (info.getWaitBarriers t)) hr
          rw [h] at heq
          contradiction
        · obtain ⟨_, heq, _⟩ := legalBatches_of_accepted slots availableSlots info
            (info.getWaitBarriers t) (info.getBarriersProducerTasks (info.getWaitBarriers t)) ha
          rw [h] at heq
          contradiction
      · rintro ⟨hr, ha⟩
        exact legalBatches_eq_none slots availableSlots info _ _ hr ha
  · simp [hs]

include h in
theorem mem_batchesFor (x : ℕ) :
    (∃ s ∈ batches, x ∈ toList s) ↔ ∃ b, info.Waits t b ∧ info.Updates x b := by
  have hproducers : x ∈ toList (info.getBarriersProducerTasks (info.getWaitBarriers t)) ↔
      ∃ b, info.Waits t b ∧ info.Updates x b := info.mem_producersOf _ x
  rw [← hproducers]
  cases batchesFor_cases slots availableSlots h with
  | merged hfit => simp
  | refused hfit horder hall =>
    rw [exists_mem_iff_of_forall₂ (fun s g hs => hs x) hall, ← List.mem_flatten, flatten_pack,
      List.nil_append, orderedTasks, List.mem_insertionSort]
  | accepted hfit horder hall =>
    have hflat := flatten_pack (barriersFit slots availableSlots info) []
      (toList (info.getWaitBarriers t))
    rw [List.nil_append] at hflat
    rw [exists_mem_iff_of_forall₂ (fun s g hs => hs x) hall, hproducers]
    constructor
    · rintro ⟨g, hg, b, hb, hu⟩
      have hmem := List.mem_flatten.mpr ⟨g, hg, hb⟩
      rw [hflat] at hmem
      exact ⟨b, hmem, hu⟩
    · rintro ⟨b, hb, hu⟩
      rw [← mem_getWaitBarriers, ← hflat] at hb
      obtain ⟨g, hg, hbg⟩ := List.mem_flatten.mp hb
      exact ⟨g, hg, b, hbg, hu⟩

include h in
theorem ne_nil_of_mem_tail_batchesFor {s : S} (hs : s ∈ batches.tail) : toList s ≠ [] := by
  have htail : ∀ {C : S → List ℕ → Prop} {groups : List (List ℕ)},
      List.Forall₂ C batches groups → ∃ g ∈ groups.tail, C s g := by
    intro C groups hall
    cases hall with
    | nil => simp at hs
    | cons _ hrest => exact exists_rel_of_mem hrest hs
  cases batchesFor_cases slots availableSlots h with
  | merged hfit => simp at hs
  | refused hfit horder hall =>
    obtain ⟨g, hg, hsg⟩ := htail hall
    obtain ⟨x, hx⟩ := List.exists_mem_of_ne_nil g (ne_nil_of_mem_tail_pack _ hg)
    exact List.ne_nil_of_mem ((hsg x).mpr hx)
  | accepted hfit horder hall =>
    obtain ⟨g, hg, hsg⟩ := htail hall
    obtain ⟨b, hb⟩ := List.exists_mem_of_ne_nil g (ne_nil_of_mem_tail_pack _ hg)
    have hbar : b ∈ toList (info.getWaitBarriers t) := by
      have hflat := List.mem_flatten.mpr ⟨g, List.mem_of_mem_tail hg, hb⟩
      rwa [flatten_pack, List.nil_append] at hflat
    obtain ⟨x, hx⟩ := horder.1 b hbar
    exact List.ne_nil_of_mem ((hsg x).mpr ⟨b, hb, hx⟩)

omit [TaskSet S] in
theorem mem_chainLinks_snd {next : S} {l : S × S} (h : l ∈ chainLinks next batches) :
    l.2 = next ∨ l.2 ∈ batches := by
  induction batches generalizing next with
  | nil => simp [chainLinks] at h
  | cons batch batches ih =>
    rcases mem_cons.mp h with rfl | h
    · exact Or.inl rfl
    · rcases ih h with heq | hmem
      · exact Or.inr (mem_cons.mpr (Or.inl heq))
      · exact Or.inr (mem_cons_of_mem batch hmem)

omit [TaskSet S] in
theorem mem_chainLinks_fst {next : S} {l : S × S} (h : l ∈ chainLinks next batches) :
    l.1 ∈ batches := by
  induction batches generalizing next with
  | nil => simp [chainLinks] at h
  | cons batch batches ih =>
    rcases mem_cons.mp h with rfl | h
    · exact mem_cons_self
    · exact mem_cons_of_mem batch (ih h)

/-- The walk fails where a batch construction fails, and otherwise has made the
progress described by the links. -/
theorem satisfyTasks_spec {info₀ : BarrierInfo S} (hr : info₀.InRange) (hf : info₀.Forward)
    (n : ℕ) :
    match linksUpTo slots availableSlots info₀ n with
    | none => satisfyTasks slots availableSlots info₀ n = none
    | some links => ∃ info modifiedIR,
        satisfyTasks slots availableSlots info₀ n = some (info, modifiedIR) ∧
        Progress info₀ info n links ∧ (modifiedIR = false → info = info₀) := by
  induction n with
  | zero => exact ⟨info₀, false, rfl, .start hr, fun _ => rfl⟩
  | succ k ih =>
    unfold linksUpTo satisfyTasks
    cases hlinks : linksUpTo slots availableSlots info₀ k with
    | none =>
      simp only [hlinks] at ih
      simp only [ih, Option.bind_none]
    | some links =>
      simp only [hlinks] at ih
      obtain ⟨info, modifiedIR, heq, hprog, hsame⟩ := ih
      have hwait : info.getWaitBarriers k = info₀.getWaitBarriers k := hprog.untouched k le_rfl
      have hbatches : batchesFor slots availableSlots info k =
          batchesFor slots availableSlots info₀ k := by
        refine batchesFor_congr slots availableSlots hwait fun b hb => ?_
        have hb₀ : info₀.Waits k b := by
          rw [← mem_getWaitBarriers, ← hwait]
          exact hb
        exact hprog.producers_old b (hr.waits k b hb₀).2 ⟨k, hb⟩
      simp only [heq, Option.bind_some]
      unfold linksFor satisfyTask
      simp only [hwait]
      by_cases hk : info₀.SeveralWaits k
      · have hsize : ¬ size (info₀.getWaitBarriers k) < 2 := Nat.not_lt.mpr hk
        simp only [if_pos hk, if_neg hsize]
        have hens := ensureTaskDrivenBySingleBarrier_eq slots availableSlots info k
        rw [hwait, hbatches] at hens
        rw [hens]
        cases hb : batchesFor slots availableSlots info₀ k with
        | none => simp
        | some batches =>
          refine ⟨_, true, rfl, ?_, by simp⟩
          have hext := extends_linkBatches info (insert empty k) batches.reverse
          refine hprog.rewrite hr hk hext ?_ ?_
          · intro l hl c hc
            rcases mem_chainLinks_snd hl with heq | hmem
            · rw [heq, toList_singleton, mem_singleton] at hc
              exact hc.le
            · obtain ⟨b, hw, hu⟩ := (mem_batchesFor slots availableSlots hb c).mp
                ⟨l.2, mem_reverse.mp hmem, hc⟩
              exact (hf b c k hu hw).le
          · refine unlinks_unlinkTask _ _ (nodup_toList _) fun b hb => ?_
            refine (hext.waits k b).mpr (Or.inl ?_)
            rw [← mem_getWaitBarriers, hwait]
            exact hb
      · have hsize : size (info₀.getWaitBarriers k) < 2 := Nat.not_le.mp hk
        simp only [if_neg hk, if_pos hsize, Option.map_some, append_nil]
        exact ⟨info, modifiedIR, rfl, hprog.skip hk, hsame⟩

theorem linksUpTo_eq_none_iff (info : BarrierInfo S) (n : ℕ) :
    linksUpTo slots availableSlots info n = none ↔
      ∃ t < n, linksFor slots availableSlots info t = none := by
  induction n with
  | zero => simp [linksUpTo]
  | succ k ih =>
    rw [Nat.exists_lt_succ_right, ← ih, linksUpTo]
    cases linksUpTo slots availableSlots info k with
    | none => simp
    | some links => simp

theorem mem_linksUpTo {n : ℕ} (h : linksUpTo slots availableSlots info n = some links) (l : S × S) :
    l ∈ links ↔ ∃ t < n, ∃ new, linksFor slots availableSlots info t = some new ∧ l ∈ new := by
  induction n generalizing links with
  | zero =>
    obtain rfl : [] = links := Option.some.inj h
    simp
  | succ k ih =>
    obtain ⟨links', hlinks', hmap⟩ := Option.bind_eq_some_iff.mp h
    obtain ⟨new, hnew, rfl⟩ := Option.map_eq_some_iff.mp hmap
    rw [mem_append, ih hlinks', Nat.exists_lt_succ_right, hnew]
    simp

theorem mem_linksFor {new : List (S × S)} (h : linksFor slots availableSlots info t = some new)
    (hs : info.SeveralWaits t) :
    ∃ batches, batchesFor slots availableSlots info t = some batches ∧
      new = chainLinks (insert empty t) batches.reverse := by
  rw [linksFor, if_pos hs] at h
  obtain ⟨batches, hb, rfl⟩ := Option.map_eq_some_iff.mp h
  exact ⟨batches, hb, rfl⟩

theorem mem_link {new : List (S × S)} (h : linksFor slots availableSlots info t = some new)
    {l : S × S} (hl : l ∈ new) {x : ℕ} (hx : x ∈ toList l.1 ∨ x ∈ toList l.2) :
    info.SeveralWaits t ∧ (x = t ∨ ∃ b, info.Waits t b ∧ info.Updates x b) := by
  by_cases hs : info.SeveralWaits t
  · obtain ⟨batches, hb, rfl⟩ := mem_linksFor slots availableSlots h hs
    refine ⟨hs, ?_⟩
    have hmem : ∀ s ∈ batches, x ∈ toList s → ∃ b, info.Waits t b ∧ info.Updates x b :=
      fun s hsb hxs => (mem_batchesFor slots availableSlots hb x).mp ⟨s, hsb, hxs⟩
    rcases hx with hx | hx
    · exact Or.inr (hmem _ (mem_reverse.mp (mem_chainLinks_fst hl)) hx)
    · rcases mem_chainLinks_snd hl with heq | hin
      · rw [heq, toList_singleton, mem_singleton] at hx
        exact Or.inl hx
      · exact Or.inr (hmem _ (mem_reverse.mp hin) hx)
  · rw [linksFor, if_neg hs] at h
    obtain rfl := Option.some.inj h
    simp at hl

theorem Progress.inRange {info₀ info : BarrierInfo S} {n : ℕ} (h : Progress info₀ info n links)
    (hr : info₀.InRange) (hlinks : linksUpTo slots availableSlots info₀ n = some links) :
    info.InRange := by
  have hlen : ∀ {j l}, links[j]? = some l → info₀.numBarriers + j < info.numBarriers := by
    intro j l hl
    have := (List.getElem?_eq_some_iff.mp hl).1
    have := h.numBarriers
    omega
  have hmember : ∀ {j : ℕ} {l : S × S} {x : ℕ}, links[j]? = some l → x ∈ toList l.1 ∨
      x ∈ toList l.2 →
      x < info₀.numTasks := by
    intro j l x hl hx
    obtain ⟨t, _, new, hnew, hmem⟩ := (mem_linksUpTo slots availableSlots hlinks l).mp
      (mem_of_getElem? hl)
    obtain ⟨hs, rfl | ⟨b, -, hu⟩⟩ := mem_link slots availableSlots hnew hmem hx
    · exact hr.lt_of_severalWaits hs
    · exact (hr.updates x b hu).1
  have hsplit : ∀ b, b < info₀.numBarriers ∨ ∃ j, b = info₀.numBarriers + j := by
    intro b
    rcases Nat.lt_or_ge b info₀.numBarriers with hlt | hge
    · exact Or.inl hlt
    · exact Or.inr ⟨b - info₀.numBarriers, by omega⟩
  have hnum := h.numBarriers
  constructor
  · intro t b hu
    rw [h.numTasks]
    rcases hsplit b with hlt | ⟨j, rfl⟩
    · exact ⟨(hr.updates t b (h.updates_old b hlt t hu)).1, by omega⟩
    · obtain ⟨l, hl, ht⟩ := (h.updates_new j t).mp hu
      exact ⟨hmember hl (Or.inl ht), hlen hl⟩
  · intro t b hw
    rw [h.numTasks]
    rcases hsplit b with hlt | ⟨j, rfl⟩
    · exact ⟨(hr.waits t b ((h.waits_old b hlt t).mp hw).1).1, by omega⟩
    · obtain ⟨l, hl, ht⟩ := (h.waits_new j t).mp hw
      exact ⟨hmember hl (Or.inr ht), hlen hl⟩

end Walk

end BarrierInfo

open BarrierInfo

section Pass

variable {S : Type} [TaskSet S] (maxVariantCount : ℕ) {func : FuncOp}

/-- The pass fails with the walk, and otherwise its result has the waits and updates of
the walk's final state. -/
theorem satisfyOneWaitBarrierPerTask_spec (hw : func.WellFormed) (hf : func.Forward) :
    match linksUpTo (numSlotsUsed func) (maxVariantCount / 2)
      (buildBarrierMaps func : BarrierInfo S)
      func.tasks.length with
    | none => satisfyOneWaitBarrierPerTask S maxVariantCount func = none
    | some links => ∃ func' info,
        satisfyOneWaitBarrierPerTask S maxVariantCount func = some func' ∧
        Progress (buildBarrierMaps func : BarrierInfo S) info func.tasks.length links ∧
        (∀ t b, func'.Waits t b ↔ info.Waits t b) ∧
        ∀ t b, func'.Updates t b ↔ info.Updates t b := by
  have hr : (buildBarrierMaps func : BarrierInfo S).InRange := inRange_buildBarrierMaps func hw
  have hspec := satisfyTasks_spec (numSlotsUsed func) (maxVariantCount / 2) hr
    (forward_buildBarrierMaps func hf) func.tasks.length
  unfold satisfyOneWaitBarrierPerTask
  simp only [numTasks_buildBarrierMaps]
  cases hlinks : linksUpTo (numSlotsUsed func) (maxVariantCount / 2)
    (buildBarrierMaps func : BarrierInfo S) func.tasks.length with
  | none =>
    simp only [hlinks] at hspec
    simp only [hspec, Option.map_none]
  | some links =>
    simp only [hlinks] at hspec
    obtain ⟨info, modifiedIR, heq, hprog, hsame⟩ := hspec
    simp only [heq, Option.map_some]
    cases modifiedIR with
    | false =>
      obtain rfl := hsame rfl
      exact ⟨func, _, rfl, hprog, fun t b => (waits_buildBarrierMaps t b func).symm,
        fun t b => (updates_buildBarrierMaps t b func).symm⟩
    | true =>
      have hin := hprog.inRange (numSlotsUsed func) (maxVariantCount / 2) hr hlinks
      have hnum : info.numTasks = func.tasks.length :=
        hprog.numTasks.trans (numTasks_buildBarrierMaps func)
      exact ⟨info.updateIR func, info, rfl, hprog, fun t b => waits_updateIR info t b func hin hnum,
        fun t b => updates_updateIR info t b func hin hnum⟩

end Pass
end Vpux.Barrier
