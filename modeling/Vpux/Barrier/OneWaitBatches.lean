import Vpux.Barrier.OneWait

/-! What the two batch constructions return: greedy packings of the wait barriers
in stored order, or of their producers in ascending order. -/
namespace Vpux.Barrier
open Data Data.TaskSet VPURT

namespace BarrierInfo

variable {S : Type} [TaskSet S]

section Slots

variable (slots : ℕ → ℕ) (availableSlots : ℕ)

theorem fitsFrom_iff {count : ℕ} (hc : count ≤ availableSlots) (l : List ℕ) :
    fitsFrom slots availableSlots count l = true ↔ count + (l.map slots).sum ≤ availableSlots := by
  induction l generalizing count with
  | nil => simpa [fitsFrom] using hc
  | cons t l ih =>
    unfold fitsFrom
    dsimp only
    split_ifs with h
    · simp only [List.map_cons, List.sum_cons, false_iff]
      omega
    · rw [ih (by omega), List.map_cons, List.sum_cons, Nat.add_assoc]

theorem canMergeBarriersForTasks_iff (s : S) :
    canMergeBarriersForTasks slots availableSlots s = true ↔
      ((toList s).map slots).sum ≤ availableSlots := by
  rw [canMergeBarriersForTasks, fitsFrom_iff slots availableSlots (Nat.zero_le _), Nat.zero_add]

theorem canMergeBarriersForTasks_mono {s s' : S} (hsub : ∀ x, x ∈ toList s → x ∈ toList s')
    (h : canMergeBarriersForTasks slots availableSlots s' = true) :
    canMergeBarriersForTasks slots availableSlots s = true := by
  rw [canMergeBarriersForTasks_iff] at h ⊢
  have hsp : (toList s).Subperm (toList s') := List.subperm_of_subset (nodup_toList s) hsub
  obtain ⟨l, hperm, hsl⟩ := hsp
  have hsum : ((toList s).map slots).sum = (l.map slots).sum := ((hperm.map slots).sum_eq).symm
  exact hsum ▸ ((hsl.map slots).sum_le_sum (by simp)).trans h

theorem canMergeBarriersForTasks_congr {s s' : S} (h : ∀ x, x ∈ toList s ↔ x ∈ toList s') :
    canMergeBarriersForTasks slots availableSlots s =
      canMergeBarriersForTasks slots availableSlots s' :=
  Bool.eq_iff_iff.mpr ⟨canMergeBarriersForTasks_mono slots availableSlots fun x => (h x).mpr,
    canMergeBarriersForTasks_mono slots availableSlots fun x => (h x).mp⟩

def tasksFit (tasks : List ℕ) : Bool := (tasks.map slots).sum ≤ availableSlots

theorem createLegalVariantBatchesFrom_spec (done : List S) (back : S) (cur tasks : List ℕ)
    (hback : ∀ x, x ∈ toList back ↔ x ∈ cur) :
    ∃ batches, createLegalVariantBatchesFrom slots availableSlots done back (cur.map slots).sum
      tasks =
        done ++ batches ∧
      List.Forall₂ (fun (s : S) g => ∀ x, x ∈ toList s ↔ x ∈ g) batches
        (pack (tasksFit slots availableSlots) cur tasks) := by
  induction tasks generalizing done back cur with
  | nil => exact ⟨[back], rfl, .cons hback .nil⟩
  | cons t tasks ih =>
    have hsum : (cur.map slots).sum + slots t = ((cur ++ [t]).map slots).sum := by simp
    unfold createLegalVariantBatchesFrom pack
    by_cases hfit : (cur.map slots).sum + slots t ≤ availableSlots
    · have hfit' : tasksFit slots availableSlots (cur ++ [t]) = true := by
        simpa [tasksFit] using hfit
      rw [if_pos hfit, if_pos hfit', hsum]
      refine ih done (insert back t) (cur ++ [t]) fun x => ?_
      rw [mem_insert, hback, List.mem_append, List.mem_singleton, or_comm]
    · have hfit' : ¬ tasksFit slots availableSlots (cur ++ [t]) = true := by
        simpa [tasksFit] using hfit
      rw [if_neg hfit, if_neg hfit']
      obtain ⟨batches, heq, hall⟩ := ih (done ++ [back]) (insert empty t) [t] (by simp)
      refine ⟨back :: batches, ?_, .cons hback hall⟩
      simpa using heq

end Slots

section Order

variable (info : BarrierInfo S)

theorem mem_producersOf (bars : List ℕ) (t : ℕ) :
    t ∈ toList (info.producersOf bars) ↔ ∃ b ∈ bars, info.Updates t b := by
  have hgen : ∀ acc : S,
      t ∈ toList (bars.foldl (fun acc b => setUnion acc (info.getBarrierProducers b)) acc) ↔
        (∃ b ∈ bars, info.Updates t b) ∨ t ∈ toList acc := by
    induction bars with
    | nil => simp
    | cons b bars ih =>
      intro acc
      rw [List.foldl_cons, ih, mem_setUnion, mem_getBarrierProducers, ← or_assoc]
      simp only [List.mem_cons, exists_eq_or_imp, or_comm]
  rw [producersOf, hgen, toList_empty]
  simp

def HasProducer (b : ℕ) : Prop := ∃ t, info.Updates t b

/-- Barrier `c` may come after `b`: task 0 produces it, or all its producers come later. -/
def InOrder (b c : ℕ) : Prop :=
  info.Updates 0 c ∨ ∀ x y, info.Updates x b → info.Updates y c → x < y

/-- The order check refuses: some leading barriers have producers and are out of order. -/
def Refused (bars : List ℕ) : Prop :=
  ∃ pre, pre <+: bars ∧ (∀ b ∈ pre, info.HasProducer b) ∧ ¬ pre.IsChain info.InOrder

/-- The order check passes. -/
def Accepted (bars : List ℕ) : Prop :=
  (∀ b ∈ bars, info.HasProducer b) ∧ bars.IsChain info.InOrder

theorem not_refused_of_accepted {bars : List ℕ} (h : info.Accepted bars) : ¬ info.Refused bars := by
  rintro ⟨pre, ⟨post, rfl⟩, _, hn⟩
  exact hn (List.isChain_append.mp h.2).1

theorem accepted_of_not_refused {bars : List ℕ} (hhas : ∀ b ∈ bars, info.HasProducer b)
    (hr : ¬ info.Refused bars) : info.Accepted bars := by
  refine ⟨hhas, ?_⟩
  by_contra hn
  exact hr ⟨bars, List.prefix_rfl, hhas, hn⟩

/-- The order check by itself; `none` when it meets a barrier without producers. -/
def orderCheck : ℕ → List ℕ → Option Bool
  | _, [] => some true
  | prevLastUserInd, b :: bars =>
    match (toList (info.getBarrierProducers b)).min?,
      (toList (info.getBarrierProducers b)).max? with
    | some firstUserInd, some lastUserInd =>
      if 0 < firstUserInd ∧ firstUserInd ≤ prevLastUserInd then some false
      else orderCheck lastUserInd bars
    | _, _ => none

/-- `b` may come after a barrier whose last producer is `prev`. -/
def Follows (prev b : ℕ) : Prop := info.Updates 0 b ∨ ∀ y, info.Updates y b → prev < y

theorem follows_zero (b : ℕ) : info.Follows 0 b := by
  by_cases h : info.Updates 0 b
  · exact Or.inl h
  · refine Or.inr fun y hy => Nat.pos_of_ne_zero ?_
    rintro rfl
    exact h hy

theorem orderCheck_cons (prev b : ℕ) (bars : List ℕ) :
    (¬ info.HasProducer b ∧ info.orderCheck prev (b :: bars) = none) ∨
    (info.HasProducer b ∧ ¬ info.Follows prev b ∧ info.orderCheck prev (b :: bars) = some false) ∨
    ∃ last, info.HasProducer b ∧ info.Follows prev b ∧
      (∀ c, info.Follows last c ↔ info.InOrder b c) ∧
      info.orderCheck prev (b :: bars) = info.orderCheck last bars := by
  have hmem := info.mem_getBarrierProducers b
  cases hmin : (toList (info.getBarrierProducers b)).min? with
  | none =>
    refine Or.inl ⟨?_, by rw [orderCheck, hmin]⟩
    rintro ⟨t, ht⟩
    rw [List.min?_eq_none_iff] at hmin
    simpa [hmin] using (hmem t).mpr ht
  | some first =>
    obtain ⟨hfirst, hle⟩ := List.min?_eq_some_iff.mp hmin
    have hhas : info.HasProducer b := ⟨first, (hmem first).mp hfirst⟩
    cases hmax : (toList (info.getBarrierProducers b)).max? with
    | none =>
      rw [List.max?_eq_none_iff] at hmax
      simp [hmax] at hfirst
    | some last =>
      obtain ⟨hlast, hge⟩ := List.max?_eq_some_iff.mp hmax
      have hfollows : info.Follows prev b ↔ ¬(0 < first ∧ first ≤ prev) := by
        constructor
        · rintro (h0 | h) ⟨hpos, hprev⟩
          · have := hle 0 ((hmem 0).mpr h0)
            omega
          · have := h first ((hmem first).mp hfirst)
            omega
        · intro hn
          by_cases h0 : first = 0
          · exact Or.inl (h0 ▸ (hmem first).mp hfirst)
          · refine Or.inr fun y hy => ?_
            have := hle y ((hmem y).mpr hy)
            omega
      have hstep : ∀ c, info.Follows last c ↔ info.InOrder b c := by
        intro c
        refine or_congr_right ⟨fun h x y hx hy => ?_, fun h y hy => ?_⟩
        · exact (hge x ((hmem x).mpr hx)).trans_lt (h y hy)
        · exact h last y ((hmem last).mp hlast) hy
      by_cases hc : 0 < first ∧ first ≤ prev
      · refine Or.inr (Or.inl ⟨hhas, fun h => hfollows.mp h hc, ?_⟩)
        rw [orderCheck, hmin, hmax]
        exact if_pos hc
      · refine Or.inr (Or.inr ⟨last, hhas, hfollows.mpr hc, hstep, ?_⟩)
        rw [orderCheck, hmin, hmax]
        exact if_neg hc

theorem orderCheck_eq_true_iff (prev : ℕ) (bars : List ℕ) :
    info.orderCheck prev bars = some true ↔
      (∀ b ∈ bars.head?, info.Follows prev b) ∧ info.Accepted bars := by
  induction bars generalizing prev with
  | nil => simp [orderCheck, Accepted]
  | cons b bars ih =>
    have hhead : ∀ c, c ∈ (b :: bars).head? ↔ c = b := by simp [eq_comm]
    obtain ⟨hno, heq⟩ | ⟨hhas, hnf, heq⟩ | ⟨last, hhas, hf, hstep, heq⟩ :=
      info.orderCheck_cons prev b bars
    · rw [heq]
      refine iff_of_false (by simp) fun h => hno (h.2.1 b List.mem_cons_self)
    · rw [heq]
      refine iff_of_false (by simp) fun h => hnf (h.1 b ((hhead b).mpr rfl))
    · rw [heq, ih, Accepted, Accepted, List.isChain_cons]
      simp only [hhead, forall_eq, hf, true_and, List.mem_cons, forall_eq_or_imp, hhas, hstep]
      exact and_left_comm

theorem orderCheck_eq_false_iff (prev : ℕ) (bars : List ℕ) :
    info.orderCheck prev bars = some false ↔
      ∃ pre, pre <+: bars ∧ (∀ b ∈ pre, info.HasProducer b) ∧
        ¬ ((∀ b ∈ pre.head?, info.Follows prev b) ∧ pre.IsChain info.InOrder) := by
  induction bars generalizing prev with
  | nil => simp [orderCheck]
  | cons b bars ih =>
    have hhead : ∀ (c : ℕ) l, c ∈ (b :: l).head? ↔ c = b := by simp [eq_comm]
    obtain ⟨hno, heq⟩ | ⟨hhas, hnf, heq⟩ | ⟨last, hhas, hf, hstep, heq⟩ :=
      info.orderCheck_cons prev b bars
    · rw [heq]
      refine iff_of_false (by simp) ?_
      rintro ⟨pre, hpre, hall, hn⟩
      cases pre with
      | nil => exact hn (by simp)
      | cons c pre =>
        obtain ⟨rfl, _⟩ := List.cons_prefix_cons.mp hpre
        exact hno (hall c List.mem_cons_self)
    · rw [heq]
      refine iff_of_true rfl ⟨[b], ?_, by simpa using hhas, fun h => hnf (h.1 b (by simp))⟩
      simp
    · rw [heq, ih]
      constructor
      · rintro ⟨pre, hpre, hall, hn⟩
        refine ⟨b :: pre, List.cons_prefix_cons.mpr ⟨rfl, hpre⟩, ?_, fun h => hn ?_⟩
        · simpa [hhas] using hall
        · obtain ⟨h1, h2⟩ := List.isChain_cons.mp h.2
          exact ⟨fun c hc => (hstep c).mpr (h1 c hc), h2⟩
      · rintro ⟨pre, hpre, hall, hn⟩
        cases pre with
        | nil => exact absurd (by simp) hn
        | cons c pre =>
          obtain ⟨rfl, hpre'⟩ := List.cons_prefix_cons.mp hpre
          refine ⟨pre, hpre', fun d hd => hall d (List.mem_cons_of_mem c hd), fun h => hn ⟨?_, ?_⟩⟩
          · intro d hd
            exact (hhead d pre).mp hd ▸ hf
          · exact List.isChain_cons.mpr ⟨fun d hd => (hstep d).mp (h.1 d hd), h.2⟩

theorem orderCheck_zero_eq_true_iff (bars : List ℕ) :
    info.orderCheck 0 bars = some true ↔ info.Accepted bars := by
  simp [orderCheck_eq_true_iff, follows_zero]

theorem orderCheck_zero_eq_false_iff (bars : List ℕ) :
    info.orderCheck 0 bars = some false ↔ info.Refused bars := by
  simp [orderCheck_eq_false_iff, follows_zero, Refused]

end Order

section Batches

variable (slots : ℕ → ℕ) (availableSlots : ℕ) (info : BarrierInfo S)

def barriersFit (bars : List ℕ) : Bool :=
  canMergeBarriersForTasks slots availableSlots (info.producersOf bars)

theorem barriersFit_mono (l l' : List ℕ)
    (h : barriersFit slots availableSlots info (l ++ l') = true) :
    barriersFit slots availableSlots info l = true := by
  refine canMergeBarriersForTasks_mono slots availableSlots (fun x hx => ?_) h
  obtain ⟨b, hb, hu⟩ := (info.mem_producersOf l x).mp hx
  exact (info.mem_producersOf _ x).mpr ⟨b, List.mem_append_left l' hb, hu⟩

/-- The set `s` is made of the producers of a group of barriers. -/
def Covers (s : S) (bars : List ℕ) : Prop := ∀ x, x ∈ toList s ↔ ∃ b ∈ bars, info.Updates x b

/-- The loop fails, refuses and packs as the order check says. -/
theorem createProducerBatchesFrom_spec (prev : ℕ) (done : List S) (back : S) (cur bars : List ℕ)
    (hback : info.Covers back cur) :
    match info.orderCheck prev bars with
    | none => createProducerBatchesFrom slots availableSlots info prev done back bars = none
    | some false => createProducerBatchesFrom slots availableSlots info prev done back bars =
        some []
    | some true => ∃ batches,
        createProducerBatchesFrom slots availableSlots info prev done back bars =
          some (done ++ batches) ∧
        List.Forall₂ info.Covers batches (pack (barriersFit slots availableSlots info) cur
          bars) := by
  induction bars generalizing prev done back cur with
  | nil => exact ⟨[back], rfl, .cons hback .nil⟩
  | cons b bars ih =>
    have hb : info.Covers (info.getBarrierProducers b) [b] := by
      intro x
      simp [mem_getBarrierProducers]
    have hmerged : info.Covers (setUnion back (info.getBarrierProducers b)) (cur ++ [b]) := by
      intro x
      rw [mem_setUnion, hback x, hb x]
      simp only [List.mem_append, or_and_right, exists_or]
      exact or_comm
    have hfit : canMergeBarriersForTasks slots availableSlots
        (setUnion back (info.getBarrierProducers b)) =
          barriersFit slots availableSlots info (cur ++ [b]) :=
      canMergeBarriersForTasks_congr slots availableSlots fun x =>
        (hmerged x).trans (info.mem_producersOf _ x).symm
    unfold orderCheck createProducerBatchesFrom pack
    dsimp only
    rw [hfit]
    cases (toList (info.getBarrierProducers b)).min? with
    | none => rfl
    | some first =>
      cases (toList (info.getBarrierProducers b)).max? with
      | none => rfl
      | some last =>
        by_cases hrefuse : 0 < first ∧ first ≤ prev
        · simp only [if_pos hrefuse]
        · simp only [if_neg hrefuse]
          by_cases hnew : barriersFit slots availableSlots info (cur ++ [b]) = true
          · simp only [if_pos hnew]
            exact ih last done _ _ hmerged
          · simp only [if_neg hnew]
            have hrest := ih last (done ++ [back]) _ _ hb
            cases hcheck : info.orderCheck last bars with
            | none => simpa only [hcheck] using hrest
            | some ok =>
              cases ok with
              | false => simpa only [hcheck] using hrest
              | true =>
                simp only [hcheck] at hrest ⊢
                obtain ⟨batches, heq, hall⟩ := hrest
                refine ⟨back :: batches, ?_, .cons hback hall⟩
                simpa using heq

variable (waitBarriers parallelProducers : S)

theorem legalBatches_eq_none (hr : ¬ info.Refused (toList waitBarriers))
    (ha : ¬ info.Accepted (toList waitBarriers)) :
    legalBatches slots availableSlots info waitBarriers parallelProducers = none := by
  have hspec := createProducerBatchesFrom_spec slots availableSlots info 0 [] empty []
    (toList waitBarriers) (by simp [Covers])
  rw [← orderCheck_zero_eq_false_iff] at hr
  rw [← orderCheck_zero_eq_true_iff] at ha
  unfold legalBatches createProducerBatches
  cases hcheck : info.orderCheck 0 (toList waitBarriers) with
  | none =>
    simp only [hcheck] at hspec
    rw [hspec, Option.map_none]
  | some ok => cases ok <;> contradiction

theorem legalBatches_of_accepted (ha : info.Accepted (toList waitBarriers)) :
    ∃ batches, legalBatches slots availableSlots info waitBarriers parallelProducers =
      some batches ∧
      List.Forall₂ info.Covers batches
        (pack (barriersFit slots availableSlots info) [] (toList waitBarriers)) := by
  have hspec := createProducerBatchesFrom_spec slots availableSlots info 0 [] empty []
    (toList waitBarriers) (by simp [Covers])
  simp only [(info.orderCheck_zero_eq_true_iff _).mpr ha, List.nil_append] at hspec
  obtain ⟨batches, heq, hall⟩ := hspec
  refine ⟨batches, ?_, hall⟩
  have hne : batches ≠ [] := by
    rintro rfl
    have hnil : pack (barriersFit slots availableSlots info) [] (toList waitBarriers) ≠ [] :=
      pack_ne_nil _ _ _
    exact hnil (List.forall₂_nil_left_iff.mp hall)
  unfold legalBatches createProducerBatches
  simp [heq, hne]

def orderedTasks (tasks : S) : List ℕ := (toList tasks).insertionSort (· ≤ ·)

theorem legalBatches_of_refused (hr : info.Refused (toList waitBarriers)) :
    ∃ batches, legalBatches slots availableSlots info waitBarriers parallelProducers =
      some batches ∧
      List.Forall₂ (fun (s : S) g => ∀ x, x ∈ toList s ↔ x ∈ g) batches
        (pack (tasksFit slots availableSlots) [] (orderedTasks parallelProducers)) := by
  have hspec := createProducerBatchesFrom_spec slots availableSlots info 0 [] empty []
    (toList waitBarriers) (by simp [Covers])
  simp only [(info.orderCheck_zero_eq_false_iff _).mpr hr] at hspec
  obtain ⟨batches, heq, hall⟩ := createLegalVariantBatchesFrom_spec slots availableSlots []
    (empty : S) [] (orderedTasks parallelProducers) (by simp)
  refine ⟨batches, ?_, hall⟩
  unfold legalBatches createProducerBatches
  simp only [hspec, Option.map_some, List.isEmpty_nil, if_true]
  exact congrArg some heq

end Batches

end BarrierInfo
end Vpux.Barrier
