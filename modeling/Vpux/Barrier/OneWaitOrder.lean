import Vpux.Barrier.OneWaitRun

/-! Order after `SatisfyOneWaitBarrierPerTask`. No order is lost, but the chains climb
only if the batches do, and the exemption of task 0 in the order check lets batches
through that do not. -/
namespace Vpux.Barrier
open Data Data.TaskSet VPURT Relation

namespace BarrierInfo

variable {S : Type} [TaskSet S] (slots : ℕ → ℕ) (availableSlots : ℕ)

/-- Every producer of `b` comes before every producer of `c`. -/
def Precedes (info : BarrierInfo S) (b c : ℕ) : Prop :=
  ∀ x y, info.Updates x b → info.Updates y c → x < y

def Ascending (batches : List S) : Prop :=
  batches.IsChain fun s s' => ∀ x ∈ toList s, ∀ y ∈ toList s', x < y

/-- When the batches of task `t` keep the order of its producers. Either the order check
refuses the barriers as they stand, or they all have producers and those of the first
batch precede those of all barriers after it. -/
def OrderKept (info : BarrierInfo S) (t : ℕ) : Prop :=
  let bars := toList (info.getWaitBarriers t)
  info.Refused bars ∨ ((∀ b ∈ bars, info.HasProducer b) ∧
    ∀ first rest, bars = first ++ rest → IsFirst (barriersFit slots availableSlots info) first
      rest →
      ∀ b ∈ first, ∀ c ∈ rest, info.Precedes b c)

theorem ascending_of_refused {batches : List S} {tasks : S}
    (hall : List.Forall₂ (fun (s : S) g => ∀ x, x ∈ toList s ↔ x ∈ g) batches
      (pack (tasksFit slots availableSlots) [] (orderedTasks tasks))) : Ascending batches := by
  have hnd : (orderedTasks tasks).Nodup :=
    (List.perm_insertionSort _ _).nodup_iff.mpr (nodup_toList tasks)
  have hlt : (orderedTasks tasks).Pairwise (· < ·) := by
    have hle : (orderedTasks tasks).Pairwise (· ≤ ·) := List.pairwise_insertionSort _ _
    exact (hle.and hnd).imp fun h => lt_of_le_of_ne h.1 h.2
  have hflat : (pack (tasksFit slots availableSlots) [] (orderedTasks tasks)).flatten =
      orderedTasks tasks := flatten_pack _ _ _
  rw [← hflat, List.pairwise_flatten] at hlt
  refine (isChain_congr (fun s s' g g' hs hs' => ?_) hall).mpr hlt.2.isChain
  simp only [hs _, hs' _]

variable {info : BarrierInfo S}

/-- A passed order check leaves one thing open: how the first batch lies to the rest. -/
theorem isChain_pack_iff {bars : List ℕ} (hne : bars ≠ []) (ha : info.Accepted bars) :
    (pack (barriersFit slots availableSlots info) [] bars).IsChain
        (fun g g' => ∀ b ∈ g, ∀ c ∈ g', info.Precedes b c) ↔
      ∀ first rest, bars = first ++ rest →
        IsFirst (barriersFit slots availableSlots info) first rest →
        ∀ b ∈ first, ∀ c ∈ rest, info.Precedes b c := by
  obtain ⟨x, xs, rfl⟩ := List.exists_cons_of_ne_nil hne
  obtain ⟨first, groups, hpack, hfirst⟩ := isFirst_pack (barriersFit slots availableSlots info) [x]
    xs (by simp) (Or.inl rfl)
  have hsplit : x :: xs = first ++ groups.flatten := by
    have hflat := flatten_pack (barriersFit slots availableSlots info) [x] xs
    rw [hpack, List.flatten_cons, List.singleton_append] at hflat
    exact hflat.symm
  have hhas : ∀ b ∈ first ++ groups.flatten, info.HasProducer b := hsplit ▸ ha.1
  have htrans : ∀ b c d, info.HasProducer c → info.Precedes b c → info.Precedes c d →
      info.Precedes b d := by
    rintro b c d ⟨z, hz⟩ hbc hcd u v hu hv
    exact (hbc u z hu hz).trans (hcd z v hz hv)
  -- an empty batch in front puts no constraint on the chain
  have hdrop : (pack (barriersFit slots availableSlots info) [] (x :: xs)).IsChain
        (fun g g' => ∀ b ∈ g, ∀ c ∈ g', info.Precedes b c) ↔
      (first :: groups).IsChain fun g g' => ∀ b ∈ g, ∀ c ∈ g', info.Precedes b c := by
    rw [pack_nil_cons, hpack]
    split_ifs
    · rfl
    · simp [List.isChain_cons]
  rw [hdrop]
  constructor
  · intro hchain first' rest' heq hfirst' b hb c hc
    obtain ⟨rfl, rfl⟩ := IsFirst.unique _ (barriersFit_mono slots availableSlots info) hfirst
      hfirst' (hsplit.symm.trans heq)
    have hpw := pairwise_of_isChain (P := fun g => ∃ b ∈ g, info.HasProducer b)
      (fun g g' g'' ⟨d, hd, hdp⟩ h h' b hb c hc => htrans b d c hdp (h b hb d hd) (h' d hd c hc))
      (fun g hg => ?_) hchain
    · obtain ⟨g, hg, hcg⟩ := List.mem_flatten.mp hc
      exact (List.pairwise_cons.mp hpw).1 g hg b hb c hcg
    · rw [← hpack] at hg
      obtain ⟨d, hd⟩ := List.exists_mem_of_ne_nil g (ne_nil_of_mem_pack _ (by simp) hg)
      have hflat := List.mem_flatten.mpr ⟨g, hg, hd⟩
      rw [flatten_pack, List.singleton_append] at hflat
      exact ⟨d, hd, ha.1 d hflat⟩
  · intro hbelow
    have hbelow := hbelow first groups.flatten hsplit hfirst
    -- the first batch has a producer, so task 0 produces no later barrier
    have hzero : ∀ c ∈ groups.flatten, ¬ info.Updates 0 c := by
      intro c hc h0
      obtain ⟨b, hb⟩ := List.exists_mem_of_ne_nil first hfirst.ne_nil
      obtain ⟨u, hu⟩ := hhas b (List.mem_append_left _ hb)
      exact absurd (hbelow b hb c hc u 0 hu h0) (Nat.not_lt_zero u)
    have hrest : groups.flatten.IsChain info.Precedes := by
      have hin : groups.flatten.IsChain info.InOrder :=
        (List.isChain_append.mp (hsplit ▸ ha.2)).2.1
      exact hin.imp_of_mem_imp fun b c _ hc h => h.resolve_left (hzero c hc)
    have hpw := pairwise_of_isChain htrans (fun b hb => hhas b (List.mem_append_right _ hb)) hrest
    rw [List.pairwise_flatten] at hpw
    refine List.isChain_cons.mpr ⟨fun g hg b hb c hc => ?_, hpw.2.isChain⟩
    exact hbelow b hb c (List.mem_flatten.mpr ⟨g, List.mem_of_mem_head? hg, hc⟩)

theorem ascending_iff {t : ℕ} {batches : List S} (hs : info.SeveralWaits t)
    (h : batchesFor slots availableSlots info t = some batches) :
    Ascending batches ↔
      (Linearized slots availableSlots info t → OrderKept slots availableSlots info t) := by
  have hne : toList (info.getWaitBarriers t) ≠ [] := hs.ne_nil
  cases batchesFor_cases slots availableSlots h with
  | merged hfit =>
    refine iff_of_true (List.isChain_singleton _) fun hlin => ?_
    rw [hlin.2] at hfit
    contradiction
  | refused hfit horder hall =>
    exact iff_of_true (ascending_of_refused slots availableSlots hall) fun _ => Or.inl horder
  | accepted hfit horder hall =>
    have hchain : Ascending batches ↔ (pack (barriersFit slots availableSlots info) []
        (toList (info.getWaitBarriers t))).IsChain
          fun g g' => ∀ b ∈ g, ∀ c ∈ g', info.Precedes b c := by
      refine isChain_congr (fun s s' g g' hg hg' => ?_) hall
      constructor
      · intro hss b hb c hc x y hx hy
        exact hss x ((hg x).mpr ⟨b, hb, hx⟩) y ((hg' y).mpr ⟨c, hc, hy⟩)
      · intro hgg x hx y hy
        obtain ⟨b, hb, hu⟩ := (hg x).mp hx
        obtain ⟨c, hc, hv⟩ := (hg' y).mp hy
        exact hgg b hb c hc x y hu hv
    rw [hchain, isChain_pack_iff slots availableSlots hne horder]
    constructor
    · exact fun hfirst _ => Or.inr ⟨horder.1, hfirst⟩
    · intro hkept
      rcases hkept ⟨hs, hfit⟩ with hr | hk
      · exact absurd hr (info.not_refused_of_accepted horder)
      · exact hk.2

omit [TaskSet S] in
theorem forall_mem_chainLinks {R : S → S → Prop} (next : S) (batches : List S) :
    (∀ l ∈ chainLinks next batches, R l.1 l.2) ↔
      (next :: batches).IsChain fun s s' => R s' s := by
  induction batches generalizing next with
  | nil => simp [chainLinks]
  | cons batch batches ih =>
    rw [chainLinks, List.forall_mem_cons, ih, List.isChain_cons_cons]

theorem forall_linksFor_iff (hf : info.Forward) {t : ℕ} {new : List (S × S)}
    (h : linksFor slots availableSlots info t = some new) :
    (∀ l ∈ new, ∀ x ∈ toList l.1, ∀ y ∈ toList l.2, x < y) ↔
      (Linearized slots availableSlots info t → OrderKept slots availableSlots info t) := by
  by_cases hs : info.SeveralWaits t
  · obtain ⟨batches, hb, rfl⟩ := mem_linksFor slots availableSlots h hs
    have hlast : ∀ s ∈ batches, ∀ x ∈ toList s, ∀ y ∈ toList (insert (empty : S) t), x < y := by
      intro s hsb x hx y hy
      rw [toList_singleton, List.mem_singleton] at hy
      obtain ⟨b, hw, hu⟩ := (mem_batchesFor slots availableSlots hb x).mp ⟨s, hsb, hx⟩
      exact hy ▸ hf b x t hu hw
    have hlinks := forall_mem_chainLinks
      (R := fun s s' : S => ∀ x ∈ toList s, ∀ y ∈ toList s', x < y) (insert empty t) batches.reverse
    rw [hlinks, List.isChain_cons, List.isChain_reverse,
      ← ascending_iff slots availableSlots hs hb]
    exact and_iff_right fun s hsr => hlast s (List.mem_reverse.mp (List.mem_of_mem_head? hsr))
  · rw [linksFor, if_neg hs] at h
    obtain rfl := Option.some.inj h
    exact iff_of_true (by simp) fun hlin => absurd hlin.1 hs

theorem transGen_chainLinks {R : ℕ → ℕ → Prop} {t : ℕ} (next : S) (batches : List S)
    (hnext : toList next ≠ []) (hreach : ∀ c ∈ toList next, ReflTransGen R c t)
    (hlinks : ∀ l ∈ chainLinks next batches, ∀ x ∈ toList l.1, ∀ y ∈ toList l.2, R x y)
    (hne : ∀ s ∈ batches.dropLast, toList s ≠ []) {s : S} (hs : s ∈ batches) {x : ℕ}
    (hx : x ∈ toList s) : TransGen R x t := by
  induction batches generalizing next with
  | nil => simp at hs
  | cons batch batches ih =>
    have hfirst : ∀ x ∈ toList batch, TransGen R x t := by
      intro x hx
      obtain ⟨c, hc⟩ := List.exists_mem_of_ne_nil _ hnext
      exact TransGen.head' (hlinks (batch, next) List.mem_cons_self x hx c hc) (hreach c hc)
    rcases List.mem_cons.mp hs with rfl | hs
    · exact hfirst x hx
    · cases batches with
      | nil => simp at hs
      | cons batch' batches =>
        refine ih batch (hne batch List.mem_cons_self) (fun c hc => (hfirst c hc).to_reflTransGen)
          (fun l hl => hlinks l (List.mem_cons_of_mem _ hl)) (fun s hs => ?_) hs
        exact hne s (List.mem_cons_of_mem batch hs)

section Finished

variable {slots availableSlots} {info₀ info : BarrierInfo S} {links : List (S × S)}

theorem Progress.drives_of_mem {n : ℕ} (h : Progress info₀ info n links) {l : S × S}
    (hl : l ∈ links) {x y : ℕ} (hx : x ∈ toList l.1) (hy : y ∈ toList l.2) : info.Drives x y := by
  obtain ⟨j, hj⟩ := List.getElem?_of_mem hl
  exact ⟨info₀.numBarriers + j, (h.updates_new j x).mpr ⟨l, hj, hx⟩,
    (h.waits_new j y).mpr ⟨l, hj, hy⟩⟩

variable (h : Progress info₀ info info₀.numTasks links)
include h

theorem Progress.before (hr : info₀.InRange)
    (hlinks : linksUpTo slots availableSlots info₀ info₀.numTasks = some links) {p c : ℕ}
    (hb : info₀.Before p c) : info.Before p c := by
  have hedge : ∀ p c, info₀.Drives p c → info.Before p c := by
    rintro p c ⟨b, hu, hw⟩
    obtain ⟨hc, hbar⟩ := hr.waits c b hw
    by_cases hs : info₀.SeveralWaits c
    · obtain ⟨new, hnew⟩ : ∃ new, linksFor slots availableSlots info₀ c = some new := by
        rw [← Option.ne_none_iff_exists']
        intro hnone
        have hn := (linksUpTo_eq_none_iff slots availableSlots info₀ _).mpr ⟨c, hc, hnone⟩
        rw [hlinks] at hn
        contradiction
      obtain ⟨batches, hbatches, rfl⟩ := mem_linksFor slots availableSlots hnew hs
      obtain ⟨s, hsb, hps⟩ := (mem_batchesFor slots availableSlots hbatches p).mpr ⟨b, hw, hu⟩
      refine transGen_chainLinks (insert empty c) batches.reverse ?_ ?_ ?_ ?_
        (List.mem_reverse.mpr hsb) hps
      · simp [toList_singleton]
      · intro x hx
        rw [toList_singleton, List.mem_singleton] at hx
        exact hx ▸ .refl
      · intro l hl x hx y hy
        have hmem := (mem_linksUpTo slots availableSlots hlinks l).mpr ⟨c, hc, _, hnew, hl⟩
        exact h.drives_of_mem hmem hx hy
      · intro s hsd
        rw [List.dropLast_reverse, List.mem_reverse] at hsd
        exact ne_nil_of_mem_tail_batchesFor slots availableSlots hbatches hsd
    · have hwait : info.Waits c b := (h.waits_old b hbar c).mpr ⟨hw, Or.inr hs⟩
      have hupd : info.Updates p b := by
        rw [← mem_getBarrierProducers, getBarrierProducers, h.producers_old b hbar ⟨c, hwait⟩]
        exact (info₀.mem_getBarrierProducers b p).mpr hu
      exact .single ⟨b, hupd, hwait⟩
  induction hb with
  | single hd => exact hedge _ _ hd
  | tail _ hd ih => exact ih.trans (hedge _ _ hd)

theorem Progress.forward_iff (hf : info₀.Forward) :
    info.Forward ↔ ∀ l ∈ links, ∀ x ∈ toList l.1, ∀ y ∈ toList l.2, x < y := by
  constructor
  · intro hfor l hl x hx y hy
    obtain ⟨b, hu, hw⟩ := h.drives_of_mem hl hx hy
    exact hfor b x y hu hw
  · intro hlt b x y hu hw
    rcases Nat.lt_or_ge b info₀.numBarriers with hb | hb
    · exact hf b x y (h.updates_old b hb x hu) ((h.waits_old b hb y).mp hw).1
    · obtain ⟨j, rfl⟩ := Nat.exists_eq_add_of_le hb
      obtain ⟨l, hl, hx⟩ := (h.updates_new j x).mp hu
      obtain ⟨l', hl', hy⟩ := (h.waits_new j y).mp hw
      obtain rfl : l = l' := Option.some.inj (hl.symm.trans hl')
      exact hlt l (List.mem_of_getElem? hl) x hx y hy

end Finished

end BarrierInfo

open BarrierInfo

/-- The pass keeps the order of the tasks, without a wait on a later task, exactly when
every linearized task keeps the order of its producers. -/
theorem satisfyOneWaitBarrierPerTask_order_iff (S : Type) [TaskSet S] (maxVariantCount : ℕ)
    (func : FuncOp) (hw : func.WellFormed) (hf : func.Forward) :
    (∃ func', satisfyOneWaitBarrierPerTask S maxVariantCount func = some func' ∧
        (∀ p c, func.Before p c → func'.Before p c) ∧ func'.Forward) ↔
      ∀ t, Linearized (numSlotsUsed func) (maxVariantCount / 2)
          (buildBarrierMaps func : BarrierInfo S) t →
        OrderKept (numSlotsUsed func) (maxVariantCount / 2)
          (buildBarrierMaps func : BarrierInfo S) t := by
  have hr : (buildBarrierMaps func : BarrierInfo S).InRange := inRange_buildBarrierMaps func hw
  have hfor : (buildBarrierMaps func : BarrierInfo S).Forward := forward_buildBarrierMaps func hf
  have hspec := satisfyOneWaitBarrierPerTask_spec (S := S) maxVariantCount hw hf
  cases hlinks : linksUpTo (numSlotsUsed func) (maxVariantCount / 2)
    (buildBarrierMaps func : BarrierInfo S) func.tasks.length with
  | none =>
    simp only [hlinks] at hspec
    obtain ⟨t, ht, hnone⟩ := (linksUpTo_eq_none_iff _ _ _ _).mp hlinks
    obtain ⟨hlin, hnr, hna⟩ := (linksFor_eq_none_iff _ _ _ _).mp hnone
    refine iff_of_false (by simp [hspec]) fun hall => ?_
    rcases hall t hlin with hrefused | hkept
    · exact hnr hrefused
    · exact hna (accepted_of_not_refused _ hkept.1 hnr)
  | some links =>
    simp only [hlinks] at hspec
    obtain ⟨func', info, heq, hprog, hwaits, hupdates⟩ := hspec
    rw [← numTasks_buildBarrierMaps (S := S) func] at hprog hlinks
    have hbefore : ∀ p c, func.Before p c → func'.Before p c := by
      intro p c hpc
      have h0 : (buildBarrierMaps func : BarrierInfo S).Before p c :=
        hpc.mono (fun t b => (updates_buildBarrierMaps t b func).mpr)
          fun t b => (waits_buildBarrierMaps t b func).mpr
      exact (hprog.before hr hlinks h0).mono (fun t b => (hupdates t b).mpr)
        fun t b => (hwaits t b).mpr
    have hforward : func'.Forward ↔ info.Forward :=
      ⟨fun h => h.mono (fun t b => (hupdates t b).mpr) fun t b => (hwaits t b).mpr,
        fun h => h.mono (fun t b => (hupdates t b).mp) fun t b => (hwaits t b).mp⟩
    calc (∃ func', satisfyOneWaitBarrierPerTask S maxVariantCount func = some func' ∧
            (∀ p c, func.Before p c → func'.Before p c) ∧ func'.Forward)
        ↔ func'.Forward := by
          constructor
          · rintro ⟨func'', heq', -, hf''⟩
            exact Option.some.inj (heq'.symm.trans heq) ▸ hf''
          · exact fun hf' => ⟨func', heq, hbefore, hf'⟩
      _ ↔ ∀ l ∈ links, ∀ x ∈ toList l.1, ∀ y ∈ toList l.2, x < y :=
          hforward.trans (hprog.forward_iff hfor)
      _ ↔ _ := by
          constructor
          · intro hall t hlin
            obtain ⟨new, hnew⟩ : ∃ new, linksFor (numSlotsUsed func) (maxVariantCount / 2)
                (buildBarrierMaps func : BarrierInfo S) t = some new := by
              rw [← Option.ne_none_iff_exists']
              intro hnone
              have ht : t < (buildBarrierMaps func : BarrierInfo S).numTasks :=
                hr.lt_of_severalWaits hlin.1
              have hn := (linksUpTo_eq_none_iff _ _ _ _).mpr ⟨t, ht, hnone⟩
              rw [hlinks] at hn
              contradiction
            refine (forall_linksFor_iff _ _ hfor hnew).mp (fun l hl => hall l ?_) hlin
            exact (mem_linksUpTo _ _ hlinks l).mpr ⟨t, hr.lt_of_severalWaits hlin.1, new, hnew, hl⟩
          · intro hkept l hl
            obtain ⟨t, _, new, hnew, hmem⟩ := (mem_linksUpTo _ _ hlinks l).mp hl
            exact (forall_linksFor_iff _ _ hfor hnew).mpr (hkept t) l hmem

/-- Task 4 waits for the barrier of tasks 1 and 2 and then for the one of tasks 0 and 3;
task 1 waits for task 0. -/
def crossing : FuncOp where
  numBarriers := 3
  tasks := [⟨.upa, [], [0, 2]⟩, ⟨.upa, [2], [1]⟩, ⟨.upa, [], [1]⟩, ⟨.upa, [], [0]⟩,
    ⟨.upa, [1, 0], []⟩]

theorem satisfyOneWaitBarrierPerTask_order_crossing :
    (∃ func', satisfyOneWaitBarrierPerTask (SmallSet 16) 4 crossing = some func' ∧
        (∀ p c, crossing.Before p c → func'.Before p c) ∧ func'.Forward) ↔
      ∀ t, Linearized (numSlotsUsed crossing) 2
          (buildBarrierMaps crossing : BarrierInfo (SmallSet 16)) t →
        OrderKept (numSlotsUsed crossing) 2
          (buildBarrierMaps crossing : BarrierInfo (SmallSet 16)) t :=
  satisfyOneWaitBarrierPerTask_order_iff (SmallSet 16) 4 crossing (by decide) (by decide)

/-- What the pass makes of it with two slots for producers: the batches are tasks 1 and 2,
then tasks 0 and 3. -/
def crossed : FuncOp where
  numBarriers := 5
  tasks := [⟨.upa, [4], [2, 3]⟩, ⟨.upa, [2], [4]⟩, ⟨.upa, [], [4]⟩, ⟨.upa, [4], [3]⟩,
    ⟨.upa, [3], []⟩]

/-- Task 0 waits for task 1, which waits for task 0. -/
theorem satisfyOneWaitBarrierPerTask_crossing_deadlock :
    crossing.WellFormed ∧ crossing.Forward ∧
      (∀ op ∈ crossing.tasks, getNumOfSlotsUsed op ≤ 4 / 2) ∧
      ∃ func', satisfyOneWaitBarrierPerTask (SmallSet 16) 4 crossing = some func' ∧
        ¬ func'.Forward ∧ func'.Before 0 0 := by
  refine ⟨by decide, by decide, by decide, crossed, by decide, by decide, ?_⟩
  have h01 : Drives crossed.Updates crossed.Waits 0 1 := ⟨2, ⟨_, rfl, by decide⟩, _, rfl, by decide⟩
  have h10 : Drives crossed.Updates crossed.Waits 1 0 := ⟨4, ⟨_, rfl, by decide⟩, _, rfl, by decide⟩
  exact (TransGen.single h01).tail h10

end Vpux.Barrier
