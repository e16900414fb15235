import Vpux.Barrier.OneWaitRun

/-! How many barriers a task waits for after `SatisfyOneWaitBarrierPerTask`. The walk
visits a task once, but a later task may still put it into a batch behind another
one, and that adds a wait. -/
namespace Vpux.Barrier
open Data Data.TaskSet VPURT

namespace BarrierInfo

variable {S : Type} [TaskSet S] (slots : ℕ → ℕ) (availableSlots : ℕ)

/-- Task `c` belongs to group `i` of the linearized task `t`, and not to the first. The
groups are packed from the wait barriers of `t` in stored order or, where the order check
refuses these, from their producers in ascending order. -/
def InLaterGroup (info : BarrierInfo S) (t i c : ℕ) : Prop :=
  let bars := toList (info.getWaitBarriers t)
  let tasks := orderedTasks (info.getBarriersProducerTasks (info.getWaitBarriers t))
  Linearized slots availableSlots info t ∧ 0 < i ∧
    ((info.Refused bars ∧ ∃ g, (pack (tasksFit slots availableSlots) [] tasks)[i]? = some g ∧
      c ∈ g) ∨
      (¬ info.Refused bars ∧ ∃ g, (pack (barriersFit slots availableSlots info) [] bars)[i]? =
        some g ∧
        ∃ b ∈ g, info.Updates c b))

/-- The order check of every linearized task ends before a barrier without producers. -/
def ChecksEnd (info : BarrierInfo S) : Prop :=
  ∀ t, Linearized slots availableSlots info t →
    info.Refused (toList (info.getWaitBarriers t)) ∨ ∀ b, info.Waits t b → info.HasProducer b

/-- Only tasks without wait barriers are in later groups, and only in one of them. -/
def LaterGroupsApart (info : BarrierInfo S) : Prop :=
  ∀ c t i, InLaterGroup slots availableSlots info t i c →
    (∀ b, ¬ info.Waits c b) ∧
      ∀ t' i', InLaterGroup slots availableSlots info t' i' c → t' = t ∧ i' = i

variable {info : BarrierInfo S}

theorem inLaterGroup_iff {t : ℕ} {batches : List S} (hs : info.SeveralWaits t)
    (h : batchesFor slots availableSlots info t = some batches) (i c : ℕ) :
    InLaterGroup slots availableSlots info t i c ↔
      0 < i ∧ ∃ s, batches[i]? = some s ∧ c ∈ toList s := by
  cases batchesFor_cases slots availableSlots h with
  | merged hfit =>
    refine iff_of_false (fun hlate => ?_) ?_
    · have hno := hlate.1.2
      rw [hfit] at hno
      contradiction
    · rintro ⟨hi, s, hsome, -⟩
      have := (List.getElem?_eq_some_iff.mp hsome).1
      simp only [List.length_singleton] at this
      omega
  | refused hfit horder hall =>
    have hgroups := getElem?_iff_of_forall₂ (p := fun s => c ∈ toList s) (q := fun g => c ∈ g)
      (fun s g hsg => hsg c) hall i
    rw [hgroups]
    constructor
    · rintro ⟨-, hi, ⟨-, hg⟩ | ⟨hn, -⟩⟩
      · exact ⟨hi, hg⟩
      · exact absurd horder hn
    · rintro ⟨hi, hg⟩
      exact ⟨⟨hs, hfit⟩, hi, Or.inl ⟨horder, hg⟩⟩
  | accepted hfit horder hall =>
    have hgroups := getElem?_iff_of_forall₂ (p := fun s => c ∈ toList s)
      (q := fun g => ∃ b ∈ g, info.Updates c b) (fun s g hsg => hsg c) hall i
    have hnot := info.not_refused_of_accepted horder
    rw [hgroups]
    constructor
    · rintro ⟨-, hi, ⟨hr, -⟩ | ⟨-, hg⟩⟩
      · exact absurd hr hnot
      · exact ⟨hi, hg⟩
    · rintro ⟨hi, hg⟩
      exact ⟨⟨hs, hfit⟩, hi, Or.inr ⟨hnot, hg⟩⟩

omit [TaskSet S] in
theorem map_snd_chainLinks (next : S) (batches : List S) (hne : batches ≠ []) :
    (chainLinks next batches.reverse).map Prod.snd = next :: batches.tail.reverse := by
  have hgen : ∀ (bs : List S) (next : S), bs ≠ [] →
      (chainLinks next bs).map Prod.snd = next :: bs.dropLast := by
    intro bs
    induction bs with
    | nil => simp
    | cons b bs ih =>
      intro next _
      cases bs with
      | nil => rfl
      | cons b' bs =>
        rw [chainLinks, List.map_cons, ih b (by simp), List.dropLast_cons_cons]
  rw [hgen batches.reverse next (by simpa using hne), List.dropLast_reverse]

/-- A pairwise relation on all links, task by task. -/
theorem pairwise_linksUpTo_iff (R : S × S → S × S → Prop) {n : ℕ} {links : List (S × S)}
    (h : linksUpTo slots availableSlots info n = some links) :
    links.Pairwise R ↔
      (∀ t < n, ∀ new, linksFor slots availableSlots info t = some new → new.Pairwise R) ∧
      ∀ t' < n, ∀ t < t', ∀ new new', linksFor slots availableSlots info t = some new →
        linksFor slots availableSlots info t' = some new' → ∀ l ∈ new, ∀ l' ∈ new', R l l' := by
  induction n generalizing links with
  | zero =>
    obtain rfl : [] = links := Option.some.inj h
    simp
  | succ k ih =>
    obtain ⟨links', hlinks', hmap⟩ := Option.bind_eq_some_iff.mp h
    obtain ⟨new, hnew, rfl⟩ := Option.map_eq_some_iff.mp hmap
    rw [List.pairwise_append, ih hlinks', Nat.forall_lt_succ_right, Nat.forall_lt_succ_right]
    have hcross : (∀ l ∈ links', ∀ l' ∈ new, R l l') ↔
        ∀ t < k, ∀ new₁ new₂, linksFor slots availableSlots info t = some new₁ →
          linksFor slots availableSlots info k = some new₂ → ∀ l ∈ new₁, ∀ l' ∈ new₂, R l l' := by
      constructor
      · intro hall t ht new₁ new₂ h₁ h₂ l hl l' hl'
        obtain rfl : new₂ = new := Option.some.inj (h₂.symm.trans hnew)
        exact hall l ((mem_linksUpTo slots availableSlots hlinks' l).mpr ⟨t, ht, new₁, h₁, hl⟩) l'
          hl'
      · intro hall l hl l' hl'
        obtain ⟨t, ht, new₁, h₁, hmem⟩ := (mem_linksUpTo slots availableSlots hlinks' l).mp hl
        exact hall t ht new₁ new h₁ hnew l hmem l' hl'
    have hown : (∀ new', linksFor slots availableSlots info k = some new' → new'.Pairwise R) ↔
        new.Pairwise R := by simp [hnew]
    rw [hcross, hown]
    constructor
    · rintro ⟨⟨h1, h2⟩, h3, h4⟩
      exact ⟨⟨h1, h3⟩, h2, h4⟩
    · rintro ⟨⟨h1, h3⟩, h2, h4⟩
      exact ⟨⟨h1, h2⟩, h3, h4⟩

section Links

variable {info : BarrierInfo S} {t c : ℕ}

theorem batchesFor_ne_nil {batches : List S}
    (h : batchesFor slots availableSlots info t = some batches) : batches ≠ [] := by
  rintro rfl
  cases batchesFor_cases slots availableSlots h with
  | refused hfit horder hall => exact pack_ne_nil _ _ _ (List.forall₂_nil_left_iff.mp hall)
  | accepted hfit horder hall => exact pack_ne_nil _ _ _ (List.forall₂_nil_left_iff.mp hall)

theorem exists_link_iff {new : List (S × S)} (hs : info.SeveralWaits t)
    (h : linksFor slots availableSlots info t = some new) :
    (∃ l ∈ new, c ∈ toList l.2) ↔ c = t ∨ ∃ i, InLaterGroup slots availableSlots info t i c := by
  obtain ⟨batches, hb, rfl⟩ := mem_linksFor slots availableSlots h hs
  have hmap := map_snd_chainLinks (insert empty t) batches
      (batchesFor_ne_nil slots availableSlots hb)
  have hsnd : ∀ p : S → Prop, (∃ l ∈ chainLinks (insert empty t) batches.reverse, p l.2) ↔
      ∃ s ∈ insert empty t :: batches.tail.reverse, p s := by
    intro p
    simp only [← hmap, List.mem_map, exists_exists_and_eq_and]
  have hself : c ∈ toList (insert (empty : S) t) ↔ c = t := by simp
  rw [hsnd fun s => c ∈ toList s]
  simp only [List.mem_cons, List.mem_reverse, exists_eq_or_imp, hself]
  refine or_congr_right ?_
  simp only [inLaterGroup_iff slots availableSlots hs hb]
  constructor
  · rintro ⟨s, hmem, hc⟩
    obtain ⟨i, hi⟩ := List.getElem?_of_mem hmem
    rw [List.getElem?_tail] at hi
    exact ⟨i + 1, Nat.succ_pos i, s, hi, hc⟩
  · rintro ⟨i, hi, s, hsome, hc⟩
    refine ⟨s, ?_, hc⟩
    obtain ⟨i, rfl⟩ := Nat.exists_eq_add_one.mpr hi
    rw [← List.getElem?_tail] at hsome
    exact List.mem_of_getElem? hsome

/-- Along one chain no task consumes twice when it is in one later group at most. -/
theorem pairwise_linksFor_iff {new : List (S × S)} (hf : info.Forward)
    (hs : info.SeveralWaits t) (h : linksFor slots availableSlots info t = some new) :
    new.Pairwise (fun l l' => ¬(c ∈ toList l.2 ∧ c ∈ toList l'.2)) ↔
      ∀ i i', InLaterGroup slots availableSlots info t i c →
        InLaterGroup slots availableSlots info t i' c → i = i' := by
  obtain ⟨batches, hb, rfl⟩ := mem_linksFor slots availableSlots h hs
  have hmap := map_snd_chainLinks (insert empty t) batches
      (batchesFor_ne_nil slots availableSlots hb)
  have hbelow : ∀ s ∈ batches, c ∈ toList s → c < t := by
    intro s hsb hc
    obtain ⟨b, hw, hu⟩ := (mem_batchesFor slots availableSlots hb c).mp ⟨s, hsb, hc⟩
    exact hf b c t hu hw
  rw [← List.pairwise_map (R := fun s s' => ¬(c ∈ toList s ∧ c ∈ toList s')), hmap,
    List.pairwise_cons, List.pairwise_reverse]
  have hself : ∀ s ∈ batches.tail.reverse,
      ¬(c ∈ toList (insert (empty : S) t) ∧ c ∈ toList s) := by
    rintro s hmem ⟨hc, hcs⟩
    rw [toList_singleton, List.mem_singleton] at hc
    have := hbelow s (List.mem_of_mem_tail (List.mem_reverse.mp hmem)) hcs
    omega
  rw [and_iff_right hself, List.pairwise_iff_getElem]
  simp only [inLaterGroup_iff slots availableSlots hs hb]
  constructor
  · rintro hpw i i' ⟨hi, s, hsome, hc⟩ ⟨hi', s', hsome', hc'⟩
    obtain ⟨i, rfl⟩ := Nat.exists_eq_add_one.mpr hi
    obtain ⟨i', rfl⟩ := Nat.exists_eq_add_one.mpr hi'
    rw [← List.getElem?_tail] at hsome hsome'
    obtain ⟨hlt, rfl⟩ := List.getElem?_eq_some_iff.mp hsome
    obtain ⟨hlt', rfl⟩ := List.getElem?_eq_some_iff.mp hsome'
    by_contra hne
    rcases Nat.lt_or_gt_of_ne (show i ≠ i' by omega) with hii | hii
    · exact hpw i i' hlt hlt' hii ⟨hc', hc⟩
    · exact hpw i' i hlt' hlt hii ⟨hc, hc'⟩
  · rintro huniq i i' hlt hlt' hii ⟨hc', hc⟩
    have hat : ∀ j (hj : j < batches.tail.length), batches[j + 1]? = some batches.tail[j] := by
      intro j hj
      rw [← List.getElem?_tail, List.getElem?_eq_getElem hj]
    have := huniq (i + 1) (i' + 1) ⟨Nat.succ_pos i, _, hat i hlt, hc⟩
      ⟨Nat.succ_pos i', _, hat i' hlt', hc'⟩
    omega

end Links

section Finished

variable {slots availableSlots} {info₀ info : BarrierInfo S} {links : List (S × S)}

theorem pairwise_iff_unique {c : ℕ} (links : List (S × S)) :
    links.Pairwise (fun l l' => ¬(c ∈ toList l.2 ∧ c ∈ toList l'.2)) ↔
      ∀ (j j' : ℕ) (l l' : S × S), links[j]? = some l → links[j']? = some l' → c ∈ toList l.2 →
        c ∈ toList l'.2 → j = j' := by
  rw [List.pairwise_iff_getElem]
  constructor
  · intro hpw j j' l l' hl hl' hc hc'
    obtain ⟨hlt, rfl⟩ := List.getElem?_eq_some_iff.mp hl
    obtain ⟨hlt', rfl⟩ := List.getElem?_eq_some_iff.mp hl'
    by_contra hne
    rcases Nat.lt_or_gt_of_ne hne with hjj | hjj
    · exact hpw j j' hlt hlt' hjj ⟨hc, hc'⟩
    · exact hpw j' j hlt' hlt hjj ⟨hc', hc⟩
  · rintro huniq j j' hlt hlt' hjj ⟨hc, hc'⟩
    have := huniq j j' _ _ (List.getElem?_eq_getElem hlt) (List.getElem?_eq_getElem hlt') hc hc'
    omega

theorem unique_of_not_severalWaits {c b b' : ℕ} (hs : ¬ info.SeveralWaits c) (hb : info.Waits c b)
    (hb' : info.Waits c b') : b = b' := by
  have hlen : (toList (info.getWaitBarriers c)).length ≤ 1 := by
    have hlt : ¬ 2 ≤ (toList (info.getWaitBarriers c)).length := hs
    omega
  have h1 : b ∈ toList (info.getWaitBarriers c) := hb
  have h2 : b' ∈ toList (info.getWaitBarriers c) := hb'
  match hl : toList (info.getWaitBarriers c), hlen with
  | [], _ => simp [hl] at h1
  | [x], _ =>
    rw [hl, List.mem_singleton] at h1 h2
    exact h1.trans h2.symm

/-- After the walk each task waits for one barrier at most exactly when the later groups
of all tasks are apart. -/
theorem Progress.unique_iff (h : Progress info₀ info info₀.numTasks links) (hr : info₀.InRange)
    (hf : info₀.Forward)
    (hlinks : linksUpTo slots availableSlots info₀ info₀.numTasks = some links) :
    (∀ c b b', info.Waits c b → info.Waits c b' → b = b') ↔
      LaterGroupsApart slots availableSlots info₀ := by
  have hnew : ∀ t, info₀.SeveralWaits t →
      ∃ new, linksFor slots availableSlots info₀ t = some new := by
    intro t hs
    rw [← Option.ne_none_iff_exists']
    intro hnone
    have hn := (linksUpTo_eq_none_iff slots availableSlots info₀ _).mpr
      ⟨t, hr.lt_of_severalWaits hs, hnone⟩
    rw [hlinks] at hn
    contradiction
  -- a new barrier of a consumer comes from its own rewriting or from a later group
  have hconsumer : ∀ {j : ℕ} {l : S × S} {c : ℕ}, links[j]? = some l → c ∈ toList l.2 →
      info₀.SeveralWaits c ∨ ∃ t i, InLaterGroup slots availableSlots info₀ t i c := by
    intro j l c hl hc
    obtain ⟨t, _, new, hsome, hmem⟩ := (mem_linksUpTo slots availableSlots hlinks l).mp
      (List.mem_of_getElem? hl)
    have hs := (mem_link slots availableSlots hsome hmem (Or.inr hc)).1
    rcases (exists_link_iff slots availableSlots hs hsome).mp ⟨l, hmem, hc⟩ with rfl | ⟨i, hi⟩
    · exact Or.inl hs
    · exact Or.inr ⟨t, i, hi⟩
  have hlink : ∀ {t c}, info₀.SeveralWaits t →
      (c = t ∨ ∃ i, InLaterGroup slots availableSlots info₀ t i c) →
      ∃ new, linksFor slots availableSlots info₀ t = some new ∧ ∃ l ∈ new, c ∈ toList l.2 := by
    intro t c hs hc
    obtain ⟨new, hsome⟩ := hnew t hs
    exact ⟨new, hsome, (exists_link_iff slots availableSlots hs hsome).mpr hc⟩
  constructor
  · intro huniq c t i hlate
    have hs := hlate.1.1
    have hpw : links.Pairwise (fun l l' => ¬(c ∈ toList l.2 ∧ c ∈ toList l'.2)) := by
      rw [pairwise_iff_unique]
      intro j j' l l' hl hl' hc hc'
      have := huniq c _ _ ((h.waits_new j c).mpr ⟨l, hl, hc⟩)
          ((h.waits_new j' c).mpr ⟨l', hl', hc'⟩)
      omega
    obtain ⟨hown, hcross⟩ := (pairwise_linksUpTo_iff slots availableSlots _ hlinks).mp hpw
    have hsame : ∀ t t', info₀.SeveralWaits t → info₀.SeveralWaits t' →
        (c = t ∨ ∃ i, InLaterGroup slots availableSlots info₀ t i c) →
        (c = t' ∨ ∃ i, InLaterGroup slots availableSlots info₀ t' i c) → t = t' := by
      intro t t' hst hst' hc hc'
      obtain ⟨new, hsome, l, hl, hcl⟩ := hlink hst hc
      obtain ⟨new', hsome', l', hl', hcl'⟩ := hlink hst' hc'
      by_contra hne
      rcases Nat.lt_or_gt_of_ne hne with hlt | hlt
      · exact hcross t' (hr.lt_of_severalWaits hst') t hlt new new' hsome hsome' l hl l' hl'
          ⟨hcl, hcl'⟩
      · exact hcross t (hr.lt_of_severalWaits hst) t' hlt new' new hsome' hsome l' hl' l hl
          ⟨hcl', hcl⟩
    refine ⟨fun b hw => ?_, fun t' i' hlate' => ?_⟩
    · have hct : c < t := by
        obtain ⟨batches, hb, -⟩ := mem_linksFor slots availableSlots (hnew t hs).choose_spec hs
        obtain ⟨-, s, hsome, hc⟩ := (inLaterGroup_iff slots availableSlots hs hb i c).mp hlate
        obtain ⟨b', hw', hu'⟩ := (mem_batchesFor slots availableSlots hb c).mp
          ⟨s, List.mem_of_getElem? hsome, hc⟩
        exact hf b' c t hu' hw'
      by_cases hsc : info₀.SeveralWaits c
      · have := hsame c t hsc hs (Or.inl rfl) (Or.inr ⟨i, hlate⟩)
        omega
      · obtain ⟨new, hsome, l, hl, hcl⟩ := hlink hs (Or.inr ⟨i, hlate⟩)
        obtain ⟨j, hj⟩ := List.getElem?_of_mem ((mem_linksUpTo slots availableSlots hlinks l).mpr
          ⟨t, hr.lt_of_severalWaits hs, new, hsome, hl⟩)
        have hbar := (hr.waits c b hw).2
        have := huniq c b _ ((h.waits_old b hbar c).mpr ⟨hw, Or.inr hsc⟩)
          ((h.waits_new j c).mpr ⟨l, hj, hcl⟩)
        omega
    · obtain rfl := hsame t' t hlate'.1.1 hs (Or.inr ⟨i', hlate'⟩) (Or.inr ⟨i, hlate⟩)
      obtain ⟨new, hsome⟩ := hnew t' hs
      exact ⟨rfl, (pairwise_linksFor_iff slots availableSlots hf hs hsome).mp
        (hown t' (hr.lt_of_severalWaits hs) new hsome) i' i hlate' hlate⟩
  · intro hapart c b b' hb hb'
    have hpw : links.Pairwise (fun l l' => ¬(c ∈ toList l.2 ∧ c ∈ toList l'.2)) := by
      rw [pairwise_linksUpTo_iff slots availableSlots _ hlinks]
      constructor
      · intro t _ new hsome
        by_cases hs : info₀.SeveralWaits t
        · rw [pairwise_linksFor_iff slots availableSlots hf hs hsome]
          exact fun i i' hi hi' => ((hapart c t i' hi').2 t i hi).2
        · rw [linksFor, if_neg hs] at hsome
          obtain rfl := Option.some.inj hsome
          exact .nil
      · rintro t' _ t htt new new' hsome hsome' l hl l' hl' ⟨hc, hc'⟩
        have hs := (mem_link slots availableSlots hsome hl (Or.inr hc)).1
        have hs' := (mem_link slots availableSlots hsome' hl' (Or.inr hc')).1
        rcases (exists_link_iff slots availableSlots hs hsome).mp ⟨l, hl, hc⟩ with rfl | ⟨i, hi⟩
        · rcases (exists_link_iff slots availableSlots hs' hsome').mp
            ⟨l', hl', hc'⟩ with rfl | ⟨i, hi⟩
          · omega
          · obtain ⟨b, hw⟩ := List.exists_mem_of_ne_nil _ hs.ne_nil
            exact (hapart c t' i hi).1 b hw
        · rcases (exists_link_iff slots availableSlots hs' hsome').mp
            ⟨l', hl', hc'⟩ with rfl | ⟨i', hi'⟩
          · obtain ⟨b, hw⟩ := List.exists_mem_of_ne_nil _ hs'.ne_nil
            exact (hapart c t i hi).1 b hw
          · have := ((hapart c t i hi).2 t' i' hi').1
            omega
    have hunique := (pairwise_iff_unique links).mp hpw
    have holdnew : ∀ {b j}, b < info₀.numBarriers → info.Waits c b →
        ¬ info.Waits c (info₀.numBarriers + j) := by
      intro b j hlt hw hwn
      obtain ⟨hw₀, hlast | hns⟩ := (h.waits_old b hlt c).mp hw
      · have := (hr.waits c b hw₀).1
        omega
      · obtain ⟨l, hl, hc⟩ := (h.waits_new j c).mp hwn
        rcases hconsumer hl hc with hs | ⟨t, i, hlate⟩
        · exact hns hs
        · exact (hapart c t i hlate).1 b hw₀
    rcases Nat.lt_or_ge b info₀.numBarriers with hlt | hge
    · rcases Nat.lt_or_ge b' info₀.numBarriers with hlt' | hge'
      · obtain ⟨hw, hlast | hns⟩ := (h.waits_old b hlt c).mp hb
        · have := (hr.waits c b hw).1
          omega
        · exact unique_of_not_severalWaits hns hw ((h.waits_old b' hlt' c).mp hb').1
      · obtain ⟨j', rfl⟩ := Nat.exists_eq_add_of_le hge'
        exact absurd hb' (holdnew hlt hb)
    · obtain ⟨j, rfl⟩ := Nat.exists_eq_add_of_le hge
      rcases Nat.lt_or_ge b' info₀.numBarriers with hlt' | hge'
      · exact absurd hb (holdnew hlt' hb')
      · obtain ⟨j', rfl⟩ := Nat.exists_eq_add_of_le hge'
        obtain ⟨l, hl, hc⟩ := (h.waits_new j c).mp hb
        obtain ⟨l', hl', hc'⟩ := (h.waits_new j' c).mp hb'
        rw [hunique j j' l l' hl hl' hc hc']

end Finished

end BarrierInfo
open BarrierInfo

/-- The pass leaves each task with one wait barrier at most exactly when the order checks
end and the later groups are apart. -/
theorem satisfyOneWaitBarrierPerTask_single_iff (S : Type) [TaskSet S] (maxVariantCount : ℕ)
    (func : FuncOp) (hw : func.WellFormed) (hf : func.Forward) :
    (∃ func', satisfyOneWaitBarrierPerTask S maxVariantCount func = some func' ∧
        ∀ t b b', func'.Waits t b → func'.Waits t b' → b = b') ↔
      ChecksEnd (numSlotsUsed func) (maxVariantCount / 2) (buildBarrierMaps func : BarrierInfo S) ∧
        LaterGroupsApart (numSlotsUsed func) (maxVariantCount / 2)
          (buildBarrierMaps func : BarrierInfo S) := by
  have hr : (buildBarrierMaps func : BarrierInfo S).InRange := inRange_buildBarrierMaps func hw
  have hfor : (buildBarrierMaps func : BarrierInfo S).Forward := forward_buildBarrierMaps func hf
  have hspec := satisfyOneWaitBarrierPerTask_spec (S := S) maxVariantCount hw hf
  have hends : linksUpTo (numSlotsUsed func) (maxVariantCount / 2)
      (buildBarrierMaps func : BarrierInfo S) func.tasks.length = none ↔
        ¬ ChecksEnd (numSlotsUsed func) (maxVariantCount / 2)
          (buildBarrierMaps func : BarrierInfo S) := by
    rw [linksUpTo_eq_none_iff]
    simp only [linksFor_eq_none_iff, ChecksEnd]
    constructor
    · rintro ⟨t, -, hlin, hnr, hna⟩ hends
      exact hna (accepted_of_not_refused _ ((hends t hlin).resolve_left hnr) hnr)
    · intro hn
      by_contra hno
      refine hn fun t hlin => ?_
      have ht := hr.lt_of_severalWaits hlin.1
      rw [numTasks_buildBarrierMaps] at ht
      by_contra hneither
      rw [not_or] at hneither
      exact hno ⟨t, ht, hlin, hneither.1, fun ha => hneither.2 ha.1⟩
  cases hlinks : linksUpTo (numSlotsUsed func) (maxVariantCount / 2)
    (buildBarrierMaps func : BarrierInfo S) func.tasks.length with
  | none =>
    simp only [hlinks] at hspec
    exact iff_of_false (by simp [hspec]) fun h => hends.mp hlinks h.1
  | some links =>
    simp only [hlinks] at hspec
    obtain ⟨func', info, heq, hprog, hwaits, -⟩ := hspec
    have hchecks : ChecksEnd (numSlotsUsed func) (maxVariantCount / 2)
        (buildBarrierMaps func : BarrierInfo S) := by
      by_contra hn
      rw [hends.mpr hn] at hlinks
      contradiction
    rw [← numTasks_buildBarrierMaps (S := S) func] at hprog hlinks
    rw [and_iff_right hchecks, ← hprog.unique_iff hr hfor hlinks]
    simp only [heq, Option.some.injEq, exists_eq_left', hwaits]

/-- Task 1 waits for task 0, and task 2 waits for both on barriers of their own. -/
def revisited : FuncOp where
  numBarriers := 3
  tasks := [⟨.upa, [], [0, 1]⟩, ⟨.upa, [0], [2]⟩, ⟨.upa, [1, 2], []⟩]

theorem satisfyOneWaitBarrierPerTask_single_revisited :
    (∃ func', satisfyOneWaitBarrierPerTask (SmallSet 16) 2 revisited = some func' ∧
        ∀ t b b', func'.Waits t b → func'.Waits t b' → b = b') ↔
      ChecksEnd (numSlotsUsed revisited) 1 (buildBarrierMaps revisited :
        BarrierInfo (SmallSet 16)) ∧
        LaterGroupsApart (numSlotsUsed revisited) 1
          (buildBarrierMaps revisited : BarrierInfo (SmallSet 16)) :=
  satisfyOneWaitBarrierPerTask_single_iff (SmallSet 16) 2 revisited (by decide) (by decide)

/-- With one slot for producers, task 2 puts task 1 into a batch after task 0: the wait
of task 1 for that batch comes on top of the one it had. -/
theorem satisfyOneWaitBarrierPerTask_two_waits :
    revisited.WellFormed ∧ revisited.Forward ∧
      (∀ op ∈ revisited.tasks, getNumOfSlotsUsed op ≤ 2 / 2) ∧
      ∃ func', satisfyOneWaitBarrierPerTask (SmallSet 16) 2 revisited = some func' ∧
        ∃ t b b', func'.Waits t b ∧ func'.Waits t b' ∧ b ≠ b' := by
  refine ⟨by decide, by decide, by decide,
    ⟨5, [⟨.upa, [], [0, 4]⟩, ⟨.upa, [0, 4], [3]⟩, ⟨.upa, [3], []⟩]⟩, by decide, 1, 0, 4, ?_⟩
  exact ⟨⟨_, rfl, by decide⟩, ⟨_, rfl, by decide⟩, by decide⟩

end Vpux.Barrier
