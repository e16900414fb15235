import Vpux.Simulator.Steps
import Mathlib.Data.Finset.Card

/-! Interleavings of a function: barriers are mapped in order to free physical barriers, and the
heads of the queues are executed, in any order. Their progress, which forgets what physical
barriers are taken, is confluent. -/
namespace Vpux.Simulator
open Relation

/-- What an interleaving has done so far. -/
structure Progress where
  bar : ℕ
  pos : Queue → ℕ

/-- The state of an interleaving, with the barriers that hold the physical ones. -/
structure Interleaving extends Progress where
  toVirtual : ℕ → Option ℕ

def Progress.pop (p : Progress) (q : Queue) : Progress :=
  { p with pos := Function.update p.pos q (p.pos q + 1) }

theorem Progress.pop_pos_self (p : Progress) (q : Queue) : (p.pop q).pos q = p.pos q + 1 :=
  Function.update_self _ _ _

theorem Progress.pop_pos_of_ne (p : Progress) {q q' : Queue} (h : q' ≠ q) :
    (p.pop q).pos q' = p.pos q' :=
  Function.update_of_ne h _ _

theorem Progress.pop_comm (p : Progress) (q q' : Queue) : (p.pop q).pop q' = (p.pop q').pop q := by
  by_cases h : q = q'
  · rw [h]
  · unfold pop
    simp only [Function.update_of_ne h, Function.update_of_ne (Ne.symm h)]
    rw [Function.update_comm h]

theorem Progress.pos_le_pop (p : Progress) (q q' : Queue) : p.pos q' ≤ (p.pop q).pos q' := by
  by_cases h : q' = q
  · subst h
    rw [pop_pos_self]
    exact Nat.le_succ _
  · rw [pop_pos_of_ne p h]

namespace BarrierSimulator

variable (sim : BarrierSimulator) (limit : ℕ)

/-- Some entry that is not executed yet has a property. -/
def anyLeft (pos : Queue → ℕ) (p : BarrierUserConfig → Bool) : Bool :=
  sim.queues.any fun q => ((sim.tasks.queue q).drop (pos q)).any p

def toProduce (pos : Queue → ℕ) (v : ℕ) : Bool := sim.anyLeft pos fun user => v ∈ user.producer

def toConsume (pos : Queue → ℕ) (v : ℕ) : Bool := sim.anyLeft pos fun user => v ∈ user.consumer

/-- The wait barriers of a task are mapped and produced, its update barriers mapped. -/
structure Ready (p : Progress) (user : BarrierUserConfig) : Prop where
  waits : ∀ v ∈ user.consumer, v < p.bar ∧ sim.toProduce p.pos v = false
  posts : ∀ v ∈ user.producer, v < p.bar

/-- The head of a queue is executed; a barrier without consumers left gives its physical
barrier back. -/
def execute (st : Interleaving) (q : Queue) (user : BarrierUserConfig) : Interleaving :=
  { st.toProgress.pop q with
    toVirtual := fun r => (st.toVirtual r).filter fun v =>
      !(v ∈ user.consumer && !sim.toConsume (st.toProgress.pop q).pos v) }

inductive InterleavingStep : Interleaving → Interleaving → Prop
  | map {st : Interleaving} {r : ℕ} (hbar : st.bar < sim.numBarriers) (hr : r < limit)
      (hfree : st.toVirtual r = none) :
      InterleavingStep st { st with
        bar := st.bar + 1
        toVirtual := Function.update st.toVirtual r (some st.bar) }
  | execute {st : Interleaving} {q : Queue} {user : BarrierUserConfig} (hq : q ∈ sim.queues)
      (huser : (sim.tasks.queue q)[st.pos q]? = some user)
      (hready : sim.Ready st.toProgress user) : InterleavingStep st (sim.execute st q user)

def interleavingStart : Interleaving where
  bar := 0
  pos := fun _ => 0
  toVirtual := fun _ => none

/-- All barriers are mapped and all tasks executed. -/
def Complete (p : Progress) : Prop :=
  p.bar = sim.numBarriers ∧ ∀ q ∈ sim.queues, p.pos q = (sim.tasks.queue q).length

/-- A mapped barrier is in use until its last consumer is executed. -/
def inUse (pos : Queue → ℕ) (v : ℕ) : Bool :=
  sim.toConsume pos v || !sim.toConsume (fun _ => 0) v

def numInUse (p : Progress) : ℕ := ((Finset.range p.bar).filter fun v => sim.inUse p.pos v).card

inductive ProgressStep : Progress → Progress → Prop
  | map {p : Progress} (hbar : p.bar < sim.numBarriers) (hfree : sim.numInUse p < limit) :
      ProgressStep p { p with bar := p.bar + 1 }
  | execute {p : Progress} {q : Queue} {user : BarrierUserConfig} (hq : q ∈ sim.queues)
      (huser : (sim.tasks.queue q)[p.pos q]? = some user) (hready : sim.Ready p user) :
      ProgressStep p (p.pop q)

variable {sim} {limit}

section Left

variable {pos : Queue → ℕ} {q : Queue} {prop : BarrierUserConfig → Bool} {p : Progress}

theorem anyLeft_iff : sim.anyLeft pos prop = true ↔ ∃ q ∈ sim.queues, ∃ i, pos q ≤ i ∧
    ∃ user, (sim.tasks.queue q)[i]? = some user ∧ prop user = true := by
  unfold anyLeft
  simp only [List.any_eq_true]
  constructor
  · rintro ⟨q, hq, user, huser, hprop⟩
    obtain ⟨i, hi⟩ := List.mem_iff_getElem?.mp huser
    rw [List.getElem?_drop] at hi
    exact ⟨q, hq, pos q + i, Nat.le_add_right _ _, user, hi, hprop⟩
  · rintro ⟨q, hq, i, hle, user, huser, hprop⟩
    refine ⟨q, hq, user, List.mem_iff_getElem?.mpr ⟨i - pos q, ?_⟩, hprop⟩
    rw [List.getElem?_drop, Nat.add_sub_cancel' hle]
    exact huser

theorem anyLeft_of_pop (h : sim.anyLeft (p.pop q).pos prop = true) :
    sim.anyLeft p.pos prop = true := by
  obtain ⟨q', hq', i, hle, huser⟩ := anyLeft_iff.mp h
  exact anyLeft_iff.mpr ⟨q', hq', i, (p.pos_le_pop q q').trans hle, huser⟩

variable {user : BarrierUserConfig}

theorem anyLeft_pop (h : sim.anyLeft p.pos prop = true)
    (huser : (sim.tasks.queue q)[p.pos q]? = some user) :
    sim.anyLeft (p.pop q).pos prop = true ∨ prop user = true := by
  obtain ⟨q', hq', i, hle, user', huser', hprop⟩ := anyLeft_iff.mp h
  by_cases hhead : q' = q ∧ i = p.pos q
  · obtain ⟨rfl, rfl⟩ := hhead
    obtain rfl : user' = user := Option.some.inj (huser'.symm.trans huser)
    exact Or.inr hprop
  · refine Or.inl (anyLeft_iff.mpr ⟨q', hq', i, ?_, user', huser', hprop⟩)
    by_cases hq : q' = q
    · subst hq
      rw [p.pop_pos_self]
      have hne : i ≠ p.pos q' := fun heq => hhead ⟨rfl, heq⟩
      omega
    · rw [p.pop_pos_of_ne hq]
      exact hle

theorem Ready.pop (h : sim.Ready p user) :
    sim.Ready (p.pop q) user where
  waits v hv := by
    refine ⟨(h.waits v hv).1, ?_⟩
    by_contra hleft
    have hbefore := anyLeft_of_pop (Bool.not_eq_false _ ▸ hleft)
    rw [show sim.anyLeft p.pos _ = sim.toProduce p.pos v from rfl, (h.waits v hv).2] at hbefore
    cases hbefore
  posts := h.posts

theorem Ready.map (h : sim.Ready p user) :
    sim.Ready { p with bar := p.bar + 1 } user where
  waits v hv := ⟨Nat.lt_succ_of_lt (h.waits v hv).1, (h.waits v hv).2⟩
  posts v hv := Nat.lt_succ_of_lt (h.posts v hv)

theorem inUse_of_pop {v : ℕ} (h : sim.inUse (p.pop q).pos v = true) :
    sim.inUse p.pos v = true := by
  unfold inUse at h ⊢
  rw [Bool.or_eq_true] at h ⊢
  exact h.imp anyLeft_of_pop id

theorem numInUse_pop : sim.numInUse (p.pop q) ≤ sim.numInUse p := by
  apply Finset.card_le_card
  intro v hv
  rw [Finset.mem_filter] at hv ⊢
  exact ⟨hv.1, inUse_of_pop hv.2⟩

end Left

theorem diamond_progressStep : Graph.Diamond (sim.ProgressStep limit) := by
  intro a b c hb hc
  cases hb with
  | map hbar hfree =>
    cases hc with
    | map _ _ => exact Or.inl rfl
    | execute hq huser hready =>
      exact Or.inr ⟨_, .execute hq huser hready.map,
        .map hbar (Nat.lt_of_le_of_lt numInUse_pop hfree)⟩
  | @execute q user hq huser hready =>
    cases hc with
    | map hbar hfree =>
      exact Or.inr ⟨_, .map hbar (Nat.lt_of_le_of_lt numInUse_pop hfree),
        .execute hq huser hready.map⟩
    | @execute q' user' hq' huser' hready' =>
      by_cases hsame : q = q'
      · subst hsame
        exact Or.inl rfl
      · have hhead : (sim.tasks.queue q')[(a.pop q).pos q']? = some user' := by
          rw [a.pop_pos_of_ne (Ne.symm hsame)]
          exact huser'
        have hhead' : (sim.tasks.queue q)[(a.pop q').pos q]? = some user := by
          rw [a.pop_pos_of_ne hsame]
          exact huser
        refine Or.inr ⟨_, .execute hq' hhead hready'.pop, ?_⟩
        rw [a.pop_comm q q']
        exact .execute hq hhead' hready.pop

/-- The physical barriers that are taken are held by the mapped barriers in use. -/
structure Consistent (sim : BarrierSimulator) (limit : ℕ) (st : Interleaving) : Prop where
  holder : ∀ r v, st.toVirtual r = some v → r < limit ∧ v < st.bar ∧ sim.inUse st.pos v = true
  held : ∀ v < st.bar, sim.inUse st.pos v = true → ∃ r, st.toVirtual r = some v
  inj : ∀ r r' v, st.toVirtual r = some v → st.toVirtual r' = some v → r = r'
  untouched : ∀ v, st.bar ≤ v → sim.inUse st.pos v = true

variable {p : Progress}

section Consistent

variable {st st' : Interleaving} {q : Queue} {user : BarrierUserConfig} {v : ℕ}

theorem inUse_start : sim.inUse (fun _ => 0) v = true := by
  exact Bool.or_not_self _

theorem Consistent.start : sim.Consistent limit interleavingStart where
  holder r v h := by cases h
  held v h := absurd h (Nat.not_lt_zero v)
  inj r r' v h := by cases h
  untouched v _ := inUse_start

theorem Consistent.map {r : ℕ} (h : sim.Consistent limit st) (hr : r < limit)
    (hfree : st.toVirtual r = none) : sim.Consistent limit { st with
      bar := st.bar + 1
      toVirtual := Function.update st.toVirtual r (some st.bar) } := by
  have hcase : ∀ i v, Function.update st.toVirtual r (some st.bar) i = some v →
      (i = r ∧ v = st.bar) ∨ st.toVirtual i = some v := by
    intro i v hi
    by_cases hir : i = r
    · subst hir
      rw [Function.update_self] at hi
      exact Or.inl ⟨rfl, (Option.some.inj hi).symm⟩
    · rw [Function.update_of_ne hir] at hi
      exact Or.inr hi
  refine ⟨?_, ?_, ?_, ?_⟩
  · intro i v hi
    rcases hcase i v hi with ⟨rfl, rfl⟩ | hi
    · exact ⟨hr, Nat.lt_succ_self _, h.untouched _ (Nat.le_refl _)⟩
    · obtain ⟨hlt, hbar, huse⟩ := h.holder i v hi
      exact ⟨hlt, Nat.lt_succ_of_lt hbar, huse⟩
  · intro v hv huse
    rcases Nat.lt_succ_iff_lt_or_eq.mp hv with hv | rfl
    · obtain ⟨i, hi⟩ := h.held v hv huse
      have hir : i ≠ r := by
        rintro rfl
        rw [hfree] at hi
        cases hi
      exact ⟨i, (Function.update_of_ne hir _ _).trans hi⟩
    · exact ⟨r, Function.update_self _ _ _⟩
  · intro i j v hi hj
    rcases hcase i v hi with ⟨rfl, rfl⟩ | hi'
    · rcases hcase j st.bar hj with ⟨rfl, -⟩ | hj'
      · rfl
      · exact absurd (h.holder j _ hj').2.1 (Nat.lt_irrefl _)
    · rcases hcase j v hj with ⟨rfl, rfl⟩ | hj'
      · exact absurd (h.holder i _ hi').2.1 (Nat.lt_irrefl _)
      · exact h.inj i j v hi' hj'
  · intro v hv
    exact h.untouched v (Nat.le_of_succ_le hv)

theorem execute_toVirtual {r : ℕ} : (sim.execute st q user).toVirtual r = some v ↔
    st.toVirtual r = some v ∧
      ¬ (v ∈ user.consumer ∧ sim.toConsume (st.toProgress.pop q).pos v = false) := by
  unfold execute
  simp only [Option.filter_eq_some_iff, Bool.not_eq_true', Bool.and_eq_false_iff,
    decide_eq_false_iff_not, Bool.not_eq_false']
  constructor
  · rintro ⟨hv, huse⟩
    refine ⟨hv, fun ⟨hmem, hleft⟩ => ?_⟩
    rcases huse with huse | huse
    · exact huse hmem
    · rw [hleft] at huse
      cases huse
  · rintro ⟨hv, huse⟩
    refine ⟨hv, ?_⟩
    by_cases hmem : v ∈ user.consumer
    · exact Or.inr (Bool.not_eq_false _ ▸ fun hleft => huse ⟨hmem, hleft⟩)
    · exact Or.inl hmem

theorem inUse_pop (huser : (sim.tasks.queue q)[p.pos q]? = some user)
    (huse : sim.inUse p.pos v = true)
    (hlast : ¬ (v ∈ user.consumer ∧ sim.toConsume (p.pop q).pos v = false)) :
    sim.inUse (p.pop q).pos v = true := by
  unfold inUse at huse ⊢
  rw [Bool.or_eq_true] at huse ⊢
  rcases huse with huse | huse
  · rcases anyLeft_pop huse huser with hleft | hmem
    · exact Or.inl hleft
    · exact Or.inl (Bool.not_eq_false _ ▸ fun hleft => hlast ⟨by simpa using hmem, hleft⟩)
  · exact Or.inr huse

theorem toConsume_of_mem (hq : q ∈ sim.queues) {i : ℕ} (huser : (sim.tasks.queue q)[i]? = some user)
    (hv : v ∈ user.consumer) : sim.toConsume (fun _ => 0) v = true :=
  anyLeft_iff.mpr ⟨q, hq, i, Nat.zero_le i, user, huser, by simpa using hv⟩

variable (h : sim.Consistent limit st)
include h

theorem Consistent.execute (hq : q ∈ sim.queues)
    (huser : (sim.tasks.queue q)[st.pos q]? = some user) (hready : sim.Ready st.toProgress user) :
    sim.Consistent limit (sim.execute st q user) where
  holder r v hr := by
    obtain ⟨hold, hlast⟩ := execute_toVirtual.mp hr
    obtain ⟨hlt, hbar, huse⟩ := h.holder r v hold
    exact ⟨hlt, hbar, inUse_pop huser huse hlast⟩
  held v hv huse := by
    obtain ⟨r, hr⟩ := h.held v hv (inUse_of_pop huse)
    refine ⟨r, execute_toVirtual.mpr ⟨hr, ?_⟩⟩
    rintro ⟨hmem, hleft⟩
    have hleft' : sim.toConsume (sim.execute st q user).pos v = false := hleft
    unfold inUse at huse
    rw [toConsume_of_mem hq huser hmem, hleft'] at huse
    cases huse
  inj r r' v hr hr' := h.inj r r' v (execute_toVirtual.mp hr).1 (execute_toVirtual.mp hr').1
  untouched v hv := by
    apply inUse_pop huser (h.untouched v hv)
    rintro ⟨hmem, -⟩
    exact absurd (hready.waits v hmem).1 (Nat.not_lt.mpr hv)

theorem Consistent.step (hstep : sim.InterleavingStep limit st st') : sim.Consistent limit st' := by
  cases hstep with
  | map hbar hr hfree => exact h.map hr hfree
  | execute hq huser hready => exact h.execute hq huser hready

theorem Consistent.card_taken :
    ((Finset.range limit).filter fun r => st.toVirtual r ≠ none).card =
      sim.numInUse st.toProgress := by
  apply Finset.card_bij fun r _ => (st.toVirtual r).getD 0
  · intro r hr
    rw [Finset.mem_filter] at hr
    obtain ⟨v, hv⟩ := Option.ne_none_iff_exists'.mp hr.2
    obtain ⟨-, hbar, huse⟩ := h.holder r v hv
    rw [Finset.mem_filter, Finset.mem_range, hv]
    exact ⟨hbar, huse⟩
  · intro r hr r' hr' heq
    rw [Finset.mem_filter] at hr hr'
    obtain ⟨v, hv⟩ := Option.ne_none_iff_exists'.mp hr.2
    obtain ⟨v', hv'⟩ := Option.ne_none_iff_exists'.mp hr'.2
    rw [hv, hv'] at heq
    obtain rfl : v = v' := heq
    exact h.inj r r' v hv hv'
  · intro v hv
    rw [Finset.mem_filter, Finset.mem_range] at hv
    obtain ⟨r, hr⟩ := h.held v hv.1 hv.2
    refine ⟨r, ?_, ?_⟩
    · rw [Finset.mem_filter, Finset.mem_range, hr]
      exact ⟨(h.holder r v hr).1, Option.some_ne_none v⟩
    · rw [hr]
      rfl

theorem Consistent.free_iff :
    (∃ r < limit, st.toVirtual r = none) ↔ sim.numInUse st.toProgress < limit := by
  rw [← h.card_taken]
  constructor
  · rintro ⟨r, hr, hfree⟩
    have hsub : (Finset.range limit).filter (fun r => st.toVirtual r ≠ none) ⊂ Finset.range limit :=
      Finset.filter_ssubset.mpr ⟨r, Finset.mem_range.mpr hr, fun hne => hne hfree⟩
    have hcard := Finset.card_lt_card hsub
    rwa [Finset.card_range] at hcard
  · intro hlt
    by_contra hall
    have hfull : (Finset.range limit).filter (fun r => st.toVirtual r ≠ none) =
        Finset.range limit := by
      apply Finset.filter_true_of_mem
      intro r hr hfree
      exact hall ⟨r, Finset.mem_range.mp hr, hfree⟩
    rw [hfull, Finset.card_range] at hlt
    exact Nat.lt_irrefl _ hlt

theorem Consistent.progressStep (hstep : sim.InterleavingStep limit st st') :
    sim.ProgressStep limit st.toProgress st'.toProgress := by
  cases hstep with
  | map hbar hr hfree => exact .map hbar (h.free_iff.mp ⟨_, hr, hfree⟩)
  | execute hq huser hready => exact .execute hq huser hready

theorem Consistent.interleavingStep (hstep : sim.ProgressStep limit st.toProgress p) :
    ∃ st', sim.InterleavingStep limit st st' ∧ st'.toProgress = p := by
  cases hstep with
  | map hbar hfree =>
    obtain ⟨r, hr, hnone⟩ := h.free_iff.mpr hfree
    exact ⟨_, .map hbar hr hnone, rfl⟩
  | execute hq huser hready => exact ⟨_, .execute hq huser hready, rfl⟩

end Consistent

def Reachable (sim : BarrierSimulator) (limit : ℕ) (st : Interleaving) : Prop :=
  ReflTransGen (sim.InterleavingStep limit) interleavingStart st

section Reachable

variable {st st' : Interleaving}

section

variable (h : sim.Reachable limit st)
include h

theorem Reachable.consistent : sim.Consistent limit st := by
  induction h with
  | refl => exact .start
  | tail _ hstep ih => exact ih.step hstep

theorem Reachable.progress :
    ReflTransGen (sim.ProgressStep limit) interleavingStart.toProgress st.toProgress := by
  induction h with
  | refl => exact .refl
  | tail hreach hstep ih => exact ih.tail (Reachable.consistent hreach |>.progressStep hstep)

theorem Reachable.stuck (hstuck : Graph.Stuck (sim.InterleavingStep limit) st) :
    Graph.Stuck (sim.ProgressStep limit) st.toProgress := by
  intro p hstep
  obtain ⟨st', hst', -⟩ := h.consistent.interleavingStep hstep
  exact hstuck st' hst'

theorem Reachable.progress_unique (h' : sim.Reachable limit st')
    (hstuck : Graph.Stuck (sim.ProgressStep limit) st.toProgress)
    (hstuck' : Graph.Stuck (sim.ProgressStep limit) st'.toProgress) :
    st.toProgress = st'.toProgress :=
  diamond_progressStep.end_unique h.progress h'.progress hstuck hstuck'

end

theorem Complete.stuck (h : sim.Complete p) : Graph.Stuck (sim.ProgressStep limit) p := by
  intro p' hstep
  cases hstep with
  | map hbar hfree => exact absurd h.1 (Nat.ne_of_lt hbar)
  | execute hq huser hready =>
    rw [h.2 _ hq, List.getElem?_eq_none (Nat.le_refl _)] at huser
    cases huser

theorem Reachable.complete (h : sim.Reachable limit st) (h' : sim.Reachable limit st')
    (hcomplete : sim.Complete st.toProgress)
    (hstuck : Graph.Stuck (sim.InterleavingStep limit) st') : sim.Complete st'.toProgress := by
  have heq := h.progress_unique h' hcomplete.stuck (h'.stuck hstuck)
  rwa [heq] at hcomplete

def left (sim : BarrierSimulator) (p : Progress) : ℕ :=
  (sim.numBarriers - p.bar) + (sim.queues.map fun q => (sim.tasks.queue q).length - p.pos q).sum

theorem left_lt {p p' : Progress} (hstep : sim.ProgressStep limit p p') : sim.left p' <
    sim.left p := by
  unfold left
  cases hstep with
  | map hbar hfree =>
    dsimp only
    omega
  | @execute q user hq huser hready =>
    have hlt := (List.getElem?_eq_some_iff.mp huser).1
    apply Nat.add_lt_add_left
    apply List.sum_lt_sum
    · intro q' _
      exact Nat.sub_le_sub_left (p.pos_le_pop q q') _
    · refine ⟨q, hq, ?_⟩
      rw [p.pop_pos_self]
      omega

theorem not_infinite (f : ℕ → Interleaving) (hstart : sim.Reachable limit (f 0)) :
    ¬ ∀ n, sim.InterleavingStep limit (f n) (f (n + 1)) := by
  intro hrun
  have hreach : ∀ n, sim.Reachable limit (f n) := by
    intro n
    induction n with
    | zero => exact hstart
    | succ n ih => exact ReflTransGen.tail ih (hrun n)
  have hprogress : ∀ n, sim.ProgressStep limit (f n).toProgress (f (n + 1)).toProgress :=
    fun n => (hreach n).consistent.progressStep (hrun n)
  have hleft : ∀ p p', sim.ProgressStep limit p p' → sim.left p' < sim.left p := fun _ _ => left_lt
  exact Graph.no_infinite_run hleft (fun n => (f n).toProgress) hprogress

end Reachable

end BarrierSimulator
end Vpux.Simulator
