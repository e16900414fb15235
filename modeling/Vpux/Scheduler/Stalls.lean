import Vpux.Data.Compaction
import Vpux.Memory.PartitionerSpec
import Vpux.Scheduler.Types

/-! Stalls of the executors. Ranges of cycles in which every executor is idle are taken out of a
schedule. -/
namespace Vpux.Scheduler
open Data

/-- Cycle ranges, each from the first idle cycle to the first busy one. -/
abbrev StallCycles := List (ℕ × ℕ)

/-- An instance of an executor. -/
abbrev Pipeline := ExecutorKind × ℕ

/-- A map with an entry for each pipeline that a stall was pushed for. -/
abbrev ExecutorStallCycles := List (Pipeline × StallCycles)

/-- `executorStalls[key].push_back(stall)` -/
def pushStall (key : Pipeline) (stall : ℕ × ℕ) : ExecutorStallCycles → ExecutorStallCycles
  | [] => [(key, [stall])]
  | entry :: executorStalls =>
    if entry.1 = key then (key, entry.2 ++ [stall]) :: executorStalls
    else entry :: pushStall key stall executorStalls

/-- An operation on one of its pipelines, from its first cycle to its end. -/
abbrev Visit := Pipeline × ℕ × ℕ

/-- The stall before an operation on one of its pipelines. -/
def visitPipeline (st : ExecutorStallCycles × (Pipeline → ℕ)) (visit : Visit) :
    ExecutorStallCycles × (Pipeline → ℕ) :=
  let (key, cycleBegin, cycleEnd) := visit
  (if cycleBegin > st.2 key then pushStall key (st.2 key, cycleBegin) st.1 else st.1,
    Function.update st.2 key cycleEnd)

section Stalls

variable {V : Type}

def ScheduledOpInfo.visits (schedOp : ScheduledOpInfo V) : List Visit :=
  schedOp.executorInstanceMask.map fun execInst =>
    ((schedOp.executor, execInst), schedOp.cycleBegin, schedOp.cycleEnd)

def getExecutorStallRegions (scheduledOps : List (ScheduledOpInfo V)) : ExecutorStallCycles :=
  (scheduledOps.foldl (fun st schedOp => schedOp.visits.foldl visitPipeline st)
    ([], fun _ => 0)).1

/-- The target stall against the stalls of one executor. -/
def narrowTo (otherStalls : StallCycles) (targetStall : ℕ × ℕ) : (ℕ × ℕ) × Bool :=
  otherStalls.foldl (fun st otherStall =>
    if st.1.1 ≥ otherStall.2 then st
    else if st.1.2 ≤ otherStall.1 then st
    else ((max st.1.1 otherStall.1, min st.1.2 otherStall.2), true)) (targetStall, false)

/-- The target stall against all executors, up to the first one without overlap. -/
def narrowToAll (overlapExists : Bool) :
    List StallCycles → ℕ × ℕ → (ℕ × ℕ) × Bool
  | [], targetStall => (targetStall, overlapExists)
  | otherStalls :: executorStalls, targetStall =>
    let (targetStall, overlapExists) := narrowTo otherStalls targetStall
    if !overlapExists then (targetStall, false)
    else narrowToAll overlapExists executorStalls targetStall

/-- The loop over the stalls of one executor. The first argument bounds its steps. -/
def commonStalls (executorStalls : List StallCycles) :
    ℕ → StallCycles → ℕ × ℕ → StallCycles → Option StallCycles
  | 0, _, _, _ => none
  | _ + 1, [], _, stallsOnAll => some stallsOnAll
  | fuel + 1, stall :: stalls, targetStall, stallsOnAll =>
    match narrowToAll false executorStalls targetStall with
    | (targetStall, true) =>
      commonStalls executorStalls fuel (stall :: stalls) (targetStall.2, stall.2)
        (stallsOnAll ++ [targetStall])
    | (targetStall, false) =>
      commonStalls executorStalls fuel stalls (stalls.headD targetStall) stallsOnAll

/-- `std::min_element` by the number of stalls. -/
def minStallSize : ExecutorStallCycles → Option (Pipeline × StallCycles)
  | [] => none
  | entry :: executorStalls => some (executorStalls.foldl (fun least entry =>
      if entry.2.length < least.2.length then entry else least) entry)

/-- A step either uses up cycles of a stall or goes past the stall. -/
def searchSteps (stalls : StallCycles) : ℕ := (stalls.map fun s => s.2 - s.1 + 1).sum + 1

/-- `order` is the order in which the map is iterated. There is no least element, and no first
stall to start from, when the map is empty. -/
def getStallsOnAllExecutorPipelines (order : ExecutorStallCycles → ExecutorStallCycles)
    (scheduledOps : List (ScheduledOpInfo V)) : Option StallCycles := do
  let executorStalls := order (getExecutorStallRegions scheduledOps)
  let minStallSizeExecutor ← minStallSize executorStalls
  let targetStall ← minStallSizeExecutor.2.head?
  commonStalls (executorStalls.map Prod.snd) (searchSteps minStallSizeExecutor.2)
    minStallSizeExecutor.2 targetStall []

/-- The cycles of an operation after the stalls before it are taken out. -/
def removeStalls (stallsToRemove : StallCycles) (schedOp : ScheduledOpInfo V) :
    ScheduledOpInfo V :=
  let stallSize := removedBefore stallsToRemove schedOp.cycleBegin
  { schedOp with
    cycleBegin := Memory.sub64 schedOp.cycleBegin stallSize
    cycleEnd := Memory.sub64 schedOp.cycleEnd stallSize }

def assignCyclesToExecOps (order : ExecutorStallCycles → ExecutorStallCycles)
    (scheduledOps : List (ScheduledOpInfo V)) : Option (List (ScheduledOpInfo V)) := do
  let stallsToRemove ← getStallsOnAllExecutorPipelines order scheduledOps
  pure (scheduledOps.map (removeStalls stallsToRemove))

def ScheduledOpInfo.RunsOn (schedOp : ScheduledOpInfo V) (key : Pipeline) : Prop :=
  schedOp.executor = key.1 ∧ key.2 ∈ schedOp.executorInstanceMask

instance (schedOp : ScheduledOpInfo V) (key : Pipeline) : Decidable (schedOp.RunsOn key) :=
  inferInstanceAs (Decidable (_ ∧ _))

/-- A schedule in the order of its first cycles. On each pipeline an operation ends before the
next one begins. -/
structure Sequential (scheduledOps : List (ScheduledOpInfo V)) : Prop where
  sorted : scheduledOps.Pairwise fun a b => a.cycleBegin ≤ b.cycleBegin
  apart : scheduledOps.Pairwise fun a b =>
    ∀ key, a.RunsOn key → b.RunsOn key → a.cycleEnd ≤ b.cycleBegin
  durations : ∀ op ∈ scheduledOps, op.cycleBegin ≤ op.cycleEnd
  words : ∀ op ∈ scheduledOps, op.cycleEnd < Memory.wordSize
  masks : ∀ op ∈ scheduledOps, op.executorInstanceMask.Nodup

def Idle (scheduledOps : List (ScheduledOpInfo V)) (key : Pipeline) (cycle : ℕ) : Prop :=
  (∃ op ∈ scheduledOps, op.RunsOn key ∧ cycle < op.cycleBegin) ∧
    ∀ op ∈ scheduledOps, op.RunsOn key → cycle < op.cycleBegin ∨ op.cycleEnd ≤ cycle

def HasIdle (scheduledOps : List (ScheduledOpInfo V)) (key : Pipeline) : Prop :=
  ∃ cycle, Idle scheduledOps key cycle

end Stalls

-- Taking the common stalls out of a schedule keeps it valid when no operation runs during them.
open List

section Regions

variable {key : Pipeline} {stall : ℕ × ℕ} {entry : Pipeline × StallCycles}
variable {executorStalls : ExecutorStallCycles}

theorem mem_pushStall (h : entry ∈ pushStall key stall executorStalls) :
    entry ∈ executorStalls ∨ entry = (key, [stall]) ∨
      ∃ stalls, (key, stalls) ∈ executorStalls ∧ entry = (key, stalls ++ [stall]) := by
  induction executorStalls with
  | nil => exact .inr (.inl (mem_singleton.mp h))
  | cons first executorStalls ih =>
    unfold pushStall at h
    split_ifs at h with hfirst
    · rcases mem_cons.mp h with rfl | h
      · exact .inr (.inr ⟨first.2, by rw [← hfirst]; exact mem_cons_self, rfl⟩)
      · exact .inl (mem_cons_of_mem first h)
    · rcases mem_cons.mp h with rfl | h
      · exact .inl mem_cons_self
      · rcases ih h with hold | hnew | ⟨stalls, hstalls, hnew⟩
        · exact .inl (mem_cons_of_mem first hold)
        · exact .inr (.inl hnew)
        · exact .inr (.inr ⟨stalls, mem_cons_of_mem first hstalls, hnew⟩)

theorem exists_pushStall (key : Pipeline) (stall : ℕ × ℕ) (executorStalls : ExecutorStallCycles) :
    ∃ entry ∈ pushStall key stall executorStalls, entry.1 = key := by
  induction executorStalls with
  | nil => exact ⟨(key, [stall]), by simp [pushStall], rfl⟩
  | cons first executorStalls ih =>
    unfold pushStall
    split_ifs with hfirst
    · exact ⟨(key, first.2 ++ [stall]), mem_cons_self, rfl⟩
    · obtain ⟨entry, hentry, hkey⟩ := ih
      exact ⟨entry, mem_cons_of_mem first hentry, hkey⟩

theorem exists_pushStall_of_mem (key : Pipeline) (stall : ℕ × ℕ) (h : entry ∈ executorStalls) :
    ∃ entry' ∈ pushStall key stall executorStalls, entry'.1 = entry.1 := by
  induction executorStalls with
  | nil => simp at h
  | cons first executorStalls ih =>
    unfold pushStall
    split_ifs with hfirst
    · rcases mem_cons.mp h with rfl | h
      · exact ⟨_, mem_cons_self, hfirst.symm⟩
      · exact ⟨entry, mem_cons_of_mem _ h, rfl⟩
    · rcases mem_cons.mp h with rfl | h
      · exact ⟨_, mem_cons_self, rfl⟩
      · obtain ⟨entry', hentry', hkey⟩ := ih h
        exact ⟨entry', mem_cons_of_mem _ hentry', hkey⟩

/-- What is idle before the last of the visits. -/
def IdleBetween (visits : List Visit) (key : Pipeline) (cycle : ℕ) : Prop :=
  (∃ v ∈ visits, v.1 = key ∧ cycle < v.2.1) ∧
    ∀ v ∈ visits, v.1 = key → cycle < v.2.1 ∨ v.2.2 ≤ cycle

/-- The stalls of a pipeline are apart from its visits. -/
structure StallsOf (visits : List Visit) (free : ℕ) (key : Pipeline) (stalls : StallCycles) :
    Prop where
  ne_nil : stalls ≠ []
  ascending : Ascending stalls
  free : ∀ s ∈ stalls, s.2 ≤ free
  before : ∀ s ∈ stalls, ∃ v ∈ visits, v.1 = key ∧ s.2 = v.2.1
  apart : ∀ s ∈ stalls, ∀ v ∈ visits, v.1 = key → s.2 ≤ v.2.1 ∨ v.2.2 ≤ s.1

structure Recorded (visits : List Visit) (st : ExecutorStallCycles × (Pipeline → ℕ)) : Prop where
  ends : ∀ v ∈ visits, v.2.2 ≤ st.2 v.1
  last : ∀ key, st.2 key = 0 ∨ ∃ v ∈ visits, v.1 = key ∧ v.2.2 = st.2 key
  stalls : ∀ entry ∈ st.1, StallsOf visits (st.2 entry.1) entry.1 entry.2
  found : ∀ key cycle, IdleBetween visits key cycle → ∃ entry ∈ st.1, entry.1 = key

variable {visits : List Visit} {st : ExecutorStallCycles × (Pipeline → ℕ)} {visit : Visit}

theorem recorded_nil : Recorded [] ([], fun _ => 0) where
  ends := by simp
  last _ := .inl rfl
  stalls := by simp
  found key cycle h := by
    obtain ⟨⟨v, hv, -⟩, -⟩ := h
    simp at hv

section Visit

variable (h : Recorded visits st) (hlen : visit.2.1 ≤ visit.2.2)
variable (hapart : ∀ v ∈ visits, v.1 = visit.1 → v.2.2 ≤ visit.2.1)

include h hapart

theorem Recorded.free_le : st.2 visit.1 ≤ visit.2.1 := by
  rcases h.last visit.1 with hfree | ⟨v, hv, hkey, hend⟩
  · rw [hfree]
    exact Nat.zero_le _
  · rw [← hend]
    exact hapart v hv hkey

include hlen

theorem Recorded.free_le_update (key : Pipeline) :
    st.2 key ≤ Function.update st.2 visit.1 visit.2.2 key := by
  by_cases hkey : key = visit.1
  · rw [hkey, Function.update_self]
    exact (h.free_le hapart).trans hlen
  · rw [Function.update_of_ne hkey]

theorem Recorded.keeps {entry : Pipeline × StallCycles} (hentry : entry ∈ st.1) :
    StallsOf (visits ++ [visit]) (Function.update st.2 visit.1 visit.2.2 entry.1) entry.1
      entry.2 := by
  have hold := h.stalls entry hentry
  refine ⟨hold.ne_nil, hold.ascending, fun s hs => ?_, fun s hs => ?_, fun s hs v hv hkey => ?_⟩
  · exact (hold.free s hs).trans (h.free_le_update hlen hapart entry.1)
  · obtain ⟨v, hv, hkey⟩ := hold.before s hs
    exact ⟨v, mem_append_left _ hv, hkey⟩
  · rcases mem_append.mp hv with hv | hv
    · exact hold.apart s hs v hv hkey
    · rw [mem_singleton.mp hv] at hkey ⊢
      exact .inl ((hold.free s hs).trans (hkey ▸ h.free_le hapart))

omit hapart in
theorem Recorded.pushes {stalls : StallCycles} (hstall : st.2 visit.1 < visit.2.1)
    (hstalls : stalls = [] ∨ (visit.1, stalls) ∈ st.1) :
    StallsOf (visits ++ [visit]) visit.2.2 visit.1 (stalls ++ [(st.2 visit.1, visit.2.1)]) := by
  have hold : ∀ s ∈ stalls, s.2 ≤ st.2 visit.1 ∧ (∃ v ∈ visits, v.1 = visit.1 ∧ s.2 = v.2.1) ∧
      ∀ v ∈ visits, v.1 = visit.1 → s.2 ≤ v.2.1 ∨ v.2.2 ≤ s.1 := by
    intro s hs
    rcases hstalls with rfl | hmem
    · simp at hs
    · have hentry := h.stalls _ hmem
      exact ⟨hentry.free s hs, hentry.before s hs, hentry.apart s hs⟩
  have hascending : Ascending stalls := by
    rcases hstalls with rfl | hmem
    · exact .nil
    · exact (h.stalls _ hmem).ascending
  have hcases : ∀ s ∈ stalls ++ [(st.2 visit.1, visit.2.1)],
      s ∈ stalls ∨ s = (st.2 visit.1, visit.2.1) := by
    intro s hs
    rcases mem_append.mp hs with hs | hs
    · exact .inl hs
    · exact .inr (mem_singleton.mp hs)
  refine ⟨by simp, hascending.concat hstall fun s hs => (hold s hs).1, fun s hs => ?_,
    fun s hs => ?_, fun s hs v hv hkey => ?_⟩
  · rcases hcases s hs with hs | rfl
    · exact ((hold s hs).1.trans hstall.le).trans hlen
    · exact hlen
  · rcases hcases s hs with hs | rfl
    · obtain ⟨v, hv, hv'⟩ := (hold s hs).2.1
      exact ⟨v, mem_append_left _ hv, hv'⟩
    · exact ⟨visit, by simp, rfl, rfl⟩
  · rcases mem_append.mp hv with hv | hv
    · rcases hcases s hs with hs | rfl
      · exact (hold s hs).2.2 v hv hkey
      · exact .inr (hkey ▸ h.ends v hv)
    · rw [mem_singleton.mp hv]
      rcases hcases s hs with hs | rfl
      · exact .inl ((hold s hs).1.trans hstall.le)
      · exact .inl le_rfl

theorem Recorded.step : Recorded (visits ++ [visit]) (visitPipeline st visit) where
  ends v hv := by
    show v.2.2 ≤ Function.update st.2 visit.1 visit.2.2 v.1
    rcases mem_append.mp hv with hv | hv
    · exact (h.ends v hv).trans (h.free_le_update hlen hapart v.1)
    · rw [mem_singleton.mp hv, Function.update_self]
  last key := by
    show Function.update st.2 visit.1 visit.2.2 key = 0 ∨ ∃ v ∈ visits ++ [visit],
      v.1 = key ∧ v.2.2 = Function.update st.2 visit.1 visit.2.2 key
    by_cases hkey : key = visit.1
    · rw [hkey, Function.update_self]
      exact .inr ⟨visit, by simp, rfl, rfl⟩
    · rw [Function.update_of_ne hkey]
      rcases h.last key with hfree | ⟨v, hv, hlast⟩
      · exact .inl hfree
      · exact .inr ⟨v, mem_append_left _ hv, hlast⟩
  stalls entry hentry := by
    show StallsOf _ (Function.update st.2 visit.1 visit.2.2 entry.1) _ _
    simp only [visitPipeline] at hentry
    split_ifs at hentry with hstall
    · rcases mem_pushStall hentry with hold | rfl | ⟨stalls, hstalls, rfl⟩
      · exact h.keeps hlen hapart hold
      · rw [Function.update_self]
        exact h.pushes hlen hstall (.inl rfl)
      · rw [Function.update_self]
        exact h.pushes hlen hstall (.inr hstalls)
    · exact h.keeps hlen hapart hentry
  found key cycle hidle := by
    obtain ⟨⟨v, hv, hkey, hcycle⟩, hall⟩ := hidle
    simp only [visitPipeline]
    have hkeeps : IdleBetween visits key cycle → ∃ entry ∈ (if visit.2.1 > st.2 visit.1 then
        pushStall visit.1 (st.2 visit.1, visit.2.1) st.1 else st.1), entry.1 = key := by
      intro hbefore
      obtain ⟨entry, hentry, rfl⟩ := h.found key cycle hbefore
      split_ifs
      · exact exists_pushStall_of_mem _ _ hentry
      · exact ⟨entry, hentry, rfl⟩
    have hrest : ∀ w ∈ visits, w.1 = key → cycle < w.2.1 ∨ w.2.2 ≤ cycle :=
      fun w hw => hall w (mem_append_left _ hw)
    by_cases hlater : ∃ w ∈ visits, w.1 = key ∧ cycle < w.2.1
    · exact hkeeps ⟨hlater, hrest⟩
    · -- the visit is the first one after the cycle
      have hvisit : v = visit := by
        rcases mem_append.mp hv with hv | hv
        · exact absurd ⟨v, hv, hkey, hcycle⟩ hlater
        · exact mem_singleton.mp hv
      subst hvisit
      have hfree : st.2 v.1 ≤ cycle := by
        rcases h.last v.1 with hzero | ⟨w, hw, hwkey, hend⟩
        · rw [hzero]
          exact Nat.zero_le _
        · rw [← hend]
          rcases hrest w hw (hwkey.trans hkey) with hlt | hle
          · exact absurd ⟨w, hw, hwkey.trans hkey, hlt⟩ hlater
          · exact hle
      rw [if_pos (show v.2.1 > st.2 v.1 by omega), ← hkey]
      exact exists_pushStall _ _ _

end Visit

/-- On each pipeline a visit ends before the next one begins. -/
def VisitsApart (visits : List Visit) : Prop :=
  visits.Pairwise fun v w => v.1 = w.1 → v.2.2 ≤ w.2.1

theorem recorded_foldl {done : List Visit} (hvisits : ∀ v ∈ visits, v.2.1 ≤ v.2.2)
    (hapart : VisitsApart (done ++ visits)) (h : Recorded done st) :
    Recorded (done ++ visits) (visits.foldl visitPipeline st) := by
  induction visits generalizing done st with
  | nil => simpa using h
  | cons visit visits ih =>
    have hbefore : ∀ v ∈ done, v.1 = visit.1 → v.2.2 ≤ visit.2.1 :=
      fun v hv => (pairwise_append.mp hapart).2.2 v hv visit (by simp)
    have hnext := h.step (hvisits visit (by simp)) hbefore
    have happend : done ++ visit :: visits = done ++ [visit] ++ visits := by simp
    rw [happend] at hapart ⊢
    exact ih (fun v hv => hvisits v (by simp [hv])) hapart hnext

variable {V : Type} {scheduledOps : List (ScheduledOpInfo V)} {op : ScheduledOpInfo V}

theorem mem_visits {v : Visit} :
    v ∈ op.visits ↔ op.RunsOn v.1 ∧ v.2 = (op.cycleBegin, op.cycleEnd) := by
  obtain ⟨⟨executor, execInst⟩, cycles⟩ := v
  simp only [ScheduledOpInfo.visits, mem_map, Prod.mk.injEq, ScheduledOpInfo.RunsOn]
  constructor
  · intro ⟨i, hi, ⟨hexecutor, hinst⟩, hcycles⟩
    exact ⟨⟨hexecutor, hinst ▸ hi⟩, hcycles.symm⟩
  · intro ⟨⟨hexecutor, hinst⟩, hcycles⟩
    exact ⟨execInst, hinst, ⟨hexecutor, rfl⟩, hcycles.symm⟩

/-- Everything that runs, pipeline by pipeline. -/
def allVisits (scheduledOps : List (ScheduledOpInfo V)) : List Visit :=
  scheduledOps.flatMap ScheduledOpInfo.visits

theorem mem_allVisits {v : Visit} : v ∈ allVisits scheduledOps ↔
    ∃ op ∈ scheduledOps, op.RunsOn v.1 ∧ v.2 = (op.cycleBegin, op.cycleEnd) := by
  simp only [allVisits, mem_flatMap, mem_visits]

theorem visitsApart (h : Sequential scheduledOps) : VisitsApart (allVisits scheduledOps) := by
  refine pairwise_flatMap.mpr ⟨fun op hop => ?_, h.apart.imp fun hab v hv w hw hkey => ?_⟩
  · refine pairwise_map.mpr ((h.masks op hop).imp fun hne hkey => ?_)
    exact absurd (Prod.mk.inj hkey).2 hne
  · obtain ⟨hrun, hcycles⟩ := mem_visits.mp hv
    obtain ⟨hrun', hcycles'⟩ := mem_visits.mp hw
    rw [hcycles, hcycles']
    exact hab v.1 hrun (hkey ▸ hrun')

theorem idleBetween_iff {cycle : ℕ} {key : Pipeline} :
    IdleBetween (allVisits scheduledOps) key cycle ↔ Idle scheduledOps key cycle := by
  simp only [IdleBetween, mem_allVisits, Idle]
  constructor
  · intro ⟨⟨v, ⟨op, hop, hrun, hcycles⟩, hkey, hlt⟩, hall⟩
    rw [hcycles] at hlt
    refine ⟨⟨op, hop, hkey ▸ hrun, hlt⟩, fun op' hop' hrun' => ?_⟩
    exact hall (key, op'.cycleBegin, op'.cycleEnd) ⟨op', hop', hrun', rfl⟩ rfl
  · intro ⟨⟨op, hop, hrun, hlt⟩, hall⟩
    refine ⟨⟨(key, op.cycleBegin, op.cycleEnd), ⟨op, hop, hrun, rfl⟩, rfl, hlt⟩, ?_⟩
    intro v ⟨op', hop', hrun', hcycles⟩ hkey
    rw [hcycles]
    exact hall op' hop' (hkey ▸ hrun')

/-- The stalls of each pipeline are idle and apart from its operations, and every pipeline with an
idle cycle has some. -/
theorem getExecutorStallRegions_spec (h : Sequential scheduledOps) :
    (∀ entry ∈ getExecutorStallRegions scheduledOps, entry.2 ≠ [] ∧ Ascending entry.2 ∧
      ∀ s ∈ entry.2, (∀ cycle, s.1 ≤ cycle → cycle < s.2 → Idle scheduledOps entry.1 cycle) ∧
        ∀ op ∈ scheduledOps, op.RunsOn entry.1 → s.2 ≤ op.cycleBegin ∨ op.cycleEnd ≤ s.1) ∧
    ∀ key, HasIdle scheduledOps key →
      ∃ entry ∈ getExecutorStallRegions scheduledOps, entry.1 = key := by
  have hvisits : ∀ v ∈ allVisits scheduledOps, v.2.1 ≤ v.2.2 := by
    intro v hv
    obtain ⟨op, hop, -, hcycles⟩ := mem_allVisits.mp hv
    rw [hcycles]
    exact h.durations op hop
  have hrecorded := recorded_foldl hvisits (visitsApart h) recorded_nil
  have hfold : (allVisits scheduledOps).foldl visitPipeline ([], fun _ => 0) =
      scheduledOps.foldl (fun st op => op.visits.foldl visitPipeline st) ([], fun _ => 0) :=
    foldl_flatMap ..
  rw [nil_append, hfold] at hrecorded
  refine ⟨fun entry hentry => ?_, fun key ⟨cycle, hidle⟩ =>
    hrecorded.found key cycle (idleBetween_iff.mpr hidle)⟩
  have hstalls := hrecorded.stalls entry hentry
  have hruns : ∀ s ∈ entry.2, ∀ op ∈ scheduledOps, op.RunsOn entry.1 →
      s.2 ≤ op.cycleBegin ∨ op.cycleEnd ≤ s.1 := fun s hs op hop hrun =>
    hstalls.apart s hs (entry.1, op.cycleBegin, op.cycleEnd)
      (mem_allVisits.mpr ⟨op, hop, hrun, rfl⟩)
      rfl
  refine ⟨hstalls.ne_nil, hstalls.ascending, fun s hs => ⟨fun cycle hlo hhi => ?_, hruns s hs⟩⟩
  obtain ⟨v, hv, hkey, hbegin⟩ := hstalls.before s hs
  obtain ⟨op, hop, hrun, hcycles⟩ := mem_allVisits.mp hv
  rw [hcycles] at hbegin
  have hlt : cycle < op.cycleBegin := lt_of_lt_of_eq hhi hbegin
  refine ⟨⟨op, hop, hkey ▸ hrun, hlt⟩, fun op' hop' hrun' => ?_⟩
  rcases hruns s hs op' hop' hrun' with hle | hle
  · exact .inl (hhi.trans_le hle)
  · exact .inr (hle.trans hlo)

end Regions

section Search

variable {target target' stall r : ℕ × ℕ} {stalls : StallCycles} {executorStalls : List StallCycles}

/-- What a target became inside a list of stalls: it lies in one of them that overlaps the target,
and it is not empty if the target was not. -/
structure NarrowedTo (stalls : StallCycles) (target target' : ℕ × ℕ) : Prop where
  lower : target.1 ≤ target'.1
  upper : target'.2 ≤ target.2
  inside : ∃ s ∈ stalls, s.1 < target.2 ∧ target.1 < s.2 ∧ s.1 ≤ target'.1 ∧ target'.2 ≤ s.2
  nonempty : target.1 < target.2 → target'.1 < target'.2

theorem narrowTo_spec (hstalls : Ascending stalls)
    (h : narrowTo stalls target = (target', true)) : NarrowedTo stalls target target' := by
  have hfold : ∀ (rest : StallCycles) (st : (ℕ × ℕ) × Bool), (∀ s ∈ rest, s ∈ stalls) →
      (st = (target, false) ∨ st.2 = true ∧ NarrowedTo stalls target st.1) →
      rest.foldl (fun st otherStall =>
        if st.1.1 ≥ otherStall.2 then st
        else if st.1.2 ≤ otherStall.1 then st
        else ((max st.1.1 otherStall.1, min st.1.2 otherStall.2), true)) st = (target', true) →
      NarrowedTo stalls target target' := by
    intro rest
    induction rest with
    | nil =>
      intro st hrest hst hfold
      rcases hst with rfl | ⟨-, hst⟩
      · simp at hfold
      · rw [foldl_nil] at hfold
        rw [hfold] at hst
        exact hst
    | cons s rest ih =>
      intro st hrest hst hfold
      rw [foldl_cons] at hfold
      refine ih _ (fun s' hs' => hrest s' (by simp [hs'])) ?_ hfold
      split_ifs with hbefore hafter
      · exact hst
      · exact hst
      · have hs := hstalls.nonempty s (hrest s (by simp))
        have hbounds : target.1 ≤ st.1.1 ∧ st.1.2 ≤ target.2 ∧
            (target.1 < target.2 → st.1.1 < st.1.2) := by
          rcases hst with rfl | ⟨-, hst⟩
          · exact ⟨le_rfl, le_rfl, id⟩
          · exact ⟨hst.lower, hst.upper, hst.nonempty⟩
        refine .inr ⟨rfl, ?_, ?_, ⟨s, hrest s (by simp), ?_, ?_, ?_, ?_⟩, ?_⟩
        · exact hbounds.1.trans (le_max_left _ _)
        · exact (min_le_left _ _).trans hbounds.2.1
        · omega
        · omega
        · exact le_max_right _ _
        · exact min_le_right _ _
        · intro htarget
          simp only [lt_min_iff, max_lt_iff]
          omega
  exact hfold stalls (target, false) (fun _ hs => hs) (.inl rfl) h

theorem narrowToAll_spec {overlapExists : Bool} (hstalls : ∀ l ∈ executorStalls, Ascending l)
    (h : narrowToAll overlapExists executorStalls target = (target', true)) :
    target.1 ≤ target'.1 ∧ target'.2 ≤ target.2 ∧ (target.1 < target.2 → target'.1 < target'.2) ∧
      ∀ l ∈ executorStalls, ∃ s ∈ l, s.1 < target.2 ∧ target.1 < s.2 ∧
        s.1 ≤ target'.1 ∧ target'.2 ≤ s.2 := by
  induction executorStalls generalizing target overlapExists with
  | nil =>
    obtain ⟨rfl, -⟩ := Prod.mk.inj h
    exact ⟨le_rfl, le_rfl, id, by simp⟩
  | cons l executorStalls ih =>
    simp only [narrowToAll] at h
    generalize hmid : narrowTo l target = result at h
    obtain ⟨mid, overlap⟩ := result
    cases overlap with
    | false => simp at h
    | true =>
      have hnarrowed := narrowTo_spec (hstalls l (by simp)) hmid
      obtain ⟨hlower, hupper, hnonempty, hinside⟩ :=
        ih (fun l' hl' => hstalls l' (by simp [hl'])) (by simpa using h)
      have hmidLower := hnarrowed.lower
      have hmidUpper := hnarrowed.upper
      refine ⟨hmidLower.trans hlower, hupper.trans hmidUpper,
        fun htarget => hnonempty (hnarrowed.nonempty htarget), fun l' hl' => ?_⟩
      rcases mem_cons.mp hl' with rfl | hl'
      · obtain ⟨s, hs, h₁, h₂, h₃, h₄⟩ := hnarrowed.inside
        exact ⟨s, hs, h₁, h₂, by omega, by omega⟩
      · obtain ⟨s, hs, h₁, h₂, h₃, h₄⟩ := hinside l' hl'
        exact ⟨s, hs, by omega, by omega, h₃, h₄⟩

/-- A range lies in a stall of every executor. -/
def Common (executorStalls : List StallCycles) (r : ℕ × ℕ) : Prop :=
  ∀ l ∈ executorStalls, ∃ s ∈ l, s.1 ≤ r.1 ∧ r.2 ≤ s.2

structure Searching (executorStalls : List StallCycles) (stalls : StallCycles)
    (target : ℕ × ℕ) (found : StallCycles) : Prop where
  ascending : Ascending found
  common : ∀ r ∈ found, Common executorStalls r
  current : ∀ stall ∈ stalls.head?, stall.1 ≤ target.1 ∧ target.1 ≤ stall.2 ∧ target.2 = stall.2
  before : ∀ r ∈ found, ∀ stall ∈ stalls.head?, r.2 ≤ target.1

theorem commonStalls_spec (fuel : ℕ) (done : StallCycles) {found : StallCycles}
    (hexecutors : ∀ l ∈ executorStalls, Ascending l) (hmem : done ++ stalls ∈ executorStalls)
    (h : Searching executorStalls stalls target found)
    (hfuel : (match stalls with
      | [] => 0
      | stall :: stalls => stall.2 - target.1 + 1 + (stalls.map fun s => s.2 - s.1 + 1).sum) <
          fuel) :
    ∃ common, commonStalls executorStalls fuel stalls target found = some common ∧
      Ascending common ∧ ∀ r ∈ common, Common executorStalls r := by
  induction fuel generalizing done stalls target found with
  | zero => omega
  | succ fuel ih =>
    cases stalls with
    | nil => exact ⟨found, rfl, h.ascending, h.common⟩
    | cons stall stalls =>
      simp only [commonStalls]
      obtain ⟨hlower, hupper, htarget⟩ := h.current stall (by simp)
      have hall : Ascending (done ++ stall :: stalls) := hexecutors _ hmem
      generalize hmid : narrowToAll false executorStalls target = result
      obtain ⟨mid, overlap⟩ := result
      cases overlap with
      | true =>
        obtain ⟨hmidLower, hmidUpper, hnonempty, hinside⟩ := narrowToAll_spec hexecutors hmid
        -- an empty target overlaps no stall of the executor that the search goes along
        have hlt : target.1 < target.2 := by
          obtain ⟨s, hs, hlt, hgt, -, -⟩ := hinside _ hmem
          have hsorted := hall.sorted
          rw [pairwise_append, pairwise_cons] at hsorted
          rcases mem_append.mp hs with hs | hs
          · have := hsorted.2.2 s hs stall (by simp)
            omega
          · rcases mem_cons.mp hs with rfl | hs
            · omega
            · have := hsorted.2.1.1 s hs
              omega
        have hmidLt := hnonempty hlt
        refine @ih _ (stall :: stalls) done _ hmem ⟨?_, ?_, ?_, ?_⟩ ?_
        · exact h.ascending.concat hmidLt fun r hr =>
            (h.before r hr stall (by simp)).trans hmidLower
        · intro r hr
          rcases mem_append.mp hr with hr | hr
          · exact h.common r hr
          · rw [mem_singleton.mp hr]
            intro l hl
            obtain ⟨s, hs, -, -, h₃, h₄⟩ := hinside l hl
            exact ⟨s, hs, h₃, h₄⟩
        · intro s hs
          obtain rfl : stall = s := by simpa using hs
          exact ⟨by dsimp only; omega, by dsimp only; omega, rfl⟩
        · intro r hr s hs
          rcases mem_append.mp hr with hr | hr
          · have := h.before r hr stall (by simp)
            omega
          · rw [mem_singleton.mp hr]
        · dsimp only at hfuel ⊢
          omega
      | false =>
        have happend : done ++ stall :: stalls = done ++ [stall] ++ stalls := by simp
        refine @ih _ stalls (done ++ [stall]) _ (happend ▸ hmem)
          ⟨h.ascending, h.common, ?_, ?_⟩ ?_
        · intro s hs
          cases stalls with
          | nil => simp at hs
          | cons next stalls =>
            obtain rfl : next = s := by simpa using hs
            have := hall.nonempty next (by simp)
            exact ⟨le_rfl, this.le, rfl⟩
        · intro r hr s hs
          cases stalls with
          | nil => simp at hs
          | cons next stalls =>
            have hbefore := h.before r hr stall (by simp)
            have hsorted := hall.sorted
            rw [pairwise_append, pairwise_cons] at hsorted
            have := hsorted.2.1.1 next (by simp)
            simp only [headD_cons]
            omega
        · cases stalls with
          | nil => simp at hfuel ⊢; omega
          | cons next stalls =>
            simp only [headD_cons, map_cons, sum_cons] at hfuel ⊢
            omega

theorem minStallSize_mem {executorStalls : ExecutorStallCycles} {least : Pipeline × StallCycles}
    (h : minStallSize executorStalls = some least) : least ∈ executorStalls := by
  cases executorStalls with
  | nil => simp [minStallSize] at h
  | cons entry executorStalls =>
    have hfold : ∀ (rest : ExecutorStallCycles) (best : Pipeline × StallCycles),
        rest.foldl (fun least entry =>
          if entry.2.length < least.2.length then entry else least) best ∈ best :: rest := by
      intro rest
      induction rest with
      | nil => simp
      | cons next rest ih =>
        intro best
        rw [foldl_cons]
        split_ifs
        · exact mem_cons_of_mem best (ih next)
        · rcases mem_cons.mp (ih best) with heq | hmem
          · rw [heq]
            exact mem_cons_self
          · exact mem_cons_of_mem best (mem_cons_of_mem next hmem)
    rw [← Option.some.inj h]
    exact hfold executorStalls entry

end Search

section Removal

variable {V : Type} {order : ExecutorStallCycles → ExecutorStallCycles} {r : ℕ × ℕ}
variable {scheduledOps : List (ScheduledOpInfo V)} {op a b : ScheduledOpInfo V}
variable {stallsToRemove : StallCycles}

/-- The stalls that are found lie in a stall of each pipeline that has one. -/
theorem getStallsOnAllExecutorPipelines_spec (ho : ∀ l, (order l).Perm l)
    (h : Sequential scheduledOps) (hidle : ∃ key, HasIdle scheduledOps key) :
    ∃ stalls, getStallsOnAllExecutorPipelines order scheduledOps = some stalls ∧
      Ascending stalls ∧ ∀ r ∈ stalls, ∀ entry ∈ getExecutorStallRegions scheduledOps,
        ∃ s ∈ entry.2, s.1 ≤ r.1 ∧ r.2 ≤ s.2 := by
  obtain ⟨hentries, hfound⟩ := getExecutorStallRegions_spec h
  have hmem : ∀ entry, entry ∈ order (getExecutorStallRegions scheduledOps) ↔
      entry ∈ getExecutorStallRegions scheduledOps := fun entry => (ho _).mem_iff
  obtain ⟨key, hkey⟩ := hidle
  obtain ⟨entry, hentry, -⟩ := hfound key hkey
  obtain ⟨least, hleast⟩ : ∃ least,
      minStallSize (order (getExecutorStallRegions scheduledOps)) = some least := by
    cases horder : order (getExecutorStallRegions scheduledOps) with
    | nil =>
      rw [← hmem, horder] at hentry
      simp at hentry
    | cons first rest => exact ⟨_, rfl⟩
  have hleastMem := minStallSize_mem hleast
  obtain ⟨hne, hascending, -⟩ := hentries least ((hmem least).mp hleastMem)
  obtain ⟨stall, stalls, hstalls⟩ := exists_cons_of_ne_nil hne
  have hexecutors : ∀ l ∈ (order (getExecutorStallRegions scheduledOps)).map Prod.snd,
      Ascending l := by
    intro l hl
    obtain ⟨entry, hentry, rfl⟩ := mem_map.mp hl
    exact (hentries entry ((hmem entry).mp hentry)).2.1
  have hstart : Searching ((order (getExecutorStallRegions scheduledOps)).map Prod.snd)
      (stall :: stalls) stall [] := by
    refine ⟨.nil, by simp, fun s hs => ?_, by simp⟩
    obtain rfl : stall = s := by simpa using hs
    exact ⟨le_rfl, (hascending.nonempty stall (by simp [hstalls])).le, rfl⟩
  obtain ⟨common, hcommon, hresult, hranges⟩ := commonStalls_spec
    (searchSteps (stall :: stalls)) [] hexecutors
    (mem_map.mpr ⟨least, hleastMem, hstalls⟩) hstart (by simp [searchSteps])
  refine ⟨common, ?_, hresult, fun r hr entry hentry =>
    hranges r hr entry.2 (mem_map_of_mem ((hmem entry).mpr hentry))⟩
  simp [getStallsOnAllExecutorPipelines, hleast, hstalls, hcommon]

/-- Some pipeline has idle cycles, and each operation runs on such a pipeline or away from
the cycles in which all such pipelines are idle. -/
structure Undisturbed (scheduledOps : List (ScheduledOpInfo V)) : Prop where
  idle : ∃ key, HasIdle scheduledOps key
  away : ∀ op ∈ scheduledOps, (∃ key, op.RunsOn key ∧ HasIdle scheduledOps key) ∨
    ∀ cycle, (∀ key, HasIdle scheduledOps key → Idle scheduledOps key cycle) →
      cycle < op.cycleBegin ∨ max op.cycleEnd (op.cycleBegin + 1) ≤ cycle

def ApartFrom (stalls : StallCycles) (op : ScheduledOpInfo V) : Prop :=
  ∀ r ∈ stalls, r.2 ≤ op.cycleBegin ∨ op.cycleEnd ≤ r.1 ∧ op.cycleBegin ≤ r.1

theorem Undisturbed.apartFrom (hundisturbed : Undisturbed scheduledOps)
    (h : Sequential scheduledOps) (hascending : Ascending stallsToRemove)
    (hcommon : ∀ r ∈ stallsToRemove, ∀ entry ∈ getExecutorStallRegions scheduledOps,
      ∃ s ∈ entry.2, s.1 ≤ r.1 ∧ r.2 ≤ s.2) (hop : op ∈ scheduledOps) :
    ApartFrom stallsToRemove op := by
  intro r hr
  obtain ⟨hentries, hfound⟩ := getExecutorStallRegions_spec h
  have hlt := hascending.nonempty r hr
  have hduration := h.durations op hop
  rcases hundisturbed.away op hop with ⟨key, hrun, hkey⟩ | haway
  · obtain ⟨entry, hentry, rfl⟩ := hfound key hkey
    obtain ⟨s, hs, hlower, hupper⟩ := hcommon r hr entry hentry
    rcases ((hentries entry hentry).2.2 s hs).2 op hop hrun with hle | hle
    · exact .inl (hupper.trans hle)
    · exact .inr ⟨hle.trans hlower, (hduration.trans hle).trans hlower⟩
  · have hidle : ∀ cycle, r.1 ≤ cycle → cycle < r.2 →
        cycle < op.cycleBegin ∨ max op.cycleEnd (op.cycleBegin + 1) ≤ cycle := by
      intro cycle hlo hhi
      refine haway cycle fun key hkey => ?_
      obtain ⟨entry, hentry, rfl⟩ := hfound key hkey
      obtain ⟨s, hs, hlower, hupper⟩ := hcommon r hr entry hentry
      exact ((hentries entry hentry).2.2 s hs).1 cycle (hlower.trans hlo) (hhi.trans_le hupper)
    by_cases hbefore : r.2 ≤ op.cycleBegin
    · exact .inl hbefore
    · have hfirst := hidle r.1 le_rfl hlt
      have hbegin := hidle op.cycleBegin
      omega

section Apart

variable (hstalls : Ascending stallsToRemove)

include hstalls

section

variable (ha : ApartFrom stallsToRemove a)
include ha

theorem removedBefore_le_cycleBegin :
    removedBefore stallsToRemove a.cycleBegin ≤ a.cycleBegin := by
  apply hstalls.removedBefore_le_self
  intro r hr hlt
  rcases ha r hr with hle | hle
  · exact hle
  · exact absurd hlt (not_lt.mpr hle.2)

theorem removeStalls_eq (hduration : a.cycleBegin ≤ a.cycleEnd)
    (hword : a.cycleEnd < Memory.wordSize) :
    (removeStalls stallsToRemove a).cycleBegin =
        a.cycleBegin - removedBefore stallsToRemove a.cycleBegin ∧
      (removeStalls stallsToRemove a).cycleEnd =
        a.cycleEnd - removedBefore stallsToRemove a.cycleBegin := by
  have hle := removedBefore_le_cycleBegin hstalls ha
  exact ⟨Memory.sub64_eq hle (hduration.trans_lt hword),
    Memory.sub64_eq (hle.trans hduration) hword⟩

theorem removedBefore_le_of_cycleEnd_le (hb : ApartFrom stallsToRemove b)
    (hduration : a.cycleBegin ≤ a.cycleEnd) (hab : a.cycleEnd ≤ b.cycleBegin) :
    removedBefore stallsToRemove b.cycleBegin ≤
      removedBefore stallsToRemove a.cycleBegin + (b.cycleBegin - a.cycleEnd) := by
  apply hstalls.removedBefore_le hduration hab
  · intro r hr
    have hlt := hstalls.nonempty r hr
    rcases ha r hr with hle | hle
    · exact .inl (hlt.trans_le hle)
    · exact .inr hle.1
  · intro r hr hlt
    rcases hb r hr with hle | hle
    · exact hle
    · exact absurd hlt (not_lt.mpr hle.2)

end

theorem removedBefore_le_of_cycleBegin_le (hb : ApartFrom stallsToRemove b)
    (hab : a.cycleBegin ≤ b.cycleBegin) :
    removedBefore stallsToRemove b.cycleBegin ≤
      removedBefore stallsToRemove a.cycleBegin + (b.cycleBegin - a.cycleBegin) := by
  apply hstalls.removedBefore_le le_rfl hab
  · exact fun r _ => lt_or_ge r.1 a.cycleBegin
  · intro r hr hlt
    rcases hb r hr with hle | hle
    · exact hle
    · exact absurd hlt (not_lt.mpr hle.2)

end Apart

theorem Sequential.removeStalls (h : Sequential scheduledOps) (hstalls : Ascending stallsToRemove)
    (hops : ∀ op ∈ scheduledOps, ApartFrom stallsToRemove op) :
    Sequential (scheduledOps.map (removeStalls stallsToRemove)) := by
  have heq : ∀ op ∈ scheduledOps, _ := fun op hop =>
    removeStalls_eq hstalls (hops op hop) (h.durations op hop) (h.words op hop)
  constructor
  · refine pairwise_map.mpr (h.sorted.imp_of_mem fun {a b} ha hb hab => ?_)
    have := removedBefore_le_of_cycleBegin_le hstalls (hops b hb) hab
    rw [(heq a ha).1, (heq b hb).1]
    omega
  · refine pairwise_map.mpr (h.apart.imp_of_mem fun {a b} ha hb hab key hka hkb => ?_)
    have hend := hab key hka hkb
    have := removedBefore_le_of_cycleEnd_le hstalls (hops a ha) (hops b hb) (h.durations a ha) hend
    rw [(heq a ha).2, (heq b hb).1]
    omega
  · intro op hop
    obtain ⟨a, ha, rfl⟩ := mem_map.mp hop
    have := h.durations a ha
    rw [(heq a ha).1, (heq a ha).2]
    omega
  · intro op hop
    obtain ⟨a, ha, rfl⟩ := mem_map.mp hop
    have := h.words a ha
    rw [(heq a ha).2]
    omega
  · intro op hop
    obtain ⟨a, ha, rfl⟩ := mem_map.mp hop
    exact h.masks a ha

/-- The stalls that are removed keep an undisturbed schedule valid: no cycle becomes negative,
durations and pipelines stay as they are, and what ended before something began still does. -/
theorem assignCyclesToExecOps_sequential (order : ExecutorStallCycles → ExecutorStallCycles)
    (ho : ∀ l, (order l).Perm l) (scheduledOps : List (ScheduledOpInfo V))
    (h : Sequential scheduledOps) (hundisturbed : Undisturbed scheduledOps) :
    ∃ stalls, getStallsOnAllExecutorPipelines order scheduledOps = some stalls ∧
      assignCyclesToExecOps order scheduledOps = some (scheduledOps.map (removeStalls stalls)) ∧
      (∀ op ∈ scheduledOps, removedBefore stalls op.cycleBegin ≤ op.cycleBegin ∧
        (removeStalls stalls op).cycleBegin ≤ op.cycleBegin ∧
        (removeStalls stalls op).cycleEnd - (removeStalls stalls op).cycleBegin =
          op.cycleEnd - op.cycleBegin) ∧
      Sequential (scheduledOps.map (removeStalls stalls)) ∧
      ∀ a ∈ scheduledOps, ∀ b ∈ scheduledOps, a.cycleEnd ≤ b.cycleBegin →
        (removeStalls stalls a).cycleEnd ≤ (removeStalls stalls b).cycleBegin := by
  obtain ⟨stalls, hget, hstalls, hcommon⟩ :=
    getStallsOnAllExecutorPipelines_spec ho h hundisturbed.idle
  have hops : ∀ op ∈ scheduledOps, ApartFrom stalls op :=
    fun op hop => hundisturbed.apartFrom h hstalls hcommon hop
  refine ⟨stalls, hget, by simp [assignCyclesToExecOps, hget], fun op hop => ?_,
    h.removeStalls hstalls hops, fun a ha b hb hab => ?_⟩
  · have hle := removedBefore_le_cycleBegin hstalls (hops op hop)
    have hduration := h.durations op hop
    obtain ⟨hbegin, hend⟩ := removeStalls_eq hstalls (hops op hop) hduration (h.words op hop)
    rw [hbegin, hend]
    exact ⟨hle, Nat.sub_le _ _, by omega⟩
  · have hremoved := removedBefore_le_of_cycleEnd_le hstalls (hops a ha) (hops b hb)
      (h.durations a ha) hab
    have hle := removedBefore_le_cycleBegin hstalls (hops b hb)
    have hle' := removedBefore_le_cycleBegin hstalls (hops a ha)
    have hduration := h.durations a ha
    rw [(removeStalls_eq hstalls (hops a ha) hduration (h.words a ha)).2,
      (removeStalls_eq hstalls (hops b hb) (h.durations b hb) (h.words b hb)).1]
    omega

def runAt (executor : ExecutorKind) (cycleBegin cycleEnd : ℕ) : ScheduledOpInfo Unit where
  op := cycleBegin
  opType := .ORIGINAL_OP
  outputResourceInfo := []
  inputResourceInfo := []
  cycleBegin := cycleBegin
  cycleEnd := cycleEnd
  isDataOp := false
  freeCmx := 0
  executor := executor
  executorInstanceMask := [0]
  isNonComputeChain := false

theorem runsOn_runAt {executor : ExecutorKind} {cycleBegin cycleEnd : ℕ} {key : Pipeline} :
    (runAt executor cycleBegin cycleEnd).RunsOn key ↔ key = (executor, 0) := by
  obtain ⟨kind, inst⟩ := key
  simp [runAt, ScheduledOpInfo.RunsOn, eq_comm]

/-- Both pipelines are idle in the cycles from 20 to 40. -/
def pausedSchedule : List (ScheduledOpInfo Unit) :=
  [runAt .DMA_NN 0 10, runAt .NCE 10 20, runAt .DMA_NN 40 50, runAt .NCE 40 45]

theorem sequential_pausedSchedule : Sequential pausedSchedule where
  sorted := by decide
  apart := by
    simp only [pausedSchedule, pairwise_cons, mem_cons, not_mem_nil, or_false,
      forall_eq_or_imp, forall_eq, runsOn_runAt, IsEmpty.forall_iff, implies_true,
      List.Pairwise.nil, and_true]
    decide
  durations := by decide
  words := by decide
  masks := by decide

theorem hasIdle_pausedSchedule {executor : ExecutorKind}
    (h : executor = .DMA_NN ∨ executor = .NCE) : HasIdle pausedSchedule (executor, 0) := by
  refine ⟨20, ?_, ?_⟩
  · rcases h with rfl | rfl
    · exact ⟨runAt .DMA_NN 40 50, by simp [pausedSchedule], by decide, by decide⟩
    · exact ⟨runAt .NCE 40 45, by simp [pausedSchedule], by decide, by decide⟩
  · intro op hop _
    simp only [pausedSchedule, mem_cons, not_mem_nil, or_false] at hop
    rcases hop with rfl | rfl | rfl | rfl <;> decide

theorem assignCyclesToExecOps_pausedSchedule :
    ∃ stalls, assignCyclesToExecOps id pausedSchedule =
        some (pausedSchedule.map (removeStalls stalls)) ∧
      Sequential (pausedSchedule.map (removeStalls stalls)) := by
  have hundisturbed : Undisturbed pausedSchedule := by
    refine ⟨⟨_, hasIdle_pausedSchedule (.inl rfl)⟩, fun op hop => .inl ⟨(op.executor, 0), ?_⟩⟩
    simp only [pausedSchedule, List.mem_cons, List.not_mem_nil, or_false] at hop
    rcases hop with rfl | rfl | rfl | rfl
    · exact ⟨by decide, hasIdle_pausedSchedule (.inl rfl)⟩
    · exact ⟨by decide, hasIdle_pausedSchedule (.inr rfl)⟩
    · exact ⟨by decide, hasIdle_pausedSchedule (.inl rfl)⟩
    · exact ⟨by decide, hasIdle_pausedSchedule (.inr rfl)⟩
  obtain ⟨stalls, -, hassign, -, hsequential, -⟩ := assignCyclesToExecOps_sequential id
    (fun l => .refl l) pausedSchedule sequential_pausedSchedule hundisturbed
  exact ⟨stalls, hassign, hsequential⟩

/-- The first executor is never idle, the other one waits for its first input. -/
def busySchedule : List (ScheduledOpInfo Unit) :=
  [runAt .DMA_NN 0 10, runAt .DMA_NN 10 20, runAt .NCE 10 15]

/-- The cycles that only the second executor waits for are taken out: two transfers overlap on one
instance, and what needs the first of them begins with it. -/
theorem assignCyclesToExecOps_busySchedule : Sequential busySchedule ∧
    ∃ shifted, assignCyclesToExecOps id busySchedule = some shifted ∧
      (shifted.map fun op => (op.executor, op.cycleBegin, op.cycleEnd)) =
        [(.DMA_NN, 0, 10), (.DMA_NN, 0, 10), (.NCE, 0, 5)] ∧
      ¬ shifted.Pairwise fun a b => ∀ key, a.RunsOn key → b.RunsOn key →
        Disjoint (Set.Ico a.cycleBegin a.cycleEnd) (Set.Ico b.cycleBegin b.cycleEnd) := by
  refine ⟨⟨by decide, ?_, by decide, by decide, by decide⟩,
    busySchedule.map (removeStalls [(0, 10)]),
    rfl, by decide, fun hdisjoint => ?_⟩
  · simp only [busySchedule, List.pairwise_cons, List.mem_cons, List.not_mem_nil, or_false,
      forall_eq_or_imp, forall_eq, runsOn_runAt, IsEmpty.forall_iff, implies_true,
      List.Pairwise.nil, and_true]
    decide
  · have hfirst := (List.pairwise_cons.mp hdisjoint).1
      (removeStalls [(0, 10)] (runAt .DMA_NN 10 20)) (by simp) (.DMA_NN, 0)
      (by decide) (by decide)
    exact Set.disjoint_left.mp hfirst (show 5 ∈ Set.Ico _ _ from ⟨by decide, by decide⟩)
      ⟨by decide, by decide⟩

end Removal

end Vpux.Scheduler
