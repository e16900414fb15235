import Vpux.Profiling.SlotsAgree

/-! The DPU and ActShave profilers place their tasks as planned as long as 32 bits are enough. -/
namespace Vpux.Profiling
open Data

section Lawful

theorem toNat_countTasks_of_memory {amounts : List Unsigned} {elementSize : Unsigned}
    (hpos : 0 < elementSize.toNat)
    (h : (amounts.map BitVec.toNat).sum * elementSize.toNat < 2 ^ 32) :
    (countTasks amounts).toNat = (amounts.map BitVec.toNat).sum :=
  toNat_countTasks ((Nat.le_mul_of_pos_right _ hpos).trans_lt h)

variable {scheduler : BufferScheduler} (hclusters : 0 < scheduler.clustersNum.toNat)
  (helement : 0 < scheduler.profilingElementSize.toNat)
  (hle : scheduler.profilingElementSize.toNat ≤ scheduler.profilingWorkloadSize.toNat)
include hclusters helement hle

theorem lawful_singleCluster (hone : scheduler.clustersNum = 1) :
    Lawful SingleClusterScheduler scheduler := by
  refine ⟨hclusters, helement, hle, le_rfl, ?_, ?_⟩
  · intro k samples hsamples _
    simp [SingleClusterScheduler, hsamples, hone]
  · intro offset amounts _ hmemory
    simp only [SingleClusterScheduler, toNat_countTasks_of_memory helement hmemory]

theorem lawful_multiCluster : Lawful MultiClusterScheduler scheduler := by
  refine ⟨hclusters, helement, hle, le_rfl, ?_, ?_⟩
  · intro k samples hsamples _
    have hne : (scheduler.clustersNum.toNat : ℤ) ≠ 0 := by omega
    simp only [MultiClusterScheduler, hsamples]
    push_cast
    rw [mul_right_comm, Int.mul_ediv_cancel _ hne]
  · intro offset amounts _ hmemory
    have hcount := toNat_countTasks_of_memory helement hmemory
    simp only [MultiClusterScheduler]
    rw [BitVec.toNat_mul_of_lt (hcount ▸ hmemory), hcount]
    rfl

omit hle in
theorem lawful_clusterScheduler
    (hle : scheduler.profilingElementSize.toNat ≤ scheduler.profilingWorkloadSize.toNat) :
    Lawful (clusterScheduler scheduler.clustersNum) scheduler := by
  unfold clusterScheduler
  split_ifs with hone
  · exact lawful_singleCluster hclusters helement hle hone
  · exact lawful_multiCluster hclusters helement hle

omit hclusters helement in
theorem samples_bounds {maxBufferSize samples : Unsigned} {k : ℕ}
    (hbuffers : 2 * (maxBufferSize.toNat * scheduler.clustersNum.toNat) < 2 ^ 32)
    (hmax : maxBufferSize.toNat < 2 ^ 31)
    (hsamples : samples.toNat = k * scheduler.clustersNum.toNat)
    (hlimit : k * scheduler.profilingWorkloadSize.toNat ≤ maxBufferSize.toNat) :
    (samples * scheduler.profilingElementSize).toNat =
        k * scheduler.profilingElementSize.toNat * scheduler.clustersNum.toNat ∧
      k * scheduler.profilingElementSize.toNat < 2 ^ 31 := by
  have helements : k * scheduler.profilingElementSize.toNat ≤ maxBufferSize.toNat :=
    (Nat.mul_le_mul_left k hle).trans hlimit
  have hproduct := Nat.mul_le_mul_right scheduler.clustersNum.toNat helements
  rw [Nat.mul_right_comm] at hproduct
  rw [BitVec.toNat_mul_of_lt (by rw [hsamples]; omega), hsamples]
  exact ⟨Nat.mul_right_comm _ _ _, by omega⟩

omit hclusters helement hle in
theorem toInt_of_lt {w : ℕ} {x : BitVec w} {n : ℕ} (hx : x.toNat = n) (hn : 2 * n < 2 ^ w) :
    x.toInt = n := by
  rw [BitVec.toInt_eq_toNat_of_lt (by omega), hx]

variable (hfour : scheduler.profilingElementSize.toNat = 4)
  (hbuffers : 2 * (HW_ACT_SHAVE_PROFILING_MAX_BUFFER_SIZE.toNat * scheduler.clustersNum.toNat) <
    2 ^ 32)
include hfour

omit hclusters helement hle in
theorem toInt_offset {offset : ℕ} (h : offset < 2 ^ 32) :
    (BitVec.ofNat 64 (offset * scheduler.profilingElementSize.toNat)).toInt =
      (offset : ℤ) * scheduler.profilingElementSize.toNat := by
  rw [hfour]
  refine (toInt_of_lt (n := offset * 4) ?_ (by omega)).trans (by push_cast; rfl)
  rw [BitVec.toNat_ofNat]
  exact Nat.mod_eq_of_lt (by omega)

include hbuffers

theorem lawful_uniformNonTiled (hone : scheduler.clustersNum = 1) :
    Lawful UniformNonTiledActShaveProfiler scheduler := by
  refine ⟨hclusters, helement, hle, by decide, ?_, ?_⟩
  · intro k samples hsamples hlimit
    obtain ⟨hproduct, hsmall⟩ := samples_bounds hle hbuffers (by decide) hsamples hlimit
    rw [hone] at hproduct
    simp only [UniformNonTiledActShaveProfiler]
    rw [toInt_of_lt hproduct (by simpa using (by omega))]
    simp
  · intro offset amounts hoffset _
    simp only [UniformNonTiledActShaveProfiler, toInt_offset hfour hoffset]

theorem lawful_nceTiled : Lawful NCETiledActShaveProfiler scheduler := by
  refine ⟨hclusters, helement, hle, by decide, ?_, ?_⟩
  · intro k samples hsamples hlimit
    obtain ⟨hproduct, hsmall⟩ := samples_bounds hle hbuffers (by decide) hsamples hlimit
    have hquotient : (samples * scheduler.profilingElementSize / scheduler.clustersNum).toNat =
        k * scheduler.profilingElementSize.toNat := by
      rw [BitVec.toNat_udiv, hproduct, Nat.mul_div_cancel _ hclusters]
    simp only [NCETiledActShaveProfiler]
    rw [toInt_of_lt hquotient (by omega)]
    rfl
  · intro offset amounts hoffset _
    simp only [NCETiledActShaveProfiler, toInt_offset hfour hoffset]

end Lawful

section Dpu

variable {clustersNum profilingWorkloadSize : Unsigned} {tasks : List TaskSignature} {start : ℕ}

def plannedNceTasks (clustersNum profilingWorkloadSize : Unsigned) (tasks : List TaskSignature) :
    BufferScheduler :=
  { BaseClusterBufferScheduler clustersNum profilingWorkloadSize with
    taskSignatures := tasks
    profilingBufferSizes :=
      reserved HW_DPU_PROFILING_MAX_BUFFER_SIZE profilingWorkloadSize tasks }

theorem foldlM_scheduleNceTask
    (hfit : Fit HW_DPU_PROFILING_MAX_BUFFER_SIZE profilingWorkloadSize tasks) :
    tasks.foldlM scheduleNceTask (BaseClusterBufferScheduler clustersNum profilingWorkloadSize) =
      .ok (plannedNceTasks clustersNum profilingWorkloadSize tasks) := by
  refine foldlM_schedule ?_
  exact fun task hmem => (hfit task hmem).2

theorem toNat_elementSize :
    (profilingWorkloadSize / 8).toNat = profilingWorkloadSize.toNat / 8 := by
  rfl

theorem toNat_pos (h : clustersNum ≠ 0) : 0 < clustersNum.toNat := by
  by_contra hnot
  exact h (BitVec.eq_of_toNat_eq (by simpa using hnot))

variable (hfit : Fit HW_DPU_PROFILING_MAX_BUFFER_SIZE profilingWorkloadSize tasks)
include hfit

theorem getRequiredDdrMemory_eq_zero_iff
    (hno : NoOverflow HW_DPU_PROFILING_MAX_BUFFER_SIZE clustersNum (profilingWorkloadSize / 8) tasks
      start) :
    getRequiredDdrMemory (plannedNceTasks clustersNum profilingWorkloadSize tasks) = 0 ↔
      tasks = [] ∨ clustersNum = 0 ∨ profilingWorkloadSize.toNat < 8 := by
  constructor
  · intro hzero
    by_contra hnone
    obtain ⟨htasks, hrest⟩ := not_or.mp hnone
    obtain ⟨hclusters, hworkload⟩ := not_or.mp hrest
    have hpos := toNat_pos hclusters
    have hrequired : (getRequiredDdrMemory
        (plannedNceTasks clustersNum profilingWorkloadSize tasks)).toNat =
        subTasks tasks * clustersNum.toNat * (profilingWorkloadSize / 8).toNat :=
      toNat_getRequiredDdrMemory hno hpos
    rw [hzero] at hrequired
    obtain ⟨task, rest, rfl⟩ := List.exists_cons_of_ne_nil htasks
    have hone := (hfit task List.mem_cons_self).1
    have hsum : 0 < subTasks (task :: rest) := by
      rw [subTasks_cons]
      omega
    have hdiv : 0 < (profilingWorkloadSize / 8).toNat := by
      rw [toNat_elementSize]
      omega
    exact (Nat.mul_pos (Nat.mul_pos hsum hpos) hdiv).ne hrequired
  · rintro (rfl | rfl | hworkload)
    · simp [getRequiredDdrMemory, plannedNceTasks]
    · simp [getRequiredDdrMemory, plannedNceTasks, BaseClusterBufferScheduler]
    · have hdiv : profilingWorkloadSize / 8 = 0 := by
        apply BitVec.eq_of_toNat_eq
        rw [toNat_elementSize, Nat.div_eq_of_lt hworkload]
        rfl
      simp only [getRequiredDdrMemory, plannedNceTasks, BaseClusterBufferScheduler, hdiv]
      simp

theorem addNceProfilingOps_agrees {currentDDROffset nextBufferId : Unsigned}
    (hno : NoOverflow HW_DPU_PROFILING_MAX_BUFFER_SIZE clustersNum (profilingWorkloadSize / 8) tasks
      currentDDROffset.toNat)
    (hrequired : getRequiredDdrMemory (plannedNceTasks clustersNum profilingWorkloadSize tasks) ≠
      0) :
    ∃ result, BaseClusterBufferScheduler.addProfilingOps
        (plannedNceTasks clustersNum profilingWorkloadSize tasks) currentDDROffset nextBufferId =
      .ok result ∧ Agrees HW_DPU_PROFILING_MAX_BUFFER_SIZE
        (plannedNceTasks clustersNum profilingWorkloadSize tasks) currentDDROffset.toNat
          result := by
  have hnone := (getRequiredDdrMemory_eq_zero_iff hfit hno).not.mp hrequired
  obtain ⟨htasks, hrest⟩ := not_or.mp hnone
  obtain ⟨hclusters, hworkload⟩ := not_or.mp hrest
  have helement : 0 < (profilingWorkloadSize / 8).toNat := by
    rw [toNat_elementSize]
    omega
  have hle : (profilingWorkloadSize / 8).toNat ≤ profilingWorkloadSize.toNat := by
    exact Nat.div_le_self _ _
  have hlawful : Lawful (clusterScheduler clustersNum)
      (plannedNceTasks clustersNum profilingWorkloadSize tasks) :=
    @lawful_clusterScheduler (plannedNceTasks clustersNum profilingWorkloadSize tasks)
      (toNat_pos hclusters) helement hle
  have hmax : (clusterScheduler clustersNum).maxBufferSize = HW_DPU_PROFILING_MAX_BUFFER_SIZE := by
    unfold clusterScheduler
    split_ifs <;> rfl
  unfold BaseClusterBufferScheduler.addProfilingOps
  simp only [if_neg hrequired]
  have hagrees := placeTasks_agrees hlawful (hmax ▸ hno) (hmax ▸ hfit) htasks (hmax ▸ rfl)
    (by rw [hmax]; decide) nextBufferId
  rwa [hmax] at hagrees

end Dpu

section ActShave

variable {clustersNum : Unsigned} {tasks : List TaskSignature}

def plannedSwTasks (clustersNum : Unsigned) (tasks : List TaskSignature) : BufferScheduler :=
  { BaseActShaveProfiler clustersNum with
    taskSignatures := tasks
    profilingBufferSizes :=
      reserved HW_ACT_SHAVE_PROFILING_MAX_BUFFER_SIZE HW_ACT_SHAVE_PROFILING_SIZE_BYTES tasks }

theorem foldlM_scheduleTask
    (hfit : Fit HW_ACT_SHAVE_PROFILING_MAX_BUFFER_SIZE HW_ACT_SHAVE_PROFILING_SIZE_BYTES tasks) :
    tasks.foldlM scheduleTask (BaseActShaveProfiler clustersNum) =
      .ok (plannedSwTasks clustersNum tasks) := by
  refine foldlM_schedule ?_
  exact fun task hmem => (hfit task hmem).2

theorem addSwProfilingOps_agrees {tiled : Bool} {numNceEngines : Unsigned}
    (hengines : numNceEngines ≠ 0) (htasks : tasks ≠ [])
    (hfit : Fit HW_ACT_SHAVE_PROFILING_MAX_BUFFER_SIZE HW_ACT_SHAVE_PROFILING_SIZE_BYTES tasks)
    (hno : NoOverflow HW_ACT_SHAVE_PROFILING_MAX_BUFFER_SIZE
      (actShaveProfiler tiled numNceEngines).2 (HW_ACT_SHAVE_PROFILING_SIZE_BYTES / 4) tasks 0) :
    ∃ result, BaseActShaveProfiler.addProfilingOps (actShaveProfiler tiled numNceEngines).1
        (plannedSwTasks (actShaveProfiler tiled numNceEngines).2 tasks) = .ok result ∧
      Agrees HW_ACT_SHAVE_PROFILING_MAX_BUFFER_SIZE
        (plannedSwTasks (actShaveProfiler tiled numNceEngines).2 tasks) 0 result := by
  cases tiled with
  | true =>
    have hlawful : Lawful NCETiledActShaveProfiler (plannedSwTasks numNceEngines tasks) :=
      @lawful_nceTiled (plannedSwTasks numNceEngines tasks) (toNat_pos hengines)
        (show 0 < (4 : Unsigned).toNat by decide) (show (4 : Unsigned).toNat ≤ 16 by decide) rfl
        hno.buffers
    exact placeTasks_agrees hlawful hno hfit htasks rfl (by decide) 0
  | false =>
    have hlawful : Lawful UniformNonTiledActShaveProfiler (plannedSwTasks 1 tasks) :=
      @lawful_uniformNonTiled (plannedSwTasks 1 tasks) (show 0 < (1 : Unsigned).toNat by decide)
        (show 0 < (4 : Unsigned).toNat by decide) (show (4 : Unsigned).toNat ≤ 16 by decide) rfl
        hno.buffers rfl
    exact placeTasks_agrees hlawful hno hfit htasks rfl (by decide) 0

end ActShave

section Classes

/-- While 32 bits are enough, the tasks that are placed fill the reserved buffers one by one, with
slots and copies that follow one another. The DPU scheduler does nothing when no memory is
required. -/
theorem addProfilingOps_agrees :
    (∀ (clustersNum profilingWorkloadSize currentDDROffset nextBufferId : Unsigned)
      (tasks : List TaskSignature),
      Fit HW_DPU_PROFILING_MAX_BUFFER_SIZE profilingWorkloadSize tasks →
      NoOverflow HW_DPU_PROFILING_MAX_BUFFER_SIZE clustersNum (profilingWorkloadSize / 8) tasks
        currentDDROffset.toNat →
      ∃ planned, tasks.foldlM scheduleNceTask
          (BaseClusterBufferScheduler clustersNum profilingWorkloadSize) = .ok planned ∧
        planned.taskSignatures = tasks ∧
        (getRequiredDdrMemory planned = 0 ↔
          tasks = [] ∨ clustersNum = 0 ∨ profilingWorkloadSize.toNat < 8) ∧
        (getRequiredDdrMemory planned = 0 →
          BaseClusterBufferScheduler.addProfilingOps planned currentDDROffset nextBufferId =
            .ok (startPlacement planned currentDDROffset.toNat nextBufferId)) ∧
        (getRequiredDdrMemory planned ≠ 0 → ∃ result,
          BaseClusterBufferScheduler.addProfilingOps planned currentDDROffset nextBufferId =
            .ok result ∧
          Agrees HW_DPU_PROFILING_MAX_BUFFER_SIZE planned currentDDROffset.toNat result)) ∧
    ∀ (tiled : Bool) (numNceEngines : Unsigned) (tasks : List TaskSignature),
      numNceEngines ≠ 0 → tasks ≠ [] →
      Fit HW_ACT_SHAVE_PROFILING_MAX_BUFFER_SIZE HW_ACT_SHAVE_PROFILING_SIZE_BYTES tasks →
      NoOverflow HW_ACT_SHAVE_PROFILING_MAX_BUFFER_SIZE (actShaveProfiler tiled numNceEngines).2
        (HW_ACT_SHAVE_PROFILING_SIZE_BYTES / 4) tasks 0 →
      ∃ planned, tasks.foldlM scheduleTask
          (BaseActShaveProfiler (actShaveProfiler tiled numNceEngines).2) = .ok planned ∧
        planned.taskSignatures = tasks ∧
        ∃ result, BaseActShaveProfiler.addProfilingOps (actShaveProfiler tiled numNceEngines).1
            planned = .ok result ∧
          Agrees HW_ACT_SHAVE_PROFILING_MAX_BUFFER_SIZE planned 0 result := by
  constructor
  · intro clustersNum profilingWorkloadSize currentDDROffset nextBufferId tasks hfit hno
    refine ⟨_, foldlM_scheduleNceTask hfit, rfl, getRequiredDdrMemory_eq_zero_iff hfit hno, ?_,
      addNceProfilingOps_agrees hfit hno⟩
    intro hzero
    unfold BaseClusterBufferScheduler.addProfilingOps
    simp only [if_pos hzero]
  · intro tiled numNceEngines tasks hengines htasks hfit hno
    exact ⟨_, foldlM_scheduleTask hfit, rfl, addSwProfilingOps_agrees hengines htasks hfit hno⟩

/-- A task with the same number of sub-tasks in two clusters. -/
def taskOfSize (maxSubTasks : Unsigned) : TaskSignature :=
  ⟨"task", maxSubTasks, [maxSubTasks, maxSubTasks]⟩

/-- Two tasks of each kind, too large for one buffer. -/
theorem addProfilingOps_twoBuffers :
    (∃ planned result, [taskOfSize 40, taskOfSize 40].foldlM scheduleNceTask
        (BaseClusterBufferScheduler 2 16) = .ok planned ∧
      BaseClusterBufferScheduler.addProfilingOps planned 0 0 = .ok result ∧
      Agrees HW_DPU_PROFILING_MAX_BUFFER_SIZE planned 0 result) ∧
    ∃ planned result, [taskOfSize 5, taskOfSize 5].foldlM scheduleTask
        (BaseActShaveProfiler 2) = .ok planned ∧
      BaseActShaveProfiler.addProfilingOps NCETiledActShaveProfiler planned = .ok result ∧
      Agrees HW_ACT_SHAVE_PROFILING_MAX_BUFFER_SIZE planned 0 result := by
  obtain ⟨hdpu, hactShave⟩ := addProfilingOps_agrees
  constructor
  · obtain ⟨planned, hplanned, -, hzero, -, hresult⟩ :=
      hdpu 2 16 0 0 [taskOfSize 40, taskOfSize 40] (by decide) ⟨by decide, by decide, by decide⟩
    obtain ⟨result, hadd, hagrees⟩ := hresult (hzero.not.mpr (by decide))
    exact ⟨planned, result, hplanned, hadd, hagrees⟩
  · obtain ⟨planned, hplanned, -, result, hadd, hagrees⟩ :=
      hactShave true 2 [taskOfSize 5, taskOfSize 5] (by decide) (by decide) (by decide)
        ⟨by decide, by decide, by decide⟩
    exact ⟨planned, result, hplanned, hadd, hagrees⟩

/-- What is placed is not what was planned. -/
def Disagrees (clustersNum profilingWorkloadSize : Unsigned) (tasks : List TaskSignature) : Prop :=
  Fit HW_DPU_PROFILING_MAX_BUFFER_SIZE profilingWorkloadSize tasks ∧
    ∃ planned result, tasks.foldlM scheduleNceTask
        (BaseClusterBufferScheduler clustersNum profilingWorkloadSize) = .ok planned ∧
      BaseClusterBufferScheduler.addProfilingOps planned 0 0 = .ok result ∧
      result.buffers.map ProfilingBuffer.size ≠ planned.profilingBufferSizes

theorem disagrees_of_getRequiredDdrMemory_eq_zero {clustersNum profilingWorkloadSize : Unsigned}
    {tasks : List TaskSignature}
    (hfit : Fit HW_DPU_PROFILING_MAX_BUFFER_SIZE profilingWorkloadSize tasks)
    (hzero : getRequiredDdrMemory (plannedNceTasks clustersNum profilingWorkloadSize tasks) = 0) :
    Disagrees clustersNum profilingWorkloadSize tasks := by
  refine ⟨hfit, _, _, foldlM_scheduleNceTask hfit, if_pos hzero, ?_⟩
  exact reserved_ne_nil.symm

/-- The reserved buffers are not allocated when a workload is smaller than an element, when the
limit of two buffers for all clusters overflows, and when the required memory does. -/
theorem addProfilingOps_disagrees : Disagrees 1 4 [taskOfSize 1] ∧
    Disagrees (2 ^ 21) 16 [taskOfSize 64, taskOfSize 64] ∧
    Disagrees (2 ^ 20) 16 (List.replicate 32 (taskOfSize 64)) := by
  refine ⟨disagrees_of_getRequiredDdrMemory_eq_zero (by decide) (by decide),
    ⟨by decide, _, _, rfl, rfl, by decide⟩,
    disagrees_of_getRequiredDdrMemory_eq_zero (by decide) (by decide)⟩

end Classes

end Vpux.Profiling
