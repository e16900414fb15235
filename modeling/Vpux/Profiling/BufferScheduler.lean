import Vpux.Data.Packing

/-! The profiling buffers of DPU and ActShave tasks (`core/dpu_profiling.cpp` and
`core/act_profiling.cpp`). A class plans the sizes of the buffers task by task, and places the
tasks later. -/
namespace Vpux.Profiling

abbrev Unsigned := BitVec 32

def HW_DPU_PROFILING_MAX_BUFFER_SIZE : Unsigned := 1024
def HW_ACT_SHAVE_PROFILING_SIZE_BYTES : Unsigned := 16
def HW_ACT_SHAVE_PROFILING_MAX_BUFFER_SIZE : Unsigned := 128

structure TaskSignature where
  loc : String
  maxSubTasks : Unsigned
  subTasksAtCluster : List Unsigned
  deriving DecidableEq, Repr

/-- The fields of `BaseClusterBufferScheduler`, and those of `BaseActShaveProfiler`. -/
structure BufferScheduler where
  clustersNum : Unsigned
  profilingWorkloadSize : Unsigned
  profilingElementSize : Unsigned
  profilingBufferSizes : List Unsigned
  taskSignatures : List TaskSignature
  deriving DecidableEq, Repr

/-- An element is a `uint64_t`. -/
def BaseClusterBufferScheduler (clustersNum profilingWorkloadSize : Unsigned) :
    BufferScheduler where
  clustersNum := clustersNum
  profilingWorkloadSize := profilingWorkloadSize
  profilingElementSize := profilingWorkloadSize / 8
  profilingBufferSizes := [0]
  taskSignatures := []

/-- An element is a `uint32_t`. -/
def BaseActShaveProfiler (clustersNum : Unsigned) : BufferScheduler where
  clustersNum := clustersNum
  profilingWorkloadSize := HW_ACT_SHAVE_PROFILING_SIZE_BYTES
  profilingElementSize := HW_ACT_SHAVE_PROFILING_SIZE_BYTES / 4
  profilingBufferSizes := [0]
  taskSignatures := []

section Planning

def getRequiredDdrMemory (self : BufferScheduler) : Unsigned :=
  (self.taskSignatures.map TaskSignature.maxSubTasks).sum * self.clustersNum *
    self.profilingElementSize

/-- The sizes after one more task: its sub-tasks go to the last buffer if they fit. -/
def reserve (maxBufferSize profilingWorkloadSize : Unsigned) (profilingBufferSizes : List Unsigned)
    (maxTasks : Unsigned) : List Unsigned :=
  let currentBufferSize := profilingBufferSizes.getLastD 0
  let newBufferSize := currentBufferSize + maxTasks
  if newBufferSize * profilingWorkloadSize > maxBufferSize then
    profilingBufferSizes ++ [maxTasks]
  else profilingBufferSizes.dropLast ++ [newBufferSize]

def schedule (maxBufferSize : Unsigned) (tooLarge : String → ℕ → String) (self : BufferScheduler)
    (taskSignature : TaskSignature) : Except String BufferScheduler :=
  let requiredMemory := taskSignature.maxSubTasks * self.profilingWorkloadSize
  if requiredMemory > maxBufferSize then .error (tooLarge taskSignature.loc requiredMemory.toNat)
  else .ok { self with
    taskSignatures := self.taskSignatures ++ [taskSignature]
    profilingBufferSizes := reserve maxBufferSize self.profilingWorkloadSize
      self.profilingBufferSizes taskSignature.maxSubTasks }

def scheduleNceTask : BufferScheduler → TaskSignature → Except String BufferScheduler :=
  schedule HW_DPU_PROFILING_MAX_BUFFER_SIZE fun loc requiredMemory =>
    s!"NCEClusterTask at '{loc}' requires more memory {requiredMemory} than currently " ++
      "supported. Change  HW_DPU_PROFILING_MAX_BUFFER_SIZE."

def scheduleTask : BufferScheduler → TaskSignature → Except String BufferScheduler :=
  schedule HW_ACT_SHAVE_PROFILING_MAX_BUFFER_SIZE fun loc requiredMemory =>
    s!"SwKernelOp at '{loc}' requires more memory {requiredMemory} than currently supported. " ++
      "Change  HW_ACT_SHAVE_PROFILING_MAX_BUFFER_SIZE."

end Planning

section Classes

/-- An offset and a size in elements. -/
abbrev SubView := ℤ × ℤ

/-- What the classes do in their own way. The DDR offset is a number of `offsetBits` bits. -/
structure ProfilerClass where
  maxBufferSize : Unsigned
  offsetBits : ℕ
  /-- The offset of a view, from the element size, the clusters and the samples before it. -/
  viewOffset : Unsigned → Unsigned → Unsigned → ℤ
  /-- The range written, from the element size, the DDR offset and the amounts of tasks. -/
  copyToDDR : Unsigned → ℕ → List Unsigned → SubView

/-- `countDpuTasks` and `countTasks`. -/
def countTasks (amounts : List Unsigned) : Unsigned := amounts.sum

def SingleClusterScheduler : ProfilerClass where
  maxBufferSize := HW_DPU_PROFILING_MAX_BUFFER_SIZE
  offsetBits := 32
  viewOffset elementSize _ samples := samples.toNat * elementSize.toNat
  copyToDDR elementSize offset amounts :=
    (offset * elementSize.toNat, (countTasks amounts).toNat * elementSize.toNat)

def MultiClusterScheduler : ProfilerClass where
  maxBufferSize := HW_DPU_PROFILING_MAX_BUFFER_SIZE
  offsetBits := 32
  viewOffset elementSize clustersNum samples :=
    samples.toNat * elementSize.toNat / clustersNum.toNat
  copyToDDR elementSize offset amounts :=
    let memorySize := countTasks amounts * elementSize
    (offset * elementSize.toNat, memorySize.toNat)

def UniformNonTiledActShaveProfiler : ProfilerClass where
  maxBufferSize := HW_ACT_SHAVE_PROFILING_MAX_BUFFER_SIZE
  offsetBits := 64
  viewOffset elementSize _ samples := (samples * elementSize).toInt
  copyToDDR elementSize offset amounts :=
    ((BitVec.ofNat 64 (offset * elementSize.toNat)).toInt,
      (amounts.map BitVec.toNat).sum * elementSize.toNat)

def NCETiledActShaveProfiler : ProfilerClass where
  maxBufferSize := HW_ACT_SHAVE_PROFILING_MAX_BUFFER_SIZE
  offsetBits := 64
  viewOffset elementSize clustersNum samples := (samples * elementSize / clustersNum).toInt
  copyToDDR elementSize offset amounts :=
    ((BitVec.ofNat 64 (offset * elementSize.toNat)).toInt,
      (amounts.map BitVec.toNat).sum * elementSize.toNat)

/-- The class that the pass takes for tasks of `numClusters` clusters. -/
def clusterScheduler (numClusters : Unsigned) : ProfilerClass :=
  if numClusters = 1 then SingleClusterScheduler else MultiClusterScheduler

/-- The class that the pass takes, and its number of clusters. -/
def actShaveProfiler (isClusterTilingAppliedToActShaves : Bool) (numNceEngines : Unsigned) :
    ProfilerClass × Unsigned :=
  if isClusterTilingAppliedToActShaves then (NCETiledActShaveProfiler, numNceEngines)
  else (UniformNonTiledActShaveProfiler, 1)

end Classes

section Placing

structure ProfilingBuffer where
  bufferId : Unsigned
  size : Unsigned
  totalSizeCMXElements : Unsigned
  deriving DecidableEq, Repr

/-- The counters when a task is placed. A class writes some of them to the profiled task. -/
structure Counters where
  bufferId : Unsigned
  taskId : Unsigned
  ddrOffset : ℕ
  bufferSize : Unsigned
  inClusterOffset : ℕ
  deriving DecidableEq, Repr

/-- A task with its slot, a view to the current buffer. -/
structure ProfiledTask where
  task : TaskSignature
  view : SubView
  tasksAmount : Unsigned
  counters : Counters
  deriving DecidableEq, Repr

/-- A copy of the concatenated slots of a buffer to a range of the output. -/
structure CopyToDDR where
  buffer : ProfilingBuffer
  outputs : List ProfiledTask
  range : SubView
  deriving DecidableEq, Repr

/-- An exception, or a task placed while `currentProfilingBuffer` is still null. -/
inductive PlacementFault where
  | exception (message : String)
  | nullBuffer
  deriving DecidableEq, Repr

structure Placement where
  profilingBufferSizes : List Unsigned
  nextBufferId : Unsigned
  /-- The last one is the current buffer. -/
  buffers : List ProfilingBuffer
  /-- A buffer was asked for when none was reserved. -/
  ranOut : Bool
  profilingOutputs : List ProfiledTask
  currentDDROffset : ℕ
  inClusterOffset : ℕ
  tasksCounter : Unsigned
  copies : List CopyToDDR
  deriving DecidableEq, Repr

def allocateProfilingBufferCMX (self : BufferScheduler) (state : Placement) :
    Except PlacementFault Placement :=
  match state.profilingBufferSizes with
  | [] => .ok { state with ranOut := true }
  | currentBufferSize :: rest =>
    if currentBufferSize = 0 then .error (.exception "Empty CMXBuffers is not allowed")
    else
      let totalSizeCMXElements :=
        currentBufferSize * self.profilingElementSize * self.clustersNum
      .ok { state with
        profilingBufferSizes := rest
        nextBufferId := state.nextBufferId + 1
        buffers :=
          state.buffers ++ [⟨state.nextBufferId, currentBufferSize, totalSizeCMXElements⟩] }

variable (profiler : ProfilerClass) (self : BufferScheduler)

def flushCMX2DDR (state : Placement) : Placement :=
  match state.profilingOutputs, state.buffers.getLast? with
  | [], _ => state
  | _, none => state
  | outputs, some buffer =>
    let amounts := outputs.map ProfiledTask.tasksAmount
    let range := profiler.copyToDDR self.profilingElementSize state.currentDDROffset amounts
    { state with
      copies := state.copies ++ [⟨buffer, outputs, range⟩]
      profilingOutputs := []
      currentDDROffset :=
        (state.currentDDROffset + (countTasks amounts).toNat) % 2 ^ profiler.offsetBits }

/-- The slot of a task in the current buffer. -/
def placeTask (state : Placement) (profilingSamplesInCMX : Unsigned)
    (taskSignature : TaskSignature) : Except PlacementFault Placement :=
  match state.buffers.getLast? with
  | none => .error .nullBuffer
  | some buffer =>
    let tasksAmount := taskSignature.maxSubTasks * self.clustersNum
    let size := (tasksAmount.toNat : ℤ) * self.profilingElementSize.toNat
    let offset :=
      profiler.viewOffset self.profilingElementSize self.clustersNum profilingSamplesInCMX
    let counters :=
      { bufferId := buffer.bufferId
        taskId := state.tasksCounter + 1
        ddrOffset := state.currentDDROffset
        bufferSize := buffer.size
        inClusterOffset := state.inClusterOffset }
    .ok { state with
      profilingOutputs :=
        state.profilingOutputs ++ [⟨taskSignature, (offset, size), tasksAmount, counters⟩]
      tasksCounter := state.tasksCounter + 1
      inClusterOffset := (state.inClusterOffset + taskSignature.maxSubTasks.toNat) % 2 ^ 64 }

def addTask (state : Placement) (taskSignature : TaskSignature) : Except PlacementFault Placement :=
  let tasksAmount := taskSignature.maxSubTasks * self.clustersNum
  let profilingSamplesInCMX := countTasks (state.profilingOutputs.map ProfiledTask.tasksAmount)
  let expectedCMXMemoryUsage :=
    (profilingSamplesInCMX + tasksAmount) * self.profilingWorkloadSize
  if expectedCMXMemoryUsage > profiler.maxBufferSize * self.clustersNum then do
    let flushed := flushCMX2DDR profiler self state
    let state ← allocateProfilingBufferCMX self { flushed with inClusterOffset := 0 }
    placeTask profiler self state 0 taskSignature
  else placeTask profiler self state profilingSamplesInCMX taskSignature

/-- Nothing is placed; the ids of the buffers go on from `nextBufferId`. -/
def startPlacement (currentDDROffset : ℕ) (nextBufferId : Unsigned) : Placement where
  profilingBufferSizes := self.profilingBufferSizes
  nextBufferId := nextBufferId
  buffers := []
  ranOut := false
  profilingOutputs := []
  currentDDROffset := currentDDROffset
  inClusterOffset := 0
  tasksCounter := 0
  copies := []

def placeTasks (state : Placement) : Except PlacementFault Placement := do
  let state ← allocateProfilingBufferCMX self state
  let state ← self.taskSignatures.foldlM (addTask profiler self) state
  return flushCMX2DDR profiler self state

/-- The offset and the ids of the buffers go on where the scheduler before it ended. -/
def BaseClusterBufferScheduler.addProfilingOps (currentDDROffset nextBufferId : Unsigned) :
    Except PlacementFault Placement :=
  let state := startPlacement self currentDDROffset.toNat nextBufferId
  if getRequiredDdrMemory self = 0 then .ok state
  else placeTasks (clusterScheduler self.clustersNum) self state

def BaseActShaveProfiler.addProfilingOps : Except PlacementFault Placement :=
  placeTasks profiler self (startPlacement self 0 0)

end Placing

-- The buffers that a profiling class reserves are those of a greedy packing of its tasks.
section SlotsPlanned
open Data

def subTasks (tasks : List TaskSignature) : ℕ :=
  (tasks.map fun task => task.maxSubTasks.toNat).sum

@[simp] theorem subTasks_nil : subTasks [] = 0 := rfl

@[simp] theorem subTasks_cons (task : TaskSignature) (tasks : List TaskSignature) :
    subTasks (task :: tasks) = task.maxSubTasks.toNat + subTasks tasks := by
  simp [subTasks]

@[simp] theorem subTasks_append (tasks tasks' : List TaskSignature) :
    subTasks (tasks ++ tasks') = subTasks tasks + subTasks tasks' := by
  simp [subTasks]

/-- The tasks fit one buffer. -/
def fitsBuffer (maxBufferSize profilingWorkloadSize : Unsigned) (tasks : List TaskSignature) :
    Bool :=
  subTasks tasks * profilingWorkloadSize.toNat ≤ maxBufferSize.toNat

def bufferSizeOf (tasks : List TaskSignature) : Unsigned := BitVec.ofNat 32 (subTasks tasks)

section Planning

variable {maxBufferSize profilingWorkloadSize : Unsigned} {tasks : List TaskSignature}

/-- The sizes of the buffers of the tasks. -/
def reserved (maxBufferSize profilingWorkloadSize : Unsigned) (tasks : List TaskSignature) :
    List Unsigned :=
  tasks.foldl (fun sizes task => reserve maxBufferSize profilingWorkloadSize sizes task.maxSubTasks)
    [0]

theorem reserved_ne_nil : reserved maxBufferSize profilingWorkloadSize tasks ≠ [] := by
  induction tasks using List.reverseRecOn with
  | nil => simp [reserved]
  | append_singleton tasks task _ =>
    rw [reserved, List.foldl_append, List.foldl_cons, List.foldl_nil, reserve]
    split_ifs <;> simp

theorem toNat_bufferSizeOf (h : subTasks tasks < 2 ^ 32) :
    (bufferSizeOf tasks).toNat = subTasks tasks := by
  rw [bufferSizeOf, BitVec.toNat_ofNat, Nat.mod_eq_of_lt h]

section

variable (hpos : 0 < profilingWorkloadSize.toNat)
include hpos

variable (hmax : 2 * maxBufferSize.toNat < 2 ^ 32)
include hmax

theorem reserve_bufferSizeOf {cur : List TaskSignature} {task : TaskSignature}
    (hcur : subTasks cur * profilingWorkloadSize.toNat ≤ maxBufferSize.toNat)
    (htask : task.maxSubTasks.toNat * profilingWorkloadSize.toNat ≤ maxBufferSize.toNat)
    (sizes : List Unsigned) :
    reserve maxBufferSize profilingWorkloadSize (sizes ++ [bufferSizeOf cur]) task.maxSubTasks =
      if fitsBuffer maxBufferSize profilingWorkloadSize (cur ++ [task]) then
        sizes ++ [bufferSizeOf (cur ++ [task])]
      else sizes ++ [bufferSizeOf cur] ++ [bufferSizeOf [task]] := by
  have hsum : bufferSizeOf cur + task.maxSubTasks = bufferSizeOf (cur ++ [task]) := by
    apply BitVec.eq_of_toNat_eq
    simp [bufferSizeOf]
  have hproduct : subTasks (cur ++ [task]) * profilingWorkloadSize.toNat < 2 ^ 32 := by
    rw [subTasks_append, subTasks_cons, subTasks_nil, Nat.add_zero, Nat.add_mul]
    omega
  have htotal : subTasks (cur ++ [task]) < 2 ^ 32 :=
    (Nat.le_mul_of_pos_right _ hpos).trans_lt hproduct
  have hlast : task.maxSubTasks = bufferSizeOf [task] := by
    apply BitVec.eq_of_toNat_eq
    simp [bufferSizeOf]
  have hover : bufferSizeOf (cur ++ [task]) * profilingWorkloadSize > maxBufferSize ↔
      fitsBuffer maxBufferSize profilingWorkloadSize (cur ++ [task]) = false := by
    rw [gt_iff_lt, BitVec.lt_def, BitVec.toNat_mul, toNat_bufferSizeOf htotal,
      Nat.mod_eq_of_lt hproduct, fitsBuffer, decide_eq_false_iff_not, not_le]
  unfold reserve
  simp only [List.getLastD_concat, List.dropLast_concat, hsum]
  rw [if_congr hover rfl rfl]
  by_cases h : fitsBuffer maxBufferSize profilingWorkloadSize (cur ++ [task]) = true
  · simp [h]
  · simp [h, ← hlast]

variable (htasks : ∀ task ∈ tasks, task.maxSubTasks.toNat * profilingWorkloadSize.toNat ≤
  maxBufferSize.toNat)

include htasks in
theorem foldl_reserve {cur : List TaskSignature}
    (hcur : subTasks cur * profilingWorkloadSize.toNat ≤ maxBufferSize.toNat)
    (sizes : List Unsigned) :
    tasks.foldl
        (fun sizes task => reserve maxBufferSize profilingWorkloadSize sizes task.maxSubTasks)
        (sizes ++ [bufferSizeOf cur]) =
      sizes ++ (pack (fitsBuffer maxBufferSize profilingWorkloadSize) cur tasks).map
        bufferSizeOf := by
  induction tasks generalizing cur sizes with
  | nil => rfl
  | cons task tasks ih =>
    obtain ⟨htask, hrest⟩ := List.forall_mem_cons.mp htasks
    rw [List.foldl_cons, reserve_bufferSizeOf hpos hmax hcur htask, pack]
    split_ifs with hfits
    · exact ih hrest (of_decide_eq_true hfits) sizes
    · have hsingle : subTasks [task] * profilingWorkloadSize.toNat ≤ maxBufferSize.toNat := by
        simpa using htask
      rw [ih hrest hsingle (sizes ++ [bufferSizeOf cur]), List.map_cons, List.append_assoc,
        List.singleton_append]

include htasks in
theorem reserved_eq :
    reserved maxBufferSize profilingWorkloadSize tasks =
      (pack (fitsBuffer maxBufferSize profilingWorkloadSize) [] tasks).map bufferSizeOf :=
  @foldl_reserve _ _ _ hpos hmax htasks [] (by simp) []

end

theorem foldlM_schedule {tooLarge : String → ℕ → String} {self : BufferScheduler}
    (htasks : ∀ task ∈ tasks,
      task.maxSubTasks.toNat * self.profilingWorkloadSize.toNat ≤ maxBufferSize.toNat) :
    tasks.foldlM (schedule maxBufferSize tooLarge) self = .ok { self with
      taskSignatures := self.taskSignatures ++ tasks
      profilingBufferSizes := tasks.foldl (fun sizes task =>
        reserve maxBufferSize self.profilingWorkloadSize sizes task.maxSubTasks)
        self.profilingBufferSizes } := by
  induction tasks generalizing self with
  | nil => simp [pure, Except.pure]
  | cons task tasks ih =>
    obtain ⟨htask, hrest⟩ := List.forall_mem_cons.mp htasks
    have hfits : ¬ task.maxSubTasks * self.profilingWorkloadSize > maxBufferSize := by
      rw [gt_iff_lt, BitVec.lt_def, BitVec.toNat_mul, Nat.mod_eq_of_lt (by omega)]
      omega
    rw [List.foldlM_cons, schedule, if_neg hfits]
    refine (@ih { self with
      taskSignatures := self.taskSignatures ++ [task]
      profilingBufferSizes := reserve maxBufferSize self.profilingWorkloadSize
        self.profilingBufferSizes task.maxSubTasks } hrest).trans ?_
    rw [List.append_assoc, List.singleton_append, List.foldl_cons]

end Planning

end SlotsPlanned

end Vpux.Profiling
