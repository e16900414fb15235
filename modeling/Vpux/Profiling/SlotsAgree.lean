import Mathlib.Algebra.Order.Ring.Int
import Vpux.Profiling.BufferScheduler

/-! The slots of the profiled tasks fill the reserved buffers exactly, and the copies to DDR follow
one another. -/
namespace Vpux.Profiling
open Data

def ProfiledTask.slot (clustersNum : Unsigned) (profiled : ProfiledTask) : ℤ × ℤ :=
  (profiled.view.1, profiled.view.2 / clustersNum.toNat)

/-- A slot of the sub-tasks of its task for all clusters, found by the counters. -/
structure Placed (scheduler : BufferScheduler) (buffer : ProfilingBuffer) (ddrOffset : ℕ)
    (profiled : ProfiledTask) : Prop where
  amount : profiled.tasksAmount.toNat =
    profiled.task.maxSubTasks.toNat * scheduler.clustersNum.toNat
  size : profiled.view.2 = profiled.task.maxSubTasks.toNat * scheduler.clustersNum.toNat *
    scheduler.profilingElementSize.toNat
  offset : profiled.view.1 =
    profiled.counters.inClusterOffset * scheduler.profilingElementSize.toNat
  bufferId : profiled.counters.bufferId = buffer.bufferId
  bufferSize : profiled.counters.bufferSize = buffer.size
  ddrOffset : profiled.counters.ddrOffset = ddrOffset

def CopyToDDR.tasks (copy : CopyToDDR) : List TaskSignature := copy.outputs.map ProfiledTask.task

structure Filled (maxBufferSize : Unsigned) (scheduler : BufferScheduler) (buffer : ProfilingBuffer)
    (copy : CopyToDDR) : Prop where
  source : copy.buffer = buffer
  size : buffer.size.toNat = subTasks copy.tasks
  elements : buffer.totalSizeCMXElements.toNat =
    subTasks copy.tasks * scheduler.profilingElementSize.toNat * scheduler.clustersNum.toNat
  limit : subTasks copy.tasks * scheduler.profilingWorkloadSize.toNat ≤ maxBufferSize.toNat
  slots : Tiles 0 (copy.outputs.map (ProfiledTask.slot scheduler.clustersNum))
    (buffer.size.toNat * scheduler.profilingElementSize.toNat)
  placed : ∃ ddrOffset : ℕ,
    (∀ profiled ∈ copy.outputs, Placed scheduler buffer ddrOffset profiled) ∧
    copy.range = ((ddrOffset : ℤ) * scheduler.profilingElementSize.toNat,
      (buffer.totalSizeCMXElements.toNat : ℤ))

structure Agrees (maxBufferSize : Unsigned) (scheduler : BufferScheduler) (start : ℕ)
    (result : Placement) : Prop where
  reserved : result.buffers.map ProfilingBuffer.size = scheduler.profilingBufferSizes
  spent : result.profilingBufferSizes = []
  enough : result.ranOut = false
  filled : List.Forall₂ (Filled maxBufferSize scheduler) result.buffers result.copies
  placed : result.copies.flatMap CopyToDDR.tasks = scheduler.taskSignatures
  flushed : result.profilingOutputs = []
  written : Tiles (start * scheduler.profilingElementSize.toNat) (result.copies.map CopyToDDR.range)
    (start * scheduler.profilingElementSize.toNat + (getRequiredDdrMemory scheduler).toNat)

/-- The unsigned numbers are large enough: for the slots of two buffers, for the memory of the tasks
and for their offsets in DDR. -/
structure NoOverflow (maxBufferSize clustersNum profilingElementSize : Unsigned)
    (tasks : List TaskSignature) (start : ℕ) : Prop where
  buffers : 2 * (maxBufferSize.toNat * clustersNum.toNat) < 2 ^ 32
  memory : subTasks tasks * clustersNum.toNat * profilingElementSize.toNat < 2 ^ 32
  offsets : start + subTasks tasks * clustersNum.toNat < 2 ^ 32

/-- What the classes have in common. -/
structure Lawful (profiler : ProfilerClass) (scheduler : BufferScheduler) : Prop where
  clusters : 0 < scheduler.clustersNum.toNat
  element : 0 < scheduler.profilingElementSize.toNat
  element_le : scheduler.profilingElementSize.toNat ≤ scheduler.profilingWorkloadSize.toNat
  bits : 32 ≤ profiler.offsetBits
  viewOffset : ∀ (k : ℕ) (samples : Unsigned), samples.toNat = k * scheduler.clustersNum.toNat →
    k * scheduler.profilingWorkloadSize.toNat ≤ profiler.maxBufferSize.toNat →
    profiler.viewOffset scheduler.profilingElementSize scheduler.clustersNum samples =
      k * scheduler.profilingElementSize.toNat
  copyToDDR : ∀ (offset : ℕ) (amounts : List Unsigned), offset < 2 ^ 32 →
    (amounts.map BitVec.toNat).sum * scheduler.profilingElementSize.toNat < 2 ^ 32 →
    profiler.copyToDDR scheduler.profilingElementSize offset amounts =
      ((offset : ℤ) * scheduler.profilingElementSize.toNat,
        ((amounts.map BitVec.toNat).sum : ℤ) * scheduler.profilingElementSize.toNat)

section Memory

variable {maxBufferSize : Unsigned} {scheduler : BufferScheduler} {start : ℕ}

theorem toNat_getRequiredDdrMemory
    (h : NoOverflow maxBufferSize scheduler.clustersNum scheduler.profilingElementSize
      scheduler.taskSignatures start) (hclusters : 0 < scheduler.clustersNum.toNat) :
    (getRequiredDdrMemory scheduler).toNat = subTasks scheduler.taskSignatures *
      scheduler.clustersNum.toNat * scheduler.profilingElementSize.toNat := by
  have hproduct : subTasks scheduler.taskSignatures * scheduler.clustersNum.toNat < 2 ^ 32 := by
    have := h.offsets
    omega
  have hsum : subTasks scheduler.taskSignatures < 2 ^ 32 :=
    (Nat.le_mul_of_pos_right _ hclusters).trans_lt hproduct
  have htasks : ((scheduler.taskSignatures.map TaskSignature.maxSubTasks).sum).toNat =
      subTasks scheduler.taskSignatures := by
    rw [toNat_sum, List.map_map]
    exact Nat.mod_eq_of_lt hsum
  rw [getRequiredDdrMemory, BitVec.toNat_mul, BitVec.toNat_mul, htasks, Nat.mod_eq_of_lt hproduct,
    Nat.mod_eq_of_lt h.memory]

end Memory

section Placing

/-- The state when the tasks `cur` are in the current buffer and `rest` are still to come. -/
structure Filling (profiler : ProfilerClass) (scheduler : BufferScheduler) (start : ℕ)
    (cur rest first : List TaskSignature) (groups : List (List TaskSignature))
    (init : List ProfilingBuffer) (buffer : ProfilingBuffer) (state : Placement) : Prop where
  packed : pack (fitsBuffer profiler.maxBufferSize scheduler.profilingWorkloadSize) cur rest =
    first :: groups
  limit : subTasks cur * scheduler.profilingWorkloadSize.toNat ≤ profiler.maxBufferSize.toNat
  planned : init.map ProfilingBuffer.size ++ (first :: groups).map bufferSizeOf =
    scheduler.profilingBufferSizes
  buffers : state.buffers = init ++ [buffer]
  reserved : state.profilingBufferSizes = groups.map bufferSizeOf
  size : buffer.size = bufferSizeOf first
  elements : buffer.totalSizeCMXElements =
    bufferSizeOf first * scheduler.profilingElementSize * scheduler.clustersNum
  enough : state.ranOut = false
  tasks : state.profilingOutputs.map ProfiledTask.task = cur
  slots : Consecutive 0 (state.profilingOutputs.map (ProfiledTask.slot scheduler.clustersNum))
    (subTasks cur * scheduler.profilingElementSize.toNat)
  placed : ∀ profiled ∈ state.profilingOutputs,
    Placed scheduler buffer state.currentDDROffset profiled
  inCluster : state.inClusterOffset = subTasks cur
  filled : List.Forall₂ (Filled profiler.maxBufferSize scheduler) init state.copies
  ordered : state.copies.flatMap CopyToDDR.tasks ++ cur ++ rest = scheduler.taskSignatures
  offset : state.currentDDROffset =
    start + subTasks (state.copies.flatMap CopyToDDR.tasks) * scheduler.clustersNum.toNat
  written : Consecutive (start * scheduler.profilingElementSize.toNat)
    (state.copies.map CopyToDDR.range)
    (state.currentDDROffset * scheduler.profilingElementSize.toNat)

/-- The state when all buffers are copied and the tasks `rest` are still to come. -/
structure Between (profiler : ProfilerClass) (scheduler : BufferScheduler) (start : ℕ)
    (rest : List TaskSignature) (groups : List (List TaskSignature)) (state : Placement) :
    Prop where
  planned : state.buffers.map ProfilingBuffer.size ++ groups.map bufferSizeOf =
    scheduler.profilingBufferSizes
  reserved : state.profilingBufferSizes = groups.map bufferSizeOf
  enough : state.ranOut = false
  flushed : state.profilingOutputs = []
  filled : List.Forall₂ (Filled profiler.maxBufferSize scheduler) state.buffers state.copies
  ordered : state.copies.flatMap CopyToDDR.tasks ++ rest = scheduler.taskSignatures
  offset : state.currentDDROffset =
    start + subTasks (state.copies.flatMap CopyToDDR.tasks) * scheduler.clustersNum.toNat
  written : Consecutive (start * scheduler.profilingElementSize.toNat)
    (state.copies.map CopyToDDR.range)
    (state.currentDDROffset * scheduler.profilingElementSize.toNat)

theorem toNat_countTasks {amounts : List Unsigned}
    (h : (amounts.map BitVec.toNat).sum < 2 ^ 32) :
    (countTasks amounts).toNat = (amounts.map BitVec.toNat).sum := by
  rw [countTasks, toNat_sum, Nat.mod_eq_of_lt h]

variable {profiler : ProfilerClass} {scheduler : BufferScheduler} {start : ℕ}
  {cur rest first : List TaskSignature} {groups : List (List TaskSignature)}
  {init : List ProfilingBuffer} {buffer : ProfilingBuffer} {state : Placement}

open ProfiledTask

theorem sum_amounts {outputs : List ProfiledTask} {ddrOffset : ℕ}
    (h : ∀ profiled ∈ outputs, Placed scheduler buffer ddrOffset profiled) :
    ((outputs.map tasksAmount).map BitVec.toNat).sum =
      subTasks (outputs.map task) * scheduler.clustersNum.toNat := by
  induction outputs with
  | nil => simp
  | cons profiled outputs ih =>
    obtain ⟨hfirst, hrest⟩ := List.forall_mem_cons.mp h
    simp only [List.map_cons, List.sum_cons, subTasks_cons]
    rw [ih hrest, hfirst.amount, Nat.add_mul]

theorem Placed.slot_eq {profiled : ProfiledTask} {ddrOffset : ℕ}
    (h : Placed scheduler buffer ddrOffset profiled) (hclusters : 0 < scheduler.clustersNum.toNat) :
    profiled.slot scheduler.clustersNum = (profiled.view.1,
      (profiled.task.maxSubTasks.toNat : ℤ) * scheduler.profilingElementSize.toNat) := by
  have hne : (scheduler.clustersNum.toNat : ℤ) ≠ 0 := by omega
  rw [slot, h.size, mul_right_comm, Int.mul_ediv_cancel _ hne]

variable (hlawful : Lawful profiler scheduler)
  (hno : NoOverflow profiler.maxBufferSize scheduler.clustersNum scheduler.profilingElementSize
    scheduler.taskSignatures start)
include hlawful hno

theorem bounds_of_ordered {flushed : List TaskSignature}
    (hordered : flushed ++ cur ++ rest = scheduler.taskSignatures) :
    subTasks cur < 2 ^ 32 ∧
    subTasks cur * scheduler.clustersNum.toNat < 2 ^ 32 ∧
    subTasks cur * scheduler.profilingElementSize.toNat < 2 ^ 32 ∧
    subTasks cur * scheduler.clustersNum.toNat * scheduler.profilingElementSize.toNat < 2 ^ 32 ∧
    start + subTasks flushed * scheduler.clustersNum.toNat +
      subTasks cur * scheduler.clustersNum.toNat < 2 ^ 32 := by
  have htotal : subTasks flushed + subTasks cur ≤ subTasks scheduler.taskSignatures := by
    rw [← hordered, subTasks_append, subTasks_append]
    omega
  have hoffsets := hno.offsets
  have hflushed := Nat.mul_le_mul_right scheduler.clustersNum.toNat htotal
  rw [Nat.add_mul] at hflushed
  have hmemory : subTasks cur * scheduler.clustersNum.toNat * scheduler.profilingElementSize.toNat <
      2 ^ 32 := by
    refine lt_of_le_of_lt (Nat.mul_le_mul_right _ ?_) hno.memory
    omega
  have hcur := Nat.le_mul_of_pos_right (subTasks cur) hlawful.clusters
  refine ⟨by omega, by omega, ?_, hmemory, by omega⟩
  exact lt_of_le_of_lt (Nat.mul_le_mul_right _ hcur) hmemory

section

variable (h : Filling profiler scheduler start cur rest cur groups init buffer state)
  (hcur : cur ≠ [])
include h hcur

theorem Filling.flushed_eq :
    flushCMX2DDR profiler scheduler state = { state with
      copies := state.copies ++ [⟨buffer, state.profilingOutputs,
        ((state.currentDDROffset : ℤ) * scheduler.profilingElementSize.toNat,
          (buffer.totalSizeCMXElements.toNat : ℤ))⟩]
      profilingOutputs := []
      currentDDROffset :=
        state.currentDDROffset + subTasks cur * scheduler.clustersNum.toNat } ∧
    buffer.totalSizeCMXElements.toNat =
      subTasks cur * scheduler.profilingElementSize.toNat * scheduler.clustersNum.toNat := by
  obtain ⟨hsum, hamount, helement, hmemory, hoffset⟩ := bounds_of_ordered hlawful hno h.ordered
  have hamounts := sum_amounts h.placed
  rw [h.tasks] at hamounts
  have hcount : (countTasks (state.profilingOutputs.map tasksAmount)).toNat =
      subTasks cur * scheduler.clustersNum.toNat := by
    rw [toNat_countTasks (hamounts ▸ hamount), hamounts]
  have hbits : 2 ^ 32 ≤ 2 ^ profiler.offsetBits := Nat.pow_le_pow_right (by omega) hlawful.bits
  rw [← h.offset] at hoffset
  have hmod : (state.currentDDROffset + subTasks cur * scheduler.clustersNum.toNat) %
      2 ^ profiler.offsetBits =
      state.currentDDROffset + subTasks cur * scheduler.clustersNum.toNat :=
    Nat.mod_eq_of_lt (by omega)
  have hproduct : subTasks cur * scheduler.profilingElementSize.toNat *
      scheduler.clustersNum.toNat < 2 ^ 32 := by
    rwa [Nat.mul_right_comm]
  have helements : buffer.totalSizeCMXElements.toNat =
      subTasks cur * scheduler.profilingElementSize.toNat * scheduler.clustersNum.toNat := by
    have hsize := toNat_bufferSizeOf hsum
    have hinner : (bufferSizeOf cur * scheduler.profilingElementSize).toNat =
        subTasks cur * scheduler.profilingElementSize.toNat := by
      rw [BitVec.toNat_mul_of_lt (hsize ▸ helement), hsize]
    rw [h.elements, BitVec.toNat_mul_of_lt (hinner ▸ hproduct), hinner]
  refine ⟨?_, helements⟩
  have hrange := hlawful.copyToDDR state.currentDDROffset
    (state.profilingOutputs.map tasksAmount) (by omega) (hamounts ▸ hmemory)
  have hlast : state.buffers.getLast? = some buffer := by
    rw [h.buffers, List.getLast?_concat]
  cases houtputs : state.profilingOutputs with
  | nil =>
    have htasks := h.tasks
    rw [houtputs] at htasks
    exact absurd htasks.symm hcur
  | cons profiled outputs =>
    unfold flushCMX2DDR
    simp only [houtputs, hlast]
    rw [← houtputs, hcount, hmod, hrange, hamounts, helements]
    push_cast
    rw [mul_right_comm]

theorem Filling.flush :
    Between profiler scheduler start rest groups (flushCMX2DDR profiler scheduler state) := by
  obtain ⟨hflush, helements⟩ := h.flushed_eq hlawful hno hcur
  obtain ⟨hsum, -, -, -, -⟩ := bounds_of_ordered hlawful hno h.ordered
  have hsize : buffer.size.toNat = subTasks cur := by
    rw [h.size, toNat_bufferSizeOf hsum]
  rw [hflush]
  constructor
  · rw [← h.planned, h.buffers, List.map_append, List.append_assoc, List.map_cons, h.size]
    rfl
  · exact h.reserved
  · exact h.enough
  · rfl
  · refine h.buffers ▸ List.rel_append h.filled (.cons ?_ .nil)
    have hslots : ∀ r ∈ state.profilingOutputs.map (slot scheduler.clustersNum),
        0 ≤ r.2 := by
      intro r hr
      obtain ⟨profiled, hmem, rfl⟩ := List.mem_map.mp hr
      rw [(h.placed profiled hmem).slot_eq hlawful.clusters]
      exact mul_nonneg (Int.natCast_nonneg _) (Int.natCast_nonneg _)
    constructor
    · rfl
    · exact hsize.trans (congrArg subTasks h.tasks.symm)
    · rw [CopyToDDR.tasks, h.tasks, helements]
    · rw [CopyToDDR.tasks, h.tasks]
      exact h.limit
    · rw [hsize]
      exact h.slots.tiles hslots
    · exact ⟨state.currentDDROffset, h.placed, rfl⟩
  · rw [← h.ordered, List.flatMap_append, List.flatMap_singleton, CopyToDDR.tasks, h.tasks]
  · rw [List.flatMap_append, List.flatMap_singleton, CopyToDDR.tasks, h.tasks, subTasks_append,
      Nat.add_mul, ← Nat.add_assoc, ← h.offset]
  · rw [List.map_append, List.map_singleton]
    have hend : ((state.currentDDROffset + subTasks cur * scheduler.clustersNum.toNat : ℕ) : ℤ) *
        scheduler.profilingElementSize.toNat =
        state.currentDDROffset * scheduler.profilingElementSize.toNat +
          (buffer.totalSizeCMXElements.toNat : ℤ) := by
      rw [helements]
      push_cast
      rw [add_mul, mul_right_comm]
    exact hend ▸ h.written.snoc

end

variable {task : TaskSignature}

theorem Filling.place (h : Filling profiler scheduler start cur
      (task :: rest) first groups init buffer state)
    (hfits : fitsBuffer profiler.maxBufferSize scheduler.profilingWorkloadSize (cur ++ [task]) =
      true) {samples : Unsigned}
    (hsamples : samples.toNat = subTasks cur * scheduler.clustersNum.toNat) :
    ∃ state', placeTask profiler scheduler state samples task = .ok state' ∧
      Filling profiler scheduler start (cur ++ [task]) rest first groups init buffer state' := by
  have hlast : state.buffers.getLast? = some buffer := by
    rw [h.buffers, List.getLast?_concat]
  have hview := hlawful.viewOffset (subTasks cur) samples hsamples h.limit
  have hordered : state.copies.flatMap CopyToDDR.tasks ++ (cur ++ [task]) ++ rest =
      scheduler.taskSignatures := by
    simpa using h.ordered
  obtain ⟨hsum, hamount, helement, hmemory, hoffset⟩ := bounds_of_ordered hlawful hno hordered
  rw [subTasks_append, subTasks_cons, subTasks_nil, Nat.add_zero] at hsum hamount
  have htask : (task.maxSubTasks * scheduler.clustersNum).toNat =
      task.maxSubTasks.toNat * scheduler.clustersNum.toNat := by
    rw [Nat.add_mul] at hamount
    exact BitVec.toNat_mul_of_lt (by omega)
  unfold placeTask
  simp only [hlast, hview]
  refine ⟨_, rfl, ?_⟩
  have hplaced : Placed scheduler buffer state.currentDDROffset
      ⟨task, ((subTasks cur : ℤ) * scheduler.profilingElementSize.toNat,
        ((task.maxSubTasks * scheduler.clustersNum).toNat : ℤ) *
          scheduler.profilingElementSize.toNat),
        task.maxSubTasks * scheduler.clustersNum,
        ⟨buffer.bufferId, state.tasksCounter + 1, state.currentDDROffset, buffer.size,
          state.inClusterOffset⟩⟩ := by
    refine ⟨htask, ?_, ?_, rfl, rfl, rfl⟩
    · rw [htask]
      rfl
    · rw [h.inCluster]
  constructor
  · rw [← h.packed, pack, if_pos hfits]
  · exact of_decide_eq_true hfits
  · exact h.planned
  · exact h.buffers
  · exact h.reserved
  · exact h.size
  · exact h.elements
  · exact h.enough
  · rw [List.map_append, h.tasks]
    rfl
  · rw [List.map_append, List.map_singleton, hplaced.slot_eq hlawful.clusters, subTasks_append,
      subTasks_cons, subTasks_nil, Nat.add_zero]
    push_cast
    rw [add_mul]
    exact h.slots.snoc
  · intro profiled hmem
    rcases List.mem_append.mp hmem with hmem | hmem
    · exact h.placed profiled hmem
    · rw [List.mem_singleton.mp hmem]
      exact hplaced
  · rw [h.inCluster, subTasks_append, subTasks_cons, subTasks_nil, Nat.add_zero]
    exact Nat.mod_eq_of_lt (by omega)
  · exact h.filled
  · exact hordered
  · exact h.offset
  · exact h.written

/-- The tasks alone fit a buffer. -/
def Fit (maxBufferSize : Unsigned) (profilingWorkloadSize : Unsigned)
    (tasks : List TaskSignature) : Prop :=
  ∀ task ∈ tasks, 1 ≤ task.maxSubTasks.toNat ∧
    task.maxSubTasks.toNat * profilingWorkloadSize.toNat ≤ maxBufferSize.toNat

instance (maxBufferSize profilingWorkloadSize : Unsigned) (tasks : List TaskSignature) :
    Decidable (Fit maxBufferSize profilingWorkloadSize tasks) :=
  inferInstanceAs (Decidable (∀ task ∈ tasks, _))

omit hlawful hno in
theorem Fit.pack_cons {maxBufferSize profilingWorkloadSize : Unsigned} {tasks : List TaskSignature}
    (h : Fit maxBufferSize profilingWorkloadSize tasks) (hmem : task ∈ tasks)
    (rest : List TaskSignature) :
    fitsBuffer maxBufferSize profilingWorkloadSize ([] ++ [task]) = true ∧
      pack (fitsBuffer maxBufferSize profilingWorkloadSize) [] (task :: rest) =
        pack (fitsBuffer maxBufferSize profilingWorkloadSize) [task] rest := by
  have hsingle : fitsBuffer maxBufferSize profilingWorkloadSize ([] ++ [task]) = true := by
    simpa [fitsBuffer] using (h task hmem).2
  refine ⟨hsingle, ?_⟩
  rw [pack, if_pos hsingle]
  rfl

variable (hfit : Fit profiler.maxBufferSize scheduler.profilingWorkloadSize
  scheduler.taskSignatures)
include hfit

theorem Between.allocate (h : Between profiler scheduler start rest
      (pack (fitsBuffer profiler.maxBufferSize scheduler.profilingWorkloadSize) [] rest) state)
    (hrest : rest ≠ []) (hcluster : state.inClusterOffset = 0) :
    ∃ state' first groups init buffer, allocateProfilingBufferCMX scheduler state = .ok state' ∧
      Filling profiler scheduler start [] rest first groups init buffer state' := by
  obtain ⟨task, rest, rfl⟩ := List.exists_cons_of_ne_nil hrest
  have hmem : task ∈ scheduler.taskSignatures := by
    rw [← h.ordered]
    simp
  obtain ⟨-, hpack⟩ := hfit.pack_cons hmem rest
  obtain ⟨first, groups, hgroups⟩ := List.exists_cons_of_ne_nil
    (pack_ne_nil (fitsBuffer profiler.maxBufferSize scheduler.profilingWorkloadSize) [task] rest)
  rw [hpack, hgroups] at h
  -- the first task of the buffer is in it
  have hflat : first ++ groups.flatten = task :: rest := by
    rw [← List.flatten_cons, ← hgroups, flatten_pack, List.singleton_append]
  have hordered : state.copies.flatMap CopyToDDR.tasks ++ first ++ groups.flatten =
      scheduler.taskSignatures := by
    rw [List.append_assoc, hflat, h.ordered]
  obtain ⟨hsum, -, -, -, -⟩ := bounds_of_ordered hlawful hno hordered
  have hne : first ≠ [] :=
    ne_nil_of_mem_pack _ (List.cons_ne_nil task []) (hgroups ▸ List.mem_cons_self)
  have hpos : 0 < subTasks first := by
    obtain ⟨task', tasks, rfl⟩ := List.exists_cons_of_ne_nil hne
    have hin : task' ∈ scheduler.taskSignatures := by
      rw [← hordered]
      simp
    have := (hfit task' hin).1
    rw [subTasks_cons]
    omega
  have hsize : bufferSizeOf first ≠ 0 := by
    intro hzero
    have := toNat_bufferSizeOf hsum
    rw [hzero] at this
    exact hpos.ne this
  have hreserved := h.reserved
  rw [List.map_cons] at hreserved
  have hallocate : allocateProfilingBufferCMX scheduler state = .ok { state with
      profilingBufferSizes := groups.map bufferSizeOf
      nextBufferId := state.nextBufferId + 1
      buffers := state.buffers ++ [⟨state.nextBufferId, bufferSizeOf first,
        bufferSizeOf first * scheduler.profilingElementSize * scheduler.clustersNum⟩] } := by
    unfold allocateProfilingBufferCMX
    simp only [hreserved, if_neg hsize]
  refine ⟨_, first, groups, state.buffers, ⟨state.nextBufferId, bufferSizeOf first,
    bufferSizeOf first * scheduler.profilingElementSize * scheduler.clustersNum⟩, hallocate, ?_⟩
  constructor
  · rw [hpack, hgroups]
  · simp
  · exact h.planned
  · rfl
  · rfl
  · rfl
  · rfl
  · exact h.enough
  · simp [h.flushed]
  · simp [h.flushed, Consecutive]
  · simp [h.flushed]
  · simpa using hcluster
  · exact h.filled
  · simpa using h.ordered
  · exact h.offset
  · exact h.written

section

variable (h : Filling profiler scheduler start cur (task :: rest) first groups init buffer state)
include h

/-- The loop asks for the next buffer where the plan begins a new one. -/
theorem Filling.expected_gt_iff :
    let samples := countTasks (state.profilingOutputs.map tasksAmount)
    samples.toNat = subTasks cur * scheduler.clustersNum.toNat ∧
    ((samples + task.maxSubTasks * scheduler.clustersNum) * scheduler.profilingWorkloadSize >
        profiler.maxBufferSize * scheduler.clustersNum ↔
      fitsBuffer profiler.maxBufferSize scheduler.profilingWorkloadSize (cur ++ [task]) =
        false) := by
  have hordered : state.copies.flatMap CopyToDDR.tasks ++ (cur ++ [task]) ++ rest =
      scheduler.taskSignatures := by
    simpa using h.ordered
  obtain ⟨-, hamount, -, -, -⟩ := bounds_of_ordered hlawful hno hordered
  rw [subTasks_append, subTasks_cons, subTasks_nil, Nat.add_zero, Nat.add_mul] at hamount
  have hsum := sum_amounts h.placed
  rw [h.tasks] at hsum
  have hsamples : (countTasks (state.profilingOutputs.map tasksAmount)).toNat =
      subTasks cur * scheduler.clustersNum.toNat := by
    rw [toNat_countTasks (by omega), hsum]
  have htask : (task.maxSubTasks * scheduler.clustersNum).toNat =
      task.maxSubTasks.toNat * scheduler.clustersNum.toNat :=
    BitVec.toNat_mul_of_lt (by omega)
  have hmem : task ∈ scheduler.taskSignatures := by
    rw [← hordered]
    simp
  have hcur := Nat.mul_le_mul_right scheduler.clustersNum.toNat h.limit
  have halone := Nat.mul_le_mul_right scheduler.clustersNum.toNat (hfit task hmem).2
  have hbuffers := hno.buffers
  have hadd : (countTasks (state.profilingOutputs.map tasksAmount) +
      task.maxSubTasks * scheduler.clustersNum).toNat =
      (subTasks cur + task.maxSubTasks.toNat) * scheduler.clustersNum.toNat := by
    rw [BitVec.toNat_add_of_lt (by omega), hsamples, htask, Nat.add_mul]
  have hproduct : (subTasks cur + task.maxSubTasks.toNat) * scheduler.clustersNum.toNat *
      scheduler.profilingWorkloadSize.toNat =
      (subTasks cur + task.maxSubTasks.toNat) * scheduler.profilingWorkloadSize.toNat *
        scheduler.clustersNum.toNat := Nat.mul_right_comm _ _ _
  have hsmall : (subTasks cur + task.maxSubTasks.toNat) * scheduler.clustersNum.toNat *
      scheduler.profilingWorkloadSize.toNat < 2 ^ 32 := by
    rw [hproduct, Nat.add_mul, Nat.add_mul]
    omega
  refine ⟨hsamples, ?_⟩
  rw [gt_iff_lt, BitVec.lt_def, BitVec.toNat_mul_of_lt (by omega),
    BitVec.toNat_mul_of_lt (hadd ▸ hsmall), hadd, hproduct,
    Nat.mul_lt_mul_right hlawful.clusters, fitsBuffer, decide_eq_false_iff_not, not_le,
    subTasks_append, subTasks_cons, subTasks_nil, Nat.add_zero]

theorem Filling.addTask :
    ∃ state' cur' first' groups' init' buffer',
      addTask profiler scheduler state task = .ok state' ∧ cur' ≠ [] ∧
        Filling profiler scheduler start cur' rest first' groups' init' buffer' state' := by
  obtain ⟨hsamples, hover⟩ := h.expected_gt_iff hlawful hno hfit
  unfold Profiling.addTask
  cases hfits : fitsBuffer profiler.maxBufferSize scheduler.profilingWorkloadSize
      (cur ++ [task]) with
  | true =>
    have hnot := hover.not.mpr (by simp [hfits])
    obtain ⟨state', hplace, hfilling⟩ := h.place hlawful hno hfits hsamples
    refine ⟨state', cur ++ [task], first, groups, init, buffer, ?_, by simp, hfilling⟩
    simp only [if_neg hnot, hplace]
  | false =>
    have hmem : task ∈ scheduler.taskSignatures := by
      rw [← h.ordered]
      simp
    obtain ⟨hsingle, hnext⟩ := hfit.pack_cons hmem rest
    have hcur : cur ≠ [] := by
      rintro rfl
      rw [hsingle] at hfits
      cases hfits
    -- the current buffer is full in the plan too
    have hpacked := h.packed
    rw [pack, hfits, if_neg (by simp)] at hpacked
    cases hpacked
    have hbetween := h.flush hlawful hno hcur
    rw [← hnext] at hbetween
    have hready : Between profiler scheduler start (task :: rest) _
        { flushCMX2DDR profiler scheduler state with inClusterOffset := 0 } :=
      ⟨hbetween.planned, hbetween.reserved, hbetween.enough, hbetween.flushed, hbetween.filled,
        hbetween.ordered, hbetween.offset, hbetween.written⟩
    obtain ⟨state₁, first', groups', init', buffer', hallocate, hfilling⟩ :=
      hready.allocate hlawful hno hfit (List.cons_ne_nil _ _) rfl
    have hzero : (0 : Unsigned).toNat = subTasks [] * scheduler.clustersNum.toNat := by simp
    obtain ⟨state', hplace, hfilling'⟩ := hfilling.place hlawful hno hsingle hzero
    refine ⟨state', [] ++ [task], first', groups', init', buffer', ?_, by simp, hfilling'⟩
    simp only [if_pos (hover.mpr hfits), hallocate]
    exact hplace

end

theorem Filling.addTasks (h : Filling profiler scheduler start cur rest first groups init buffer
      state) (hnonempty : cur ≠ [] ∨ rest ≠ []) :
    ∃ state' cur' first' groups' init' buffer',
      rest.foldlM (Profiling.addTask profiler scheduler) state = .ok state' ∧ cur' ≠ [] ∧
        Filling profiler scheduler start cur' [] first' groups' init' buffer' state' := by
  induction rest generalizing cur first groups init buffer state with
  | nil => exact ⟨state, cur, first, groups, init, buffer, rfl, by simpa using hnonempty, h⟩
  | cons task rest ih =>
    obtain ⟨state₁, cur₁, first₁, groups₁, init₁, buffer₁, hadd, hcur, hfilling⟩ :=
      h.addTask hlawful hno hfit
    obtain ⟨state', cur', first', groups', init', buffer', hrest, hcur', hfilling'⟩ :=
      ih hfilling (Or.inl hcur)
    refine ⟨state', cur', first', groups', init', buffer', ?_, hcur', hfilling'⟩
    rw [List.foldlM_cons, hadd]
    exact hrest

theorem placeTasks_agrees (htasks : scheduler.taskSignatures ≠ [])
    (hplanned : scheduler.profilingBufferSizes =
      reserved profiler.maxBufferSize scheduler.profilingWorkloadSize scheduler.taskSignatures)
    (hmax : 2 * profiler.maxBufferSize.toNat < 2 ^ 32) (nextBufferId : Unsigned) :
    ∃ result, placeTasks profiler scheduler (startPlacement scheduler start nextBufferId) =
      .ok result ∧ Agrees profiler.maxBufferSize scheduler start result := by
  have hpos : 0 < scheduler.profilingWorkloadSize.toNat :=
    hlawful.element.trans_le hlawful.element_le
  rw [reserved_eq hpos hmax fun task hmem => (hfit task hmem).2] at hplanned
  have hstart : Between profiler scheduler start scheduler.taskSignatures _
      (startPlacement scheduler start nextBufferId) :=
    ⟨hplanned.symm, hplanned, rfl, rfl, .nil, rfl, by simp [startPlacement], rfl⟩
  obtain ⟨state₁, first₁, groups₁, init₁, buffer₁, hallocate, hfilling₁⟩ :=
    hstart.allocate hlawful hno hfit htasks rfl
  obtain ⟨state₂, cur, first, groups, init, buffer, hadd, hcur, hfilling⟩ :=
    hfilling₁.addTasks hlawful hno hfit (Or.inr htasks)
  have hpacked := hfilling.packed
  cases hpacked
  have hend := hfilling.flush hlawful hno hcur
  refine ⟨flushCMX2DDR profiler scheduler state₂, ?_, ?_⟩
  · simp only [placeTasks, hallocate, bind, Except.bind, hadd, pure, Except.pure]
  · have hordered := hend.ordered
    rw [List.append_nil] at hordered
    have hwritten := hend.written
    rw [hend.offset, hordered] at hwritten
    have hrequired := toNat_getRequiredDdrMemory hno hlawful.clusters
    have hstop : ((start + subTasks scheduler.taskSignatures * scheduler.clustersNum.toNat : ℕ) :
        ℤ) * scheduler.profilingElementSize.toNat =
        start * scheduler.profilingElementSize.toNat + (getRequiredDdrMemory scheduler).toNat := by
      rw [hrequired]
      push_cast
      rw [add_mul]
    rw [hstop] at hwritten
    constructor
    · simpa using hend.planned
    · exact hend.reserved
    · exact hend.enough
    · exact hend.filled
    · exact hordered
    · exact hend.flushed
    · refine hwritten.tiles fun r hr => ?_
      obtain ⟨copy, hcopy, rfl⟩ := List.mem_map.mp hr
      obtain ⟨buffer', -, hfilled⟩ := exists_rel_of_mem hend.filled.flip hcopy
      obtain ⟨ddrOffset, -, hrange⟩ := hfilled.placed
      rw [hrange]
      exact Int.natCast_nonneg _

end Placing

end Vpux.Profiling
