import Mathlib.Data.List.Infix
import Vpux.Data.Grouping

/-! The statistics of the layers, `getLayerInfo` of `plugin/profiling_parser.cpp`. Times are natural
numbers: nothing is said of sums that do not fit 64 bits. -/
namespace Vpux.Profiling
open Data

/-- The text up to the zero in an array of `n` characters. -/
structure CharArray (n : ℕ) where
  text : List Char
  fits : text.length < n
  deriving DecidableEq

/-- `std::string::copy` of at most all but the last character, and the zero after it. -/
def CharArray.copy {n : ℕ} (hn : 0 < n) (s : List Char) : CharArray n where
  text := s.take (n - 1)
  fits := by
    rw [List.length_take]
    omega

inductive ExecType
  | NONE | DPU | SW | DMA | UPA
  deriving DecidableEq, Repr

structure TaskInfo where
  name : CharArray 256
  layer_type : CharArray 50
  exec_type : ExecType
  start_time_ns : ℕ
  duration_ns : ℕ
  deriving DecidableEq

inductive LayerStatus
  | NOT_RUN | OPTIMIZED_OUT | EXECUTED
  deriving DecidableEq, Repr

structure LayerInfo where
  name : CharArray 256
  layer_type : CharArray 50
  status : LayerStatus
  start_time_ns : ℕ
  duration_ns : ℕ
  dpu_ns : ℕ
  sw_ns : ℕ
  dma_ns : ℕ
  deriving DecidableEq

/-- What is before the last separator, or everything. -/
def getLayerName (taskName : List Char) : List Char :=
  if '?' ∈ taskName then (taskName.reverse.dropWhile (· ≠ '?')).tail.reverse else taskName

def TaskInfo.isClusterLevel (task : TaskInfo) : Prop := "cluster_".toList <:+: task.name.text

instance (task : TaskInfo) : Decidable task.isClusterLevel :=
  inferInstanceAs (Decidable (_ <:+: _))

def TaskInfo.layerName (task : TaskInfo) : List Char := getLayerName task.name.text

namespace LayerInfo

/-- The layer of its first task, before the task is counted. -/
def create (task : TaskInfo) : LayerInfo where
  name := .copy (by decide) task.layerName
  layer_type := .copy (by decide) task.layer_type.text
  status := .EXECUTED
  start_time_ns := task.start_time_ns
  duration_ns := 0
  dpu_ns := 0
  sw_ns := 0
  dma_ns := 0

/-- The start moves back, with the end where it is. -/
def moveStart (layer : LayerInfo) (task : TaskInfo) : LayerInfo :=
  if task.start_time_ns < layer.start_time_ns then
    { layer with
      duration_ns := layer.duration_ns + (layer.start_time_ns - task.start_time_ns)
      start_time_ns := task.start_time_ns }
  else layer

def moveEnd (layer : LayerInfo) (task : TaskInfo) : LayerInfo :=
  let duration := task.start_time_ns + task.duration_ns - layer.start_time_ns
  if duration > layer.duration_ns then { layer with duration_ns := duration } else layer

def addDuration (layer : LayerInfo) (task : TaskInfo) : LayerInfo :=
  match task.exec_type with
  | .DPU => { layer with dpu_ns := layer.dpu_ns + task.duration_ns }
  | .SW | .UPA => { layer with sw_ns := layer.sw_ns + task.duration_ns }
  | .DMA => { layer with dma_ns := layer.dma_ns + task.duration_ns }
  | .NONE => layer

def addTask (layer : LayerInfo) (task : TaskInfo) : LayerInfo :=
  ((layer.moveStart task).moveEnd task).addDuration task

end LayerInfo

/-- A task is counted in the first layer with its name, or in a new one. -/
def getLayerInfo (taskInfo : List TaskInfo) : List LayerInfo :=
  taskInfo.foldl (fun layerInfo task =>
    if task.isClusterLevel then layerInfo
    else collect (fun layer : LayerInfo => layer.name.text) task.layerName
      ((LayerInfo.create task).addTask task) (·.addTask task) layerInfo) []

section Spec

/-- A layer covers its tasks: it starts with the first, ends with the last, and adds them up. -/
structure LayerInfo.Covers (layer : LayerInfo) (tasks : List TaskInfo) : Prop where
  first : tasks.head?.map (·.layer_type) = some layer.layer_type
  status : layer.status = .EXECUTED
  start_le : ∀ t ∈ tasks, layer.start_time_ns ≤ t.start_time_ns
  start_mem : ∃ t ∈ tasks, t.start_time_ns = layer.start_time_ns
  le_end : ∀ t ∈ tasks, t.start_time_ns + t.duration_ns ≤ layer.start_time_ns + layer.duration_ns
  end_mem : ∃ t ∈ tasks, t.start_time_ns + t.duration_ns = layer.start_time_ns + layer.duration_ns
  dpu : layer.dpu_ns = ((tasks.filter fun t => t.exec_type = .DPU).map (·.duration_ns)).sum
  sw : layer.sw_ns =
    ((tasks.filter fun t => t.exec_type = .SW ∨ t.exec_type = .UPA).map (·.duration_ns)).sum
  dma : layer.dma_ns = ((tasks.filter fun t => t.exec_type = .DMA).map (·.duration_ns)).sum

def layerTasks (taskInfo : List TaskInfo) : List TaskInfo :=
  taskInfo.filter fun task => ¬ task.isClusterLevel

variable {layer : LayerInfo} {tasks : List TaskInfo} {task : TaskInfo}

theorem getLayerName_length_le (taskName : List Char) :
    (getLayerName taskName).length ≤ taskName.length := by
  unfold getLayerName
  split
  · have hdrop := (List.dropWhile_sublist (l := taskName.reverse) (· ≠ '?')).length_le
    rw [List.length_reverse, List.length_tail]
    rw [List.length_reverse] at hdrop
    omega
  · exact le_rfl

theorem name_create (task : TaskInfo) : (LayerInfo.create task).name.text = task.layerName := by
  have hle := getLayerName_length_le task.name.text
  have hfits := task.name.fits
  apply List.take_of_length_le
  show (getLayerName task.name.text).length ≤ 255
  omega

theorem type_create (task : TaskInfo) : (LayerInfo.create task).layer_type = task.layer_type := by
  have hfits := task.layer_type.fits
  have htext : task.layer_type.text.take 49 = task.layer_type.text :=
    List.take_of_length_le (by omega)
  rcases htype : task.layer_type with ⟨text, hlt⟩
  rw [htype] at htext
  simp only [LayerInfo.create, CharArray.copy, htype]
  simpa using htext

theorem addDuration_times (layer : LayerInfo) (task : TaskInfo) :
    (layer.addDuration task).start_time_ns = layer.start_time_ns ∧
      (layer.addDuration task).duration_ns = layer.duration_ns := by
  unfold LayerInfo.addDuration
  cases task.exec_type <;> exact ⟨rfl, rfl⟩

theorem moveStart_times (layer : LayerInfo) (task : TaskInfo) :
    (layer.moveStart task).start_time_ns = min layer.start_time_ns task.start_time_ns ∧
      (layer.moveStart task).start_time_ns + (layer.moveStart task).duration_ns =
        layer.start_time_ns + layer.duration_ns := by
  unfold LayerInfo.moveStart
  by_cases h : task.start_time_ns < layer.start_time_ns
  · rw [if_pos h]
    dsimp only
    omega
  · rw [if_neg h]
    omega

theorem moveEnd_times (layer : LayerInfo) (task : TaskInfo)
    (hle : layer.start_time_ns ≤ task.start_time_ns) :
    (layer.moveEnd task).start_time_ns = layer.start_time_ns ∧
      (layer.moveEnd task).start_time_ns + (layer.moveEnd task).duration_ns =
        max (layer.start_time_ns + layer.duration_ns) (task.start_time_ns + task.duration_ns) := by
  unfold LayerInfo.moveEnd
  by_cases h : task.start_time_ns + task.duration_ns - layer.start_time_ns > layer.duration_ns
  · rw [if_pos h]
    dsimp only
    omega
  · rw [if_neg h]
    omega

theorem addTask_times (layer : LayerInfo) (task : TaskInfo) :
    (layer.addTask task).start_time_ns = min layer.start_time_ns task.start_time_ns ∧
      (layer.addTask task).start_time_ns + (layer.addTask task).duration_ns =
        max (layer.start_time_ns + layer.duration_ns) (task.start_time_ns + task.duration_ns) := by
  obtain ⟨hstart, hduration⟩ := addDuration_times ((layer.moveStart task).moveEnd task) task
  obtain ⟨hmoved, hsame⟩ := moveStart_times layer task
  obtain ⟨hkept, hend⟩ := moveEnd_times (layer.moveStart task) task (by omega)
  unfold LayerInfo.addTask
  omega

theorem moved_eq (layer : LayerInfo) (task : TaskInfo) : ∃ start duration,
    (layer.moveStart task).moveEnd task =
      { layer with start_time_ns := start, duration_ns := duration } := by
  have hstart : ∃ start duration, layer.moveStart task =
      { layer with start_time_ns := start, duration_ns := duration } := by
    unfold LayerInfo.moveStart
    split
    · exact ⟨_, _, rfl⟩
    · exact ⟨_, _, rfl⟩
  obtain ⟨start, duration, hmoved⟩ := hstart
  rw [hmoved, LayerInfo.moveEnd]
  split
  · exact ⟨_, _, rfl⟩
  · exact ⟨_, _, rfl⟩

theorem addTask_rest (layer : LayerInfo) (task : TaskInfo) :
    (layer.addTask task).name = layer.name ∧
      (layer.addTask task).layer_type = layer.layer_type ∧
      (layer.addTask task).status = layer.status ∧
      (layer.addTask task).dpu_ns =
        layer.dpu_ns + (if task.exec_type = .DPU then task.duration_ns else 0) ∧
      (layer.addTask task).sw_ns = layer.sw_ns +
        (if task.exec_type = .SW ∨ task.exec_type = .UPA then task.duration_ns else 0) ∧
      (layer.addTask task).dma_ns =
        layer.dma_ns + (if task.exec_type = .DMA then task.duration_ns else 0) := by
  obtain ⟨start, duration, hmoved⟩ := moved_eq layer task
  rw [LayerInfo.addTask, hmoved, LayerInfo.addDuration]
  cases task.exec_type <;> simp

theorem sum_filter_append (p : TaskInfo → Prop) [DecidablePred p] (tasks : List TaskInfo)
    (task : TaskInfo) : (((tasks ++ [task]).filter fun t => p t).map (·.duration_ns)).sum =
      ((tasks.filter fun t => p t).map (·.duration_ns)).sum +
        (if p task then task.duration_ns else 0) := by
  by_cases h : p task <;> simp [h]

theorem covers_create (task : TaskInfo) :
    ((LayerInfo.create task).addTask task).Covers [task] := by
  obtain ⟨hstart, hend⟩ := addTask_times (LayerInfo.create task) task
  obtain ⟨-, htype, hstatus, hdpu, hsw, hdma⟩ := addTask_rest (LayerInfo.create task) task
  have hstart' : ((LayerInfo.create task).addTask task).start_time_ns = task.start_time_ns :=
    hstart.trans (min_self _)
  have hend' : ((LayerInfo.create task).addTask task).start_time_ns +
      ((LayerInfo.create task).addTask task).duration_ns =
        task.start_time_ns + task.duration_ns := by
    rw [hend]
    exact max_eq_right (Nat.le_add_right _ _)
  constructor
  case first => rw [htype, type_create]; rfl
  case status => exact hstatus
  case start_le => simp [hstart']
  case start_mem => simp [hstart']
  case le_end => simp [hend']
  case end_mem => simp [hend']
  case dpu =>
    rw [hdpu]
    exact (sum_filter_append (fun t => t.exec_type = .DPU) [] task).symm
  case sw =>
    rw [hsw]
    exact (sum_filter_append (fun t => t.exec_type = .SW ∨ t.exec_type = .UPA) [] task).symm
  case dma =>
    rw [hdma]
    exact (sum_filter_append (fun t => t.exec_type = .DMA) [] task).symm

theorem LayerInfo.Covers.addTask (h : layer.Covers tasks) (task : TaskInfo) :
    (layer.addTask task).Covers (tasks ++ [task]) := by
  obtain ⟨hstart, hend⟩ := addTask_times layer task
  obtain ⟨-, htype, hstatus, hdpu, hsw, hdma⟩ := addTask_rest layer task
  obtain ⟨s, hs, hsStart⟩ := h.start_mem
  obtain ⟨e, he, heEnd⟩ := h.end_mem
  have hmem : ∀ t ∈ tasks ++ [task], t ∈ tasks ∨ t = task := by simp
  constructor
  case first =>
    rw [htype, ← h.first]
    cases tasks with
    | nil => simp at hs
    | cons t tasks => rfl
  case status => rw [hstatus, h.status]
  case start_le =>
    intro t ht
    rw [hstart]
    rcases hmem t ht with ht | rfl
    · exact (min_le_left _ _).trans (h.start_le t ht)
    · exact min_le_right _ _
  case start_mem =>
    rw [hstart]
    rcases le_total layer.start_time_ns task.start_time_ns with hle | hle
    · exact ⟨s, by simp [hs], by rw [hsStart, min_eq_left hle]⟩
    · exact ⟨task, by simp, (min_eq_right hle).symm⟩
  case le_end =>
    intro t ht
    rw [hend]
    rcases hmem t ht with ht | rfl
    · exact (h.le_end t ht).trans (le_max_left _ _)
    · exact le_max_right _ _
  case end_mem =>
    rw [hend]
    rcases le_total (task.start_time_ns + task.duration_ns)
      (layer.start_time_ns + layer.duration_ns) with hle | hle
    · exact ⟨e, by simp [he], by rw [heEnd, max_eq_left hle]⟩
    · exact ⟨task, by simp, (max_eq_right hle).symm⟩
  case dpu =>
    rw [hdpu, h.dpu]
    exact (sum_filter_append (fun t => t.exec_type = .DPU) tasks task).symm
  case sw =>
    rw [hsw, h.sw]
    exact (sum_filter_append (fun t => t.exec_type = .SW ∨ t.exec_type = .UPA) tasks task).symm
  case dma =>
    rw [hdma, h.dma]
    exact (sum_filter_append (fun t => t.exec_type = .DMA) tasks task).symm

theorem grouped_getLayerInfo (taskInfo : List TaskInfo) :
    Grouped (fun layer : LayerInfo => layer.name.text) TaskInfo.layerName LayerInfo.Covers
      (layerTasks taskInfo) (getLayerInfo taskInfo) := by
  induction taskInfo using List.reverseRecOn with
  | nil => exact Grouped.nil
  | append_singleton taskInfo task ih =>
    rw [getLayerInfo, List.foldl_append, ← getLayerInfo, layerTasks, List.filter_append,
      ← layerTasks, List.foldl_cons, List.foldl_nil]
    by_cases hcluster : task.isClusterLevel
    · rw [if_pos hcluster, List.filter_eq_nil_iff.mpr (by simpa using hcluster), List.append_nil]
      exact ih
    · rw [if_neg hcluster, List.filter_eq_self.mpr (by simpa using hcluster)]
      apply ih.collect
      · exact (congrArg CharArray.text (addTask_rest _ task).1).trans (name_create task)
      · exact fun layer => congrArg CharArray.text (addTask_rest layer task).1
      · exact covers_create task
      · exact fun layer own h => h.addTask task

end Spec

section Order

/-- A layer without its type. -/
def LayerInfo.statistics (layer : LayerInfo) : LayerInfo :=
  { layer with layer_type := .copy (by decide) [] }

theorem LayerInfo.Covers.statistics_eq {layer layer' : LayerInfo} {tasks tasks' : List TaskInfo}
    (h : layer.Covers tasks) (h' : layer'.Covers tasks') (hperm : tasks.Perm tasks')
    (hname : layer.name.text = layer'.name.text) : layer.statistics = layer'.statistics := by
  have hstart : layer.start_time_ns = layer'.start_time_ns := by
    obtain ⟨s, hs, hsStart⟩ := h.start_mem
    obtain ⟨s', hs', hsStart'⟩ := h'.start_mem
    have hle := h.start_le s' (hperm.mem_iff.mpr hs')
    have hle' := h'.start_le s (hperm.mem_iff.mp hs)
    omega
  have hend : layer.duration_ns = layer'.duration_ns := by
    obtain ⟨e, he, heEnd⟩ := h.end_mem
    obtain ⟨e', he', heEnd'⟩ := h'.end_mem
    have hle := h.le_end e' (hperm.mem_iff.mpr he')
    have hle' := h'.le_end e (hperm.mem_iff.mp he)
    omega
  have hsum : ∀ p : TaskInfo → Bool, ((tasks.filter p).map (·.duration_ns)).sum =
      ((tasks'.filter p).map (·.duration_ns)).sum := fun p => ((hperm.filter p).map _).sum_eq
  have hdpu := h.dpu.trans ((hsum _).trans h'.dpu.symm)
  have hsw := h.sw.trans ((hsum _).trans h'.sw.symm)
  have hdma := h.dma.trans ((hsum _).trans h'.dma.symm)
  have hname' : layer.name = layer'.name := by
    cases hn : layer.name
    cases hn' : layer'.name
    simpa [hn, hn'] using hname
  have hstatus := h.status.trans h'.status.symm
  simp only [LayerInfo.statistics, hname', hstatus, hstart, hend, hdpu, hsw, hdma]

/-- The layers of a list of tasks: one for each name of the counted tasks, which covers them. -/
structure LayersOf (taskInfo : List TaskInfo) (layers : List LayerInfo) : Prop where
  nodup : (layers.map fun layer => layer.name.text).Nodup
  names : ∀ name, (∃ layer ∈ layers, layer.name.text = name) ↔
    ∃ task ∈ layerTasks taskInfo, task.layerName = name
  covers : ∀ layer ∈ layers,
    layer.Covers ((layerTasks taskInfo).filter fun task => task.layerName = layer.name.text)

/-- The layers have the statistics of their tasks, and those do not depend on the order in which
the tasks arrive. -/
theorem getLayerInfo_layersOf (taskInfo : List TaskInfo) :
    LayersOf taskInfo (getLayerInfo taskInfo) ∧
      ∀ taskInfo' : List TaskInfo, taskInfo.Perm taskInfo' →
        ((getLayerInfo taskInfo).map LayerInfo.statistics).Perm
          ((getLayerInfo taskInfo').map LayerInfo.statistics) := by
  have hgrouped := grouped_getLayerInfo taskInfo
  constructor
  · constructor
    case nodup => exact hgrouped.nodup
    case names =>
      intro name
      rw [← hgrouped.mem_iff, List.mem_map]
    case covers => exact hgrouped.stands
  · intro taskInfo' hperm
    apply hgrouped.perm (grouped_getLayerInfo taskInfo') (hperm.filter _)
    intro layer layer' own own' h h' hown hname
    exact h.statistics_eq h' hown hname

/-- A task of a layer with its type. -/
def taskOf (name layerType : String) (hname : name.toList.length < 256)
    (htype : layerType.toList.length < 50) (exec : ExecType) (start duration : ℕ) : TaskInfo where
  name := ⟨name.toList, hname⟩
  layer_type := ⟨layerType.toList, htype⟩
  exec_type := exec
  start_time_ns := start
  duration_ns := duration

def dpuTask : TaskInfo := taskOf "conv?t_Convolution" "Convolution" (by decide) (by decide) .DPU 10
    5

def dmaTask : TaskInfo := taskOf "conv?t_Copy" "Copy" (by decide) (by decide) .DMA 4 3

theorem statistics_twoOrders :
    ((getLayerInfo [dpuTask, dmaTask]).map LayerInfo.statistics).Perm
      ((getLayerInfo [dmaTask, dpuTask]).map LayerInfo.statistics) :=
  (getLayerInfo_layersOf [dpuTask, dmaTask]).2 [dmaTask, dpuTask] (List.Perm.swap _ _ _)

/-- The type of a layer is that of the task which arrives first. -/
theorem not_perm_getLayerInfo : ¬ ∀ taskInfo taskInfo' : List TaskInfo, taskInfo.Perm taskInfo' →
    ∀ layer, layer ∈ getLayerInfo taskInfo ↔ layer ∈ getLayerInfo taskInfo' := by
  intro h
  have hlayers : ∀ layer ∈ getLayerInfo [dpuTask, dmaTask],
      layer ∈ getLayerInfo [dmaTask, dpuTask] := fun layer =>
    (h [dpuTask, dmaTask] [dmaTask, dpuTask] (List.Perm.swap _ _ _) layer).mp
  revert hlayers
  decide +kernel

end Order

end Vpux.Profiling
