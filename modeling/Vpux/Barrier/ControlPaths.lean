import Vpux.Barrier.Controll

/-! Which control paths the control map finds, when it is built and when it is built again after
barriers were changed. -/
namespace Vpux.Barrier.BarrierInfo
open Data Data.TaskSet VPURT Relation

variable {S : Type} [TaskSet S]

section Rows

variable {controll : ℕ → Finset ℕ}

/-- The pairs the consumer loops visit, in their order. -/
def consumerPairs (info : BarrierInfo S) : List (ℕ × ℕ) :=
  (List.range info.numTasks).reverse.flatMap fun taskInd =>
    (toList (info.getUpdateBarriers taskInd)).flatMap fun updateBarrierInd =>
      (toList (info.getBarrierConsumers updateBarrierInd)).map fun consumerInd =>
        (taskInd, consumerInd)

theorem forEachConsumer_eq {σ : Type} (info : BarrierInfo S) (visit : σ → ℕ → ℕ → σ) (init : σ) :
    info.forEachConsumer visit init =
      info.consumerPairs.foldl (fun s pair => visit s pair.1 pair.2) init := by
  unfold forEachConsumer consumerPairs
  simp only [List.foldl_flatMap, List.foldl_map]

theorem mem_consumerPairs {info : BarrierInfo S} (hrange : info.InRange) (t u : ℕ) :
    (t, u) ∈ info.consumerPairs ↔ info.Drives t u := by
  simp only [consumerPairs, List.mem_flatMap, List.mem_reverse, List.mem_range, List.mem_map,
    Prod.mk.injEq]
  constructor
  · rintro ⟨t', -, b, hb, u', hu, rfl, rfl⟩
    exact ⟨b, hb, (info.mem_getBarrierConsumers b u').mp hu⟩
  · rintro ⟨b, hb, hu⟩
    exact ⟨t, (hrange.updates t b hb).1, b, hb, u, (info.mem_getBarrierConsumers b u).mpr hu, rfl,
      rfl⟩

theorem pairwise_consumerPairs (info : BarrierInfo S) :
    info.consumerPairs.Pairwise fun p q => q.1 ≤ p.1 := by
  have hfst : ∀ t, ∀ p ∈ (toList (info.getUpdateBarriers t)).flatMap fun b =>
      (toList (info.getBarrierConsumers b)).map fun u => (t, u), p.1 = t := by
    intro t p hp
    simp only [List.mem_flatMap, List.mem_map] at hp
    obtain ⟨b, -, u, -, rfl⟩ := hp
    rfl
  apply List.pairwise_flatMap.mpr
  constructor
  · intro t _
    apply List.pairwise_of_forall_mem_list
    intro p hp q hq
    rw [hfst t p hp, hfst t q hq]
  · apply List.Pairwise.imp _ (List.pairwise_reverse.mpr List.pairwise_lt_range)
    intro t t' hlt p hp q hq
    rw [hfst t p hp, hfst t' q hq]
    exact hlt.le

theorem mem_foldl_setControll (pairs : List (ℕ × ℕ)) (t u : ℕ) :
    u ∈ pairs.foldl (fun controll pair => setControll controll pair.1 pair.2) controll t ↔
      u ∈ controll t ∨ (t, u) ∈ pairs := by
  induction pairs generalizing controll with
  | nil => simp
  | cons pair pairs ih =>
    rw [List.foldl_cons, ih, List.mem_cons]
    by_cases ht : t = pair.1
    · subst ht
      have hpair : ((pair.1, u) = pair) ↔ u = pair.2 := by
        rw [Prod.ext_iff]
        simp
      rw [setControll, Function.update_self, Finset.mem_insert, hpair]
      tauto
    · have hpair : ¬ (t, u) = pair := fun h => ht (congrArg Prod.fst h)
      rw [setControll, Function.update_of_ne ht]
      tauto

/-- Rows that are joined from the last task to the first end up joined with final rows. -/
theorem mem_foldl_union {pairs : List (ℕ × ℕ)} (hdown : pairs.Pairwise fun p q => q.1 ≤ p.1)
    (hclimb : ∀ p ∈ pairs, p.1 < p.2) :
    ∀ t u, u ∈ pairs.foldl (fun controll pair =>
        Function.update controll pair.1 (controll pair.1 ∪ controll pair.2)) controll t ↔
      u ∈ controll t ∨ ∃ m, (t, m) ∈ pairs ∧ u ∈ pairs.foldl (fun controll pair =>
        Function.update controll pair.1 (controll pair.1 ∪ controll pair.2)) controll m := by
  induction pairs using List.reverseRecOn with
  | nil => simp
  | append_singleton pairs pair ih =>
    obtain ⟨hdown', -, hlast⟩ := List.pairwise_append.mp hdown
    have hih := ih hdown' fun p hp => hclimb p (by simp [hp])
    have hpair := hclimb pair (by simp)
    intro t u
    rw [List.foldl_append, List.foldl_cons, List.foldl_nil]
    set joined := pairs.foldl (fun controll pair =>
      Function.update controll pair.1 (controll pair.1 ∪ controll pair.2)) controll with hjoined
    -- rows behind the last pair's task are final already
    have hsame : ∀ m, m ≠ pair.1 →
        Function.update joined pair.1 (joined pair.1 ∪ joined pair.2) m = joined m :=
      fun m hm => Function.update_of_ne hm _ _
    have hchild : ∀ m, (t, m) ∈ pairs → pair.1 ≤ t → m ≠ pair.1 := by
      intro m hm ht heq
      have := hclimb (t, m) (by simp [hm])
      omega
    by_cases ht : t = pair.1
    · subst ht
      rw [Function.update_self, Finset.mem_union, hih]
      constructor
      · rintro ((hu | ⟨m, hm, hu⟩) | hu)
        · exact Or.inl hu
        · refine Or.inr ⟨m, by simp [hm], ?_⟩
          rwa [hsame m (hchild m hm (le_refl _))]
        · refine Or.inr ⟨pair.2, by simp, ?_⟩
          rwa [hsame pair.2 (by omega)]
      · rintro (hu | ⟨m, hm, hu⟩)
        · exact Or.inl (Or.inl hu)
        · rcases List.mem_append.mp hm with hm | hm
          · rw [hsame m (hchild m hm (le_refl _))] at hu
            exact Or.inl (Or.inr ⟨m, hm, hu⟩)
          · obtain rfl : m = pair.2 := by
              have := List.mem_singleton.mp hm
              exact congrArg Prod.snd this
            rw [hsame pair.2 (by omega)] at hu
            exact Or.inr hu
    · rw [hsame t ht, hih]
      have hmem : ∀ m, (t, m) ∈ pairs ++ [pair] ↔ (t, m) ∈ pairs := by
        intro m
        rw [List.mem_append, List.mem_singleton, or_iff_left]
        intro h
        exact ht (congrArg Prod.fst h)
      have hchild' : ∀ m, (t, m) ∈ pairs → m ≠ pair.1 := by
        intro m hm
        exact hchild m hm (hlast (t, m) hm pair (by simp))
      constructor
      · rintro (hu | ⟨m, hm, hu⟩)
        · exact Or.inl hu
        · refine Or.inr ⟨m, (hmem m).mpr hm, ?_⟩
          rwa [hsame m (hchild' m hm)]
      · rintro (hu | ⟨m, hm, hu⟩)
        · exact Or.inl hu
        · rw [hmem] at hm
          rw [hsame m (hchild' m hm)] at hu
          exact Or.inr ⟨m, hm, hu⟩

theorem mem_addFifoControll (n : ℕ) (bits : Finset ℕ) (t u : ℕ) :
    u ∈ addFifoControll n controll bits t ↔
      u ∈ controll t ∨ ((t < n ∧ t ∈ bits) ∧ (u < n ∧ u ∈ bits) ∧ t < u) := by
  have hpairs : addFifoControll n controll bits = ((setBits n bits).flatMap fun taskInd =>
      ((setBits n bits).filter (taskInd < ·)).map fun nextTaskInd => (taskInd, nextTaskInd)).foldl
        (fun controll pair => setControll controll pair.1 pair.2) controll := by
    unfold addFifoControll
    simp only [List.foldl_flatMap, List.foldl_map]
  rw [hpairs, mem_foldl_setControll]
  simp [setBits]
  tauto

theorem mem_foldl_addFifoControll (n : ℕ) (queues : List (TaskQueueType × Finset ℕ)) (t u : ℕ) :
    u ∈ queues.foldl (fun controll item => addFifoControll n controll item.2) controll t ↔
      u ∈ controll t ∨
        ∃ item ∈ queues, (t < n ∧ t ∈ item.2) ∧ (u < n ∧ u ∈ item.2) ∧ t < u := by
  induction queues generalizing controll with
  | nil => simp
  | cons item queues ih =>
    rw [List.foldl_cons, ih, mem_addFifoControll]
    simp only [List.mem_cons, exists_eq_or_imp]
    tauto

end Rows

section Paths

variable {func : FuncOp} {dmaPortNum : ℕ} {info : BarrierInfo S} {considerTaskFifoDependency : Bool}
  {controll : ℕ → Finset ℕ}

/-- Two tasks of one of the queues the analysis has a bit vector for. -/
def Queued (dmaPortNum : ℕ) (func : FuncOp) (t u : ℕ) : Prop :=
  func.Fifo t u ∧ ∃ type ∈ taskQueueTypes dmaPortNum, taskQueueType? func t = some type

theorem mem_queues_iff (t u : ℕ) :
    (∃ item ∈ taskQueueTypeMap dmaPortNum func, (t < func.tasks.length ∧ t ∈ item.2) ∧
      (u < func.tasks.length ∧ u ∈ item.2) ∧ t < u) ↔ Queued dmaPortNum func t u := by
  constructor
  · rintro ⟨item, hitem, ⟨-, ht⟩, ⟨-, hu⟩, hlt⟩
    have hbits := (type_of_mem_taskQueueTypeMap hitem).2
    rw [hbits, mem_tasksInSameFIFO] at ht hu
    obtain ⟨type, htype, rfl⟩ := List.mem_map.mp hitem
    exact ⟨fifo_of_mem_queue hitem ht hu hlt, type, htype, ht⟩
  · rintro ⟨⟨hlt, op, op', hop, hop', -, hsame⟩, type, htype, ht⟩
    have hu : taskQueueType? func u = some type := by
      unfold taskQueueType? at ht ⊢
      rw [hop] at ht
      rw [hop', ← ht, Option.map_some, Option.map_some, hsame]
    refine ⟨(type, tasksInSameFIFO func type), List.mem_map.mpr ⟨type, htype, rfl⟩, ⟨?_, ?_⟩,
      ⟨?_, ?_⟩, hlt⟩
    · exact (List.getElem?_eq_some_iff.mp hop).1
    · exact (mem_tasksInSameFIFO type t).mpr ht
    · exact (List.getElem?_eq_some_iff.mp hop').1
    · exact (mem_tasksInSameFIFO type u).mpr hu

/-- The analysis belongs to the function, and its edges climb. -/
structure Analyses (info : BarrierInfo S) (func : FuncOp) : Prop where
  numTasks : info.numTasks = func.tasks.length
  inRange : info.InRange
  forward : info.Forward

theorem Analyses.wellFounded (h : info.Analyses func) : WellFounded fun m t => info.Drives t m := by
  apply Graph.wellFounded_of_climbs info.numTasks
  intro t m hdrives
  refine ⟨h.forward.ranked t m hdrives, ?_⟩
  obtain ⟨b, hb, -⟩ := hdrives
  exact (h.inRange.updates t b hb).1

/-- A row of the rebuilt map: barrier edges, and then one more step, which may be one of the old
map. -/
theorem mem_rebuildTaskControllMap (h : info.Analyses func) (t u : ℕ) :
    u ∈ info.rebuildTaskControllMap (taskQueueTypeMap dmaPortNum func)
        considerTaskFifoDependency controll t ↔
      ∃ m, ReflTransGen info.Drives t m ∧ (info.Drives m u ∨
        (considerTaskFifoDependency = true ∧ Queued dmaPortNum func m u) ∨ u ∈ controll m) := by
  unfold rebuildTaskControllMap
  rw [forEachConsumer_eq, forEachConsumer_eq]
  have hrows := @mem_foldl_union (info.consumerPairs.foldl
      (fun controll pair => setControll controll pair.1 pair.2)
      (if considerTaskFifoDependency = true then
        (taskQueueTypeMap dmaPortNum func).foldl
          (fun controll item => addFifoControll info.numTasks controll item.2) controll
        else controll)) info.consumerPairs (pairwise_consumerPairs info)
    (fun p hp => h.forward.ranked p.1 p.2 ((mem_consumerPairs h.inRange p.1 p.2).mp hp))
  simp only [mem_consumerPairs h.inRange] at hrows
  refine (Graph.closed_iff_exists h.wellFounded hrows t u).trans ?_
  simp only [mem_foldl_setControll, mem_consumerPairs h.inRange]
  have hfifo : ∀ m, u ∈ (if considerTaskFifoDependency = true then
        (taskQueueTypeMap dmaPortNum func).foldl
          (fun controll item => addFifoControll info.numTasks controll item.2) controll
        else controll) m ↔
      u ∈ controll m ∨ (considerTaskFifoDependency = true ∧ Queued dmaPortNum func m u) := by
    intro m
    split_ifs with hconsider
    · rw [mem_foldl_addFifoControll, h.numTasks, mem_queues_iff]
      simp [hconsider]
    · simp [hconsider]
  simp only [hfifo]
  constructor
  · rintro ⟨m, htm, (hold | hqueued) | hdrives⟩
    · exact ⟨m, htm, Or.inr (Or.inr hold)⟩
    · exact ⟨m, htm, Or.inr (Or.inl hqueued)⟩
    · exact ⟨m, htm, Or.inl hdrives⟩
  · rintro ⟨m, htm, hdrives | hqueued | hold⟩
    · exact ⟨m, htm, Or.inr hdrives⟩
    · exact ⟨m, htm, Or.inl (Or.inr hqueued)⟩
    · exact ⟨m, htm, Or.inl (Or.inl hold)⟩

end Paths

section Calls

/-- A call: the barriers at that time, and whether the queues are to be considered. -/
structure Call (S : Type) [TaskSet S] where
  info : BarrierInfo S
  considerTaskFifoDependency : Bool

variable {func : FuncOp} {dmaPortNum : ℕ}

/-- What the call is to record: paths of barrier edges and, if they are considered, of hops in the
queues. -/
def Call.Ordered (func : FuncOp) (call : Call S) : ℕ → ℕ → Prop :=
  TransGen fun t u => call.info.Drives t u ∨ call.considerTaskFifoDependency = true ∧ func.Fifo t u

/-- The map after a call. -/
def Call.build (dmaPortNum : ℕ) (func : FuncOp) (call : Call S) (controll : ℕ → Finset ℕ) :
    ℕ → Finset ℕ :=
  call.info.rebuildTaskControllMap (taskQueueTypeMap dmaPortNum func)
    call.considerTaskFifoDependency controll

def Exact (func : FuncOp) (call : Call S) (controll : ℕ → Finset ℕ) : Prop :=
  ∀ t u, controlPathExistsBetween controll t u = true ↔ call.Ordered func t u

/-- The map is exact after every call. -/
def ExactRun (dmaPortNum : ℕ) (func : FuncOp) : (ℕ → Finset ℕ) → List (Call S) → Prop
  | _, [] => True
  | controll, call :: calls =>
    Exact func call (call.build dmaPortNum func controll) ∧
      ExactRun dmaPortNum func (call.build dmaPortNum func controll) calls

/-- What was ordered before the call still is, and a path that begins with a queue hop ends where
barrier edges lead, with at most one step behind them that is a hop of a known queue or was a
path before the call. -/
structure Records (dmaPortNum : ℕ) (func : FuncOp) (old : ℕ → ℕ → Prop) (call : Call S) : Prop where
  keeps : ∀ t u, old t u → call.Ordered func t u
  finds : call.considerTaskFifoDependency = true → ∀ t m u, func.Fifo t m →
    (m = u ∨ call.Ordered func m u) →
    ∃ x, ReflTransGen call.info.Drives t x ∧
      (call.info.Drives x u ∨ Queued dmaPortNum func x u ∨ old x u)

def RecordsRun (dmaPortNum : ℕ) (func : FuncOp) : (ℕ → ℕ → Prop) → List (Call S) → Prop
  | _, [] => True
  | old, call :: calls =>
    Records dmaPortNum func old call ∧ RecordsRun dmaPortNum func (call.Ordered func) calls

theorem Call.ordered_of_drives {call : Call S} {t m : ℕ}
    (h : ReflTransGen call.info.Drives t m) :
    ReflTransGen (fun t u =>
      call.info.Drives t u ∨ call.considerTaskFifoDependency = true ∧ func.Fifo t u) t m :=
  ReflTransGen.mono (fun _ _ => Or.inl) t m h

variable {controll : ℕ → Finset ℕ}

theorem exact_build_iff {call : Call S} {old : ℕ → ℕ → Prop} (h : call.info.Analyses func)
    (hold : ∀ t u, u ∈ controll t ↔ old t u) :
    Exact func call (call.build dmaPortNum func controll) ↔ Records dmaPortNum func old call := by
  have hmem : ∀ t u, u ∈ call.info.rebuildTaskControllMap (taskQueueTypeMap dmaPortNum func)
      call.considerTaskFifoDependency controll t ↔ ∃ m, ReflTransGen call.info.Drives t m ∧
        (call.info.Drives m u ∨ (call.considerTaskFifoDependency = true ∧
          Queued dmaPortNum func m u) ∨ u ∈ controll m) :=
    mem_rebuildTaskControllMap h
  simp only [hold] at hmem
  unfold Exact controlPathExistsBetween Call.build
  simp only [decide_eq_true_eq, hmem]
  constructor
  · intro hexact
    constructor
    · intro t u htu
      exact (hexact t u).mp ⟨t, .refl, Or.inr (Or.inr htu)⟩
    · intro hconsider t m u hfifo hmu
      have hstep : TransGen (fun t u => call.info.Drives t u ∨
          call.considerTaskFifoDependency = true ∧ func.Fifo t u) t m :=
        .single (Or.inr ⟨hconsider, hfifo⟩)
      have htu : call.Ordered func t u := by
        rcases hmu with rfl | hmu
        · exact hstep
        · exact hstep.trans hmu
      obtain ⟨x, htx, hxu⟩ := (hexact t u).mpr htu
      refine ⟨x, htx, ?_⟩
      rcases hxu with hdrives | ⟨-, hqueued⟩ | hold
      · exact Or.inl hdrives
      · exact Or.inr (Or.inl hqueued)
      · exact Or.inr (Or.inr hold)
  · intro hrecords t u
    constructor
    · rintro ⟨m, htm, hmu⟩
      have hpath : ReflTransGen (fun t u => call.info.Drives t u ∨
          call.considerTaskFifoDependency = true ∧ func.Fifo t u) t m :=
        Call.ordered_of_drives htm
      rcases hmu with hdrives | ⟨hconsider, hqueued⟩ | hold
      · exact TransGen.tail' hpath (Or.inl hdrives)
      · exact TransGen.tail' hpath (Or.inr ⟨hconsider, hqueued.1⟩)
      · exact TransGen.trans_right hpath (hrecords.keeps m u hold)
    · intro htu
      induction htu using TransGen.head_induction_on with
      | single hstep =>
        rcases hstep with hdrives | ⟨hconsider, hfifo⟩
        · exact ⟨_, .refl, Or.inl hdrives⟩
        · obtain ⟨x, hx, hxu⟩ := hrecords.finds hconsider _ u u hfifo (Or.inl rfl)
          refine ⟨x, hx, ?_⟩
          rcases hxu with hdrives | hqueued | hold
          · exact Or.inl hdrives
          · exact Or.inr (Or.inl ⟨hconsider, hqueued⟩)
          · exact Or.inr (Or.inr hold)
      | head hstep hmu ih =>
        rcases hstep with hdrives | ⟨hconsider, hfifo⟩
        · obtain ⟨x, hx, hxu⟩ := ih
          exact ⟨x, .head hdrives hx, hxu⟩
        · obtain ⟨x, hx, hxu⟩ := hrecords.finds hconsider _ _ u hfifo (Or.inr hmu)
          refine ⟨x, hx, ?_⟩
          rcases hxu with hdrives | hqueued | hold
          · exact Or.inl hdrives
          · exact Or.inr (Or.inl ⟨hconsider, hqueued⟩)
          · exact Or.inr (Or.inr hold)

theorem exactRun_iff {calls : List (Call S)} {old : ℕ → ℕ → Prop}
    (h : ∀ call ∈ calls, call.info.Analyses func) (hold : ∀ t u, u ∈ controll t ↔ old t u) :
    ExactRun dmaPortNum func controll calls ↔ RecordsRun dmaPortNum func old calls := by
  induction calls generalizing controll old with
  | nil => rfl
  | cons call calls ih =>
    have hcall : Exact func call (call.build dmaPortNum func controll) ↔
        Records dmaPortNum func old call := exact_build_iff (h call (by simp)) hold
    constructor
    · rintro ⟨hexact, hrun⟩
      refine ⟨hcall.mp hexact, (ih (fun c hc => h c (by simp [hc])) ?_).mp hrun⟩
      intro t u
      simpa [controlPathExistsBetween] using hexact t u
    · rintro ⟨hrecords, hrun⟩
      have hexact := hcall.mpr hrecords
      refine ⟨hexact, (ih (fun c hc => h c (by simp [hc])) ?_).mpr hrun⟩
      intro t u
      simpa [controlPathExistsBetween] using hexact t u

/-- From the empty map on, every call leaves an exact map if and only if every call keeps the
order there was and each path behind a queue hop is found without the hop. -/
theorem buildTaskControllMap_exact_iff (dmaPortNum : ℕ) (func : FuncOp) (calls : List (Call S))
    (h : ∀ call ∈ calls, call.info.Analyses func) :
    ExactRun dmaPortNum func (fun _ => ∅) calls ↔
      RecordsRun dmaPortNum func (fun _ _ => False) calls :=
  exactRun_iff h (by simp)

theorem analyses_buildBarrierMaps (hw : func.WellFormed) (hf : func.Forward) :
    (buildBarrierMaps func : BarrierInfo S).Analyses func :=
  ⟨numTasks_buildBarrierMaps func, inRange_buildBarrierMaps func hw,
    forward_buildBarrierMaps func hf⟩

/-- Two DMAs of one queue, and a task that waits for the second one. -/
def hopThenBarrier : FuncOp where
  numBarriers := 1
  tasks := [⟨.dma 0 .DDR none, [], []⟩, ⟨.dma 0 .DDR none, [], [0]⟩, ⟨.upa, [0], []⟩]

/-- The barrier graph of `hopThenBarrier`, considered with and without the queues. -/
def hopThenBarrierCall (considerTaskFifoDependency : Bool) : Call (SmallSet 16) :=
  ⟨buildBarrierMaps hopThenBarrier, considerTaskFifoDependency⟩

theorem buildTaskControllMap_exact_iff_hopThenBarrier :
    ExactRun 1 hopThenBarrier (fun _ => ∅) [hopThenBarrierCall false, hopThenBarrierCall true] ↔
      RecordsRun 1 hopThenBarrier (fun _ _ => False)
        [hopThenBarrierCall false, hopThenBarrierCall true] := by
  apply buildTaskControllMap_exact_iff
  intro call hcall
  have hinfo : call.info = buildBarrierMaps hopThenBarrier := by
    rcases List.mem_cons.mp hcall with rfl | hcall
    · rfl
    · rw [List.mem_singleton.mp hcall]
      rfl
  rw [hinfo]
  exact analyses_buildBarrierMaps (by decide) (by decide)

/-- The first DMA is ordered before the last task, and the map does not have it. -/
theorem not_exact_hopThenBarrier :
    (hopThenBarrierCall true).info.Analyses hopThenBarrier ∧
      ¬ ExactRun 1 hopThenBarrier (fun _ => ∅) [hopThenBarrierCall true] := by
  refine ⟨analyses_buildBarrierMaps (by decide) (by decide), ?_⟩
  rintro ⟨hexact, -⟩
  have hhop : hopThenBarrier.Fifo 0 1 := ⟨by decide, _, _, rfl, rfl, rfl, rfl⟩
  have hbarrier : (hopThenBarrierCall true).info.Drives 1 2 := ⟨0, by decide, by decide⟩
  have hordered : (hopThenBarrierCall true).Ordered hopThenBarrier 0 2 :=
    .tail (.single (Or.inr ⟨rfl, hhop⟩)) (Or.inl hbarrier)
  have hmissed : controlPathExistsBetween
      ((hopThenBarrierCall true).build 1 hopThenBarrier fun _ => ∅) 0 2 = false := by decide
  rw [← hexact, hmissed] at hordered
  exact absurd hordered (by decide)

end Calls

end Vpux.Barrier.BarrierInfo
