import Mathlib.Data.List.GetD
import Mathlib.Data.List.ReduceOption
import Vpux.Async.DepsMap

/-! The consumer map is the transpose of the dependency map, up to the operands of inserted
operations that nobody has registered yet. -/
namespace Vpux.Async

namespace BitRows

variable {rows rows' : BitRows}

theorem row_eq_empty {i : ℕ} (h : rows.length ≤ i) : rows.row i = ∅ := by
  simp [row, List.getD, List.getElem?_eq_none h]

/-- Every row exists up to `size`, and has no bit past it. -/
structure Sized (rows : BitRows) (size : ℕ) : Prop where
  length : rows.length = size
  bits : ∀ i, ∀ b ∈ rows.row i, b < size

theorem row_modify (idx i : ℕ) (f : Finset ℕ → Finset ℕ) (hidx : idx < rows.length) :
    row (rows.modify idx f) i = if i = idx then f (rows.row i) else rows.row i := by
  unfold row
  by_cases h : i = idx
  · subst h
    simp [List.getD, List.getElem?_eq_getElem hidx]
  · simp [List.getD, h, Ne.symm h]

theorem length_set? {idx bit : ℕ} (h : rows.set? idx bit = some rows') :
    rows'.length = rows.length := by
  unfold set? at h
  split_ifs at h
  rw [← Option.some.inj h, List.length_modify]

theorem mem_row_set? {idx bit : ℕ} (h : rows.set? idx bit = some rows') (i b : ℕ) :
    b ∈ rows'.row i ↔ (i = idx ∧ b = bit) ∨ b ∈ rows.row i := by
  unfold set? at h
  split_ifs at h with hrange
  rw [← Option.some.inj h, row_modify _ _ _ hrange.1]
  by_cases hi : i = idx
  · simp [hi]
  · simp [hi]

theorem Sized.set? {size idx bit : ℕ} (hsized : rows.Sized size)
    (h : rows.set? idx bit = some rows') : rows'.Sized size := by
  have hbit : bit < rows.length := by
    unfold BitRows.set? at h
    split_ifs at h with hrange
    exact hrange.2
  constructor
  · rw [length_set? h, hsized.length]
  · intro i b hb
    rcases (mem_row_set? h i b).mp hb with ⟨-, rfl⟩ | hb
    · exact hsized.length ▸ hbit
    · exact hsized.bits i b hb

theorem row_resize {size : ℕ} (h : rows.length ≤ size) (i : ℕ) :
    row (rows.resize size) i = rows.row i := by
  unfold row resize
  rw [List.take_of_length_le h]
  by_cases hi : i < rows.length
  · rw [List.getD_append _ _ _ _ hi]
  · rw [List.getD_append_right _ _ _ _ (by omega)]
    simp only [List.getD, List.getElem?_replicate, List.getElem?_eq_none (not_lt.mp hi)]
    split_ifs <;> rfl

theorem Sized.resize {n size : ℕ} (hsized : rows.Sized n) (h : n ≤ size) :
    (rows.resize size).Sized size := by
  have hlength := hsized.length
  constructor
  · simp [BitRows.resize, hlength, h]
  · intro i b hb
    rw [row_resize (hlength ▸ h)] at hb
    exact (hsized.bits i b hb).trans_le h

theorem sized_nil : Sized [] 0 where
  length := rfl
  bits i b hb := by simp [row] at hb

end BitRows

namespace DepsMaps

open BitRows

variable {depsMap depsMap' consumerMap consumerMap' : BitRows} {s s' : DepsMaps}
  {operands : List (Option ℕ)}

theorem addExecOp_spec {size execInd : ℕ} (hsized : depsMap.Sized size)
    (h : addExecOp depsMap execInd operands = some depsMap') :
    depsMap'.Sized size ∧
      ∀ i b, b ∈ depsMap'.row i ↔ (i = execInd ∧ some b ∈ operands) ∨ b ∈ depsMap.row i := by
  induction operands generalizing depsMap with
  | nil =>
    obtain rfl : depsMap = depsMap' := by simpa [addExecOp] using h
    exact ⟨hsized, by simp⟩
  | cons arg operands ih =>
    simp only [addExecOp, List.foldlM_cons, Option.bind_eq_bind, Option.bind_eq_some_iff] at h
    obtain ⟨mid, ⟨argExecInd, rfl, hset⟩, hrest⟩ := h
    obtain ⟨hsized', hrow⟩ := ih (hsized.set? hset) hrest
    refine ⟨hsized', fun i b => ?_⟩
    rw [hrow, mem_row_set? hset, List.mem_cons, Option.some.injEq]
    tauto

variable {func : List FuncOp}

theorem buildRows_sized {size : ℕ} {execInd : ℕ} (hsized : depsMap.Sized size)
    (h : buildRows func execInd depsMap = some depsMap') :
    depsMap'.Sized size := by
  induction func generalizing execInd depsMap with
  | nil =>
    obtain rfl : depsMap = depsMap' := by simpa [buildRows] using h
    exact hsized
  | cons op func ih =>
    cases op with
    | execute operands =>
      simp only [buildRows, Option.bind_eq_bind, Option.bind_eq_some_iff] at h
      obtain ⟨mid, hmid, hrest⟩ := h
      exact ih (addExecOp_spec hsized hmid).1 hrest
    | await usedInExecute =>
      simp only [buildRows] at h
      split_ifs at h
      exact ih hsized h
    | other => exact ih hsized h

theorem buildConsRow_spec {size idx : ℕ} {deps : Finset ℕ} (hsized : consumerMap.Sized size)
    (h : buildConsRow consumerMap idx deps = some consumerMap') :
    consumerMap'.Sized size ∧
      ∀ p c, c ∈ consumerMap'.row p ↔ (p ∈ deps ∧ c = idx) ∨ c ∈ consumerMap.row p := by
  suffices hlist : ∀ (bits : List ℕ) (rows : BitRows), rows.Sized size →
      bits.foldlM (fun rows bit => BitRows.set? rows bit idx) rows = some consumerMap' →
      consumerMap'.Sized size ∧
        ∀ p c, c ∈ consumerMap'.row p ↔ (p ∈ bits ∧ c = idx) ∨ c ∈ rows.row p by
    simpa using hlist (deps.sort (· ≤ ·)) consumerMap hsized h
  intro bits
  induction bits with
  | nil =>
    intro rows hrows hfold
    obtain rfl : rows = consumerMap' := by simpa using hfold
    exact ⟨hrows, by simp⟩
  | cons bit bits ih =>
    intro rows hrows hfold
    simp only [List.foldlM_cons, Option.bind_eq_bind, Option.bind_eq_some_iff] at hfold
    obtain ⟨mid, hset, hrest⟩ := hfold
    obtain ⟨hsized', hrow⟩ := ih mid (hrows.set? hset) hrest
    refine ⟨hsized', fun p c => ?_⟩
    rw [hrow, mem_row_set? hset, List.mem_cons]
    tauto

/-- The map that is built afresh is the transpose of the dependency map. -/
theorem buildConsMap_spec (hsized : s.depsMap.Sized s.allExecOps) (hempty : s.consumerMap = [])
    (h : s.buildConsMap = some s') :
    s'.allExecOps = s.allExecOps ∧ s'.depsMap = s.depsMap ∧
      s'.consumerMap.Sized s.allExecOps ∧
      ∀ p c, c ∈ s'.consumerMap.row p ↔ p ∈ s.depsMap.row c := by
  simp only [buildConsMap, Option.bind_eq_bind, Option.bind_eq_some_iff, Option.pure_def,
    Option.some.injEq, hempty] at h
  obtain ⟨built, hbuilt, rfl⟩ := h
  refine ⟨rfl, rfl, ?_⟩
  have hrows : ∀ (n : ℕ) (rows : BitRows), (List.range n).foldlM
      (fun rows idx => buildConsRow rows idx (s.depsMap.row idx))
      (BitRows.resize [] s.depsMap.length) = some rows →
      rows.Sized s.allExecOps ∧ ∀ p c, c ∈ rows.row p ↔ c < n ∧ p ∈ s.depsMap.row c := by
    intro n
    induction n with
    | zero =>
      intro rows hfold
      obtain rfl : BitRows.resize [] s.depsMap.length = rows := by simpa using hfold
      rw [hsized.length]
      refine ⟨sized_nil.resize (Nat.zero_le _), fun p c => ?_⟩
      rw [row_resize (by simp)]
      simp [BitRows.row]
    | succ n ih =>
      intro rows hfold
      rw [List.range_succ, List.foldlM_append] at hfold
      simp only [List.foldlM_cons, List.foldlM_nil, Option.bind_eq_bind,
        Option.bind_eq_some_iff, Option.pure_def, Option.some.injEq] at hfold
      obtain ⟨mid, hmid, last, hrow, rfl⟩ := hfold
      obtain ⟨hmidSized, hmidRow⟩ := ih mid hmid
      obtain ⟨hrowsSized, hrowsRow⟩ := buildConsRow_spec hmidSized hrow
      refine ⟨hrowsSized, fun p c => ?_⟩
      rw [hrowsRow, hmidRow]
      constructor
      · rintro (⟨hp, rfl⟩ | ⟨hc, hp⟩)
        · exact ⟨Nat.lt_succ_self _, hp⟩
        · exact ⟨hc.trans (Nat.lt_succ_self _), hp⟩
      · intro ⟨hc, hp⟩
        rcases Nat.lt_succ_iff_lt_or_eq.mp hc with hc | rfl
        · exact .inr ⟨hc, hp⟩
        · exact .inl ⟨hp, rfl⟩
  obtain ⟨hsized', hrow⟩ := hrows _ built hbuilt
  refine ⟨hsized', fun p c => ?_⟩
  rw [hrow, and_iff_right_iff_imp]
  intro hp
  by_contra hc
  rw [row_eq_empty (not_lt.mp hc)] at hp
  exact absurd hp (Finset.notMem_empty p)

theorem reduceRow_subset (closure : BitRows) (startEnd : ℤ × ℤ) (curDeps : Finset ℕ) :
    reduceRow closure startEnd curDeps ⊆ curDeps := by
  unfold reduceRow
  split_ifs with hskip
  · exact subset_rfl
  · generalize List.range' startEnd.1.toNat (startEnd.2.toNat + 1 - startEnd.1.toNat) = range
    induction range generalizing curDeps with
    | nil => exact subset_rfl
    | cons curDepInd range ih =>
      rw [List.foldl_cons]
      refine (ih _).trans ?_
      split_ifs
      · exact Finset.sdiff_subset
      · exact subset_rfl

theorem Sized.reducedDeps {size : ℕ} (hsized : depsMap.Sized size) :
    (reducedDeps depsMap).Sized size := by
  have hlist : ∀ inds : List ℕ, (∀ i ∈ inds, i < size) → ∀ rows : BitRows, rows.Sized size →
      BitRows.Sized (inds.foldl (fun rows depInd => rows.modify depInd
        (reduceRow (depsMapClosure depsMap).1
          ((depsMapClosure depsMap).2.getD depInd (-1, -1)))) rows) size := by
    intro inds
    induction inds with
    | nil => exact fun _ rows hrows => hrows
    | cons depInd inds ih =>
      intro hinds rows hrows
      have hdepInd : depInd < rows.length := by
        rw [hrows.length]
        exact hinds depInd (by simp)
      refine ih (fun i hi => hinds i (by simp [hi])) _ ⟨by simp [hrows.length], fun i b hb => ?_⟩
      rw [row_modify _ _ _ hdepInd] at hb
      split_ifs at hb
      · exact hrows.bits i b (reduceRow_subset _ _ _ hb)
      · exact hrows.bits i b hb
  refine hlist _ (fun i hi => ?_) depsMap hsized
  rw [List.mem_reverse, List.mem_range, hsized.length] at hi
  exact hi

/-- Operands of inserted operations for which nobody has called `addDependency` since, and
which no rebuild of the consumer map has found, after one more call. -/
def unregisteredAfter (size : ℕ) (unregistered : Finset (ℕ × ℕ)) : Call → Finset (ℕ × ℕ)
  | .addDependency fromInd toInd => unregistered.erase (fromInd, toInd)
  | .optimizeDepsMap => ∅
  | .insertNewExecOpToDepsMap operands =>
    unregistered ∪ (operands.reduceOption.map (·, size)).toFinset

/-- The number of operations after one more call. -/
def sizeAfter (size : ℕ) : Call → ℕ
  | .insertNewExecOpToDepsMap _ => size + 1
  | _ => size

/-- The pairs of an operand and an operation that only `depsMap` knows after the calls. -/
def unregistered : List Call → ℕ → Finset (ℕ × ℕ) → Finset (ℕ × ℕ)
  | [], _, pairs => pairs
  | call :: calls, size, pairs =>
    unregistered calls (sizeAfter size call) (unregisteredAfter size pairs call)

/-- The consumer map lacks exactly the given pairs of the dependency map. -/
structure Lacks (s : DepsMaps) (pairs : Finset (ℕ × ℕ)) : Prop where
  deps : s.depsMap.Sized s.allExecOps
  consumers : s.consumerMap.Sized s.allExecOps
  depends : ∀ p c, p ∈ s.depsMap.row c ↔ c ∈ s.consumerMap.row p ∨ (p, c) ∈ pairs
  lacks : ∀ p c, c ∈ s.consumerMap.row p → (p, c) ∉ pairs

variable {pairs : Finset (ℕ × ℕ)}

theorem Lacks.buildConsMap (hsized : s.depsMap.Sized s.allExecOps) (hempty : s.consumerMap = [])
    (h : s.buildConsMap = some s') : Lacks s' ∅ ∧ s'.allExecOps = s.allExecOps := by
  obtain ⟨hsize, hdeps, hconsumers, hrow⟩ := buildConsMap_spec hsized hempty h
  refine ⟨⟨?_, ?_, fun p c => ?_, fun p c _ => Finset.notMem_empty _⟩, hsize⟩
  · rw [hdeps, hsize]
    exact hsized
  · rw [hsize]
    exact hconsumers
  · rw [hdeps, hrow]
    simp

section

variable (hs : Lacks s pairs)
include hs

theorem Lacks.addDependency {fromInd toInd : ℕ} (h : s.addDependency fromInd toInd = some s') :
    Lacks s' (pairs.erase (fromInd, toInd)) ∧ s'.allExecOps = s.allExecOps := by
  simp only [DepsMaps.addDependency, Option.bind_eq_bind, Option.bind_eq_some_iff] at h
  obtain ⟨depsMap, hdeps, h⟩ := h
  have hbuilt : s.consumerMap.isEmpty = false := by
    have htoInd : toInd < s.depsMap.length := by
      unfold set? at hdeps
      split_ifs at hdeps with hrange
      exact hrange.1
    have := hs.deps.length
    have := hs.consumers.length
    cases hmap : s.consumerMap with
    | nil => simp [hmap] at this; omega
    | cons row rows => rfl
  simp only [hbuilt, Bool.false_eq_true, if_false, Option.bind_eq_some_iff, Option.pure_def,
    Option.some.injEq] at h
  obtain ⟨consumerMap, hconsumers, rfl⟩ := h
  refine ⟨⟨hs.deps.set? hdeps, hs.consumers.set? hconsumers, fun p c => ?_, fun p c hc => ?_⟩, rfl⟩
  · rw [mem_row_set? hdeps, mem_row_set? hconsumers, hs.depends p c, Finset.mem_erase]
    simp only [ne_eq, Prod.mk.injEq]
    tauto
  · rcases (mem_row_set? hconsumers p c).mp hc with ⟨rfl, rfl⟩ | hc
    · exact Finset.notMem_erase _ _
    · exact fun hpair => hs.lacks p c hc (Finset.mem_of_mem_erase hpair)

theorem Lacks.optimizeDepsMap (h : s.optimizeDepsMap = some s') :
    Lacks s' ∅ ∧ s'.allExecOps = s.allExecOps := by
  simp only [DepsMaps.optimizeDepsMap] at h
  split_ifs at h with hempty
  · obtain rfl := Option.some.inj h
    have hlength := hs.consumers.length
    rw [List.isEmpty_iff.mp hempty] at hlength
    have hnone : ∀ rows : BitRows, rows.Sized s.allExecOps → ∀ i b, b ∉ rows.row i := by
      intro rows hrows i b hb
      have := hrows.bits i b hb
      simp only [List.length_nil] at hlength
      omega
    refine ⟨⟨Sized.reducedDeps hs.deps, hs.consumers, fun p c => ?_,
      fun p c _ => Finset.notMem_empty _⟩, rfl⟩
    simp [hnone _ (Sized.reducedDeps hs.deps), hnone _ hs.consumers]
  · let reduced : DepsMaps :=
      { s with depsMap := DepsMaps.reducedDeps s.depsMap, consumerMap := [] }
    have hreduced : reduced.depsMap.Sized reduced.allExecOps := Sized.reducedDeps hs.deps
    exact Lacks.buildConsMap (s := reduced) hreduced rfl h

theorem Lacks.insertNewExecOpToDepsMap (h : s.insertNewExecOpToDepsMap operands = some s') :
    Lacks s' (pairs ∪ (operands.reduceOption.map (·, s.allExecOps)).toFinset) ∧
      s'.allExecOps = s.allExecOps + 1 := by
  simp only [DepsMaps.insertNewExecOpToDepsMap, Option.bind_eq_bind, Option.bind_eq_some_iff,
    Option.pure_def, Option.some.injEq] at h
  obtain ⟨depsMap, hdeps, rfl⟩ := h
  have hle : s.allExecOps ≤ s.allExecOps + 1 := Nat.le_succ _
  obtain ⟨hsized, hrow⟩ := addExecOp_spec (hs.deps.resize hle) hdeps
  have hconsumers : ∀ p, BitRows.row (s.consumerMap.resize (s.allExecOps + 1)) p =
      s.consumerMap.row p := row_resize (hs.consumers.length ▸ hle)
  have hpair : ∀ p c, (p, c) ∈ (operands.reduceOption.map (·, s.allExecOps)).toFinset ↔
      c = s.allExecOps ∧ some p ∈ operands := by
    intro p c
    simp only [List.mem_toFinset, List.mem_map, List.reduceOption_mem_iff, Prod.mk.injEq]
    constructor
    · rintro ⟨operand, hoperand, rfl, rfl⟩
      exact ⟨rfl, hoperand⟩
    · rintro ⟨rfl, hp⟩
      exact ⟨p, hp, rfl, rfl⟩
  refine ⟨⟨hsized, hs.consumers.resize hle, fun p c => ?_, fun p c hc => ?_⟩, rfl⟩
  · rw [hrow, row_resize (hs.deps.length ▸ hle), hconsumers, hs.depends p c, Finset.mem_union,
      hpair]
    tauto
  · rw [hconsumers] at hc
    rw [Finset.mem_union, hpair, not_or, not_and]
    -- the rows have no bit for the new operation yet
    exact ⟨hs.lacks p c hc, fun hnew => absurd (hs.consumers.bits p c hc) (by omega)⟩

theorem Lacks.call {c : Call} (h : s.call c = some s') :
    Lacks s' (unregisteredAfter s.allExecOps pairs c) ∧
      s'.allExecOps = sizeAfter s.allExecOps c := by
  cases c with
  | addDependency fromInd toInd => exact hs.addDependency h
  | optimizeDepsMap => exact hs.optimizeDepsMap h
  | insertNewExecOpToDepsMap operands => exact hs.insertNewExecOpToDepsMap h

theorem Lacks.calls {calls : List Call} (h : calls.foldlM DepsMaps.call s = some s') :
    Lacks s' (unregistered calls s.allExecOps pairs) := by
  induction calls generalizing s pairs with
  | nil =>
    obtain rfl : s = s' := by simpa using h
    exact hs
  | cons call calls ih =>
    simp only [List.foldlM_cons, Option.bind_eq_bind, Option.bind_eq_some_iff] at h
    obtain ⟨mid, hmid, hrest⟩ := h
    obtain ⟨hmidLacks, hsize⟩ := hs.call hmid
    rw [unregistered, ← hsize]
    exact ih hmidLacks hrest

end

theorem run_lacks {calls : List Call} (h : run func calls = some s) :
    Lacks s (unregistered calls (executeOps func).length ∅) := by
  simp only [run, buildDepsMap, Option.bind_eq_bind, Option.bind_eq_some_iff, Option.pure_def,
    Option.some.injEq] at h
  obtain ⟨-, ⟨rows, hrows, rfl⟩, built, hbuilt, hcalls⟩ := h
  have hsized := buildRows_sized (sized_nil.resize (Nat.zero_le _)) hrows
  obtain ⟨hlacks, hsize⟩ := Lacks.buildConsMap hsized rfl hbuilt
  have := hlacks.calls hcalls
  rwa [hsize] at this

variable {op : ℕ}

section

variable (hs : Lacks s pairs) (hop : op < s.allExecOps)
include hs hop

theorem getOpDeps_eq :
    s.getOpDeps op = some ((s.depsMap.row op).sort (· ≤ ·)) := by
  have hlt : op < s.depsMap.length := hs.deps.length ▸ hop
  simp [getOpDeps, BitRows.row, List.getElem?_eq_getElem hlt]

theorem consumerMap_ne_nil : s.consumerMap ≠ [] := by
  apply List.ne_nil_of_length_pos
  rw [hs.consumers.length]
  exact Nat.zero_lt_of_lt hop

theorem getConsumerOps_eq :
    s.getConsumerOps op = some ((s.consumerMap.row op).sort (· ≤ ·)) := by
  have hlt : op < s.consumerMap.length := hs.consumers.length ▸ hop
  simp [getConsumerOps, consumerMap_ne_nil hs hop, BitRows.row, List.getElem?_eq_getElem hlt]

theorem degrees_eq :
    ∃ deps consumers outDegrees, s.getOpDeps op = some deps ∧
      s.getConsumerOps op = some consumers ∧ s.calculateOpOutDegreeTable = some outDegrees ∧
      s.calculateOpInDegreeTable[op]? = some deps.length ∧
      outDegrees[op]? = some consumers.length := by
  refine ⟨_, _, s.consumerMap.map Finset.card, getOpDeps_eq hs hop, getConsumerOps_eq hs hop, ?_,
    ?_, ?_⟩
  · simp [calculateOpOutDegreeTable, consumerMap_ne_nil hs hop]
  · have hlt : op < s.depsMap.length := hs.deps.length ▸ hop
    simp [calculateOpInDegreeTable, BitRows.row, List.getElem?_eq_getElem hlt]
  · have hlt : op < s.consumerMap.length := hs.consumers.length ▸ hop
    simp [BitRows.row, List.getElem?_eq_getElem hlt]

end

/-- The lists are transposed exactly when every operand of an inserted operation was registered
by `addDependency` or found by a rebuild. -/
theorem transposed_iff {calls : List Call} (h : run func calls = some s) :
    (∀ p c, c ∈ s.consumerMap.row p ↔ p ∈ s.depsMap.row c) ↔
      unregistered calls (executeOps func).length ∅ = ∅ := by
  have hs := run_lacks h
  constructor
  · intro htransposed
    apply Finset.eq_empty_of_forall_notMem
    intro ⟨p, c⟩ hpair
    have hdep : p ∈ s.depsMap.row c := (hs.depends p c).mpr (.inr hpair)
    exact hs.lacks p c ((htransposed p c).mpr hdep) hpair
  · intro hnone p c
    rw [hs.depends p c, hnone]
    simp

/-- Dependencies and consumers are transposed after any calls in which the operands of inserted
operations are registered, and the degrees count them. -/
theorem mem_getConsumerOps_iff_mem_getOpDeps {func : List FuncOp} {calls : List Call}
    (h : run func calls = some s)
    (hregistered : unregistered calls (executeOps func).length ∅ = ∅) :
    (∀ p < s.allExecOps, ∀ c < s.allExecOps, ∃ consumers deps,
      s.getConsumerOps p = some consumers ∧ s.getOpDeps c = some deps ∧
        (c ∈ consumers ↔ p ∈ deps)) ∧
    ∀ op < s.allExecOps, ∃ deps consumers outDegrees, s.getOpDeps op = some deps ∧
      s.getConsumerOps op = some consumers ∧ s.calculateOpOutDegreeTable = some outDegrees ∧
      s.calculateOpInDegreeTable[op]? = some deps.length ∧
      outDegrees[op]? = some consumers.length := by
  have hs := run_lacks h
  constructor
  · intro p hp c hc
    refine ⟨_, _, getConsumerOps_eq hs hp, getOpDeps_eq hs hc, ?_⟩
    rw [Finset.mem_sort, Finset.mem_sort]
    exact (transposed_iff h).mpr hregistered p c
  · exact fun op hop => degrees_eq hs hop

/-- A spill write of operation `0` without operands, and a spill read that takes its result. -/
def spillCalls : List Call :=
  [.insertNewExecOpToDepsMap [], .addDependency 0 2, .optimizeDepsMap,
    .insertNewExecOpToDepsMap [some 2], .addDependency 2 3, .addDependency 3 1]

def spillMaps : DepsMaps where
  allExecOps := 4
  depsMap := [∅, {3, 0}, {0}, {2}]
  consumerMap := [{2, 1}, ∅, {3}, {1}]

theorem mem_getConsumerOps_spillMaps :
    run [.execute [], .execute [some 0]] spillCalls = some spillMaps ∧
      ∀ p < 4, ∀ c < 4, ∃ consumers deps, spillMaps.getConsumerOps p = some consumers ∧
        spillMaps.getOpDeps c = some deps ∧ (c ∈ consumers ↔ p ∈ deps) := by
  have hrun : run [.execute [], .execute [some 0]] spillCalls = some spillMaps := by
    decide +kernel
  exact ⟨hrun, (mem_getConsumerOps_iff_mem_getOpDeps hrun (by decide +kernel)).1⟩

end DepsMaps
end Vpux.Async
