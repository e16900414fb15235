import Vpux.Data.Folds
import Vpux.Memory.Partitioner

/-! Merging neighbouring `async.execute` operations
(`dialect/VPUIP/passes/async_scheduling/group_async_execute_ops.cpp`). -/
namespace Vpux.Async.Group
open Memory

/-- A value of the block of the function; the operations have numbers. -/
inductive Value
  | token (op : ℕ)
  | result (op idx : ℕ)
  | argument (idx : ℕ)
  deriving DecidableEq, Repr

def Value.owner : Value → Option ℕ
  | .token op => some op
  | .result op _ => some op
  | .argument _ => none

/-- A value that an operation of a body takes; the operations of a body are counted from zero. -/
inductive BodyValue
  | blockArg (idx : ℕ)
  | result (op idx : ℕ)
  /-- A buffer of the function. -/
  | outer (buffer : ℕ)
  deriving DecidableEq, Repr

structure BodyOp (L : Type) where
  label : L
  operands : List BodyValue
  deriving DecidableEq, Repr

structure Body (L : Type) where
  ops : List (BodyOp L)
  yields : List BodyValue
  deriving DecidableEq, Repr

structure ExecuteOp (L E M : Type) where
  dependencies : List Value
  operands : List Value
  body : Body L
  executor : E
  executorInstanceMask : Option M
  cycleBegin : ℕ
  cycleEnd : ℕ
  cycleCost : ℕ
  deriving DecidableEq, Repr

inductive Op (L E M : Type)
  | execute (execOp : ExecuteOp L E M)
  | other (label : L) (operands : List Value)
  deriving DecidableEq, Repr

variable {L E M : Type}

def Op.uses : Op L E M → List Value
  | .execute execOp => execOp.dependencies ++ execOp.operands
  | .other _ operands => operands

def Op.isExecute : Op L E M → Bool
  | .execute _ => true
  | .other _ _ => false

/-- The operations of a function with their numbers. -/
abbrev Func (L E M : Type) := List (ℕ × Op L E M)

section Guards

variable [DecidableEq E] [DecidableEq M]

/-- `info` tells whether the first sub-executors of an executor are empty. -/
def isOptimizableOp (info : E → Option Bool) (execOp : ExecuteOp L E M) : Except String Bool :=
  match info execOp.executor with
  | none => .error "Failed to get information about executor"
  | some isEmpty => .ok isEmpty

def isSameExecutor (execOp1 execOp2 : ExecuteOp L E M) : Bool :=
  if execOp1.executor ≠ execOp2.executor then false
  else
    match execOp1.executorInstanceMask, execOp2.executorInstanceMask with
    | none, none => true
    | some executorInstance1, some executorInstance2 => executorInstance1 = executorInstance2
    | _, _ => false

def haveSameDependencies (execOp1 execOp2 : ExecuteOp L E M) : Bool :=
  if execOp1.dependencies.length = 1 ∧ execOp2.dependencies.length = 1 then
    execOp2.dependencies.all (· ∈ execOp1.dependencies)
  else true

def Value.isResultOf (op : ℕ) : Value → Bool
  | .result o _ => o = op
  | _ => false

/-- The users of the results of an operation; a user that is no `async.execute` has no number. -/
def resultUsers (func : Func L E M) (op : ℕ) : List (Option ℕ) :=
  (func.filter fun user => user.2.uses.any (Value.isResultOf op)).map fun user =>
    if user.2.isExecute then some user.1 else none

def prevHasUniqueUsers (func : Func L E M) (prevExecOp execOp : ℕ) : Bool :=
  ((resultUsers func prevExecOp).filter (· ≠ some execOp)).any (· ∉ resultUsers func execOp)

end Guards

section Merge

/-- `BlockAndValueMapping` for the second of the two bodies. -/
def BodyValue.shift (blockArgs ops : ℕ) : BodyValue → BodyValue
  | .blockArg idx => .blockArg (idx + blockArgs)
  | .result op idx => .result (op + ops) idx
  | .outer buffer => .outer buffer

def BodyOp.shift (blockArgs ops : ℕ) (op : BodyOp L) : BodyOp L :=
  { op with operands := op.operands.map (BodyValue.shift blockArgs ops) }

def mergeAsyncExecuteOps (prevExecOp execOp : ExecuteOp L E M) (newCycleBegin newCycleEnd : ℕ) :
    ExecuteOp L E M :=
  let blockArgs := prevExecOp.operands.length
  let ops := prevExecOp.body.ops.length
  { dependencies := prevExecOp.dependencies ++ execOp.dependencies
    operands := prevExecOp.operands ++ execOp.operands
    body :=
      { ops := prevExecOp.body.ops ++ execOp.body.ops.map (BodyOp.shift blockArgs ops)
        yields := prevExecOp.body.yields ++
          execOp.body.yields.map (BodyValue.shift blockArgs ops) }
    executor := execOp.executor
    executorInstanceMask := execOp.executorInstanceMask
    cycleBegin := newCycleBegin
    cycleEnd := newCycleEnd
    cycleCost := sub64 newCycleEnd newCycleBegin }

/-- What `cleanup` puts in the place of a value. -/
def redirect (prevExecOp execOp newExecOp prevResults : ℕ) : Value → Value
  | .token op => if op = prevExecOp ∨ op = execOp then .token newExecOp else .token op
  | .result op idx =>
    if op = prevExecOp then .result newExecOp idx
    else if op = execOp then .result newExecOp (prevResults + idx)
    else .result op idx
  | .argument idx => .argument idx

def Op.mapUses (ρ : Value → Value) : Op L E M → Op L E M
  | .execute execOp => .execute { execOp with
      dependencies := execOp.dependencies.map ρ
      operands := execOp.operands.map ρ }
  | .other label operands => .other label (operands.map ρ)

/-- The operations before an `async.execute` operation, and those after it. -/
def locate (execOp : ℕ) : Func L E M → Option (Func L E M × ExecuteOp L E M × Func L E M)
  | [] => none
  | (op, .execute e) :: ops =>
    if op = execOp then some ([], e, ops)
    else (locate execOp ops).map fun found => ((op, .execute e) :: found.1, found.2)
  | (op, .other label operands) :: ops =>
    (locate execOp ops).map fun found => ((op, .other label operands) :: found.1, found.2)

/-- A number that no operation has. -/
def newOp (func : Func L E M) : ℕ := (func.map Prod.fst).foldr max 0 + 1

variable [DecidableEq E] [DecidableEq M]

/-- A match that fails and an error that is thrown both give no new function. -/
def matchAndRewrite (info : E → Option Bool) (func : Func L E M) (execOp : ℕ) :
    Except String (Func L E M) := do
  let some (before, exec, after) := locate execOp func | .error "Not an async.execute operation"
  if !(← isOptimizableOp info exec) then .error "The operation is not optimizible"
  else
    match before.getLast? with
    | some (prevExecOp, .execute prev) =>
      if !isSameExecutor prev exec then
        .error "Previous 'async.execute' uses another executor"
      else if !haveSameDependencies prev exec then
        .error "Previous 'async.execute' has different dependencies"
      else if (exec.dependencies ++ exec.operands).any (·.owner = some prevExecOp) then
        .error "Current 'async.execute' depends on previous 'async.execute'"
      else if prevHasUniqueUsers func prevExecOp execOp then
        .error "Previous 'async.execute' has exclusive users"
      else
        let newCycleBegin := min prev.cycleBegin exec.cycleBegin
        let newCycleEnd := max prev.cycleEnd exec.cycleEnd
        let prevExecOpCycleCost := sub64 prev.cycleEnd prev.cycleBegin
        let execOpCycleCost := sub64 exec.cycleEnd exec.cycleBegin
        if sub64 newCycleEnd newCycleBegin ≠ add64 prevExecOpCycleCost execOpCycleCost then
          .error "Current and previous 'async.execute' are not consecutive in terms of cycles"
        else
          let newExec := mergeAsyncExecuteOps prev exec newCycleBegin newCycleEnd
          let newExecOp := newOp func
          .ok ((before.dropLast ++ (newExecOp, .execute newExec) :: after).map fun op =>
            (op.1, op.2.mapUses
              (redirect prevExecOp execOp newExecOp prev.body.yields.length)))
    | _ => .error "Previous operation is not 'async.execute'"

end Merge

section Cases

/-- A pair of neighbours that passes all the guards of a merge. -/
structure Groups [DecidableEq E] [DecidableEq M] (func before after : Func L E M)
    (prevExecOp execOp : ℕ) (prev exec : ExecuteOp L E M) : Prop where
  split : func = before ++ (prevExecOp, .execute prev) :: (execOp, .execute exec) :: after
  executor : isSameExecutor prev exec = true
  dependencies : haveSameDependencies prev exec = true
  independent : ∀ val ∈ exec.dependencies ++ exec.operands, val.owner ≠ some prevExecOp
  users : prevHasUniqueUsers func prevExecOp execOp = false
  consecutive : sub64 (max prev.cycleEnd exec.cycleEnd) (min prev.cycleBegin exec.cycleBegin) =
    add64 (sub64 prev.cycleEnd prev.cycleBegin) (sub64 exec.cycleEnd exec.cycleBegin)

def groupedOp (prev exec : ExecuteOp L E M) : ExecuteOp L E M :=
  mergeAsyncExecuteOps prev exec (min prev.cycleBegin exec.cycleBegin)
    (max prev.cycleEnd exec.cycleEnd)

/-- The values of the pair become those of the new operation. -/
def groupedValue (func : Func L E M) (prevExecOp execOp : ℕ) (prev : ExecuteOp L E M) :
    Value → Value :=
  redirect prevExecOp execOp (newOp func) prev.body.yields.length

def groupedFunc (func before after : Func L E M) (prevExecOp execOp : ℕ)
    (prev exec : ExecuteOp L E M) : Func L E M :=
  (before ++ (newOp func, .execute (groupedOp prev exec)) :: after).map fun op =>
    (op.1, op.2.mapUses (groupedValue func prevExecOp execOp prev))

theorem locate_eq_some {execOp : ℕ} {func before after : Func L E M} {exec : ExecuteOp L E M}
    (h : locate execOp func = some (before, exec, after)) :
    func = before ++ (execOp, .execute exec) :: after := by
  induction func generalizing before with
  | nil => simp [locate] at h
  | cons op ops ih =>
    obtain ⟨number, kind⟩ := op
    cases kind with
    | execute e =>
      simp only [locate] at h
      split_ifs at h with heq
      · cases h
        rw [heq, List.nil_append]
      · obtain ⟨⟨front, e', back⟩, hfound, hpair⟩ := Option.map_eq_some_iff.mp h
        cases hpair
        rw [ih hfound, List.cons_append]
    | other label operands =>
      obtain ⟨⟨front, e', back⟩, hfound, hpair⟩ := Option.map_eq_some_iff.mp h
      cases hpair
      rw [ih hfound, List.cons_append]

theorem newOp_notMem (func : Func L E M) : newOp func ∉ func.map Prod.fst := by
  have hle : ∀ (numbers : List ℕ), ∀ n ∈ numbers, n ≤ numbers.foldr max 0 := by
    intro numbers
    induction numbers with
    | nil => simp
    | cons m numbers ih =>
      intro n hn
      rcases List.mem_cons.mp hn with rfl | hn
      · exact le_max_left _ _
      · exact (ih n hn).trans (le_max_right _ _)
  intro hmem
  have := hle _ _ hmem
  unfold newOp at this
  omega

variable [DecidableEq E] [DecidableEq M] {info : E → Option Bool} {func func' : Func L E M}

theorem matchAndRewrite_cases {execOp : ℕ} (h : matchAndRewrite info func execOp = .ok func') :
    ∃ before after prevExecOp prev exec, Groups func before after prevExecOp execOp prev exec ∧
      func' = groupedFunc func before after prevExecOp execOp prev exec := by
  unfold matchAndRewrite at h
  cases hlocate : locate execOp func with
  | none => simp [hlocate] at h
  | some found =>
    obtain ⟨before, exec, after⟩ := found
    have hsplit := locate_eq_some hlocate
    simp only [hlocate] at h
    obtain ⟨optimizable, -, h⟩ := Data.bind_eq_ok.mp h
    split_ifs at h with hopt
    cases hlast : before.getLast? with
    | none => simp [hlast] at h
    | some last =>
      obtain ⟨prevExecOp, kind⟩ := last
      cases kind with
      | other label operands => simp [hlast] at h
      | execute prev =>
        simp only [hlast] at h
        split_ifs at h with hexecutor hdependencies hindependent husers hconsecutive
        cases h
        have hbefore : before = before.dropLast ++ [(prevExecOp, .execute prev)] := by
          have hne : before ≠ [] := by
            rintro rfl
            simp at hlast
          rw [List.getLast?_eq_some_getLast hne] at hlast
          rw [← Option.some.inj hlast, List.dropLast_append_getLast hne]
        refine ⟨before.dropLast, after, prevExecOp, prev, exec, ?_, rfl⟩
        constructor
        · rw [hsplit]
          nth_rewrite 1 [hbefore]
          simp
        · simpa using hexecutor
        · simpa using hdependencies
        · simpa [or_imp, forall_and] using hindependent
        · simpa using husers
        · exact not_not.mp hconsecutive

end Cases

end Vpux.Async.Group
