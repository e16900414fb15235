import Mathlib.Data.Finset.Insert
import Mathlib.Data.Finset.Max
import Mathlib.Data.Finset.Sort
import Mathlib.Logic.Function.Basic

/-! Dependencies between asynchronous operations. A bit vector is the set of the
positions of its set bits. -/
namespace Vpux.Async

/-- `depsMap b` holds what `b` depends on. The consumer map is empty until it is built. -/
structure AsyncDepsInfo where
  depsMap : ℕ → Finset ℕ
  consumerMap : Option (ℕ → Finset ℕ)

namespace AsyncDepsInfo

def addDependency (depsInfo : AsyncDepsInfo) (fromInd toInd : ℕ) : AsyncDepsInfo where
  depsMap := Function.update depsInfo.depsMap toInd (insert fromInd (depsInfo.depsMap toInd))
  consumerMap := depsInfo.consumerMap.map fun consumerMap =>
    Function.update consumerMap fromInd (insert toInd (consumerMap fromInd))

def Depends (depsInfo : AsyncDepsInfo) (a b : ℕ) : Prop := a ∈ depsInfo.depsMap b

instance (depsInfo : AsyncDepsInfo) (a b : ℕ) : Decidable (depsInfo.Depends a b) :=
  inferInstanceAs (Decidable (a ∈ depsInfo.depsMap b))

@[simp] theorem depends_addDependency (depsInfo : AsyncDepsInfo) (fromInd toInd a b : ℕ) :
    (depsInfo.addDependency fromInd toInd).Depends a b ↔
      (a = fromInd ∧ b = toInd) ∨ depsInfo.Depends a b := by
  unfold Depends addDependency
  by_cases h : b = toInd
  · subst h
    simp
  · simp [h]

theorem depends_foldl_addDependency (sources : List ℕ) (depsInfo : AsyncDepsInfo) (toInd a b : ℕ) :
    (sources.foldl (fun depsInfo src => depsInfo.addDependency src toInd) depsInfo).Depends a b ↔
      (a ∈ sources ∧ b = toInd) ∨ depsInfo.Depends a b := by
  induction sources generalizing depsInfo with
  | nil => simp
  | cons src sources ih =>
    rw [List.foldl_cons, ih, depends_addDependency, List.mem_cons]
    tauto

end AsyncDepsInfo

-- The dependency and consumer maps with their sizes. Operations are the positions of their rows; a
-- row is the set of its set bits, and has as many bits as the map has rows.

/-- Operations of a function, as far as the constructor looks at them. An operand is
the position of the `execute` operation that produces it, when there is one. -/
inductive FuncOp where
  | execute (operands : List (Option ℕ))
  | await (usedInExecute : Bool)
  | other

def executeOps : List FuncOp → List (List (Option ℕ))
  | [] => []
  | .execute operands :: ops => operands :: executeOps ops
  | _ :: ops => executeOps ops

abbrev BitRows := List (Finset ℕ)

namespace BitRows

/-- Setting a bit out of range fails an assertion. -/
def set? (rows : BitRows) (idx bit : ℕ) : Option BitRows :=
  if idx < rows.length ∧ bit < rows.length then some (rows.modify idx (insert bit)) else none

def resize (rows : BitRows) (size : ℕ) : BitRows :=
  rows.take size ++ List.replicate (size - rows.length) ∅

def row (rows : BitRows) (idx : ℕ) : Finset ℕ := rows.getD idx ∅

end BitRows

def findFirst (bits : Finset ℕ) : ℤ := if h : bits.Nonempty then bits.min' h else -1

def findLast (bits : Finset ℕ) : ℤ := if h : bits.Nonempty then bits.max' h else -1

structure DepsMaps where
  allExecOps : ℕ
  depsMap : BitRows
  consumerMap : BitRows
  deriving DecidableEq

namespace DepsMaps

def addExecOp (depsMap : BitRows) (execInd : ℕ) (operands : List (Option ℕ)) : Option BitRows :=
  operands.foldlM (fun depsMap arg => do depsMap.set? execInd (← arg)) depsMap

/-- The loop of the constructor, with the position of the next `execute` operation. -/
def buildRows : List FuncOp → ℕ → BitRows → Option BitRows
  | [], _, depsMap => some depsMap
  | .execute operands :: ops, execInd, depsMap => do
    buildRows ops (execInd + 1) (← addExecOp depsMap execInd operands)
  | .await usedInExecute :: ops, execInd, depsMap =>
    if usedInExecute then none else buildRows ops execInd depsMap
  | .other :: ops, execInd, depsMap => buildRows ops execInd depsMap

def buildDepsMap (func : List FuncOp) : Option DepsMaps := do
  let allExecOps := (executeOps func).length
  let depsMap ← buildRows func 0 (BitRows.resize [] allExecOps)
  pure { allExecOps, depsMap, consumerMap := [] }

def addDependency (s : DepsMaps) (fromInd toInd : ℕ) : Option DepsMaps := do
  let depsMap ← s.depsMap.set? toInd fromInd
  if s.consumerMap.isEmpty then
    pure { s with depsMap }
  else
    pure { s with depsMap, consumerMap := ← s.consumerMap.set? fromInd toInd }

/-- One row of the map becomes the set of the rows that depend on it. -/
def buildConsRow (consumerMap : BitRows) (idx : ℕ) (deps : Finset ℕ) : Option BitRows :=
  (deps.sort (· ≤ ·)).foldlM (fun consumerMap bit => consumerMap.set? bit idx) consumerMap

def buildConsMap (s : DepsMaps) : Option DepsMaps := do
  let consumerMap ← (List.range s.depsMap.length).foldlM
    (fun consumerMap idx => buildConsRow consumerMap idx (s.depsMap.row idx))
    (s.consumerMap.resize s.depsMap.length)
  pure { s with consumerMap }

/-- The bits that the loop over a row adds are visited too. -/
def closeRow (closure : BitRows) (idx : ℕ) : BitRows :=
  (List.range closure.length).foldl (fun closure curDepInd =>
    if curDepInd ∈ closure.row idx then
      closure.modify idx (· ∪ closure.row curDepInd)
    else closure) closure

/-- Transitive closure, with the first and the last dependency of each row. -/
def depsMapClosure (depsMap : BitRows) : BitRows × List (ℤ × ℤ) :=
  (List.range depsMap.length).foldl (fun st idx =>
    (closeRow st.1 idx, st.2 ++ [(findFirst (st.1.row idx), findLast (st.1.row idx))]))
    (depsMap, [])

/-- Dependencies that another dependency of the row already implies are removed. -/
def reduceRow (closure : BitRows) (startEnd : ℤ × ℤ) (curDeps : Finset ℕ) : Finset ℕ :=
  if startEnd.1 < 0 ∨ startEnd.2 < 0 ∨ startEnd.1 = startEnd.2 then curDeps
  else (List.range' startEnd.1.toNat (startEnd.2.toNat + 1 - startEnd.1.toNat)).foldl
    (fun curDeps curDepInd =>
      if curDepInd ∈ curDeps then curDeps \ closure.row curDepInd else curDeps) curDeps

def reducedDeps (depsMap : BitRows) : BitRows :=
  let closure := depsMapClosure depsMap
  (List.range depsMap.length).reverse.foldl (fun depsMap depInd =>
    depsMap.modify depInd (reduceRow closure.1 (closure.2.getD depInd (-1, -1)))) depsMap

def optimizeDepsMap (s : DepsMaps) : Option DepsMaps :=
  let reduced := { s with depsMap := reducedDeps s.depsMap }
  if s.consumerMap.isEmpty then some reduced
  else buildConsMap { reduced with consumerMap := [] }

/-- The position of the new operation is the number of operations before. -/
def insertNewExecOpToDepsMap (s : DepsMaps) (operands : List (Option ℕ)) : Option DepsMaps := do
  let allExecOps := s.allExecOps + 1
  let depsMap ← addExecOp (s.depsMap.resize allExecOps) s.allExecOps operands
  pure { allExecOps, depsMap, consumerMap := s.consumerMap.resize allExecOps }

def getOpDeps (s : DepsMaps) (opIdx : ℕ) : Option (List ℕ) := do
  pure ((← s.depsMap[opIdx]?).sort (· ≤ ·))

def getConsumerOps (s : DepsMaps) (opIdx : ℕ) : Option (List ℕ) := do
  guard (s.consumerMap ≠ [])
  pure ((← s.consumerMap[opIdx]?).sort (· ≤ ·))

def calculateOpInDegreeTable (s : DepsMaps) : List ℕ := s.depsMap.map Finset.card

def calculateOpOutDegreeTable (s : DepsMaps) : Option (List ℕ) := do
  guard (s.consumerMap ≠ [])
  pure (s.consumerMap.map Finset.card)

/-- What the rest of the compiler may call once the consumer map is built. -/
inductive Call where
  | addDependency (fromInd toInd : ℕ)
  | optimizeDepsMap
  | insertNewExecOpToDepsMap (operands : List (Option ℕ))

def call (s : DepsMaps) : Call → Option DepsMaps
  | .addDependency fromInd toInd => s.addDependency fromInd toInd
  | .optimizeDepsMap => s.optimizeDepsMap
  | .insertNewExecOpToDepsMap operands => s.insertNewExecOpToDepsMap operands

def run (func : List FuncOp) (calls : List Call) : Option DepsMaps := do
  calls.foldlM call (← (← buildDepsMap func).buildConsMap)

end DepsMaps

end Vpux.Async
