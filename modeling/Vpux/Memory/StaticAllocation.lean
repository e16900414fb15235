import Vpux.Memory.ControlEdgeDeps
import Vpux.Memory.LinearScan
import Mathlib.Data.Finset.Card

/-! Static allocation. The operations are taken in order; a buffer gets its memory at its first
user, and gives it back when an operation begins after the end of the last of its users. -/
namespace Vpux.Memory
open LinearScan Async

/-- The buffers of a function. Sizes and static offsets are signed 64-bit numbers. -/
structure Buffers (V : Type) where
  values : List V
  /-- The ancestors, in the block of the buffer, of all its direct and indirect users. -/
  users : V → Finset ℕ
  inMemKind : V → Bool
  isBufAllocOp : V → Bool
  staticOffset : V → Option ℕ
  size : V → ℕ
  alignment : V → ℕ
  nodup : values.Nodup
  size_lt : ∀ val, size val < 2 ^ 63
  staticOffset_lt : ∀ val offset, staticOffset val = some offset → offset < 2 ^ 63

/-- The root buffers of every operand of the memory kind. -/
structure LayerOp (V : Type) where
  inputs : List (List V)
  outputs : List (List V)

/-- `async.execute` -/
structure ExecuteOp (V : Type) where
  index : ℕ
  cycleBegin : ℕ
  cycleEnd : ℕ
  layers : List (LayerOp V)

variable {V : Type}

/-- `LinearScanHandler`, which does not implement spills. -/
def Buffers.handler (bufs : Buffers V) : Handler V where
  isFixedAlloc val := (bufs.staticOffset val).isSome
  getSize := bufs.size
  getAlignment := bufs.alignment
  getSpillWeight _ := 0
  spilled _ _ := false
  checkInvariantExceedingNNCMX _ _ _ := false
  getSize_lt val := (bufs.size_lt val).trans (by decide)

/-- The users that are still to come, and the buffers that an operation uses. -/
structure MemLiveRangeInfo (V : Type) where
  allUsersInBlock : V → Finset ℕ
  reverseUsers : ℕ → List V

variable [DecidableEq V] (bufs : Buffers V)

namespace MemLiveRangeInfo

def ofBuffers : MemLiveRangeInfo V where
  allUsersInBlock := bufs.users
  reverseUsers op := bufs.values.filter fun val => op ∈ bufs.users val

def getUsedBuffers (info : MemLiveRangeInfo V) (op : ℕ) : List V := info.reverseUsers op

/-- The number of users left. -/
def eraseUser (info : MemLiveRangeInfo V) (val : V) (op : ℕ) : Option (ℕ × MemLiveRangeInfo V) := do
  let allUsers := info.allUsersInBlock val
  let allBufs := info.reverseUsers op
  guard (op ∈ allUsers)
  return ((allUsers.erase op).card,
    { allUsersInBlock := Function.update info.allUsersInBlock val (allUsers.erase op)
      reverseUsers := Function.update info.reverseUsers op (allBufs.erase val) })

end MemLiveRangeInfo

namespace StaticAllocation

/-- `freeBuffersCycleEnd`, sorted by the end cycle. -/
abbrev FreeBuffers (V : Type) := List (ℕ × List V)

/-- `freeBuffersCycleEnd[cycleEnd] = freeBuffers` -/
def assign : FreeBuffers V → ℕ → List V → FreeBuffers V
  | [], cycleEnd, freeBuffers => [(cycleEnd, freeBuffers)]
  | entry :: entries, cycleEnd, freeBuffers =>
    if cycleEnd < entry.1 then (cycleEnd, freeBuffers) :: entry :: entries
    else if cycleEnd = entry.1 then (cycleEnd, freeBuffers) :: entries
    else entry :: assign entries cycleEnd freeBuffers

/-- The variables of `runLinearScan`, with the values that its handler has alive. -/
structure State (V : Type) where
  scan : Scan V
  aliveValues : List V
  liveRangeInfo : MemLiveRangeInfo V
  freeBuffersCycleEnd : FreeBuffers V
  scheduledOpsResources : List ScheduledOpOneResource

section Steps

variable (order : AllocatedAddrs → AllocatedAddrs)

def allocNewBuffers (usedBufs : List V) (st : State V) : Option (State V) := do
  let newBufs := usedBufs.filter fun val => bufs.inMemKind val && val ∉ st.aliveValues
  let (ok, scan) ← alloc bufs.handler order newBufs false .Up st.scan
  guard ok
  return { st with scan := scan, aliveValues := st.aliveValues ++ newBufs }

def freeDeadBuffers (usedBufs : List V) (st : State V) : Option (State V) := do
  let aliveValues := st.aliveValues.filter (· ∉ usedBufs)
  let scan ← freeNonAlive bufs.handler (fun _ val => val ∈ aliveValues) st.scan
  return { st with scan := scan, aliveValues := aliveValues }

def getFreeBuffers (usedBufs : List V) (op : ℕ) (info : MemLiveRangeInfo V) :
    Option (List V × MemLiveRangeInfo V) :=
  usedBufs.foldlM (fun (freeBuffers, info) val =>
    if !bufs.inMemKind val then some (freeBuffers, info)
    else do
      let (left, info) ← info.eraseUser val op
      return (if left = 0 then freeBuffers ++ [val] else freeBuffers, info)) ([], info)

/-- The buffers whose end cycle has come are freed, and their entries stay without buffers. -/
def freeEnded (cycleBegin : ℕ) : FreeBuffers V → State V → Option (FreeBuffers V × State V)
  | [], st => some ([], st)
  | entry :: entries, st =>
    if entry.2.isEmpty ∨ cycleBegin < entry.1 then do
      let (entries, st) ← freeEnded cycleBegin entries st
      return (entry :: entries, st)
    else do
      let st ← freeDeadBuffers bufs entry.2 st
      let (entries, st) ← freeEnded cycleBegin entries st
      return ((entry.1, []) :: entries, st)

/-- A value that was not allocated has no address. -/
def getAddress (scan : Scan V) (val : V) : Option ℕ :=
  if (bufs.staticOffset val).isSome ∨ scan.told.any (fun event => match event with
    | .allocated range _ => range = val
    | _ => false) then some (scan.address val)
  else none

def resource (scan : Scan V) (opIndex : ℕ) (resRelation : EResRelation) (buf : V) :
    Option ScheduledOpOneResource := do
  let addressStart ← getAddress bufs scan buf
  return {
    op := opIndex
    addressStart := add64 addressStart 0
    addressEnd := sub64 (add64 addressStart (bufs.size buf)) 1
    resRelation := resRelation
    addressStart_lt := Nat.mod_lt _ (by decide)
    addressEnd_lt := Nat.mod_lt _ (by decide) }

/-- Every operand has one root; the roots make up a set. -/
def rootBuffers (operands : List (List V)) : Option (List V) := do
  let roots ← operands.mapM fun rootBuffers =>
    match rootBuffers with
    | [rootBuffer] => some rootBuffer
    | _ => none
  return roots.dedup

def opResources (scan : Scan V) (op : ExecuteOp V) : Option (List ScheduledOpOneResource) := do
  let inputBuffers ← rootBuffers (op.layers.flatMap LayerOp.inputs)
  let outputBuffers ← rootBuffers (op.layers.flatMap LayerOp.outputs)
  let inputs ← (inputBuffers.filter bufs.isBufAllocOp).mapM (resource bufs scan op.index .CONSUMER)
  let outputs ← (outputBuffers.filter bufs.isBufAllocOp).mapM
    (resource bufs scan op.index .PRODUCER)
  return inputs ++ outputs

def processOp (st : State V) (op : ExecuteOp V) : Option (State V) := do
  let (freeBuffersCycleEnd, st) ← freeEnded bufs op.cycleBegin st.freeBuffersCycleEnd st
  let usedBufs := st.liveRangeInfo.getUsedBuffers op.index
  let st ← allocNewBuffers bufs order usedBufs st
  let resources ← opResources bufs st.scan op
  let (freeBuffers, liveRangeInfo) ← getFreeBuffers bufs usedBufs op.index st.liveRangeInfo
  return { st with
    liveRangeInfo := liveRangeInfo
    freeBuffersCycleEnd := assign freeBuffersCycleEnd op.cycleEnd freeBuffers
    scheduledOpsResources := st.scheduledOpsResources ++ resources }

def freeRemaining (st : State V) : Option (State V) :=
  st.freeBuffersCycleEnd.foldlM (fun st entry =>
    if entry.2.isEmpty then some st else freeDeadBuffers bufs entry.2 st) st

def start (scan : Scan V) : State V where
  scan := scan
  aliveValues := []
  liveRangeInfo := .ofBuffers bufs
  freeBuffersCycleEnd := []
  scheduledOpsResources := []

def runLinearScan (maxMemSize : ℕ) (ops : List (ExecuteOp V)) (depsInfo : AsyncDepsInfo) :
    Option (Scan V × AsyncDepsInfo) := do
  guard (0 < maxMemSize)
  let scan ← init maxMemSize [] fun val => (bufs.staticOffset val).getD InvalidAddress
  let st ← ops.foldlM (processOp bufs order) (start bufs scan)
  let st ← freeRemaining bufs st
  let controlEdges ← generateControlEdges st.scheduledOpsResources
  let cycle := fun (get : ExecuteOp V → ℕ) index =>
    ((ops.find? fun op => op.index = index).map get).getD 0
  return (st.scan, updateControlEdgesInDepsInfo (cycle ExecuteOp.cycleBegin)
    (cycle ExecuteOp.cycleEnd) depsInfo controlEdges)

end Steps

end StaticAllocation

end Vpux.Memory
