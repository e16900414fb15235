import Vpux.Memory.Partitioner

/-! Linear scan: live ranges of a contiguous memory. New ranges are placed at a fixed address
or wherever the partitioner finds room, live ranges are spilled when there is none. -/
namespace Vpux.Memory

/-- What the handler of the scan is told. -/
inductive Event (R : Type)
  | allocated (range : R) (addr : ℕ)
  | freed (range : R)
  | spilled (range : R)
  deriving DecidableEq

/-- The answers of a handler. Whether it spills a range may depend on what it was told. -/
structure Handler (R : Type) where
  isFixedAlloc : R → Bool
  getSize : R → ℕ
  getAlignment : R → ℕ
  getSpillWeight : R → ℤ
  spilled : List (Event R) → R → Bool
  checkInvariantExceedingNNCMX : R → ℕ → ℕ → Bool
  getSize_lt : ∀ r, getSize r < wordSize

/-- A scan with its handler's address table and what the handler was told so far. -/
structure Scan (R : Type) where
  par : Partitioner
  liveRanges : List R
  address : R → ℕ
  told : List (Event R)

/-- `AllocatedAddrs`: address and size of a new range, by its place in the request. -/
abbrev AllocatedAddrs := List (ℕ × ℕ × ℕ)

namespace LinearScan

variable {R : Type} [DecidableEq R] (h : Handler R)

def init (size : ℕ) (reserved : List (ℕ × ℕ)) (address : R → ℕ) : Option (Scan R) := do
  let par ← reserved.foldlM (fun (par : Partitioner) r =>
    par.allocFixedValidated r.1 r.2) (Partitioner.init size)
  return ⟨par, [], address, []⟩

/-- `_handler.allocated` -/
def allocated (s : Scan R) (range : R) (addr : ℕ) : Scan R :=
  { s with address := Function.update s.address range addr
           told := s.told ++ [.allocated range addr] }

def freed (s : Scan R) (range : R) : Scan R := { s with told := s.told ++ [.freed range] }

/-- `_handler.spilled`, with its answer. -/
def spilled (s : Scan R) (range : R) : Bool × Scan R :=
  (h.spilled s.told range, { s with told := s.told ++ [.spilled range] })

/-- `*it = _liveRanges.back(); _liveRanges.pop_back();` -/
def removeAt (ranges : List R) (it : ℕ) : List R :=
  match ranges.getLast? with
  | none => []
  | some back => (ranges.set it back).dropLast

def freeLiveRange (s : Scan R) (it : ℕ) : Option (Scan R) := do
  let range ← s.liveRanges[it]?
  let par ← s.par.freeValidated (s.address range) (h.getSize range)
  return freed { s with par := par, liveRanges := removeAt s.liveRanges it } range

/-- The loop from the iterator `it` on; the first argument bounds its steps. -/
def freeNonAliveFrom (isAlive : List (Event R) → R → Bool) :
    ℕ → ℕ → Scan R → Option (Scan R)
  | 0, _, s => some s
  | fuel + 1, it, s =>
    match s.liveRanges[it]? with
    | none => some s
    | some range =>
      if !isAlive s.told range then do
        let s' ← freeLiveRange h s it
        freeNonAliveFrom isAlive fuel it s'
      else freeNonAliveFrom isAlive fuel (it + 1) s

/-- Each step removes a range or goes past one. -/
def freeNonAlive (isAlive : List (Event R) → R → Bool) (s : Scan R) : Option (Scan R) :=
  freeNonAliveFrom h isAlive s.liveRanges.length 0 s

/-- `std::min_element` over the spill weights. -/
def minElement (ranges : List R) : ℕ :=
  ranges.findIdx fun r => ranges.all fun r' => h.getSpillWeight r ≤ h.getSpillWeight r'

/-- The candidate is out of the live ranges and its memory is free. -/
def getSpillCandidate (s : Scan R) : Option (Option R × Scan R) :=
  let it := minElement h s.liveRanges
  match s.liveRanges[it]? with
  | none => some (none, s)
  | some spillCandidate => do
    let par ← s.par.freeValidated (s.address spillCandidate) (h.getSize spillCandidate)
    return (some spillCandidate, { s with par := par, liveRanges := removeAt s.liveRanges it })

/-- Spills the candidates that conflict with the new range; the others get their memory back. -/
def performActualSpill (newRangeAddr newRangeSize : ℕ) :
    List R → Scan R → Option (Bool × Scan R)
  | [], s => some (true, s)
  | spillCandidate :: spillCandidates, s => do
    let spilledAddr := s.address spillCandidate
    let spilledSize := h.getSize spillCandidate
    if ← Partitioner.intersects spilledAddr spilledSize newRangeAddr newRangeSize then
      let (ok, s') := spilled h s spillCandidate
      if !ok then return (false, s')
      else performActualSpill newRangeAddr newRangeSize spillCandidates (freed s' spillCandidate)
    else
      let par ← s.par.allocFixedValidated spilledAddr spilledSize
      let s' := allocated { s with par := par } spillCandidate spilledAddr
      performActualSpill newRangeAddr newRangeSize spillCandidates
        { s' with liveRanges := s'.liveRanges ++ [spillCandidate] }

/-- Frees what was allocated, in the order `order` of the hash table. -/
def rollback (order : AllocatedAddrs → AllocatedAddrs) (allocatedAddrs : AllocatedAddrs)
    (s : Scan R) : Option (Scan R) := do
  let par ← (order allocatedAddrs).foldlM (fun (par : Partitioner) p =>
    if p.2.1 = InvalidAddress then some par else par.freeValidated p.2.1 p.2.2) s.par
  return { s with par := par }

/-- The test of a fixed range against the live ranges. -/
def canAllocFixed (newRangeAddr newRangeSize : ℕ) (s : Scan R) : List R → Option Bool
  | [] => some true
  | prevRange :: ranges => do
    if ← Partitioner.intersects newRangeAddr newRangeSize (s.address prevRange)
        (h.getSize prevRange) then
      return false
    else canAllocFixed newRangeAddr newRangeSize s ranges

/-- The loop that makes room for a range. `place` is what is tried first in each round; the
first argument bounds the rounds. The answer is `none` when there is nothing left to spill. -/
def makeRoom {A : Type} (place : Scan R → Option (Option (Scan R × A))) (allowSpills : Bool) :
    ℕ → Scan R → List R → Option (Option A × Scan R × List R)
  | 0, _, _ => none
  | fuel + 1, s, spillCandidates => do
    match ← place s with
    | some (s', a) => return (some a, s', spillCandidates)
    | none =>
      if !allowSpills then return (none, s, spillCandidates)
      else
        match ← getSpillCandidate h s with
        | (none, s') => return (none, s', spillCandidates)
        | (some c, s') => makeRoom place allowSpills fuel s' (spillCandidates ++ [c])

/-- The test of a round for a fixed range. -/
def placeFixed (newRangeAddr newRangeSize : ℕ) (s : Scan R) : Option (Option (Scan R × Unit)) := do
  if ← canAllocFixed h newRangeAddr newRangeSize s s.liveRanges then return some (s, ())
  else return none

/-- The allocation of a round for a plain range. -/
def placePlain (newRangeSize newRangeAlignment : ℕ) (dir : Direction) (s : Scan R) :
    Option (Option (Scan R × ℕ)) := do
  let (par, newRangeAddr) ← s.par.allocValidated newRangeSize newRangeAlignment dir
  if newRangeAddr ≠ InvalidAddress then return some ({ s with par := par }, newRangeAddr)
  else return none

variable (order : AllocatedAddrs → AllocatedAddrs)

def allocFixedRange (newRange : R) (i : ℕ) (allowSpills : Bool) (s : Scan R)
    (allocatedAddrs : AllocatedAddrs) : Option (Bool × Scan R × AllocatedAddrs) := do
  let newRangeAddr := s.address newRange
  let newRangeSize := h.getSize newRange
  guard (newRangeAddr ≠ InvalidAddress)
  match ← makeRoom h (placeFixed h newRangeAddr newRangeSize) allowSpills
      (s.liveRanges.length + 1) s [] with
  | (none, s, _) =>
    let s ← rollback order allocatedAddrs s
    return (false, s, allocatedAddrs)
  | (some (), s, spillCandidates) =>
    let (ok, s) ← performActualSpill h newRangeAddr newRangeSize spillCandidates s
    if !ok then
      let s ← rollback order allocatedAddrs s
      return (false, s, allocatedAddrs)
    else
      let par ← s.par.allocFixedValidated newRangeAddr newRangeSize
      return (true, { s with par := par }, (i, newRangeAddr, newRangeSize) :: allocatedAddrs)

def allocPlainRange (newRange : R) (i : ℕ) (allowSpills : Bool) (dir : Direction) (s : Scan R)
    (allocatedAddrs : AllocatedAddrs) : Option (Bool × Scan R × AllocatedAddrs) := do
  let newRangeSize := h.getSize newRange
  let newRangeAlignment := h.getAlignment newRange
  match ← makeRoom h (placePlain newRangeSize newRangeAlignment dir) allowSpills
      (s.liveRanges.length + 1) s [] with
  | (none, s, _) =>
    let s ← rollback order allocatedAddrs s
    return (false, s, allocatedAddrs)
  | (some newRangeAddr, s, spillCandidates) =>
    let (ok, s) ← performActualSpill h newRangeAddr newRangeSize spillCandidates s
    if !ok then
      let s ← rollback order allocatedAddrs s
      return (false, s, allocatedAddrs)
    else return (true, s, (i, newRangeAddr, newRangeSize) :: allocatedAddrs)

/-- One pass over new ranges, each with its place in the request; stops at the first failure. -/
def allocRanges
    (allocRange : R → ℕ → Scan R → AllocatedAddrs → Option (Bool × Scan R × AllocatedAddrs)) :
    List (R × ℕ) → Scan R → AllocatedAddrs → Option (Bool × Scan R × AllocatedAddrs)
  | [], s, allocatedAddrs => some (true, s, allocatedAddrs)
  | (newRange, i) :: newLiveRanges, s, allocatedAddrs => do
    let (ok, s, allocatedAddrs) ← allocRange newRange i s allocatedAddrs
    if !ok then return (false, s, allocatedAddrs)
    else allocRanges allocRange newLiveRanges s allocatedAddrs

/-- All requested ranges have memory now and become live. -/
def introduce (allocatedAddrs : AllocatedAddrs) : List (R × ℕ) → Scan R → Option (Scan R)
  | [], s => some s
  | (newRange, i) :: newLiveRanges, s => do
    let (_, addr, _) ← allocatedAddrs.find? fun p => p.1 = i
    guard (addr ≠ InvalidAddress)
    let s := allocated s newRange addr
    introduce allocatedAddrs newLiveRanges { s with liveRanges := s.liveRanges ++ [newRange] }

def alloc (newLiveRanges : List R) (allowSpills : Bool) (dir : Direction) (s : Scan R) :
    Option (Bool × Scan R) := do
  let (ok, s, allocatedAddrs) ← allocRanges
    (fun r i s al => allocFixedRange h order r i allowSpills s al)
    (newLiveRanges.zipIdx.filter fun r => h.isFixedAlloc r.1) s []
  if !ok then return (false, s)
  else
    let (ok, s, allocatedAddrs) ← allocRanges
      (fun r i s al => allocPlainRange h order r i allowSpills dir s al)
      (newLiveRanges.zipIdx.filter fun r => !h.isFixedAlloc r.1) s allocatedAddrs
    if !ok then return (false, s)
    else
      let s ← introduce allocatedAddrs newLiveRanges.zipIdx s
      return (true, s)

/-- The temporary allocations of `canAlloc`, oldest first. -/
def tempAlloc (dir : Direction) :
    List R → Partitioner → List (ℕ × ℕ) → Option (Bool × Partitioner × List (ℕ × ℕ))
  | [], par, temp => some (true, par, temp)
  | newRange :: newLiveRanges, par, temp => do
    let newRangeSize := h.getSize newRange
    let (par, allocAddr) ← par.allocValidated newRangeSize (h.getAlignment newRange) dir
    if allocAddr = InvalidAddress then return (false, par, temp)
    else
      let temp := temp ++ [(allocAddr, newRangeSize)]
      if h.checkInvariantExceedingNNCMX newRange allocAddr par.totalSize then
        return (false, par, temp)
      else tempAlloc dir newLiveRanges par temp

/-- A number of gaps that differs is thrown as an error. -/
def canAlloc (newLiveRanges : List R) (dir : Direction) (s : Scan R) : Option (Bool × Scan R) := do
  let gapCountBefore := s.par.gaps.length
  let (canAllocAll, par, temp) ← tempAlloc h dir newLiveRanges s.par []
  let par ← temp.foldlM (fun (par : Partitioner) p => par.freeValidated p.1 p.2) par
  guard (gapCountBefore = par.gaps.length)
  return (canAllocAll, { s with par := par })

end LinearScan

end Vpux.Memory
