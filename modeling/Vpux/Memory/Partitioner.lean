import Vpux.Data.Spans
import Mathlib.Data.List.Range
import Mathlib.Data.Nat.ModEq

/-! A partitioner of a contiguous memory: the gaps that are left, best-fit allocation from
them, and the coalescing release. Addresses are 64-bit; an assertion on the arguments of a
call that fails gives `none`. -/
namespace Vpux.Memory
open Data

/-- Addresses are 64-bit. -/
def wordSize : ℕ := 2 ^ 64

/-- `+` and `-` of addresses, which wrap. -/
def add64 (a b : ℕ) : ℕ := (a + b) % wordSize

def sub64 (a b : ℕ) : ℕ := (a + (wordSize - b % wordSize)) % wordSize

def InvalidAddress : ℕ := wordSize - 1

/-- `lo` and `hi` are `begin` and `end`. -/
abbrev Gap := Span ℕ

def Gap.size (g : Gap) : ℕ := sub64 g.hi g.lo

inductive Direction
  | Up | Down
  deriving DecidableEq

/-- `alignValUp` for an unsigned type. -/
def alignValUp (val align : ℕ) : ℕ := add64 val (align - 1) / align * align

@[ext] structure Partitioner where
  totalSize : ℕ
  gaps : List Gap
  deriving DecidableEq

namespace Partitioner

def init (totalSize : ℕ) : Partitioner := ⟨totalSize, [⟨0, totalSize⟩]⟩

def intersects (addr1 size1 addr2 size2 : ℕ) : Option Bool := do
  guard (0 < size1)
  guard (0 < size2)
  let end1 := add64 addr1 size1
  let end2 := add64 addr2 size2
  let inRange (first last val : ℕ) : Bool := first ≤ val ∧ val < last
  return inRange addr1 end1 addr2 || inRange addr1 end1 (sub64 end2 1) ||
    inRange addr2 end2 addr1 || inRange addr2 end2 (sub64 end1 1)

section Alloc

variable (size alignment : ℕ) (dir : Direction)

def getAddrFromGap (g : Gap) : ℕ :=
  if Gap.size g < size then InvalidAddress else
    match dir with
    | .Up =>
      let alignedBegin := alignValUp g.lo alignment
      if g.hi < add64 alignedBegin size then InvalidAddress else alignedBegin
    | .Down =>
      let alignedBegin := alignValUp (sub64 g.hi size) alignment
      if g.hi < add64 alignedBegin size then
        if alignedBegin < add64 g.lo alignment then InvalidAddress
        else
          let alignedBegin := sub64 alignedBegin alignment
          if g.hi < add64 alignedBegin size then InvalidAddress else alignedBegin
      else alignedBegin

/-- One pass of the loop over the gaps; `minGapInd` is `none` for -1. -/
def considerGap (gaps : List Gap) (best : Option ℕ × ℕ) (i : ℕ) :
    Option ℕ × ℕ :=
  match gaps[i]? with
  | none => best
  | some g =>
    if getAddrFromGap size alignment dir g ≠ InvalidAddress ∧ Gap.size g < best.2 then
      (some i, Gap.size g)
    else best

/-- The indices the loop visits, all but the last gap in the direction. -/
def preferredGaps (numGaps : ℕ) : List ℕ :=
  match dir with
  | .Up => List.range (numGaps - 1)
  | .Down => (List.range' 1 (numGaps - 1)).reverse

/-- The gap that is checked when no other is suitable. -/
def lastGap (numGaps : ℕ) : ℕ :=
  match dir with
  | .Up => numGaps - 1
  | .Down => 0

/-- The index after the loop. -/
def preferredGap (gaps : List Gap) : Option ℕ :=
  ((preferredGaps dir gaps.length).foldl (considerGap size alignment dir gaps)
    (none, wordSize - 1)).1

def minGapInd (gaps : List Gap) : Option ℕ :=
  match preferredGap size alignment dir gaps with
  | some i => some i
  | none =>
    match gaps[lastGap dir gaps.length]? with
    | none => none
    | some g =>
      if getAddrFromGap size alignment dir g ≠ InvalidAddress then some (lastGap dir gaps.length)
      else none

end Alloc

def useGap (gaps : List Gap) (pos : ℕ) (alignedBegin size : ℕ) : Option (List Gap) := do
  let g ← gaps[pos]?
  guard (g.lo ≤ alignedBegin)
  guard (add64 alignedBegin size ≤ g.hi)
  let newGapLeft := sub64 alignedBegin g.lo
  let newGapRight := sub64 g.hi (add64 alignedBegin size)
  if newGapLeft = 0 ∧ newGapRight = 0 then gaps.eraseIdx pos
  else if 0 < newGapLeft ∧ newGapRight = 0 then gaps.set pos { g with hi := alignedBegin }
  else if newGapLeft = 0 ∧ 0 < newGapRight then
    gaps.set pos { g with lo := add64 alignedBegin size }
  else
    (gaps.set pos { g with lo := add64 alignedBegin size }).insertIdx pos ⟨g.lo, alignedBegin⟩

/-- The partitioner after the call and the address, `InvalidAddress` when no gap is suitable. -/
def chooseMinimalGap (p : Partitioner) (size alignment : ℕ) (dir : Direction) :
    Option (Partitioner × ℕ) :=
  match minGapInd size alignment dir p.gaps with
  | none => some (p, InvalidAddress)
  | some i => do
    let g ← p.gaps[i]?
    let alignedBegin := getAddrFromGap size alignment dir g
    let gaps ← useGap p.gaps i alignedBegin size
    some ({ p with gaps := gaps }, alignedBegin)

def alloc (p : Partitioner) (size alignment : ℕ) (dir : Direction) :
    Option (Partitioner × ℕ) := do
  guard (0 < size)
  guard (0 < alignment)
  p.chooseMinimalGap size alignment dir

/-- The range begins inside the gap before `it`. -/
def allocInside (p : Partitioner) (it : ℕ) (addr size : ℕ) : Option Partitioner := do
  guard (it ≠ 0)
  let elem ← p.gaps[it - 1]?
  let last := add64 addr size
  guard (elem.lo < addr)
  guard (last ≤ elem.hi)
  if elem.hi = last then return { p with gaps := p.gaps.set (it - 1) { elem with hi := addr } }
  else
    let tailSize := sub64 elem.hi last
    guard (0 < tailSize)
    let tail : Gap := ⟨last, add64 last tailSize⟩
    return { p with gaps := (p.gaps.set (it - 1) { elem with hi := addr }).insertIdx it tail }

def allocFixed (p : Partitioner) (addr size : ℕ) : Option Partitioner := do
  guard (addr ≠ InvalidAddress)
  guard (0 < size)
  guard (add64 addr size ≤ p.totalSize)
  guard (p.gaps ≠ [])
  -- `std::lower_bound`: the first gap that does not begin below `addr`
  let it := p.gaps.findIdx fun g => addr ≤ g.lo
  match p.gaps[it]? with
  | some elem =>
    if elem.lo = addr then
      guard (size ≤ Gap.size elem)
      if Gap.size elem = size then return { p with gaps := p.gaps.eraseIdx it }
      else return { p with gaps := p.gaps.set it { elem with lo := add64 elem.lo size } }
    else p.allocInside it addr size
  | none => p.allocInside it addr size

section Free

variable (addr size : ℕ)

def prepend (gap : Gap) (size : ℕ) : Gap := { gap with lo := sub64 gap.lo size }

def append (gap : Gap) (size : ℕ) : Gap := { gap with hi := add64 gap.hi size }

/-- The loop over neighbouring gaps; `none` when the range is between no two of them. -/
def freeBetween : List Gap → Option (List Gap)
  | gap :: nextGap :: gaps =>
    let last := add64 addr size
    if gap.hi ≤ addr ∧ last ≤ nextGap.lo then
      some <|
        if addr = gap.hi then
          if last = nextGap.lo then append gap (add64 size (Gap.size nextGap)) :: gaps
          else append gap size :: nextGap :: gaps
        else if last = nextGap.lo then gap :: prepend nextGap size :: gaps
        else gap :: ⟨addr, last⟩ :: nextGap :: gaps
    else (freeBetween (nextGap :: gaps)).map (gap :: ·)
  | _ => none

/-- The four cases at the last gap. -/
def freeAtLast : List Gap → List Gap
  | [] => []
  | [lastGap] =>
    let last := add64 addr size
    if last < lastGap.lo then [⟨addr, last⟩, lastGap]
    else if last = lastGap.lo then [prepend lastGap size]
    else if addr = lastGap.hi then [append lastGap size]
    else [lastGap, ⟨addr, last⟩]
  | gap :: gaps => gap :: freeAtLast gaps

def freeGaps : List Gap → List Gap
  | [] => [⟨addr, add64 addr size⟩]
  | firstGap :: gaps =>
    let last := add64 addr size
    if last = firstGap.lo then prepend firstGap size :: gaps
    else if last < firstGap.lo then ⟨addr, last⟩ :: firstGap :: gaps
    else
      (freeBetween addr size (firstGap :: gaps)).getD (freeAtLast addr size (firstGap :: gaps))

end Free

def free (p : Partitioner) (addr size : ℕ) : Option Partitioner := do
  guard (addr ≠ InvalidAddress)
  guard (0 < size)
  guard (∀ gap ∈ p.gaps, intersects addr size gap.lo (Gap.size gap) = some false)
  return { p with gaps := freeGaps addr size p.gaps }

section Validator

/-- What `PartitionerValidator` asserts when a call begins and when it ends. A word that is not
`InvalidAddress` is below it. -/
def Validates (p : Partitioner) : Prop :=
  (∀ g ∈ p.gaps, g.lo < InvalidAddress ∧ g.hi < InvalidAddress ∧ g.lo < g.hi) ∧
    p.gaps.IsChain fun prev g => prev.hi ≤ g.lo

instance (p : Partitioner) : Decidable p.Validates := inferInstanceAs (Decidable (_ ∧ _))

/-- The calls of a build with assertions. -/
def allocValidated (p : Partitioner) (size alignment : ℕ) (dir : Direction) :
    Option (Partitioner × ℕ) := do
  guard p.Validates
  let (p', addr) ← p.alloc size alignment dir
  guard p'.Validates
  return (p', addr)

def allocFixedValidated (p : Partitioner) (addr size : ℕ) : Option Partitioner := do
  guard p.Validates
  let p' ← p.allocFixed addr size
  guard p'.Validates
  return p'

def freeValidated (p : Partitioner) (addr size : ℕ) : Option Partitioner := do
  guard p.Validates
  let p' ← p.free addr size
  guard p'.Validates
  return p'

end Validator

end Partitioner

end Vpux.Memory
