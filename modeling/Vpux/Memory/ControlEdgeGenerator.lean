import Mathlib.Algebra.Group.Nat.Defs
import Mathlib.Data.Set.Insert
import Mathlib.Logic.Relation
import Mathlib.Order.Interval.Set.Defs
import Vpux.Data.DisjointIntervalSet

/-! Hazard tracking, address by address. Each address remembers its last producer and the
consumers since then; a new access is ordered after those of them it conflicts with.
That is enough to order every pair of conflicting accesses, however far apart. -/
namespace Vpux.Memory

section Hazard
open Relation

variable {α ι : Type*}

/-- One access of an operation to a set of addresses. -/
structure Access (α ι : Type*) where
  op : ι
  addresses : Set α
  produces : Prop

/-- Two accesses conflict when they share an address and one of them produces. -/
def Access.Conflicts (u v : Access α ι) : Prop :=
  (∃ x, x ∈ u.addresses ∧ x ∈ v.addresses) ∧ (u.produces ∨ v.produces)

/-- Who owns an address. -/
structure Owner (ι : Type*) where
  producer : ι
  consumers : Set ι

/-- The operations a new access of the address has to wait for. -/
def Owner.Blocks (o : Owner ι) (produces : Prop) (s : ι) : Prop :=
  (s ∈ o.consumers ∧ produces) ∨ (s = o.producer ∧ (produces → o.consumers = ∅))

open Classical in
/-- The owner after the access. -/
noncomputable def Owner.next (o : Owner ι) (u : Access α ι) : Owner ι :=
  if u.produces then ⟨u.op, ∅⟩ else ⟨o.producer, insert u.op o.consumers⟩

open Classical in
/-- The owners after the access. The first access of an address becomes its producer. -/
noncomputable def advance (front : α → Option (Owner ι)) (u : Access α ι) (x : α) :
    Option (Owner ι) :=
  if x ∈ u.addresses then
    match front x with
    | none => some ⟨u.op, ∅⟩
    | some o => some (o.next u)
  else front x

/-- The control edges of one access. -/
def EdgesFor (front : α → Option (Owner ι)) (u : Access α ι) (s t : ι) : Prop :=
  t = u.op ∧ ∃ x ∈ u.addresses, ∃ o, front x = some o ∧ o.Blocks u.produces s

/-- The state after a list of accesses: owners and edges so far. -/
structure Tracked (past : List (Access α ι)) (front : α → Option (Owner ι)) (r : ι → ι → Prop) :
    Prop where
  /-- An access is behind the producer of each of its addresses, or listed with it. -/
  owned : ∀ u ∈ past, ∀ x ∈ u.addresses, ∃ o, front x = some o ∧
    (ReflTransGen r u.op o.producer ∨ (¬ u.produces ∧ u.op ∈ o.consumers))
  fed : ∀ x o, front x = some o → ∀ c ∈ o.consumers, r o.producer c
  ordered : past.Pairwise fun u v => u.Conflicts v → TransGen r u.op v.op

theorem Tracked.nil : Tracked ([] : List (Access α ι)) (fun _ => none) fun _ _ => False where
  owned := by simp
  fed := by simp
  ordered := .nil

section Step

variable {past : List (Access α ι)} {front : α → Option (Owner ι)} {r r' : ι → ι → Prop}

variable (h : Tracked past front r) (v : Access α ι) (hr : ∀ s t, r s t → r' s t)
  (hv : ∀ s t, EdgesFor front v s t → r' s t)
include h v hr hv

theorem Tracked.reaches {u : Access α ι} (hu : u ∈ past) {x : α} (hux : x ∈ u.addresses)
    (hvx : x ∈ v.addresses) (hp : u.produces ∨ v.produces) : TransGen r' u.op v.op := by
  obtain ⟨o, ho, hown⟩ := h.owned u hu x hux
  have hedge : ∀ s, o.Blocks v.produces s → r' s v.op :=
    fun s hs => hv s v.op ⟨rfl, x, hvx, o, ho, hs⟩
  have hlift : ∀ {s t}, ReflTransGen r s t → ReflTransGen r' s t :=
    fun hst => ReflTransGen.mono hr _ _ hst
  rcases hown with hreach | ⟨hnp, hcons⟩
  · by_cases hblock : v.produces → o.consumers = ∅
    · exact TransGen.tail' (hlift hreach) (hedge o.producer (Or.inr ⟨rfl, hblock⟩))
    · -- the new producer waits for a consumer, which waits for the old producer
      rw [Classical.not_imp] at hblock
      obtain ⟨hvp, hne⟩ := hblock
      obtain ⟨c, hc⟩ := Set.nonempty_iff_ne_empty.mpr hne
      have hpc : r' o.producer c := hr _ _ (h.fed x o ho c hc)
      exact (TransGen.tail' (hlift hreach) hpc).tail (hedge c (Or.inl ⟨hc, hvp⟩))
  · exact .single (hedge u.op (Or.inl ⟨hcons, hp.resolve_left hnp⟩))

theorem Tracked.step :
    Tracked (past ++ [v]) (advance front v) r' where
  owned u hu x hx := by
    rcases List.mem_append.mp hu with hu | hu
    · obtain ⟨o, ho, hown⟩ := h.owned u hu x hx
      by_cases hvx : x ∈ v.addresses
      · refine ⟨o.next v, by rw [advance, if_pos hvx, ho], ?_⟩
        unfold Owner.next
        split_ifs with hvp
        · exact Or.inl (h.reaches v hr hv hu hx hvx (Or.inr hvp)).to_reflTransGen
        · rcases hown with hreach | ⟨hnp, hcons⟩
          · exact Or.inl (ReflTransGen.mono hr _ _ hreach)
          · exact Or.inr ⟨hnp, Set.mem_insert_of_mem _ hcons⟩
      · refine ⟨o, by rw [advance, if_neg hvx, ho], ?_⟩
        rcases hown with hreach | hcons
        · exact Or.inl (ReflTransGen.mono hr _ _ hreach)
        · exact Or.inr hcons
    · obtain rfl := List.mem_singleton.mp hu
      cases ho : front x with
      | none => exact ⟨⟨u.op, ∅⟩, by rw [advance, if_pos hx, ho], Or.inl .refl⟩
      | some o =>
        refine ⟨o.next u, by rw [advance, if_pos hx, ho], ?_⟩
        unfold Owner.next
        split_ifs with hup
        · exact Or.inl .refl
        · exact Or.inr ⟨hup, Set.mem_insert _ _⟩
  fed x o ho c hc := by
    by_cases hvx : x ∈ v.addresses
    · rw [advance, if_pos hvx] at ho
      cases hfx : front x with
      | none =>
        rw [hfx] at ho
        obtain rfl := Option.some.inj ho
        simp at hc
      | some o' =>
        rw [hfx] at ho
        obtain rfl := Option.some.inj ho
        unfold Owner.next at hc ⊢
        split_ifs at hc ⊢ with hvp
        · simp at hc
        · rcases Set.mem_insert_iff.mp hc with rfl | hc
          · exact hv _ _ ⟨rfl, x, hvx, o', hfx, Or.inr ⟨rfl, fun hp => absurd hp hvp⟩⟩
          · exact hr _ _ (h.fed x o' hfx c hc)
    · rw [advance, if_neg hvx] at ho
      exact hr _ _ (h.fed x o ho c hc)
  ordered := by
    rw [List.pairwise_append]
    refine ⟨h.ordered.imp fun hc hconf => TransGen.mono hr _ _ (hc hconf),
      List.pairwise_singleton _ _, fun u hu w hw hconf => ?_⟩
    obtain rfl := List.mem_singleton.mp hw
    obtain ⟨⟨x, hux, hwx⟩, hp⟩ := hconf
    exact h.reaches w hr hv hu hux hwx hp

end Step

end Hazard

-- Control edges between the operations that use overlapping ranges of a memory.
section ControlEdgeGenerator
open Relation Data

inductive EResRelation
  | PRODUCER | CONSUMER
  deriving DecidableEq

/-- A use of an address range by an operation. Addresses are `size_t` values. -/
structure ScheduledOpOneResource where
  op : ℕ
  addressStart : ℕ
  addressEnd : ℕ
  resRelation : EResRelation
  addressStart_lt : addressStart < 2 ^ 64
  addressEnd_lt : addressEnd < 2 ^ 64
  deriving DecidableEq

namespace ScheduledOpOneResource

/-- `operator=`, which leaves the resource relation alone -/
def assign (a o : ScheduledOpOneResource) : ScheduledOpOneResource :=
  { o with resRelation := a.resRelation }

/-- `operator==` -/
def eq (a o : ScheduledOpOneResource) : Bool :=
  a.op = o.op ∧ a.addressStart = o.addressStart ∧ a.addressEnd = o.addressEnd

/-- `operator<` -/
def lt (a o : ScheduledOpOneResource) : Bool :=
  if a.addressStart = o.addressStart ∧ a.addressEnd = o.addressEnd then a.op < o.op
  else if a.addressStart ≠ o.addressStart then a.addressStart < o.addressStart
  else a.addressEnd < o.addressEnd

def isIntervalProducer (a : ScheduledOpOneResource) : Bool := a.resRelation = .PRODUCER

/-- `std::set::insert`: an equivalent element stays. -/
def setInsert : List ScheduledOpOneResource → ScheduledOpOneResource → List ScheduledOpOneResource
  | [], r => [r]
  | c :: cs, r => if r.lt c then r :: c :: cs else if c.lt r then c :: setInsert cs r else c :: cs

/-- The use as an access to the addresses of its range. -/
def access (a : ScheduledOpOneResource) : Access ℕ ℕ where
  op := a.op
  addresses := Set.Icc a.addressStart a.addressEnd
  produces := a.resRelation = .PRODUCER

end ScheduledOpOneResource

open ScheduledOpOneResource

/-- The producer of an interval and its consumers so far, a `std::set` in order. -/
structure ProdConsType where
  producer : ScheduledOpOneResource
  consumers : List ScheduledOpOneResource

namespace ProdConsType

/-- `operator==` -/
def eq (p o : ProdConsType) : Bool :=
  p.producer.eq o.producer && (p.consumers.length = o.consumers.length &&
    (p.consumers.zip o.consumers).all fun c => c.1.eq c.2)

def newProducer (p : ProdConsType) (prod : ScheduledOpOneResource) : ProdConsType :=
  { producer := p.producer.assign prod, consumers := [] }

def addConsumer (p : ProdConsType) (cons : ScheduledOpOneResource) : ProdConsType :=
  { p with consumers := setInsert p.consumers cons }

/-- The owner that the interval gives its addresses. -/
def owner (p : ProdConsType) : Owner ℕ where
  producer := p.producer.op
  consumers := {c | ∃ a ∈ p.consumers, a.op = c}

end ProdConsType

structure ControlEdge where
  source : ℕ
  sink : ℕ
  deriving DecidableEq

def intersects (abeg aend bbeg bend : ℕ) : Bool := max abeg bbeg ≤ min aend bend

def isSubset (abeg aend bbeg bend : ℕ) : Bool :=
  if max abeg bbeg > min aend bend then false
  else max abeg bbeg = abeg && min aend bend = aend

/-- The intervals that `intervalXor` leaves in its two arrays; `--` and `++` wrap around. -/
def intervalXor (abeg aend bbeg bend : ℕ) : List (ℕ × ℕ) :=
  if !intersects abeg aend bbeg bend then [(abeg, aend), (bbeg, bend)]
  else
    let obeg := (max abeg bbeg + (2 ^ 64 - 1)) % 2 ^ 64
    let oend := (min aend bend + 1) % 2 ^ 64
    let ubeg := min abeg bbeg
    let uend := max aend bend
    (if ubeg ≤ obeg ∧ obeg < min aend bend then [(ubeg, obeg)] else []) ++
      (if oend ≤ uend ∧ max abeg bbeg < oend then [(oend, uend)] else [])

namespace ControlEdgeGenerator

abbrev IntervalTree := EndPointTree ProdConsType

/-- The variables of `processNextInterval` that its loop changes. -/
structure Overlap where
  intervalTree : IntervalTree
  qitr : EndPointTree.IntervalIterator
  currRemBeg : ℕ
  currRemEnd : ℕ
  edges : List ControlEdge

variable (currInterval : ScheduledOpOneResource)

/-- The edges to the current interval from the owners of one that it overlaps. -/
def outputDependency (q : ProdConsType) : List ControlEdge :=
  if currInterval.isIntervalProducer then
    if q.consumers.isEmpty then [⟨q.producer.op, currInterval.op⟩]
    else q.consumers.map fun cons => ⟨cons.op, currInterval.op⟩
  else [⟨q.producer.op, currInterval.op⟩]

def newProdCons (q : ProdConsType) : ProdConsType :=
  if currInterval.isIntervalProducer then q.newProducer currInterval
  else q.addConsumer currInterval

section Pieces

variable (currRemBeg currRemEnd : ℕ) (q : ProdConsType)

/-- The owners of a piece outside the intersection. -/
def resultVal (r : ℕ × ℕ) : ProdConsType :=
  if isSubset r.1 r.2 currRemBeg currRemEnd then ⟨currInterval, []⟩ else q

/-- The piece below the intersection goes in; the ones that are not looked at yet stay. -/
def insertBelow (tree : IntervalTree) (interBeg : ℕ) :
    List (ℕ × ℕ) → IntervalTree × List (ℕ × ℕ)
  | [] => (tree, [])
  | r :: rs =>
    if r.2 < interBeg then
      ((tree.insert r.1 r.2 (resultVal currInterval currRemBeg currRemEnd q r)).1, rs)
    else (tree, r :: rs)

/-- The piece above the intersection goes in, or it is what is left of the current interval.
The range from the largest to the least `size_t` value says that nothing is left. -/
def insertAbove (tree : IntervalTree) : List (ℕ × ℕ) → IntervalTree × ℕ × ℕ
  | [] => (tree, 2 ^ 64 - 1, 0)
  | r :: _ =>
    if !isSubset r.1 r.2 currRemBeg currRemEnd then
      ((tree.insert r.1 r.2 (resultVal currInterval currRemBeg currRemEnd q r)).1, 2 ^ 64 - 1, 0)
    else (tree, r.1, r.2)

/-- The intersection goes in with the pieces around it. -/
def insertPieces (tree : IntervalTree) (interBeg interEnd : ℕ) (results : List (ℕ × ℕ)) :
    IntervalTree × ℕ × ℕ :=
  let inter := newProdCons currInterval q
  if results.isEmpty then ((tree.insert interBeg interEnd inter).1, 2 ^ 64 - 1, 0)
  else
    let below := insertBelow currInterval currRemBeg currRemEnd q tree interBeg results
    let tree := (below.1.insert interBeg interEnd inter).1
    insertAbove currInterval currRemBeg currRemEnd q tree below.2

end Pieces

/-- One round of the loop, over the overlap with the interval `[qbeg, qend]` of `q`. -/
def processOverlap (s : Overlap) (qbeg qend : ℕ) (q : ProdConsType) : Overlap :=
  let qitrNext := s.intervalTree.next s.qitr
  let tree := (s.intervalTree.erase qbeg qend).1
  let interBeg := max s.currRemBeg qbeg
  let interEnd := min s.currRemEnd qend
  let results := intervalXor qbeg qend s.currRemBeg s.currRemEnd
  let pieces := insertPieces currInterval s.currRemBeg s.currRemEnd q tree interBeg interEnd results
  { intervalTree := pieces.1
    qitr := qitrNext
    currRemBeg := pieces.2.1
    currRemEnd := pieces.2.2
    edges := s.edges ++ outputDependency currInterval q }

/-- The loop over the overlaps, with a bound on its rounds. -/
def overlapLoop : ℕ → Overlap → Option Overlap
  | 0, _ => none
  | fuel + 1, s =>
    if s.qitr.isEnd then some s
    else do
      let (qbeg, qend, q) ← s.intervalTree.current s.qitr
      if intersects qbeg qend s.currRemBeg s.currRemEnd then
        overlapLoop fuel (processOverlap currInterval s qbeg qend q)
      else some s

/-- The trailing part of the current interval goes in as its own producer. -/
def insertTrailing (s : Overlap) : IntervalTree :=
  if s.currRemBeg ≤ s.currRemEnd then
    (s.intervalTree.insert s.currRemBeg s.currRemEnd ⟨currInterval, []⟩).1
  else s.intervalTree

/-- The loop of `mergeAbuttingIntervals`, with a bound on its rounds. -/
def abuttingLoop : ℕ → IntervalTree → EndPointTree.IntervalIterator → ℕ → Option (IntervalTree × ℕ)
  | 0, _, _, _ => none
  | fuel + 1, tree, qitr, prevRightEnd =>
    if qitr.isEnd then some (tree, prevRightEnd)
    else do
      let (qbeg, qend, q) ← tree.current qitr
      if q.eq ⟨currInterval, []⟩ ∧ (prevRightEnd + 1) % 2 ^ 64 = qbeg then
        abuttingLoop fuel (tree.erase qbeg qend).1 (tree.next qitr) qend
      else some (tree, prevRightEnd)

/-- The result is `none` where the code throws or reads past the end of the tree. -/
def mergeAbuttingIntervals (tree : IntervalTree) : Option IntervalTree :=
  if !currInterval.isIntervalProducer then none
  else
    let qitrStart := tree.query currInterval.addressStart currInterval.addressEnd
    if qitrStart.isEnd then some tree
    else do
      let (prevLeftEnd, qend, q) ← tree.current qitrStart
      if !q.eq ⟨currInterval, []⟩ then some tree
      else
        let (tree', prevRightEnd) ←
          abuttingLoop currInterval (tree.length + 1) tree (tree.next qitrStart) qend
        let (startBeg, startEnd, _) ← tree'.current qitrStart
        if prevRightEnd > startEnd then
          some ((tree'.erase startBeg startEnd).1.insert prevLeftEnd prevRightEnd
            ⟨currInterval, []⟩).1
        else some tree'

def processNextInterval (tree : IntervalTree) : Option (IntervalTree × List ControlEdge) := do
  let currBeg := currInterval.addressStart
  let currEnd := currInterval.addressEnd
  let s ← overlapLoop currInterval (tree.length + 1)
    ⟨tree, tree.query currBeg currEnd, currBeg, currEnd, []⟩
  let tree' := insertTrailing currInterval s
  if currInterval.isIntervalProducer then
    let merged ← mergeAbuttingIntervals currInterval tree'
    return (merged, s.edges)
  else return (tree', s.edges)

end ControlEdgeGenerator

open ControlEdgeGenerator

/-- The edges given to the output functor, in order; their number is what the code returns. -/
def generateControlEdges (uses : List ScheduledOpOneResource) : Option (List ControlEdge) := do
  let last ← uses.foldlM (fun (s : IntervalTree × List ControlEdge) currInterval =>
    if currInterval.addressStart > currInterval.addressEnd then some s
    else do
      let (tree, edges) ← processNextInterval currInterval s.1
      return (tree, s.2 ++ edges)) ([], [])
  return last.2

end ControlEdgeGenerator

end Vpux.Memory
