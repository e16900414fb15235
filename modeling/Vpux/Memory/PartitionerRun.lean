import Vpux.Memory.PartitionerSpec

/-! Runs of a partitioner with the ranges its client holds. The gaps are at any time the
complement of these ranges. -/
namespace Vpux.Memory.Partitioner
open Data

inductive Request
  | alloc (size alignment : ℕ) (dir : Direction)
  | allocFixed (addr size : ℕ)
  | free (addr size : ℕ)

structure Client where
  partitioner : Partitioner
  allocated : List (ℕ × ℕ)
  deriving DecidableEq

def start (totalSize : ℕ) : Client := ⟨init totalSize, []⟩

def serve (c : Client) : Request → Option Client
  | .alloc size alignment dir => do
    let (p, addr) ← c.partitioner.alloc size alignment dir
    if addr = InvalidAddress then return ⟨p, c.allocated⟩
    else return ⟨p, (addr, size) :: c.allocated⟩
  | .allocFixed addr size => do
    let p ← c.partitioner.allocFixed addr size
    return ⟨p, (addr, size) :: c.allocated⟩
  | .free addr size => do
    let p ← c.partitioner.free addr size
    return ⟨p, c.allocated.erase (addr, size)⟩

def run (c : Client) (requests : List Request) : Option Client := requests.foldlM serve c

/-- A fixed range has to be inside a gap, and only ranges that are held are freed. -/
def Legal (c : Client) : Request → Prop
  | .alloc size alignment dir =>
    0 < size ∧ 0 < alignment ∧ c.partitioner.AllocFits size alignment dir
  | .allocFixed addr size => 0 < size ∧ ∃ g ∈ c.partitioner.gaps, g.lo ≤ addr ∧ addr + size ≤ g.hi
  | .free addr size => (addr, size) ∈ c.allocated

/-- Every request of the run is legal when its turn comes. -/
def LegalRun : Client → List Request → Prop
  | _, [] => True
  | c, r :: requests => Legal c r ∧ ∀ c', serve c r = some c' → LegalRun c' requests

/-- The bytes of an allocated range. -/
def bytes (r : ℕ × ℕ) : Set ℕ := Set.Ico r.1 (r.1 + r.2)

/-- The bytes of all the ranges. -/
def held (allocated : List (ℕ × ℕ)) : Set ℕ := {x | ∃ r ∈ allocated, x ∈ bytes r}

@[simp] theorem held_nil : held [] = ∅ := by
  ext x
  simp [held]

@[simp] theorem held_cons (r : ℕ × ℕ) (allocated : List (ℕ × ℕ)) :
    held (r :: allocated) = bytes r ∪ held allocated := by
  ext x
  simp [held]

/-- The gaps are what is left of the memory the client may use. -/
structure Exact (memory : Set ℕ) (c : Client) : Prop where
  wf : c.partitioner.Wf
  bound : memory ⊆ Set.Iio c.partitioner.totalSize
  nonempty : ∀ r ∈ c.allocated, 0 < r.2
  disjoint : c.allocated.Pairwise fun r s => Disjoint (bytes r) (bytes s)
  inside : held c.allocated ⊆ memory
  covers : cover c.partitioner.gaps = memory \ held c.allocated

variable {memory : Set ℕ} {c c' : Client} {p : Partitioner} {addr size : ℕ}

theorem held_perm {l l' : List (ℕ × ℕ)} (h : l.Perm l') : held l = held l' := by
  ext x
  simp [held, h.mem_iff]

theorem Exact.perm {l l' : List (ℕ × ℕ)} (h : Exact memory ⟨p, l⟩) (hl : l.Perm l') :
    Exact memory ⟨p, l'⟩ where
  wf := h.wf
  bound := h.bound
  nonempty r hr := h.nonempty r (hl.mem_iff.mpr hr)
  disjoint := (hl.pairwise_iff fun h => h.symm).mp h.disjoint
  inside := held_perm hl ▸ h.inside
  covers := held_perm hl ▸ h.covers

theorem Exact.takes (h : Exact memory c) (hs : 0 < size) (ht : Takes c.partitioner addr size p) :
    Exact memory ⟨p, (addr, size) :: c.allocated⟩ where
  wf := ht.wf
  bound := ht.total ▸ h.bound
  nonempty := by
    intro r hr
    rcases List.mem_cons.mp hr with rfl | hr
    · exact hs
    · exact h.nonempty r hr
  disjoint := by
    refine List.pairwise_cons.mpr ⟨?_, h.disjoint⟩
    intro r hr
    refine Set.disjoint_left.mpr ?_
    intro x hx hxr
    have hfree := ht.free hx
    rw [h.covers] at hfree
    exact hfree.2 ⟨r, hr, hxr⟩
  inside := by
    rw [held_cons]
    refine Set.union_subset ?_ h.inside
    intro x hx
    have hfree := ht.free hx
    rw [h.covers] at hfree
    exact hfree.1
  covers := by
    rw [ht.covers, h.covers, held_cons, Set.union_comm, ← Set.sdiff_sdiff]
    rfl

theorem Exact.gives {l : List (ℕ × ℕ)} (h : Exact memory ⟨p, (addr, size) :: l⟩) :
    ∃ p', p.free addr size = some p' ∧ p'.totalSize = p.totalSize ∧ Exact memory ⟨p', l⟩ := by
  have hs : 0 < size := h.nonempty (addr, size) (by simp)
  obtain ⟨hapart, hdis⟩ := List.pairwise_cons.mp h.disjoint
  have hin : bytes (addr, size) ⊆ memory := fun x hx => h.inside ⟨_, by simp, hx⟩
  have hend : addr + size ≤ p.totalSize := by
    have hlast := h.bound (@hin (addr + size - 1) (by simp only [bytes, Set.mem_Ico]; omega))
    simp only [Set.mem_Iio] at hlast
    omega
  have hused : Disjoint (cover p.gaps) (Set.Ico addr (addr + size)) := by
    rw [h.covers]
    exact Set.disjoint_left.mpr fun x hx hxr => hx.2 ⟨(addr, size), by simp, hxr⟩
  obtain ⟨p', hp, hg⟩ := free_spec h.wf hs hend hused
  refine ⟨p', hp, hg.total, hg.wf, hg.total ▸ h.bound, fun r hr =>
    h.nonempty r (by simp [hr]), hdis, ?_, ?_⟩
  · exact fun x ⟨r, hr, hx⟩ => h.inside ⟨r, by simp [hr], hx⟩
  · rw [hg.covers, h.covers, held_cons]
    ext x
    have hx : x ∈ bytes (addr, size) → x ∈ memory ∧ x ∉ held l := by
      intro hx
      exact ⟨hin hx, fun ⟨r, hr, hxr⟩ => Set.disjoint_left.mp (hapart r hr) hx hxr⟩
    change (x ∈ memory ∧ ¬(x ∈ bytes (addr, size) ∨ x ∈ held l) ∨ x ∈ bytes (addr, size)) ↔
      x ∈ memory ∧ x ∉ held l
    tauto

theorem Exact.exists_gap (h : Exact memory c) (hs : 0 < size)
    (hfree : bytes (addr, size) ⊆ memory \ held c.allocated) :
    ∃ g ∈ c.partitioner.gaps, g.lo ≤ addr ∧ addr + size ≤ g.hi :=
  h.wf.separated.exists_span (by omega) (h.covers ▸ hfree)

theorem exact_start {totalSize : ℕ} (htotal : 0 < totalSize) (hword : totalSize < wordSize) :
    Exact (Set.Iio totalSize) (start totalSize) where
  wf := ⟨Separated.singleton htotal, by simp [start, init], hword⟩
  bound := subset_rfl
  nonempty := by simp [start]
  disjoint := .nil
  inside := by simp [start]
  covers := by
    ext x
    simp [start, init]

theorem Exact.serve {r : Request} (h : Exact memory c) (hl : Legal c r) :
    ∃ c', serve c r = some c' ∧ Exact memory c' := by
  cases r with
  | alloc size alignment dir =>
    obtain ⟨hs, ha, hfit⟩ := hl
    obtain ⟨p, addr, halloc, hres⟩ := alloc_spec h.wf hs ha hfit
    rcases hres with ⟨rfl, rfl⟩ | ⟨hvalid, htakes⟩
    · exact ⟨c, by simp [Partitioner.serve, halloc], h⟩
    · exact ⟨_, by simp [Partitioner.serve, halloc, hvalid], h.takes hs htakes⟩
  | allocFixed addr size =>
    obtain ⟨hs, g, hg, hlo, hhi⟩ := hl
    obtain ⟨p, halloc, htakes⟩ := allocFixed_spec h.wf hs hg hlo hhi
    exact ⟨_, by simp [Partitioner.serve, halloc], h.takes hs htakes⟩
  | free addr size =>
    obtain ⟨p, hfree, -, hexact⟩ := (h.perm (List.perm_cons_erase hl)).gives
    exact ⟨_, by simp [Partitioner.serve, hfree], hexact⟩

theorem Exact.run {requests : List Request} (h : Exact memory c) (hl : LegalRun c requests) :
    ∃ c', run c requests = some c' ∧ Exact memory c' := by
  induction requests generalizing c with
  | nil => exact ⟨c, rfl, h⟩
  | cons r requests ih =>
    obtain ⟨c₁, hserve, h₁⟩ := h.serve hl.1
    obtain ⟨c', hrun, h'⟩ := ih h₁ (hl.2 c₁ hserve)
    refine ⟨c', ?_, h'⟩
    simpa [Partitioner.run, hserve] using hrun

theorem Exact.gaps_of_nil {gaps : List Gap} (h : Exact memory ⟨p, []⟩) (hsep : Separated gaps)
    (hc : cover gaps = memory) : p.gaps = gaps := by
  apply h.wf.separated.ext hsep
  rw [h.covers, hc, held_nil, Set.sdiff_empty]

theorem Exact.freeAll {order : List (ℕ × ℕ)} (h : Exact memory c) (ho : order.Perm c.allocated) :
    ∃ p', Partitioner.run c (order.map fun r => .free r.1 r.2) = some ⟨p', []⟩ ∧
      Exact memory ⟨p', []⟩ := by
  induction order generalizing c with
  | nil =>
    obtain ⟨p, l⟩ := c
    obtain rfl := List.nil_perm.mp ho
    exact ⟨p, rfl, h⟩
  | cons r order ih =>
    have hr : (r.1, r.2) ∈ c.allocated := ho.subset (by simp)
    obtain ⟨p, hfree, -, hexact⟩ := (h.perm (List.perm_cons_erase hr)).gives
    have hrest : order.Perm (c.allocated.erase (r.1, r.2)) :=
      (ho.trans (List.perm_cons_erase hr)).cons_inv
    obtain ⟨p', hrun, h'⟩ := ih hexact hrest
    refine ⟨p', ?_, h'⟩
    simpa [Partitioner.run, Partitioner.serve, hfree] using hrun

/-- After every legal run the gaps are the maximal free ranges, and freeing what is held, in
any order, gives the whole memory back. -/
theorem run_exact (totalSize : ℕ) (htotal : 0 < totalSize) (hword : totalSize < wordSize)
    (requests : List Request) (hlegal : LegalRun (start totalSize) requests) :
    ∃ c, run (start totalSize) requests = some c ∧
      (∀ g ∈ c.partitioner.gaps, g.lo < g.hi) ∧
      (c.partitioner.gaps.Pairwise fun g g' => g.hi < g'.lo) ∧
      (∀ x, (∃ g ∈ c.partitioner.gaps, g.lo ≤ x ∧ x < g.hi) ↔
        x < totalSize ∧ ¬ ∃ r ∈ c.allocated, r.1 ≤ x ∧ x < r.1 + r.2) ∧
      (c.allocated.Pairwise fun r s => r.1 + r.2 ≤ s.1 ∨ s.1 + s.2 ≤ r.1) ∧
      (∀ order : List (ℕ × ℕ), order.Perm c.allocated →
        ∃ c', run c (order.map fun r => .free r.1 r.2) = some c' ∧
          c'.partitioner.gaps = [⟨0, totalSize⟩]) := by
  obtain ⟨c, hrun, h⟩ := (exact_start htotal hword).run hlegal
  refine ⟨c, hrun, h.wf.separated.nonempty, h.wf.separated.apart, ?_, ?_, ?_⟩
  · intro x
    have hx := Set.ext_iff.mp h.covers x
    simpa [held, bytes] using hx
  · refine h.disjoint.imp_of_mem ?_
    intro r s hr hs hd
    have hr0 := h.nonempty r hr
    have hs0 := h.nonempty s hs
    unfold bytes at hd
    rw [Set.Ico_disjoint_Ico] at hd
    omega
  · intro order ho
    obtain ⟨p, hrun', h'⟩ := h.freeAll ho
    refine ⟨⟨p, []⟩, hrun', h'.gaps_of_nil (Separated.singleton htotal) ?_⟩
    ext x
    simp

/-- Two ranges of a small memory; the first is given back before the second. -/
theorem run_exact_sixteen : ∃ c, run (start 16) [.alloc 4 2 .Down, .allocFixed 4 4, .free 12 4] =
      some c ∧ c.partitioner.gaps = [⟨0, 4⟩, ⟨8, 16⟩] ∧
      (c.partitioner.gaps.Pairwise fun g g' => g.hi < g'.lo) := by
  have hlegal : LegalRun (start 16) [.alloc 4 2 .Down, .allocFixed 4 4, .free 12 4] := by
    have hfirst : serve (start 16) (.alloc 4 2 .Down) = some ⟨⟨16, [⟨0, 12⟩]⟩, [(12, 4)]⟩ := by
      decide +kernel
    have hsecond : serve ⟨⟨16, [⟨0, 12⟩]⟩, [(12, 4)]⟩ (.allocFixed 4 4) =
        some ⟨⟨16, [⟨0, 4⟩, ⟨8, 12⟩]⟩, [(4, 4), (12, 4)]⟩ := by
      decide +kernel
    refine ⟨⟨by decide, by decide, ?_⟩, ?_⟩
    · exact allocFits_of_total (exact_start (by decide) (by decide)).wf (by decide) (by decide)
    · rw [hfirst]
      rintro c ⟨⟩
      refine ⟨⟨by decide, ⟨0, 12⟩, by decide, by decide, by decide⟩, ?_⟩
      rw [hsecond]
      rintro c ⟨⟩
      exact ⟨by simp [Legal], fun _ _ => trivial⟩
  obtain ⟨c, hrun, -, hsorted, -⟩ := run_exact 16 (by decide) (by decide) _ hlegal
  have hvalue : run (start 16) [.alloc 4 2 .Down, .allocFixed 4 4, .free 12 4] =
      some ⟨⟨16, [⟨0, 4⟩, ⟨8, 16⟩]⟩, [(4, 4)]⟩ := by decide +kernel
  obtain rfl := Option.some.inj (hrun.symm.trans hvalue)
  exact ⟨_, hrun, rfl, hsorted⟩

end Vpux.Memory.Partitioner
