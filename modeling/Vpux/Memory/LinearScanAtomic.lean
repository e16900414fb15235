import Vpux.Memory.LinearScan
import Vpux.Memory.PartitionerValidated
import Vpux.Memory.PartitionerRun
import Mathlib.Data.List.MinMax

/-! What a request that fails leaves behind. Without spills, or with nothing to spill, the
rollback restores the gaps. A request that may spill and fails has lost a live range or has
told the handler about one. -/
namespace Vpux.Memory.LinearScan
open Data Partitioner

variable {R : Type} [DecidableEq R] {h : Handler R} {order : AllocatedAddrs → AllocatedAddrs}
variable {s s' : Scan R} {al al' : AllocatedAddrs} {ok : Bool} {r : R} {i : ℕ}
variable {allowSpills : Bool} {dir : Direction}

structure Untouched (s s' : Scan R) : Prop where
  live : ∀ r ∈ s.liveRanges, r ∈ s'.liveRanges
  owned : ∀ r ∈ s.liveRanges, s'.address r = s.address r
  gaps : s'.par.gaps = s.par.gaps
  told : s'.told = s.told

/-- The ranges of the new allocations. -/
def ranges (al : AllocatedAddrs) : List (ℕ × ℕ) := al.map Prod.snd

variable {addr size : ℕ} {cs : List R}

section Inversion

/-- A range at the place that is found for it; `take` takes its memory. -/
def allocAt {A : Type} (h : Handler R) (order : AllocatedAddrs → AllocatedAddrs)
    (place : Scan R → Option (Option (Scan R × A))) (addr : A → ℕ) (size : ℕ)
    (take : A → Partitioner → Option Partitioner) (i : ℕ) (allowSpills : Bool) (s : Scan R)
    (al : AllocatedAddrs) : Option (Bool × Scan R × AllocatedAddrs) := do
  match ← makeRoom h place allowSpills (s.liveRanges.length + 1) s [] with
  | (none, s, _) =>
    let s ← rollback order al s
    return (false, s, al)
  | (some a, s, spillCandidates) =>
    let (ok, s) ← performActualSpill h (addr a) size spillCandidates s
    if !ok then
      let s ← rollback order al s
      return (false, s, al)
    else
      let par ← take a s.par
      return (true, { s with par := par }, (i, addr a, size) :: al)

theorem allocFixedRange_eq : allocFixedRange h order r i allowSpills s al =
    (guard (s.address r ≠ InvalidAddress) : Option Unit).bind fun _ =>
      allocAt h order (placeFixed h (s.address r) (h.getSize r)) (fun _ => s.address r)
        (h.getSize r) (fun _ par => par.allocFixedValidated (s.address r) (h.getSize r)) i
        allowSpills s al := by
  refine bind_congr fun _ => bind_congr fun x => ?_
  rcases x with ⟨_ | a, s₁, cs⟩
  · rfl
  · refine bind_congr fun y => ?_
    rcases y with ⟨_ | _, s₂⟩ <;> rfl

theorem allocPlainRange_eq : allocPlainRange h order r i allowSpills dir s al =
    allocAt h order (placePlain (h.getSize r) (h.getAlignment r) dir) id (h.getSize r)
      (fun _ par => some par) i allowSpills s al := by
  refine bind_congr fun x => ?_
  rcases x with ⟨_ | a, s₁, cs⟩
  · rfl
  · refine bind_congr fun y => ?_
    rcases y with ⟨_ | _, s₂⟩ <;> rfl

section At

variable {A : Type} {place : Scan R → Option (Option (Scan R × A))} {addr : A → ℕ} {size : ℕ}
  {take : A → Partitioner → Option Partitioner}

theorem allocAt_cases
    (hr : allocAt h order place addr size take i allowSpills s al = some (ok, s', al')) :
    ∃ res s₁ cs, makeRoom h place allowSpills (s.liveRanges.length + 1) s [] = some (res, s₁, cs) ∧
      ((res = none ∧ ok = false ∧ rollback order al s₁ = some s') ∨
        ∃ a ok₁ s₂, res = some a ∧
          performActualSpill h (addr a) size cs s₁ = some (ok₁, s₂) ∧
          ((ok₁ = false ∧ ok = false ∧ rollback order al s₂ = some s') ∨
            ok₁ = true ∧ ok = true ∧ ∃ p, take a s₂.par = some p ∧
              s' = { s₂ with par := p } ∧ al' = (i, addr a, size) :: al)) := by
  unfold allocAt at hr
  simp only [Option.bind_eq_bind, Option.bind_eq_some_iff] at hr
  obtain ⟨⟨res, s₁, cs⟩, hroom, hr⟩ := hr
  refine ⟨res, s₁, cs, hroom, ?_⟩
  cases res with
  | none =>
    simp only [Option.bind_eq_some_iff, Option.pure_def, Option.some.injEq, Prod.mk.injEq] at hr
    obtain ⟨s₂, hback, rfl, rfl, rfl⟩ := hr
    exact Or.inl ⟨rfl, rfl, hback⟩
  | some a =>
    simp only [Option.bind_eq_some_iff, Prod.exists] at hr
    obtain ⟨ok₁, s₂, hspill, hr⟩ := hr
    refine Or.inr ⟨a, ok₁, s₂, rfl, hspill, ?_⟩
    cases ok₁ with
    | false =>
      simp only [Bool.not_false, if_true, Option.bind_eq_some_iff, Option.pure_def,
        Option.some.injEq, Prod.mk.injEq] at hr
      obtain ⟨s₃, hback, rfl, rfl, rfl⟩ := hr
      exact Or.inl ⟨rfl, rfl, hback⟩
    | true =>
      simp only [Bool.not_true, Bool.false_eq_true, if_false, Option.bind_eq_some_iff,
        Option.pure_def, Option.some.injEq, Prod.mk.injEq] at hr
      obtain ⟨p, htake, rfl, rfl, rfl⟩ := hr
      exact Or.inr ⟨rfl, rfl, p, htake, rfl, rfl⟩

omit [DecidableEq R] in
theorem makeRoom_quiet {A : Type} {place : Scan R → Option (Option (Scan R × A))} {n : ℕ}
    {res : Option A} (hq : allowSpills = false ∨ s.liveRanges = [])
    (hr : makeRoom h place allowSpills (n + 1) s [] = some (res, s', cs)) :
    cs = [] ∧ ((∃ a, res = some a ∧ place s = some (some (s', a))) ∨
      res = none ∧ s' = s ∧ place s = some none) := by
  unfold makeRoom at hr
  simp only [Option.bind_eq_bind, Option.bind_eq_some_iff] at hr
  obtain ⟨placed, hplace, hr⟩ := hr
  cases placed with
  | some sa =>
    obtain ⟨s₁, a⟩ := sa
    obtain ⟨rfl, rfl, rfl⟩ : some a = res ∧ s₁ = s' ∧ [] = cs := by simpa using hr
    exact ⟨rfl, Or.inl ⟨a, rfl, hplace⟩⟩
  | none =>
    cases allowSpills with
    | false =>
      obtain ⟨rfl, rfl, rfl⟩ : none = res ∧ s = s' ∧ [] = cs := by simpa using hr
      exact ⟨rfl, Or.inr ⟨rfl, rfl, hplace⟩⟩
    | true =>
      have hlive : s.liveRanges = [] := by simpa using hq
      have hnone : getSpillCandidate h s = some (none, s) := by simp [getSpillCandidate, hlive]
      obtain ⟨rfl, rfl, rfl⟩ : none = res ∧ s = s' ∧ [] = cs := by simpa [hnone] using hr
      exact ⟨rfl, Or.inr ⟨rfl, rfl, hplace⟩⟩

theorem allocAt_quiet (hq : allowSpills = false ∨ s.liveRanges = [])
    (hr : allocAt h order place addr size take i allowSpills s al = some (ok, s', al')) :
    (ok = false ∧ rollback order al s = some s') ∨ ok = true ∧ ∃ a s₁ p,
      place s = some (some (s₁, a)) ∧ take a s₁.par = some p ∧ s' = { s₁ with par := p } ∧
        al' = (i, addr a, size) :: al := by
  obtain ⟨res, s₁, cs, hroom, hcases⟩ := allocAt_cases hr
  obtain ⟨rfl, ⟨a, rfl, hplace⟩ | ⟨rfl, rfl, -⟩⟩ := makeRoom_quiet hq hroom
  · rcases hcases with ⟨hnone, -⟩ | ⟨a', ok₁, s₂, ha, hspill, hcases⟩
    · cases hnone
    · obtain rfl := Option.some.inj ha
      obtain ⟨rfl, rfl⟩ : true = ok₁ ∧ s₁ = s₂ := by simpa [performActualSpill] using hspill
      rcases hcases with ⟨hf, -⟩ | ⟨-, rfl, p, htake, rfl, rfl⟩
      · cases hf
      · exact Or.inr ⟨rfl, a, s₁, p, hplace, htake, rfl, rfl⟩
  · rcases hcases with ⟨-, rfl, hback⟩ | ⟨a, ok₁, s₂, hnone, -⟩
    · exact Or.inl ⟨rfl, hback⟩
    · cases hnone

end At

omit [DecidableEq R] in
theorem placeFixed_eq (hp : placeFixed h addr size s = some (some (s', ()))) :
    s' = s ∧ canAllocFixed h addr size s s.liveRanges = some true := by
  unfold placeFixed at hp
  simp only [Option.bind_eq_bind, Option.bind_eq_some_iff] at hp
  obtain ⟨b, hb, hp⟩ := hp
  cases b with
  | false => simp at hp
  | true =>
    obtain rfl : s = s' := by simpa using hp
    exact ⟨rfl, hb⟩

omit [DecidableEq R] in
theorem placePlain_eq {size alignment addr : ℕ}
    (hp : placePlain size alignment dir s = some (some (s', addr))) :
    addr ≠ InvalidAddress ∧ ∃ p, s.par.allocValidated size alignment dir = some (p, addr) ∧
      s' = { s with par := p } := by
  unfold placePlain at hp
  simp only [Option.bind_eq_bind, Option.bind_eq_some_iff, Prod.exists] at hp
  obtain ⟨p, addr', halloc, hp⟩ := hp
  split_ifs at hp with hvalid
  · obtain ⟨rfl, rfl⟩ : { s with par := p } = s' ∧ addr' = addr := by simpa using hp
    exact ⟨hvalid, p, halloc, rfl⟩
  · simp at hp

theorem allocFixedRange_quiet (hq : allowSpills = false ∨ s.liveRanges = [])
    (hr : allocFixedRange h order r i allowSpills s al = some (ok, s', al')) :
    (ok = false ∧ rollback order al s = some s') ∨ ok = true ∧ s.address r ≠ InvalidAddress ∧ ∃ p,
      s.par.allocFixedValidated (s.address r) (h.getSize r) = some p ∧
        s' = { s with par := p } ∧ al' = (i, s.address r, h.getSize r) :: al := by
  simp only [allocFixedRange_eq, Option.bind_eq_some_iff, Option.guard_eq_some',
    exists_const] at hr
  obtain ⟨hvalid, hr⟩ := hr
  rcases allocAt_quiet hq hr with hfail | ⟨rfl, a, s₁, p, hplace, htake, rfl, rfl⟩
  · exact Or.inl hfail
  · obtain ⟨rfl, -⟩ := placeFixed_eq hplace
    exact Or.inr ⟨rfl, hvalid, p, htake, rfl, rfl⟩

theorem allocPlainRange_quiet (hq : allowSpills = false ∨ s.liveRanges = [])
    (hr : allocPlainRange h order r i allowSpills dir s al = some (ok, s', al')) :
    (ok = false ∧ rollback order al s = some s') ∨ ok = true ∧ ∃ p addr,
      s.par.allocValidated (h.getSize r) (h.getAlignment r) dir = some (p, addr) ∧
        addr ≠ InvalidAddress ∧ s' = { s with par := p } ∧ al' = (i, addr, h.getSize r) :: al := by
  rw [allocPlainRange_eq] at hr
  rcases allocAt_quiet hq hr with hfail | ⟨rfl, addr, s₁, p, hplace, htake, rfl, rfl⟩
  · exact Or.inl hfail
  · obtain ⟨hvalid, p', halloc, rfl⟩ := placePlain_eq hplace
    obtain rfl := Option.some.inj htake
    exact Or.inr ⟨rfl, p', addr, halloc, hvalid, rfl, rfl⟩

omit [DecidableEq R] in
theorem minElement_lt {ranges : List R} (hne : ranges ≠ []) : minElement h ranges <
    ranges.length := by
  obtain ⟨m, hm⟩ := Option.ne_none_iff_exists'.mp
    (mt List.argmin_eq_none.mp hne : ranges.argmin h.getSpillWeight ≠ none)
  apply List.findIdx_lt_length_of_exists
  refine ⟨m, List.argmin_mem hm, ?_⟩
  rw [List.all_eq_true]
  intro r' hr'
  exact decide_eq_true (List.le_of_mem_argmin hr' hm)

omit [DecidableEq R] in
theorem getSpillCandidate_cases {c : Option R} (hr : getSpillCandidate h s = some (c, s')) :
    (c = none ∧ s' = s ∧ s.liveRanges = []) ∨
      ∃ r p, c = some r ∧ s.liveRanges[minElement h s.liveRanges]? = some r ∧
        s.par.freeValidated (s.address r) (h.getSize r) = some p ∧
        s' = { s with par := p
                      liveRanges := removeAt s.liveRanges (minElement h s.liveRanges) } := by
  unfold getSpillCandidate at hr
  dsimp only at hr
  split at hr
  · next hnone =>
    obtain ⟨rfl, rfl⟩ : none = c ∧ s = s' := by simpa using hr
    refine Or.inl ⟨rfl, rfl, ?_⟩
    by_contra hne
    have hlt := minElement_lt (h := h) hne
    rw [List.getElem?_eq_none_iff] at hnone
    omega
  · next r hget =>
    simp only [Option.bind_eq_bind, Option.bind_eq_some_iff, Option.pure_def, Option.some.injEq,
      Prod.mk.injEq] at hr
    obtain ⟨p, hfree, rfl, rfl⟩ := hr
    exact Or.inr ⟨r, p, rfl, hget, hfree, rfl⟩

theorem performActualSpill_cons {c : R}
    (hr : performActualSpill h addr size (c :: cs) s = some (ok, s')) :
    (Partitioner.intersects (s.address c) (h.getSize c) addr size = some true ∧
      ((h.spilled s.told c = false ∧ ok = false ∧ s' = (spilled h s c).2) ∨
        h.spilled s.told c = true ∧
          performActualSpill h addr size cs (freed (spilled h s c).2 c) = some (ok, s'))) ∨
      Partitioner.intersects (s.address c) (h.getSize c) addr size = some false ∧ ∃ p,
        s.par.allocFixedValidated (s.address c) (h.getSize c) = some p ∧
        performActualSpill h addr size cs
          { allocated { s with par := p } c (s.address c) with
            liveRanges := s.liveRanges ++ [c] } = some (ok, s') := by
  simp only [performActualSpill, Option.bind_eq_bind, Option.bind_eq_some_iff] at hr
  obtain ⟨b, hb, hr⟩ := hr
  cases b with
  | true =>
    refine Or.inl ⟨hb, ?_⟩
    cases hspilled : h.spilled s.told c with
    | false =>
      obtain ⟨rfl, rfl⟩ : false = ok ∧ (spilled h s c).2 = s' := by
        simpa [spilled, hspilled] using hr
      exact Or.inl ⟨rfl, rfl, rfl⟩
    | true =>
      refine Or.inr ⟨rfl, ?_⟩
      simpa [spilled, hspilled] using hr
  | false =>
    simp only [Bool.false_eq_true, if_false, Option.bind_eq_some_iff] at hr
    obtain ⟨p, halloc, hr⟩ := hr
    exact Or.inr ⟨hb, p, halloc, hr⟩

end Inversion

variable {p : Partitioner}

section Rollback

theorem freeValidated_eq_free {p p' : Partitioner} (hp : p.freeValidated addr size = some p') :
    p.free addr size = some p' := by
  unfold freeValidated at hp
  simp only [Option.bind_eq_bind, Option.bind_eq_some_iff, Option.guard_eq_some', exists_const,
    Option.pure_def, Option.some.injEq] at hp
  obtain ⟨-, p₁, hfree, -, rfl⟩ := hp
  exact hfree

variable {memory : Set ℕ}

theorem exact_valid {l : List (ℕ × ℕ)} {a : ℕ × ℕ} (he : Exact memory ⟨p, l⟩) (ha : a ∈ l) :
    a.1 + a.2 ≤ p.totalSize ∧ a.1 ≠ InvalidAddress := by
  have hs := he.nonempty a ha
  have hlast : a.1 + a.2 - 1 < p.totalSize := by
    apply he.bound
    apply he.inside
    refine ⟨a, ha, ?_⟩
    simp only [bytes, Set.mem_Ico]
    omega
  have hword := he.wf.word
  unfold InvalidAddress
  dsimp only at hword
  omega

theorem freeOrder_exact {p p' : Partitioner} {rest : List (ℕ × ℕ)} {al : AllocatedAddrs}
    (he : Exact memory ⟨p, ranges al ++ rest⟩) (hp : al.foldlM (fun (par : Partitioner) a =>
      if a.2.1 = InvalidAddress then some par else par.freeValidated a.2.1 a.2.2) p = some p') :
    Exact memory ⟨p', rest⟩ := by
  induction al generalizing p with
  | nil =>
    obtain rfl : p = p' := by simpa using hp
    exact he
  | cons a al ih =>
    have hvalid := (exact_valid he (a := a.2) (by simp [ranges])).2
    simp only [List.foldlM_cons, if_neg hvalid, Option.bind_eq_bind, Option.bind_eq_some_iff] at hp
    obtain ⟨p₁, hfree, hp⟩ := hp
    obtain ⟨p₂, hfree', -, he'⟩ := Exact.gives he
    obtain rfl := Option.some.inj ((freeValidated_eq_free hfree).symm.trans hfree')
    exact ih he' hp

/-- A new range whose end wraps. -/
def Wraps (a : ℕ × ℕ) : Prop :=
  a.1 < wordSize ∧ a.2 < wordSize ∧ a.1 ≠ InvalidAddress ∧ wordSize ≤ a.1 + a.2

theorem freeOrder_wrap {al : AllocatedAddrs} {a : ℕ × ℕ × ℕ} (ha : a ∈ al) (hw : Wraps a.2) :
    al.foldlM (fun (par : Partitioner) a =>
      if a.2.1 = InvalidAddress then some par else par.freeValidated a.2.1 a.2.2) p = none := by
  induction al generalizing p with
  | nil => simp at ha
  | cons b al ih =>
    rw [List.foldlM_cons]
    rcases List.mem_cons.mp ha with rfl | ha
    · rw [if_neg hw.2.2.1, freeValidated_wrap hw.1 hw.2.1 hw.2.2.2]
      rfl
    · cases hb : (if b.2.1 = InvalidAddress then some p else p.freeValidated b.2.1 b.2.2) with
      | none => rfl
      | some p₁ => exact ih ha

theorem ranges_perm (hl : al.Perm al') : (ranges al).Perm (ranges al') := hl.map _

/-- What is known of the new allocations: one of them wraps, or they are exact. -/
def Pending (memory : Set ℕ) (s : Scan R) (al : AllocatedAddrs) : Prop :=
  (∃ a ∈ al, Wraps a.2) ∨ Exact memory ⟨s.par, ranges al⟩

omit [DecidableEq R] in
theorem rollback_pending (ho : ∀ l, (order l).Perm l) (hp : Pending memory s al)
    (hr : rollback order al s = some s') :
    ∃ p, s' = { s with par := p } ∧ Exact memory ⟨p, []⟩ := by
  unfold rollback at hr
  simp only [Option.bind_eq_bind, Option.bind_eq_some_iff, Option.pure_def, Option.some.injEq] at hr
  obtain ⟨p, hfold, rfl⟩ := hr
  refine ⟨p, rfl, ?_⟩
  rcases hp with ⟨a, ha, hw⟩ | he
  · rw [freeOrder_wrap ((ho al).mem_iff.mpr ha) hw] at hfold
    simp at hfold
  · have he' : Exact memory ⟨s.par, ranges (order al) ++ []⟩ :=
      he.perm (by simpa using (ranges_perm (ho al)).symm)
    exact freeOrder_exact he' hfold

end Rollback

variable {allocRange : R → ℕ → Scan R → AllocatedAddrs → Option (Bool × Scan R × AllocatedAddrs)}

section Quiet

structure Quiet (s₀ s : Scan R) (al : AllocatedAddrs) : Prop where
  live : s.liveRanges = s₀.liveRanges
  address : s.address = s₀.address
  told : s.told = s₀.told
  pending : Pending (cover s₀.par.gaps) s al

variable {s₀ : Scan R}

omit [DecidableEq R] in
theorem Quiet.start (hwf : s.par.Wf) : Quiet s s [] where
  live := rfl
  address := rfl
  told := rfl
  pending := Or.inr
    { wf := hwf, bound := hwf.cover_lt, nonempty := by simp [ranges], disjoint := .nil
      inside := by simp [ranges], covers := by simp [ranges] }

omit [DecidableEq R] in
theorem Quiet.untouched (hq : Quiet s₀ s al) (hwf : s₀.par.Wf) (ho : ∀ l, (order l).Perm l)
    (hr : rollback order al s = some s') : Untouched s₀ s' := by
  obtain ⟨p, rfl, he⟩ := rollback_pending ho hq.pending hr
  refine ⟨?_, ?_, he.gaps_of_nil hwf.separated rfl, hq.told⟩
  · intro r hr
    exact hq.live ▸ hr
  · intro r _
    exact congrFun hq.address r

omit [DecidableEq R] in
theorem Quiet.takes (hq : Quiet s₀ s al)
    (ht : s.par.Wf → Wraps (addr, size) ∨ 0 < size ∧ Takes s.par addr size p) :
    Quiet s₀ { s with par := p } ((i, addr, size) :: al) where
  live := hq.live
  address := hq.address
  told := hq.told
  pending := by
    rcases hq.pending with ⟨a, ha, hw⟩ | he
    · exact Or.inl ⟨a, by simp [ha], hw⟩
    · rcases ht he.wf with hw | ⟨hs, ht⟩
      · exact Or.inl ⟨(i, addr, size), by simp, hw⟩
      · exact Or.inr (he.takes hs ht)

section

variable (hq : Quiet s₀ s al) (hs : allowSpills = false ∨ s.liveRanges = [])
include hq hs

theorem Quiet.fixed (haddr : s.address r < wordSize) (ho : ∀ l, (order l).Perm l) (hwf : s₀.par.Wf)
    (hr : allocFixedRange h order r i allowSpills s al = some (ok, s', al')) :
    (ok = false ∧ Untouched s₀ s') ∨ ok = true ∧ Quiet s₀ s' al' := by
  rcases allocFixedRange_quiet hs hr with ⟨rfl, hback⟩ | ⟨rfl, hvalid, p, halloc, rfl, rfl⟩
  · exact Or.inl ⟨rfl, hq.untouched hwf ho hback⟩
  · refine Or.inr ⟨rfl, hq.takes fun hp => ?_⟩
    by_cases hend : s.address r + h.getSize r < wordSize
    · exact Or.inr (allocFixedValidated_safe hp hend halloc)
    · exact Or.inl ⟨haddr, h.getSize_lt r, hvalid, not_lt.mp hend⟩

theorem Quiet.plain (ho : ∀ l, (order l).Perm l) (hwf : s₀.par.Wf)
    (hr : allocPlainRange h order r i allowSpills dir s al = some (ok, s', al')) :
    (ok = false ∧ Untouched s₀ s') ∨ ok = true ∧ Quiet s₀ s' al' := by
  rcases allocPlainRange_quiet hs hr with ⟨rfl, hback⟩ | ⟨rfl, p, addr, halloc, hvalid, rfl, rfl⟩
  · exact Or.inl ⟨rfl, hq.untouched hwf ho hback⟩
  · refine Or.inr ⟨rfl, hq.takes fun hp => ?_⟩
    rcases allocValidated_safe hp halloc with ⟨hinv, -⟩ | htakes
    · exact absurd hinv hvalid
    · exact Or.inr htakes

end

omit [DecidableEq R] in
theorem Quiet.pass {rs : List (R × ℕ)} (hstep : ∀ a ∈ rs, ∀ {s s' al al' ok}, Quiet s₀ s al →
      allocRange a.1 a.2 s al = some (ok, s', al') →
      (ok = false ∧ Untouched s₀ s') ∨ ok = true ∧ Quiet s₀ s' al') (hq : Quiet s₀ s al)
    (hr : allocRanges allocRange rs s al = some (ok, s', al')) :
    (ok = false ∧ Untouched s₀ s') ∨ ok = true ∧ Quiet s₀ s' al' := by
  induction rs generalizing s al with
  | nil =>
    obtain ⟨rfl, rfl, rfl⟩ : true = ok ∧ s = s' ∧ al = al' := by simpa [allocRanges] using hr
    exact Or.inr ⟨rfl, hq⟩
  | cons a rs ih =>
    simp only [allocRanges, Option.bind_eq_bind, Option.bind_eq_some_iff, Prod.exists] at hr
    obtain ⟨ok₁, s₁, al₁, hfirst, hr⟩ := hr
    rcases hstep a (by simp) hq hfirst with ⟨rfl, hu⟩ | ⟨rfl, hq₁⟩
    · obtain ⟨rfl, rfl, rfl⟩ : false = ok ∧ s₁ = s' ∧ al₁ = al' := by simpa using hr
      exact Or.inl ⟨rfl, hu⟩
    · exact ih (fun b hb => hstep b (by simp [hb])) hq₁ (by simpa using hr)

end Quiet

section Noisy

/-- What a part of a request did with the live ranges. -/
structure Noisy (s s' : Scan R) (ok : Bool) : Prop where
  told : s.told <+: s'.told
  live : ok = true → s'.told = s.told → s'.liveRanges = s.liveRanges
  lost : ok = false → s'.told ≠ s.told ∨ s'.liveRanges = []

theorem prefix_antisymm {α : Type} {l l' : List α} (h₁ : l <+: l') (h₂ : l' <+: l) : l = l' :=
  h₁.eq_of_length (le_antisymm h₁.length_le h₂.length_le)

omit [DecidableEq R] in
theorem Noisy.refl : Noisy s s true where
  told := List.prefix_rfl
  live := by simp
  lost := by simp

omit [DecidableEq R] in
theorem Noisy.trans {s₁ : Scan R} (h₁ : Noisy s s₁ true) (h₂ : Noisy s₁ s' ok) : Noisy s s' ok where
  told := h₁.told.trans h₂.told
  live hok heq := by
    have hsame : s₁.told = s.told := prefix_antisymm (heq ▸ h₂.told) h₁.told
    rw [h₂.live hok (heq.trans hsame.symm), h₁.live rfl hsame]
  lost hok := by
    rcases h₂.lost hok with htold | hlive
    · left
      intro heq
      have hsame : s₁.told = s.told := prefix_antisymm (heq ▸ h₂.told) h₁.told
      exact htold (heq.trans hsame.symm)
    · exact Or.inr hlive

theorem makeRoom_noisy {A : Type} {place : Scan R → Option (Option (Scan R × A))} {n : ℕ}
    {res : Option A} {cs cs' : List R}
    (hplace : ∀ {s s' a}, place s = some (some (s', a)) →
      s'.told = s.told ∧ s'.liveRanges = s.liveRanges)
    (hr : makeRoom h place true n s cs = some (res, s', cs')) :
    s'.told = s.told ∧ cs.length ≤ cs'.length ∧
      (cs'.length = cs.length → s'.liveRanges = s.liveRanges) ∧
      (res = none → s'.liveRanges = []) := by
  induction n generalizing s cs with
  | zero => simp [makeRoom] at hr
  | succ n ih =>
    simp only [makeRoom, Option.bind_eq_bind, Option.bind_eq_some_iff] at hr
    obtain ⟨placed, hpl, hr⟩ := hr
    cases placed with
    | some sa =>
      obtain ⟨s₁, a⟩ := sa
      obtain ⟨rfl, rfl, rfl⟩ : some a = res ∧ s₁ = s' ∧ cs = cs' := by simpa using hr
      obtain ⟨htold, hlive⟩ := hplace hpl
      exact ⟨htold, le_rfl, fun _ => hlive, by simp⟩
    | none =>
      simp only [Bool.not_true, Bool.false_eq_true, if_false, Option.bind_eq_some_iff,
        Prod.exists] at hr
      obtain ⟨c, s₁, hcand, hr⟩ := hr
      rcases getSpillCandidate_cases hcand with ⟨rfl, rfl, hlive⟩ | ⟨r, p, rfl, -, -, rfl⟩
      · obtain ⟨rfl, rfl, rfl⟩ : none = res ∧ s₁ = s' ∧ cs = cs' := by simpa using hr
        exact ⟨rfl, le_rfl, fun _ => rfl, fun _ => hlive⟩
      · obtain ⟨htold, hlen, -, hlost⟩ := ih hr
        rw [List.length_append, List.length_singleton] at hlen
        exact ⟨htold, by omega, fun heq => by omega, hlost⟩

theorem performActualSpill_noisy (hr : performActualSpill h addr size cs s = some (ok, s')) :
    s.told <+: s'.told ∧ (cs ≠ [] → s'.told ≠ s.told) ∧ (cs = [] → ok = true ∧ s' = s) := by
  induction cs generalizing s with
  | nil =>
    obtain ⟨rfl, rfl⟩ : true = ok ∧ s = s' := by simpa [performActualSpill] using hr
    simp
  | cons c cs ih =>
    have htold : ∃ e events, s'.told = s.told ++ e :: events := by
      rcases performActualSpill_cons hr with ⟨-, ⟨-, -, rfl⟩ | ⟨-, hrest⟩⟩ | ⟨-, p, -, hrest⟩
      · exact ⟨.spilled c, [], rfl⟩
      · obtain ⟨events, hevents⟩ := (ih hrest).1
        refine ⟨.spilled c, .freed c :: events, ?_⟩
        simpa [freed, spilled] using hevents.symm
      · obtain ⟨events, hevents⟩ := (ih hrest).1
        refine ⟨.allocated c (s.address c), events, ?_⟩
        simpa [allocated] using hevents.symm
    obtain ⟨e, events, heq⟩ := htold
    refine ⟨⟨e :: events, heq.symm⟩, ?_, by simp⟩
    intro _ hsame
    rw [heq] at hsame
    simp at hsame

omit [DecidableEq R] in
theorem rollback_told (hr : rollback order al s = some s') :
    s'.told = s.told ∧ s'.liveRanges = s.liveRanges := by
  unfold rollback at hr
  simp only [Option.bind_eq_bind, Option.bind_eq_some_iff, Option.pure_def, Option.some.injEq] at hr
  obtain ⟨p, -, rfl⟩ := hr
  exact ⟨rfl, rfl⟩

theorem noisy_of_spills {s₁ s₂ : Scan R} {ok₁ : Bool} (htold : s₁.told = s.told)
    (hlive : cs.length = 0 → s₁.liveRanges = s.liveRanges)
    (hspill : performActualSpill h addr size cs s₁ = some (ok₁, s₂)) (hend : s'.told = s₂.told)
    (hlive' : s'.liveRanges = s₂.liveRanges) (hok : ok = ok₁) :
    Noisy s s' ok := by
  obtain ⟨hbegins, hmore, hnone⟩ := performActualSpill_noisy hspill
  rw [htold] at hbegins hmore
  refine ⟨hend ▸ hbegins, ?_, ?_⟩
  · intro _ hsame
    have hcs : cs = [] := by
      by_contra hne
      exact hmore hne (hend.symm.trans hsame)
    rw [hlive', (hnone hcs).2, hlive (by simp [hcs])]
  · intro hfail
    left
    rw [hend]
    apply hmore
    intro hcs
    have htrue := (hnone hcs).1
    simp [← hok, hfail] at htrue

omit [DecidableEq R] in
theorem noisy_of_lost {s₁ : Scan R} (htold : s₁.told = s.told) (hlive : s₁.liveRanges = [])
    (hback : rollback order al s₁ = some s') : Noisy s s' false := by
  obtain ⟨htold', hlive'⟩ := rollback_told hback
  refine ⟨?_, by simp, fun _ => Or.inr (hlive'.trans hlive)⟩
  exact (htold'.trans htold) ▸ List.prefix_rfl

theorem allocAt_noisy {A : Type} {place : Scan R → Option (Option (Scan R × A))} {addr : A → ℕ}
    {size : ℕ} {take : A → Partitioner → Option Partitioner}
    (hplace : ∀ {s s' a}, place s = some (some (s', a)) →
      s'.told = s.told ∧ s'.liveRanges = s.liveRanges)
    (hr : allocAt h order place addr size take i true s al = some (ok, s', al')) :
      Noisy s s' ok := by
  obtain ⟨res, s₁, cs, hroom, hcases⟩ := allocAt_cases hr
  obtain ⟨htold, -, hlive, hlost⟩ := makeRoom_noisy hplace hroom
  rcases hcases with ⟨hres, rfl, hback⟩ | ⟨a, ok₁, s₂, -, hspill, hcases⟩
  · exact noisy_of_lost htold (hlost hres) hback
  · rcases hcases with ⟨rfl, rfl, hback⟩ | ⟨rfl, rfl, p, -, rfl, -⟩
    · obtain ⟨htold', hlive'⟩ := rollback_told hback
      exact noisy_of_spills htold hlive hspill htold' hlive' rfl
    · exact noisy_of_spills htold hlive hspill rfl rfl rfl

theorem allocFixedRange_noisy
    (hr : allocFixedRange h order r i true s al = some (ok, s', al')) : Noisy s s' ok := by
  simp only [allocFixedRange_eq, Option.bind_eq_some_iff] at hr
  obtain ⟨-, -, hr⟩ := hr
  refine allocAt_noisy (fun hp => ?_) hr
  obtain ⟨rfl, -⟩ := placeFixed_eq hp
  exact ⟨rfl, rfl⟩

theorem allocPlainRange_noisy
    (hr : allocPlainRange h order r i true dir s al = some (ok, s', al')) : Noisy s s' ok := by
  rw [allocPlainRange_eq] at hr
  refine allocAt_noisy (fun hp => ?_) hr
  obtain ⟨-, p, -, rfl⟩ := placePlain_eq hp
  exact ⟨rfl, rfl⟩

omit [DecidableEq R] in
theorem Noisy.pass {rs : List (R × ℕ)}
    (hstep : ∀ {r i s s' al al' ok}, allocRange r i s al = some (ok, s', al') → Noisy s s' ok)
    (hr : allocRanges allocRange rs s al = some (ok, s', al')) : Noisy s s' ok := by
  induction rs generalizing s al with
  | nil =>
    obtain ⟨rfl, rfl, rfl⟩ : true = ok ∧ s = s' ∧ al = al' := by simpa [allocRanges] using hr
    exact Noisy.refl
  | cons a rs ih =>
    simp only [allocRanges, Option.bind_eq_bind, Option.bind_eq_some_iff, Prod.exists] at hr
    obtain ⟨ok₁, s₁, al₁, hfirst, hr⟩ := hr
    have hn := hstep hfirst
    cases ok₁ with
    | false =>
      obtain ⟨rfl, rfl, rfl⟩ : false = ok ∧ s₁ = s' ∧ al₁ = al' := by simpa using hr
      exact hn
    | true => exact hn.trans (ih (by simpa using hr))

end Noisy

section Alloc

variable {newLiveRanges : List R}

theorem alloc_false (hr : alloc h order newLiveRanges allowSpills dir s = some (false, s')) :
    (∃ al, allocRanges (fun r i s al => allocFixedRange h order r i allowSpills s al)
      (newLiveRanges.zipIdx.filter fun r => h.isFixedAlloc r.1) s [] = some (false, s', al)) ∨
    ∃ s₁ al₁ al, allocRanges (fun r i s al => allocFixedRange h order r i allowSpills s al)
      (newLiveRanges.zipIdx.filter fun r => h.isFixedAlloc r.1) s [] = some (true, s₁, al₁) ∧
      allocRanges (fun r i s al => allocPlainRange h order r i allowSpills dir s al)
        (newLiveRanges.zipIdx.filter fun r => !h.isFixedAlloc r.1) s₁ al₁ =
          some (false, s', al) := by
  unfold alloc at hr
  simp only [Option.bind_eq_bind, Option.bind_eq_some_iff, Prod.exists] at hr
  obtain ⟨ok₁, s₁, al₁, hfixed, hr⟩ := hr
  cases ok₁ with
  | false =>
    obtain rfl : s₁ = s' := by simpa using hr
    exact Or.inl ⟨al₁, hfixed⟩
  | true =>
    simp only [Bool.not_true, Bool.false_eq_true, if_false, Option.bind_eq_some_iff,
      Prod.exists] at hr
    obtain ⟨ok₂, s₂, al₂, hplain, hr⟩ := hr
    cases ok₂ with
    | false =>
      obtain rfl : s₂ = s' := by simpa using hr
      exact Or.inr ⟨s₁, al₁, al₂, hfixed, hplain⟩
    | true => simp [Option.bind_eq_some_iff] at hr

theorem alloc_untouched (hwf : s.par.Wf) (haddr : ∀ r ∈ newLiveRanges, s.address r < wordSize)
    (ho : ∀ l, (order l).Perm l) (hq : allowSpills = false ∨ s.liveRanges = [])
    (hr : alloc h order newLiveRanges allowSpills dir s = some (false, s')) : Untouched s s' := by
  have hfixed : ∀ a ∈ newLiveRanges.zipIdx.filter fun r => h.isFixedAlloc r.1,
      ∀ {s₁ s₂ al₁ al₂ ok}, Quiet s s₁ al₁ →
        allocFixedRange h order a.1 a.2 allowSpills s₁ al₁ = some (ok, s₂, al₂) →
        (ok = false ∧ Untouched s s₂) ∨ ok = true ∧ Quiet s s₂ al₂ := by
    intro a ha s₁ s₂ al₁ al₂ ok hquiet hstep
    have hmem : a.1 ∈ newLiveRanges := List.fst_mem_of_mem_zipIdx (List.mem_of_mem_filter ha)
    exact hquiet.fixed (hquiet.live ▸ hq) (hquiet.address ▸ haddr a.1 hmem) ho hwf hstep
  rcases alloc_false hr with ⟨al, hpass⟩ | ⟨s₁, al₁, al, hpass, hplain⟩
  · rcases Quiet.pass hfixed (Quiet.start hwf) hpass with ⟨-, hu⟩ | ⟨hf, -⟩
    · exact hu
    · simp at hf
  · rcases Quiet.pass hfixed (Quiet.start hwf) hpass with ⟨hf, -⟩ | ⟨-, hquiet⟩
    · simp at hf
    · have hstep : ∀ a ∈ newLiveRanges.zipIdx.filter fun r => !h.isFixedAlloc r.1,
          ∀ {s₁ s₂ al₁ al₂ ok}, Quiet s s₁ al₁ →
            allocPlainRange h order a.1 a.2 allowSpills dir s₁ al₁ = some (ok, s₂, al₂) →
            (ok = false ∧ Untouched s s₂) ∨ ok = true ∧ Quiet s s₂ al₂ :=
        fun a _ _ _ _ _ _ hquiet hstep => hquiet.plain (hquiet.live ▸ hq) ho hwf hstep
      rcases Quiet.pass hstep hquiet hplain with ⟨-, hu⟩ | ⟨hf, -⟩
      · exact hu
      · simp at hf

theorem alloc_noisy (hr : alloc h order newLiveRanges true dir s = some (false, s')) :
    Noisy s s' false := by
  rcases alloc_false hr with ⟨al, hpass⟩ | ⟨s₁, al₁, al, hpass, hplain⟩
  · exact Noisy.pass (fun hstep => allocFixedRange_noisy hstep) hpass
  · exact (Noisy.pass (fun hstep => allocFixedRange_noisy hstep) hpass).trans
      (Noisy.pass (fun hstep => allocPlainRange_noisy hstep) hplain)

/-- A request that fails leaves the scan as it was exactly when it must not spill or there was
nothing to spill. -/
theorem alloc_atomic_iff (h : Handler R) (order : AllocatedAddrs → AllocatedAddrs)
    (ho : ∀ l, (order l).Perm l) (s s' : Scan R) (hwf : s.par.Wf) (newLiveRanges : List R)
    (haddr : ∀ r ∈ newLiveRanges, s.address r < wordSize) (allowSpills : Bool) (dir : Direction)
    (hr : alloc h order newLiveRanges allowSpills dir s = some (false, s')) :
    Untouched s s' ↔ allowSpills = false ∨ s.liveRanges = [] := by
  constructor
  · intro hu
    by_contra hnot
    obtain ⟨hspills, hlive⟩ := not_or.mp hnot
    rw [Bool.not_eq_false] at hspills
    subst hspills
    rcases (alloc_noisy hr).lost rfl with htold | hlost
    · exact htold hu.told
    · obtain ⟨r, hmem⟩ := List.exists_mem_of_ne_nil _ hlive
      have := hu.live r hmem
      simp [hlost] at this
  · intro hq
    exact alloc_untouched hwf haddr ho hq hr

/-- Plain ranges numbered by their size, every spill granted. -/
def sizedHandler : Handler (Fin 8) where
  isFixedAlloc _ := false
  getSize r := r.val
  getAlignment _ := 1
  getSpillWeight r := r.val
  spilled _ _ := true
  checkInvariantExceedingNNCMX _ _ _ := false
  getSize_lt r := r.isLt.trans (by decide)

theorem sizedHandler_getSize_lt : ∀ r, sizedHandler.getSize r < wordSize := sizedHandler.getSize_lt

theorem sizedHandler_live : ∃ s : Scan (Fin 8),
    (init 4 [] fun _ => 0).bind (alloc sizedHandler id [1] true .Up) = some (true, s) ∧
      s.liveRanges = [1] ∧ s.par = ⟨4, [⟨1, 4⟩]⟩ ∧ s.address 5 = 0 ∧
      (alloc sizedHandler id [5] true .Up s).map (fun x => (x.1, x.2.liveRanges)) =
        some (false, []) ∧
      (alloc sizedHandler id [5] false .Up s).map (fun x => (x.1, x.2.liveRanges)) =
        some (false, [1]) :=
  ⟨_, rfl, by decide +kernel, by decide +kernel, by decide +kernel, by decide +kernel,
    by decide +kernel⟩

/-- A request that does not fit even with everything spilled loses the live range. -/
theorem alloc_loses_live : ∃ s s' : Scan (Fin 8),
    (init 4 [] fun _ => 0).bind (alloc sizedHandler id [1] true .Up) = some (true, s) ∧
      alloc sizedHandler id [5] true .Up s = some (false, s') ∧ ¬ Untouched s s' := by
  obtain ⟨s, hs, hlive, -, -, hfail, -⟩ := sizedHandler_live
  obtain ⟨⟨ok, s'⟩, halloc, hres⟩ := Option.map_eq_some_iff.mp hfail
  obtain ⟨rfl, hlost⟩ : ok = false ∧ s'.liveRanges = [] := by simpa using hres
  refine ⟨s, s', hs, halloc, ?_⟩
  intro hu
  have hmem := hu.live 1 (by simp [hlive])
  simp [hlost] at hmem

/-- The same request without spills. -/
theorem alloc_atomic_sized : ∃ s s' : Scan (Fin 8), s.liveRanges = [1] ∧
    alloc sizedHandler id [5] false .Up s = some (false, s') ∧ Untouched s s' := by
  obtain ⟨s, -, hlive, hpar, haddr, -, hfail⟩ := sizedHandler_live
  obtain ⟨⟨ok, s'⟩, halloc, hres⟩ := Option.map_eq_some_iff.mp hfail
  obtain ⟨rfl, -⟩ : ok = false ∧ s'.liveRanges = [1] := by simpa using hres
  have hwf : s.par.Wf := hpar ▸ ⟨Separated.singleton (by decide), by simp, by decide⟩
  have hword : ∀ r ∈ [(5 : Fin 8)], s.address r < wordSize := by
    simp only [List.mem_singleton, forall_eq, haddr]
    decide
  exact ⟨s, s', hlive, halloc, (alloc_atomic_iff sizedHandler id (fun l => .refl l) s s' hwf [5]
    hword false .Up halloc).mpr (Or.inl rfl)⟩

end Alloc

end Vpux.Memory.LinearScan
