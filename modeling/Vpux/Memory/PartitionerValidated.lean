import Vpux.Memory.PartitionerSpec
import Mathlib.Data.Option.Basic

/-! The calls of a build with assertions. A sum that wraps does not get past the validator, so
a call that returns did what it should, whatever its arguments. -/
namespace Vpux.Memory.Partitioner
open Data

variable {p p' : Partitioner} {addr size alignment : ℕ} {dir : Direction} {g : Gap}

theorem add64_wrap {a b : ℕ} (ha : a < wordSize) (hb : b < wordSize) (h : wordSize ≤ a + b) :
    add64 a b = a + b - wordSize := by
  unfold add64
  rw [Nat.mod_eq_sub_mod h, Nat.mod_eq_of_lt (by omega)]

theorem Validates.lt (h : p.Validates) (hg : g ∈ p.gaps) : g.lo < g.hi := (h.1 g hg).2.2

theorem Validates.adjacent {pre post : List Gap} {a b : Gap} (h : p.Validates)
    (hp : p.gaps = pre ++ a :: b :: post) : a.hi ≤ b.lo := by
  have hchain := h.2
  rw [hp] at hchain
  have hab := hchain.right_of_append
  exact (List.isChain_cons_cons.mp hab).1

theorem isChain_of_separated {l : List Gap} (h : Separated l) :
    l.IsChain fun prev g => prev.hi ≤ g.lo :=
  (h.apart.imp fun hlt => hlt.le).isChain

theorem Wf.validates (h : p.Wf) (ht : p.totalSize < InvalidAddress) : p.Validates := by
  refine ⟨?_, isChain_of_separated h.separated⟩
  intro g hg
  have hlt := h.separated.nonempty g hg
  have hin := h.inside g hg
  exact ⟨by omega, by omega, hlt⟩

open Option

section Alloc

theorem alignValUp_lt (val align : ℕ) : alignValUp val align < wordSize := by
  have hmod : (val + (align - 1)) % wordSize < wordSize := Nat.mod_lt _ (by decide)
  exact (Nat.div_mul_le_self _ _).trans_lt hmod

theorem sub64_lt (a b : ℕ) : sub64 a b < wordSize := Nat.mod_lt _ (by decide)

theorem getAddrFromGap_lt (hr : getAddrFromGap size alignment dir g ≠ InvalidAddress) :
    size ≤ Gap.size g ∧ getAddrFromGap size alignment dir g < wordSize := by
  unfold getAddrFromGap at hr ⊢
  split_ifs at hr ⊢ with hlt
  · exact absurd rfl hr
  · refine ⟨not_lt.mp hlt, ?_⟩
    cases dir with
    | Up =>
      dsimp only at hr ⊢
      split_ifs at hr ⊢
      · exact absurd rfl hr
      · exact alignValUp_lt _ _
    | Down =>
      dsimp only at hr ⊢
      split_ifs at hr ⊢
      all_goals first | exact absurd rfl hr | exact alignValUp_lt _ _ | exact sub64_lt _ _

theorem useGap_wrap {pre post gaps : List Gap} (ht : p.gaps = pre ++ g :: post) (h : p.Wf)
    (hsize : size ≤ Gap.size g) (haddr : addr < wordSize)
    (hwrap : wordSize ≤ addr + size) (huse : useGap p.gaps pre.length addr size = some gaps) :
    ¬ Validates { p with gaps := gaps } := by
  intro hv
  have hg : g ∈ p.gaps := by simp [ht]
  have hhi := h.hi_lt hg
  rw [h.gap_size hg] at hsize
  have hend : add64 addr size = addr + size - wordSize := add64_wrap haddr (by omega) hwrap
  rw [ht] at huse
  unfold useGap at huse
  simp only [hend] at huse
  have hget : (pre ++ g :: post)[pre.length]? = some g := by simp
  rw [hget] at huse
  by_cases hlo : g.lo ≤ addr
  · have hleft : sub64 addr g.lo = addr - g.lo := sub64_eq hlo haddr
    have hright : sub64 g.hi (addr + size - wordSize) = g.hi - (addr + size - wordSize) :=
      sub64_eq (by omega) hhi
    have h1 : addr - g.lo ≠ 0 := by omega
    have h2 : g.hi - (addr + size - wordSize) ≠ 0 := by omega
    simp only [bind_eq_bind, bind_some, bind_eq_some_iff,
      guard_eq_some', exists_const, hleft, hright, h1, h2, false_and, if_false,
      and_false] at huse
    have hgaps : pre ++ ⟨g.lo, addr⟩ :: ⟨addr + size - wordSize, g.hi⟩ :: post = gaps := by
      simpa [insertIdx_length] using huse.2.2
    have hle := hv.adjacent hgaps.symm
    dsimp only at hle
    omega
  · simp [hlo] at huse

theorem useGap_within {gaps gaps' : List Gap} {i : ℕ} (huse : useGap gaps i addr size = some gaps')
    (hi : gaps[i]? = some g) (hend : addr + size < wordSize) : g.lo ≤ addr ∧ addr + size ≤
      g.hi := by
  unfold useGap at huse
  rw [hi, add64_eq hend] at huse
  simp only [bind_eq_bind, bind_some, bind_eq_some_iff,
    guard_eq_some', exists_const] at huse
  exact ⟨huse.1, huse.2.1⟩

theorem allocValidated_safe (h : p.Wf)
    (halloc : p.allocValidated size alignment dir = some (p', addr)) :
    addr = InvalidAddress ∧ p' = p ∨ 0 < size ∧ Takes p addr size p' := by
  unfold allocValidated alloc chooseMinimalGap at halloc
  simp only [bind_eq_bind, bind_eq_some_iff, guard_eq_some', pure_def,
    Option.some.injEq, Prod.mk.injEq, Prod.exists, exists_const] at halloc
  obtain ⟨-, p₁, addr₁, ⟨hs, -, hchoose⟩, hv, rfl, rfl⟩ := halloc
  cases hind : minGapInd size alignment dir p.gaps with
  | none =>
    rw [hind] at hchoose
    obtain ⟨rfl, rfl⟩ : p = p₁ ∧ InvalidAddress = addr₁ := by simpa using hchoose
    exact Or.inl ⟨rfl, rfl⟩
  | some i =>
    rw [hind] at hchoose
    simp only [bind_eq_some_iff, Option.some.injEq, Prod.mk.injEq] at hchoose
    obtain ⟨g, hi, gaps, huse, rfl, rfl⟩ := hchoose
    obtain ⟨g', hi', hsuit, -⟩ := minGapInd_spec hind
    obtain rfl : g = g' := Option.some.inj (hi.symm.trans hi')
    obtain ⟨hfit, hword⟩ := getAddrFromGap_lt hsuit
    obtain ⟨pre, post, hgaps, rfl⟩ := split_at_index hi
    have hg : g ∈ p.gaps := List.mem_of_getElem? hi
    by_cases hwrap : wordSize ≤ getAddrFromGap size alignment dir g + size
    · exact absurd hv (useGap_wrap hgaps h hfit hword hwrap huse)
    · obtain ⟨hlo, hhi⟩ := useGap_within huse hi (not_le.mp hwrap)
      rw [hgaps, useGap_eq hlo hhi (h.hi_lt hg), Option.some.injEq] at huse
      exact Or.inr ⟨hs, huse ▸ Takes.of_carve h hgaps hlo hhi hs⟩

end Alloc

section AllocFixed

theorem allocInside_gap {it : ℕ} (hend : addr + size < wordSize)
    (h : p.allocInside it addr size = some p') : ∃ g ∈ p.gaps, g.lo ≤ addr ∧ addr + size ≤
      g.hi := by
  unfold allocInside at h
  simp only [bind_eq_bind, bind_eq_some_iff, guard_eq_some', exists_const,
    add64_eq hend] at h
  obtain ⟨-, g, hg, hlo, hhi, -⟩ := h
  exact ⟨g, List.mem_of_getElem? hg, hlo.le, hhi⟩

theorem allocFixed_gap (hp : p.Wf) (hend : addr + size < wordSize)
    (h : p.allocFixed addr size = some p') :
    0 < size ∧ ∃ g ∈ p.gaps, g.lo ≤ addr ∧ addr + size ≤ g.hi := by
  unfold allocFixed at h
  simp only [bind_eq_bind, bind_eq_some_iff, guard_eq_some', exists_const] at h
  obtain ⟨-, hs, -, -, h⟩ := h
  refine ⟨hs, ?_⟩
  split at h
  · next g hg =>
    have hmem := List.mem_of_getElem? hg
    by_cases heq : g.lo = addr
    · rw [if_pos heq] at h
      simp only [bind_eq_some_iff, guard_eq_some', exists_const] at h
      have hfit := h.1
      rw [hp.gap_size hmem] at hfit
      exact ⟨g, hmem, heq.le, by omega⟩
    · rw [if_neg heq] at h
      exact allocInside_gap hend h
  · exact allocInside_gap hend h

/-- What `allocFixed` returns is right, unless the end of the range wraps. -/
theorem allocFixedValidated_safe (hp : p.Wf) (hend : addr + size < wordSize)
    (h : p.allocFixedValidated addr size = some p') : 0 < size ∧ Takes p addr size p' := by
  unfold allocFixedValidated at h
  simp only [bind_eq_bind, bind_eq_some_iff, guard_eq_some', exists_const,
    pure_def, Option.some.injEq] at h
  obtain ⟨-, p₁, halloc, -, rfl⟩ := h
  obtain ⟨hs, g, hg, hlo, hhi⟩ := allocFixed_gap hp hend halloc
  obtain ⟨p₂, halloc', ht⟩ := allocFixed_spec hp hs hg hlo hhi
  obtain rfl := Option.some.inj (halloc.symm.trans halloc')
  exact ⟨hs, ht⟩

end AllocFixed

section Free

/-- A range that wraps, with end `last`, and touches no gap. -/
structure Apart (addr last : ℕ) (g : Gap) : Prop where
  begins : ¬ (g.lo ≤ addr ∧ addr < g.hi)
  ends : 0 < last → ¬ (g.lo ≤ last - 1 ∧ last - 1 < g.hi)

theorem apart_of_wrap (hg : g.lo < g.hi) (hhi : g.hi < wordSize) (haddr : addr < wordSize)
    (hsize : size < wordSize) (hwrap : wordSize ≤ addr + size)
    (h : intersects addr size g.lo (Gap.size g) = some false) :
    Apart addr (addr + size - wordSize) g := by
  have hgs : Gap.size g = g.hi - g.lo := sub64_eq hg.le hhi
  have hend : add64 g.lo (Gap.size g) = g.hi := by
    rw [hgs, add64_eq] <;> omega
  unfold intersects at h
  simp only [add64_wrap haddr hsize hwrap, hend, bind_eq_bind, bind_eq_some_iff,
    guard_eq_some', exists_const, pure_def, Option.some.injEq, Bool.or_eq_false_iff,
    decide_eq_false_iff_not] at h
  obtain ⟨-, -, ⟨-, hb⟩, he⟩ := h
  constructor
  · exact hb
  · intro hpos
    have hone : sub64 (addr + size - wordSize) 1 = addr + size - wordSize - 1 :=
      sub64_eq (Nat.succ_le_of_lt hpos) (by omega)
    rw [hone] at he
    exact he

section Wrap

variable {last : ℕ} (hadd : add64 addr size = last) (hlt : last < addr)
  (hsub : sub64 last size = addr)

include hadd hlt in
theorem append_wrap (h : Apart addr last g) (htouch : addr = g.hi) :
    (append g size).hi ≤ (append g size).lo := by
  have hhi : (append g size).hi = last := by
    unfold append
    rw [← htouch, hadd]
  have hends := h.ends
  change (append g size).hi ≤ g.lo
  omega

include hlt hsub in
theorem prepend_wrap (h : Apart addr last g) (htouch : last = g.lo) :
    (prepend g size).hi ≤ (prepend g size).lo := by
  have hlo : (prepend g size).lo = addr := by
    unfold prepend
    rw [← htouch, hsub]
  have hbegins := h.begins
  change g.hi ≤ (prepend g size).lo
  omega

include hadd hlt hsub

theorem freeBetween_wrap {gaps freed : List Gap} (hg : ∀ g ∈ gaps, Apart addr last g)
    (hc : gaps.IsChain fun prev g => prev.hi ≤ g.lo) (h : freeBetween addr size gaps = some freed) :
    ∃ g ∈ freed, g.hi ≤ g.lo := by
  induction gaps generalizing freed with
  | nil => simp [freeBetween] at h
  | cons g gaps ih =>
    cases gaps with
    | nil => simp [freeBetween] at h
    | cons t gaps =>
      obtain ⟨hgt, hrest⟩ := List.isChain_cons_cons.mp hc
      simp only [freeBetween, hadd] at h
      split_ifs at h with hbetween h1 h2 h2
      · omega
      · obtain rfl := Option.some.inj h
        exact ⟨_, by simp, append_wrap hadd hlt (hg g (by simp)) h1⟩
      · obtain rfl := Option.some.inj h
        exact ⟨_, by simp, prepend_wrap hlt hsub (hg t (by simp)) h2⟩
      · obtain rfl := Option.some.inj h
        exact ⟨⟨addr, last⟩, by simp, hlt.le⟩
      · obtain ⟨freed', hfreed, rfl⟩ := map_eq_some_iff.mp h
        obtain ⟨u, hu, hbad⟩ := ih (fun u hu => hg u (by simp [hu])) hrest hfreed
        exact ⟨u, by simp [hu], hbad⟩

theorem freeAtLast_wrap {gaps : List Gap} (hne : gaps ≠ []) (hg : ∀ g ∈ gaps, Apart addr last g) :
    ∃ g ∈ freeAtLast addr size gaps, g.hi ≤ g.lo := by
  induction gaps with
  | nil => exact absurd rfl hne
  | cons g gaps ih =>
    cases gaps with
    | nil =>
      simp only [freeAtLast, hadd]
      split_ifs with h1 h2 h3
      · exact ⟨⟨addr, last⟩, by simp, hlt.le⟩
      · exact ⟨_, by simp, prepend_wrap hlt hsub (hg g (by simp)) h2⟩
      · exact ⟨_, by simp, append_wrap hadd hlt (hg g (by simp)) h3⟩
      · exact ⟨⟨addr, last⟩, by simp, hlt.le⟩
    | cons t gaps =>
      obtain ⟨u, hu, hbad⟩ := ih (by simp) (fun u hu => hg u (by simp [hu]))
      exact ⟨u, by simp [freeAtLast, hu], hbad⟩

theorem freeGaps_wrap {gaps : List Gap} (hg : ∀ g ∈ gaps, Apart addr last g)
    (hc : gaps.IsChain fun prev g => prev.hi ≤ g.lo) : ∃ g ∈ freeGaps addr size gaps, g.hi ≤
      g.lo := by
  cases gaps with
  | nil => exact ⟨⟨addr, last⟩, by simp [freeGaps, hadd], hlt.le⟩
  | cons g gaps =>
    simp only [freeGaps, hadd]
    split_ifs with h1 h2
    · exact ⟨_, by simp, prepend_wrap hlt hsub (hg g (by simp)) h1⟩
    · exact ⟨⟨addr, last⟩, by simp, hlt.le⟩
    · cases hfree : freeBetween addr size (g :: gaps) with
      | none => exact freeAtLast_wrap hadd hlt hsub (by simp) hg
      | some freed => exact freeBetween_wrap hadd hlt hsub hg hc hfree

end Wrap

/-- A range whose end wraps is never given back. -/
theorem freeValidated_wrap (haddr : addr < wordSize) (hsize : size < wordSize)
    (hwrap : wordSize ≤ addr + size) : p.freeValidated addr size = none := by
  by_contra hne
  obtain ⟨p', hp'⟩ := ne_none_iff_exists'.mp hne
  unfold freeValidated free at hp'
  simp only [bind_eq_bind, bind_eq_some_iff, guard_eq_some', exists_const,
    pure_def, Option.some.injEq] at hp'
  obtain ⟨hv, _, ⟨-, hs, hnew, rfl⟩, hv', rfl⟩ := hp'
  have hlt : add64 addr size < addr := by
    rw [add64_wrap haddr hsize hwrap]
    omega
  have hsub : sub64 (add64 addr size) size = addr := by
    rw [add64_wrap haddr hsize hwrap]
    unfold sub64
    rw [Nat.mod_eq_of_lt hsize, Nat.mod_eq_of_lt (by omega)]
    omega
  have hgaps : ∀ g ∈ p.gaps, Apart addr (add64 addr size) g := by
    intro g hg
    have hhi : g.hi < wordSize := (hv.1 g hg).2.1.trans_le (Nat.sub_le _ _)
    rw [add64_wrap haddr hsize hwrap]
    exact apart_of_wrap (hv.lt hg) hhi haddr hsize hwrap (hnew g hg)
  obtain ⟨g, hg, hbad⟩ := freeGaps_wrap rfl hlt hsub hgaps hv.2
  exact absurd (hv'.lt hg) (not_lt.mpr hbad)

end Free

section Progress

variable (ht : p.totalSize < InvalidAddress)

include ht

theorem allocValidated_spec (dir : Direction) (h : p.Wf) (hs : 0 < size) (ha : 0 < alignment)
    (hfit : p.totalSize + alignment ≤ wordSize) :
    ∃ p' addr, p.allocValidated size alignment dir = some (p', addr) ∧
      (addr = InvalidAddress ∧ p' = p ∨ addr ≠ InvalidAddress ∧ Takes p addr size p') := by
  have hfits : p.AllocFits size alignment dir := allocFits_of_total h ha hfit
  obtain ⟨p', addr, halloc, hres⟩ := alloc_spec h hs ha hfits
  have hv' : p'.Validates := by
    rcases hres with ⟨-, rfl⟩ | ⟨-, htakes⟩
    · exact h.validates ht
    · exact htakes.wf.validates (htakes.total ▸ ht)
  exact ⟨p', addr, by simp [allocValidated, h.validates ht, halloc, hv'], hres⟩

theorem allocFixedValidated_spec (h : p.Wf) (hs : 0 < size) (hg : g ∈ p.gaps) (hlo : g.lo ≤ addr)
    (hhi : addr + size ≤ g.hi) :
    ∃ p', p.allocFixedValidated addr size = some p' ∧ Takes p addr size p' := by
  obtain ⟨p', halloc, htakes⟩ := allocFixed_spec h hs hg hlo hhi
  have hv' : p'.Validates := htakes.wf.validates (htakes.total ▸ ht)
  exact ⟨p', by simp [allocFixedValidated, h.validates ht, halloc, hv'], htakes⟩

end Progress

theorem freeValidated_eq (h : p.Wf) (ht : p.totalSize < InvalidAddress)
    (hfree : p.free addr size = some p') (h' : p'.Wf) (htotal : p'.totalSize = p.totalSize) :
    p.freeValidated addr size = some p' := by
  have hv' : p'.Validates := h'.validates (htotal ▸ ht)
  simp [freeValidated, h.validates ht, hfree, hv']

end Vpux.Memory.Partitioner
