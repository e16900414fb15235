import Vpux.Memory.LinearScanRun

/-! The test allocations of `canAlloc` against what `alloc` does without spills. Both place the
ranges in the same order; only the test also looks at the addresses. -/
namespace Vpux.Memory.LinearScan
open Data Partitioner
open scoped List

variable {R : Type} [DecidableEq R] {h : Handler R} {order : AllocatedAddrs → AllocatedAddrs}
variable {s s' : Scan R} {al al' : AllocatedAddrs} {dir : Direction} {p p' : Partitioner}
variable {newLiveRanges : List R} {placed : List (R × ℕ)} {temp temp' : List (ℕ × ℕ)}

/-- The ranges one after the other with the addresses that the partitioner finds. -/
def placeAll (h : Handler R) (dir : Direction) :
    List R → Partitioner → Option (Partitioner × List (R × ℕ))
  | [], par => some (par, [])
  | newRange :: newLiveRanges, par => do
    let (par, addr) ← par.allocValidated (h.getSize newRange) (h.getAlignment newRange) dir
    guard (addr ≠ InvalidAddress)
    let (par, placed) ← placeAll h dir newLiveRanges par
    return (par, (newRange, addr) :: placed)

section PlaceAll

omit [DecidableEq R] in
theorem placeAll_cons {r : R} (hp : placeAll h dir (r :: newLiveRanges) p = some (p', placed)) :
    ∃ p₁ addr rest, p.allocValidated (h.getSize r) (h.getAlignment r) dir = some (p₁, addr) ∧
      addr ≠ InvalidAddress ∧ placeAll h dir newLiveRanges p₁ = some (p', rest) ∧
      placed = (r, addr) :: rest := by
  simp only [placeAll, Option.bind_eq_bind, Option.bind_eq_some_iff, Option.guard_eq_some',
    exists_const, Option.pure_def, Option.some.injEq, Prod.mk.injEq, Prod.exists] at hp
  obtain ⟨p₁, addr, halloc, hvalid, p₂, rest, hrest, rfl, rfl⟩ := hp
  exact ⟨p₁, addr, rest, halloc, hvalid, hrest, rfl⟩

omit [DecidableEq R] in
theorem placeAll_of_cons {r : R} {p₁ : Partitioner} {addr : ℕ}
    (halloc : p.allocValidated (h.getSize r) (h.getAlignment r) dir = some (p₁, addr))
    (hvalid : addr ≠ InvalidAddress) (hrest : placeAll h dir newLiveRanges p₁ = some (p', placed)) :
    placeAll h dir (r :: newLiveRanges) p = some (p', (r, addr) :: placed) := by
  simp [placeAll, halloc, hvalid, hrest]

omit [DecidableEq R] in
theorem placeAll_spec (hp : placeAll h dir newLiveRanges p = some (p', placed)) :
    placed.map Prod.fst = newLiveRanges ∧ ∀ q ∈ placed, q.2 ≠ InvalidAddress := by
  induction newLiveRanges generalizing p placed with
  | nil =>
    obtain ⟨-, rfl⟩ : p = p' ∧ [] = placed := by simpa [placeAll] using hp
    simp
  | cons r rs ih =>
    obtain ⟨p₁, addr, rest, -, hvalid, hrest, rfl⟩ := placeAll_cons hp
    obtain ⟨hmap, hall⟩ := ih hrest
    refine ⟨by rw [List.map_cons, hmap], fun q hq => ?_⟩
    rcases List.mem_cons.mp hq with rfl | hq
    · exact hvalid
    · exact hall q hq

theorem wf_of_allocValidated {size alignment addr : ℕ} (hwf : p.Wf)
    (halloc : p.allocValidated size alignment dir = some (p', addr)) :
    p'.Wf ∧ p'.totalSize = p.totalSize := by
  rcases allocValidated_safe hwf halloc with ⟨-, rfl⟩ | ⟨-, htakes⟩
  · exact ⟨hwf, rfl⟩
  · exact ⟨htakes.wf, htakes.total⟩

end PlaceAll

section Test

/-- The addresses pass the test for a concatenation with strides. -/
def Fits (h : Handler R) (total : ℕ) (placed : List (R × ℕ)) : Prop :=
  ∀ q ∈ placed, h.checkInvariantExceedingNNCMX q.1 q.2 total = false

omit [DecidableEq R] in
theorem tempAlloc_true (hwf : p.Wf)
    (ht : tempAlloc h dir newLiveRanges p temp = some (true, p', temp')) :
    ∃ placed, placeAll h dir newLiveRanges p = some (p', placed) ∧ Fits h p.totalSize placed := by
  induction newLiveRanges generalizing p temp with
  | nil =>
    obtain ⟨rfl, rfl⟩ : p = p' ∧ temp = temp' := by simpa [tempAlloc] using ht
    exact ⟨[], rfl, by simp [Fits]⟩
  | cons r rs ih =>
    simp only [tempAlloc, Option.bind_eq_bind, Option.bind_eq_some_iff, Prod.exists] at ht
    obtain ⟨p₁, addr, halloc, ht⟩ := ht
    obtain ⟨hwf₁, htotal⟩ := wf_of_allocValidated hwf halloc
    split_ifs at ht with hinvalid hexceeds
    · simp at ht
    · simp at ht
    · obtain ⟨placed, hplaced, hfits⟩ := ih hwf₁ ht
      refine ⟨(r, addr) :: placed, placeAll_of_cons halloc hinvalid hplaced, fun q hq => ?_⟩
      rw [htotal] at hexceeds hfits
      rcases List.mem_cons.mp hq with rfl | hq
      · exact Bool.not_eq_true _ |>.mp hexceeds
      · exact hfits q hq

omit [DecidableEq R] in
theorem tempAlloc_of_placeAll (hwf : p.Wf) (temp : List (ℕ × ℕ))
    (hp : placeAll h dir newLiveRanges p = some (p', placed)) (hfits : Fits h p.totalSize placed) :
    ∃ temp', tempAlloc h dir newLiveRanges p temp = some (true, p', temp') := by
  induction newLiveRanges generalizing p placed temp with
  | nil =>
    obtain ⟨rfl, -⟩ : p = p' ∧ [] = placed := by simpa [placeAll] using hp
    exact ⟨temp, rfl⟩
  | cons r rs ih =>
    obtain ⟨p₁, addr, rest, halloc, hvalid, hrest, rfl⟩ := placeAll_cons hp
    obtain ⟨hwf₁, htotal⟩ := wf_of_allocValidated hwf halloc
    have hfirst := hfits (r, addr) (by simp)
    obtain ⟨temp', htemp⟩ := ih hwf₁ (temp ++ [(addr, h.getSize r)]) hrest
      (htotal ▸ fun q hq => hfits q (by simp [hq]))
    refine ⟨temp', ?_⟩
    rw [← htotal] at hfirst
    simp [tempAlloc, halloc, hvalid, hfirst, htemp]

variable {ok : Bool}

omit [DecidableEq R] in
theorem tempAlloc_exact {M : Set ℕ} {L : List (ℕ × ℕ)} (he : Exact M ⟨p, temp ++ L⟩)
    (ht : tempAlloc h dir newLiveRanges p temp = some (ok, p', temp')) :
    Exact M ⟨p', temp' ++ L⟩ ∧ p'.totalSize = p.totalSize := by
  induction newLiveRanges generalizing p temp with
  | nil =>
    obtain ⟨-, rfl, rfl⟩ : true = ok ∧ p = p' ∧ temp = temp' := by simpa [tempAlloc] using ht
    exact ⟨he, rfl⟩
  | cons r rs ih =>
    simp only [tempAlloc, Option.bind_eq_bind, Option.bind_eq_some_iff, Prod.exists] at ht
    obtain ⟨p₁, addr, halloc, ht⟩ := ht
    rcases allocValidated_safe he.wf halloc with ⟨rfl, rfl⟩ | ⟨hsize, htakes⟩
    · obtain ⟨-, rfl, rfl⟩ : false = ok ∧ p₁ = p' ∧ temp = temp' := by simpa using ht
      exact ⟨he, rfl⟩
    · have he₁ : Exact M ⟨p₁, temp ++ [(addr, h.getSize r)] ++ L⟩ := by
        refine (he.takes hsize htakes).perm ?_
        rw [List.append_assoc]
        exact List.perm_middle.symm
      split_ifs at ht with hinvalid hexceeds
      · have hvalid := (exact_valid he₁ (a := (addr, h.getSize r)) (by simp)).2
        exact absurd hinvalid hvalid
      · obtain ⟨-, rfl, rfl⟩ : false = ok ∧ p₁ = p' ∧ temp ++ [(addr, h.getSize r)] = temp' := by
          simpa using ht
        exact ⟨he₁, htakes.total⟩
      · obtain ⟨he', htotal⟩ := ih he₁ ht
        exact ⟨he', htotal.trans htakes.total⟩

omit [DecidableEq R] in
theorem tempAlloc_some (temp : List (ℕ × ℕ)) (hwf : p.Wf) (hword : p.totalSize < InvalidAddress)
    (hr : ∀ r ∈ newLiveRanges, 0 < h.getSize r ∧ 0 < h.getAlignment r ∧
      p.totalSize + h.getAlignment r ≤ wordSize) :
    ∃ ok p' temp', tempAlloc h dir newLiveRanges p temp = some (ok, p', temp') := by
  induction newLiveRanges generalizing p temp with
  | nil => exact ⟨true, p, temp, rfl⟩
  | cons r rs ih =>
    obtain ⟨hsize, halign, hfit⟩ := hr r (by simp)
    obtain ⟨p₁, addr, halloc, hres⟩ := allocValidated_spec hword dir hwf hsize halign hfit
    obtain ⟨hwf₁, htotal⟩ := wf_of_allocValidated hwf halloc
    obtain ⟨ok, p', temp', hrest⟩ := ih (temp ++ [(addr, h.getSize r)]) hwf₁ (htotal ▸ hword)
      (htotal ▸ fun q hq => hr q (by simp [hq]))
    simp only [tempAlloc, halloc, Option.bind_eq_bind, Option.bind_some]
    split_ifs
    · exact ⟨_, _, _, rfl⟩
    · exact ⟨_, _, _, rfl⟩
    · exact ⟨ok, p', temp', hrest⟩

theorem exact_free (hwf : p.Wf) : Exact (cover p.gaps) ⟨p, [] ++ []⟩ where
  wf := hwf
  bound := hwf.cover_lt
  nonempty := by simp
  disjoint := .nil
  inside := by simp
  covers := by simp

omit [DecidableEq R] in
theorem freeTemp_restores (hwf : p.Wf) (hword : p.totalSize < InvalidAddress)
    (ht : tempAlloc h dir newLiveRanges p [] = some (ok, p', temp')) :
    temp'.foldlM (fun (par : Partitioner) a => par.freeValidated a.1 a.2) p' = some p := by
  obtain ⟨he, htotal⟩ := tempAlloc_exact (exact_free hwf) ht
  have hfree : ∀ (temp : List (ℕ × ℕ)) (q : Partitioner), Exact (cover p.gaps) ⟨q, temp ++ []⟩ →
      q.totalSize = p.totalSize →
      temp.foldlM (fun (par : Partitioner) a => par.freeValidated a.1 a.2) q = some p := by
    intro temp
    induction temp with
    | nil =>
      intro q hq hsize
      have hgaps : q.gaps = p.gaps := hq.gaps_of_nil hwf.separated rfl
      have hqp : q = p := Partitioner.ext hsize hgaps
      rw [hqp]
      rfl
    | cons a temp ih =>
      intro q hq hsize
      obtain ⟨q₁, hstep, hsize₁, hq₁⟩ := freeValidated_exact hq (hsize ▸ hword)
      rw [List.foldlM_cons, hstep]
      exact ih q₁ hq₁ (hsize₁.trans hsize)
  exact hfree temp' p' he htotal

omit [DecidableEq R] in
theorem canAlloc_eq (hwf : s.par.Wf) (hword : s.par.totalSize < InvalidAddress)
    (ht : tempAlloc h dir newLiveRanges s.par [] = some (ok, p', temp')) :
    canAlloc h newLiveRanges dir s = some (ok, s) := by
  simp [canAlloc, ht, freeTemp_restores hwf hword ht]

omit [DecidableEq R] in
theorem canAlloc_cases (hwf : s.par.Wf) (hword : s.par.totalSize < InvalidAddress)
    (hcan : canAlloc h newLiveRanges dir s = some (ok, s')) :
    s' = s ∧ ∃ p' temp', tempAlloc h dir newLiveRanges s.par [] = some (ok, p', temp') := by
  cases htemp : tempAlloc h dir newLiveRanges s.par [] with
  | none => simp [canAlloc, htemp] at hcan
  | some result =>
    obtain ⟨ok₁, p', temp'⟩ := result
    rw [canAlloc_eq hwf hword htemp] at hcan
    obtain ⟨rfl, rfl⟩ := Prod.mk.inj (Option.some.inj hcan)
    exact ⟨rfl, p', temp', rfl⟩

omit [DecidableEq R] in
theorem canAlloc_true_iff (hwf : s.par.Wf) (hword : s.par.totalSize < InvalidAddress) :
    canAlloc h newLiveRanges dir s = some (true, s) ↔
      ∃ p' placed, placeAll h dir newLiveRanges s.par = some (p', placed) ∧
        Fits h s.par.totalSize placed := by
  constructor
  · intro hcan
    obtain ⟨-, p', temp', htemp⟩ := canAlloc_cases hwf hword hcan
    exact ⟨p', tempAlloc_true hwf htemp⟩
  · intro ⟨p', placed, hplaced, hfits⟩
    obtain ⟨temp', htemp⟩ := tempAlloc_of_placeAll hwf [] hplaced hfits
    exact canAlloc_eq hwf hword htemp

end Test

section Alloc

omit [DecidableEq R] in
theorem placePlain_some {size alignment addr : ℕ}
    (halloc : s.par.allocValidated size alignment dir =
    some (p, addr)) (hvalid : addr ≠ InvalidAddress) :
    placePlain size alignment dir s = some (some ({ s with par := p }, addr)) := by
  simp [placePlain, halloc, hvalid]

theorem allocPlainRange_true {r : R} {i : ℕ}
    (hr : allocPlainRange h order r i false dir s al = some (true, s', al')) :
    ∃ p addr, s.par.allocValidated (h.getSize r) (h.getAlignment r) dir = some (p, addr) ∧
      addr ≠ InvalidAddress ∧ s' = { s with par := p } ∧ al' = (i, addr, h.getSize r) :: al := by
  rcases allocPlainRange_quiet (Or.inl rfl) hr with ⟨hf, -⟩ | ⟨-, hplaced⟩
  · cases hf
  · exact hplaced

theorem allocPlainRange_of_alloc {r : R} {i addr : ℕ}
    (halloc : s.par.allocValidated (h.getSize r) (h.getAlignment r) dir = some (p, addr))
    (hvalid : addr ≠ InvalidAddress) :
    allocPlainRange h order r i false dir s al =
      some (true, { s with par := p }, (i, addr, h.getSize r) :: al) := by
  simp [allocPlainRange, makeRoom, placePlain_some halloc hvalid, performActualSpill]

/-- The entries of a pass that starts at a place of the request, latest first. -/
def entries (h : Handler R) (start : ℕ) : List (R × ℕ) → AllocatedAddrs → AllocatedAddrs
  | [], al => al
  | q :: placed, al => entries h (start + 1) placed ((start, q.2, h.getSize q.1) :: al)

variable (order al) in
theorem allocRanges_true_iff (start : ℕ) :
    allocRanges (fun r i s al => allocPlainRange h order r i false dir s al)
        (newLiveRanges.zipIdx start) s al = some (true, s', al') ↔
      ∃ p' placed, placeAll h dir newLiveRanges s.par = some (p', placed) ∧
        s' = { s with par := p' } ∧ al' = entries h start placed al := by
  induction newLiveRanges generalizing s al start with
  | nil =>
    simp only [List.zipIdx_nil, allocRanges, placeAll, Option.some.injEq, Prod.mk.injEq, true_and]
    constructor
    · rintro ⟨hs, hal⟩
      exact ⟨s.par, [], ⟨rfl, rfl⟩, hs.symm, hal.symm⟩
    · rintro ⟨p', placed, ⟨hp, hplaced⟩, hs, hal⟩
      subst hp hplaced
      exact ⟨hs.symm, hal.symm⟩
  | cons r rs ih =>
    rw [List.zipIdx_cons]
    constructor
    · intro hr
      simp only [allocRanges, Option.bind_eq_bind, Option.bind_eq_some_iff, Prod.exists] at hr
      obtain ⟨ok, s₁, al₁, hfirst, hr⟩ := hr
      cases ok with
      | false => simp at hr
      | true =>
        obtain ⟨p₁, addr, halloc, hvalid, rfl, rfl⟩ := allocPlainRange_true hfirst
        obtain ⟨p', placed, hplaced, rfl, rfl⟩ := (ih _ (start + 1)).mp (by simpa using hr)
        exact ⟨p', (r, addr) :: placed, placeAll_of_cons halloc hvalid hplaced, rfl, rfl⟩
    · rintro ⟨p', placed, hplaced, hs, hal⟩
      obtain ⟨p₁, addr, rest, halloc, hvalid, hrest, rfl⟩ := placeAll_cons hplaced
      have hnext := (@ih { s with par := p₁ } ((start, addr, h.getSize r) :: al)
        (start + 1)).mpr ⟨p', rest, hrest, hs, hal⟩
      simp [allocRanges, allocPlainRange_of_alloc halloc hvalid, hnext]

omit [DecidableEq R] in
theorem find_entries {start i : ℕ} {e : ℕ × ℕ × ℕ} (hi : i < start)
    (hfind : al.find? (fun p => p.1 = i) = some e) :
    (entries h start placed al).find? (fun p => p.1 = i) = some e := by
  induction placed generalizing start al with
  | nil => exact hfind
  | cons q placed ih =>
    refine ih (by omega) ?_
    rw [List.find?_cons_of_neg (by simpa using Nat.ne_of_gt hi)]
    exact hfind

variable (h al s) in
theorem introduce_entries (start : ℕ) (hvalid : ∀ q ∈ placed, q.2 ≠ InvalidAddress) :
    ∃ s', introduce (entries h start placed al) ((placed.map Prod.fst).zipIdx start) s = some s' ∧
      s'.told = s.told ++ placed.map fun q => .allocated q.1 q.2 := by
  induction placed generalizing start al s with
  | nil => exact ⟨s, rfl, by simp⟩
  | cons q placed ih =>
    have hfind : (entries h start (q :: placed) al).find? (fun p => p.1 = start) =
        some (start, q.2, h.getSize q.1) := by
      show (entries h (start + 1) placed ((start, q.2, h.getSize q.1) :: al)).find? _ = _
      exact find_entries (Nat.lt_succ_self start) (by simp)
    obtain ⟨s', hrest, htold⟩ := @ih { allocated s q.1 q.2 with
      liveRanges := (allocated s q.1 q.2).liveRanges ++ [q.1] }
      ((start, q.2, h.getSize q.1) :: al) (start + 1) fun q' hq' => hvalid q' (by simp [hq'])
    refine ⟨s', ?_, ?_⟩
    · rw [List.map_cons, List.zipIdx_cons]
      simp only [introduce, hfind, Option.bind_eq_bind, Option.bind_some, hvalid q (by simp),
        ne_eq, not_false_eq_true, guard_true, Option.pure_def]
      exact hrest
    · rw [htold]
      simp [allocated]

variable (hplain : ∀ r ∈ newLiveRanges, h.isFixedAlloc r = false)

include hplain

omit [DecidableEq R] in
theorem filter_plain : (newLiveRanges.zipIdx.filter fun r => h.isFixedAlloc r.1) = [] ∧
    (newLiveRanges.zipIdx.filter fun r => !h.isFixedAlloc r.1) = newLiveRanges.zipIdx := by
  have hmem : ∀ a ∈ newLiveRanges.zipIdx, h.isFixedAlloc a.1 = false :=
    fun a ha => hplain a.1 (List.fst_mem_of_mem_zipIdx ha)
  constructor
  · rw [List.filter_eq_nil_iff]
    intro a ha
    simp [hmem a ha]
  · rw [List.filter_eq_self]
    intro a ha
    simp [hmem a ha]

/-- Without spills a request of plain ranges is met exactly when the partitioner finds room for
one after the other. -/
theorem alloc_true_iff (placed : List (R × ℕ)) :
    (∃ s', alloc h order newLiveRanges false dir s = some (true, s') ∧
      placed.map Prod.fst = newLiveRanges ∧
      s'.told = s.told ++ placed.map fun q => .allocated q.1 q.2) ↔
    ∃ p', placeAll h dir newLiveRanges s.par = some (p', placed) := by
  obtain ⟨hfixed, hrest⟩ := filter_plain hplain
  constructor
  · rintro ⟨s', halloc, hmap, htold⟩
    simp only [alloc, hfixed, hrest, allocRanges, Option.bind_eq_bind, Option.bind_some,
      Bool.not_true, Bool.false_eq_true, if_false, Option.bind_eq_some_iff, Prod.exists] at halloc
    obtain ⟨ok, s₁, al₁, hpass, halloc⟩ := halloc
    cases ok with
    | false => simp at halloc
    | true =>
      obtain ⟨p', placed', hplaced, rfl, rfl⟩ := (allocRanges_true_iff _ _ 0).mp hpass
      obtain ⟨hmap', hvalid⟩ := placeAll_spec hplaced
      obtain ⟨s₂, hintroduce, htold'⟩ :=
        introduce_entries h { s with par := p' } [] 0 hvalid
      rw [hmap'] at hintroduce
      simp only [hintroduce, Bool.not_true, Bool.false_eq_true, if_false, Option.bind_some,
        Option.pure_def, Option.some.injEq, Prod.mk.injEq, true_and] at halloc
      subst halloc
      have hevents := List.append_cancel_left (htold'.symm.trans htold)
      have hinj : Function.Injective fun q : R × ℕ => Event.allocated q.1 q.2 := by
        intro a b hab
        obtain ⟨h₁, h₂⟩ := Event.allocated.inj hab
        exact Prod.ext h₁ h₂
      exact ⟨p', List.map_injective_iff.mpr hinj hevents ▸ hplaced⟩
  · rintro ⟨p', hplaced⟩
    obtain ⟨hmap, hvalid⟩ := placeAll_spec hplaced
    have hpass := (allocRanges_true_iff order [] 0).mpr
      ⟨p', placed, hplaced, rfl, rfl⟩
    obtain ⟨s', hintroduce, htold⟩ :=
      introduce_entries h { s with par := p' } [] 0 hvalid
    rw [hmap] at hintroduce
    refine ⟨s', ?_, hmap, htold⟩
    simp [alloc, hfixed, hrest, allocRanges, hpass, hintroduce]

end Alloc

/-- The test changes nothing. It succeeds exactly when `alloc` would succeed without spills and
every address it would choose passes the test for a concatenation with strides. -/
theorem canAlloc_iff_alloc (order : AllocatedAddrs → AllocatedAddrs) (dir : Direction)
    (hwf : s.par.Wf) (hword : s.par.totalSize < InvalidAddress)
    (hplain : ∀ r ∈ newLiveRanges, h.isFixedAlloc r = false) :
    (∀ ok s', canAlloc h newLiveRanges dir s = some (ok, s') → s' = s) ∧
    (canAlloc h newLiveRanges dir s = some (true, s) ↔
      ∃ (s' : Scan R) (placed : List (R × ℕ)),
        alloc h order newLiveRanges false dir s = some (true, s') ∧
        placed.map Prod.fst = newLiveRanges ∧
        (s'.told = s.told ++ placed.map fun q => .allocated q.1 q.2) ∧
        ∀ q ∈ placed, h.checkInvariantExceedingNNCMX q.1 q.2 s.par.totalSize = false) ∧
    ((∀ r ∈ newLiveRanges, 0 < h.getSize r ∧ 0 < h.getAlignment r ∧
        s.par.totalSize + h.getAlignment r ≤ wordSize) →
      ∃ ok, canAlloc h newLiveRanges dir s = some (ok, s)) := by
  refine ⟨fun ok s' hcan => (canAlloc_cases hwf hword hcan).1, ?_, fun hr => ?_⟩
  · rw [canAlloc_true_iff hwf hword]
    constructor
    · intro ⟨p', placed, hplaced, hfits⟩
      obtain ⟨s', halloc, hmap, htold⟩ := (alloc_true_iff hplain placed).mpr ⟨p', hplaced⟩
      exact ⟨s', placed, halloc, hmap, htold, hfits⟩
    · intro ⟨s', placed, halloc, hmap, htold, hfits⟩
      obtain ⟨p', hplaced⟩ := (alloc_true_iff hplain placed).mp ⟨s', halloc, hmap, htold⟩
      exact ⟨p', placed, hplaced, hfits⟩
  · obtain ⟨ok, p', temp', htemp⟩ := tempAlloc_some [] hwf hword hr
    exact ⟨ok, canAlloc_eq hwf hword htemp⟩

/-- No address leaves room for twelve more bytes of strides. -/
def stridedHandler : Handler (Fin 8) :=
  { sizedHandler with
    checkInvariantExceedingNNCMX := fun _ baseOffset cmxSize => cmxSize < baseOffset + 12
    getSize_lt := sizedHandler_getSize_lt }

/-- The test refuses a range that `alloc` places. -/
theorem canAlloc_strided : ∃ s : Scan (Fin 8), init 8 [] (fun _ => 0) = some s ∧
    canAlloc stridedHandler [3] .Up s = some (false, s) ∧
    ∃ s', alloc stridedHandler id [3] false .Up s = some (true, s') :=
  ⟨⟨⟨8, [⟨0, 8⟩]⟩, [], fun _ => 0, []⟩, rfl, rfl, _, rfl⟩

theorem canAlloc_iff_alloc_sized :
    let s : Scan (Fin 8) := ⟨⟨8, [⟨0, 8⟩]⟩, [], fun _ => 0, []⟩
    canAlloc sizedHandler [3, 5] .Down s = some (true, s) ∧
      ∃ s', alloc sizedHandler id [3, 5] false .Down s = some (true, s') := by
  intro s
  have hwf : s.par.Wf := (exact_start (by decide) (by decide)).wf
  have hpredicts := canAlloc_iff_alloc (s := s) (h := sizedHandler) id .Down hwf (by decide)
    (show ∀ r ∈ [3, 5], sizedHandler.isFixedAlloc r = false from fun _ _ => rfl)
  have hok : (canAlloc sizedHandler [3, 5] .Down s).map Prod.fst = some true := by decide +kernel
  obtain ⟨⟨ok, s₁⟩, hcan, rfl⟩ := Option.map_eq_some_iff.mp hok
  obtain rfl := hpredicts.1 _ _ hcan
  obtain ⟨s', placed, halloc, -⟩ := hpredicts.2.1.mp hcan
  exact ⟨hcan, s', halloc⟩

end Vpux.Memory.LinearScan
