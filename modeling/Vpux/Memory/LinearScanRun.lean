import Vpux.Memory.LinearScanExact

/-! Runs of a linear scan. The reserved memory, the live ranges and the gaps make up the memory
in every state, when no fixed range is placed on memory that is taken already. -/
namespace Vpux.Memory.LinearScan
open Data Partitioner
open scoped List

variable {R : Type} [DecidableEq R] {h : Handler R} {order : AllocatedAddrs → AllocatedAddrs}
variable {s s' : Scan R} {al al' : AllocatedAddrs} {allowSpills : Bool} {dir : Direction} {T : ℕ}
variable {reserved : List (ℕ × ℕ)} {rs : List (R × ℕ)}

section Alloc

theorem find_key {a : ℕ × ℕ × ℕ} (hnodup : (al.map Prod.fst).Nodup) (ha : a ∈ al) :
    al.find? (fun p => p.1 = a.1) = some a := by
  induction al with
  | nil => simp at ha
  | cons b al ih =>
    obtain ⟨hb, hnodup⟩ := List.nodup_cons.mp hnodup
    rcases List.mem_cons.mp ha with rfl | ha
    · simp
    · have hne : b.1 ≠ a.1 := fun heq => hb (heq ▸ List.mem_map_of_mem ha)
      rw [List.find?_cons_of_neg (by simpa using hne)]
      exact ih hnodup ha

theorem introduce_holds {rem : AllocatedAddrs} (hnodup : (al.map Prod.fst).Nodup)
    (hrem : ∀ a ∈ rem, a ∈ al) (hkeys : keys rem ~ wanted h rs)
    (hfresh : (rs.map Prod.fst).Nodup) (hlive : ∀ a ∈ rs, a.1 ∉ s.liveRanges)
    (hs : Holds T h (ranges rem ++ reserved) s) :
    ∃ s', introduce al rs s = some s' ∧ Holds T h reserved s' := by
  induction rs generalizing s rem with
  | nil =>
    have hnil : rem = [] := by simpa [keys, wanted] using hkeys
    subst hnil
    exact ⟨s, rfl, hs⟩
  | cons a rs ih =>
    obtain ⟨r, i⟩ := a
    obtain ⟨hr, hfresh⟩ := List.nodup_cons.mp hfresh
    have hmem : (i, h.getSize r) ∈ keys rem := hkeys.mem_iff.mpr (by simp [wanted])
    obtain ⟨e, he, hkey⟩ := List.mem_map.mp hmem
    obtain ⟨hi, hsize⟩ := Prod.mk.inj hkey
    have hfind : al.find? (fun p => p.1 = i) = some e := hi ▸ find_key hnodup (hrem e he)
    have hvalid : e.2.1 ≠ InvalidAddress := (exact_valid hs.exact (a := e.2) (by
      simp only [ranges, List.mem_append, List.mem_map]
      exact Or.inl (Or.inl ⟨e, he, rfl⟩))).2
    have herase := List.perm_cons_erase he
    have hr' : r ∉ s.liveRanges := hlive (r, i) (by simp)
    -- the range moves from the new allocations to the live ranges
    obtain ⟨s₁, hs₁⟩ : ∃ s₁, s₁ = { allocated s r e.2.1 with
      liveRanges := (allocated s r e.2.1).liveRanges ++ [r] } := ⟨_, rfl⟩
    have hbytes : liveBytes h s₁ = liveBytes h s ++ [e.2] := by
      have hold : s.liveRanges.map (range h s₁) = s.liveRanges.map (range h s) := by
        refine List.map_congr_left ?_
        intro q hq
        have hne : q ≠ r := fun heq => hr' (heq ▸ hq)
        simp [hs₁, range, allocated, hne]
      have hnew : range h s₁ r = e.2 := by simp [hs₁, range, allocated, ← hsize]
      rw [liveBytes, ← hnew]
      simp [hs₁, allocated, liveBytes, ← hold]
    have hholds : Holds T h (ranges (rem.erase e) ++ reserved) s₁ := by
      have hpar : s₁.par = s.par := by rw [hs₁]; rfl
      refine ⟨?_, hpar ▸ hs.size, hs.word⟩
      rw [hpar, hbytes]
      refine hs.exact.perm ?_
      calc ranges rem ++ reserved ++ liveBytes h s
          ~ e.2 :: ranges (rem.erase e) ++ reserved ++ liveBytes h s :=
            ((ranges_perm herase).append_right _).append_right _
        _ ~ ranges (rem.erase e) ++ reserved ++ liveBytes h s ++ [e.2] :=
            (List.perm_append_singleton _ _).symm
        _ = ranges (rem.erase e) ++ reserved ++ (liveBytes h s ++ [e.2]) := List.append_assoc _ _ _
    have hkeys' : keys (rem.erase e) ~ wanted h rs := by
      have hcons : keys rem ~ (i, h.getSize r) :: keys (rem.erase e) := by
        rw [← hkey]
        exact herase.map _
      exact List.Perm.cons_inv (hcons.symm.trans hkeys)
    have hlive' : ∀ b ∈ rs, b.1 ∉ s₁.liveRanges := by
      intro b hb hmem
      simp only [hs₁, allocated, List.mem_append, List.mem_singleton] at hmem
      rcases hmem with hold | heq
      · exact hlive b (by simp [hb]) hold
      · exact hr (List.mem_map.mpr ⟨b, hb, heq⟩)
    obtain ⟨s', hrest, hs'⟩ := ih (fun q hq => hrem q (List.mem_of_mem_erase hq)) hkeys' hfresh
      hlive' hholds
    refine ⟨s', ?_, hs'⟩
    simp only [introduce, hfind, hvalid, Option.bind_eq_bind, Option.bind_some, guard_true,
      not_false_eq_true, ne_eq]
    exact hs₁ ▸ hrest

/-- The requests that are served well: the ranges are new, a plain range has an alignment that
fits, fixed ranges are apart from what is in use, and spills for plain ranges are granted. -/
structure Admissible (T : ℕ) (h : Handler R) (reserved : List (ℕ × ℕ)) (s : Scan R)
    (newLiveRanges : List R) (allowSpills : Bool) : Prop where
  distinct : newLiveRanges.Nodup
  fresh : ∀ r ∈ newLiveRanges, r ∉ s.liveRanges
  sizes : ∀ r ∈ newLiveRanges, 0 < h.getSize r
  alignments : ∀ r ∈ newLiveRanges, h.isFixedAlloc r = false →
    0 < h.getAlignment r ∧ T + h.getAlignment r ≤ wordSize
  fixed : FixedFits T h s allowSpills (newLiveRanges.filter h.isFixedAlloc) reserved
  granted : allowSpills = false ∨ (∀ r ∈ newLiveRanges, h.isFixedAlloc r = true) ∨
    ∀ told r, h.spilled told r = true

variable {newLiveRanges : List R}

omit [DecidableEq R] in
theorem wanted_filter (newLiveRanges : List R) :
    wanted h (newLiveRanges.zipIdx.filter fun r => !h.isFixedAlloc r.1) ++
      wanted h (newLiveRanges.zipIdx.filter fun r => h.isFixedAlloc r.1) ~
        wanted h newLiveRanges.zipIdx := by
  have hall := List.filter_append_perm (fun r : R × ℕ => h.isFixedAlloc r.1) newLiveRanges.zipIdx
  exact List.perm_append_comm.trans ((List.map_append ▸ hall.map _ :))

theorem alloc_holds (dir : Direction) (ho : ∀ l, (order l).Perm l) (hs : Holds T h reserved s)
    (ha : Admissible T h reserved s newLiveRanges allowSpills) :
    ∃ ok s', alloc h order newLiveRanges allowSpills dir s = some (ok, s') ∧
      Holds T h reserved s' := by
  have hmem : ∀ {p : R × ℕ → Bool}, ∀ a ∈ newLiveRanges.zipIdx.filter p, a.1 ∈ newLiveRanges :=
    fun a ha => List.fst_mem_of_mem_zipIdx (List.mem_of_mem_filter ha)
  have hfits : FixedFits T h s allowSpills
      ((newLiveRanges.zipIdx.filter fun r => h.isFixedAlloc r.1).map Prod.fst)
      (ranges [] ++ reserved) := by
    have hfilter := List.filter_map (f := Prod.fst) (p := h.isFixedAlloc)
        (l := newLiveRanges.zipIdx)
    rw [List.zipIdx_map_fst] at hfilter
    exact hfilter ▸ ha.fixed
  obtain ⟨ok, s₁, al₁, hfixed, hpassed⟩ := fixedPass_holds ho (fun a hr => ha.sizes a.1 (hmem a hr))
    rfl (fun _ => rfl) hfits hs (fun r hr => hr)
  cases ok with
  | false =>
    refine ⟨false, s₁, ?_, hpassed.served.failed rfl⟩
    simp [alloc, hfixed]
  | true =>
    have hplainRanges : ∀ a ∈ newLiveRanges.zipIdx.filter fun r => !h.isFixedAlloc r.1,
        0 < h.getSize a.1 ∧ 0 < h.getAlignment a.1 ∧ T + h.getAlignment a.1 ≤ wordSize := by
      intro a hr
      have hplain : h.isFixedAlloc a.1 = false := by simpa using (List.mem_filter.mp hr).2
      exact ⟨ha.sizes a.1 (hmem a hr), ha.alignments a.1 (hmem a hr) hplain⟩
    have hgranted : allowSpills = false ∨
        (newLiveRanges.zipIdx.filter fun r => !h.isFixedAlloc r.1) = [] ∨
          ∀ told r, h.spilled told r = true := by
      rcases ha.granted with hoff | hall | hspill
      · exact Or.inl hoff
      · refine Or.inr (Or.inl (List.filter_eq_nil_iff.mpr ?_))
        intro a hr
        simp [hall a.1 (List.fst_mem_of_mem_zipIdx hr)]
      · exact Or.inr (Or.inr hspill)
    obtain ⟨ok, s₂, al₂, hplain, hpassed₂⟩ := plainPass_holds dir ho hgranted hplainRanges
      (hpassed.served.taken rfl) hpassed.served.live
    cases ok with
    | false =>
      refine ⟨false, s₂, ?_, hpassed₂.served.failed rfl⟩
      simp [alloc, hfixed, hplain]
    | true =>
      have hkeys : keys al₂ ~ wanted h newLiveRanges.zipIdx := by
        refine (hpassed₂.keys rfl).trans ?_
        refine ((hpassed.keys rfl).append_left _).trans ?_
        simpa [keys] using wanted_filter newLiveRanges
      have hnodup : (al₂.map Prod.fst).Nodup := by
        have hfst : al₂.map Prod.fst ~ newLiveRanges.zipIdx.map Prod.snd := by
          simpa [keys, wanted, Function.comp_def] using hkeys.map Prod.fst
        rw [hfst.nodup_iff, List.zipIdx_map_snd]
        exact List.nodup_range'
      have hnew : (newLiveRanges.zipIdx.map Prod.fst).Nodup := by
        rw [List.zipIdx_map_fst]
        exact ha.distinct
      have hlive : ∀ a ∈ newLiveRanges.zipIdx, a.1 ∉ s₂.liveRanges := by
        intro a hr hmem₂
        exact ha.fresh a.1 (List.fst_mem_of_mem_zipIdx hr) (hpassed₂.served.live a.1 hmem₂)
      obtain ⟨s', hintro, hs'⟩ := introduce_holds hnodup (fun a ha => ha) hkeys hnew hlive
        (hpassed₂.served.taken rfl)
      refine ⟨true, s', ?_, hs'⟩
      simp [alloc, hfixed, hplain, hintro]

end Alloc

section Other

omit [DecidableEq R] in
theorem freeLiveRange_holds {it : ℕ} {r : R} (hs : Holds T h reserved s)
    (hget : s.liveRanges[it]? = some r) :
    ∃ s', freeLiveRange h s it = some s' ∧ Holds T h reserved s' := by
  have hperm := removeAt_perm hget
  have hbytes : reserved ++ liveBytes h s ~
      range h s r :: (reserved ++ (removeAt s.liveRanges it).map (range h s)) :=
    ((hperm.map (range h s)).append_left reserved).trans List.perm_middle
  obtain ⟨p, hfree, htotal, he⟩ := freeValidated_exact (hs.exact.perm hbytes) hs.total
  refine ⟨freed { s with par := p, liveRanges := removeAt s.liveRanges it } r, ?_,
    ⟨he, htotal.trans hs.size, hs.word⟩⟩
  unfold range at hfree
  simp [freeLiveRange, hget, hfree]

omit [DecidableEq R] in
theorem freeNonAlive_holds (isAlive : List (Event R) → R → Bool) (hs : Holds T h reserved s) :
    ∃ s', freeNonAlive h isAlive s = some s' ∧ Holds T h reserved s' := by
  have hloop : ∀ fuel it {s : Scan R}, Holds T h reserved s →
      ∃ s', freeNonAliveFrom h isAlive fuel it s = some s' ∧ Holds T h reserved s' := by
    intro fuel
    induction fuel with
    | zero => exact fun it s hs => ⟨s, rfl, hs⟩
    | succ fuel ih =>
      intro it s hs
      cases hget : s.liveRanges[it]? with
      | none => exact ⟨s, by simp [freeNonAliveFrom, hget], hs⟩
      | some r =>
        cases halive : isAlive s.told r with
        | true =>
          obtain ⟨s', hrest, hs'⟩ := ih (it + 1) hs
          exact ⟨s', by simp [freeNonAliveFrom, hget, halive, hrest], hs'⟩
        | false =>
          obtain ⟨s₁, hfree, hs₁⟩ := freeLiveRange_holds hs hget
          obtain ⟨s', hrest, hs'⟩ := ih it hs₁
          exact ⟨s', by simp [freeNonAliveFrom, hget, halive, hfree, hrest], hs'⟩
  exact hloop _ _ hs

omit [DecidableEq R] in
theorem tempAlloc_holds {L temp : List (ℕ × ℕ)} {p : Partitioner} {newLiveRanges : List R}
    (dir : Direction)
    (hr : ∀ r ∈ newLiveRanges, 0 < h.getSize r ∧ 0 < h.getAlignment r ∧
      T + h.getAlignment r ≤ wordSize)
    (he : Exact (Set.Iio T) ⟨p, temp ++ L⟩) (htotal : p.totalSize = T)
      (hword : T < InvalidAddress) :
    ∃ ok p' temp', tempAlloc h dir newLiveRanges p temp = some (ok, p', temp') ∧
      Exact (Set.Iio T) ⟨p', temp' ++ L⟩ ∧ p'.totalSize = T := by
  induction newLiveRanges generalizing p temp with
  | nil => exact ⟨true, p, temp, rfl, he, htotal⟩
  | cons r rs ih =>
    obtain ⟨hsize, halign, hfit⟩ := hr r (by simp)
    obtain ⟨p₁, addr, halloc, hres⟩ := allocValidated_spec (htotal ▸ hword) dir he.wf hsize halign
      (htotal ▸ hfit)
    rcases hres with ⟨rfl, rfl⟩ | ⟨hvalid, htakes⟩
    · exact ⟨false, p₁, temp, by simp [tempAlloc, halloc], he, htotal⟩
    · have he₁ : Exact (Set.Iio T) ⟨p₁, temp ++ [(addr, h.getSize r)] ++ L⟩ := by
        refine (he.takes hsize htakes).perm ?_
        rw [List.append_assoc]
        exact List.perm_middle.symm
      have htotal₁ : p₁.totalSize = T := htakes.total.trans htotal
      cases hexceeds : h.checkInvariantExceedingNNCMX r addr p₁.totalSize with
      | true =>
        refine ⟨false, p₁, temp ++ [(addr, h.getSize r)], ?_, he₁, htotal₁⟩
        simp [tempAlloc, halloc, hvalid, hexceeds]
      | false =>
        obtain ⟨ok, p', temp', hrest, hp'⟩ := ih (fun q hq => hr q (by simp [hq])) he₁ htotal₁
        refine ⟨ok, p', temp', ?_, hp'⟩
        simp [tempAlloc, halloc, hvalid, hexceeds, hrest]

theorem freeTemp_holds {L temp : List (ℕ × ℕ)} {p : Partitioner}
    (he : Exact (Set.Iio T) ⟨p, temp ++ L⟩) (htotal : p.totalSize = T)
      (hword : T < InvalidAddress) :
    ∃ p', temp.foldlM (fun (par : Partitioner) a => par.freeValidated a.1 a.2) p = some p' ∧
      Exact (Set.Iio T) ⟨p', L⟩ ∧ p'.totalSize = T := by
  induction temp generalizing p with
  | nil => exact ⟨p, rfl, he, htotal⟩
  | cons a temp ih =>
    obtain ⟨p₁, hfree, htotal₁, he₁⟩ := freeValidated_exact he (htotal ▸ hword)
    obtain ⟨p', hrest, hp'⟩ := ih he₁ (htotal₁.trans htotal)
    exact ⟨p', by simp [hfree, hrest], hp'⟩

omit [DecidableEq R] in
theorem canAlloc_holds {newLiveRanges : List R} (dir : Direction)
    (hr : ∀ r ∈ newLiveRanges, 0 < h.getSize r ∧ 0 < h.getAlignment r ∧
      T + h.getAlignment r ≤ wordSize) (hs : Holds T h reserved s) :
    ∃ ok, canAlloc h newLiveRanges dir s = some (ok, s) := by
  have he : Exact (Set.Iio T) ⟨s.par, [] ++ (reserved ++ liveBytes h s)⟩ := hs.exact
  obtain ⟨ok, p₁, temp, htemp, he₁, htotal₁⟩ := tempAlloc_holds dir hr he hs.size hs.word
  obtain ⟨p', hfree, he', htotal'⟩ := freeTemp_holds he₁ htotal₁ hs.word
  have hgaps : p'.gaps = s.par.gaps :=
    he'.wf.separated.ext hs.exact.wf.separated (he'.covers.trans hs.exact.covers.symm)
  have hpar : p' = s.par := Partitioner.ext (htotal'.trans hs.size.symm) hgaps
  refine ⟨ok, ?_⟩
  simp [canAlloc, htemp, hfree, hpar]

end Other

section Run

/-- The calls of a client. Which ranges are alive is up to the client at each call. -/
inductive Request (R : Type)
  | alloc (newLiveRanges : List R) (allowSpills : Bool) (dir : Direction)
  | canAlloc (newLiveRanges : List R) (dir : Direction)
  | freeNonAlive (isAlive : List (Event R) → R → Bool)

def serve (h : Handler R) (order : AllocatedAddrs → AllocatedAddrs) (s : Scan R) :
    Request R → Option (Scan R)
  | .alloc newLiveRanges allowSpills dir =>
    (alloc h order newLiveRanges allowSpills dir s).map Prod.snd
  | .canAlloc newLiveRanges dir => (canAlloc h newLiveRanges dir s).map Prod.snd
  | .freeNonAlive isAlive => freeNonAlive h isAlive s

def run (h : Handler R) (order : AllocatedAddrs → AllocatedAddrs) (s : Scan R)
    (requests : List (Request R)) : Option (Scan R) := requests.foldlM (serve h order) s

/-- The requests that do not overwrite what is in use. -/
def AdmissibleRequest (T : ℕ) (h : Handler R) (reserved : List (ℕ × ℕ)) (s : Scan R) :
    Request R → Prop
  | .alloc newLiveRanges allowSpills _ => Admissible T h reserved s newLiveRanges allowSpills
  | .canAlloc newLiveRanges _ => ∀ r ∈ newLiveRanges,
      0 < h.getSize r ∧ 0 < h.getAlignment r ∧ T + h.getAlignment r ≤ wordSize
  | .freeNonAlive _ => True

/-- Every request of the run is admissible when its turn comes. -/
def AdmissibleRun (T : ℕ) (h : Handler R) (order : AllocatedAddrs → AllocatedAddrs)
    (reserved : List (ℕ × ℕ)) : Scan R → List (Request R) → Prop
  | _, [] => True
  | s, r :: requests => AdmissibleRequest T h reserved s r ∧
      ∀ s', serve h order s r = some s' → AdmissibleRun T h order reserved s' requests

theorem serve_holds {r : Request R} (ho : ∀ l, (order l).Perm l) (hs : Holds T h reserved s)
    (hr : AdmissibleRequest T h reserved s r) :
    ∃ s', serve h order s r = some s' ∧ Holds T h reserved s' := by
  cases r with
  | alloc newLiveRanges allowSpills dir =>
    obtain ⟨ok, s', halloc, hs'⟩ := alloc_holds dir ho hs hr
    exact ⟨s', by simp [serve, halloc], hs'⟩
  | canAlloc newLiveRanges dir =>
    obtain ⟨ok, hcan⟩ := canAlloc_holds dir hr hs
    exact ⟨s, by simp [serve, hcan], hs⟩
  | freeNonAlive isAlive => exact freeNonAlive_holds isAlive hs

theorem run_holds {requests : List (Request R)} (ho : ∀ l, (order l).Perm l)
    (hs : Holds T h reserved s) (hr : AdmissibleRun T h order reserved s requests) :
    ∃ s', run h order s requests = some s' ∧ Holds T h reserved s' := by
  induction requests generalizing s with
  | nil => exact ⟨s, rfl, hs⟩
  | cons r requests ih =>
    obtain ⟨s₁, hserve, hs₁⟩ := serve_holds ho hs hr.1
    obtain ⟨s', hrun, hs'⟩ := ih hs₁ (hr.2 s₁ hserve)
    exact ⟨s', by simpa [run, hserve] using hrun, hs'⟩

omit [DecidableEq R] in
theorem init_holds (h : Handler R) (address : R → ℕ) (htotal : 0 < T) (hword : T < InvalidAddress)
    (hreserved : Packed (Set.Iio T) reserved) :
    ∃ s, init T reserved address = some s ∧ Holds T h reserved s := by
  have hfold : ∀ {done rest : List (ℕ × ℕ)} {p : Partitioner}, Packed (Set.Iio T) (rest ++ done) →
      Exact (Set.Iio T) ⟨p, done⟩ → p.totalSize = T →
      ∃ p', rest.foldlM (fun (par : Partitioner) r => par.allocFixedValidated r.1 r.2) p = some p' ∧
        Exact (Set.Iio T) ⟨p', rest ++ done⟩ ∧ p'.totalSize = T := by
    intro done rest
    induction rest generalizing done with
    | nil => exact fun _ he ht => ⟨_, rfl, he, ht⟩
    | cons a rest ih =>
      intro p hp he ht
      have hp' : Packed (Set.Iio T) (rest ++ a :: done) := hp.perm List.perm_middle.symm
      obtain ⟨p₁, halloc, ht₁, he₁⟩ := allocFixedValidated_packed he (ht ▸ hword) hp'.right
      obtain ⟨p', hrest, he', ht'⟩ := ih hp' he₁ (ht₁.trans ht)
      exact ⟨p', by simp [halloc, hrest], he'.perm List.perm_middle, ht'⟩
  have hstart := exact_start htotal (hword.trans_le (Nat.sub_le _ _))
  obtain ⟨p, hp, he, ht⟩ := hfold (by simpa using hreserved) hstart rfl
  refine ⟨⟨p, [], address, []⟩, ?_, he, ht, hword⟩
  simp [init, hp]

/-- After every run of admissible requests the reserved memory and the live ranges are disjoint
and the gaps are the rest of the memory. No assertion fails on the way, so each fixed range the
partitioner was given lay inside a gap. -/
theorem run_partition (h : Handler R) (order : AllocatedAddrs → AllocatedAddrs)
    (ho : ∀ l, (order l).Perm l) (total : ℕ) (htotal : 0 < total) (hword : total < InvalidAddress)
    (reserved : List (ℕ × ℕ)) (hsizes : ∀ a ∈ reserved, 0 < a.2 ∧ a.1 + a.2 ≤ total)
    (hdisjoint : reserved.Pairwise fun a b => Disjoint (bytes a) (bytes b)) (address : R → ℕ) :
    ∃ s₀, init total reserved address = some s₀ ∧
      ∀ requests, AdmissibleRun total h order reserved s₀ requests →
        ∃ s, run h order s₀ requests = some s ∧
          ((reserved ++ s.liveRanges.map fun r => (s.address r, h.getSize r)).Pairwise
            fun a b => Disjoint (bytes a) (bytes b)) ∧
          ∀ x, (∃ g ∈ s.par.gaps, g.lo ≤ x ∧ x < g.hi) ↔ x < total ∧
            ¬ ∃ a ∈ reserved ++ s.liveRanges.map fun r =>
              (s.address r, h.getSize r), x ∈ bytes a := by
  have hreserved : Packed (Set.Iio total) reserved := by
    refine ⟨fun a ha => (hsizes a ha).1, hdisjoint, ?_⟩
    intro x ⟨a, ha, hx⟩
    exact hx.2.trans_le (hsizes a ha).2
  obtain ⟨s₀, hinit, hs₀⟩ := init_holds h address htotal hword hreserved
  refine ⟨s₀, hinit, ?_⟩
  intro requests hadmissible
  obtain ⟨s, hrun, hs⟩ := run_holds ho hs₀ hadmissible
  exact ⟨s, hrun, hs.exact.disjoint, fun x => Set.ext_iff.mp hs.exact.covers x⟩

/-- The range of size 1 is fixed, the others are plain. -/
def mixedHandler : Handler (Fin 8) :=
  { sizedHandler with
    isFixedAlloc := fun r => r = 1
    getSize_lt := sizedHandler_getSize_lt }

/-- A fixed range next to the reserved memory and a plain range of the same request. -/
theorem run_partition_mixed : ∃ s₀ s : Scan (Fin 8), init 8 [(0, 2)] (fun _ => 4) = some s₀ ∧
    run mixedHandler id s₀ [.alloc [3, 1] true .Down] = some s ∧
      ([(0, 2)] ++ s.liveRanges.map fun r => (s.address r, mixedHandler.getSize r)).Pairwise
        fun a b => Disjoint (bytes a) (bytes b) := by
  obtain ⟨s₀, hinit, hrun⟩ := run_partition mixedHandler id (fun l => .refl l) 8 (by decide)
    (by decide) [(0, 2)] (by decide) (by simp) (fun _ => 4)
  have hvalue : init 8 [(0, 2)] (fun _ : Fin 8 => 4) = some ⟨⟨8, [⟨2, 8⟩]⟩, [], fun _ => 4, []⟩ :=
    rfl
  obtain rfl := Option.some.inj (hinit.symm.trans hvalue)
  have hfits : FixedFits 8 mixedHandler ⟨⟨8, [⟨2, 8⟩]⟩, [], fun _ => 4, []⟩ true [1] [(0, 2)] := by
    refine Or.inr ⟨by decide, ?_, trivial⟩
    simp [bytes, range, mixedHandler, sizedHandler]
  have hadmissible : Admissible 8 mixedHandler [(0, 2)]
      ⟨⟨8, [⟨2, 8⟩]⟩, [], fun _ => 4, []⟩ [3, 1] true :=
    ⟨by decide, by simp, by decide, by decide, hfits, Or.inr (Or.inr fun _ _ => rfl)⟩
  obtain ⟨s, hs, hdisjoint, -⟩ := hrun [.alloc [3, 1] true .Down] ⟨hadmissible, fun _ _ => trivial⟩
  exact ⟨_, s, hinit, hs, hdisjoint⟩

/-- A fixed range on reserved memory passes the test against the live ranges, and the partitioner
is given a range that no gap holds. -/
theorem alloc_reserved : ∃ s : Scan (Fin 8), init 4 [(0, 1)] (fun _ => 0) = some s ∧
    canAllocFixed mixedHandler (s.address 1) (mixedHandler.getSize 1) s s.liveRanges = some true ∧
      (¬ ∃ g ∈ s.par.gaps, g.lo ≤ s.address 1 ∧ s.address 1 + mixedHandler.getSize 1 ≤ g.hi) ∧
      s.par.allocFixed (s.address 1) (mixedHandler.getSize 1) = none ∧
      (alloc mixedHandler id [1] true .Up s).isNone :=
  ⟨⟨⟨4, [⟨1, 4⟩]⟩, [], fun _ => 0, []⟩, rfl, rfl, by decide, by decide +kernel, by decide +kernel⟩

end Run

end Vpux.Memory.LinearScan
