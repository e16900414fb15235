import Vpux.Memory.LinearScanRun

/-! The live ranges after a request without spills, and after the ranges that are not alive have
been freed. -/
namespace Vpux.Memory.LinearScan
open Data Partitioner
open scoped List

variable {R : Type} [DecidableEq R] {h : Handler R} {order : AllocatedAddrs → AllocatedAddrs}
variable {s s' s₀ : Scan R} {al al' : AllocatedAddrs} {dir : Direction} {T i : ℕ} {r : R}
variable {reserved : List (ℕ × ℕ)} {rs : List (R × ℕ)} {newLiveRanges : List R}

section Alloc

structure Taken (T : ℕ) (h : Handler R) (reserved : List (ℕ × ℕ)) (s₀ s : Scan R)
    (al : AllocatedAddrs) : Prop where
  holds : Holds T h (ranges al ++ reserved) s
  live : s.liveRanges = s₀.liveRanges
  address : s.address = s₀.address

omit [DecidableEq R] in
theorem Taken.takes {p : Partitioner} {addr size : ℕ} (ht : Taken T h reserved s₀ s al)
    (hsize : 0 < size) (htakes : Takes s.par addr size p) :
    Taken T h reserved s₀ { s with par := p } ((i, addr, size) :: al) where
  holds := ⟨ht.holds.exact.takes hsize htakes, htakes.total.trans ht.holds.size, ht.holds.word⟩
  live := ht.live
  address := ht.address

theorem Taken.fixed (ht : Taken T h reserved s₀ s al)
    (hend : s.address r + h.getSize r < wordSize)
    (hr : allocFixedRange h order r i false s al = some (true, s', al')) :
    Taken T h reserved s₀ s' al' ∧ al' = (i, s.address r, h.getSize r) :: al := by
  rcases allocFixedRange_quiet (Or.inl rfl) hr with ⟨hf, -⟩ | ⟨-, -, p, halloc, rfl, rfl⟩
  · cases hf
  · obtain ⟨hsize, htakes⟩ := allocFixedValidated_safe ht.holds.exact.wf hend halloc
    exact ⟨ht.takes hsize htakes, rfl⟩

theorem Taken.plain (ht : Taken T h reserved s₀ s al)
    (hr : allocPlainRange h order r i false dir s al = some (true, s', al')) :
    Taken T h reserved s₀ s' al' ∧ ∃ addr, al' = (i, addr, h.getSize r) :: al := by
  rcases allocPlainRange_quiet (Or.inl rfl) hr with ⟨hf, -⟩ | ⟨-, p, addr, halloc, hvalid, rfl, rfl⟩
  · cases hf
  · rcases allocValidated_safe ht.holds.exact.wf halloc with ⟨hinv, -⟩ | htakes
    · exact absurd hinv hvalid
    · exact ⟨ht.takes htakes.1 htakes.2, addr, rfl⟩

omit [DecidableEq R] in
theorem Taken.pass
    {allocRange : R → ℕ → Scan R → AllocatedAddrs → Option (Bool × Scan R × AllocatedAddrs)}
    (hstep : ∀ a ∈ rs, ∀ {s s' al al'}, Taken T h reserved s₀ s al →
      allocRange a.1 a.2 s al = some (true, s', al') →
        Taken T h reserved s₀ s' al' ∧ ∃ addr, al' = (a.2, addr, h.getSize a.1) :: al)
    (ht : Taken T h reserved s₀ s al) (hr : allocRanges allocRange rs s al = some (true, s', al')) :
    Taken T h reserved s₀ s' al' ∧ keys al' ~ wanted h rs ++ keys al := by
  induction rs generalizing s al with
  | nil =>
    obtain ⟨rfl, rfl⟩ : s = s' ∧ al = al' := by simpa [allocRanges] using hr
    exact ⟨ht, .refl _⟩
  | cons a rs ih =>
    simp only [allocRanges, Option.bind_eq_bind, Option.bind_eq_some_iff, Prod.exists] at hr
    obtain ⟨ok₁, s₁, al₁, hfirst, hr⟩ := hr
    cases ok₁ with
    | false => simp at hr
    | true =>
      obtain ⟨ht₁, addr, rfl⟩ := hstep a (by simp) ht hfirst
      obtain ⟨ht', hkeys⟩ := ih (fun b hb => hstep b (by simp [hb])) ht₁ (by simpa using hr)
      refine ⟨ht', hkeys.trans ?_⟩
      simp only [keys, wanted, List.map_cons, List.cons_append]
      exact List.perm_middle

theorem introduce_live (hr : introduce al rs s = some s') :
    s'.liveRanges = s.liveRanges ++ rs.map Prod.fst ∧
      ∀ r, r ∉ rs.map Prod.fst → s'.address r = s.address r := by
  induction rs generalizing s with
  | nil =>
    obtain rfl : s = s' := by simpa [introduce] using hr
    simp
  | cons a rs ih =>
    simp only [introduce, Option.bind_eq_bind, Option.bind_eq_some_iff, Option.guard_eq_some',
      exists_const, Prod.exists] at hr
    obtain ⟨i, addr, size, -, -, hr⟩ := hr
    obtain ⟨hlive, haddress⟩ := ih hr
    constructor
    · rw [hlive]
      simp [allocated]
    · intro r hr
      rw [List.map_cons, List.mem_cons, not_or] at hr
      rw [haddress r hr.2]
      simp [allocated, hr.1]

theorem alloc_live (hs : Holds T h reserved s)
    (hdistinct : newLiveRanges.Nodup) (hfresh : ∀ r ∈ newLiveRanges, r ∉ s.liveRanges)
    (hends : ∀ r ∈ newLiveRanges, h.isFixedAlloc r = true →
      s.address r + h.getSize r < wordSize)
    (hr : alloc h order newLiveRanges false dir s = some (true, s')) :
    Holds T h reserved s' ∧ s'.liveRanges = s.liveRanges ++ newLiveRanges ∧
      ∀ r, r ∉ newLiveRanges → s'.address r = s.address r := by
  unfold alloc at hr
  simp only [Option.bind_eq_bind, Option.bind_eq_some_iff, Prod.exists] at hr
  obtain ⟨ok₁, s₁, al₁, hfixed, hr⟩ := hr
  cases ok₁ with
  | false => simp at hr
  | true =>
    simp only [Bool.not_true, Bool.false_eq_true, if_false, Option.bind_eq_some_iff,
      Prod.exists] at hr
    obtain ⟨ok₂, s₂, al₂, hplain, hr⟩ := hr
    cases ok₂ with
    | false => simp at hr
    | true =>
      simp only [Bool.not_true, Bool.false_eq_true, if_false, Option.bind_eq_some_iff,
        Option.pure_def, Option.some.injEq, Prod.mk.injEq, true_and] at hr
      obtain ⟨s₃, hintro, rfl⟩ := hr
      have hstart : Taken T h reserved s s [] := ⟨hs, rfl, rfl⟩
      obtain ⟨ht₁, hkeys₁⟩ := hstart.pass (fun a ha s₁ s₂ al₁ al₂ ht hstep => by
        obtain ⟨hmem, hfix⟩ := List.mem_filter.mp ha
        have hend := hends a.1 (List.fst_mem_of_mem_zipIdx hmem) hfix
        obtain ⟨ht', hal⟩ := ht.fixed (ht.address ▸ hend) hstep
        exact ⟨ht', _, hal⟩) hfixed
      obtain ⟨ht₂, hkeys₂⟩ := ht₁.pass (fun a ha s₁ s₂ al₁ al₂ ht hstep => ht.plain hstep) hplain
      have hkeys : keys al₂ ~ wanted h newLiveRanges.zipIdx := by
        refine hkeys₂.trans ((hkeys₁.append_left _).trans ?_)
        simpa [keys] using wanted_filter newLiveRanges
      have hnodup : (al₂.map Prod.fst).Nodup := by
        have hfst : al₂.map Prod.fst ~ newLiveRanges.zipIdx.map Prod.snd := by
          simpa [keys, wanted, Function.comp_def] using hkeys.map Prod.fst
        rw [hfst.nodup_iff, List.zipIdx_map_snd]
        exact List.nodup_range'
      have hnew : (newLiveRanges.zipIdx.map Prod.fst).Nodup := by
        rw [List.zipIdx_map_fst]
        exact hdistinct
      have hlive : ∀ a ∈ newLiveRanges.zipIdx, a.1 ∉ s₂.liveRanges := by
        intro a ha
        rw [ht₂.live]
        exact hfresh a.1 (List.fst_mem_of_mem_zipIdx ha)
      obtain ⟨s₄, hintro', hs₄⟩ := introduce_holds hnodup (fun a ha => ha) hkeys hnew hlive
          ht₂.holds
      obtain rfl := Option.some.inj (hintro.symm.trans hintro')
      obtain ⟨hlive', haddress⟩ := introduce_live hintro
      rw [List.zipIdx_map_fst, ht₂.live] at hlive'
      rw [List.zipIdx_map_fst, ht₂.address] at haddress
      exact ⟨hs₄, hlive', haddress⟩

end Alloc

section Free

omit [DecidableEq R] in
theorem take_removeAt {l : List R} {it : ℕ} (hit : it < l.length) :
    (removeAt l it).take it = l.take it := by
  have hne : l ≠ [] := List.ne_nil_of_length_pos (by omega)
  unfold removeAt
  rw [List.getLast?_eq_some_getLast hne]
  dsimp only
  rw [List.dropLast_eq_take, List.length_set, List.take_take, Nat.min_eq_left (by omega),
    List.take_set_of_le le_rfl]

omit [DecidableEq R] in
theorem freeLiveRange_live {it : ℕ} (hget : s.liveRanges[it]? = some r)
    (hr : freeLiveRange h s it = some s') :
    s'.address = s.address ∧ s'.liveRanges = removeAt s.liveRanges it := by
  unfold freeLiveRange at hr
  rw [hget] at hr
  simp only [Option.bind_eq_bind, Option.bind_some, Option.bind_eq_some_iff, Option.pure_def,
    Option.some.injEq] at hr
  obtain ⟨par, -, rfl⟩ := hr
  exact ⟨rfl, rfl⟩

omit [DecidableEq R] in
theorem freeNonAlive_live {alive : R → Bool}
    (hr : freeNonAlive h (fun _ => alive) s = some s') :
    s'.address = s.address ∧ s'.liveRanges ~ s.liveRanges.filter alive := by
  have hloop : ∀ fuel it {s s' : Scan R}, (∀ r ∈ s.liveRanges.take it, alive r = true) →
      s.liveRanges.length ≤ it + fuel →
      freeNonAliveFrom h (fun _ => alive) fuel it s = some s' →
      s'.address = s.address ∧ s'.liveRanges ~ s.liveRanges.filter alive := by
    intro fuel
    induction fuel with
    | zero =>
      intro it s s' hbefore hlength hr
      obtain rfl : s = s' := by simpa [freeNonAliveFrom] using hr
      rw [List.take_of_length_le (by omega)] at hbefore
      exact ⟨rfl, (List.filter_eq_self.mpr hbefore).symm ▸ .refl _⟩
    | succ fuel ih =>
      intro it s s' hbefore hlength hr
      cases hget : s.liveRanges[it]? with
      | none =>
        obtain rfl : s = s' := by simpa [freeNonAliveFrom, hget] using hr
        rw [List.take_of_length_le (List.getElem?_eq_none_iff.mp hget)] at hbefore
        exact ⟨rfl, (List.filter_eq_self.mpr hbefore).symm ▸ .refl _⟩
      | some r =>
        obtain ⟨hit, -⟩ := List.getElem?_eq_some_iff.mp hget
        cases halive : alive r with
        | true =>
          refine ih (it + 1) ?_ (by omega) (by simpa [freeNonAliveFrom, hget, halive] using hr)
          intro q hq
          rw [List.take_add_one, hget, List.mem_append] at hq
          rcases hq with hq | hq
          · exact hbefore q hq
          · obtain rfl : q = r := by simpa using hq
            exact halive
        | false =>
          simp only [freeNonAliveFrom, hget, halive, Bool.not_false, if_true, Option.bind_eq_bind,
            Option.bind_eq_some_iff] at hr
          obtain ⟨s₁, hfree, hr⟩ := hr
          obtain ⟨haddress, hlive⟩ := freeLiveRange_live hget hfree
          have hperm := removeAt_perm hget
          have hlength' : (removeAt s.liveRanges it).length + 1 = s.liveRanges.length := by
            rw [hperm.length_eq, List.length_cons]
          obtain ⟨haddress', hlive'⟩ := ih it (by rw [hlive, take_removeAt hit]; exact hbefore)
            (by rw [hlive]; omega) hr
          refine ⟨haddress'.trans haddress, hlive'.trans ?_⟩
          rw [hlive]
          have hfilter := (hperm.filter alive).symm
          rw [List.filter_cons_of_neg (by simp [halive])] at hfilter
          exact hfilter
  exact hloop _ 0 (by simp) (by simp) hr

end Free

end Vpux.Memory.LinearScan
