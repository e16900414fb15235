import Vpux.Async.ConsumerMap
import Vpux.Graph.Relations

/-! `optimizeDepsMap` computes the transitive reduction of the dependencies. -/
namespace Vpux.Async
open Relation BitRows

namespace BitRows

def Depends (rows : BitRows) (a b : ℕ) : Prop := a ∈ rows.row b

def Backward (rows : BitRows) : Prop := ∀ b, ∀ a ∈ rows.row b, a < b

variable {rows : BitRows}

theorem Backward.ranked (h : rows.Backward) : Graph.Ranked id rows.Depends := fun a b hab =>
    h b a hab

theorem Backward.lt (h : rows.Backward) {a b : ℕ} (hab : TransGen rows.Depends a b) : a < b :=
  h.ranked.transGen hab

theorem lt_length_of_mem {a b : ℕ} (h : a ∈ rows.row b) : b < rows.length := by
  by_contra hb
  rw [row_eq_empty (not_lt.mp hb)] at h
  exact absurd h (Finset.notMem_empty a)

theorem row_foldl_modify (f : ℕ → Finset ℕ → Finset ℕ) {inds : List ℕ} (hnodup : inds.Nodup)
    (hlt : ∀ i ∈ inds, i < rows.length) (i : ℕ) :
    row (inds.foldl (fun rows idx => rows.modify idx (f idx)) rows) i =
      if i ∈ inds then f i (rows.row i) else rows.row i := by
  induction inds generalizing rows with
  | nil => simp
  | cons idx inds ih =>
    obtain ⟨hidx, hnodup⟩ := List.nodup_cons.mp hnodup
    have hidxlt := hlt idx (by simp)
    rw [List.foldl_cons, ih hnodup (fun i hi => by simpa using hlt i (by simp [hi])),
      row_modify _ _ _ hidxlt]
    by_cases hi : i = idx
    · subst hi
      simp [hidx]
    · simp [hi]

end BitRows

namespace DepsMaps

variable {depsMap closure : BitRows}

theorem closeRow_spec {idx : ℕ} (hidx : idx < closure.length) (hback : closure.Backward) :
    (closeRow closure idx).length = closure.length ∧
      (∀ i, i ≠ idx → (closeRow closure idx).row i = closure.row i) ∧
      ∀ a, a ∈ (closeRow closure idx).row idx ↔
        a ∈ closure.row idx ∨ ∃ c ∈ closure.row idx, a ∈ closure.row c := by
  have hprefix : ∀ n, ∃ rows, (List.range n).foldl (fun rows curDepInd =>
      if curDepInd ∈ BitRows.row rows idx then
        rows.modify idx (· ∪ BitRows.row rows curDepInd) else rows) closure = rows ∧
      rows.length = closure.length ∧ (∀ i, i ≠ idx → rows.row i = closure.row i) ∧
      ∀ a, a ∈ rows.row idx ↔
        a ∈ closure.row idx ∨ ∃ c ∈ closure.row idx, c < n ∧ a ∈ closure.row c := by
    intro n
    induction n with
    | zero => exact ⟨closure, rfl, rfl, fun _ _ => rfl, by simp⟩
    | succ n ih =>
      obtain ⟨rows, hrows, hlength, hother, hrow⟩ := ih
      rw [List.range_succ, List.foldl_append, hrows]
      simp only [List.foldl_cons, List.foldl_nil]
      -- the bits that were added lie below the bit that added them
      have hbit : n ∈ rows.row idx ↔ n ∈ closure.row idx := by
        rw [hrow]
        constructor
        · rintro (hn | ⟨c, -, hcn, hn⟩)
          · exact hn
          · have := hback c n hn
            omega
        · exact Or.inl
      by_cases hn : n ∈ rows.row idx
      · have hne : n ≠ idx := (hback idx n (hbit.mp hn)).ne
        refine ⟨_, by rw [if_pos hn], by simp [hlength], ?_, ?_⟩
        · intro i hi
          rw [row_modify _ _ _ (hlength ▸ hidx), if_neg hi, hother i hi]
        · intro a
          rw [row_modify _ _ _ (hlength ▸ hidx), if_pos rfl, Finset.mem_union, hrow, hother n hne]
          constructor
          · rintro ((ha | ⟨c, hc, hcn, ha⟩) | ha)
            · exact Or.inl ha
            · exact Or.inr ⟨c, hc, by omega, ha⟩
            · exact Or.inr ⟨n, hbit.mp hn, by omega, ha⟩
          · rintro (ha | ⟨c, hc, hcn, ha⟩)
            · exact Or.inl (Or.inl ha)
            · rcases Nat.lt_succ_iff_lt_or_eq.mp hcn with hlt | rfl
              · exact Or.inl (Or.inr ⟨c, hc, hlt, ha⟩)
              · exact Or.inr ha
      · refine ⟨rows, by rw [if_neg hn], hlength, hother, ?_⟩
        intro a
        rw [hrow]
        constructor
        · rintro (ha | ⟨c, hc, hcn, ha⟩)
          · exact Or.inl ha
          · exact Or.inr ⟨c, hc, by omega, ha⟩
        · rintro (ha | ⟨c, hc, hcn, ha⟩)
          · exact Or.inl ha
          · rcases Nat.lt_succ_iff_lt_or_eq.mp hcn with hlt | rfl
            · exact Or.inr ⟨c, hc, hlt, ha⟩
            · exact absurd (hbit.mpr hc) hn
  obtain ⟨rows, hrows, hlength, hother, hrow⟩ := hprefix closure.length
  have heq : closeRow closure idx = rows := hrows
  rw [heq]
  refine ⟨hlength, hother, ?_⟩
  intro a
  rw [hrow]
  constructor
  · rintro (ha | ⟨c, hc, -, ha⟩)
    · exact Or.inl ha
    · exact Or.inr ⟨c, hc, ha⟩
  · rintro (ha | ⟨c, hc, ha⟩)
    · exact Or.inl ha
    · exact Or.inr ⟨c, hc, (hback idx c hc).trans hidx, ha⟩

theorem transGen_depends_iff {a b : ℕ} : TransGen depsMap.Depends a b ↔
    a ∈ depsMap.row b ∨ ∃ c ∈ depsMap.row b, TransGen depsMap.Depends a c := by
  constructor
  · intro h
    cases h with
    | single hab => exact Or.inl hab
    | tail hac hcb => exact Or.inr ⟨_, hcb, hac⟩
  · rintro (hab | ⟨c, hcb, hac⟩)
    · exact .single hab
    · exact hac.tail hcb

structure ClosedUpTo (depsMap : BitRows) (n : ℕ) (state : BitRows × List (ℤ × ℤ)) : Prop where
  length : state.1.length = depsMap.length
  closed : ∀ i < n, ∀ a, a ∈ state.1.row i ↔ TransGen depsMap.Depends a i
  rest : ∀ i, n ≤ i → state.1.row i = depsMap.row i
  count : state.2.length = n
  startEnd : ∀ i < n, state.2.getD i (-1, -1) =
    (findFirst (depsMap.row i), findLast (depsMap.row i))

theorem ClosedUpTo.backward {n : ℕ} {state : BitRows × List (ℤ × ℤ)}
    (h : ClosedUpTo depsMap n state) (hback : depsMap.Backward) : state.1.Backward := by
  intro b a ha
  rcases Nat.lt_or_ge b n with hb | hb
  · exact hback.lt ((h.closed b hb a).mp ha)
  · rw [h.rest b hb] at ha
    exact hback b a ha

theorem closedUpTo_depsMapClosure (hback : depsMap.Backward) :
    ClosedUpTo depsMap depsMap.length (depsMapClosure depsMap) := by
  have hprefix : ∀ n ≤ depsMap.length, ClosedUpTo depsMap n ((List.range n).foldl (fun st idx =>
      (closeRow st.1 idx, st.2 ++ [(findFirst (st.1.row idx), findLast (st.1.row idx))]))
      (depsMap, [])) := by
    intro n hn
    induction n with
    | zero => exact ⟨rfl, by simp, fun _ _ => rfl, rfl, by simp⟩
    | succ n ih =>
      have hstate := ih (by omega)
      rw [List.range_succ, List.foldl_append]
      simp only [List.foldl_cons, List.foldl_nil]
      set state := (List.range n).foldl (fun st idx =>
        (closeRow st.1 idx, st.2 ++ [(findFirst (st.1.row idx), findLast (st.1.row idx))]))
        ((depsMap, []) : BitRows × List (ℤ × ℤ))
      have hn' : n < state.1.length := by
        rw [hstate.length]
        omega
      obtain ⟨hlength, hother, hrow⟩ := closeRow_spec hn' (hstate.backward hback)
      constructor
      · exact hlength.trans hstate.length
      · intro i hi a
        rcases Nat.lt_succ_iff_lt_or_eq.mp hi with hlt | rfl
        · rw [hother i hlt.ne]
          exact hstate.closed i hlt a
        · rw [hrow, hstate.rest i (le_refl i), transGen_depends_iff]
          have hstep : ∀ c ∈ depsMap.row i, a ∈ state.1.row c ↔ TransGen depsMap.Depends a c :=
            fun c hc => hstate.closed c (hback i c hc) a
          constructor
          · rintro (ha | ⟨c, hc, ha⟩)
            · exact Or.inl ha
            · exact Or.inr ⟨c, hc, (hstep c hc).mp ha⟩
          · rintro (ha | ⟨c, hc, ha⟩)
            · exact Or.inl ha
            · exact Or.inr ⟨c, hc, (hstep c hc).mpr ha⟩
      · intro i hi
        rw [hother i (by omega)]
        exact hstate.rest i (by omega)
      · simp [hstate.count]
      · intro i hi
        rcases Nat.lt_succ_iff_lt_or_eq.mp hi with hlt | rfl
        · rw [List.getD_append _ _ _ _ (by rw [hstate.count]; exact hlt)]
          exact hstate.startEnd i hlt
        · rw [List.getD_append_right _ _ _ _ (by rw [hstate.count]), hstate.count,
            hstate.rest i (le_refl i)]
          simp
  exact hprefix depsMap.length (le_refl _)

theorem mem_reduceRow {deps : Finset ℕ} (hback : ∀ c ∈ deps, ∀ a ∈ closure.row c, a < c) (a : ℕ) :
    a ∈ reduceRow closure (findFirst deps, findLast deps) deps ↔
      a ∈ deps ∧ ∀ c ∈ deps, a ∉ closure.row c := by
  unfold reduceRow findFirst findLast
  by_cases hne : deps.Nonempty
  · split_ifs with hskip
    · have hsingle : ∀ c ∈ deps, c = deps.min' hne := by
        intro c hc
        have := deps.min'_le c hc
        have := deps.le_max' c hc
        omega
      constructor
      · intro ha
        refine ⟨ha, ?_⟩
        intro c hc hac
        have := hback c hc a hac
        have := hsingle a ha
        have := hsingle c hc
        omega
      · exact fun h => h.1
    · have hfold : ∀ k, ∀ a, a ∈ (List.range' (deps.min' hne) k).foldl (fun curDeps curDepInd =>
          if curDepInd ∈ curDeps then curDeps \ closure.row curDepInd else curDeps) deps ↔
          a ∈ deps ∧ ∀ c ∈ deps, c < deps.min' hne + k → a ∉ closure.row c := by
        intro k
        induction k with
        | zero =>
          intro a
          simp only [List.range'_zero, List.foldl_nil, iff_self_and]
          intro _ c hc hlt
          have := deps.min'_le c hc
          omega
        | succ k ih =>
          intro a
          rw [List.range'_concat, List.foldl_append, Nat.one_mul]
          simp only [List.foldl_cons, List.foldl_nil]
          -- what was removed so far is smaller than the bit that is looked at
          have hbit : deps.min' hne + k ∈ deps → deps.min' hne + k ∈
              (List.range' (deps.min' hne) k).foldl (fun curDeps curDepInd =>
                if curDepInd ∈ curDeps then curDeps \ closure.row curDepInd else curDeps) deps := by
            intro hk
            refine (ih _).mpr ⟨hk, ?_⟩
            intro c hc hlt hmem
            have := hback c hc _ hmem
            omega
          split_ifs with hk
          · rw [Finset.mem_sdiff, ih]
            constructor
            · rintro ⟨⟨ha, hrest⟩, hlast⟩
              refine ⟨ha, ?_⟩
              intro c hc hlt
              rcases Nat.lt_or_ge c (deps.min' hne + k) with hlt' | hge
              · exact hrest c hc hlt'
              · obtain rfl : c = deps.min' hne + k := by omega
                exact hlast
            · rintro ⟨ha, hrest⟩
              refine ⟨⟨ha, fun c hc hlt => hrest c hc (by omega)⟩, ?_⟩
              exact hrest _ ((ih _).mp hk).1 (by omega)
          · rw [ih]
            constructor
            · rintro ⟨ha, hrest⟩
              refine ⟨ha, ?_⟩
              intro c hc hlt
              rcases Nat.lt_or_ge c (deps.min' hne + k) with hlt' | hge
              · exact hrest c hc hlt'
              · obtain rfl : c = deps.min' hne + k := by omega
                exact absurd (hbit hc) hk
            · rintro ⟨ha, hrest⟩
              exact ⟨ha, fun c hc hlt => hrest c hc (by omega)⟩
      simp only [Int.toNat_natCast]
      rw [hfold]
      constructor
      · rintro ⟨ha, hrest⟩
        refine ⟨ha, ?_⟩
        intro c hc
        have := deps.le_max' c hc
        exact hrest c hc (by omega)
      · rintro ⟨ha, hrest⟩
        exact ⟨ha, fun c hc _ => hrest c hc⟩
  · obtain rfl := Finset.not_nonempty_iff_eq_empty.mp hne
    simp

theorem depends_reducedDeps (hback : depsMap.Backward) (a b : ℕ) :
    (reducedDeps depsMap).Depends a b ↔
      depsMap.Depends a b ∧ ∀ c, depsMap.Depends c b → ¬ TransGen depsMap.Depends a c := by
  have hclosed := closedUpTo_depsMapClosure hback
  unfold BitRows.Depends reducedDeps
  rw [row_foldl_modify (fun depInd => reduceRow (depsMapClosure depsMap).1
    ((depsMapClosure depsMap).2.getD depInd (-1, -1))) (List.nodup_reverse.mpr List.nodup_range)
    (by simp)]
  simp only [List.mem_reverse, List.mem_range]
  have hmem : ∀ c ∈ depsMap.row b, ∀ a, a ∈ (depsMapClosure depsMap).1.row c ↔
      TransGen depsMap.Depends a c := by
    intro c hc
    exact hclosed.closed c ((hback b c hc).trans (lt_length_of_mem hc))
  split_ifs with hb
  · rw [hclosed.startEnd b hb, mem_reduceRow]
    · constructor
      · rintro ⟨ha, hrest⟩
        exact ⟨ha, fun c hc hac => hrest c hc ((hmem c hc a).mpr hac)⟩
      · rintro ⟨ha, hrest⟩
        exact ⟨ha, fun c hc hac => hrest c hc ((hmem c hc a).mp hac)⟩
    · intro c hc a ha
      exact hback.lt ((hmem c hc a).mp ha)
  · constructor
    · intro ha
      exact absurd (lt_length_of_mem ha) hb
    · exact fun h => h.1

theorem buildConsMap_isSome {s : DepsMaps} (hsized : s.depsMap.Sized s.depsMap.length)
    (hempty : s.consumerMap = []) : ∃ s', s.buildConsMap = some s' ∧ s'.depsMap = s.depsMap := by
  have hrow : ∀ (bits : List ℕ) (idx : ℕ) (rows : BitRows), idx < rows.length →
      (∀ b ∈ bits, b < rows.length) → ∃ rows' : BitRows,
        bits.foldlM (fun rows bit => BitRows.set? rows bit idx) rows = some rows' ∧
          rows'.length = rows.length := by
    intro bits idx
    induction bits with
    | nil => exact fun rows _ _ => ⟨rows, rfl, rfl⟩
    | cons bit bits ih =>
      intro rows hidx hbits
      have hset : BitRows.set? rows bit idx = some (rows.modify bit (insert idx)) := by
        unfold BitRows.set?
        rw [if_pos ⟨hbits bit (by simp), hidx⟩]
      obtain ⟨rows', hrows', hlength⟩ := ih (rows.modify bit (insert idx)) (by simpa using hidx)
        (fun b hb => by simpa using hbits b (by simp [hb]))
      refine ⟨rows', ?_, by simpa using hlength⟩
      rw [List.foldlM_cons, hset]
      exact hrows'
  have hrows : ∀ n ≤ s.depsMap.length, ∃ rows : BitRows, (List.range n).foldlM
      (fun rows idx => buildConsRow rows idx (s.depsMap.row idx))
      (s.consumerMap.resize s.depsMap.length) = some rows ∧ rows.length = s.depsMap.length := by
    intro n hn
    induction n with
    | zero => exact ⟨_, rfl, by simp [BitRows.resize, hempty]⟩
    | succ n ih =>
      obtain ⟨rows, hfold, hlength⟩ := ih (by omega)
      obtain ⟨rows', hrows', hlength'⟩ := hrow ((s.depsMap.row n).sort (· ≤ ·)) n rows (by omega)
        (fun b hb => hlength ▸ hsized.bits n b (by simpa using hb))
      refine ⟨rows', ?_, hlength'.trans hlength⟩
      rw [List.range_succ, List.foldlM_append, hfold]
      simpa [buildConsRow] using hrows'
  obtain ⟨rows, hfold, -⟩ := hrows s.depsMap.length (le_refl _)
  refine ⟨{ s with consumerMap := rows }, ?_, rfl⟩
  unfold DepsMaps.buildConsMap
  rw [hfold]
  rfl

theorem optimizeDepsMap_depsMap {s : DepsMaps} (hback : s.depsMap.Backward) :
    ∃ s', s.optimizeDepsMap = some s' ∧ s'.depsMap = reducedDeps s.depsMap := by
  have hsized : s.depsMap.Sized s.depsMap.length :=
    ⟨rfl, fun i b hb => (hback i b hb).trans (lt_length_of_mem hb)⟩
  have hreduced := Sized.reducedDeps hsized
  unfold DepsMaps.optimizeDepsMap
  split_ifs with hempty
  · exact ⟨_, rfl, rfl⟩
  · apply buildConsMap_isSome _ rfl
    rw [hreduced.length]
    exact hreduced

/-- `optimizeDepsMap` keeps what depends on what and no dependency that others imply. -/
theorem optimizeDepsMap_reduces (s : DepsMaps) (hback : s.depsMap.Backward) :
    ∃ s', s.optimizeDepsMap = some s' ∧
      (∀ a b, TransGen s'.depsMap.Depends a b ↔ TransGen s.depsMap.Depends a b) ∧
      ∀ a b c, s'.depsMap.Depends a b → s'.depsMap.Depends c b → c ≠ a →
        ¬ TransGen s'.depsMap.Depends a c := by
  obtain ⟨s', hs', hdeps⟩ := optimizeDepsMap_depsMap hback
  have hiff := depends_reducedDeps hback
  rw [← hdeps] at hiff
  have hsub : ∀ a b, s'.depsMap.Depends a b → s.depsMap.Depends a b := fun a b h =>
      ((hiff a b).mp h).1
  refine ⟨s', hs', ?_, ?_⟩
  · intro a b
    apply Graph.transGen_iff_of_covered hback.ranked hsub
    intro a b hab
    by_cases hkept : s'.depsMap.Depends a b
    · exact Or.inl (.single hkept)
    · rw [hiff] at hkept
      push Not at hkept
      obtain ⟨c, hcb, hac⟩ := hkept hab
      exact Or.inr ⟨c, hac, .single hcb⟩
  · intro a b c hab hcb _ hac
    exact ((hiff a b).mp hab).2 c (hsub c b hcb) (TransGen.mono hsub _ _ hac)

/-- Operation 2 depends on 1, and through it on 0. -/
theorem optimizeDepsMap_reduces_three :
    ∃ s', optimizeDepsMap ⟨3, [∅, {0}, {0, 1}], []⟩ = some s' ∧
      (∀ a b, TransGen s'.depsMap.Depends a b ↔
        TransGen (BitRows.Depends [∅, {0}, {0, 1}]) a b) ∧
      ∀ a b c, s'.depsMap.Depends a b → s'.depsMap.Depends c b → c ≠ a →
        ¬ TransGen s'.depsMap.Depends a c := by
  apply optimizeDepsMap_reduces ⟨3, [∅, {0}, {0, 1}], []⟩
  intro b a ha
  match b, ha with
  | 0, ha => simp [BitRows.row] at ha
  | 1, ha => simp [BitRows.row] at ha; omega
  | 2, ha => simp [BitRows.row] at ha; omega
  | b + 3, ha => simp [BitRows.row] at ha

end DepsMaps
end Vpux.Async
