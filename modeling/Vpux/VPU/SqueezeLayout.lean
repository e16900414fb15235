import Vpux.VPU.AffineLayout

/-! The layouts of squeezed and unsqueezed tensors. -/
namespace Vpux.VPU
open Data Vpux.Const IE

/-- From `next` on, `count` dimensions are kept and the axes are of size one, in some order. -/
inductive Interleaves : ℕ → ℕ → List ℕ → Prop where
  | nil (next : ℕ) : Interleaves next 0 []
  | axis {next count : ℕ} {axes : List ℕ} (h : Interleaves (next + 1) count axes) :
    Interleaves next count (next :: axes)
  | dim {next count : ℕ} {axes : List ℕ} (h : Interleaves (next + 1) count axes) :
    Interleaves next (count + 1) axes

open List

theorem Interleaves.bounds {next count : ℕ} {axes : List ℕ} (h : Interleaves next count axes) :
    ∀ a ∈ axes, next ≤ a ∧ a < next + count + axes.length := by
  induction h with
  | nil next => simp
  | @axis next count axes h ih =>
    intro a ha
    obtain rfl | ha := mem_cons.mp ha
    · simp only [length_cons]
      omega
    · have := ih a ha
      simp only [length_cons]
      omega
  | dim h ih =>
    intro a ha
    have := ih a ha
    omega

theorem interleaves_of_sorted {next count : ℕ} {axes : List ℕ} (hsorted : axes.Pairwise (· < ·))
    (hbounds : ∀ a ∈ axes, next ≤ a ∧ a < next + count + axes.length) :
    Interleaves next count axes := by
  induction htotal : count + axes.length generalizing next count axes with
  | zero =>
    obtain rfl : axes = [] := length_eq_zero_iff.mp (by omega)
    obtain rfl : count = 0 := by simpa using htotal
    exact .nil next
  | succ total ih =>
    by_cases hmem : next ∈ axes
    · obtain ⟨a, axes, rfl⟩ := exists_cons_of_ne_nil (ne_nil_of_mem hmem)
      obtain ⟨hlt, hrest⟩ := pairwise_cons.mp hsorted
      have ha := (hbounds a mem_cons_self).1
      obtain rfl : next = a := by
        obtain heq | hin := mem_cons.mp hmem
        · exact heq
        · have := hlt next hin
          omega
      apply Interleaves.axis
      apply ih hrest
      · intro b hb
        have hb' := hbounds b (mem_cons_of_mem _ hb)
        have hgt := hlt b hb
        simp only [length_cons] at hb'
        omega
      · simp only [length_cons] at htotal
        omega
    · -- The axes are above `next`, so there is a dimension that is kept.
      have habove : ∀ a ∈ axes, next + 1 ≤ a := by
        intro a ha
        have hne : a ≠ next := fun heq => hmem (heq ▸ ha)
        have := (hbounds a ha).1
        omega
      have hsubset : axes ⊆ List.range' (next + 1) (count + axes.length - 1) := by
        intro a ha
        have := habove a ha
        have := (hbounds a ha).2
        rw [mem_range'_1]
        omega
      have hroom := (subperm_of_subset (hsorted.imp fun hab => Nat.ne_of_lt hab)
        hsubset).length_le
      rw [length_range'] at hroom
      obtain ⟨count, rfl⟩ : ∃ k, count = k + 1 := ⟨count - 1, by omega⟩
      apply Interleaves.dim
      apply ih hsorted
      · intro a ha
        have := habove a ha
        have := (hbounds a ha).2
        omega
      · omega

variable {inShape : List ℕ} {inOrder : DimsOrder}

section Unsqueeze

variable {next count : ℕ} {axes : List ℕ}

theorem unsqueezeDim_of_lt {dim : ℕ} (h : ∀ a ∈ axes, dim < a) : unsqueezeDim axes dim = [dim] := by
  induction axes with
  | nil => rfl
  | cons a axes ih =>
    have hlt := h a mem_cons_self
    rw [unsqueezeDim, if_neg (by omega), if_neg (by omega)]
    exact ih fun b hb => h b (mem_cons_of_mem a hb)

theorem unsqueezeDim_axis (next : ℕ) (axes : List ℕ) :
    unsqueezeDim (next :: axes) next = next :: unsqueezeDim axes (next + 1) := by
  rw [unsqueezeDim, if_neg (Nat.lt_irrefl _), if_pos rfl]

theorem unsqueezeDim_after {next dim : ℕ} (h : next < dim) (axes : List ℕ) :
    unsqueezeDim (next :: axes) dim = unsqueezeDim axes (dim + 1) := by
  rw [unsqueezeDim, if_pos h]

theorem flatMap_unsqueezeDim_after (next count : ℕ) (axes : List ℕ) :
    (List.range' (next + 1) count).flatMap (unsqueezeDim (next :: axes)) =
      (List.range' (next + 1 + 1) count).flatMap (unsqueezeDim axes) := by
  rw [range'_succ_left (s := next + 1), flatMap_map]
  apply flatMap_congr
  intro dim hdim
  rw [mem_range'_1] at hdim
  exact unsqueezeDim_after (by omega) axes

theorem Interleaves.flatMap_unsqueezeDim (h : Interleaves next count axes) :
    (List.range' next count).flatMap (unsqueezeDim axes) ++
        axes.filter (next + ((List.range' next count).flatMap (unsqueezeDim axes)).length ≤ ·) =
      List.range' next (count + axes.length) := by
  induction h with
  | nil next => simp
  | @axis next count axes h ih =>
    rw [length_cons, ← Nat.add_assoc, range'_succ, ← ih]
    cases count with
    | zero =>
      have hfilter : axes.filter (fun a => decide (next ≤ a)) =
          axes.filter fun a => decide (next + 1 ≤ a) := by
        apply filter_congr
        intro a ha
        have := (h.bounds a ha).1
        simp only [decide_eq_decide]
        omega
      simpa using hfilter
    | succ count =>
      have hdims : (List.range' next (count + 1)).flatMap (unsqueezeDim (next :: axes)) =
          next :: (List.range' (next + 1) (count + 1)).flatMap (unsqueezeDim axes) := by
        rw [range'_succ, range'_succ, flatMap_cons, flatMap_cons,
          unsqueezeDim_axis, cons_append, flatMap_unsqueezeDim_after]
      rw [hdims, filter_cons_of_neg (by simp), cons_append, length_cons,
        Nat.add_assoc next 1, Nat.add_comm 1]
  | @dim next count axes h ih =>
    have habove : ∀ a ∈ axes, next < a := fun a ha => (h.bounds a ha).1
    rw [Nat.add_right_comm, range'_succ (n := count + axes.length), ← ih, range'_succ,
      flatMap_cons, unsqueezeDim_of_lt habove, singleton_append, cons_append,
      length_cons, Nat.add_assoc next 1, Nat.add_comm 1]

theorem le_of_mem_unsqueezeDim {dim o : ℕ} (h : o ∈ unsqueezeDim axes dim) : dim ≤ o := by
  induction axes generalizing dim with
  | nil => exact (mem_singleton.mp h).ge
  | cons a axes ih =>
    unfold unsqueezeDim at h
    split_ifs at h
    · exact Nat.le_of_succ_le (ih h)
    · obtain rfl | h := mem_cons.mp h
      · exact Nat.le_refl _
      · exact Nat.le_of_succ_le (ih h)
    · exact ih h

theorem unsqueezeLoop_dim (dim : ℕ) {rounds : ℕ} {inShape outShape : List ℕ}
    (habove : ∀ a ∈ axes, next < a)
    (hrest : unsqueezeLoop rounds (next + 1) inShape axes = .ok outShape) :
    unsqueezeLoop (rounds + 1) next (dim :: inShape) axes = .ok (dim :: outShape) := by
  cases axes with
  | nil =>
    rw [unsqueezeLoop, tail_cons, hrest]
    rfl
  | cons a axes =>
    have hlt := habove a mem_cons_self
    rw [unsqueezeLoop, if_neg (by omega), if_neg (by omega), tail_cons, hrest]
    rfl

theorem unsqueezeLoop_axis {rounds : ℕ} {inShape outShape : List ℕ}
    (hrest : unsqueezeLoop rounds (next + 1) inShape axes = .ok outShape) :
    unsqueezeLoop (rounds + 1) next inShape (next :: axes) = .ok (1 :: outShape) := by
  rw [unsqueezeLoop, if_neg (Nat.lt_irrefl _), if_pos rfl, hrest]
  rfl

theorem getD_cons_sub {size : ℕ} {sizes : List ℕ} {o : ℕ} (ho : next + 1 ≤ o) :
    (size :: sizes).getD (o - next) 0 = sizes.getD (o - (next + 1)) 0 := by
  obtain ⟨k, rfl⟩ := Nat.exists_eq_add_of_le ho
  have hcons : next + 1 + k - next = k + 1 := by omega
  rw [hcons, getD_cons_succ, Nat.add_sub_cancel_left]

theorem map_getD_cons_sub {size : ℕ} {sizes dims : List ℕ} (hdims : ∀ o ∈ dims, next + 1 ≤ o) :
    (dims.map fun o => (size :: sizes).getD (o - next) 0) =
      dims.map fun o => sizes.getD (o - (next + 1)) 0 :=
  map_congr_left fun o ho => getD_cons_sub (hdims o ho)

/-- The axes have size one, and the dimensions pushed for an input dimension have its size. -/
theorem Interleaves.unsqueezeLoop (h : Interleaves next count axes)
    (hlength : inShape.length = count) :
    ∃ outShape, VPU.unsqueezeLoop (count + axes.length) next inShape axes = .ok outShape ∧
      outShape.length = count + axes.length ∧ (∀ a ∈ axes, outShape.getD (a - next) 0 = 1) ∧
      ∀ p, next ≤ p → p < next + count →
        ((unsqueezeDim axes p).map fun o => outShape.getD (o - next) 0).prod =
          inShape.getD (p - next) 0 := by
  induction h generalizing inShape with
  | nil next =>
    obtain rfl := length_eq_zero_iff.mp hlength
    exact ⟨[], rfl, rfl, by simp, fun p hp hlt => by omega⟩
  | @axis next count axes h ih =>
    obtain ⟨outShape, hloop, hout, hone, hprod⟩ := ih hlength
    refine ⟨1 :: outShape, unsqueezeLoop_axis hloop, by simp [hout]; omega, ?_, ?_⟩
    · intro a ha
      obtain rfl | ha := mem_cons.mp ha
      · simp
      · rw [getD_cons_sub (h.bounds a ha).1]
        exact hone a ha
    · intro p hp hlt
      have hpast : ∀ o ∈ unsqueezeDim axes (p + 1), next + 1 ≤ o := fun o ho =>
        Nat.le_trans (Nat.succ_le_succ hp) (le_of_mem_unsqueezeDim ho)
      have hnext := hprod (p + 1) (by omega) (by omega)
      have hsame : p + 1 - (next + 1) = p - next := by omega
      rw [hsame] at hnext
      obtain rfl | hlt' := Nat.eq_or_lt_of_le hp
      · rw [unsqueezeDim_axis, map_cons, prod_cons, map_getD_cons_sub hpast, hnext]
        simp
      · rw [unsqueezeDim_after hlt', map_getD_cons_sub hpast, hnext]
  | @dim next count axes h ih =>
    obtain ⟨dim, inShape, rfl⟩ := exists_cons_of_length_eq_add_one hlength
    obtain ⟨outShape, hloop, hout, hone, hprod⟩ := ih (Nat.succ_injective hlength)
    have habove : ∀ a ∈ axes, next < a := fun a ha => (h.bounds a ha).1
    refine ⟨dim :: outShape, ?_, by simp [hout]; omega, ?_, ?_⟩
    · rw [Nat.add_right_comm]
      exact unsqueezeLoop_dim dim habove hloop
    · intro a ha
      rw [getD_cons_sub (habove a ha)]
      exact hone a ha
    · intro p hp hlt
      obtain rfl | hlt' := Nat.eq_or_lt_of_le hp
      · rw [unsqueezeDim_of_lt habove]
        simp
      · rw [map_getD_cons_sub fun o ho => Nat.le_trans hlt' (le_of_mem_unsqueezeDim ho),
          hprod p hlt' (by omega), getD_cons_sub hlt']

/-- The dimensions pushed in memory order, and the axes after them. -/
def unsqueezedDims (inOrder : DimsOrder) (axes : List ℕ) : List ℕ :=
  inOrder.toPermutation.flatMap (unsqueezeDim axes) ++
    axes.filter ((inOrder.toPermutation.flatMap (unsqueezeDim axes)).length ≤ ·)

/-- An input dimension with the axes before it, and the axes after all of them. -/
def unsqueezedBlocks (dims axes trailing : List ℕ) : List (List ℕ × List ℕ) :=
  (dims.map fun p => ([p], unsqueezeDim axes p)) ++ [([], trailing)]

theorem flatMap_fst_unsqueezedBlocks (dims axes trailing : List ℕ) :
    (unsqueezedBlocks dims axes trailing).flatMap Prod.fst = dims := by
  simp [unsqueezedBlocks, flatMap_map]

theorem flatMap_snd_unsqueezedBlocks (dims axes trailing : List ℕ) :
    (unsqueezedBlocks dims axes trailing).flatMap Prod.snd =
      dims.flatMap (unsqueezeDim axes) ++ trailing := by
  simp [unsqueezedBlocks, flatMap_map]

theorem unsqueezedDims_eq (hnum : inOrder.numDims = count) (axes : List ℕ) :
    unsqueezedDims inOrder axes =
      inOrder.toPermutation.flatMap (unsqueezeDim axes) ++
        axes.filter (0 + ((List.range' 0 count).flatMap (unsqueezeDim axes)).length ≤ ·) := by
  have hperm : inOrder.toPermutation.Perm (List.range' 0 count) := by
    rw [← hnum, ← range_eq_range']
    exact inOrder.isPermutation
  rw [unsqueezedDims, (hperm.flatMap_right (unsqueezeDim axes)).length_eq, Nat.zero_add]

theorem Interleaves.unsqueezedDims_perm (h : Interleaves 0 count axes)
    (hnum : inOrder.numDims = count) :
    (unsqueezedDims inOrder axes).Perm (List.range (count + axes.length)) := by
  have hperm : inOrder.toPermutation.Perm (List.range' 0 count) := by
    rw [← hnum, ← range_eq_range']
    exact inOrder.isPermutation
  rw [unsqueezedDims_eq hnum, range_eq_range' (n := count + axes.length),
    ← h.flatMap_unsqueezeDim]
  exact (hperm.flatMap_right _).append_right _

/-- The unit dimensions lie right before the dimension that follows them. -/
theorem Interleaves.unsqueeze_movesNoData (h : Interleaves 0 inShape.length axes)
    {inOrder outOrder : DimsOrder} (hnum : inOrder.numDims = inShape.length)
    (hout : outOrder.toPermutation = unsqueezedDims inOrder axes) :
    ∃ outShape, unsqueezeShape inShape axes = .ok outShape ∧
      MovesNoData inOrder inShape outOrder outShape := by
  obtain ⟨outShape, hloop, hlength, hone, hprod⟩ := h.unsqueezeLoop rfl
  refine ⟨outShape, hloop, ?_⟩
  have hrange : inOrder.toPermutation.Perm (List.range inShape.length) := by
    rw [← hnum]
    exact inOrder.isPermutation
  have hsplits : Splits inShape outShape (unsqueezedBlocks (List.range inShape.length) axes
      (axes.filter (0 + ((List.range' 0 inShape.length).flatMap (unsqueezeDim axes)).length ≤
        ·))) := by
    constructor
    · exact flatMap_fst_unsqueezedBlocks _ _ _
    · rw [flatMap_snd_unsqueezedBlocks, hlength, range_eq_range', range_eq_range',
        h.flatMap_unsqueezeDim]
    · intro b hb
      obtain hb | hb := mem_append.mp hb
      · obtain ⟨p, hp, rfl⟩ := mem_map.mp hb
        rw [mem_range] at hp
        have hblock := hprod p (Nat.zero_le p) (by omega)
        simp only [Nat.sub_zero] at hblock
        rw [select, select, hblock, map_singleton, prod_singleton]
      · obtain rfl := mem_singleton.mp hb
        symm
        apply prod_select_ones
        intro a ha
        simpa using hone a (mem_of_mem_filter ha)
  have hperm : (unsqueezedBlocks inOrder.toPermutation axes
      (axes.filter (0 + ((List.range' 0 inShape.length).flatMap (unsqueezeDim axes)).length ≤
        ·))).Perm
      (unsqueezedBlocks (List.range inShape.length) axes
        (axes.filter
          (0 + ((List.range' 0 inShape.length).flatMap (unsqueezeDim axes)).length ≤ ·))) :=
    (hrange.map _).append_right _
  apply movesNoData_of_perm hsplits hperm
  · exact (flatMap_fst_unsqueezedBlocks _ _ _).symm
  · rw [hout, unsqueezedDims_eq hnum, flatMap_snd_unsqueezedBlocks]

end Unsqueeze

section Squeeze

variable {next count : ℕ} {axes : List ℕ}

def axesBefore (axes : List ℕ) (p : ℕ) : ℕ := axes.countP (· < p)

theorem squeezeDim_eq (axes : List ℕ) (p : ℕ) : squeezeDim axes p = p - axesBefore axes p := by
  have hfold : ∀ dim, axes.foldl (fun dim squeezeAxis => if squeezeAxis < p then dim - 1 else dim)
      dim = dim - axesBefore axes p := by
    unfold axesBefore
    induction axes with
    | nil => simp
    | cons a axes ih =>
      intro dim
      rw [foldl_cons, ih, countP_cons]
      by_cases hlt : a < p
      · simp only [hlt, if_true, decide_true]
        omega
      · simp [hlt]
  exact hfold p

theorem axesBefore_cons {a p : ℕ} (h : a < p) (axes : List ℕ) :
    axesBefore (a :: axes) p = axesBefore axes p + 1 := by
  rw [axesBefore, countP_cons_of_pos (by simpa using h), axesBefore]

theorem axesBefore_eq_zero {p : ℕ} (h : ∀ a ∈ axes, p ≤ a) : axesBefore axes p = 0 := by
  rw [axesBefore, countP_eq_zero]
  intro a ha
  simpa using h a ha

theorem Interleaves.axesBefore_self (h : Interleaves next count axes) :
    axesBefore axes next = 0 := axesBefore_eq_zero fun a ha => (h.bounds a ha).1

theorem Interleaves.axesBefore_le (h : Interleaves next count axes) {p : ℕ} (hp : next ≤ p) :
    axesBefore axes p ≤ p - next := by
  obtain rfl | hlt := Nat.eq_or_lt_of_le hp
  · rw [h.axesBefore_self]
    exact Nat.zero_le _
  · induction h with
    | nil => simp [axesBefore]
    | @axis next count axes h ih =>
      rw [axesBefore_cons hlt]
      obtain rfl | hlt' := Nat.eq_or_lt_of_le (Nat.succ_le_of_lt hlt)
      · rw [h.axesBefore_self]
        omega
      · omega
    | @dim next count axes h ih =>
      obtain rfl | hlt' := Nat.eq_or_lt_of_le (Nat.succ_le_of_lt hlt)
      · rw [h.axesBefore_self]
        exact Nat.zero_le _
      · omega

/-- The output dimension of an input dimension that is not squeezed. -/
def squeezedDim (next : ℕ) (axes : List ℕ) (p : ℕ) : List ℕ :=
  if p ∈ axes then [] else [p - next - axesBefore axes p]

theorem squeezeLoop_axis {inShape outShape : List ℕ}
    (hrest : squeezeLoop (next + 1) inShape axes = .ok outShape) :
    squeezeLoop next (1 :: inShape) (next :: axes) = .ok outShape := by
  rw [squeezeLoop, if_neg (Nat.lt_irrefl _), if_pos rfl, if_neg (not_not.mpr rfl), hrest]

theorem squeezeLoop_dim (dim : ℕ) {inShape outShape : List ℕ} (habove : ∀ a ∈ axes, next < a)
    (hrest : squeezeLoop (next + 1) inShape axes = .ok outShape) :
    squeezeLoop next (dim :: inShape) axes = .ok (dim :: outShape) := by
  cases axes with
  | nil =>
    rw [squeezeLoop, hrest]
    rfl
  | cons a axes =>
    have hlt := habove a mem_cons_self
    rw [squeezeLoop, if_neg (by omega), if_neg (by omega), hrest]
    rfl

theorem Interleaves.squeezeLoop (h : Interleaves next count axes)
    (hlength : inShape.length = count + axes.length)
    (hone : ∀ a ∈ axes, inShape.getD (a - next) 0 = 1) :
    ∃ outShape, VPU.squeezeLoop next inShape axes = .ok outShape ∧ outShape.length = count ∧
      (List.range' next inShape.length).flatMap (squeezedDim next axes) = List.range count ∧
      ∀ p, next ≤ p → p < next + inShape.length → p ∉ axes →
        outShape.getD (p - next - axesBefore axes p) 0 = inShape.getD (p - next) 0 := by
  induction h generalizing inShape with
  | nil next =>
    obtain rfl := length_eq_zero_iff.mp hlength
    exact ⟨[], rfl, rfl, rfl, fun p hp hlt => by simp at hlt; omega⟩
  | @axis next count axes h ih =>
    obtain ⟨dim, inShape, rfl⟩ := exists_cons_of_length_eq_add_one hlength
    obtain rfl : dim = 1 := by simpa using hone next mem_cons_self
    have hrest : ∀ a ∈ axes, inShape.getD (a - (next + 1)) 0 = 1 := by
      intro a ha
      rw [← getD_cons_sub (h.bounds a ha).1]
      exact hone a (mem_cons_of_mem next ha)
    obtain ⟨outShape, hloop, hout, hdims, hvalues⟩ := ih (Nat.succ_injective hlength) hrest
    refine ⟨outShape, squeezeLoop_axis hloop, hout, ?_, ?_⟩
    · have hfirst : squeezedDim next (next :: axes) next = [] := if_pos mem_cons_self
      rw [length_cons, range'_succ, flatMap_cons, hfirst, nil_append, ← hdims]
      apply flatMap_congr
      intro p hp
      rw [mem_range'_1] at hp
      have hmem : p ∈ next :: axes ↔ p ∈ axes := by
        rw [mem_cons, or_iff_right (by omega)]
      rw [squeezedDim, squeezedDim, axesBefore_cons hp.1]
      simp only [hmem]
      congr 2
      omega
    · intro p hp hlt hmem
      rw [mem_cons, not_or] at hmem
      have hpast : next < p := by omega
      rw [axesBefore_cons hpast, getD_cons_sub hpast,
        ← hvalues p hpast (by simp only [length_cons] at hlt; omega) hmem.2]
      congr 1
      omega
  | @dim next count axes h ih =>
    obtain ⟨dim, inShape, rfl⟩ := exists_cons_of_length_eq_add_one
      (hlength.trans (Nat.add_right_comm count 1 axes.length))
    have habove : ∀ a ∈ axes, next < a := fun a ha => (h.bounds a ha).1
    have hnone : axesBefore axes next = 0 := axesBefore_eq_zero fun a ha => (habove a ha).le
    have hrest : ∀ a ∈ axes, inShape.getD (a - (next + 1)) 0 = 1 := by
      intro a ha
      rw [← getD_cons_sub (habove a ha)]
      exact hone a ha
    have hlength' : inShape.length = count + axes.length := by
      simp only [length_cons] at hlength
      omega
    obtain ⟨outShape, hloop, hout, hdims, hvalues⟩ := ih hlength' hrest
    have hshift : ∀ p, next + 1 ≤ p →
        p - next - axesBefore axes p = p - (next + 1) - axesBefore axes p + 1 := by
      intro p hp
      have := h.axesBefore_le hp
      omega
    have hnext : next ∉ axes := fun hmem => Nat.lt_irrefl _ (habove next hmem)
    refine ⟨dim :: outShape, squeezeLoop_dim dim habove hloop, by rw [length_cons, hout], ?_, ?_⟩
    · have hfirst : squeezedDim next axes next = [0] := by
        rw [squeezedDim, if_neg hnext, hnone, Nat.sub_self]
      rw [length_cons, range'_succ, flatMap_cons, hfirst, range_succ_eq_map,
        ← hdims, map_flatMap, singleton_append]
      congr 1
      apply flatMap_congr
      intro p hp
      rw [mem_range'_1] at hp
      rw [squeezedDim, squeezedDim, hshift p hp.1]
      split_ifs <;> rfl
    · intro p hp hlt hmem
      obtain rfl | hpast := Nat.eq_or_lt_of_le hp
      · rw [hnone, Nat.sub_self]
        rfl
      · rw [hshift p hpast, getD_cons_succ, getD_cons_sub hpast]
        exact hvalues p hpast (by simp only [length_cons] at hlt; omega) hmem

theorem squeezeLoop_units (inShape : List ℕ) (next : ℕ) :
    squeezeLoop next inShape ((List.range' next inShape.length).filter fun d =>
      inShape.getD (d - next) 0 = 1) = .ok (inShape.filter (· ≠ 1)) := by
  induction inShape generalizing next with
  | nil => rfl
  | cons dim inShape ih =>
    have htail : (List.range' (next + 1) inShape.length).filter (fun d =>
        decide ((dim :: inShape).getD (d - next) 0 = 1)) =
        (List.range' (next + 1) inShape.length).filter fun d =>
          decide (inShape.getD (d - (next + 1)) 0 = 1) := by
      apply filter_congr
      intro d hd
      rw [getD_cons_sub (mem_range'_1.mp hd).1]
    rw [length_cons, range'_succ, filter_cons, htail]
    have hrest := ih (next + 1)
    by_cases hdim : dim = 1
    · subst hdim
      simpa using squeezeLoop_axis hrest
    · have habove : ∀ a ∈ (List.range' (next + 1) inShape.length).filter (fun d =>
          decide (inShape.getD (d - (next + 1)) 0 = 1)), next < a := fun a ha =>
        (mem_range'_1.mp (mem_of_mem_filter ha)).1
      simpa [hdim] using squeezeLoop_dim dim habove hrest

/-- The axes that are squeezed are unit dimensions, in ascending order. -/
structure UnitAxes (inShape axes : List ℕ) : Prop where
  sorted : axes.Pairwise (· < ·)
  unit : ∀ a ∈ axes, inShape[a]? = some 1

theorem UnitAxes.lt_length (h : UnitAxes inShape axes) {a : ℕ} (ha : a ∈ axes) :
    a < inShape.length :=
  (List.getElem?_eq_some_iff.mp (h.unit a ha)).1

theorem unitAxes_squeezedAxes {inShape axesVec : List ℕ} (h : UnitAxes inShape axesVec) :
    UnitAxes inShape (squeezedAxes axesVec inShape) := by
  unfold squeezedAxes
  split_ifs
  · constructor
    · exact pairwise_lt_range.filter _
    · intro a ha
      obtain ⟨hrange, hone⟩ := mem_filter.mp ha
      rw [mem_range] at hrange
      rw [decide_eq_true_eq, getD_eq_getElem _ _ hrange] at hone
      rw [getElem?_eq_getElem hrange, hone]
  · exact h

theorem squeezeShape_eq (inShape axesVec : List ℕ) :
    squeezeShape inShape axesVec = squeezeLoop 0 inShape (squeezedAxes axesVec inShape) := by
  unfold squeezeShape squeezedAxes
  split_ifs
  · rw [range_eq_range', ← squeezeLoop_units inShape 0]
    rfl
  · rfl

theorem UnitAxes.interleaves (h : UnitAxes inShape axes) :
    Interleaves 0 (inShape.length - axes.length) axes ∧ axes.length ≤ inShape.length := by
  have hle : axes.length ≤ inShape.length := by
    have hsubset : axes ⊆ List.range inShape.length := fun a ha =>
      mem_range.mpr (h.lt_length ha)
    have := (subperm_of_subset (h.sorted.imp fun hab => Nat.ne_of_lt hab) hsubset).length_le
    rwa [length_range] at this
  refine ⟨interleaves_of_sorted h.sorted fun a ha => ?_, hle⟩
  have := h.lt_length ha
  omega

theorem flatMap_squeezedDim (dims axes : List ℕ) :
    dims.flatMap (squeezedDim 0 axes) = (dims.filter (· ∉ axes)).map (squeezeDim axes) := by
  induction dims with
  | nil => rfl
  | cons p dims ih =>
    rw [flatMap_cons, ih, squeezedDim, filter_cons]
    by_cases hp : p ∈ axes <;> simp [hp, squeezeDim_eq]

theorem UnitAxes.squeeze_movesNoData (h : UnitAxes inShape axes)
    (hnum : inOrder.numDims = inShape.length) :
    ∃ outShape outOrder, squeezeLoop 0 inShape axes = .ok outShape ∧
      fromPermutation ((inOrder.toPermutation.filter (· ∉ axes)).map (squeezeDim axes)) =
        .ok outOrder ∧ MovesNoData inOrder inShape outOrder outShape := by
  obtain ⟨hinterleaves, hle⟩ := h.interleaves
  have hone : ∀ a ∈ axes, inShape.getD (a - 0) 0 = 1 := by
    intro a ha
    rw [Nat.sub_zero, getD_eq_getElem?_getD, h.unit a ha]
    rfl
  obtain ⟨outShape, hloop, hlength, hdims, hvalues⟩ :=
    hinterleaves.squeezeLoop (by omega) hone
  have hrange : inOrder.toPermutation.Perm (List.range inShape.length) := by
    rw [← hnum]
    exact inOrder.isPermutation
  have hsplits : Splits inShape outShape
      ((List.range inShape.length).map fun p => ([p], squeezedDim 0 axes p)) := by
    constructor
    · simp [flatMap_map]
    · rw [flatMap_map, hlength, ← hdims, range_eq_range']
    · intro b hb
      obtain ⟨p, hp, rfl⟩ := mem_map.mp hb
      rw [mem_range] at hp
      by_cases hmem : p ∈ axes
      · simpa [squeezedDim, hmem, select] using hone p hmem
      · have hvalue := hvalues p (Nat.zero_le p) (by omega) hmem
        simp only [Nat.sub_zero] at hvalue
        rw [squeezedDim, if_neg hmem, Nat.sub_zero, select, select, map_singleton,
          map_singleton, hvalue]
  have hperm := hrange.map fun p => ([p], squeezedDim 0 axes p)
  have hpush : (inOrder.toPermutation.map fun p => ([p], squeezedDim 0 axes p)).flatMap Prod.snd =
      (inOrder.toPermutation.filter (· ∉ axes)).map (squeezeDim axes) := by
    rw [flatMap_map, ← flatMap_squeezedDim]
  obtain ⟨outOrder, hok, hout⟩ := fromPermutation_ok (hpush ▸ hsplits.right_perm hperm)
  refine ⟨outShape, outOrder, hloop, hok, movesNoData_of_perm hsplits hperm ?_ ?_⟩
  · simp [flatMap_map]
  · rw [hout, hpush]

end Squeeze

end Vpux.VPU
