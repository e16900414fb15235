import Vpux.Data.DimPositions

/-! A box turned around along its last dimensions, and a list turned around run by run. -/
namespace Vpux.Data

/-- The given number of runs of `n` entries, each of them backwards. -/
def reverseRuns {α : Type} (n : ℕ) : ℕ → List α → List α
  | 0, vals => vals
  | runs + 1, vals => (vals.take n).reverse ++ reverseRuns n runs (vals.drop n)

/-- The position at the other end of its run. -/
def turned (n i : ℕ) : ℕ := i / n * n + (n - 1 - i % n)

/-- The point on the other side, along the dimensions after one of them. -/
def mirror (sizes : List ℕ) (axis : ℕ) (point : List ℕ) : List ℕ :=
  (List.range sizes.length).map fun d =>
    if axis < d then sizes.getD d 0 - 1 - point.getD d 0 else point.getD d 0

/-- The dimensions after one of them run fastest. Those of size one may be anywhere. -/
def Innermost (sizes : List ℕ) (axis : ℕ) (dims : List ℕ) : Prop :=
  (nonUnit sizes dims).Pairwise fun d e => axis < d → axis < e

instance (sizes : List ℕ) (axis : ℕ) (dims : List ℕ) : Decidable (Innermost sizes axis dims) := by
  unfold Innermost
  infer_instance

open List

section Runs

variable {α : Type} {n : ℕ}

theorem reverseRuns_perm (runs : ℕ) (vals : List α) : (reverseRuns n runs vals).Perm vals := by
  induction runs generalizing vals with
  | zero => exact List.Perm.refl vals
  | succ runs ih =>
    conv_rhs => rw [← take_append_drop n vals]
    exact (reverse_perm _).append (ih _)

theorem getElem?_reverseRuns {runs i : ℕ} {vals : List α} (h : vals.length = runs * n)
    (hi : i < runs * n) : (reverseRuns n runs vals)[i]? = vals[turned n i]? := by
  induction runs generalizing vals i with
  | zero => simp at hi
  | succ runs ih =>
    rw [Nat.succ_mul] at h hi
    have htake : (vals.take n).length = n := length_take_of_le (by omega)
    have hlength : (vals.take n).reverse.length = n := by rw [length_reverse, htake]
    rw [reverseRuns, turned]
    by_cases hin : i < n
    · rw [getElem?_append_left (by omega), getElem?_reverse (by omega), htake,
        Nat.div_eq_of_lt hin, Nat.mod_eq_of_lt hin, Nat.zero_mul, Nat.zero_add,
        getElem?_take_of_lt (by omega)]
    · obtain ⟨j, rfl⟩ := Nat.exists_eq_add_of_le (Nat.le_of_not_lt hin)
      have hn : 0 < n := by
        by_contra hzero
        obtain rfl : n = 0 := by omega
        omega
      rw [getElem?_append_right (by omega), hlength, Nat.add_sub_cancel_left,
        ih (by rw [length_drop]; omega) (by omega), getElem?_drop, turned,
        Nat.add_div_left _ hn, Nat.add_mod_left, Nat.succ_mul]
      congr 1
      omega

theorem turned_lt {runs i : ℕ} (hi : i < runs * n) : turned n i < runs * n := by
  have hn : 0 < n := Nat.pos_of_mul_pos_left (Nat.zero_lt_of_lt hi)
  have hdiv : i / n < runs := (Nat.div_lt_iff_lt_mul hn).mpr hi
  have hle := Nat.mul_le_mul_right n (Nat.succ_le_of_lt hdiv)
  rw [Nat.succ_mul] at hle
  rw [turned]
  omega

theorem turned_mul_add {k r : ℕ} (hr : r < n) : turned n (k * n + r) = k * n + (n - 1 - r) := by
  rw [turned, Nat.mul_comm k, Nat.mul_add_div (by omega), Nat.div_eq_of_lt hr, Nat.add_zero,
    Nat.mul_add_mod, Nat.mod_eq_of_lt hr, Nat.mul_comm n]

end Runs

section Mirror

variable {sizes point : List ℕ} {axis : ℕ}

variable (axis point) in
theorem getD_mirror {d : ℕ} (hd : d < sizes.length) : (mirror sizes axis point).getD d 0 =
    if axis < d then sizes.getD d 0 - 1 - point.getD d 0 else point.getD d 0 := by
  rw [mirror, List.getD_eq_getElem _ _ (by simpa using hd), List.getElem_map, List.getElem_range]

theorem InBox.pos_of_mem (h : InBox sizes point) {size : ℕ} (hsize : size ∈ sizes) : 0 < size := by
  obtain ⟨d, hd, rfl⟩ := getElem_of_mem hsize
  exact Nat.zero_lt_of_lt (h.getElem_lt (h.length_eq ▸ hd) hd)

variable (axis) in
theorem inBox_mirror (h : InBox sizes point) : InBox sizes (mirror sizes axis point) := by
  apply inBox_of_getElem (by simp [mirror])
  intro d hd hd'
  have hvalue := getD_mirror point axis hd'
  have hlt := InBox.getD_lt h hd'
  rw [List.getD_eq_getElem _ _ hd, List.getD_eq_getElem _ _ hd'] at hvalue
  rw [List.getD_eq_getElem _ _ hd'] at hlt
  rw [hvalue]
  split <;> omega

theorem flat_cons (point : List ℕ) (d : ℕ) (dims : List ℕ) : flat sizes point (d :: dims) =
    point.getD d 0 * extent sizes dims + flat sizes point dims := rfl

theorem flat_congr {point point' dims : List ℕ}
    (h : ∀ d ∈ dims, point.getD d 0 = point'.getD d 0) :
    flat sizes point dims = flat sizes point' dims := by
  rw [flat, flat, map_congr_left h]

variable (axis) in
theorem flat_mirror_after (hin : InBox sizes point) {dims : List ℕ}
    (hdims : ∀ d ∈ dims, d < sizes.length ∧ axis < d) :
    flat sizes point dims + flat sizes (mirror sizes axis point) dims + 1 = extent sizes dims := by
  induction dims with
  | nil => rfl
  | cons d dims ih =>
    obtain ⟨⟨hd, haxis⟩, hdims⟩ := List.forall_mem_cons.mp hdims
    have hlt := InBox.getD_lt hin hd
    have hrest := ih hdims
    obtain ⟨k, hk⟩ := Nat.exists_eq_add_of_lt hlt
    have hmirror : sizes.getD d 0 - 1 - point.getD d 0 = k := by omega
    rw [flat_cons, flat_cons, getD_mirror _ _ hd, if_pos haxis, extent_cons, hmirror, hk,
      Nat.succ_mul, Nat.add_mul]
    omega

variable {dims : List ℕ}

theorem flat_mirror_upTo (hdims : ∀ d ∈ dims, d < sizes.length ∧ ¬axis < d) :
    flat sizes (mirror sizes axis point) dims = flat sizes point dims := by
  apply flat_congr
  intro d hd
  rw [getD_mirror _ _ (hdims d hd).1, if_neg (hdims d hd).2]

variable (sizes axis) in
theorem extent_filter (dims : List ℕ) : extent sizes (dims.filter (¬axis < ·)) *
    extent sizes (dims.filter (axis < ·)) = extent sizes dims := by
  induction dims with
  | nil => rfl
  | cons d dims ih =>
    by_cases hd : axis < d
    · rw [List.filter_cons_of_neg (by simpa using hd), List.filter_cons_of_pos (by simpa using hd),
        extent_cons, extent_cons, ← ih]
      exact Nat.mul_left_comm _ _ _
    · rw [List.filter_cons_of_pos (by simpa using hd), List.filter_cons_of_neg (by simpa using hd),
        extent_cons, extent_cons, ← ih, Nat.mul_assoc]

theorem eq_append_of_pairwise (h : dims.Pairwise fun d e => axis < d → axis < e) :
    dims = dims.filter (¬axis < ·) ++ dims.filter (axis < ·) := by
  induction h with
  | nil => rfl
  | @cons d dims hd _ ih =>
    by_cases haxis : axis < d
    · have hall : ∀ e ∈ dims, axis < e := fun e he => hd e he haxis
      rw [filter_cons_of_neg (by simpa using haxis), filter_eq_nil_iff.mpr
        (by simpa using hall), nil_append, filter_eq_self.mpr]
      simpa using ⟨haxis, hall⟩
    · rw [filter_cons_of_pos (by simpa using haxis),
        filter_cons_of_neg (by simpa using haxis), cons_append, ← ih]

theorem extent_pos (h : ∀ d ∈ dims, 1 < sizes.getD d 0) : 0 < extent sizes dims := by
  induction dims with
  | nil => exact Nat.one_pos
  | cons d dims ih =>
    obtain ⟨hd, hdims⟩ := forall_mem_cons.mp h
    exact Nat.mul_pos (Nat.zero_lt_of_lt hd) (ih hdims)

theorem getD_mirror_zero {d : ℕ} (hd : d < sizes.length) :
    (mirror sizes axis (List.replicate sizes.length 0)).getD d 0 =
      if axis < d then sizes.getD d 0 - 1 else 0 := by
  rw [getD_mirror _ _ hd, getD_replicate _ hd, Nat.sub_zero]

/-- The corner across from the origin lies behind the last place of the first run, unless the
turned dimensions run fastest. -/
theorem flat_corner (hdims : ∀ d ∈ dims, d < sizes.length ∧ 1 < sizes.getD d 0) :
    extent sizes (dims.filter (axis < ·)) ≤
        flat sizes (mirror sizes axis (List.replicate sizes.length 0)) dims + 1 ∧
      (flat sizes (mirror sizes axis (List.replicate sizes.length 0)) dims + 1 =
          extent sizes (dims.filter (axis < ·)) →
        dims.Pairwise fun d e => axis < d → axis < e) := by
  induction dims with
  | nil => exact ⟨le_rfl, fun _ => List.Pairwise.nil⟩
  | cons d dims ih =>
    obtain ⟨⟨hd, hsize⟩, hdims⟩ := forall_mem_cons.mp hdims
    obtain ⟨hle, heq⟩ := ih hdims
    rw [flat_cons, getD_mirror_zero hd]
    by_cases haxis : axis < d
    · have hsplit := extent_filter sizes axis dims
      rw [filter_cons_of_pos (by simpa using haxis), if_pos haxis, extent_cons]
      have hpos : 0 < extent sizes (dims.filter (axis < ·)) :=
        extent_pos fun e he => (hdims e (mem_filter.mp he).1).2
      have hpos' : 0 < extent sizes (dims.filter (¬axis < ·)) :=
        extent_pos fun e he => (hdims e (mem_filter.mp he).1).2
      generalize hfront : extent sizes (dims.filter (¬axis < ·)) = front at *
      generalize extent sizes (dims.filter (axis < ·)) = back at *
      obtain ⟨s, hs⟩ := Nat.exists_eq_succ_of_ne_zero (Nat.ne_zero_of_lt hsize)
      have hs' : 0 < s := by omega
      rw [← hsplit, hs, Nat.succ_mul, Nat.succ_sub_one]
      have hgrow : back ≤ front * back := Nat.le_mul_of_pos_left back hpos'
      have hmul := Nat.mul_le_mul_left s hgrow
      refine ⟨by omega, fun hall => ?_⟩
      -- no dimension up to the axis is left behind this one
      have hback : back = front * back :=
        Nat.le_antisymm hgrow (Nat.le_of_mul_le_mul_left (by omega) hs')
      have hone : front = 1 := Nat.eq_of_mul_eq_mul_right hpos (by omega)
      rw [hone, extent_eq_one_iff, nonUnit, filter_eq_nil_iff] at hfront
      refine List.Pairwise.cons (fun e he _ => ?_) (heq (by rw [← hback] at hall; omega))
      by_contra hnot
      have hunit := hfront e (mem_filter.mpr ⟨he, by simpa using hnot⟩)
      have hlarge := (hdims e he).2
      simp only [ne_eq, decide_not, Bool.not_eq_eq_eq_not, Bool.not_true, decide_eq_false_iff_not,
        not_not] at hunit
      omega
    · rw [filter_cons_of_neg (by simpa using haxis), if_neg haxis, Nat.zero_mul,
        Nat.zero_add]
      exact ⟨hle, fun h => List.Pairwise.cons (fun e _ hlt => absurd hlt haxis) (heq h)⟩

theorem extent_filter_range (sizes : List ℕ) (axis : ℕ) :
    extent sizes ((List.range sizes.length).filter (axis < ·)) =
      (sizes.drop (axis + 1)).prod := by
  rw [extent]
  congr 1
  by_cases hlt : axis + 1 ≤ sizes.length
  · obtain ⟨m, hm⟩ := Nat.exists_eq_add_of_le hlt
    have hupTo : (List.range (axis + 1)).filter (axis < ·) = [] := by
      rw [filter_eq_nil_iff]
      intro d hd
      simp only [mem_range, decide_eq_true_eq] at hd ⊢
      omega
    have hafter : ((List.range m).map (axis + 1 + ·)).filter (axis < ·) =
        (List.range m).map (axis + 1 + ·) := by
      rw [filter_eq_self]
      intro d hd
      obtain ⟨i, -, rfl⟩ := mem_map.mp hd
      simp only [decide_eq_true_eq]
      omega
    rw [hm, range_add, filter_append, hupTo, hafter, nil_append, map_map]
    apply ext_getElem (by simp [hm])
    intro i hi hi'
    have hi'' : axis + 1 + i < sizes.length := by
      rw [length_map, length_range] at hi
      omega
    rw [getElem_map, getElem_range, getElem_drop, Function.comp_apply,
      getD_eq_getElem _ _ hi'']
  · rw [drop_eq_nil_of_le (by omega), filter_eq_nil_iff.mpr, map_nil]
    intro d hd
    simp only [mem_range, decide_eq_true_eq] at hd ⊢
    omega

section Positions

variable {dims : List ℕ} (hdims : dims.Perm (List.range sizes.length))
include hdims

variable (axis) in
theorem extent_nonUnit_filter : extent sizes ((nonUnit sizes dims).filter (axis < ·)) =
    (sizes.drop (axis + 1)).prod := by
  have hcomm : (nonUnit sizes dims).filter (axis < ·) =
      nonUnit sizes (dims.filter (axis < ·)) := by
    rw [nonUnit, nonUnit, List.filter_filter, List.filter_filter]
    apply List.filter_congr
    intro d _
    exact Bool.and_comm _ _
  rw [hcomm, extent_nonUnit, ← extent_filter_range]
  exact ((hdims.filter _).map _).prod_eq

/-- Turning the last dimensions of a box around turns runs of positions around exactly when these
dimensions run fastest. -/
theorem flat_mirror_iff (hpos : ∀ size ∈ sizes, 0 < size) :
    (∀ point, InBox sizes point → flat sizes (mirror sizes axis point) dims =
      turned (sizes.drop (axis + 1)).prod (flat sizes point dims)) ↔
      Innermost sizes axis dims := by
  have hmem : ∀ d ∈ nonUnit sizes dims, d < sizes.length ∧ 1 < sizes.getD d 0 := by
    intro d hd
    obtain ⟨hd, hone⟩ := mem_filter.mp hd
    have hlt := mem_range.mp (hdims.subset hd)
    have hsize := hpos _ (getElem_mem hlt)
    rw [getD_eq_getElem _ _ hlt] at hone ⊢
    simp only [ne_eq, decide_not, Bool.not_eq_eq_eq_not, Bool.not_true,
      decide_eq_false_iff_not] at hone
    omega
  have hflat : ∀ point, InBox sizes point →
      flat sizes point dims = flat sizes point (nonUnit sizes dims) := by
    intro point hin
    exact (flat_nonUnit fun d hd =>
      InBox.getD_lt hin (mem_range.mp (hdims.subset hd))).symm
  have hlast := extent_nonUnit_filter axis hdims
  have hlastPos : 0 < (sizes.drop (axis + 1)).prod := by
    rw [← hlast]
    exact extent_pos fun d hd => (hmem d (mem_filter.mp hd).1).2
  constructor
  · intro h
    have horigin : InBox sizes (List.replicate sizes.length 0) := by
      apply inBox_of_getElem (by simp)
      intro d hd hd'
      rw [getElem_replicate]
      exact hpos _ (getElem_mem hd')
    have hzero : flat sizes (List.replicate sizes.length 0) dims = 0 := by
      apply flat_eq_zero
      intro d hd
      exact getD_replicate _ (mem_range.mp (hdims.subset hd))
    have hcorner := h _ horigin
    rw [hzero, hflat _ (inBox_mirror _ horigin), turned, Nat.zero_div, Nat.zero_mul, Nat.zero_mod,
      Nat.zero_add, Nat.sub_zero] at hcorner
    refine (flat_corner hmem).2 ?_
    omega
  · intro h point hin
    have hsplit := eq_append_of_pairwise h
    have hafter : ∀ d ∈ (nonUnit sizes dims).filter (axis < ·), d < sizes.length ∧ axis < d :=
      fun d hd => ⟨(hmem d (mem_filter.mp hd).1).1, by simpa using (mem_filter.mp hd).2⟩
    rw [hflat _ (inBox_mirror _ hin), hflat _ hin, hsplit, flat_append, flat_append, hlast,
      flat_mirror_upTo fun d hd => ?_]
    · have hmirror := flat_mirror_after axis hin hafter
      rw [turned_mul_add (by omega)]
      omega
    · exact ⟨(hmem d (mem_filter.mp hd).1).1, by simpa using (mem_filter.mp hd).2⟩

end Positions

end Mirror

end Vpux.Data
