import Mathlib.Algebra.Group.Nat.Units
import Vpux.Data.RowMajor
import Vpux.Data.Runs

/-! Positions along some dimensions of a box, in any order of them. -/
namespace Vpux.Data

def nonUnit (memShape dims : List ℕ) : List ℕ := dims.filter fun d => memShape.getD d 0 ≠ 1

/-- The number of elements over some dimensions. -/
def extent (memShape dims : List ℕ) : ℕ := (dims.map fun d => memShape.getD d 0).prod

/-- The position along some dimensions, the last of them running fastest. -/
def flat (memShape point dims : List ℕ) : ℕ :=
  rowMajor (dims.map fun d => memShape.getD d 0) (dims.map fun d => point.getD d 0)

variable {dims : List ℕ}

section Extent

variable {memShape : List ℕ}

@[simp] theorem extent_append (dims dims' : List ℕ) :
    extent memShape (dims ++ dims') = extent memShape dims * extent memShape dims' := by
  simp [extent]

theorem nonUnit_cons (d : ℕ) (dims : List ℕ) : nonUnit memShape (d :: dims) =
    if memShape.getD d 0 = 1 then nonUnit memShape dims else d :: nonUnit memShape dims := by
  rw [nonUnit, List.filter_cons]
  by_cases hd : memShape.getD d 0 = 1
  · rw [if_pos hd, if_neg (by simpa using hd), nonUnit]
  · rw [if_neg hd, if_pos (by simpa using hd), nonUnit]

theorem extent_cons (d : ℕ) (dims : List ℕ) :
    extent memShape (d :: dims) = memShape.getD d 0 * extent memShape dims := by
  rw [extent, List.map_cons, List.prod_cons, extent]

theorem extent_nonUnit (dims : List ℕ) : extent memShape (nonUnit memShape dims) =
    extent memShape dims := by
  induction dims with
  | nil => rfl
  | cons d dims ih =>
    rw [nonUnit_cons, extent_cons]
    split
    next hd => rw [ih, hd, one_mul]
    next => rw [extent_cons, ih]

theorem extent_eq_one_iff : extent memShape dims = 1 ↔ nonUnit memShape dims = [] := by
  induction dims with
  | nil => simp [extent, nonUnit]
  | cons d dims ih =>
    rw [extent_cons, nonUnit_cons, mul_eq_one, ih]
    split
    next hd => simp only [hd, true_and]
    next hd => simp only [hd, false_and, reduceCtorEq]

end Extent

section Flat

variable {memShape point : List ℕ}

theorem flat_append (dims dims' : List ℕ) : flat memShape point (dims ++ dims') =
    flat memShape point dims * extent memShape dims' + flat memShape point dims' := by
  simp only [flat, List.map_append]
  exact rowMajor_append (by simp)

theorem flat_range (h : InBox memShape point) :
    flat memShape point (List.range memShape.length) = rowMajor memShape point := by
  have hpoint := map_getD_range point 0
  rw [h.length_eq] at hpoint
  rw [flat, hpoint, map_getD_range]

theorem flat_lt (h : ∀ d ∈ dims, point.getD d 0 < memShape.getD d 0) :
    flat memShape point dims < extent memShape dims := by
  apply rowMajor_lt
  rw [InBox, List.forall₂_map_left_iff, List.forall₂_map_right_iff, List.forall₂_same]
  exact h

theorem flat_nonUnit (h : ∀ d ∈ dims, point.getD d 0 < memShape.getD d 0) :
    flat memShape point (nonUnit memShape dims) = flat memShape point dims := by
  induction dims with
  | nil => rfl
  | cons d dims ih =>
    obtain ⟨hd, hdims⟩ := List.forall_mem_cons.mp h
    have hcons : ∀ dims', flat memShape point (d :: dims') =
        point.getD d 0 * extent memShape dims' + flat memShape point dims' := fun dims' => rfl
    rw [nonUnit_cons, hcons]
    split
    next hone =>
      have hzero : point.getD d 0 = 0 := by omega
      rw [ih hdims, hzero, zero_mul, zero_add]
    next => rw [hcons, ih hdims, extent_nonUnit]

theorem InBox.getD_lt (h : InBox memShape point) {d : ℕ} (hd : d < memShape.length) :
    point.getD d 0 < memShape.getD d 0 := by
  have hd' : d < point.length := h.length_eq ▸ hd
  rw [List.getD_eq_getElem _ _ hd, List.getD_eq_getElem _ _ hd']
  exact h.getElem_lt hd' hd

/-- The coordinates of a single step along a dimension. -/
def unitPoint (n d : ℕ) : List ℕ := (List.replicate n 0).set d 1

theorem getD_unitPoint {n d : ℕ} (hd : d < n) (i : ℕ) :
    (unitPoint n d).getD i 0 = if i = d then 1 else 0 := by
  rw [unitPoint, List.getD_eq_getElem?_getD, List.getElem?_set, List.length_replicate, if_pos hd,
    List.getElem?_replicate]
  by_cases hi : i = d
  · rw [if_pos hi, if_pos hi.symm, Option.getD_some]
  · rw [if_neg hi, if_neg (Ne.symm hi)]
    split <;> rfl

theorem inBox_unitPoint (hpos : ∀ size ∈ memShape, 0 < size) {d : ℕ} (hlt : d < memShape.length)
    (hd : 1 < memShape.getD d 0) : InBox memShape (unitPoint memShape.length d) := by
  apply inBox_of_getElem (by simp [unitPoint])
  intro i hi hi'
  have hvalue := getD_unitPoint hlt i
  rw [List.getD_eq_getElem _ _ hi] at hvalue
  rw [hvalue]
  split
  · next heq =>
    subst heq
    rwa [List.getD_eq_getElem _ _ hi'] at hd
  · exact hpos _ (List.getElem_mem hi')

theorem flat_eq_zero {point dims : List ℕ} (h : ∀ d ∈ dims, point.getD d 0 = 0) :
    flat memShape point dims = 0 := by
  induction dims with
  | nil => rfl
  | cons d dims ih =>
    obtain ⟨hd, hdims⟩ := List.forall_mem_cons.mp h
    have hcons : flat memShape point (d :: dims) =
        point.getD d 0 * extent memShape dims + flat memShape point dims := rfl
    rw [hcons, hd, ih hdims, zero_mul]

theorem flat_concat (point dims : List ℕ) (d : ℕ) : flat memShape point (dims ++ [d]) =
    flat memShape point dims * memShape.getD d 0 + point.getD d 0 := by
  rw [flat_append]
  simp [flat, extent, rowMajor]

theorem eq_of_flat (hpos : ∀ size ∈ memShape, 0 < size) {dims dims' : List ℕ}
    (hlength : dims.length = dims'.length) (hnodup : dims.Nodup)
    (hdims : ∀ d ∈ dims, d < memShape.length ∧ 1 < memShape.getD d 0)
    (hdims' : ∀ d ∈ dims', 1 < memShape.getD d 0)
    (h : ∀ point, InBox memShape point → flat memShape point dims = flat memShape point dims') :
    dims = dims' := by
  induction dims using List.reverseRecOn generalizing dims' with
  | nil => exact (List.eq_nil_of_length_eq_zero hlength.symm).symm
  | append_singleton dims d ih =>
    rcases List.eq_nil_or_concat dims' with rfl | ⟨front, d', rfl⟩
    · simp at hlength
    rw [List.concat_eq_append] at *
    obtain ⟨hlt, hsize⟩ := hdims d (by simp)
    have hsize' := hdims' d' (by simp)
    have hnotMem : d ∉ dims := by
      intro hmem
      exact (List.nodup_append'.mp hnodup).2.2 hmem (by simp)
    -- a single step along the last dimension is a single step in memory
    have hlast : d = d' := by
      by_contra hne
      have hunit := h _ (inBox_unitPoint hpos hlt hsize)
      have hzero : flat memShape (unitPoint memShape.length d) dims = 0 := by
        apply flat_eq_zero
        intro k hk
        rw [getD_unitPoint hlt, if_neg]
        rintro rfl
        exact hnotMem hk
      rw [flat_concat, flat_concat, hzero, getD_unitPoint hlt, getD_unitPoint hlt, if_pos rfl,
        if_neg (Ne.symm hne), zero_mul, zero_add, add_zero] at hunit
      have hone := Nat.eq_one_of_mul_eq_one_left hunit.symm
      omega
    subst hlast
    have hfront : dims = front := by
      refine ih (by simpa using hlength) (List.nodup_append'.mp hnodup).1
        (fun k hk => hdims k (List.mem_append_left _ hk))
        (fun k hk => hdims' k (List.mem_append_left _ hk)) ?_
      intro point hin
      have hall := h point hin
      rw [flat_concat, flat_concat, Nat.add_right_cancel_iff] at hall
      exact Nat.eq_of_mul_eq_mul_right (Nat.zero_lt_of_lt hsize) hall
    rw [hfront]

theorem flat_eq_iff (hpos : ∀ size ∈ memShape, 0 < size) {dims dims' : List ℕ}
    (hdims : dims.Perm (List.range memShape.length))
    (hdims' : dims'.Perm (List.range memShape.length)) :
    (∀ point, InBox memShape point → flat memShape point dims = flat memShape point dims') ↔
      nonUnit memShape dims = nonUnit memShape dims' := by
  have hflat : ∀ point, InBox memShape point → ∀ dims : List ℕ,
      dims.Perm (List.range memShape.length) →
      flat memShape point (nonUnit memShape dims) = flat memShape point dims :=
    fun point hin dims hperm => flat_nonUnit fun d hd =>
      InBox.getD_lt hin (List.mem_range.mp (hperm.subset hd))
  have hsize : ∀ dims : List ℕ, dims.Perm (List.range memShape.length) →
      ∀ d ∈ nonUnit memShape dims, d < memShape.length ∧ 1 < memShape.getD d 0 := by
    intro dims hperm d hd
    obtain ⟨hmem, hone⟩ := List.mem_filter.mp hd
    have hlt := List.mem_range.mp (hperm.subset hmem)
    have hsize := hpos _ (List.getElem_mem hlt)
    rw [List.getD_eq_getElem _ _ hlt] at hone ⊢
    simp only [ne_eq, decide_not, Bool.not_eq_true', decide_eq_false_iff_not] at hone
    omega
  constructor
  · intro h
    refine eq_of_flat hpos ((hdims.trans hdims'.symm).filter _).length_eq ?_ (hsize dims hdims)
      (fun d hd => (hsize dims' hdims' d hd).2) fun point hin => ?_
    · exact (hdims.nodup_iff.mpr List.nodup_range).filter _
    · rw [hflat point hin dims hdims, hflat point hin dims' hdims', h point hin]
  · intro h point hin
    rw [← hflat point hin dims hdims, h, hflat point hin dims' hdims']

end Flat

end Vpux.Data
