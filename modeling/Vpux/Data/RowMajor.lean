import Mathlib.Algebra.BigOperators.Group.List.Basic
import Mathlib.Data.List.Forall2
import Mathlib.Tactic.Linarith
import Mathlib.Tactic.Ring

/-! The elements of a box of given sizes in row-major order. -/
namespace Vpux.Data

def InBox (sizes point : List ℕ) : Prop := List.Forall₂ (· < ·) point sizes

instance (sizes point : List ℕ) : Decidable (InBox sizes point) :=
  inferInstanceAs (Decidable (List.Forall₂ _ _ _))

/-- The position of a point when the last coordinate runs fastest. -/
def rowMajor : List ℕ → List ℕ → ℕ
  | _ :: sizes, i :: point => i * sizes.prod + rowMajor sizes point
  | _, _ => 0

def pointAt : List ℕ → ℕ → List ℕ
  | [], _ => []
  | size :: sizes, n => n / sizes.prod % size :: pointAt sizes n

def shift (point offset : List ℕ) : List ℕ := List.zipWith (· + ·) point offset

theorem shift_injective {point point' offset : List ℕ} (h : point.length = offset.length)
    (h' : point'.length = offset.length) (heq : shift point offset = shift point' offset) :
    point = point' := by
  apply List.ext_getElem (h.trans h'.symm)
  intro d hd hd'
  have hat := congrArg (·[d]?) heq
  have hoffset : d < offset.length := h ▸ hd
  simp only [shift, List.getElem?_zipWith, List.getElem?_eq_getElem hd,
    List.getElem?_eq_getElem hd', List.getElem?_eq_getElem hoffset, Option.some.injEq,
    Nat.add_right_cancel_iff] at hat
  exact hat

variable {sizes point : List ℕ}

section InBox

@[simp] theorem inBox_nil {point : List ℕ} : InBox [] point ↔ point = [] := by
  simp [InBox]

@[simp] theorem inBox_cons {size i : ℕ} :
    InBox (size :: sizes) (i :: point) ↔ i < size ∧ InBox sizes point := by
  simp [InBox]

theorem inBox_concat {size : ℕ} :
    InBox (sizes ++ [size]) point ↔ ∃ front i, point = front ++ [i] ∧ InBox sizes front ∧
      i < size := by
  constructor
  · intro h
    induction sizes generalizing point with
    | nil =>
      cases point with
      | nil => simp [InBox] at h
      | cons i point =>
        obtain ⟨hi, hpoint⟩ := inBox_cons.mp h
        exact ⟨[], i, by rw [inBox_nil.mp hpoint, List.nil_append], by simp, hi⟩
    | cons first sizes ih =>
      cases point with
      | nil => simp [InBox] at h
      | cons j point =>
        obtain ⟨hj, hpoint⟩ := inBox_cons.mp h
        obtain ⟨front, i, rfl, hfront, hi⟩ := ih hpoint
        exact ⟨j :: front, i, rfl, inBox_cons.mpr ⟨hj, hfront⟩, hi⟩
  · rintro ⟨front, i, rfl, hfront, hi⟩
    exact List.rel_append hfront (inBox_cons.mpr ⟨hi, inBox_nil.mpr rfl⟩)

theorem InBox.length_eq (h : InBox sizes point) :
    point.length = sizes.length := List.Forall₂.length_eq h

theorem InBox.getElem_lt (h : InBox sizes point) {d : ℕ} (hd : d < point.length)
    (hd' : d < sizes.length) : point[d] < sizes[d] :=
  List.Forall₂.get h hd hd'

theorem inBox_of_getElem (hlength : point.length = sizes.length)
    (h : ∀ d (hd : d < point.length) (hd' : d < sizes.length), point[d] < sizes[d]) :
    InBox sizes point :=
  List.forall₂_iff_get.mpr ⟨hlength, h⟩

theorem InBox.prod_pos (h : InBox sizes point) : 0 < sizes.prod := by
  induction h with
  | nil => simp
  | cons hi _ ih => exact Nat.mul_pos (Nat.zero_lt_of_lt hi) ih

theorem InBox.shift {part point sizes offset : List ℕ} (h : InBox part point)
    (hpart : List.Forall₂ (· ≤ ·) (shift part offset) sizes)
    (hlength : offset.length = part.length) : InBox sizes (shift point offset) := by
  refine inBox_of_getElem ?_ ?_
  · have := List.Forall₂.length_eq hpart
    simp only [Data.shift, List.length_zipWith] at this ⊢
    rw [h.length_eq, hlength] at *
    exact this
  · intro d hd hd'
    simp only [Data.shift, List.length_zipWith] at hd
    have hle := List.Forall₂.get hpart (i := d) (by
      simp only [Data.shift, List.length_zipWith]
      rw [← h.length_eq]
      exact hd) hd'
    have hlt := h.getElem_lt (d := d) (by omega) (by rw [← h.length_eq]; omega)
    simp only [Data.shift, List.get_eq_getElem, List.getElem_zipWith] at hle ⊢
    omega

end InBox

section Position

theorem rowMajor_lt (h : InBox sizes point) : rowMajor sizes point < sizes.prod := by
  induction h with
  | nil => simp [rowMajor]
  | @cons i size point sizes hi _ ih =>
    have hle := Nat.mul_le_mul_right sizes.prod (Nat.succ_le_of_lt hi)
    rw [Nat.succ_mul] at hle
    rw [rowMajor, List.prod_cons]
    omega

theorem pointAt_rowMajor_add (h : InBox sizes point) (k : ℕ) :
    pointAt sizes (k * sizes.prod + rowMajor sizes point) = point := by
  induction h generalizing k with
  | nil => rfl
  | @cons i size point sizes hi hpoint ih =>
    have hlt := rowMajor_lt hpoint
    have hsplit : k * (size :: sizes).prod + rowMajor (size :: sizes) (i :: point) =
        (k * size + i) * sizes.prod + rowMajor sizes point := by
      rw [rowMajor, List.prod_cons]
      ring
    have hdiv : ((k * size + i) * sizes.prod + rowMajor sizes point) / sizes.prod =
        k * size + i := by
      rw [mul_comm, Nat.mul_add_div (Nat.zero_lt_of_lt hlt), Nat.div_eq_of_lt hlt, add_zero]
    rw [hsplit, pointAt, hdiv, ih, Nat.mul_comm k, Nat.mul_add_mod, Nat.mod_eq_of_lt hi]

theorem pointAt_rowMajor (h : InBox sizes point) :
    pointAt sizes (rowMajor sizes point) = point := by
  simpa using pointAt_rowMajor_add h 0

theorem rowMajor_injective {sizes point point' : List ℕ} (h : InBox sizes point)
    (h' : InBox sizes point') (heq : rowMajor sizes point = rowMajor sizes point') :
    point = point' := by
  rw [← pointAt_rowMajor h, heq, pointAt_rowMajor h']

theorem rowMajor_pointAt_mod (sizes : List ℕ) (n : ℕ) :
    rowMajor sizes (pointAt sizes n) = n % sizes.prod := by
  induction sizes with
  | nil => simp [rowMajor, Nat.mod_one]
  | cons size sizes ih =>
    rw [pointAt, rowMajor, ih, List.prod_cons, mul_comm size, Nat.mod_mul]
    ring

theorem rowMajor_pointAt {sizes : List ℕ} {n : ℕ} (h : n < sizes.prod) :
    rowMajor sizes (pointAt sizes n) = n := by
  rw [rowMajor_pointAt_mod, Nat.mod_eq_of_lt h]

theorem inBox_pointAt {sizes : List ℕ} (h : 0 < sizes.prod) (n : ℕ) :
    InBox sizes (pointAt sizes n) := by
  induction sizes with
  | nil => simp [pointAt]
  | cons size sizes ih =>
    have hsize : 0 < size := Nat.pos_of_mul_pos_right h
    have hsizes : 0 < sizes.prod := Nat.pos_of_mul_pos_left h
    exact inBox_cons.mpr ⟨Nat.mod_lt _ hsize, ih hsizes⟩

theorem rowMajor_append {sizes sizes' point point' : List ℕ}
    (h : point.length = sizes.length) : rowMajor (sizes ++ sizes') (point ++ point') =
      rowMajor sizes point * sizes'.prod + rowMajor sizes' point' := by
  induction sizes generalizing point with
  | nil =>
    rw [List.length_nil, List.length_eq_zero_iff] at h
    simp [h, rowMajor]
  | cons size sizes ih =>
    cases point with
    | nil => simp at h
    | cons i point =>
      simp only [List.cons_append, rowMajor, List.prod_append,
        ih (Nat.succ_injective h)]
      ring

theorem rowMajor_replicate (k a : ℕ) : rowMajor (List.replicate k a) (List.replicate k 0) = 0 := by
  induction k with
  | zero => rfl
  | succ k ih => simp [List.replicate_succ, rowMajor, ih]

theorem rowMajor_set {axis : ℕ} (hsizes : axis < sizes.length)
    (hpoint : point.length = sizes.length) (size i : ℕ) :
    rowMajor (sizes.set axis size) (point.set axis i) =
      (rowMajor (sizes.take axis) (point.take axis) * size + i) * (sizes.drop (axis + 1)).prod +
        rowMajor (sizes.drop (axis + 1)) (point.drop (axis + 1)) := by
  have htake : (point.take axis).length = (sizes.take axis).length := by simp [hpoint]
  rw [List.set_eq_take_append_cons_drop, if_pos hsizes, List.set_eq_take_append_cons_drop,
    if_pos (hpoint ▸ hsizes), rowMajor_append htake, rowMajor, List.prod_cons]
  ring

end Position

-- Elements addressed by strides: when the strides of a box keep its elements apart.

/-- The coordinates are inside a box, whose sizes stand from major to minor. -/
def InBounds (sizes coords : List ℤ) : Prop :=
  List.Forall₂ (fun size x => 0 ≤ x ∧ x < size) sizes coords

def offset : List ℤ → List ℤ → ℤ
  | stride :: strides, x :: coords => x * stride + offset strides coords
  | _, _ => 0

/-- The distance of the slices of a dimension, when the dimensions inside of it are packed. -/
def innerExtent (elemSize : ℤ) : List ℤ → List ℤ → ℤ
  | stride :: _, size :: _ => stride * size
  | _, _ => elemSize

/-- Every stride steps over all that is inside of it. -/
def Nested (elemSize : ℤ) : List ℤ → List ℤ → Prop
  | stride :: strides, _ :: sizes =>
    innerExtent elemSize strides sizes ≤ stride ∧ Nested elemSize strides sizes
  | [], [] => True
  | _, _ => False

def compactStrides (elemSize : ℤ) : List ℤ → List ℤ
  | [] => []
  | _ :: sizes =>
    innerExtent elemSize (compactStrides elemSize sizes) sizes :: compactStrides elemSize sizes

variable {elemSize : ℤ} {strides sizes : List ℤ}

section

variable (h : Nested elemSize strides sizes)
include h

theorem Nested.length_eq : strides.length = sizes.length := by
  induction sizes generalizing strides with
  | nil =>
    cases strides with
    | nil => rfl
    | cons _ _ => exact h.elim
  | cons size sizes ih =>
    cases strides with
    | nil => exact h.elim
    | cons stride strides => rw [List.length_cons, List.length_cons, ih h.2]

theorem Nested.offset_bounds (helem : 0 ≤ elemSize) {coords : List ℤ}
    (hin : InBounds sizes coords) :
    0 ≤ offset strides coords ∧
      offset strides coords + elemSize ≤ innerExtent elemSize strides sizes := by
  induction hin generalizing strides with
  | nil =>
    cases strides with
    | nil => simp [offset, innerExtent]
    | cons _ _ => exact h.elim
  | @cons size x sizes coords hx _ ih =>
    cases strides with
    | nil => exact h.elim
    | cons stride strides =>
      obtain ⟨hstride, hnested⟩ := h
      obtain ⟨hlower, hupper⟩ := ih hnested
      have hnonneg : 0 ≤ x * stride := mul_nonneg hx.1 (by omega)
      have hmul : (x + 1) * stride ≤ size * stride :=
        mul_le_mul_of_nonneg_right (by omega) (by omega)
      rw [add_mul, one_mul, mul_comm size] at hmul
      simp only [offset, innerExtent]
      constructor
      · omega
      · omega

theorem Nested.disjoint (helem : 0 ≤ elemSize) {coords coords' : List ℤ}
    (hin : InBounds sizes coords) (hin' : InBounds sizes coords') (hne : coords ≠ coords') :
    offset strides coords + elemSize ≤ offset strides coords' ∨
      offset strides coords' + elemSize ≤ offset strides coords := by
  induction hin generalizing strides coords' with
  | nil =>
    cases hin'
    exact absurd rfl hne
  | @cons size x sizes coords hx hin ih =>
    cases hin' with
    | @cons _ x' _ coords' hx' hin' =>
      cases strides with
      | nil => exact h.elim
      | cons stride strides =>
        obtain ⟨hstride, hnested⟩ := h
        have hbounds := hnested.offset_bounds helem hin
        have hbounds' := hnested.offset_bounds helem hin'
        simp only [offset]
        rcases lt_trichotomy x x' with hlt | rfl | hlt
        · have hmul : (x + 1) * stride ≤ x' * stride :=
            mul_le_mul_of_nonneg_right (by omega) (by omega)
          rw [add_mul, one_mul] at hmul
          omega
        · have hrest : coords ≠ coords' := fun heq => hne (by rw [heq])
          have hcases := ih hnested hin' hrest
          omega
        · have hmul : (x' + 1) * stride ≤ x * stride :=
            mul_le_mul_of_nonneg_right (by omega) (by omega)
          rw [add_mul, one_mul] at hmul
          omega

theorem Nested.offset_ne (helem : 0 < elemSize) {coords coords' : List ℤ}
    (hin : InBounds sizes coords) (hin' : InBounds sizes coords') (hne : coords ≠ coords') :
    offset strides coords ≠ offset strides coords' := by
  have hcases := h.disjoint helem.le hin hin' hne
  omega

theorem Nested.innerExtent_pos (helem : 0 < elemSize) (hsizes : ∀ size ∈ sizes, 0 < size) :
    0 < innerExtent elemSize strides sizes := by
  induction sizes generalizing strides with
  | nil =>
    cases strides with
    | nil => exact helem
    | cons _ _ => exact h.elim
  | cons size sizes ih =>
    cases strides with
    | nil => exact h.elim
    | cons stride strides =>
      have hrest := ih h.2 fun n hn => hsizes n (List.mem_cons_of_mem size hn)
      exact mul_pos (lt_of_lt_of_le hrest h.1) (hsizes size (by simp))

end

theorem Nested.head_pos {stride size : ℤ} (h : Nested elemSize (stride :: strides) (size :: sizes))
    (helem : 0 < elemSize) (hsizes : ∀ size ∈ sizes, 0 < size) : 0 < stride :=
  lt_of_lt_of_le (h.2.innerExtent_pos helem hsizes) h.1

@[simp] theorem length_compactStrides (elemSize : ℤ) (sizes : List ℤ) :
    (compactStrides elemSize sizes).length = sizes.length := by
  induction sizes with
  | nil => rfl
  | cons size sizes ih => simp [compactStrides, ih]

theorem innerExtent_compactStrides (elemSize : ℤ) (sizes : List ℤ) :
    innerExtent elemSize (compactStrides elemSize sizes) sizes = elemSize * sizes.prod := by
  induction sizes with
  | nil =>
    rw [List.prod_nil, mul_one]
    rfl
  | cons size sizes ih =>
    change innerExtent elemSize (compactStrides elemSize sizes) sizes * size = _
    rw [ih, List.prod_cons, mul_assoc, mul_comm sizes.prod]

theorem offset_eq_sum {coords : List ℤ} (h : strides.length = coords.length) :
    offset strides coords = ((strides.zip coords).map fun p => p.2 * p.1).sum := by
  induction strides generalizing coords with
  | nil =>
    cases coords with
    | nil => rfl
    | cons _ _ => simp at h
  | cons stride strides ih =>
    cases coords with
    | nil => simp at h
    | cons x coords =>
      rw [offset, ih (by simpa using h)]
      simp

end Vpux.Data
