import Mathlib.Algebra.BigOperators.Intervals
import Mathlib.Algebra.Ring.Defs

/-! Tensors of rank four as sizes and values, and how cutting, joining and padding move the
values. -/
namespace Vpux.Data
open Finset

/-- Only the values at the indices below the sizes belong to the tensor. -/
structure Tensor (α : Type) where
  N : ℕ
  C : ℕ
  H : ℕ
  W : ℕ
  get : ℕ → ℕ → ℕ → ℕ → α

namespace Tensor

variable {α : Type}

structure Agrees (t u : Tensor α) : Prop where
  N : t.N = u.N
  C : t.C = u.C
  H : t.H = u.H
  W : t.W = u.W
  get : ∀ n < t.N, ∀ c < t.C, ∀ y < t.H, ∀ x < t.W, t.get n c y x = u.get n c y x

theorem Agrees.refl (t : Tensor α) : t.Agrees t :=
  ⟨rfl, rfl, rfl, rfl, fun _ _ _ _ _ _ _ _ => rfl⟩

theorem Agrees.symm {t u : Tensor α} (h : t.Agrees u) : u.Agrees t := by
  obtain ⟨hN, hC, hH, hW, hget⟩ := h
  constructor <;> try simp [hN, hC, hH, hW]
  intro n hn c hc y hy x hx
  exact (hget n (by omega) c (by omega) y (by omega) x (by omega)).symm

theorem Agrees.trans {t u v : Tensor α} (h : t.Agrees u) (h' : u.Agrees v) : t.Agrees v := by
  constructor
  · exact h.N.trans h'.N
  · exact h.C.trans h'.C
  · exact h.H.trans h'.H
  · exact h.W.trans h'.W
  · intro n hn c hc y hy x hx
    rw [h.get n hn c hc y hy x hx]
    exact h'.get n (h.N ▸ hn) c (h.C ▸ hc) y (h.H ▸ hy) x (h.W ▸ hx)

def fill (N C H W : ℕ) (a : α) : Tensor α := ⟨N, C, H, W, fun _ _ _ _ => a⟩

def crop (t : Tensor α) (y x H W : ℕ) : Tensor α :=
  { t with H := H, W := W, get := fun n c y' x' => t.get n c (y + y') (x + x') }

def besideW (t u : Tensor α) : Tensor α :=
  { t with
    W := t.W + u.W
    get := fun n c y x => if x < t.W then t.get n c y x else u.get n c y (x - t.W) }

def aboveH (t u : Tensor α) : Tensor α :=
  { t with
    H := t.H + u.H
    get := fun n c y x => if y < t.H then t.get n c y x else u.get n c (y - t.H) x }

def zipWith (f : α → α → α) (t u : Tensor α) : Tensor α :=
  { t with get := fun n c y x => f (t.get n c y x) (u.get n c y x) }

def map (f : α → α) (t : Tensor α) : Tensor α :=
  { t with get := fun n c y x => f (t.get n c y x) }

/-- The value at a place of the tensor with `top` rows and `left` columns of zeros before it, and
zeros behind it. -/
def padded [Zero α] (t : Tensor α) (top left n c y x : ℕ) : α :=
  if top ≤ y ∧ y < top + t.H ∧ left ≤ x ∧ x < left + t.W then t.get n c (y - top) (x - left) else 0

variable {t : Tensor α}

@[simp] theorem padded_zero_zero [Zero α] {n c y x : ℕ} (hy : y < t.H) (hx : x < t.W) :
    t.padded 0 0 n c y x = t.get n c y x := by
  simp [padded, hy, hx]

/-- In one dimension, a place of a padded part reads what a place of the padded whole reads. -/
structure SameRead (size pad place size' pad' place' offset : ℕ) : Prop where
  inside : pad' ≤ place' ∧ place' < pad' + size' ↔ pad ≤ place ∧ place < pad + size
  shift : pad ≤ place → place < pad + size → offset + (place' - pad') = place - pad

theorem padded_crop [Zero α] {top left y x H W top' left' y' x' offsetY offsetX : ℕ}
    (hy : SameRead t.H top y H top' y' offsetY) (hx : SameRead t.W left x W left' x' offsetX)
    (n c : ℕ) :
    (t.crop offsetY offsetX H W).padded top' left' n c y' x' = t.padded top left n c y x := by
  have hinside : (top' ≤ y' ∧ y' < top' + H ∧ left' ≤ x' ∧ x' < left' + W) ↔
      top ≤ y ∧ y < top + t.H ∧ left ≤ x ∧ x < left + t.W := by
    rw [← and_assoc, hy.inside, hx.inside, and_assoc]
  simp only [padded, crop, hinside]
  split_ifs with hmem
  · rw [hy.shift hmem.1 hmem.2.1, hx.shift hmem.2.2.1 hmem.2.2.2]
  · rfl

def transpose (t : Tensor α) : Tensor α := ⟨t.N, t.C, t.W, t.H, fun n c y x => t.get n c x y⟩

theorem Agrees.transpose {t u : Tensor α} (h : t.Agrees u) : t.transpose.Agrees u.transpose :=
  ⟨h.N, h.C, h.W, h.H, fun n hn c hc y hy x hx => h.get n hn c hc x hx y hy⟩

theorem padded_transpose [Zero α] (t : Tensor α) (top left n c y x : ℕ) :
    t.transpose.padded top left n c y x = t.padded left top n c x y := by
  simp only [padded, transpose]
  congr 1
  apply propext
  constructor <;> exact fun ⟨hy, hy', hx, hx'⟩ => ⟨hx, hx', hy, hy'⟩

theorem padded_eq_zero_of_y [Zero α] {top y : ℕ} (h : ¬(top ≤ y ∧ y < top + t.H)) (left n c x : ℕ) :
    t.padded top left n c y x = 0 := by
  rw [padded, if_neg fun hmem => h ⟨hmem.1, hmem.2.1⟩]

theorem padded_eq_zero_of_x [Zero α] {left x : ℕ} (h : ¬(left ≤ x ∧ x < left + t.W))
    (top n c y : ℕ) :
    t.padded top left n c y x = 0 := by
  rw [padded, if_neg fun hmem => h hmem.2.2]

/-- A tensor that holds the padded input as far as it goes. -/
structure Extends [Zero α] (input : Tensor α) (top left height width : ℕ) (extended : Tensor α) :
    Prop where
  N : extended.N = input.N
  C : extended.C = input.C
  H : extended.H = height
  W : extended.W = width
  get : ∀ n c, ∀ y < height, ∀ x < width, extended.get n c y x = input.padded top left n c y x

namespace Extends

variable [Zero α] {input t : Tensor α} {top left height width : ℕ}

theorem refl (input : Tensor α) : Extends input 0 0 input.H input.W input := by
  refine ⟨rfl, rfl, rfl, rfl, fun n c y hy x hx => ?_⟩
  rw [padded_zero_zero hy hx]

theorem transpose (h : Extends input top left height width t) :
    Extends input.transpose left top width height t.transpose := by
  refine ⟨h.N, h.C, h.W, h.H, fun n c y hy x hx => ?_⟩
  rw [padded_transpose]
  exact h.get n c x hx y hy

theorem before (h : Extends input top 0 height width t) (left : ℕ) :
    Extends input top left height (left + width)
      ((fill input.N input.C height left 0).besideW t) := by
  refine ⟨rfl, rfl, rfl, congrArg (left + ·) h.W, fun n c y hy x hx => ?_⟩
  change (if x < left then 0 else t.get n c y (x - left)) = _
  split_ifs with hlt
  · rw [padded_eq_zero_of_x (by omega)]
  · rw [h.get n c y hy (x - left) (by omega)]
    simp only [Tensor.padded, Nat.sub_zero]
    congr 1
    apply propext
    omega

theorem behind (h : Extends input top left height width t) (hwidth : left + input.W ≤ width)
    (count : ℕ) : Extends input top left height (width + count)
      (t.besideW (fill input.N input.C height count 0)) := by
  refine ⟨h.N, h.C, h.H, congrArg (· + count) h.W, fun n c y hy x hx => ?_⟩
  change (if x < t.W then t.get n c y x else 0) = _
  rw [h.W]
  split_ifs with hlt
  · exact h.get n c y hy x hlt
  · rw [padded_eq_zero_of_x (by omega)]

theorem above (h : Extends input 0 left height width t) (top : ℕ) :
    Extends input top left (top + height) width
      ((fill input.N input.C top width 0).aboveH t) :=
  (h.transpose.before top).transpose

variable (h : Extends input top left height width t) (hheight : top + input.H ≤ height)
include h hheight

theorem below (count : ℕ) : Extends input top left (height + count) width
      (t.aboveH (fill input.N input.C count width 0)) :=
  (h.transpose.behind hheight count).transpose

theorem padded_eq (hwidth : left + input.W ≤ width) (top' left' n c y x : ℕ) :
    t.padded top' left' n c y x = input.padded (top' + top) (left' + left) n c y x := by
  by_cases hinside : top' ≤ y ∧ y < top' + t.H ∧ left' ≤ x ∧ x < left' + t.W
  · obtain ⟨hy, hy', hx, hx'⟩ := hinside
    rw [h.H] at hy'
    rw [h.W] at hx'
    rw [padded, if_pos ⟨hy, by rwa [h.H], hx, by rwa [h.W]⟩,
      h.get n c (y - top') (by omega) (x - left') (by omega), padded, padded, Nat.sub_sub,
        Nat.sub_sub]
    congr 1
    apply propext
    omega
  · rw [h.H, h.W] at hinside
    rw [padded, if_neg (by rw [h.H, h.W]; exact hinside), padded, if_neg (by omega)]

end Extends

end Tensor

section Windows

variable {M : Type} [AddCommMonoid M] {size width count : ℕ}

/-- The size of window number `i` when `size` places are cut into windows of one width, the last one
with what is left. -/
def windowSize (size width i : ℕ) : ℕ := min width (size - i * width)

theorem sum_range_windows (f : ℕ → M) (h : size ≤ count * width) :
    ∑ k ∈ range size, f k =
      ∑ i ∈ range count, ∑ k ∈ range (windowSize size width i), f (i * width + k) := by
  induction count generalizing size with
  | zero =>
    obtain rfl : size = 0 := by omega
    simp
  | succ count ih =>
    rw [Nat.succ_mul] at h
    rcases Nat.le_total size (count * width) with hle | hle
    · have hlast : windowSize size width count = 0 := by
        unfold windowSize
        omega
      rw [sum_range_succ, hlast, ← ih hle]
      simp
    · have hbefore : ∀ i < count, windowSize size width i = windowSize (count * width) width i := by
        intro i hi
        have hmul : (i + 1) * width ≤ count * width := Nat.mul_le_mul_right width hi
        rw [Nat.succ_mul] at hmul
        unfold windowSize
        omega
      have hlast : windowSize size width count = size - count * width := by
        unfold windowSize
        omega
      calc ∑ k ∈ range size, f k
          = ∑ k ∈ range (count * width + (size - count * width)), f k := by
            rw [Nat.add_sub_cancel' hle]
        _ = ∑ k ∈ range (count * width), f k +
              ∑ k ∈ range (size - count * width), f (count * width + k) := sum_range_add f _ _
        _ = _ := by
            rw [sum_range_succ, hlast, ih (le_refl (count * width))]
            congr 1
            apply sum_congr rfl
            intro i hi
            rw [hbefore i (mem_range.mp hi)]

theorem window_unique {i k : ℕ} (hwidth : 0 < width) :
    (i * width ≤ k ∧ k < i * width + windowSize size width i) ↔ k < size ∧ i = k / width := by
  unfold windowSize
  constructor
  · rintro ⟨hlow, hhigh⟩
    constructor
    · omega
    · symm
      rw [Nat.div_eq_iff hwidth]
      constructor <;> omega
  · rintro ⟨hk, rfl⟩
    have hdiv := Nat.div_add_mod k width
    have hmod := Nat.mod_lt k hwidth
    rw [Nat.mul_comm] at hdiv
    constructor <;> omega

end Windows

end Vpux.Data
