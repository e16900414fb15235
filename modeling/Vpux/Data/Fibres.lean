import Vpux.Data.Broadcast

/-! Operators on the fibres of a tensor along some of its dimensions, and what they compute when
neighbouring dimensions are taken together. -/
namespace Vpux.Data

section Fibres

variable {α β : Type}

/-- The sizes of the dimensions, each with whether the operator works along it. -/
abbrev AxisDims : Type := List (Bool × ℕ)

namespace AxisDims

def of (kinds : ℕ → Bool) (shape : List ℕ) : AxisDims := shape.mapIdx fun d n => (kinds d, n)

def shape (dims : AxisDims) : List ℕ := dims.map Prod.snd

def sizesOf (kind : Bool) (dims : AxisDims) : List ℕ :=
    (dims.filter fun d => d.1 = kind).map Prod.snd

def coordsOf (kind : Bool) (dims : AxisDims) (point : List ℕ) : List ℕ :=
  ((dims.zip point).filter fun c => c.1.1 = kind).map Prod.snd

@[simp] theorem of_nil (kinds : ℕ → Bool) : of kinds [] = [] := rfl

@[simp] theorem of_cons (kinds : ℕ → Bool) (n : ℕ) (shape : List ℕ) :
    of kinds (n :: shape) = (kinds 0, n) :: of (fun d => kinds (d + 1)) shape := List.mapIdx_cons

theorem of_append (kinds : ℕ → Bool) (s t : List ℕ) :
    of kinds (s ++ t) = of kinds s ++ of (fun d => kinds (s.length + d)) t := by
  rw [of, List.mapIdx_append, of]
  simp only [of, Nat.add_comm]

theorem of_congr {kinds kinds' : ℕ → Bool} {shape : List ℕ}
    (h : ∀ d < shape.length, kinds d = kinds' d) : of kinds shape = of kinds' shape :=
  List.mapIdx_eq_mapIdx_iff.mpr fun d hd => by rw [h d hd]

theorem of_const {kinds : ℕ → Bool} {shape : List ℕ} {b : Bool}
    (h : ∀ d < shape.length, kinds d = b) :
    of kinds shape = shape.map (b, ·) := by
  apply List.ext_getElem (by simp [of])
  intro d hd hd'
  simp [of, h d (by simpa using hd')]

end AxisDims

open AxisDims

/-- The values of the result in row-major order: each is the value of the function at the place of
the point in its fibre, which has all points with the same coordinates off the axes. -/
def alongAxes (f : List α → ℕ → β) (dims out : AxisDims) (x : ℕ → α) : List β :=
  (grid (out.shape.map List.range)).map fun point =>
    f (((grid (dims.shape.map List.range)).filter fun p =>
        coordsOf false dims p = coordsOf false out point).map fun p => x (rowMajor dims.shape p))
      (rowMajor (sizesOf true out) (coordsOf true out point))

/-- The positions in row-major order, each with that of its fibre among the fibres and that of its
point in the fibre. -/
def places (dims : AxisDims) : List (ℕ × ℕ × ℕ) :=
  (grid (dims.shape.map List.range)).map fun point => (rowMajor dims.shape point,
    rowMajor (sizesOf false dims) (coordsOf false dims point),
    rowMajor (sizesOf true dims) (coordsOf true dims point))

theorem mem_grid_shape {shape point : List ℕ} :
    point ∈ grid (shape.map List.range) ↔ InBox shape point := by
  rw [mem_grid, List.forall₂_map_right_iff]
  simp only [List.mem_range]
  rfl

theorem inBox_coordsOf {dims : AxisDims} {point : List ℕ} (h : InBox dims.shape point)
    (kind : Bool) :
    InBox (sizesOf kind dims) (coordsOf kind dims point) := by
  induction dims generalizing point with
  | nil => simp [sizesOf, coordsOf]
  | cons d dims ih =>
    cases point with
    | nil => simp [AxisDims.shape, InBox] at h
    | cons i point =>
      obtain ⟨hi, hpoint⟩ := inBox_cons.mp h
      have hrest := ih hpoint
      by_cases hkind : d.1 = kind
      · simpa [sizesOf, coordsOf, hkind, hi] using hrest
      · simpa [sizesOf, coordsOf, hkind] using hrest

theorem alongAxes_eq (f : List α → ℕ → β) {dims out : AxisDims}
    (h : sizesOf false dims = sizesOf false out) (x : ℕ → α) : alongAxes f dims out x =
      (places out).map fun c => f (((places dims).filter fun e => e.2.1 = c.2.1).map fun e => x e.1)
        c.2.2 := by
  rw [alongAxes, places, places, List.map_map]
  apply List.map_congr_left
  intro point hpoint
  congr 1
  rw [List.filter_map, List.map_map]
  congr 1
  apply List.filter_congr
  intro p hp
  have hbox := inBox_coordsOf (mem_grid_shape.mp hp) false
  have hbox' := inBox_coordsOf (mem_grid_shape.mp hpoint) false
  simp only [Function.comp_apply, decide_eq_decide]
  constructor
  · intro heq
    rw [heq, h]
  · intro heq
    rw [← h] at hbox' heq
    exact rowMajor_injective hbox hbox' heq

end Fibres

section Layout

open AxisDims

/-- The same positions, fibre by fibre. -/
structure SameLayout (dims dims' : AxisDims) : Prop where
  places : places dims = places dims'
  size : dims.shape.prod = dims'.shape.prod
  sizesOf : ∀ kind, (AxisDims.sizesOf kind dims).prod = (AxisDims.sizesOf kind dims').prod

namespace SameLayout

variable {dims dims' dims₂ front : AxisDims}

theorem refl (dims : AxisDims) : SameLayout dims dims := ⟨rfl, rfl, fun _ => rfl⟩

theorem symm (h : SameLayout dims dims') : SameLayout dims' dims :=
  ⟨h.places.symm, h.size.symm, fun kind => (h.sizesOf kind).symm⟩

theorem trans (h : SameLayout dims dims') (h' : SameLayout dims' dims₂) : SameLayout dims dims₂ :=
  ⟨h.places.trans h'.places, h.size.trans h'.size, fun kind =>
    (h.sizesOf kind).trans (h'.sizesOf kind)⟩

end SameLayout

theorem places_cons (b : Bool) (n : ℕ) (dims : AxisDims) : places ((b, n) :: dims) =
    (List.range n).flatMap fun i => (places dims).map fun c => (i * dims.shape.prod + c.1,
      (if b then 0 else i) * (AxisDims.sizesOf false dims).prod + c.2.1,
      (if b then i else 0) * (AxisDims.sizesOf true dims).prod + c.2.2) := by
  rw [places, show shape ((b, n) :: dims) = n :: dims.shape from rfl, List.map_cons, grid,
    List.map_flatMap]
  congr 1
  funext i
  rw [places, List.map_map, List.map_map]
  apply List.map_congr_left
  intro point _
  cases b <;> simp [rowMajor, AxisDims.sizesOf, AxisDims.coordsOf, AxisDims.shape]

namespace SameLayout

variable {dims dims' front : AxisDims} {b : Bool}

theorem cons (h : SameLayout dims dims') (d : Bool × ℕ) : SameLayout (d :: dims) (d :: dims') := by
  obtain ⟨b, n⟩ := d
  constructor
  · rw [places_cons, places_cons, h.places, h.size, h.sizesOf, h.sizesOf]
  · rw [AxisDims.shape, List.map_cons, List.prod_cons, ← AxisDims.shape, h.size]
    rfl
  · intro kind
    have hrest := h.sizesOf kind
    by_cases hkind : b = kind
    · simpa [AxisDims.sizesOf, hkind] using Or.inl hrest
    · simpa [AxisDims.sizesOf, hkind] using hrest

theorem append (h : SameLayout dims dims') (front : AxisDims) :
    SameLayout (front ++ dims) (front ++ dims') := by
  induction front with
  | nil => exact h
  | cons d front ih => exact ih.cons d

theorem one (b : Bool) (dims : AxisDims) : SameLayout ((b, 1) :: dims) dims := by
  constructor
  · rw [places_cons]
    simp
  · simp [AxisDims.shape]
  · intro kind
    by_cases hkind : b = kind <;> simp [AxisDims.sizesOf, hkind]

theorem ones (k : ℕ) (b : Bool) (dims : AxisDims) :
    SameLayout (List.replicate k (b, 1) ++ dims) dims := by
  induction k with
  | zero => exact .refl dims
  | succ k ih => exact (one b _).trans ih

theorem merge (b : Bool) (m n : ℕ) (dims : AxisDims) :
    SameLayout ((b, m) :: (b, n) :: dims) ((b, m * n) :: dims) := by
  constructor
  · simp only [places_cons, flatMap_range_mul, List.map_flatMap, List.map_map]
    congr 1
    funext i
    congr 1
    funext j
    apply List.map_congr_left
    intro c _
    cases b <;> simp [AxisDims.shape, AxisDims.sizesOf] <;> ring_nf <;> simp
  · simp [AxisDims.shape, Nat.mul_assoc]
  · intro kind
    by_cases hkind : b = kind <;> simp [AxisDims.sizesOf, hkind, Nat.mul_assoc]

theorem group {g : AxisDims} (h : ∀ d ∈ g, d.1 = b) (dims : AxisDims) :
    SameLayout (g ++ dims) ((b, g.shape.prod) :: dims) := by
  induction g with
  | nil => exact (one b dims).symm
  | cons d g ih =>
    obtain ⟨kind, n⟩ := d
    obtain rfl : kind = b := h _ List.mem_cons_self
    have hrest := ih fun d hd => h d (List.mem_cons_of_mem _ hd)
    exact (hrest.cons (kind, n)).trans (merge kind n (AxisDims.shape g).prod dims)

end SameLayout

variable {α β : Type}

theorem alongAxes_congr (f : List α → ℕ → β) {dims dims' out out' : AxisDims}
    (h : sizesOf false dims = sizesOf false out) (h' : sizesOf false dims' = sizesOf false out')
    (hdims : SameLayout dims dims') (hout : SameLayout out out') (x : ℕ → α) :
    alongAxes f dims out x = alongAxes f dims' out' x := by
  rw [alongAxes_eq f h, alongAxes_eq f h', hdims.places, hout.places]

end Layout

end Vpux.Data
