import Mathlib.Data.List.Basic
import Mathlib.Data.Int.Init

/-! A kernel sliding over a padded range, and parts of the range that give parts of its outputs. -/
namespace Vpux.Data

/-- What a kernel reads: an element or a padding position, by its place in the whole tensor. -/
inductive Cell (ι : Type) where
  | element (i : ι)
  | padding (i : ι)
  deriving DecidableEq, Repr

def Cell.place {ι : Type} : Cell ι → ι
  | element i => i
  | padding i => i

/-- A position of a plane holds an element where both of its coordinates do. -/
def Cell.prod {ι κ : Type} : Cell ι → Cell κ → Cell (ι × κ)
  | element i, element j => element (i, j)
  | c, c' => padding (c.place, c'.place)

/-- `size` elements from `offset` on, with `before` and `after` padding positions around them. -/
structure PaddedRange where
  offset : ℤ
  size : ℤ
  before : ℤ
  after : ℤ
  deriving DecidableEq, Repr

namespace PaddedRange

def extent (r : PaddedRange) : ℤ := r.before + r.size + r.after

def read (r : PaddedRange) (p : ℤ) : Option (Cell ℤ) :=
  let i := r.offset + p - r.before
  if 0 ≤ p ∧ p < r.extent then
    some (if r.offset ≤ i ∧ i < r.offset + r.size then .element i else .padding i)
  else none

def outputs (r : PaddedRange) (kernel stride : ℤ) : ℤ := (r.extent - kernel) / stride + 1

variable {r part whole : PaddedRange} {kernel stride : ℤ}

theorem le_outputs_iff (hstride : 0 < stride) {n : ℤ} :
    n ≤ r.outputs kernel stride ↔ (n - 1) * stride + kernel ≤ r.extent := by
  have hle := Int.le_ediv_iff_mul_le hstride (a := n - 1) (b := r.extent - kernel)
  rw [outputs]
  omega

theorem outputs_eq_iff (hstride : 0 < stride) {n : ℤ} :
    r.outputs kernel stride = n ↔
      (n - 1) * stride + kernel ≤ r.extent ∧ r.extent < n * stride + kernel := by
  have hle : n ≤ r.outputs kernel stride ↔ _ := le_outputs_iff hstride
  have hlt : n + 1 ≤ r.outputs kernel stride ↔ _ := le_outputs_iff hstride
  rw [Int.add_sub_cancel] at hlt
  omega

theorem read_isSome (hstride : 0 < stride) {o k : ℤ} (ho : 0 ≤ o)
    (ho' : o < r.outputs kernel stride) (hk : 0 ≤ k) (hk' : k < kernel) :
    (r.read (o * stride + k)).isSome := by
  have hfit := (le_outputs_iff hstride).mp (show o + 1 ≤ r.outputs kernel stride from ho')
  rw [Int.add_sub_cancel] at hfit
  have hnonneg : 0 ≤ o * stride := Int.mul_nonneg ho (Int.le_of_lt hstride)
  rw [read, if_pos ⟨by omega, by omega⟩]
  rfl

/-- The kernel over `part` gives `count` outputs, each reading what the output `first` places
later reads over `whole`. -/
structure Reproduces (part whole : PaddedRange) (kernel stride first count : ℤ) : Prop where
  outputs : part.outputs kernel stride = count
  read : ∀ o, 0 ≤ o → o < count → ∀ k, 0 ≤ k → k < kernel →
    part.read (o * stride + k) = whole.read ((first + o) * stride + k)

theorem Reproduces.of_window (hstride : 0 < stride) {first count : ℤ} (hfirst : 0 ≤ first)
    (hcount : first + count ≤ whole.outputs kernel stride)
    (hstart : part.offset - part.before = whole.offset - whole.before + first * stride)
    (hsame : ∀ i, part.offset - part.before ≤ i →
      i < part.offset - part.before + ((count - 1) * stride + kernel) →
      (part.offset ≤ i ∧ i < part.offset + part.size ↔
        whole.offset ≤ i ∧ i < whole.offset + whole.size))
    (houtputs : part.outputs kernel stride = count) :
    part.Reproduces whole kernel stride first count := by
  refine ⟨houtputs, fun o ho ho' k hk hk' => ?_⟩
  have hmul : (first + o) * stride = first * stride + o * stride :=
    Int.add_mul first o stride
  have hpart := read_isSome hstride ho (houtputs ▸ ho') hk hk'
  have hwhole := read_isSome hstride (show 0 ≤ first + o by omega)
    (show first + o < whole.outputs kernel stride by omega) hk hk'
  have hin : ∀ {r : PaddedRange} {p : ℤ}, (r.read p).isSome → 0 ≤ p ∧ p < r.extent := by
    intro r p h
    by_contra hout
    rw [PaddedRange.read, if_neg hout] at h
    contradiction
  have hplace : whole.offset + ((first + o) * stride + k) - whole.before =
      part.offset + (o * stride + k) - part.before := by omega
  have hlast : o * stride ≤ (count - 1) * stride :=
    Int.mul_le_mul_of_nonneg_right (by omega) (Int.le_of_lt hstride)
  have hin' := hin hpart
  rw [PaddedRange.read, PaddedRange.read, if_pos hin', if_pos (hin hwhole), hplace,
    if_congr (hsame _ (by omega) (by omega)) rfl rfl]

theorem Reproduces.of_start (hstride : 0 < stride) {first count : ℤ} (hfirst : 0 ≤ first)
    (hcount : first + count ≤ whole.outputs kernel stride)
    (hstart : part.offset - part.before = whole.offset - whole.before + first * stride)
    (hsame : ∀ i, part.offset - part.before ≤ i → i < part.offset - part.before + part.extent →
      (part.offset ≤ i ∧ i < part.offset + part.size ↔
        whole.offset ≤ i ∧ i < whole.offset + whole.size))
    (houtputs : part.outputs kernel stride = count) :
    part.Reproduces whole kernel stride first count := by
  have hfit := (le_outputs_iff hstride).mp (Int.le_of_eq houtputs.symm)
  exact of_window hstride hfirst hcount hstart (fun i hi hi' => hsame i hi (by omega)) houtputs

end PaddedRange

/-- A padded range in each of two dimensions. -/
structure PaddedPlane where
  height : PaddedRange
  width : PaddedRange

namespace PaddedPlane

def read (plane : PaddedPlane) (y x : ℤ) : Option (Cell (ℤ × ℤ)) := do
  let row ← plane.height.read y
  let column ← plane.width.read x
  return row.prod column

/-- What the kernel reads for the output at `(y, x)`, row by row. -/
def window (plane : PaddedPlane) (kernelY kernelX strideY strideX y x : ℤ) :
    List (Option (Cell (ℤ × ℤ))) :=
  (List.range kernelY.toNat).flatMap fun (ky : ℕ) =>
    (List.range kernelX.toNat).map fun (kx : ℕ) => plane.read (y * strideY + ky) (x * strideX + kx)

variable {part whole : PaddedPlane} {kernelY kernelX strideY strideX : ℤ}

theorem window_eq {y₀ x₀ rows columns : ℤ}
    (hheight : part.height.Reproduces whole.height kernelY strideY y₀ rows)
    (hwidth : part.width.Reproduces whole.width kernelX strideX x₀ columns)
    {y x : ℤ} (hy : 0 ≤ y) (hy' : y < rows) (hx : 0 ≤ x) (hx' : x < columns) :
    part.window kernelY kernelX strideY strideX y x =
      whole.window kernelY kernelX strideY strideX (y₀ + y) (x₀ + x) := by
  refine List.flatMap_congr fun ky hky => List.map_congr_left fun kx hkx => ?_
  rw [List.mem_range] at hky hkx
  rw [read, read, hheight.read y hy hy' ky (by omega) (by omega),
    hwidth.read x hx hx' kx (by omega) (by omega)]

theorem none_notMem_window (hstrideY : 0 < strideY) (hstrideX : 0 < strideX) {y x : ℤ}
    (hy : 0 ≤ y) (hy' : y < whole.height.outputs kernelY strideY)
    (hx : 0 ≤ x) (hx' : x < whole.width.outputs kernelX strideX) :
    none ∉ whole.window kernelY kernelX strideY strideX y x := by
  intro hmem
  obtain ⟨ky, hky, hmem⟩ := List.mem_flatMap.mp hmem
  obtain ⟨kx, hkx, hread⟩ := List.mem_map.mp hmem
  rw [List.mem_range] at hky hkx
  obtain ⟨row, hrow⟩ := Option.isSome_iff_exists.mp
    (PaddedRange.read_isSome hstrideY hy hy' (Int.natCast_nonneg ky) (by omega))
  obtain ⟨column, hcolumn⟩ := Option.isSome_iff_exists.mp
    (PaddedRange.read_isSome hstrideX hx hx' (Int.natCast_nonneg kx) (by omega))
  simp [read, hrow, hcolumn] at hread

end PaddedPlane
end Vpux.Data
