import Vpux.Distribution.Attr

/-! The boxes of a segmented tensor. They are disjoint and cover the tensor, unless the balanced
split rounds a dimension that is not tiled down. -/
namespace Vpux.VPU
open Tiling Dims4D DistributionMode List

section Pieces

variable {sizes : List ℤ} {start x : ℤ}

variable (hpos : ∀ s ∈ sizes, 0 < s)
include hpos

theorem le_of_mem_dividedOffsets {offset : ℤ} (h : offset ∈ dividedOffsets start sizes) :
    start ≤ offset := by
  induction sizes generalizing start with
  | nil => simp [dividedOffsets] at h
  | cons size sizes ih =>
    have hsize := hpos size (by simp)
    rcases mem_cons.mp h with rfl | h
    · exact le_rfl
    · have := ih (fun s hs => hpos s (by simp [hs])) h
      omega

theorem dividedOffsets_add_le {i : ℕ} {size offset : ℤ}
    (hoffset : (dividedOffsets start sizes)[i]? = some offset) (hsize : sizes[i]? = some size) :
    offset + size ≤ start + sizes.sum := by
  induction sizes generalizing start i with
  | nil => simp at hsize
  | cons s sizes ih =>
    have hrest : ∀ s ∈ sizes, 0 < s := fun s hs => hpos s (by simp [hs])
    rw [sum_cons]
    cases i with
    | zero =>
      obtain rfl : s = size := by simpa using hsize
      obtain rfl : start = offset := by simpa [dividedOffsets] using hoffset
      have := sum_nonneg fun s hs => (hrest s hs).le
      omega
    | succ i =>
      have := ih hrest hoffset hsize
      omega

theorem existsUnique_piece (hx : start ≤ x) (hx' : x < start + sizes.sum) :
    ∃! i : ℕ, ∃ size offset, sizes[i]? = some size ∧
      (dividedOffsets start sizes)[i]? = some offset ∧ offset ≤ x ∧ x < offset + size := by
  induction sizes generalizing start with
  | nil =>
    rw [sum_nil] at hx'
    omega
  | cons size sizes ih =>
    have hrest : ∀ s ∈ sizes, 0 < s := fun s hs => hpos s (by simp [hs])
    by_cases hfirst : x < start + size
    · refine ⟨0, ⟨size, start, rfl, rfl, hx, hfirst⟩, fun i hi => ?_⟩
      cases i with
      | zero => rfl
      | succ i =>
        obtain ⟨size', offset, -, hoffset, hle, -⟩ := hi
        have hmem : offset ∈ dividedOffsets (start + size) sizes := mem_of_getElem? hoffset
        have := le_of_mem_dividedOffsets hrest hmem
        omega
    · rw [sum_cons] at hx'
      obtain ⟨i, hi, hunique⟩ := ih hrest (show start + size ≤ x by omega) (by omega)
      refine ⟨i + 1, hi, fun j hj => ?_⟩
      cases j with
      | zero =>
        obtain ⟨size', offset, hsize', hoffset, -, hlt⟩ := hj
        obtain rfl : size = size' := by simpa using hsize'
        obtain rfl : start = offset := by simpa [dividedOffsets] using hoffset
        exact absurd hlt hfirst
      | succ j => exact congrArg Nat.succ (hunique j hj)

end Pieces

open Shape

section Shapes

variable {shape : Shape} {axis d : ℕ}

theorem dim_set_self (h : axis < shape.length) (v : ℤ) : dim (shape.set axis v) axis = v := by
  simp [dim, List.getD, getElem?_set_self h]

theorem dim_set_of_ne (h : d ≠ axis) (v : ℤ) : dim (shape.set axis v) d = shape.dim d := by
  simp [dim, List.getD, getElem?_set_ne h.symm]

theorem dim_replicate_zero (rank d : ℕ) : dim (List.replicate rank 0) d = 0 := by
  simp only [dim, List.getD, getElem?_replicate]
  split_ifs <;> rfl

theorem dim_mem (h : d < shape.length) : shape.dim d ∈ shape := by
  unfold dim
  rw [getD_eq_getElem _ _ h]
  exact getElem_mem h

theorem alignShape_spec {alignment : Option (List ℤ)} {alignFunc : ℤ → ℤ → ℤ} {aligned : Shape}
    (hrank : ∀ a ∈ alignment, shape.length = a.length)
    (h : alignShape shape alignment alignFunc = some aligned) :
    aligned.length = shape.length ∧ ∀ d < shape.length, aligned.dim d =
      alignment.elim (shape.dim d) fun a => alignFunc (shape.dim d) (a.getD d 1) := by
  cases alignment with
  | none =>
    obtain rfl := Option.some.inj h
    exact ⟨rfl, fun d _ => rfl⟩
  | some a =>
    have hlength : shape.length = a.length := hrank a rfl
    unfold alignShape at h
    dsimp only at h
    split_ifs at h
    obtain rfl := Option.some.inj h
    refine ⟨by simp [hlength], fun d hd => ?_⟩
    have hd' : d < a.length := hlength ▸ hd
    simp [dim, List.getD, hd, hd']

variable {val align : ℤ}

theorem alignValUp_pos (hval : 0 < val) (halign : 0 < align) : 0 < alignValUp val align :=
  hval.trans_le (le_alignValUp hval.le halign)

theorem alignValUp_zero {align : ℤ} (halign : 0 < align) : alignValUp 0 align = 0 := by
  rw [alignValUp, if_pos le_rfl, Int.tdiv_eq_zero_of_lt (by omega) (by omega), zero_mul]

theorem alignValDown_zero (align : ℤ) : alignValDown 0 align = 0 := by
  rw [alignValDown, Int.zero_tdiv, zero_mul]

theorem bmod_le_self {x : ℤ} (hx : 0 ≤ x) (m : ℕ) : x.bmod m ≤ x := by
  have hle : x % m ≤ x := by
    obtain ⟨n, rfl⟩ := Int.eq_ofNat_of_zero_le hx
    exact_mod_cast Nat.mod_le n m
  rw [Int.bmod_eq_emod]
  split_ifs <;> omega

theorem alignValDown_le (hval : 0 ≤ val) : alignValDown val align ≤ val := by
  rw [alignValDown, Int.mul_comm]
  exact Int.mul_tdiv_self_le hval

theorem alignValDown_eq_iff : alignValDown val align = val ↔ align ∣ val :=
  ⟨fun h => ⟨val.tdiv align, by rw [Int.mul_comm]; exact h.symm⟩, Int.tdiv_mul_cancel⟩

end Shapes

section Split

variable {shape : Shape} {axis : ℕ} {tiles : ℤ} {alignment : Option (List ℤ)}
  {segments : List Shape}

structure Segments (shape : Shape) (axis : ℕ) (tiles : ℤ) (segments : List Shape) : Prop where
  length : segments.length = tiles.toNat
  rank : ∀ t ∈ segments, t.length = shape.length
  positive : ∀ t ∈ segments, 0 < t.dim axis
  sum : (segments.map (·.dim axis)).sum = shape.dim axis

theorem sum_replicate_dim {n : ℤ} (hn : 0 ≤ n) (t : Shape) (axis : ℕ) :
    ((List.replicate n.toNat t).map (·.dim axis)).sum = n * t.dim axis := by
  rw [map_replicate, sum_replicate, nsmul_eq_mul, Int.toNat_of_nonneg hn]

variable (haxis : axis < shape.length) (hrank : ∀ a ∈ alignment, shape.length = a.length)
variable (htiles : 1 < tiles)

include haxis hrank htiles

theorem splitDividedUp_spec (hshape : 0 ≤ shape.dim axis)
    (halign : ∀ a ∈ alignment, ∀ d < shape.length, 0 < a.getD d 1)
    (h : splitDividedUp shape tiles axis alignment = some segments) :
    Segments shape axis tiles segments ∧ ∀ t ∈ segments, ∀ d < shape.length, d ≠ axis →
      t.dim d = shape.dim d ∨ ∃ align, 0 < align ∧ t.dim d = alignValUp (shape.dim d) align := by
  simp only [splitDividedUp, Option.bind_eq_bind, Option.bind_eq_some_iff, Option.guard_eq_some',
    exists_const, Option.pure_def, Option.some.injEq] at h
  obtain ⟨tiledShape, haligned, hremainder, rfl⟩ := h
  obtain ⟨hlength, hdims⟩ := alignShape_spec (fun a ha => by simpa using hrank a ha) haligned
  rw [length_set] at hlength hdims
  have htiled : 0 ≤ tiledShape.dim axis := by
    have hup : 0 ≤ divUp (shape.dim axis) tiles := divUp_nonneg hshape (by omega)
    rw [hdims axis haxis, dim_set_self haxis]
    cases alignment with
    | none => exact hup
    | some a => exact hup.trans (le_alignValUp hup (halign a rfl axis haxis))
  have hpos : 0 < tiledShape.dim axis := by
    rcases htiled.lt_or_eq with hlt | heq
    · exact hlt
    · -- nothing is left over when the first tiles are empty, so the axis is empty itself
      rw [← heq, zero_mul, sub_zero] at hremainder
      rw [hdims axis haxis, dim_set_self haxis] at heq
      have hup : 0 < divUp (shape.dim axis) tiles := divUp_pos hremainder (by omega)
      cases alignment with
      | none => exact absurd heq hup.ne
      | some a => exact absurd heq (alignValUp_pos hup (halign a rfl axis haxis)).ne
  have hmem : ∀ t ∈ List.replicate (tiles - 1).toNat tiledShape ++
      [shape.set axis (shape.dim axis - tiledShape.dim axis * (tiles - 1))],
      t = tiledShape ∨ t = shape.set axis (shape.dim axis - tiledShape.dim axis * (tiles - 1)) := by
    intro t ht
    rcases mem_append.mp ht with ht | ht
    · exact .inl (eq_of_mem_replicate ht)
    · exact .inr (mem_singleton.mp ht)
  refine ⟨⟨?_, fun t ht => ?_, fun t ht => ?_, ?_⟩, fun t ht d hd hne => ?_⟩
  · simp only [length_append, length_replicate, length_singleton]
    omega
  · rcases hmem t ht with rfl | rfl
    · exact hlength
    · exact length_set
  · rcases hmem t ht with rfl | rfl
    · exact hpos
    · rw [dim_set_self haxis]
      exact hremainder
  · rw [map_append, sum_append, sum_replicate_dim (by omega), map_singleton,
      sum_singleton, dim_set_self haxis]
    ring
  · rcases hmem t ht with rfl | rfl
    · rw [hdims d hd, dim_set_of_ne hne]
      cases alignment with
      | none => exact .inl rfl
      | some a => exact .inr ⟨a.getD d 1, halign a rfl d hd, rfl⟩
    · exact .inl (dim_set_of_ne hne _)

theorem splitUniform_spec (hshape : 0 ≤ shape.dim axis)
    (h : splitUniform shape tiles axis alignment = some segments) :
    Segments shape axis tiles segments ∧
      (∀ t ∈ segments, ∀ d < shape.length, d ≠ axis → t.dim d =
        alignment.elim (shape.dim d) fun a => alignValDown (shape.dim d) (a.getD d 1)) ∧
      ∀ t ∈ segments, ∀ t' ∈ segments, t.dim axis ≤ t'.dim axis +
        max 0 (alignment.elim 1 fun a => (a.getD axis 1).bmod (2 ^ 32)) := by
  simp only [splitUniform, Option.bind_eq_bind, Option.bind_eq_some_iff, Option.guard_eq_some',
    exists_const, Option.pure_def, Option.some.injEq] at h
  obtain ⟨tiledShape, haligned, hpos, hnonzero, hmod, ⟨hcount, hcount'⟩, rfl⟩ := h
  obtain ⟨hlength, hdims⟩ := alignShape_spec (fun a ha => by simpa using hrank a ha) haligned
  rw [length_set] at hlength hdims
  generalize alignment.elim 1 (fun a => (a.getD axis 1).bmod (2 ^ 32)) = unit at *
  have haxis' : axis < tiledShape.length := hlength ▸ haxis
  have hrest := Int.tdiv_mul_cancel_of_tmod_eq_zero hmod
  generalize (shape.dim axis - tiledShape.dim axis * tiles).tdiv unit = count at *
  have hmem : ∀ t ∈ List.replicate count.toNat (tiledShape.set axis (tiledShape.dim axis + unit)) ++
      List.replicate (tiles - count).toNat tiledShape,
      (t = tiledShape.set axis (tiledShape.dim axis + unit) ∧ 0 < count) ∨ t = tiledShape := by
    intro t ht
    rcases mem_append.mp ht with ht | ht
    · obtain ⟨hne, rfl⟩ := mem_replicate.mp ht
      exact .inl ⟨rfl, by omega⟩
    · exact .inr (eq_of_mem_replicate ht)
  have hle : tiledShape.dim axis * tiles ≤ shape.dim axis := by
    have hdown : tiledShape.dim axis ≤ (shape.dim axis).tdiv tiles := by
      rw [hdims axis haxis, dim_set_self haxis]
      cases alignment with
      | none => exact le_rfl
      | some a => exact alignValDown_le (Int.tdiv_nonneg hshape (by omega))
    calc tiledShape.dim axis * tiles ≤ (shape.dim axis).tdiv tiles * tiles :=
          Int.mul_le_mul_of_nonneg_right hdown (by omega)
      _ = tiles * (shape.dim axis).tdiv tiles := Int.mul_comm _ _
      _ ≤ shape.dim axis := Int.mul_tdiv_self_le hshape
  -- the larger tiles exist only when there is something left over
  have hunit : 0 < count → 0 < unit := by
    intro hcountPos
    by_contra hneg
    have := Int.mul_neg_of_pos_of_neg hcountPos (show unit < 0 by omega)
    omega
  refine ⟨⟨?_, fun t ht => ?_, fun t ht => ?_, ?_⟩, fun t ht d hd hne => ?_, fun t ht t' ht' => ?_⟩
  · simp only [length_append, length_replicate]
    omega
  · rcases hmem t ht with ⟨rfl, -⟩ | rfl
    · rw [length_set, hlength]
    · exact hlength
  · rcases hmem t ht with ⟨rfl, hcountPos⟩ | rfl
    · rw [dim_set_self haxis']
      omega
    · exact hpos
  · rw [map_append, sum_append, sum_replicate_dim hcount, sum_replicate_dim (by omega),
      dim_set_self haxis']
    linarith
  · have hrest : tiledShape.dim d =
        alignment.elim (shape.dim d) fun a => alignValDown (shape.dim d) (a.getD d 1) := by
      rw [hdims d hd, dim_set_of_ne hne]
    rcases hmem t ht with ⟨rfl, -⟩ | rfl
    · rw [dim_set_of_ne hne, hrest]
    · exact hrest
  · rcases hmem t ht with ⟨rfl, hcountPos⟩ | rfl <;> rcases hmem t' ht' with ⟨rfl, hcountPos'⟩ | rfl
    all_goals try rw [dim_set_self haxis']
    · omega
    · omega
    · omega
    · omega

end Split

section Boxes

/-- The logical coordinates of an element. -/
def IsElement (shape : Shape) (index : List ℤ) : Prop :=
  index.length = shape.length ∧ ∀ d < shape.length, 0 ≤ Shape.dim index d ∧
    Shape.dim index d < shape.dim d

def InBox (offset size : Shape) (index : List ℤ) : Prop :=
  ∀ d < index.length, offset.dim d ≤ Shape.dim index d ∧
    Shape.dim index d < offset.dim d + size.dim d

/-- The shapes and offsets of the clusters lose nothing, and compute and memory agree. -/
structure LosesNoData (shape : Shape) (attr : DistributedTensorAttr) (tilingScheme : List ℤ)
    (numClusters : ℤ) (sizes offsets : List Shape) : Prop where
  clusters : (sizes.length : ℤ) = numClusters ∧ (offsets.length : ℤ) = numClusters
  element : ∀ index, IsElement shape index → ∃! i : ℕ, ∃ size offset, sizes[i]? = some size ∧
    offsets[i]? = some offset ∧ InBox offset size index
  positive : ∀ size ∈ sizes, ∀ d < shape.length, 0 < size.dim d
  inside : ∀ (i : ℕ) size offset, sizes[i]? = some size → offsets[i]? = some offset →
    0 ≤ offset.dim (getDistributedTilingAxis tilingScheme) ∧
      offset.dim (getDistributedTilingAxis tilingScheme) +
        size.dim (getDistributedTilingAxis tilingScheme) ≤
          shape.dim (getDistributedTilingAxis tilingScheme)
  balanced : attr.uniformDistributedSegments = true → ∀ s ∈ sizes, ∀ t ∈ sizes,
    s.dim (getDistributedTilingAxis tilingScheme) ≤ t.dim (getDistributedTilingAxis tilingScheme) +
      attr.alignment.elim 1 fun alignment =>
        alignment.getD (getDistributedTilingAxis tilingScheme) 1
  computeShapes : getPerClusterComputeShapes shape attr = some sizes
  computeOffsets : getPerClusterComputeShapeOffsets shape attr = some offsets

variable {shape : Shape} {axis : ℕ} {tiles : ℤ} {segments : List Shape}

theorem length_segmentOffsets (rank axis : ℕ) (segments : List Shape) :
    (segmentOffsets rank axis segments).length = segments.length := by
  simp [segmentOffsets, dividedOffsets_length]

theorem getElem?_segmentOffsets {rank : ℕ} (haxis : axis < rank) {i : ℕ} {offset : Shape}
    (h : (segmentOffsets rank axis segments)[i]? = some offset) :
    (dividedOffsets 0 (segments.map (·.dim axis)))[i]? = some (offset.dim axis) ∧
      ∀ d ≠ axis, offset.dim d = 0 := by
  rw [segmentOffsets, getElem?_map, Option.map_eq_some_iff] at h
  obtain ⟨start, hstart, rfl⟩ := h
  constructor
  · rw [dim_set_self (by rwa [length_replicate])]
    exact hstart
  · intro d hne
    rw [dim_set_of_ne hne, dim_replicate_zero]

namespace Segments

theorem element (hs : Segments shape axis tiles segments) (haxis : axis < shape.length)
    (hcover : ∀ t ∈ segments, ∀ d < shape.length, d ≠ axis → shape.dim d ≤ t.dim d)
    {index : List ℤ} (hindex : IsElement shape index) :
    ∃! i : ℕ, ∃ size offset, segments[i]? = some size ∧
      (segmentOffsets shape.length axis segments)[i]? = some offset ∧ InBox offset size index := by
  obtain ⟨hlength, hrange⟩ := hindex
  have hpos : ∀ s ∈ segments.map (·.dim axis), 0 < s := by
    intro s hmem
    obtain ⟨t, ht, rfl⟩ := mem_map.mp hmem
    exact hs.positive t ht
  have hsum : dim index axis < 0 + (segments.map (·.dim axis)).sum := by
    rw [hs.sum, zero_add]
    exact (hrange axis haxis).2
  obtain ⟨i, ⟨s, start, hsize, hstart, hle, hlt⟩, hunique⟩ :=
    existsUnique_piece hpos (hrange axis haxis).1 hsum
  rw [getElem?_map, Option.map_eq_some_iff] at hsize
  obtain ⟨size, hsize, rfl⟩ := hsize
  have hoffset : (segmentOffsets shape.length axis segments)[i]? =
      some ((List.replicate shape.length 0).set axis start) := by
    rw [segmentOffsets, getElem?_map, hstart]
    rfl
  refine ⟨i, ⟨size, _, hsize, hoffset, fun d hd => ?_⟩, fun j hj => ?_⟩
  · rw [hlength] at hd
    by_cases hne : d = axis
    · subst hne
      rw [dim_set_self (by rwa [length_replicate])]
      exact ⟨hle, hlt⟩
    · rw [dim_set_of_ne hne, dim_replicate_zero, zero_add]
      have hmem : size ∈ segments := mem_of_getElem? hsize
      exact ⟨(hrange d hd).1, (hrange d hd).2.trans_le (hcover size hmem d hd hne)⟩
  · obtain ⟨size', offset, hsize', hoffset', hbox⟩ := hj
    obtain ⟨hstart', -⟩ := getElem?_segmentOffsets haxis hoffset'
    obtain ⟨hle', hlt'⟩ := hbox axis (hlength ▸ haxis)
    apply hunique j
    exact ⟨_, _, by rw [getElem?_map, hsize']; rfl, hstart', hle', hlt'⟩

/-- The last element of a dimension is in a box only when the box is that large. -/
theorem le_dim_of_element (haxis : axis < shape.length) (hshape : ∀ x ∈ shape, 0 < x)
    (hcover : ∀ index, IsElement shape index → ∃! i : ℕ, ∃ size offset, segments[i]? = some size ∧
      (segmentOffsets shape.length axis segments)[i]? = some offset ∧ InBox offset size index)
    {d : ℕ} (hd : d < shape.length) (hne : d ≠ axis) :
    ∃ size ∈ segments, shape.dim d ≤ size.dim d := by
  let index : List ℤ := (List.replicate shape.length 0).set d (shape.dim d - 1)
  have hlength : index.length = shape.length := by simp [index]
  have hlast : dim index d = shape.dim d - 1 :=
    dim_set_self (by rwa [length_replicate]) _
  have hindex : IsElement shape index := by
    constructor
    · exact hlength
    · intro e he
      have hpos := hshape _ (dim_mem he)
      by_cases hed : e = d
      · subst hed
        omega
      · rw [show dim index e = 0 by rw [dim_set_of_ne hed, dim_replicate_zero]]
        omega
  obtain ⟨i, ⟨size, offset, hsize, hoffset, hbox⟩, -⟩ := hcover index hindex
  obtain ⟨-, hzero⟩ := getElem?_segmentOffsets haxis hoffset
  have hlt := (hbox d (hlength ▸ hd)).2
  rw [hlast, hzero d hne] at hlt
  exact ⟨size, mem_of_getElem? hsize, by omega⟩

variable (hs : Segments shape axis tiles segments)
include hs

theorem inside (haxis : axis < shape.length) {i : ℕ} {size offset : Shape}
    (hsize : segments[i]? = some size)
    (hoffset : (segmentOffsets shape.length axis segments)[i]? = some offset) :
    0 ≤ offset.dim axis ∧ offset.dim axis + size.dim axis ≤ shape.dim axis := by
  obtain ⟨hstart, -⟩ := getElem?_segmentOffsets haxis hoffset
  have hpos : ∀ s ∈ segments.map (·.dim axis), 0 < s := by
    intro s hmem
    obtain ⟨t, ht, rfl⟩ := mem_map.mp hmem
    exact hs.positive t ht
  have hsize' : (segments.map (·.dim axis))[i]? = some (size.dim axis) := by
    rw [getElem?_map, hsize]
    rfl
  have hend := dividedOffsets_add_le hpos hstart hsize'
  rw [hs.sum] at hend
  exact ⟨le_of_mem_dividedOffsets hpos (mem_of_getElem? hstart), by omega⟩

theorem ne_nil (htiles : 1 < tiles) : segments ≠ [] := by
  rintro rfl
  have := hs.length
  rw [length_nil] at this
  omega

theorem axis_pos (htiles : 1 < tiles) : 0 < shape.dim axis := by
  rw [← hs.sum]
  apply sum_pos
  · intro s hmem
    obtain ⟨t, ht, rfl⟩ := mem_map.mp hmem
    exact hs.positive t ht
  · simpa using hs.ne_nil htiles

end Segments

end Boxes

section Memory

variable {shape : Shape} {attr : DistributedTensorAttr} {tilingScheme : List ℤ} {numClusters : ℤ}
  {sizes offsets : List Shape}

theorem perCluster_of_segmented (hmode : attr.mode = SEGMENTED)
    (htiles : attr.numTiles = some tilingScheme) (hclusters : attr.numClusters = some numClusters)
    (hsizes : getPerClusterMemoryShapes shape attr = some sizes)
    (hoffsets : getPerClusterMemoryShapeOffsets shape attr = some offsets) :
    getSplitIntoSegments shape attr = some sizes ∧
      offsets = segmentOffsets shape.length (getDistributedTilingAxis tilingScheme) sizes ∧
      getPerClusterComputeShapes shape attr = some sizes ∧
      getPerClusterComputeShapeOffsets shape attr = some offsets := by
  have hnot : ¬ (bitEnumContains attr.mode DUPLICATED ||
      bitEnumContains attr.mode MULTICASTED) = true := by
    rw [hmode]
    decide
  have hseg : bitEnumContains attr.mode SEGMENTED = true := by
    rw [hmode]
    rfl
  have hsplit : getSplitIntoSegments shape attr = some sizes := by
    rw [getPerClusterMemoryShapes, hclusters, Option.bind_eq_bind, Option.bind_some, if_neg hnot,
      if_pos hmode] at hsizes
    exact hsizes
  have hoffsets' : offsets =
      segmentOffsets shape.length (getDistributedTilingAxis tilingScheme) sizes := by
    simp only [getPerClusterMemoryShapeOffsets, hclusters, Option.bind_eq_bind, Option.bind_some,
      if_neg hnot, if_pos hmode, hsizes, htiles] at hoffsets
    exact (Option.some.inj hoffsets).symm
  have hcompute : getPerClusterComputeShapes shape attr = some sizes := by
    simpa [getPerClusterComputeShapes, hclusters, hseg] using hsplit
  refine ⟨hsplit, hoffsets', hcompute, ?_⟩
  simp [getPerClusterComputeShapeOffsets, hclusters, hseg, hcompute, htiles, hoffsets']

/-- The split of an accepted attribute is a segmentation of the tiled axis. In the uniform mode
the other dimensions are rounded down, else they are not made smaller. -/
theorem getSplitIntoSegments_spec (hverify : verify attr shape = .ok ())
    (hmode : attr.mode = SEGMENTED) (halign : ∀ a ∈ attr.alignment, ∀ x ∈ a, 0 < x)
    (hshape : ∀ x ∈ shape, 0 ≤ x) (htiles : attr.numTiles = some tilingScheme)
    (hclusters : attr.numClusters = some numClusters)
    (h : getSplitIntoSegments shape attr = some sizes) :
    1 < numClusters ∧ getDistributedTilingAxis tilingScheme < shape.length ∧
      Segments shape (getDistributedTilingAxis tilingScheme) numClusters sizes ∧
      (∀ t ∈ sizes, ∀ d < shape.length, d ≠ getDistributedTilingAxis tilingScheme →
        if attr.uniformDistributedSegments then t.dim d =
          attr.alignment.elim (shape.dim d) fun a => alignValDown (shape.dim d) (a.getD d 1)
        else t.dim d = shape.dim d ∨
          ∃ align, 0 < align ∧ t.dim d = alignValUp (shape.dim d) align) ∧
      (attr.uniformDistributedSegments = true → ∀ s ∈ sizes, ∀ t ∈ sizes,
        s.dim (getDistributedTilingAxis tilingScheme) ≤
          t.dim (getDistributedTilingAxis tilingScheme) + attr.alignment.elim 1 fun alignment =>
            alignment.getD (getDistributedTilingAxis tilingScheme) 1) := by
  have htiled : attr.isTiledMode = true := by
    rw [DistributedTensorAttr.isTiledMode, hmode]
    rfl
  obtain ⟨tilingScheme', numClusters', htiles', hclusters', htiling, -, hparams⟩ :=
    verify_tiled hverify htiled
  obtain rfl : tilingScheme = tilingScheme' := Option.some.inj (htiles.symm.trans htiles')
  obtain rfl : numClusters = numClusters' := Option.some.inj (hclusters.symm.trans hclusters')
  obtain ⟨haxis, hmany, hscheme⟩ := verifyTiling_ok htiling
  obtain ⟨hrank, hrankTiles⟩ := verifyParams_rank hparams
  rw [← hrankTiles tilingScheme htiles] at haxis
  have halign' : ∀ a ∈ attr.alignment, ∀ d < shape.length, 0 < a.getD d 1 := by
    intro a ha d hd
    rw [getD_eq_getElem _ _ (hrank a ha ▸ hd)]
    exact halign a ha _ (getElem_mem _)
  have hnonneg : 0 ≤ shape.dim (getDistributedTilingAxis tilingScheme) := hshape _ (dim_mem haxis)
  have hsplit : splitSegmentedShape shape tilingScheme numClusters
      (getDistributedTilingAxis tilingScheme) attr.alignment attr.uniformDistributedSegments =
        some sizes := by
    simpa [getSplitIntoSegments, htiles, hclusters, ← hrankTiles tilingScheme htiles, haxis] using h
  simp only [splitSegmentedShape, haxis, hscheme, guard_true, Option.pure_def,
    Option.bind_eq_bind, Option.bind_some] at hsplit
  refine ⟨hmany, haxis, ?_⟩
  by_cases huniform : attr.uniformDistributedSegments = true
  · rw [if_pos huniform] at hsplit
    obtain ⟨hs, hother, hbalanced⟩ := splitUniform_spec haxis hrank hmany hnonneg hsplit
    refine ⟨hs, fun t ht d hd hne => ?_, fun _ s hsmem t htmem => ?_⟩
    · rw [if_pos huniform]
      exact hother t ht d hd hne
    · apply (hbalanced s hsmem t htmem).trans
      apply Int.add_le_add_left
      cases halignment : attr.alignment with
      | none => exact max_le zero_le_one le_rfl
      | some a =>
        have hpos := (halign' a halignment _ haxis).le
        exact max_le hpos (bmod_le_self hpos _)
  · rw [if_neg huniform] at hsplit
    obtain ⟨hs, hother⟩ := splitDividedUp_spec haxis hrank hmany hnonneg halign' hsplit
    refine ⟨hs, fun t ht d hd hne => ?_, fun h => absurd h huniform⟩
    rw [if_neg huniform]
    exact hother t ht d hd hne

/-- A segmented tensor loses no data exactly when it has some and the balanced split rounds no
other dimension down. -/
theorem losesNoData_iff (hverify : verify attr shape = .ok ())
    (hmode : attr.mode = SEGMENTED) (halign : ∀ a ∈ attr.alignment, ∀ x ∈ a, 0 < x)
    (hshape : ∀ x ∈ shape, 0 ≤ x) (htiles : attr.numTiles = some tilingScheme)
    (hclusters : attr.numClusters = some numClusters)
    (hsizes : getPerClusterMemoryShapes shape attr = some sizes)
    (hoffsets : getPerClusterMemoryShapeOffsets shape attr = some offsets) :
    LosesNoData shape attr tilingScheme numClusters sizes offsets ↔
      (∀ x ∈ shape, 0 < x) ∧ (attr.uniformDistributedSegments = true →
        ∀ a ∈ attr.alignment, ∀ d < shape.length, d ≠ getDistributedTilingAxis tilingScheme →
          a.getD d 1 ∣ shape.dim d) := by
  obtain ⟨hsplit, rfl, hcompute, hcomputeOffsets⟩ :=
    perCluster_of_segmented hmode htiles hclusters hsizes hoffsets
  obtain ⟨hmany, haxis, hs, hother, hbalanced⟩ :=
    getSplitIntoSegments_spec hverify hmode halign hshape htiles hclusters hsplit
  have hempty : ∀ t ∈ sizes, ∀ d < shape.length, d ≠ getDistributedTilingAxis tilingScheme →
      shape.dim d = 0 → t.dim d = 0 := by
    intro t ht d hd hne hzero
    have hdim := hother t ht d hd hne
    rw [hzero] at hdim
    split_ifs at hdim
    · rw [hdim]
      cases attr.alignment with
      | none => rfl
      | some a => exact alignValDown_zero _
    · rcases hdim with heq | ⟨align, hpositive, hup⟩
      · exact heq
      · rw [hup, alignValUp_zero hpositive]
  constructor
  · intro hkeeps
    have hpos : ∀ x ∈ shape, 0 < x := by
      intro x hx
      obtain ⟨d, hd, rfl⟩ := List.mem_iff_getElem.mp hx
      obtain ⟨t, ht⟩ := List.exists_mem_of_ne_nil sizes (hs.ne_nil hmany)
      by_contra hneg
      have hzero : shape.dim d = 0 := by
        have := hshape _ hx
        rw [Shape.dim, List.getD_eq_getElem _ _ hd]
        omega
      have hne : d ≠ getDistributedTilingAxis tilingScheme := by
        rintro rfl
        exact (hs.axis_pos hmany).ne' hzero
      exact (hkeeps.positive t ht d hd).ne' (hempty t ht d hd hne hzero)
    refine ⟨hpos, fun huniform a ha d hd hne => ?_⟩
    obtain ⟨size, hsize, hle⟩ := Segments.le_dim_of_element haxis hpos hkeeps.element hd hne
    have hdown := hother size hsize d hd hne
    rw [if_pos huniform, Option.mem_def.mp ha, Option.elim_some] at hdown
    rw [← alignValDown_eq_iff]
    exact (alignValDown_le (hpos _ (dim_mem hd)).le).antisymm (hdown ▸ hle)
  · rintro ⟨hpos, hdvd⟩
    have hcover : ∀ t ∈ sizes, ∀ d < shape.length,
        d ≠ getDistributedTilingAxis tilingScheme → shape.dim d ≤ t.dim d := by
      intro t ht d hd hne
      have hdim := hother t ht d hd hne
      by_cases huniform : attr.uniformDistributedSegments = true
      · rw [if_pos huniform] at hdim
        rw [hdim]
        cases halignment : attr.alignment with
        | none => exact le_rfl
        | some a => exact (alignValDown_eq_iff.mpr (hdvd huniform a halignment d hd hne)).ge
      · rw [if_neg huniform] at hdim
        rcases hdim with heq | ⟨align, hpositive, hup⟩
        · exact heq.ge
        · rw [hup]
          exact le_alignValUp (hpos _ (dim_mem hd)).le hpositive
    have hlength : (sizes.length : ℤ) = numClusters := by
      rw [hs.length]
      omega
    exact {
      clusters := ⟨hlength, by rw [length_segmentOffsets, hlength]⟩
      element := fun index => hs.element haxis hcover
      positive := by
        intro size hsize d hd
        by_cases hne : d = getDistributedTilingAxis tilingScheme
        · rw [hne]
          exact hs.positive size hsize
        · exact (hpos _ (dim_mem hd)).trans_le (hcover size hsize d hd hne)
      inside := fun i size offset => hs.inside haxis
      balanced := hbalanced
      computeShapes := hcompute
      computeOffsets := hcomputeOffsets }

/-- Height over two clusters, in equal segments, with the channels in groups of 16. -/
def alignedChannels : DistributedTensorAttr where
  mode := SEGMENTED
  numTiles := some [1, 1, 2, 1]
  kernel := none
  pads := none
  strides := none
  numClusters := some 2
  alignment := some [1, 16, 1, 1]
  uniformDistributedSegments := true
  computeShapes := none
  computeOffsets := none
  memoryShapes := none
  memoryOffsets := none
  equalMemoryAndComputeView := false

theorem losesNoData_alignedChannels :
    verify alignedChannels [1, 32, 9, 8] = .ok () ∧
      LosesNoData [1, 32, 9, 8] alignedChannels [1, 1, 2, 1] 2 [[1, 32, 5, 8], [1, 32, 4, 8]]
        [[0, 0, 0, 0], [0, 0, 5, 0]] :=
  ⟨by decide, (losesNoData_iff (by decide) rfl (by decide) (by decide) rfl rfl (by decide)
    (by decide)).mpr (by decide)⟩

/-- Of 17 channels, the boxes have the first 16. -/
theorem not_losesNoData_alignedChannels :
    verify alignedChannels [1, 17, 8, 8] = .ok () ∧
      getPerClusterMemoryShapes [1, 17, 8, 8] alignedChannels =
        some [[1, 16, 4, 8], [1, 16, 4, 8]] ∧
      getPerClusterMemoryShapeOffsets [1, 17, 8, 8] alignedChannels =
        some [[0, 0, 0, 0], [0, 0, 4, 0]] ∧
      ¬ LosesNoData [1, 17, 8, 8] alignedChannels [1, 1, 2, 1] 2 [[1, 16, 4, 8], [1, 16, 4, 8]]
        [[0, 0, 0, 0], [0, 0, 4, 0]] := by
  refine ⟨by decide, by decide, by decide, fun h => ?_⟩
  have hindex : IsElement [1, 17, 8, 8] [0, 16, 0, 0] := by
    unfold IsElement
    decide
  obtain ⟨i, ⟨size, offset, hsize, hoffset, hbox⟩, -⟩ := h.element _ hindex
  have hlt := (hbox 1 (by decide)).2
  have hmem := List.mem_of_getElem? hsize
  have hmem' := List.mem_of_getElem? hoffset
  revert hlt
  simp only [List.mem_cons, List.not_mem_nil, or_false, or_self] at hmem hmem'
  rcases hmem' with rfl | rfl <;> subst hmem <;> decide

end Memory

end Vpux.VPU
