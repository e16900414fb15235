import Vpux.StorageElement.ExtractTile

/-! A tile of a tile of an interpolation reads the pixels that one tile reads where the offset that
the first tile leaves to its outputs makes no difference: tiling the tile does not add it. -/
namespace Vpux.VPU
open Data Tiling Dims4D Shape

namespace SEInterpolateAttr

/-- The row or the column that an output row or column reads. -/
def pixel (attr : SEInterpolateAttr) (data : Shape) (d : ℕ) (y : ℤ) : ℤ :=
  (attr.backInferCoord (List.replicate data.length y) data).dim d

/-- What the first output of a tile is after the first output of its first pixel. -/
def relativeOffset (attr : SEInterpolateAttr) (scale : ℤ) (data tileOffset : Shape) (d : ℕ) : ℤ :=
  tileOffset.dim d - attr.pixel data d (tileOffset.dim d) * scale

/-- The output of a tile that is nearest to an output. -/
def nearestOutput (tileOffset tileShape : Shape) (d : ℕ) (y : ℤ) : ℤ :=
  max (tileOffset.dim d) (min y (tileOffset.dim d + tileShape.dim d - 1))

section Pixel

variable {attr : SEInterpolateAttr} {data tileOffset tileShape place : Shape} {scales : List ℤ}
  {d : ℕ} {y : ℤ}

theorem dim_backInferCoord_eq_pixel (hplace : place.length = data.length) (hd : d < data.length) :
    (attr.backInferCoord place data).dim d = attr.pixel data d (place.dim d) := by
  have hreplicate : dim (List.replicate data.length (place.dim d)) d = place.dim d := by
    simp [dim, List.getD, hd]
  rw [pixel, dim_backInferCoord _ _ _ (hplace.symm ▸ hd),
    dim_backInferCoord _ _ _ (by rwa [List.length_replicate]), hreplicate]

theorem pixel_mono (hmode : attr.Tileable) (hscales : attr.scale = scales.map (↑))
    (hlength : scales.length = data.length) (hd : d < data.length) (hscale : 1 ≤ scales.getD d 0) :
    Monotone (attr.pixel data d) := by
  have hpixel : attr.pixel data d = fun y => clampPixel (data.dim d)
      (attr.rawPixel (scales.getD d 0) ((attr.initialInputShape.getD data).dim d)
        ((attr.initialOutputShape.getD (inferFullOutputShape data attr.scale attr.mode)).dim d)
        y) := by
    funext y
    have hreplicate : dim (List.replicate data.length y) d = y := by
      simp [dim, List.getD, hd]
    rw [pixel, dim_backInferCoord _ _ _ (by rwa [List.length_replicate]), hreplicate,
      getD_scale hscales hlength hd]
  rw [hpixel]
  exact (clampPixel_mono _).comp (rawPixel_mono hmode hscale _ _)

variable (htile : attr.TileOf scales data tileOffset tileShape)
include htile

theorem TileOf.offset_eq_pixel (hd : d < data.length) :
    (attr.extractTile tileOffset tileShape data).2.1.dim d =
      attr.pixel data d (tileOffset.dim d) := by
  exact dim_backInferCoord_eq_pixel htile.rank.2.1 hd

theorem TileOf.length_shape :
    (attr.extractTile tileOffset tileShape data).2.2.length = data.length := by
  obtain ⟨-, hoffset, hshape⟩ := htile.rank
  exact (length_extractTile_shape attr data (hshape.trans hoffset.symm)).trans hoffset

theorem TileOf.pixel_of_inside (hd : d < data.length) (hfirst : tileOffset.dim d ≤ y)
    (hlast : y ≤ tileOffset.dim d + tileShape.dim d - 1) :
    (attr.extractTile tileOffset tileShape data).1.pixel
        (attr.extractTile tileOffset tileShape data).2.2 d
        (y - attr.pixel data d (tileOffset.dim d) * scales.getD d 0) +
      attr.pixel data d (tileOffset.dim d) = attr.pixel data d y := by
  have hdim : ∀ z : ℤ, dim (List.replicate data.length z) d = z := by
    intro z
    simp [dim, List.getD, hd]
  have hlength := htile.length_shape
  have hplaces := @TileOf.dim_backInferCoord attr data tileOffset tileShape scales d htile
    (List.replicate data.length y) (List.replicate data.length
      (y - attr.pixel data d (tileOffset.dim d) * scales.getD d 0)) hd (by simp) (by simp)
    (by rw [hdim]; omega) (by rw [hdim, hdim, htile.offset_eq_pixel hd])
  rw [htile.offset_eq_pixel hd] at hplaces
  rw [pixel, hlength]
  exact hplaces

omit htile in
theorem pixel_inside (attr : SEInterpolateAttr) (hd : d < data.length) (hpos : 0 < data.dim d)
    (y : ℤ) : 0 ≤ attr.pixel data d y ∧ attr.pixel data d y < data.dim d :=
  backInferCoord_inside attr (by rwa [List.length_replicate]) hpos

theorem TileOf.dim_shape (hd : d < data.length) :
    (attr.extractTile tileOffset tileShape data).2.2.dim d =
      attr.pixel data d (tileOffset.dim d + tileShape.dim d - 1) -
        attr.pixel data d (tileOffset.dim d) + 1 := by
  obtain ⟨-, hoffset, hshape⟩ := htile.rank
  have hshape' := hshape.trans hoffset.symm
  have hd' : d < tileOffset.length := hoffset ▸ hd
  rw [dim_extractTile_shape attr data hd' hshape',
    dim_backInferCoord_eq_pixel ((length_tileEnd hshape').trans hoffset) hd,
    dim_backInferCoord_eq_pixel hoffset hd, dim_tileEnd hd' hshape']

theorem TileOf.pixel_mono_tile (hd : d < data.length) :
    Monotone ((attr.extractTile tileOffset tileShape data).1.pixel
      (attr.extractTile tileOffset tileShape data).2.2 d) := by
  have hlength := htile.length_shape
  apply pixel_mono htile.tileable htile.scale
  · rw [htile.rank.1, hlength]
  · rwa [hlength]
  · exact htile.scale_pos d hd

/-- The outputs that are not in the tile read the first or the last pixel of it. -/
theorem TileOf.pixel_tile (hd : d < data.length) (y : ℤ) :
    (attr.extractTile tileOffset tileShape data).1.pixel
        (attr.extractTile tileOffset tileShape data).2.2 d
        (y - attr.pixel data d (tileOffset.dim d) * scales.getD d 0) +
      attr.pixel data d (tileOffset.dim d) =
        attr.pixel data d (nearestOutput tileOffset tileShape d y) := by
  have hpos := htile.tile_pos d hd
  have hmono := htile.pixel_mono_tile hd
  have hfirst := htile.pixel_of_inside hd le_rfl (by omega)
  have hlast := htile.pixel_of_inside hd (by omega) le_rfl
  have hinside := pixel_inside (attr.extractTile tileOffset tileShape data).1
    (htile.length_shape.symm ▸ hd) (htile.inside hd).2.1
    (y - attr.pixel data d (tileOffset.dim d) * scales.getD d 0)
  rw [htile.dim_shape hd] at hinside
  unfold nearestOutput
  rcases Int.lt_or_le y (tileOffset.dim d) with hbefore | hfrom
  · have hle := hmono (show y - attr.pixel data d (tileOffset.dim d) * scales.getD d 0 ≤
      tileOffset.dim d - attr.pixel data d (tileOffset.dim d) * scales.getD d 0 by omega)
    rw [max_eq_left ((min_le_left _ _).trans hbefore.le)]
    omega
  · rcases Int.lt_or_le (tileOffset.dim d + tileShape.dim d - 1) y with hbehind | hto
    · have hle := hmono (show tileOffset.dim d + tileShape.dim d - 1 -
        attr.pixel data d (tileOffset.dim d) * scales.getD d 0 ≤
          y - attr.pixel data d (tileOffset.dim d) * scales.getD d 0 by omega)
      rw [min_eq_right hbehind.le, max_eq_right (by omega)]
      omega
    · rw [min_eq_left hto, max_eq_right hfrom]
      exact htile.pixel_of_inside hd hfrom hto

omit htile in
theorem pixel_of_scale_one (hscales : attr.scale = scales.map (↑))
    (hlength : scales.length = data.length) (hd : d < data.length) (hone : scales.getD d 0 = 1)
    (hnonneg : 0 ≤ y) (hlt : y < data.dim d) : attr.pixel data d y = y := by
  have hreplicate : dim (List.replicate data.length y) d = y := by
    simp [dim, List.getD, hd]
  have hround := (rounding_nearestDim attr.nearestMode (le_refl 1)).intCast hnonneg
  rw [pixel, dim_backInferCoord _ _ _ (by rwa [List.length_replicate]), hreplicate,
    getD_scale hscales hlength hd, hone, Int.cast_one, rawPixel_one, hround]
  unfold clampPixel
  omega

theorem TileOf.dim_sePixel (hrank : data.length = 4) (hone : scales.getD Act.C 0 = 1)
    (hchannels : attr.pixel data Act.C (tileOffset.dim Act.C) = tileOffset.dim Act.C) (c h w : ℤ)
    (hd : d ∈ [Act.C, Act.H, Act.W]) :
    ((attr.extractTile tileOffset tileShape data).1.sePixel
        (attr.extractTile tileOffset tileShape data).2.2 c h w).dim d =
      (attr.extractTile tileOffset tileShape data).1.pixel
        (attr.extractTile tileOffset tileShape data).2.2 d
        (tileOffset.dim d + dim [0, c, h, w] d -
          attr.pixel data d (tileOffset.dim d) * scales.getD d 0) := by
  have hlength := htile.length_shape.trans hrank
  have hrelative : ∀ d' < 4, ((attr.extractTile tileOffset tileShape data).1.offsets.getD
      [0, 0, 0, 0]).getD d' 0 = tileOffset.dim d' -
        attr.pixel data d' (tileOffset.dim d') * scales.getD d' 0 := by
    intro d' hd'
    have hd'' : d' < data.length := hrank.symm ▸ hd'
    obtain ⟨offsets, hoffsets, hdim⟩ := htile.relativeOffsets hd''
    rw [hoffsets, Option.getD_some, hdim, htile.offset_eq_pixel hd'']
  have hd4 : d < 4 := by
    simp only [List.mem_cons, List.not_mem_nil, or_false] at hd
    rcases hd with rfl | rfl | rfl <;> decide
  rw [sePixel, @dim_backInferCoord_eq_pixel _ _ [0, c, _, _] _ hlength.symm (hlength.symm ▸ hd4)]
  congr 1
  simp only [List.mem_cons, List.not_mem_nil, or_false] at hd
  rcases hd with rfl | rfl | rfl
  · show c = tileOffset.dim Act.C + c - _
    rw [hchannels, hone]
    ring
  · show _ + h = tileOffset.dim Act.H + h - _
    rw [hrelative Act.H (by decide)]
    ring
  · show _ + w = tileOffset.dim Act.W + w - _
    rw [hrelative Act.W (by decide)]
    ring

end Pixel

end SEInterpolateAttr

open SEInterpolateAttr

/-- The first output of `A` is the first output of its pixel, or one pixel is read by all outputs of
`B` and by those of `A` that the offset leads to instead. -/
def OffsetIdle (attr : SEInterpolateAttr) (scale : ℤ) (data offsetA shapeA offsetB shapeB : Shape)
    (d : ℕ) : Prop :=
  let relative := attr.relativeOffset scale data offsetA d
  let first := offsetA.dim d + offsetB.dim d
  let last := first + shapeB.dim d - 1
  relative = 0 ∨
    attr.pixel data d (nearestOutput offsetA shapeA d (first - max 0 relative)) =
      attr.pixel data d (nearestOutput offsetA shapeA d (last - min 0 relative))

instance (attr : SEInterpolateAttr) (scale : ℤ) (data offsetA shapeA offsetB shapeB : Shape)
    (d : ℕ) : Decidable (OffsetIdle attr scale data offsetA shapeA offsetB shapeB d) :=
  inferInstanceAs (Decidable (_ ∨ _))

section Dim

variable {attr : SEInterpolateAttr} {data offsetA shapeA offsetB shapeB offset : Shape}
  {scales : List ℤ} {d : ℕ}
  (tileA : attr.TileOf scales data offsetA shapeA)
  (tileB : (attr.extractTile offsetA shapeA data).1.TileOf scales
    (attr.extractTile offsetA shapeA data).2.2 offsetB shapeB)
  (tile : attr.TileOf scales data offset shapeB)
include tileA tileB tile

/-- Tile `B` reads what tile `A` reads without its relative offset. -/
theorem nestedPixel_iff {x : ℤ} (hd : d < data.length)
    (hsum : offset.dim d = offsetA.dim d + offsetB.dim d) (hx : 0 ≤ x ∧ x < shapeB.dim d)
    (hinside : 0 ≤ offsetB.dim d ∧ offsetB.dim d + shapeB.dim d ≤ shapeA.dim d) :
    ((((attr.extractTile offsetA shapeA data).1.extractTile offsetB shapeB
        (attr.extractTile offsetA shapeA data).2.2).1.pixel
      ((attr.extractTile offsetA shapeA data).1.extractTile offsetB shapeB
        (attr.extractTile offsetA shapeA data).2.2).2.2 d
      (offsetB.dim d + x - (attr.extractTile offsetA shapeA data).1.pixel
        (attr.extractTile offsetA shapeA data).2.2 d (offsetB.dim d) * scales.getD d 0)) +
      (attr.extractTile offsetA shapeA data).1.pixel (attr.extractTile offsetA shapeA data).2.2 d
        (offsetB.dim d) + attr.pixel data d (offsetA.dim d) =
      (attr.extractTile offset shapeB data).1.pixel (attr.extractTile offset shapeB data).2.2 d
        (offset.dim d + x - attr.pixel data d (offset.dim d) * scales.getD d 0) +
        attr.pixel data d (offset.dim d)) ↔
    (attr.extractTile offsetA shapeA data).1.pixel (attr.extractTile offsetA shapeA data).2.2 d
        (offsetB.dim d + x) =
      (attr.extractTile offsetA shapeA data).1.pixel (attr.extractTile offsetA shapeA data).2.2 d
        (attr.relativeOffset (scales.getD d 0) data offsetA d + (offsetB.dim d + x)) := by
  have hA := tileA.pixel_of_inside (y := offset.dim d + x) hd (by omega) (by omega)
  have hB := tileB.pixel_of_inside (y := offsetB.dim d + x) (tileA.length_shape.symm ▸ hd)
    (by omega) (by omega)
  have hWhole := tile.pixel_of_inside (y := offset.dim d + x) hd (by omega) (by omega)
  have hplace : offset.dim d + x - attr.pixel data d (offsetA.dim d) * scales.getD d 0 =
      attr.relativeOffset (scales.getD d 0) data offsetA d + (offsetB.dim d + x) := by
    rw [relativeOffset, hsum]
    ring
  rw [hB, hWhole, ← hA, hplace]
  exact add_left_inj _

omit tileB tile in
theorem shiftedPixel_iff (hd : d < data.length) (hpos : 0 < shapeB.dim d) :
    (∀ x, 0 ≤ x → x < shapeB.dim d →
      (attr.extractTile offsetA shapeA data).1.pixel (attr.extractTile offsetA shapeA data).2.2 d
        (offsetB.dim d + x) =
      (attr.extractTile offsetA shapeA data).1.pixel (attr.extractTile offsetA shapeA data).2.2 d
        (attr.relativeOffset (scales.getD d 0) data offsetA d + (offsetB.dim d + x))) ↔
    OffsetIdle attr (scales.getD d 0) data offsetA shapeA offsetB shapeB d := by
  rw [shift_iff (tileA.pixel_mono_tile hd) hpos, OffsetIdle]
  apply or_congr_right
  have hfirst := tileA.pixel_tile hd (offsetA.dim d + offsetB.dim d -
    max 0 (attr.relativeOffset (scales.getD d 0) data offsetA d))
  have hlast := tileA.pixel_tile hd (offsetA.dim d + offsetB.dim d + shapeB.dim d - 1 -
    min 0 (attr.relativeOffset (scales.getD d 0) data offsetA d))
  rw [← hfirst, ← hlast]
  have hrelative : offsetA.dim d - attr.pixel data d (offsetA.dim d) * scales.getD d 0 =
    attr.relativeOffset (scales.getD d 0) data offsetA d := rfl
  generalize attr.relativeOffset (scales.getD d 0) data offsetA d = relative at *
  have hfrom : offsetA.dim d + offsetB.dim d - max 0 relative -
      attr.pixel data d (offsetA.dim d) * scales.getD d 0 = offsetB.dim d + min 0 relative := by
    omega
  have hto : offsetA.dim d + offsetB.dim d + shapeB.dim d - 1 - min 0 relative -
      attr.pixel data d (offsetA.dim d) * scales.getD d 0 =
        offsetB.dim d + shapeB.dim d - 1 + max 0 relative := by
    omega
  rw [hfrom, hto, add_left_inj]

end Dim

/-- Every pixel that tile `B` of tile `A` reads is, in the original data, the pixel that the tile
at the sum of their offsets reads. -/
def Composes (attr : SEInterpolateAttr) (data offsetA shapeA offsetB shapeB : Shape) : Prop :=
  let tileA := attr.extractTile offsetA shapeA data
  let tileB := tileA.1.extractTile offsetB shapeB tileA.2.2
  let tile := attr.extractTile (List.zipWith (· + ·) offsetA offsetB) shapeB data
  ∀ c h w : ℤ, 0 ≤ c ∧ c < shapeB.dim Act.C → 0 ≤ h ∧ h < shapeB.dim Act.H →
    0 ≤ w ∧ w < shapeB.dim Act.W → ∀ d ∈ [Act.C, Act.H, Act.W],
      (tileB.1.sePixel tileB.2.2 c h w).dim d + tileB.2.1.dim d + tileA.2.1.dim d =
        (tile.1.sePixel tile.2.2 c h w).dim d + tile.2.1.dim d

/-- An interpolation over rows and columns without offsets and sizes, an output tile `A` of it,
and an output tile `B` of `A`. -/
structure NestedTile (attr : SEInterpolateAttr) (scaleH scaleW : ℤ)
    (data offsetA shapeA offsetB shapeB : Shape) : Prop where
  tileable : attr.Tileable
  untiled : attr.offsets = none ∧ attr.sizes = none
  scale : attr.scale = [1, 1, (scaleH : ℚ), (scaleW : ℚ)]
  scale_pos : 1 ≤ scaleH ∧ 1 ≤ scaleW
  rank : data.length = 4 ∧ offsetA.length = 4 ∧ shapeA.length = 4 ∧ offsetB.length = 4 ∧
    shapeB.length = 4
  data_pos : ∀ d < 4, 0 < data.dim d
  insideA : ∀ d < 4, 0 ≤ offsetA.dim d ∧ 0 < shapeA.dim d ∧
    offsetA.dim d + shapeA.dim d ≤ (attr.inferOutputShape data).dim d
  insideB : ∀ d < 4, 0 ≤ offsetB.dim d ∧ 0 < shapeB.dim d ∧
    offsetB.dim d + shapeB.dim d ≤ shapeA.dim d

section Nested

variable {attr : SEInterpolateAttr} {scaleH scaleW : ℤ}
  {data offsetA shapeA offsetB shapeB : Shape}
  (h : NestedTile attr scaleH scaleW data offsetA shapeA offsetB shapeB)
include h

theorem NestedTile.tileA : attr.TileOf [1, 1, scaleH, scaleW] data offsetA shapeA where
  tileable := h.tileable
  scale := by simp [h.scale]
  rank := by
    obtain ⟨hdata, hoffset, hshape, -⟩ := h.rank
    rw [hdata, hoffset, hshape]
    exact ⟨rfl, rfl, rfl⟩
  scale_pos := by
    intro d hd
    rw [h.rank.1] at hd
    obtain ⟨hH, hW⟩ := h.scale_pos
    match d, hd with
    | 0, _ => exact le_rfl
    | 1, _ => exact le_rfl
    | 2, _ => exact hH
    | 3, _ => exact hW
  data_pos := fun d hd => h.data_pos d (h.rank.1 ▸ hd)
  tile_pos := fun d hd => (h.insideA d (h.rank.1 ▸ hd)).2.1

theorem NestedTile.tileB : (attr.extractTile offsetA shapeA data).1.TileOf [1, 1, scaleH, scaleW]
    (attr.extractTile offsetA shapeA data).2.2 offsetB shapeB where
  tileable := h.tileable
  scale := h.tileA.scale
  rank := by
    obtain ⟨hdata, -, -, hoffset, hshape⟩ := h.rank
    rw [h.tileA.length_shape, hdata, hoffset, hshape]
    exact ⟨rfl, rfl, rfl⟩
  scale_pos := fun d hd => h.tileA.scale_pos d (h.tileA.length_shape ▸ hd)
  data_pos := fun d hd => (h.tileA.inside (h.tileA.length_shape ▸ hd)).2.1
  tile_pos := fun d hd =>
    (h.insideB d (h.rank.1 ▸ h.tileA.length_shape ▸ hd)).2.1

theorem NestedTile.tile :
    attr.TileOf [1, 1, scaleH, scaleW] data (List.zipWith (· + ·) offsetA offsetB) shapeB where
  tileable := h.tileable
  scale := h.tileA.scale
  rank := by
    obtain ⟨hdata, hoffsetA, -, hoffsetB, hshape⟩ := h.rank
    rw [List.length_zipWith, hdata, hoffsetA, hoffsetB, hshape]
    exact ⟨rfl, rfl, rfl⟩
  scale_pos := h.tileA.scale_pos
  data_pos := h.tileA.data_pos
  tile_pos := fun d hd => (h.insideB d (h.rank.1 ▸ hd)).2.1

theorem NestedTile.dim_sum {d : ℕ} (hd : d < 4) :
    dim (List.zipWith (· + ·) offsetA offsetB) d = offsetA.dim d + offsetB.dim d := by
  obtain ⟨-, hoffsetA, -, hoffsetB, -⟩ := h.rank
  have hdB : d < offsetB.length := hoffsetB.symm ▸ hd
  rw [dim_zipWith (hoffsetA.symm ▸ hd) hdB, dim, dim, List.getD_eq_getElem _ _ hdB]

theorem NestedTile.channels :
    (∀ y, 0 ≤ y → y < data.dim Act.C → attr.pixel data Act.C y = y) ∧
      offsetA.dim Act.C + shapeA.dim Act.C ≤ data.dim Act.C := by
  have hC : Act.C < data.length := by
    rw [h.rank.1]
    decide
  have hone : [1, 1, scaleH, scaleW].getD Act.C 0 = 1 := rfl
  constructor
  · intro y hnonneg hlt
    exact pixel_of_scale_one h.tileA.scale h.tileA.rank.1 hC hone hnonneg hlt
  · obtain ⟨-, -, hle⟩ := h.insideA Act.C (by decide)
    have hfull := dim_inferFullOutputShape h.tileA.scale h.tileA.rank.1 hC
    rw [inferOutputShape, h.untiled.2, Option.getD_none, hfull, fullOutput, hone] at hle
    split at hle <;> omega

theorem NestedTile.channelsB : (attr.extractTile offsetA shapeA data).1.pixel
    (attr.extractTile offsetA shapeA data).2.2 Act.C (offsetB.dim Act.C) = offsetB.dim Act.C := by
  obtain ⟨hpixel, hle⟩ := h.channels
  obtain ⟨hA, hposA, -⟩ := h.insideA Act.C (by decide)
  obtain ⟨hB, hposB, hleB⟩ := h.insideB Act.C (by decide)
  have hC : Act.C < data.length := by
    rw [h.rank.1]
    decide
  apply pixel_of_scale_one h.tileB.scale h.tileB.rank.1 (h.tileA.length_shape.symm ▸ hC) rfl hB
  rw [h.tileA.dim_shape hC, hpixel _ (by omega) (by omega), hpixel _ hA (by omega)]
  omega

theorem NestedTile.offsetIdle_channels :
    OffsetIdle attr ([1, 1, scaleH, scaleW].getD Act.C 0) data offsetA shapeA offsetB shapeB
      Act.C := by
  obtain ⟨hpixel, hle⟩ := h.channels
  obtain ⟨hA, hposA, -⟩ := h.insideA Act.C (by decide)
  apply Or.inl
  show offsetA.dim Act.C - attr.pixel data Act.C (offsetA.dim Act.C) * 1 = 0
  rw [hpixel _ hA (by omega)]
  ring

theorem NestedTile.composes_iff_pixels :
    Composes attr data offsetA shapeA offsetB shapeB ↔
      ∀ c h w : ℤ, 0 ≤ c ∧ c < shapeB.dim Act.C → 0 ≤ h ∧ h < shapeB.dim Act.H →
        0 ≤ w ∧ w < shapeB.dim Act.W → ∀ d ∈ [Act.C, Act.H, Act.W],
        (attr.extractTile offsetA shapeA data).1.pixel (attr.extractTile offsetA shapeA data).2.2 d
          (offsetB.dim d + dim [0, c, h, w] d) =
        (attr.extractTile offsetA shapeA data).1.pixel (attr.extractTile offsetA shapeA data).2.2 d
          (attr.relativeOffset ([1, 1, scaleH, scaleW].getD d 0) data offsetA d +
            (offsetB.dim d + dim [0, c, h, w] d)) := by
  obtain ⟨hpixel, hle⟩ := h.channels
  obtain ⟨hA, hposA, -⟩ := h.insideA Act.C (by decide)
  obtain ⟨hB, hposB, hleB⟩ := h.insideB Act.C (by decide)
  have hsumC := h.dim_sum (show Act.C < 4 by decide)
  apply forall_congr'
  intro c
  apply forall_congr'
  intro row
  apply forall_congr'
  intro w
  apply imp_congr_right
  intro hc
  apply imp_congr_right
  intro hrow
  apply imp_congr_right
  intro hw
  apply forall_congr'
  intro d
  apply imp_congr_right
  intro hd
  have hd4 : d < 4 ∧ 0 ≤ dim [0, c, row, w] d ∧
      dim [0, c, row, w] d < shapeB.dim d := by
    simp only [List.mem_cons, List.not_mem_nil, or_false] at hd
    rcases hd with rfl | rfl | rfl
    · exact ⟨by decide, hc⟩
    · exact ⟨by decide, hrow⟩
    · exact ⟨by decide, hw⟩
  have hdata : d < data.length := h.rank.1.symm ▸ hd4.1
  have hdataA : d < (attr.extractTile offsetA shapeA data).2.2.length :=
    h.tileA.length_shape.symm ▸ hdata
  rw [h.tileB.dim_sePixel (h.tileA.length_shape.trans h.rank.1) rfl h.channelsB _ _ _ hd,
    h.tile.dim_sePixel h.rank.1 rfl (by rw [hsumC]; exact hpixel _ (by omega) (by omega)) _ _ _ hd,
    h.tileB.offset_eq_pixel hdataA, h.tileA.offset_eq_pixel hdata, h.tile.offset_eq_pixel hdata]
  exact nestedPixel_iff h.tileA h.tileB h.tile hdata (h.dim_sum hd4.1) hd4.2
    ⟨(h.insideB d hd4.1).1, (h.insideB d hd4.1).2.2⟩

/-- A tile of a tile reads the right pixels exactly when the offset that the first tile leaves to
its rows and columns makes no difference. -/
theorem NestedTile.composes_iff :
    Composes attr data offsetA shapeA offsetB shapeB ↔
      ∀ d ∈ [Act.H, Act.W], OffsetIdle attr ([1, 1, scaleH, scaleW].getD d 0) data
        offsetA shapeA offsetB shapeB d := by
  obtain ⟨-, hposC, -⟩ := h.insideB Act.C (by decide)
  obtain ⟨-, hposH, -⟩ := h.insideB Act.H (by decide)
  obtain ⟨-, hposW, -⟩ := h.insideB Act.W (by decide)
  have hrank : ∀ d < 4, d < data.length := fun d hd => h.rank.1.symm ▸ hd
  have hchannels := (shiftedPixel_iff h.tileA (hrank Act.C (by decide)) hposC).mpr
    h.offsetIdle_channels
  have hrows := @shiftedPixel_iff attr data offsetA shapeA offsetB shapeB _ _ h.tileA
      (hrank Act.H (by decide)) hposH
  have hcolumns := @shiftedPixel_iff attr data offsetA shapeA offsetB shapeB _ _ h.tileA
      (hrank Act.W (by decide)) hposW
  rw [h.composes_iff_pixels]
  constructor
  · intro hall d hd
    simp only [List.mem_cons, List.not_mem_nil, or_false] at hd
    rcases hd with rfl | rfl
    · apply hrows.mp
      intro x hx hxn
      exact hall 0 x 0 ⟨le_rfl, hposC⟩ ⟨hx, hxn⟩ ⟨le_rfl, hposW⟩ Act.H (by decide)
    · apply hcolumns.mp
      intro x hx hxn
      exact hall 0 0 x ⟨le_rfl, hposC⟩ ⟨le_rfl, hposH⟩ ⟨hx, hxn⟩ Act.W (by decide)
  · intro hidle c row w hc hrow hw d hd
    simp only [List.mem_cons, List.not_mem_nil, or_false] at hd
    rcases hd with rfl | rfl | rfl
    · exact hchannels c hc.1 hc.2
    · exact hrows.mpr (hidle Act.H (by decide)) row hrow.1 hrow.2
    · exact hcolumns.mpr (hidle Act.W (by decide)) w hw.1 hw.2

end Nested

theorem nestedTile_oddRow :
    NestedTile (twiceNearest .FLOOR .ASYMMETRIC) 2 2 [1, 16, 3, 3] [0, 0, 1, 0] [1, 16, 5, 6]
      [0, 0, 1, 0] [1, 16, 1, 6] where
  tileable := .inl ⟨rfl, by decide⟩
  untiled := ⟨rfl, rfl⟩
  scale := by decide +kernel
  scale_pos := by decide
  rank := ⟨rfl, rfl, rfl, rfl, rfl⟩
  data_pos := by decide
  insideA := by decide +kernel
  insideB := by decide

theorem nestedTile_evenRow :
    NestedTile (twiceNearest .FLOOR .ASYMMETRIC) 2 2 [1, 16, 3, 3] [0, 0, 2, 0] [1, 16, 4, 6]
      [0, 0, 1, 2] [1, 16, 2, 3] where
  tileable := .inl ⟨rfl, by decide⟩
  untiled := ⟨rfl, rfl⟩
  scale := by decide +kernel
  scale_pos := by decide
  rank := ⟨rfl, rfl, rfl, rfl, rfl⟩
  data_pos := by decide
  insideA := by decide +kernel
  insideB := by decide

theorem composes_evenRow :
    Composes (twiceNearest .FLOOR .ASYMMETRIC) [1, 16, 3, 3] [0, 0, 2, 0] [1, 16, 4, 6]
      [0, 0, 1, 2] [1, 16, 2, 3] :=
  (NestedTile.composes_iff nestedTile_evenRow).mpr (by decide +kernel)

/-- The row at output 2 is the second pixel, and tile `B` reads the first one. -/
theorem not_composes_oddRow :
    NestedTile (twiceNearest .FLOOR .ASYMMETRIC) 2 2 [1, 16, 3, 3] [0, 0, 1, 0] [1, 16, 5, 6]
      [0, 0, 1, 0] [1, 16, 1, 6] ∧
    ¬ Composes (twiceNearest .FLOOR .ASYMMETRIC) [1, 16, 3, 3] [0, 0, 1, 0] [1, 16, 5, 6]
      [0, 0, 1, 0] [1, 16, 1, 6] := by
  apply And.intro nestedTile_oddRow
  intro hcomposes
  have hrow := hcomposes 0 0 0 (by decide) (by decide) (by decide) Act.H (by decide)
  revert hrow
  decide +kernel

end Vpux.VPU
