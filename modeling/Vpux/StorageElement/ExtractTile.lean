import Mathlib.Tactic.FieldSimp
import Vpux.Data.Folds
import Vpux.Data.Resampling
import Vpux.Tiling.BackInfer

/-! The storage-element table of an interpolation (`dialect/VPU/attributes.cpp`). A `double` is an
exact rational number. What throws is `none`. -/
namespace Vpux.VPU
open Data Tiling Dims4D

inductive NCEInterpolateMode
  | NEAREST | BILINEAR
  deriving DecidableEq, Repr

inductive InterpolateCoordMode
  | HALF_PIXEL | PYTORCH_HALF_PIXEL | ASYMMETRIC | TF_HALF_PIXEL_FOR_NN | ALIGN_CORNERS
  deriving DecidableEq, Repr

inductive InterpolateNearestMode
  | ROUND_PREFER_FLOOR | ROUND_PREFER_CEIL | FLOOR | CEIL | SIMPLE
  deriving DecidableEq, Repr

/-- The last two fields are what the attribute's `verify` checks. -/
structure SEInterpolateAttr where
  mode : NCEInterpolateMode
  coordinateTransformationMode : InterpolateCoordMode
  scale : List ℚ
  nearestMode : Option InterpolateNearestMode
  offsets : Option (List ℤ)
  sizes : Option (List ℤ)
  initialInputShape : Option Shape
  initialOutputShape : Option Shape
  nearest_isSome : mode = .NEAREST → nearestMode.isSome
  scale_integer : ∀ value ∈ scale, ⌊value⌋ = value

/-- The difference between one and the next `double`. -/
def epsilon : ℚ := 1 / 2 ^ 52

def isDoubleEqual (a b : ℚ) : Prop := |a - b| ≤ epsilon

instance (a b : ℚ) : Decidable (isDoubleEqual a b) := inferInstanceAs (Decidable (_ ≤ _))

def inferFullOutputShape (inputShape : Shape) (scales : List ℚ) (mode : NCEInterpolateMode) :
    Shape :=
  List.zipWith (fun (dim : ℤ) (scale : ℚ) => match mode with
    | .NEAREST => ⌊dim * scale⌋
    | .BILINEAR => ⌊dim * scale + (scale - 1)⌋) inputShape scales

/-- How the nearest pixel is taken. The default is for bilinear. -/
def nearestDim (nearestMode : Option InterpolateNearestMode) (dim scale : ℚ) : ℤ :=
  match nearestMode with
  | none => ⌊dim⌋
  | some .ROUND_PREFER_FLOOR =>
    if isDoubleEqual dim (⌊dim⌋ + 1 / 2) then ⌊dim⌋ else roundHalfAway dim
  | some .ROUND_PREFER_CEIL => roundHalfAway dim
  | some .FLOOR => ⌊dim⌋
  | some .CEIL => ⌈dim⌉
  | some .SIMPLE => if scale < 1 then ⌈dim⌉ else truncate dim

namespace SEInterpolateAttr

variable (attr : SEInterpolateAttr)

/-- The output shape of a tile is its sizes. -/
def inferOutputShape (inputShape : Shape) : Shape :=
  attr.sizes.getD (inferFullOutputShape inputShape attr.scale attr.mode)

def coordTransform (coord : ℤ) (scale : ℚ) (inputSize outputSize : ℤ) : ℚ :=
  match attr.mode with
  | .NEAREST => match attr.coordinateTransformationMode with
    | .HALF_PIXEL => (coord + 1 / 2) / scale - 1 / 2
    | .PYTORCH_HALF_PIXEL => if outputSize > 1 then (coord + 1 / 2) / scale - 1 / 2 else 0
    | .ASYMMETRIC => coord / scale
    | .TF_HALF_PIXEL_FOR_NN => (coord + 1 / 2) / scale
    | .ALIGN_CORNERS =>
      if outputSize = 1 then 0 else coord * (inputSize - 1) / (outputSize - 1)
  | .BILINEAR =>
    -- the last column and row are replicated
    if coord > outputSize - scale then (outputSize - scale) / scale else coord / scale

/-- The pixel that an output reads in each dimension. -/
def backInferCoord (outputTileOffset inputShape : Shape) : Shape :=
  let outputShape := inferFullOutputShape inputShape attr.scale attr.mode
  let initialInputShape := attr.initialInputShape.getD inputShape
  let initialOutputShape := attr.initialOutputShape.getD outputShape
  (List.range outputTileOffset.length).map fun dim =>
    let scale := attr.scale.getD dim 0
    let inCoord : ℚ :=
      if isDoubleEqual scale 1 then outputTileOffset.dim dim
      else attr.coordTransform (outputTileOffset.dim dim) scale (initialInputShape.dim dim)
        (initialOutputShape.dim dim)
    let nearestPixel := nearestDim attr.nearestMode inCoord scale
    max 0 (min nearestPixel (inputShape.dim dim - 1))

/-- The first output of the pixels from the given one on. -/
def inferTileStartOffset (inputTileStartOffset inputShape : Shape) : Shape :=
  let outputMaxShape := inferFullOutputShape inputShape attr.scale attr.mode
  (List.range inputTileStartOffset.length).map fun dim =>
    let outCoord : ℚ := inputTileStartOffset.dim dim * attr.scale.getD dim 0
    max 0 (min (roundHalfAway outCoord) (outputMaxShape.dim dim - 1))

def extractTile (outputTileOffset outputTileShape inputShape : Shape) :
    SEInterpolateAttr × Shape × Shape :=
  let inputTileOffsets := attr.backInferCoord outputTileOffset inputShape
  let outputTileEnd :=
    List.zipWith (fun offset size => offset + size - 1) outputTileOffset outputTileShape
  let inputTileEnd := attr.backInferCoord outputTileEnd inputShape
  let inputTileShape :=
    List.zipWith (fun start stop => stop - start + 1) inputTileOffsets inputTileEnd
  let newOutputTileStart := attr.inferTileStartOffset inputTileOffsets inputShape
  let relativeOffsets := List.zipWith (· - ·) outputTileOffset newOutputTileStart
  ({ attr with offsets := some relativeOffsets, sizes := some outputTileShape },
    inputTileOffsets, inputTileShape)

end SEInterpolateAttr

/-- The address of a pixel's storage element, with the channels innermost. -/
def getInputAddress (dataShape : Shape) (elemSize : ℤ) (inputTileOffset : Shape) : ℤ :=
  let pixelOffset := (inputTileOffset.dim Act.H * dataShape.dim Act.W + inputTileOffset.dim Act.W) *
    dataShape.dim Act.C
  let channelOffset := inputTileOffset.dim Act.C
  (pixelOffset + channelOffset) * elemSize

namespace SEInterpolateAttr

variable (attr : SEInterpolateAttr)

/-- The entries are `int32_t`, in the order of rows, columns and storage elements. -/
def computeSEOffsets (dataShape : Shape) (elemSize seSize : ℤ) : Option (List ℤ) := do
  guard (dataShape.length = 4)
  guard (0 < elemSize)
  guard (0 < seSize ∧ seSize.tmod 16 = 0)
  let outputShape := attr.inferOutputShape dataShape
  let outputOffsets := attr.offsets.getD [0, 0, 0, 0]
  let seDepth := (outputShape.dim Act.C).tdiv seSize
  return (List.range (outputShape.dim Act.H).toNat).flatMap fun (h : ℕ) =>
    (List.range (outputShape.dim Act.W).toNat).flatMap fun (w : ℕ) =>
      (List.range seDepth.toNat).map fun (se : ℕ) =>
        let outputTileOffset : Shape := [0, se * seSize, outputOffsets.getD Act.H 0 + h,
          outputOffsets.getD Act.W 0 + w]
        let inputTileOffset := attr.backInferCoord outputTileOffset dataShape
        (getInputAddress dataShape elemSize inputTileOffset).bmod (2 ^ 32)

/-- The pixel whose address `computeSEOffsets` puts at a place of the output. -/
def sePixel (dataShape : Shape) (c h w : ℤ) : Shape :=
  attr.backInferCoord [0, c, (attr.offsets.getD [0, 0, 0, 0]).getD Act.H 0 + h,
    (attr.offsets.getD [0, 0, 0, 0]).getD Act.W 0 + w] dataShape

end SEInterpolateAttr

-- A tile of an interpolation reads the pixels that the whole interpolation reads.

theorem rounding_nearestDim (nearestMode : Option InterpolateNearestMode) {scale : ℚ}
    (hscale : 1 ≤ scale) : Rounding fun dim => nearestDim nearestMode dim scale := by
  cases nearestMode with
  | none => exact Rounding.floor
  | some mode =>
    cases mode with
    | ROUND_PREFER_FLOOR =>
      have hnonneg : 0 ≤ epsilon := by norm_num [epsilon]
      exact Rounding.preferFloor hnonneg
    | ROUND_PREFER_CEIL => exact Rounding.roundHalfAway
    | FLOOR => exact Rounding.floor
    | CEIL => exact Rounding.ceil
    | SIMPLE =>
      have hsimple : (fun dim => nearestDim (some .SIMPLE) dim scale) = truncate := by
        funext dim
        exact if_neg (not_lt.mpr hscale)
      rw [hsimple]
      exact Rounding.truncate

theorem isDoubleEqual_one_iff {scale : ℤ} : isDoubleEqual scale 1 ↔ scale = 1 := by
  constructor
  · intro h
    have hlt : |((scale - 1 : ℤ) : ℚ)| < 1 := by
      push_cast
      exact lt_of_le_of_lt h (by norm_num [epsilon])
    have habs : |scale - 1| < 1 := by exact_mod_cast hlt
    have := Int.abs_lt_one_iff.mp habs
    omega
  · rintro rfl
    norm_num [isDoubleEqual, epsilon]

section Dim

variable {size : ℤ} {scale : ℤ}

theorem clampPixel_of_shift {g : ℚ → ℤ} (hg : Rounding g) {c : ℤ → ℚ} (hc : Monotone c)
    (hsize : 0 < size) {first last x : ℤ} (hfirst : first ≤ x) (hlast : x ≤ last) {coord : ℚ}
    (hshift : coord = c x - clampPixel size (g (c first))) :
    clampPixel (clampPixel size (g (c last)) - clampPixel size (g (c first)) + 1) (g coord) +
      clampPixel size (g (c first)) = clampPixel size (g (c x)) := by
  have hagree := hg.shifted (c x) (clampPixel_nonneg size (g (c first)))
  have hpart := clampPixel_part hsize (fun y y' h => hg.mono (hc h)) hfirst hlast
    (hagree.imp_right Or.inl)
  rwa [add_sub_cancel_right, ← hshift] at hpart

variable (hscale : 0 < scale)
include hscale

theorem floor_div (x : ℤ) : ⌊(x : ℚ) / scale⌋ = x / scale := by
  have hpos : (0 : ℚ) < scale := by exact_mod_cast hscale
  rw [Int.floor_eq_iff, le_div_iff₀ hpos, div_lt_iff₀ hpos]
  have hle := Int.ediv_mul_le x hscale.ne'
  have hlt := Int.lt_ediv_add_one_mul_self x hscale
  exact ⟨by exact_mod_cast hle, by exact_mod_cast hlt⟩

theorem clampPixel_min_div (hsize : 0 < size) (x : ℤ) :
    clampPixel size (min x (size * scale - 1) / scale) = clampPixel size (x / scale) := by
  rcases le_or_gt x (size * scale - 1) with hle | hgt
  · rw [min_eq_left hle]
  · have hlast : (size * scale - 1) / scale = size - 1 := by
      rw [Int.ediv_eq_iff_of_pos hscale]
      constructor <;> nlinarith
    have hbeyond : size ≤ x / scale := (Int.le_ediv_iff_mul_le hscale).mpr (by omega)
    rw [min_eq_right hgt.le, hlast]
    unfold clampPixel
    omega

theorem floor_bilinear (x outputs : ℤ) :
    ⌊if (x : ℚ) > outputs - scale then ((outputs : ℚ) - scale) / scale else (x : ℚ) / scale⌋ =
      min x (outputs - scale) / scale := by
  have hcast : ((outputs : ℚ) - scale) = ((outputs - scale : ℤ) : ℚ) := by push_cast; rfl
  rw [hcast]
  split_ifs with hgt
  · have hgt' : outputs - scale < x := by exact_mod_cast hgt
    rw [floor_div hscale, min_eq_right hgt'.le]
  · have hle : x ≤ outputs - scale := by
      have := not_lt.mp hgt
      exact_mod_cast this
    rw [floor_div hscale, min_eq_left hle]

/-- With the bound of the whole image kept, a part still reads the same pixels. -/
theorem clampPixel_of_bound (hsize : 0 < size) {first last x : ℤ} (hfirst : first ≤ x)
    (hlast : x ≤ last) (bound : ℤ) :
    clampPixel (clampPixel size (min last bound / scale) -
        clampPixel size (min first bound / scale) + 1)
        (min (x - clampPixel size (min first bound / scale) * scale) bound / scale) +
      clampPixel size (min first bound / scale) = clampPixel size (min x bound / scale) := by
  have hmono : Monotone fun x => min x bound / scale := fun y y' h =>
    Int.ediv_le_ediv hscale (min_le_min_right bound h)
  have hnonneg := clampPixel_nonneg size (min first bound / scale)
  generalize hstart : clampPixel size (min first bound / scale) = start at *
  have hshift : min (x - start * scale) bound / scale + start =
      min x (bound + start * scale) / scale := by
    rw [← Int.add_mul_ediv_right _ _ hscale.ne', ← min_add_add_right, sub_add_cancel]
  have hbound : bound ≤ bound + start * scale := by
    have := mul_nonneg hnonneg hscale.le
    omega
  have hagree : min (x - start * scale) bound / scale + start = min x bound / scale ∨
      min x bound / scale ≤ min (x - start * scale) bound / scale + start ∧
        min x bound / scale = min last bound / scale := by
    rw [hshift]
    rcases le_or_gt x bound with hle | hgt
    · rw [min_eq_left hle, min_eq_left (hle.trans hbound)]
      exact .inl rfl
    · rw [min_eq_right hgt.le, min_eq_right (hgt.le.trans hlast)]
      exact .inr ⟨Int.ediv_le_ediv hscale (le_min hgt.le hbound), rfl⟩
  have hpart := clampPixel_part hsize hmono hfirst hlast
    (hagree.imp_right Or.inr)
  rwa [hstart, add_sub_cancel_right] at hpart

end Dim

namespace SEInterpolateAttr

variable {attr : SEInterpolateAttr} {scale : ℤ}

/-- The pixel of an output in one dimension, before it is clamped to the image. -/
def rawPixel (attr : SEInterpolateAttr) (scale : ℚ) (inputSize outputSize coord : ℤ) : ℤ :=
  nearestDim attr.nearestMode
    (if isDoubleEqual scale 1 then coord else attr.coordTransform coord scale inputSize outputSize)
    scale

def fullOutput (attr : SEInterpolateAttr) (scale size : ℤ) : ℤ :=
  match attr.mode with
  | .NEAREST => size * scale
  | .BILINEAR => size * scale + (scale - 1)

/-- The modes that tiles support. -/
def Tileable (attr : SEInterpolateAttr) : Prop :=
  (attr.mode = .NEAREST ∧ attr.coordinateTransformationMode ≠ .ALIGN_CORNERS) ∨
    (attr.mode = .BILINEAR ∧ attr.nearestMode = none)

/-- The transformations of the nearest mode are all zero, or they grow by one with each `scale`
outputs. -/
theorem coordTransform_nearest (hmode : attr.mode = .NEAREST)
    (hcoord : attr.coordinateTransformationMode ≠ .ALIGN_CORNERS) (hscale : 0 < scale)
    (inputSize inputSize' : ℤ) {outputSize outputSize' : ℤ}
      (houtput : 1 < outputSize ↔ 1 < outputSize') :
    (∀ x, attr.coordTransform x scale inputSize outputSize = 0 ∧
      attr.coordTransform x scale inputSize' outputSize' = 0) ∨
    (Monotone fun x => attr.coordTransform x scale inputSize outputSize) ∧
      ∀ x start : ℤ, attr.coordTransform (x - start * scale) scale inputSize' outputSize' =
        attr.coordTransform x scale inputSize outputSize - start := by
  have hmono : ∀ shift back : ℚ, Monotone fun x : ℤ => ((x : ℚ) + shift) / scale - back := by
    intro shift back x y hxy
    dsimp only
    gcongr
  have hshift : ∀ (shift back : ℚ) (x start : ℤ),
      (((x - start * scale : ℤ) : ℚ) + shift) / scale - back =
        ((x : ℚ) + shift) / scale - back - start := by
    intro shift back x start
    push_cast
    field_simp
    ring
  unfold coordTransform
  simp only [hmode]
  cases hc : attr.coordinateTransformationMode with
  | HALF_PIXEL => exact .inr ⟨hmono _ _, hshift _ _⟩
  | PYTORCH_HALF_PIXEL =>
    by_cases hmany : 1 < outputSize
    · simp only [gt_iff_lt, hmany, houtput.mp hmany, if_true]
      exact .inr ⟨hmono _ _, hshift _ _⟩
    · simp only [gt_iff_lt, hmany, (not_congr houtput).mp hmany, if_false]
      exact .inl fun _ => ⟨trivial, trivial⟩
  | ASYMMETRIC =>
    have hmono' := hmono 0 0
    have hshift' := hshift 0 0
    simp only [add_zero, sub_zero] at hmono' hshift'
    exact .inr ⟨hmono', hshift'⟩
  | TF_HALF_PIXEL_FOR_NN =>
    have hmono' := hmono (1 / 2) 0
    have hshift' := hshift (1 / 2) 0
    simp only [sub_zero] at hmono' hshift'
    exact .inr ⟨hmono', hshift'⟩
  | ALIGN_CORNERS => exact absurd hc hcoord

theorem rawPixel_one (inputSize outputSize coord : ℤ) :
    attr.rawPixel 1 inputSize outputSize coord = nearestDim attr.nearestMode coord 1 := by
  have hone : isDoubleEqual 1 1 := by norm_num [isDoubleEqual, epsilon]
  rw [rawPixel, if_pos hone]

theorem rawPixel_of_ne (hne : scale ≠ 1) (inputSize outputSize coord : ℤ) :
    attr.rawPixel scale inputSize outputSize coord =
      nearestDim attr.nearestMode (attr.coordTransform coord scale inputSize outputSize) scale := by
  rw [rawPixel, if_neg (mt isDoubleEqual_one_iff.mp hne)]

theorem rawPixel_bilinear (hmode : attr.mode = .BILINEAR) (hnearest : attr.nearestMode = none)
    (hscale : 0 < scale) (hne : scale ≠ 1) (inputSize outputSize coord : ℤ) :
    attr.rawPixel scale inputSize outputSize coord = min coord (outputSize - scale) / scale := by
  rw [rawPixel_of_ne hne, hnearest, nearestDim, coordTransform, hmode]
  exact floor_bilinear hscale coord outputSize

theorem rawPixel_mono (hmode : attr.Tileable) (hscale : 1 ≤ scale) (inputSize outputSize : ℤ) :
    Monotone (attr.rawPixel scale inputSize outputSize) := by
  have hpos : 0 < scale := by omega
  have hround := rounding_nearestDim attr.nearestMode
      (show (1 : ℚ) ≤ scale by exact_mod_cast hscale)
  by_cases hone : scale = 1
  · subst hone
    intro x y hxy
    rw [Int.cast_one, rawPixel_one, rawPixel_one]
    exact hround.mono (by exact_mod_cast hxy)
  · rcases hmode with ⟨hmode, hcoord⟩ | ⟨hmode, hnearest⟩
    · intro x y hxy
      rw [rawPixel_of_ne hone, rawPixel_of_ne hone]
      apply hround.mono
      rcases coordTransform_nearest hmode hcoord hpos inputSize inputSize
          (Iff.refl (1 < outputSize)) with
        hzero | ⟨hmono, -⟩
      · exact ((hzero x).1.trans (hzero y).2.symm).le
      · exact hmono hxy
    · intro x y hxy
      rw [rawPixel_bilinear hmode hnearest hpos hone, rawPixel_bilinear hmode hnearest hpos hone]
      exact Int.ediv_le_ediv hpos (min_le_min_right _ hxy)

section Part

variable {size first last x inputSize outputSize inputSize' outputSize' start part : ℤ}

theorem clampPixel_rawPixel_nearest (hmode : attr.mode = .NEAREST)
    (hcoord : attr.coordinateTransformationMode ≠ .ALIGN_CORNERS) (hscale : 1 ≤ scale)
    (hne : scale ≠ 1) (hsize : 0 < size) (hfirst : first ≤ x) (hlast : x ≤ last)
    (hstart : start = clampPixel size (attr.rawPixel scale inputSize outputSize first))
    (hpart : part =
      clampPixel size (attr.rawPixel scale inputSize outputSize last) - start + 1)
    (hmany : 1 < outputSize ↔ 1 < outputSize') :
    clampPixel part (attr.rawPixel scale inputSize' outputSize' (x - start * scale)) + start =
      clampPixel size (attr.rawPixel scale inputSize outputSize x) := by
  have hpos : 0 < scale := by omega
  have hround := rounding_nearestDim attr.nearestMode
      (show (1 : ℚ) ≤ scale by exact_mod_cast hscale)
  have hcases := coordTransform_nearest hmode hcoord hpos inputSize inputSize' hmany
  rw [rawPixel_of_ne hne] at hstart hpart
  rw [rawPixel_of_ne hne, rawPixel_of_ne hne]
  rcases hcases with hzero | ⟨hmono, hshift⟩
  · have hpixel : nearestDim attr.nearestMode 0 scale = 0 := hround.zero
    have hclamp : clampPixel size 0 = 0 := by
      unfold clampPixel
      omega
    rw [(hzero _).1, hpixel, hclamp] at hstart hpart
    rw [(hzero _).1, (hzero _).2, hpixel, hclamp, hpart, hstart]
    rfl
  · have h := clampPixel_of_shift hround hmono hsize hfirst hlast (hshift x _)
    rw [hpart, hstart]
    exact h

/-- In the bilinear mode the bound is the part's own, or that of the whole image. -/
theorem clampPixel_rawPixel_bilinear (hmode : attr.mode = .BILINEAR)
    (hnearest : attr.nearestMode = none) (hscale : 0 < scale) (hne : scale ≠ 1) (hsize : 0 < size)
    (hfirst : first ≤ x) (hlast : x ≤ last)
    (hstart : start = clampPixel size (attr.rawPixel scale inputSize outputSize first))
    (hpart : part =
      clampPixel size (attr.rawPixel scale inputSize outputSize last) - start + 1)
    (hpartPos : 0 < part)
    (houtput : outputSize' = outputSize ∨
      (outputSize = attr.fullOutput scale size ∧ outputSize' = attr.fullOutput scale part)) :
    clampPixel part (attr.rawPixel scale inputSize' outputSize' (x - start * scale)) + start =
      clampPixel size (attr.rawPixel scale inputSize outputSize x) := by
  rw [rawPixel_bilinear hmode hnearest hscale hne] at hstart hpart
  rw [rawPixel_bilinear hmode hnearest hscale hne, rawPixel_bilinear hmode hnearest hscale hne]
  rcases houtput with rfl | ⟨rfl, rfl⟩
  · rw [hpart, hstart]
    exact clampPixel_of_bound hscale hsize hfirst hlast _
  · have hbound : ∀ n : ℤ, attr.fullOutput scale n - scale = n * scale - 1 := by
      intro n
      simp only [fullOutput, hmode]
      ring
    rw [hbound, clampPixel_min_div hscale hsize] at hstart hpart
    rw [hbound, hbound, clampPixel_min_div hscale hpartPos, clampPixel_min_div hscale hsize]
    have hmono : Monotone fun y : ℤ => y / scale := fun y y' h => Int.ediv_le_ediv hscale h
    have hshift : x / scale = (x - start * scale) / scale + start := by
      rw [← Int.add_mul_ediv_right _ _ hscale.ne', sub_add_cancel]
    have h := clampPixel_part (y := x / scale) hsize hmono hfirst hlast (.inl rfl)
    rw [← hstart, ← hpart, hshift, add_sub_cancel_right] at h
    rw [h, hshift]

/-- A part of one dimension reads the pixels of the whole dimension. The outputs that the
transformation asks for are those of the part, or for both the outputs before any tiling. -/
theorem clampPixel_rawPixel (hmode : attr.Tileable) (hscale : 1 ≤ scale)
    (hsize : 0 < size) (hfirst : first ≤ x) (hlast : x ≤ last)
    (hstart : start = clampPixel size (attr.rawPixel scale inputSize outputSize first))
    (hpart : part =
      clampPixel size (attr.rawPixel scale inputSize outputSize last) - start + 1)
    (houtput : outputSize' = outputSize ∨
      (outputSize = attr.fullOutput scale size ∧ outputSize' = attr.fullOutput scale part)) :
    clampPixel part (attr.rawPixel scale inputSize' outputSize' (x - start * scale)) + start =
      clampPixel size (attr.rawPixel scale inputSize outputSize x) := by
  have hends : start ≤ clampPixel size (attr.rawPixel scale inputSize outputSize last) := by
    rw [hstart]
    exact clampPixel_mono size (rawPixel_mono hmode hscale _ _ (hfirst.trans hlast))
  have hpartPos : 0 < part := by omega
  by_cases hone : scale = 1
  · subst hone
    have hround := rounding_nearestDim attr.nearestMode (le_refl 1)
    rw [Int.cast_one, rawPixel_one] at hstart hpart
    rw [Int.cast_one, rawPixel_one, rawPixel_one, hpart, hstart]
    exact clampPixel_of_shift hround Int.cast_mono hsize hfirst hlast (by push_cast; ring)
  · rcases hmode with ⟨hmode, hcoord⟩ | ⟨hmode, hnearest⟩
    · apply clampPixel_rawPixel_nearest hmode hcoord hscale hone hsize hfirst hlast hstart hpart
      rcases houtput with rfl | ⟨rfl, rfl⟩
      · exact Iff.rfl
      · have hmany : ∀ n : ℤ, 0 < n → 1 < attr.fullOutput scale n := by
          intro n hn
          simp only [fullOutput, hmode]
          nlinarith [show 2 ≤ scale by omega]
        exact iff_of_true (hmany size hsize) (hmany part hpartPos)
    · exact clampPixel_rawPixel_bilinear hmode hnearest (by omega) hone hsize hfirst hlast hstart
        hpart hpartPos houtput

end Part

section Shapes

variable {data tileOffset tileShape : Shape} {scales : List ℤ} {d : ℕ}

theorem dim_map_range {n : ℕ} (hd : d < n) (f : ℕ → ℤ) :
    Shape.dim ((List.range n).map f) d = f d := by
  simp [Shape.dim, List.getD, hd]

theorem dim_zipWith {α : Type} {f : ℤ → α → ℤ} {l : Shape} {l' : List α} (hd : d < l.length)
    (hd' : d < l'.length) : Shape.dim (List.zipWith f l l') d = f (l.dim d) l'[d] := by
  simp [Shape.dim, List.getD, hd, hd']

theorem dim_backInferCoord (attr : SEInterpolateAttr) (data coord : Shape)
    (hd : d < coord.length) : (attr.backInferCoord coord data).dim d = clampPixel (data.dim d)
      (attr.rawPixel (attr.scale.getD d 0) ((attr.initialInputShape.getD data).dim d)
        ((attr.initialOutputShape.getD (inferFullOutputShape data attr.scale attr.mode)).dim d)
        (coord.dim d)) := by
  rw [backInferCoord, dim_map_range hd]
  rfl

theorem length_backInferCoord (attr : SEInterpolateAttr) (data coord : Shape) :
    (attr.backInferCoord coord data).length = coord.length := by
  simp [backInferCoord]

variable (hscales : attr.scale = scales.map (↑)) (hlength : scales.length = data.length)
include hscales hlength

theorem dim_inferFullOutputShape (hd : d < data.length) :
    (inferFullOutputShape data attr.scale attr.mode).dim d =
      attr.fullOutput (scales.getD d 0) (data.dim d) := by
  have hd' : d < attr.scale.length := by
    rw [hscales, List.length_map, hlength]
    exact hd
  have hat : attr.scale[d] = ((scales.getD d 0 : ℤ) : ℚ) := by
    rw [List.getD_eq_getElem _ _ (hlength ▸ hd)]
    simp [hscales]
  rw [inferFullOutputShape, dim_zipWith hd hd', hat, fullOutput]
  generalize scales.getD d 0 = scale
  cases attr.mode with
  | NEAREST => exact_mod_cast Int.floor_intCast (data.dim d * scale)
  | BILINEAR => exact_mod_cast Int.floor_intCast (data.dim d * scale + (scale - 1))

theorem getD_scale (hd : d < data.length) : attr.scale.getD d 0 = ((scales.getD d 0 : ℤ) : ℚ) := by
  have hd' : d < scales.length := hlength ▸ hd
  simp [hscales, List.getD, hd']

theorem dim_inferTileStartOffset {pixel : Shape} (hd : d < data.length)
    (hpixel : pixel.length = data.length) (hscale : 1 ≤ scales.getD d 0)
    (hinside : 0 ≤ pixel.dim d ∧ pixel.dim d < data.dim d) :
    (attr.inferTileStartOffset pixel data).dim d = pixel.dim d * scales.getD d 0 := by
  have hmul : 0 ≤ pixel.dim d * scales.getD d 0 := mul_nonneg hinside.1 (by omega)
  have hle : pixel.dim d * scales.getD d 0 + scales.getD d 0 ≤ data.dim d * scales.getD d 0 := by
    nlinarith
  have hround : roundHalfAway ((pixel.dim d : ℚ) * ((scales.getD d 0 : ℤ) : ℚ)) =
      pixel.dim d * scales.getD d 0 := by
    rw [← Int.cast_mul]
    exact Rounding.roundHalfAway.intCast hmul
  have hout : data.dim d * scales.getD d 0 ≤ attr.fullOutput (scales.getD d 0) (data.dim d) := by
    rw [fullOutput]
    split <;> omega
  rw [inferTileStartOffset, dim_map_range (hpixel ▸ hd), getD_scale hscales hlength hd]
  dsimp only
  rw [hround, dim_inferFullOutputShape hscales hlength hd]
  omega

end Shapes

section Tile

variable {data tileOffset tileShape : Shape} {scales : List ℤ} {d : ℕ}

/-- What the shapes of a tile and the data have to be. -/
structure TileOf (attr : SEInterpolateAttr) (scales : List ℤ) (data tileOffset tileShape : Shape) :
    Prop where
  tileable : attr.Tileable
  scale : attr.scale = scales.map (↑)
  rank : scales.length = data.length ∧ tileOffset.length = data.length ∧
    tileShape.length = data.length
  scale_pos : ∀ d < data.length, 1 ≤ scales.getD d 0
  data_pos : ∀ d < data.length, 0 < data.dim d
  tile_pos : ∀ d < data.length, 0 < tileShape.dim d

theorem extractTile_offsets : (attr.extractTile tileOffset tileShape data).2.1 =
    attr.backInferCoord tileOffset data := rfl

def tileEnd (tileOffset tileShape : Shape) : Shape :=
  List.zipWith (fun offset size => offset + size - 1) tileOffset tileShape

theorem dim_tileEnd (hd : d < tileOffset.length) (hlength : tileShape.length = tileOffset.length) :
    (tileEnd tileOffset tileShape).dim d = tileOffset.dim d + tileShape.dim d - 1 := by
  have hd' : d < tileShape.length := hlength ▸ hd
  rw [tileEnd, dim_zipWith hd hd', Shape.dim, Shape.dim, List.getD_eq_getElem _ _ hd']

theorem length_tileEnd (hlength : tileShape.length = tileOffset.length) :
    (tileEnd tileOffset tileShape).length = tileOffset.length := by
  rw [tileEnd, List.length_zipWith, hlength, Nat.min_self]

theorem dim_extractTile_shape (attr : SEInterpolateAttr) (data : Shape) (hd : d < tileOffset.length)
    (hlength : tileShape.length = tileOffset.length) :
    (attr.extractTile tileOffset tileShape data).2.2.dim d =
      (attr.backInferCoord (tileEnd tileOffset tileShape) data).dim d -
        (attr.backInferCoord tileOffset data).dim d + 1 := by
  have hend := length_tileEnd hlength
  have hd' : d < (attr.backInferCoord (tileEnd tileOffset tileShape) data).length := by
    rw [length_backInferCoord, hend]
    exact hd
  have hshape : (attr.extractTile tileOffset tileShape data).2.2 =
      List.zipWith (fun start stop => stop - start + 1) (attr.backInferCoord tileOffset data)
        (attr.backInferCoord (tileEnd tileOffset tileShape) data) := rfl
  rw [hshape, dim_zipWith (by rwa [length_backInferCoord]) hd']
  simp only [Shape.dim, List.getD_eq_getElem _ _ hd']

theorem length_extractTile_shape (attr : SEInterpolateAttr) (data : Shape)
    (hlength : tileShape.length = tileOffset.length) :
    (attr.extractTile tileOffset tileShape data).2.2.length = tileOffset.length := by
  have hshape : (attr.extractTile tileOffset tileShape data).2.2 =
      List.zipWith (fun start stop => stop - start + 1) (attr.backInferCoord tileOffset data)
        (attr.backInferCoord (tileEnd tileOffset tileShape) data) := rfl
  rw [hshape, List.length_zipWith, length_backInferCoord, length_backInferCoord,
    length_tileEnd hlength, Nat.min_self]

variable (htile : attr.TileOf scales data tileOffset tileShape)
include htile

theorem TileOf.inside (hd : d < data.length) :
    0 ≤ (attr.extractTile tileOffset tileShape data).2.1.dim d ∧
      0 < (attr.extractTile tileOffset tileShape data).2.2.dim d ∧
      (attr.extractTile tileOffset tileShape data).2.1.dim d +
        (attr.extractTile tileOffset tileShape data).2.2.dim d ≤ data.dim d := by
  obtain ⟨hscales, hoffset, hshape⟩ := htile.rank
  have hd' : d < tileOffset.length := hoffset ▸ hd
  have hend : d < (tileEnd tileOffset tileShape).length := by
    rwa [length_tileEnd (hshape.trans hoffset.symm)]
  rw [extractTile_offsets, dim_extractTile_shape attr data hd' (hshape.trans hoffset.symm),
    dim_backInferCoord _ _ _ hd', dim_backInferCoord _ _ _ hend,
    getD_scale htile.scale hscales hd]
  have hmono := clampPixel_mono (data.dim d) (rawPixel_mono htile.tileable (htile.scale_pos d hd)
    ((attr.initialInputShape.getD data).dim d)
    ((attr.initialOutputShape.getD (inferFullOutputShape data attr.scale attr.mode)).dim d)
    (show tileOffset.dim d ≤ (tileEnd tileOffset tileShape).dim d by
      have := htile.tile_pos d hd
      rw [dim_tileEnd hd' (hshape.trans hoffset.symm)]
      omega))
  have hlt := clampPixel_lt (htile.data_pos d hd) (attr.rawPixel (scales.getD d 0)
    ((attr.initialInputShape.getD data).dim d)
    ((attr.initialOutputShape.getD (inferFullOutputShape data attr.scale attr.mode)).dim d)
    ((tileEnd tileOffset tileShape).dim d))
  refine ⟨clampPixel_nonneg _ _, ?_, ?_⟩ <;> omega

theorem TileOf.relativeOffsets (hd : d < data.length) :
    ∃ offsets, (attr.extractTile tileOffset tileShape data).1.offsets = some offsets ∧
      offsets.getD d 0 = tileOffset.dim d -
        (attr.extractTile tileOffset tileShape data).2.1.dim d * scales.getD d 0 := by
  obtain ⟨hscales, hoffset, hshape⟩ := htile.rank
  have hd' : d < tileOffset.length := hoffset ▸ hd
  have hpixels : (attr.backInferCoord tileOffset data).length = data.length := by
    rw [length_backInferCoord, hoffset]
  obtain ⟨hnonneg, hpos, hle⟩ := htile.inside hd
  rw [extractTile_offsets] at *
  refine ⟨_, rfl, ?_⟩
  have hstart := dim_inferTileStartOffset htile.scale hscales hd hpixels
    (htile.scale_pos d hd) ⟨hnonneg, by omega⟩
  have hd'' : d <
      (attr.inferTileStartOffset (attr.backInferCoord tileOffset data) data).length := by
    simp [inferTileStartOffset, length_backInferCoord, hd']
  have hdim := dim_zipWith (f := (· - ·)) hd' hd''
  rw [← List.getD_eq_getElem _ 0 hd''] at hdim
  rw [← hstart]
  exact hdim

theorem TileOf.dim_backInferCoord {place tilePlace : Shape} (hd : d < data.length)
    (hplace : place.length = data.length) (htilePlace : tilePlace.length = data.length)
    (hinside : tileOffset.dim d ≤ place.dim d ∧
      place.dim d < tileOffset.dim d + tileShape.dim d)
    (hrelative : tilePlace.dim d = place.dim d -
      (attr.extractTile tileOffset tileShape data).2.1.dim d * scales.getD d 0) :
    ((attr.extractTile tileOffset tileShape data).1.backInferCoord tilePlace
        (attr.extractTile tileOffset tileShape data).2.2).dim d +
      (attr.extractTile tileOffset tileShape data).2.1.dim d =
      (attr.backInferCoord place data).dim d := by
  obtain ⟨hscales, hoffset, hshape⟩ := htile.rank
  have hd' : d < tileOffset.length := hoffset ▸ hd
  have hshape' : tileShape.length = tileOffset.length := hshape.trans hoffset.symm
  have hend : d < (tileEnd tileOffset tileShape).length := by
    rwa [length_tileEnd (hshape.trans hoffset.symm)]
  have hlength := (length_extractTile_shape attr data hshape').trans hoffset
  have hstart := SEInterpolateAttr.dim_backInferCoord attr data tileOffset hd'
  have hpart := dim_extractTile_shape attr data hd' hshape'
  rw [SEInterpolateAttr.dim_backInferCoord _ _ _ hend, dim_tileEnd hd' hshape',
    getD_scale htile.scale hscales hd] at hpart
  rw [getD_scale htile.scale hscales hd] at hstart
  rw [SEInterpolateAttr.dim_backInferCoord _ _ _ (htilePlace ▸ hd),
    SEInterpolateAttr.dim_backInferCoord _ _ _ (hplace ▸ hd), hrelative, extractTile_offsets]
  have hscale : (attr.extractTile tileOffset tileShape data).1.scale.getD d 0 =
      ((scales.getD d 0 : ℤ) : ℚ) := getD_scale htile.scale hscales hd
  rw [hscale, getD_scale htile.scale hscales hd]
  apply clampPixel_rawPixel htile.tileable (htile.scale_pos d hd)
    (htile.data_pos d hd) hinside.1 (show place.dim d ≤ tileOffset.dim d + tileShape.dim d - 1 by
      omega)
    hstart hpart
  have hinitial : (attr.extractTile tileOffset tileShape data).1.initialOutputShape =
    attr.initialOutputShape := rfl
  rw [hinitial]
  cases attr.initialOutputShape with
  | some shape => exact .inl rfl
  | none =>
    refine .inr ⟨?_, ?_⟩
    · exact dim_inferFullOutputShape htile.scale hscales hd
    · exact dim_inferFullOutputShape htile.scale (hscales.trans hlength.symm)
        (hlength.symm ▸ hd)

end Tile

end SEInterpolateAttr

section Table

variable {attr : SEInterpolateAttr} {data tileOffset tileShape : Shape}
  {elemSize seSize scaleH scaleW : ℤ}

/-- The place of an entry in the table. -/
def seIndex (outputShape : Shape) (seSize : ℤ) (h w se : ℕ) : ℕ :=
  (h * (outputShape.dim Act.W).toNat + w) * ((outputShape.dim Act.C).tdiv seSize).toNat + se

/-- The channel, row and column that an address belongs to. -/
def decodeSEOffset (dataShape : Shape) (elemSize address : ℤ) : ℤ × ℤ × ℤ :=
  let element := address / elemSize
  let pixel := element / dataShape.dim Act.C
  (element % dataShape.dim Act.C, pixel / dataShape.dim Act.W, pixel % dataShape.dim Act.W)

theorem getElem?_computeSEOffsets_sePixel (attr : SEInterpolateAttr) (h w se : ℕ)
    (hrank : data.length = 4) (helem : 0 < elemSize) (hse : 0 < seSize ∧ seSize.tmod 16 = 0)
    (hh : (h : ℤ) < (attr.inferOutputShape data).dim Act.H)
    (hw : (w : ℤ) < (attr.inferOutputShape data).dim Act.W)
    (hd : (se : ℤ) < ((attr.inferOutputShape data).dim Act.C).tdiv seSize) :
    ∃ table, attr.computeSEOffsets data elemSize seSize = some table ∧
      table[seIndex (attr.inferOutputShape data) seSize h w se]? =
        some ((getInputAddress data elemSize (attr.sePixel data (se * seSize) h w)).bmod
          (2 ^ 32)) := by
  simp only [SEInterpolateAttr.computeSEOffsets, hrank, helem, hse, guard_true, Option.pure_def,
    Option.bind_eq_bind, Option.bind_some, and_self]
  generalize attr.inferOutputShape data = outputShape at *
  refine ⟨_, rfl, ?_⟩
  have hindex : seIndex outputShape seSize h w se =
      h * ((outputShape.dim Act.W).toNat * ((outputShape.dim Act.C).tdiv seSize).toNat) +
        (w * ((outputShape.dim Act.C).tdiv seSize).toNat + se) := by
    rw [seIndex]
    ring
  have hcolumn : w < (outputShape.dim Act.W).toNat := by omega
  have hdepth : se < ((outputShape.dim Act.C).tdiv seSize).toNat := by omega
  have hrow : w * ((outputShape.dim Act.C).tdiv seSize).toNat + se <
      (outputShape.dim Act.W).toNat * ((outputShape.dim Act.C).tdiv seSize).toNat := by
    nlinarith
  rw [hindex, getElem?_flatMap_range (fun h _ => by simp) (by omega) hrow,
    getElem?_flatMap_range (fun w _ => by simp) hcolumn hdepth, List.getElem?_map,
    List.getElem?_range hdepth]
  rfl

theorem decodeSEOffset_getInputAddress {pixel : Shape} (helem : 0 < elemSize)
    (hC : 0 ≤ pixel.dim Act.C ∧ pixel.dim Act.C < data.dim Act.C)
    (hW : 0 ≤ pixel.dim Act.W ∧ pixel.dim Act.W < data.dim Act.W) :
    decodeSEOffset data elemSize (getInputAddress data elemSize pixel) =
      (pixel.dim Act.C, pixel.dim Act.H, pixel.dim Act.W) := by
  have helement : getInputAddress data elemSize pixel / elemSize =
      pixel.dim Act.C + data.dim Act.C *
        (pixel.dim Act.W + data.dim Act.W * pixel.dim Act.H) := by
    rw [getInputAddress, Int.mul_ediv_cancel _ helem.ne']
    ring
  have hdiv : ∀ {a b q : ℤ}, 0 ≤ a → a < b → (a + b * q) / b = q := by
    intro a b q ha hab
    rw [Int.add_mul_ediv_left _ _ (by omega), Int.ediv_eq_zero_of_lt ha hab, zero_add]
  have hmod : ∀ {a b q : ℤ}, 0 ≤ a → a < b → (a + b * q) % b = a := by
    intro a b q ha hab
    rw [Int.add_mul_emod_self_left, Int.emod_eq_of_lt ha hab]
  simp only [decodeSEOffset, helement, hdiv hC.1 hC.2, hdiv hW.1 hW.2, hmod hC.1 hC.2,
    hmod hW.1 hW.2]

theorem bmod_address {address : ℤ} (hnonneg : 0 ≤ address) (hfits : address < 2 ^ 31) :
    address.bmod (2 ^ 32) = address := by
  apply Int.bmod_eq_of_le <;> omega

/-- An interpolation without offsets and sizes over rows and columns, and an output tile of it on
storage-element boundaries. -/
structure SupportedTile (attr : SEInterpolateAttr) (scaleH scaleW : ℤ) (data tileOffset
    tileShape : Shape) (elemSize seSize : ℤ) : Prop where
  tileable : attr.Tileable
  untiled : attr.offsets = none ∧ attr.sizes = none
  scale : attr.scale = [1, 1, (scaleH : ℚ), (scaleW : ℚ)]
  scale_pos : 1 ≤ scaleH ∧ 1 ≤ scaleW
  rank : data.length = 4 ∧ tileOffset.length = 4 ∧ tileShape.length = 4
  data_pos : ∀ d < 4, 0 < data.dim d
  tile_inside : ∀ d < 4, 0 ≤ tileOffset.dim d ∧ 0 < tileShape.dim d ∧
    tileOffset.dim d + tileShape.dim d ≤ (attr.inferOutputShape data).dim d
  elemSize_pos : 0 < elemSize
  seSize_pos : 0 < seSize ∧ 16 ∣ seSize
  channels : seSize ∣ data.dim Act.C ∧ seSize ∣ tileOffset.dim Act.C ∧ seSize ∣ tileShape.dim Act.C

/-- The entry of a place in the tile, shifted by the tile's input offset, is the pixel of the
entry of that place in the table of the whole output. -/
def ReadsSamePixel (attr : SEInterpolateAttr) (data tileOffset tileShape : Shape)
    (elemSize seSize : ℤ) (h w se : ℕ) : Prop :=
  ∃ table tileTable entry tileEntry,
    attr.computeSEOffsets data elemSize seSize = some table ∧
    (attr.extractTile tileOffset tileShape data).1.computeSEOffsets
      (attr.extractTile tileOffset tileShape data).2.2 elemSize seSize = some tileTable ∧
    table[seIndex (attr.inferOutputShape data) seSize ((tileOffset.dim Act.H).toNat + h)
      ((tileOffset.dim Act.W).toNat + w) (((tileOffset.dim Act.C).tdiv seSize).toNat + se)]? =
        some entry ∧
    tileTable[seIndex tileShape seSize h w se]? = some tileEntry ∧
    decodeSEOffset data elemSize entry =
      decodeSEOffset (attr.extractTile tileOffset tileShape data).2.2 elemSize tileEntry +
        ((attr.extractTile tileOffset tileShape data).2.1.dim Act.C,
          (attr.extractTile tileOffset tileShape data).2.1.dim Act.H,
          (attr.extractTile tileOffset tileShape data).2.1.dim Act.W)

variable (hs : SupportedTile attr scaleH scaleW data tileOffset tileShape elemSize seSize)
include hs

theorem SupportedTile.tileOf : attr.TileOf [1, 1, scaleH, scaleW] data tileOffset tileShape where
  tileable := hs.tileable
  scale := by simp [hs.scale]
  rank := by
    obtain ⟨hdata, hoffset, hshape⟩ := hs.rank
    rw [hdata, hoffset, hshape]
    exact ⟨rfl, rfl, rfl⟩
  scale_pos := by
    intro d hd
    rw [hs.rank.1] at hd
    obtain ⟨hH, hW⟩ := hs.scale_pos
    match d, hd with
    | 0, _ => exact le_rfl
    | 1, _ => exact le_rfl
    | 2, _ => exact hH
    | 3, _ => exact hW
  data_pos := fun d hd => hs.data_pos d (hs.rank.1 ▸ hd)
  tile_pos := fun d hd => (hs.tile_inside d (hs.rank.1 ▸ hd)).2.1

theorem SupportedTile.channels_eq : (attr.inferOutputShape data).dim Act.C = data.dim Act.C := by
  obtain ⟨hscales, -, -⟩ := hs.tileOf.rank
  have hC : Act.C < data.length := by
    rw [hs.rank.1]
    decide
  have hfull := SEInterpolateAttr.dim_inferFullOutputShape hs.tileOf.scale hscales hC
  rw [SEInterpolateAttr.inferOutputShape, hs.untiled.2, Option.getD_none, hfull,
    SEInterpolateAttr.fullOutput]
  have hone : [1, 1, scaleH, scaleW].getD Act.C 0 = 1 := rfl
  rw [hone]
  split <;> omega

theorem SupportedTile.channel_offset :
    (attr.extractTile tileOffset tileShape data).2.1.dim Act.C = tileOffset.dim Act.C := by
  obtain ⟨hscales, -, -⟩ := hs.tileOf.rank
  have hC : Act.C < data.length := by
    rw [hs.rank.1]
    decide
  have hC' : Act.C < tileOffset.length := by
    rw [hs.rank.2.1]
    decide
  obtain ⟨hnonneg, hpos, hle⟩ := hs.tile_inside Act.C (by decide)
  rw [hs.channels_eq] at hle
  have hone : (([1, 1, scaleH, scaleW].getD Act.C 0 : ℤ) : ℚ) = 1 := by
    norm_num [Act.C]
  rw [SEInterpolateAttr.extractTile_offsets, SEInterpolateAttr.dim_backInferCoord _ _ _ hC',
    SEInterpolateAttr.getD_scale hs.tileOf.scale hscales hC, hone, SEInterpolateAttr.rawPixel_one]
  have hround := (rounding_nearestDim attr.nearestMode (le_refl 1)).intCast hnonneg
  unfold clampPixel
  omega

omit hs in
theorem backInferCoord_inside (attr : SEInterpolateAttr) {place : Shape} {d : ℕ}
    (hd : d < place.length) (hpos : 0 < data.dim d) :
    0 ≤ (attr.backInferCoord place data).dim d ∧
      (attr.backInferCoord place data).dim d < data.dim d := by
  rw [SEInterpolateAttr.dim_backInferCoord _ _ _ hd]
  exact ⟨clampPixel_nonneg _ _, clampPixel_lt hpos _⟩

omit hs in
theorem getInputAddress_le (data whole : Shape) {part pixel : Shape} (helem : 0 < elemSize)
    (hC : 0 ≤ pixel.dim Act.C ∧ pixel.dim Act.C ≤ whole.dim Act.C)
    (hH : 0 ≤ pixel.dim Act.H ∧ pixel.dim Act.H ≤ whole.dim Act.H)
    (hW : 0 ≤ pixel.dim Act.W ∧ pixel.dim Act.W ≤ whole.dim Act.W)
    (hpart : 0 ≤ part.dim Act.C ∧ part.dim Act.C ≤ data.dim Act.C)
    (hpart' : 0 ≤ part.dim Act.W ∧ part.dim Act.W ≤ data.dim Act.W) :
    0 ≤ getInputAddress part elemSize pixel ∧
      getInputAddress part elemSize pixel ≤ getInputAddress data elemSize whole := by
  have hrow : 0 ≤ pixel.dim Act.H * part.dim Act.W + pixel.dim Act.W :=
    add_nonneg (mul_nonneg hH.1 hpart'.1) hW.1
  have hrow' : pixel.dim Act.H * part.dim Act.W + pixel.dim Act.W ≤
      whole.dim Act.H * data.dim Act.W + whole.dim Act.W :=
    add_le_add (mul_le_mul hH.2 hpart'.2 hpart'.1 (hH.1.trans hH.2)) hW.2
  have helement := mul_le_mul hrow' hpart.2 hpart.1 (hrow.trans hrow')
  unfold getInputAddress
  constructor
  · exact mul_nonneg (add_nonneg (mul_nonneg hrow hpart.1) hC.1) helem.le
  · exact mul_le_mul_of_nonneg_right (add_le_add helement hC.2) helem.le

theorem SupportedTile.decode_eq {place tilePlace : Shape} (hlength : place.length = 4)
    (htilePlaceLength : tilePlace.length = 4)
    (hsame : ∀ d ∈ [Act.C, Act.H, Act.W],
      ((attr.extractTile tileOffset tileShape data).1.backInferCoord tilePlace
          (attr.extractTile tileOffset tileShape data).2.2).dim d +
        (attr.extractTile tileOffset tileShape data).2.1.dim d =
        (attr.backInferCoord place data).dim d)
    (hfits : getInputAddress data elemSize (attr.backInferCoord place data) < 2 ^ 31) :
    decodeSEOffset data elemSize
        ((getInputAddress data elemSize (attr.backInferCoord place data)).bmod (2 ^ 32)) =
      decodeSEOffset (attr.extractTile tileOffset tileShape data).2.2 elemSize
        ((getInputAddress (attr.extractTile tileOffset tileShape data).2.2 elemSize
          ((attr.extractTile tileOffset tileShape data).1.backInferCoord tilePlace
            (attr.extractTile tileOffset tileShape data).2.2)).bmod (2 ^ 32)) +
        ((attr.extractTile tileOffset tileShape data).2.1.dim Act.C,
          (attr.extractTile tileOffset tileShape data).2.1.dim Act.H,
          (attr.extractTile tileOffset tileShape data).2.1.dim Act.W) := by
  have hrank : ∀ d < 4, d < data.length := fun d hd => hs.rank.1.symm ▸ hd
  have hC := hsame Act.C (by simp)
  have hH := hsame Act.H (by simp)
  have hW := hsame Act.W (by simp)
  obtain ⟨hoffsetC, hpartC, hinsideC⟩ := hs.tileOf.inside (hrank Act.C (by decide))
  obtain ⟨hoffsetH, hpartH, hinsideH⟩ := hs.tileOf.inside (hrank Act.H (by decide))
  obtain ⟨hoffsetW, hpartW, hinsideW⟩ := hs.tileOf.inside (hrank Act.W (by decide))
  have hpixel : ∀ d < 4, 0 ≤ (attr.backInferCoord place data).dim d ∧
      (attr.backInferCoord place data).dim d < data.dim d := fun d hd =>
    backInferCoord_inside attr (hlength.symm ▸ hd) (hs.data_pos d hd)
  have htilePixel : ∀ d < 4, 0 < (attr.extractTile tileOffset tileShape data).2.2.dim d → _ :=
    fun d hd => backInferCoord_inside (attr.extractTile tileOffset tileShape data).1
      (htilePlaceLength.symm ▸ hd)
  have htileC := htilePixel Act.C (by decide) hpartC
  have htileH := htilePixel Act.H (by decide) hpartH
  have htileW := htilePixel Act.W (by decide) hpartW
  obtain ⟨hnonneg, hle⟩ := getInputAddress_le data (attr.backInferCoord place data)
    hs.elemSize_pos ⟨htileC.1, by omega⟩
    ⟨htileH.1, by omega⟩ ⟨htileW.1, by omega⟩ ⟨hpartC.le, by omega⟩ ⟨hpartW.le, by omega⟩
  rw [bmod_address (hnonneg.trans hle) hfits, bmod_address hnonneg (hle.trans_lt hfits),
    decodeSEOffset_getInputAddress hs.elemSize_pos (hpixel Act.C (by decide))
      (hpixel Act.W (by decide)),
    decodeSEOffset_getInputAddress hs.elemSize_pos htileC htileW, ← hC, ← hH, ← hW]
  rfl

theorem SupportedTile.entry {h w se : ℕ} (hh : (h : ℤ) < tileShape.dim Act.H)
    (hw : (w : ℤ) < tileShape.dim Act.W) (hse : (se : ℤ) < (tileShape.dim Act.C).tdiv seSize) :
    ∃ table, attr.computeSEOffsets data elemSize seSize = some table ∧
      table[seIndex (attr.inferOutputShape data) seSize ((tileOffset.dim Act.H).toNat + h)
        ((tileOffset.dim Act.W).toNat + w) (((tileOffset.dim Act.C).tdiv seSize).toNat + se)]? =
      some ((getInputAddress data elemSize (attr.backInferCoord [0,
        tileOffset.dim Act.C + se * seSize, tileOffset.dim Act.H + h, tileOffset.dim Act.W + w]
        data)).bmod (2 ^ 32)) := by
  have hsePos := hs.seSize_pos.1
  obtain ⟨⟨numC, hnumC⟩, ⟨firstC, hfirstC⟩, tileC, htileC⟩ := hs.channels
  have hquot : ∀ q : ℤ, (seSize * q).tdiv seSize = q := fun q =>
    Int.mul_tdiv_cancel_left q hsePos.ne'
  obtain ⟨hoH, -, hoH'⟩ := hs.tile_inside Act.H (by decide)
  obtain ⟨hoW, -, hoW'⟩ := hs.tile_inside Act.W (by decide)
  obtain ⟨hoC, -, hoC'⟩ := hs.tile_inside Act.C (by decide)
  rw [htileC, hquot] at hse
  have hfirst : 0 ≤ firstC := by
    rw [hfirstC] at hoC
    exact nonneg_of_mul_nonneg_right hoC hsePos
  have hdepth : firstC + tileC ≤ numC := by
    rw [hs.channels_eq, hnumC, hfirstC, htileC, ← mul_add] at hoC'
    exact le_of_mul_le_mul_left hoC' hsePos
  obtain ⟨table, htable, hentry⟩ := getElem?_computeSEOffsets_sePixel attr
    ((tileOffset.dim Act.H).toNat + h) ((tileOffset.dim Act.W).toNat + w)
    (((tileOffset.dim Act.C).tdiv seSize).toNat + se) hs.rank.1 hs.elemSize_pos
    ⟨hsePos, Int.tmod_eq_zero_of_dvd hs.seSize_pos.2⟩ (by omega) (by omega)
    (by rw [hs.channels_eq, hnumC, hfirstC, hquot, hquot]; omega)
  refine ⟨table, htable, hentry.trans ?_⟩
  have hzeroH : [(0 : ℤ), 0, 0, 0].getD Act.H 0 = 0 := rfl
  have hzeroW : [(0 : ℤ), 0, 0, 0].getD Act.W 0 = 0 := rfl
  rw [SEInterpolateAttr.sePixel, hs.untiled.1, hfirstC, hquot, Option.getD_none, hzeroH, hzeroW]
  push_cast [Int.toNat_of_nonneg hfirst, Int.toNat_of_nonneg hoH, Int.toNat_of_nonneg hoW]
  rw [zero_add, zero_add, add_mul, mul_comm seSize firstC]

theorem SupportedTile.tileEntry {h w se : ℕ} (hh : (h : ℤ) < tileShape.dim Act.H)
    (hw : (w : ℤ) < tileShape.dim Act.W) (hse : (se : ℤ) < (tileShape.dim Act.C).tdiv seSize) :
    ∃ tileTable, (attr.extractTile tileOffset tileShape data).1.computeSEOffsets
        (attr.extractTile tileOffset tileShape data).2.2 elemSize seSize = some tileTable ∧
      tileTable[seIndex tileShape seSize h w se]? =
      some ((getInputAddress (attr.extractTile tileOffset tileShape data).2.2 elemSize
        ((attr.extractTile tileOffset tileShape data).1.backInferCoord [0, se * seSize,
          tileOffset.dim Act.H -
            (attr.extractTile tileOffset tileShape data).2.1.dim Act.H * scaleH + h,
          tileOffset.dim Act.W -
            (attr.extractTile tileOffset tileShape data).2.1.dim Act.W * scaleW + w]
          (attr.extractTile tileOffset tileShape data).2.2)).bmod (2 ^ 32)) := by
  obtain ⟨hdata, hoffset, hshape⟩ := hs.rank
  have hlength : (attr.extractTile tileOffset tileShape data).2.2.length = 4 :=
    (SEInterpolateAttr.length_extractTile_shape _ _ (hshape.trans hoffset.symm)).trans hoffset
  have houtput : (attr.extractTile tileOffset tileShape data).1.inferOutputShape
      (attr.extractTile tileOffset tileShape data).2.2 = tileShape := rfl
  obtain ⟨tileTable, htileTable, htileEntry⟩ := getElem?_computeSEOffsets_sePixel
    (attr.extractTile tileOffset tileShape data).1 h w se hlength hs.elemSize_pos
    ⟨hs.seSize_pos.1, Int.tmod_eq_zero_of_dvd hs.seSize_pos.2⟩
    (by rwa [houtput]) (by rwa [houtput]) (by rwa [houtput])
  obtain ⟨offsets, hoffsets, hrelativeH⟩ := hs.tileOf.relativeOffsets
    (hdata.symm ▸ (by decide) : Act.H < data.length)
  obtain ⟨offsets', hoffsets', hrelativeW⟩ := hs.tileOf.relativeOffsets
    (hdata.symm ▸ (by decide) : Act.W < data.length)
  obtain rfl := Option.some.inj (hoffsets.symm.trans hoffsets')
  rw [SEInterpolateAttr.sePixel, hoffsets, Option.getD_some, hrelativeH, hrelativeW] at htileEntry
  exact ⟨tileTable, htileTable, htileEntry⟩

/-- The input tile lies inside the data, and every entry of its table whose address in the whole
data fits the table is the pixel of the whole table. -/
theorem SupportedTile.readsSamePixel :
    (∀ d < 4, 0 ≤ (attr.extractTile tileOffset tileShape data).2.1.dim d ∧
      0 < (attr.extractTile tileOffset tileShape data).2.2.dim d ∧
      (attr.extractTile tileOffset tileShape data).2.1.dim d +
        (attr.extractTile tileOffset tileShape data).2.2.dim d ≤ data.dim d) ∧
    ∀ h w se : ℕ, (h : ℤ) < tileShape.dim Act.H → (w : ℤ) < tileShape.dim Act.W →
      (se : ℤ) < (tileShape.dim Act.C).tdiv seSize →
      getInputAddress data elemSize (attr.backInferCoord [0, tileOffset.dim Act.C + se * seSize,
        tileOffset.dim Act.H + h, tileOffset.dim Act.W + w] data) < 2 ^ 31 →
      ReadsSamePixel attr data tileOffset tileShape elemSize seSize h w se := by
  have htile := hs.tileOf
  obtain ⟨hdata, -, -⟩ := hs.rank
  refine ⟨fun d hd => htile.inside (hdata.symm ▸ hd), fun h w se hh hw hse hfits => ?_⟩
  obtain ⟨table, htable, hentry⟩ := hs.entry hh hw hse
  obtain ⟨tileTable, htileTable, htileEntry⟩ := hs.tileEntry hh hw hse
  refine ⟨table, tileTable, _, _, htable, htileTable, hentry, htileEntry, ?_⟩
  have hsePos := hs.seSize_pos.1
  have hseNonneg : 0 ≤ (se : ℤ) * seSize := mul_nonneg (Int.natCast_nonneg se) hsePos.le
  have hseLt : (se : ℤ) * seSize < tileShape.dim Act.C := by
    have hexact := Int.tdiv_mul_cancel hs.channels.2.2
    have hlt := mul_lt_mul_of_pos_right hse hsePos
    omega
  have hrank : ∀ d < 4, d < data.length := fun d hd => hdata.symm ▸ hd
  apply hs.decode_eq rfl rfl _ hfits
  intro d hd
  simp only [List.mem_cons, List.not_mem_nil, or_false] at hd
  rcases hd with rfl | rfl | rfl
  · refine htile.dim_backInferCoord (hrank _ (by decide)) hdata.symm hdata.symm ?_ ?_
    · show _ ≤ tileOffset.dim Act.C + se * seSize ∧ tileOffset.dim Act.C + se * seSize < _
      omega
    · show (se : ℤ) * seSize = tileOffset.dim Act.C + se * seSize - _ * 1
      rw [hs.channel_offset]
      ring
  · refine htile.dim_backInferCoord (hrank _ (by decide)) hdata.symm hdata.symm ?_ ?_
    · show _ ≤ tileOffset.dim Act.H + h ∧ tileOffset.dim Act.H + h < _
      omega
    · show tileOffset.dim Act.H - _ * scaleH + h = tileOffset.dim Act.H + h - _ * scaleH
      ring
  · refine htile.dim_backInferCoord (hrank _ (by decide)) hdata.symm hdata.symm ?_ ?_
    · show _ ≤ tileOffset.dim Act.W + w ∧ tileOffset.dim Act.W + w < _
      omega
    · show tileOffset.dim Act.W - _ * scaleW + w = tileOffset.dim Act.W + w - _ * scaleW
      ring

omit hs in
/-- Rows and columns twice, each output from the pixel it lies in. -/
def twiceNearest (nearestMode : InterpolateNearestMode) (coordMode : InterpolateCoordMode) :
    SEInterpolateAttr where
  mode := .NEAREST
  coordinateTransformationMode := coordMode
  scale := [1, 1, 2, 2]
  nearestMode := some nearestMode
  offsets := none
  sizes := none
  initialInputShape := none
  initialOutputShape := none
  nearest_isSome := fun _ => rfl
  scale_integer := by decide +kernel

omit hs in
theorem supportedTile_lowerHalf :
    SupportedTile (twiceNearest .ROUND_PREFER_CEIL .HALF_PIXEL) 2 2 [1, 32, 3, 3] [0, 16, 3, 0]
      [1, 16, 3, 6] 1 16 where
  tileable := .inl ⟨rfl, by decide⟩
  untiled := ⟨rfl, rfl⟩
  scale := by decide +kernel
  scale_pos := by decide
  rank := ⟨rfl, rfl, rfl⟩
  data_pos := by decide
  tile_inside := by decide +kernel
  elemSize_pos := by decide
  seSize_pos := by decide
  channels := by decide

omit hs in
theorem readsSamePixel_lowerHalf :
    ReadsSamePixel (twiceNearest .ROUND_PREFER_CEIL .HALF_PIXEL) [1, 32, 3, 3] [0, 16, 3, 0]
      [1, 16, 3, 6] 1 16 2 5 0 :=
  (SupportedTile.readsSamePixel supportedTile_lowerHalf).2 2 5 0 (by decide) (by decide)
    (by decide) (by decide +kernel)

omit hs in
theorem supportedTile_lastOutput :
    SupportedTile (twiceNearest .FLOOR .ASYMMETRIC) 2 2 [1, 16, 16384, 16384]
      [0, 0, 32767, 32767] [1, 16, 1, 1] 1 16 where
  tileable := .inl ⟨rfl, by decide⟩
  untiled := ⟨rfl, rfl⟩
  scale := by decide +kernel
  scale_pos := by decide
  rank := ⟨rfl, rfl, rfl⟩
  data_pos := by decide
  tile_inside := by decide +kernel
  elemSize_pos := by decide
  seSize_pos := by decide
  channels := by decide

omit hs in
/-- The last pixel of four gigabytes is at an address that is negative as an `int32_t`. -/
theorem not_readsSamePixel_lastOutput :
    SupportedTile (twiceNearest .FLOOR .ASYMMETRIC) 2 2 [1, 16, 16384, 16384]
      [0, 0, 32767, 32767] [1, 16, 1, 1] 1 16 ∧
    ¬ ReadsSamePixel (twiceNearest .FLOOR .ASYMMETRIC) [1, 16, 16384, 16384]
      [0, 0, 32767, 32767] [1, 16, 1, 1] 1 16 0 0 0 := by
  have hs := supportedTile_lastOutput
  refine ⟨hs, ?_⟩
  rintro ⟨table, tileTable, entry, tileEntry, htable, htileTable, hentry, htileEntry, hdecode⟩
  obtain ⟨table', htable', hentry'⟩ :=
    hs.entry (by decide : ((0 : ℕ) : ℤ) < 1) (by decide : ((0 : ℕ) : ℤ) < 1)
      (by decide : ((0 : ℕ) : ℤ) < Int.tdiv 16 16)
  obtain ⟨tileTable', htileTable', htileEntry'⟩ :=
    hs.tileEntry (by decide : ((0 : ℕ) : ℤ) < 1) (by decide : ((0 : ℕ) : ℤ) < 1)
      (by decide : ((0 : ℕ) : ℤ) < Int.tdiv 16 16)
  obtain rfl := Option.some.inj (htable.symm.trans htable')
  obtain rfl := Option.some.inj (htileTable.symm.trans htileTable')
  rw [Option.some.inj (hentry.symm.trans hentry'),
    Option.some.inj (htileEntry.symm.trans htileEntry')] at hdecode
  revert hdecode
  decide +kernel

end Table

end Vpux.VPU
