import Vpux.IE.AvgPool

/-! Average pools that leave out one row and column of padding, as nine pools without padding
(`passes/handle_exclude_pad_for_avg_pool.cpp`). -/
namespace Vpux.IE
open Finset Vpux.Const Data

section Model

/-- A part of the concatenation and its place. -/
structure Part where
  offsetY : ℕ
  offsetX : ℕ
  tensor : Tensor ℚ

def Part.Covers (part : Part) (y x : ℕ) : Prop :=
  (part.offsetY ≤ y ∧ y < part.offsetY + part.tensor.H) ∧
    part.offsetX ≤ x ∧ x < part.offsetX + part.tensor.W

instance (part : Part) (y x : ℕ) : Decidable (part.Covers y x) :=
    inferInstanceAs (Decidable (_ ∧ _))

def createSubAvgPool (origOp : AvgPoolOp) (input : Tensor ℚ) (beginY beginX endY endX : ℤ)
    (avgPoolOpKernel avgPoolOpStrides : Dims2D) : Except Fault (Tensor ℚ) :=
  AvgPoolOp.eval ⟨avgPoolOpKernel, avgPoolOpStrides, ⟨0, 0⟩, ⟨0, 0⟩, origOp.roundingType, false,
    origOp.postOp⟩ (stridedSliceOp input beginY beginX endY endX)

namespace AveragePoolRewriter

/-- The inputs of the concatenation, from the sizes of the output. -/
def matchAndRewrite (origOp : AvgPoolOp) (input : Tensor ℚ) (height width : ℕ) :
    Except Fault (List Part) := do
  let padValue := origOp.padsBegin.Y
  let kernelHeight := origOp.kernelSize.Y
  let kernelWidth := origOp.kernelSize.X
  let centerOp ← AvgPoolOp.eval ⟨origOp.kernelSize, origOp.strides, ⟨0, 0⟩, ⟨0, 0⟩,
    origOp.roundingType, false, origOp.postOp⟩ input
  let cornerKernelH := kernelHeight - padValue
  let cornerKernelW := kernelWidth - padValue
  let corner := fun beginY beginX endY endX => createSubAvgPool origOp input beginY beginX endY endX
    ⟨cornerKernelH, cornerKernelW⟩ ⟨1, 1⟩
  let topLeft ← corner 0 0 cornerKernelH cornerKernelW
  let topRight ← corner 0 (width - cornerKernelW) cornerKernelH width
  let bottomRight ← corner (height - cornerKernelH) (width - cornerKernelW) height width
  let bottomLeft ← corner (height - cornerKernelH) 0 height cornerKernelW
  let verticalKernelW := kernelWidth - padValue
  let vertical := fun beginX endX => createSubAvgPool origOp input 0 beginX height endX
    ⟨kernelHeight, verticalKernelW⟩ ⟨1, origOp.strides.Y⟩
  let left ← vertical 0 verticalKernelW
  let right ← vertical (width - verticalKernelW) width
  let horizontalKernelH := kernelHeight - padValue
  let horizontal := fun beginY endY => createSubAvgPool origOp input beginY 0 endY width
    ⟨horizontalKernelH, kernelWidth⟩ ⟨origOp.strides.X, 1⟩
  let top ← horizontal 0 horizontalKernelH
  let bottom ← horizontal (height - horizontalKernelH) height
  pure [⟨1, 1, centerOp⟩, ⟨0, 0, topLeft⟩, ⟨0, width - 1, topRight⟩,
    ⟨height - 1, width - 1, bottomRight⟩, ⟨height - 1, 0, bottomLeft⟩, ⟨1, 0, left⟩,
    ⟨1, width - 1, right⟩, ⟨0, 1, top⟩, ⟨height - 1, 1, bottom⟩]

/-- The parts tile the result, and each of its values is in the part at its place. -/
structure Assembles (parts : List Part) (out : Tensor ℚ) : Prop where
  sizes : ∀ part ∈ parts, part.tensor.N = out.N ∧ part.tensor.C = out.C
  within : ∀ part ∈ parts, part.offsetY + part.tensor.H ≤ out.H ∧ part.offsetX + part.tensor.W ≤
    out.W
  once : ∀ y < out.H, ∀ x < out.W, parts.countP (fun part => part.Covers y x) = 1
  values : ∀ part ∈ parts, ∀ n < out.N, ∀ c < out.C, ∀ y < part.tensor.H, ∀ x < part.tensor.W,
    part.tensor.get n c y x = out.get n c (part.offsetY + y) (part.offsetX + x)

/-- For all numbers of batches and channels, all values and every post operation. -/
def PreservesAverages (kernelSize : Dims2D) (roundingType : RoundingType) (H W : ℕ) : Prop :=
  ∀ postOp N C get out, AvgPoolOp.eval ⟨kernelSize, ⟨1, 1⟩, ⟨1, 1⟩, ⟨1, 1⟩, roundingType, true,
    postOp⟩ ⟨N, C, H, W, get⟩ = .ok out →
    ∃ parts, matchAndRewrite ⟨kernelSize, ⟨1, 1⟩, ⟨1, 1⟩, ⟨1, 1⟩, roundingType, true, postOp⟩
      ⟨N, C, H, W, get⟩ out.H out.W = .ok parts ∧ Assembles parts out

end AveragePoolRewriter

end Model

section Bands

/-- In one dimension, the windows of a pool over `len` places from `begin` on are the windows of the
pool over `size` places from `offset` on. -/
structure Band (size kernel begin len kernel' offset count : ℕ) : Prop where
  fits : begin + len ≤ size
  pos : 0 < kernel' ∧ 0 < count
  count_eq : count + kernel' = len + 1
  window_eq : ∀ y < count, window size 1 kernel (offset + y) = Ico (begin + y) (begin + y + kernel')

variable {size kernel begin len kernel' offset count : ℕ}

theorem Band.window_part (h : Band size kernel begin len kernel' offset count) {y : ℕ}
    (hy : y < count) :
    window len 0 kernel' (y * 1) = Ico y (y + kernel') := by
  have hcount := h.count_eq
  ext i
  rw [mem_window, mem_Ico]
  omega

theorem band_first (h : 3 ≤ size) : Band size 3 0 2 2 0 1 := by
  refine ⟨by omega, ⟨by omega, by omega⟩, rfl, fun y hy => ?_⟩
  ext i
  rw [mem_window, mem_Ico]
  omega

theorem band_middle (h : 3 ≤ size) : Band size 3 0 size 3 1 (size - 2) := by
  refine ⟨by omega, ⟨by omega, by omega⟩, by omega, fun y hy => ?_⟩
  ext i
  rw [mem_window, mem_Ico]
  omega

theorem band_last (h : 3 ≤ size) : Band size 3 (size - 2) 2 2 (size - 1) 1 := by
  refine ⟨by omega, ⟨by omega, by omega⟩, rfl, fun y hy => ?_⟩
  ext i
  rw [mem_window, mem_Ico]
  omega

theorem bands_once (h : 3 ≤ size) {y : ℕ} (hy : y < size) :
    ((0 ≤ y ∧ y < 0 + 1) ∧ ¬(1 ≤ y ∧ y < 1 + (size - 2)) ∧ ¬(size - 1 ≤ y ∧ y < size - 1 + 1)) ∨
      (¬(0 ≤ y ∧ y < 0 + 1) ∧ (1 ≤ y ∧ y < 1 + (size - 2)) ∧ ¬(size - 1 ≤ y ∧ y < size - 1 + 1)) ∨
      (¬(0 ≤ y ∧ y < 0 + 1) ∧ ¬(1 ≤ y ∧ y < 1 + (size - 2)) ∧
        (size - 1 ≤ y ∧ y < size - 1 + 1)) := by
  omega

theorem nine_once {a b c a' b' c' : Prop} [Decidable a] [Decidable b] [Decidable c] [Decidable a']
    [Decidable b'] [Decidable c'] (h : a ∧ ¬b ∧ ¬c ∨ ¬a ∧ b ∧ ¬c ∨ ¬a ∧ ¬b ∧ c)
    (h' : a' ∧ ¬b' ∧ ¬c' ∨ ¬a' ∧ b' ∧ ¬c' ∨ ¬a' ∧ ¬b' ∧ c') :
    ((((((((0 + if c ∧ b' then 1 else 0) + if a ∧ b' then 1 else 0) + if b ∧ c' then 1 else 0) +
      if b ∧ a' then 1 else 0) + if c ∧ a' then 1 else 0) + if c ∧ c' then 1 else 0) +
      if a ∧ c' then 1 else 0) + if a ∧ a' then 1 else 0) + (if b ∧ b' then 1 else 0) = 1 := by
  rcases h with ⟨ha, hb, hc⟩ | ⟨ha, hb, hc⟩ | ⟨ha, hb, hc⟩ <;>
    rcases h' with ⟨ha', hb', hc'⟩ | ⟨ha', hb', hc'⟩ | ⟨ha', hb', hc'⟩ <;>
    simp [ha, hb, hc, ha', hb', hc']

end Bands

section Preserves

variable {kernelSize : Dims2D} {roundingType : RoundingType} {postOp : Option (ℚ → ℚ)}
  {input : Tensor ℚ}

/-- The pool that is rewritten. -/
def paddedPool (kernelSize : Dims2D) (roundingType : RoundingType) (postOp : Option (ℚ → ℚ)) :
    AvgPoolOp :=
  ⟨kernelSize, ⟨1, 1⟩, ⟨1, 1⟩, ⟨1, 1⟩, roundingType, true, postOp⟩

variable {beginY lenY kernelY offsetY countY beginX lenX kernelX offsetX countX : ℕ}

theorem average_part (hY : Band input.H kernelSize.Y beginY lenY kernelY offsetY countY)
    (hX : Band input.W kernelSize.X beginX lenX kernelX offsetX countX) {y x : ℕ} (hy : y < countY)
    (hx : x < countX) (n c : ℕ) :
    AvgPoolOp.average ⟨⟨kernelY, kernelX⟩, ⟨1, 1⟩, ⟨0, 0⟩, ⟨0, 0⟩, roundingType, false, postOp⟩
        (input.crop beginY beginX lenY lenX) n c y x =
      (paddedPool kernelSize roundingType postOp).average input n c (offsetY + y)
        (offsetX + x) := by
  have hplaces : AvgPoolOp.places ⟨⟨kernelY, kernelX⟩, ⟨1, 1⟩, ⟨0, 0⟩, ⟨0, 0⟩, roundingType, false,
      postOp⟩
      lenY lenX y x = Ico y (y + kernelY) ×ˢ Ico x (x + kernelX) := by
    rw [AvgPoolOp.places, windowPlane, hY.window_part hy, hX.window_part hx]
  have hplaces' : (paddedPool kernelSize roundingType postOp).places input.H input.W (offsetY + y)
      (offsetX + x) =
      Ico (beginY + y) (beginY + y + kernelY) ×ˢ Ico (beginX + x) (beginX + x + kernelX) := by
    rw [AvgPoolOp.places, windowPlane, paddedPool, Nat.mul_one, Nat.mul_one, hY.window_eq y hy,
      hX.window_eq x hx]
  have hcard : (Ico (beginY + y) (beginY + y + kernelY) ×ˢ
      Ico (beginX + x) (beginX + x + kernelX)).card = kernelY * kernelX := by
    rw [card_product, Nat.card_Ico, Nat.card_Ico, Nat.add_sub_cancel_left, Nat.add_sub_cancel_left]
  have hsum : ∑ i ∈ Ico y (y + kernelY) ×ˢ Ico x (x + kernelX),
        (input.crop beginY beginX lenY lenX).get n c i.1 i.2 =
      ∑ i ∈ Ico (beginY + y) (beginY + y + kernelY) ×ˢ Ico (beginX + x) (beginX + x + kernelX),
        input.get n c i.1 i.2 := by
    apply sum_nbij' (fun i => (beginY + i.1, beginX + i.2)) (fun i => (i.1 - beginY, i.2 - beginX))
    · intro i hi
      simp only [mem_product, mem_Ico] at hi ⊢
      omega
    · intro i hi
      simp only [mem_product, mem_Ico] at hi ⊢
      omega
    · intro i _
      simp
    · intro i hi
      simp only [mem_product, mem_Ico] at hi
      exact Prod.ext (by simp only; omega) (by simp only; omega)
    · intro i _
      rfl
  rw [AvgPoolOp.average, AvgPoolOp.average, hplaces']
  change (∑ i ∈ AvgPoolOp.places _ lenY lenX y x, _) / _ = _
  rw [hplaces, hsum, hcard]
  rfl

/-- A part of the result. -/
structure IsPartOf (part : Part) (out : Tensor ℚ) (offsetY countY offsetX countX : ℕ) : Prop where
  N : part.tensor.N = out.N
  C : part.tensor.C = out.C
  offset : part.offsetY = offsetY ∧ part.offsetX = offsetX
  size : part.tensor.H = countY ∧ part.tensor.W = countX
  get : ∀ n c, ∀ y < countY, ∀ x < countX,
    part.tensor.get n c y x = out.get n c (offsetY + y) (offsetX + x)

variable {out : Tensor ℚ}

section

variable (hY : Band input.H kernelSize.Y beginY lenY kernelY offsetY countY)
  (hX : Band input.W kernelSize.X beginX lenX kernelX offsetX countX)
  (hout : (paddedPool kernelSize roundingType postOp).eval input = .ok out)
include hY hX hout

theorem eval_part :
    ∃ t, AvgPoolOp.eval ⟨⟨kernelY, kernelX⟩, ⟨1, 1⟩, ⟨0, 0⟩, ⟨0, 0⟩, roundingType, false, postOp⟩
        (input.crop beginY beginX lenY lenX) = .ok t ∧
      IsPartOf ⟨offsetY, offsetX, t⟩ out offsetY countY offsetX countX := by
  obtain ⟨H, W, -, -, rfl⟩ := AvgPoolOp.eval_eq_ok.mp hout
  obtain ⟨hposY, hcountY⟩ := hY.pos
  obtain ⟨hposX, hcountX⟩ := hX.pos
  have hsizeY := hY.count_eq
  have hsizeX := hX.count_eq
  refine ⟨_, AvgPoolOp.eval_eq_ok.mpr ⟨countY, countX, inferPoolDim_unit.mpr ?_,
    inferPoolDim_unit.mpr ?_,
    rfl⟩, rfl, rfl, ⟨rfl, rfl⟩, ⟨rfl, rfl⟩, ?_⟩
  · change 0 < kernelY ∧ kernelY ≤ lenY + 0 + 0 ∧ countY + kernelY = lenY + 0 + 0 + 1
    omega
  · change 0 < kernelX ∧ kernelX ≤ lenX + 0 + 0 ∧ countX + kernelX = lenX + 0 + 0 + 1
    omega
  · exact fun n c y hy x hx => congrArg (applyPostOp postOp) (average_part hY hX hy hx n c)

theorem subAvgPool_part {firstY firstX endY endX : ℤ} (hfirstY : firstY = beginY)
    (hfirstX : firstX = beginX) (hendY : endY = (beginY + lenY : ℕ))
    (hendX : endX = (beginX + lenX : ℕ)) :
    ∃ t, createSubAvgPool (paddedPool kernelSize roundingType postOp) input firstY firstX endY endX
        ⟨kernelY, kernelX⟩ ⟨1, 1⟩ = .ok t ∧
      IsPartOf ⟨offsetY, offsetX, t⟩ out offsetY countY offsetX countX := by
  have hfitsY := hY.fits
  have hfitsX := hX.fits
  have hslice : stridedSliceOp input firstY firstX endY endX =
      input.crop beginY beginX lenY lenX := by
    rw [stridedSliceOp, hfirstY, hfirstX, hendY, hendX]
    simp only [sliceBound_natCast]
    rw [Nat.min_eq_right (by omega), Nat.min_eq_right (by omega), Nat.min_eq_right (by omega),
      Nat.min_eq_right (by omega), Nat.add_sub_cancel_left, Nat.add_sub_cancel_left]
  rw [createSubAvgPool, hslice]
  exact eval_part hY hX hout

end

theorem IsPartOf.covers_iff {part : Part} {offsetY countY offsetX countX : ℕ}
    (h : IsPartOf part out offsetY countY offsetX countX) (y x : ℕ) : part.Covers y x ↔
      (offsetY ≤ y ∧ y < offsetY + countY) ∧ offsetX ≤ x ∧ x < offsetX + countX := by
  rw [Part.Covers, h.offset.1, h.offset.2, h.size.1, h.size.2]

theorem IsPartOf.values {part : Part} {offsetY countY offsetX countX : ℕ}
    (h : IsPartOf part out offsetY countY offsetX countX) (n c : ℕ) {y x : ℕ}
    (hy : y < part.tensor.H) (hx : x < part.tensor.W) :
    part.tensor.get n c y x = out.get n c (part.offsetY + y) (part.offsetX + x) := by
  rw [h.size.1] at hy
  rw [h.size.2] at hx
  rw [h.offset.1, h.offset.2]
  exact h.get n c y hy x hx

theorem preservesAverages_three {H W : ℕ} (roundingType : RoundingType) (hH : 3 ≤ H) (hW : 3 ≤ W) :
    AveragePoolRewriter.PreservesAverages ⟨3, 3⟩ roundingType H W := by
  intro postOp N C get out hout
  have hsizes : out.H = H ∧ out.W = W := by
    obtain ⟨H', W', hH', hW', rfl⟩ := AvgPoolOp.eval_eq_ok.mp hout
    have hH'' := (inferPoolDim_unit.mp hH').2.2
    have hW'' := (inferPoolDim_unit.mp hW').2.2
    constructor <;> simp only at hH'' hW'' ⊢ <;> omega
  have hcrop : (Tensor.mk N C H W get).crop 0 0 H W = ⟨N, C, H, W, get⟩ := by
    simp [Tensor.crop]
  have hbegin : ∀ size : ℕ, 3 ≤ size → (size : ℤ) - ((3 - 1 : ℕ) : ℤ) = (size - 2 : ℕ) := by
    intro size hsize
    omega
  have hend : ∀ size : ℕ, 3 ≤ size → (size : ℤ) = (size - 2 + 2 : ℕ) := by
    intro size hsize
    omega
  have hall : ∀ size : ℕ, (size : ℤ) = (0 + size : ℕ) := by
    intro size
    rw [Nat.zero_add]
  obtain ⟨center, hcenter, pcenter⟩ := eval_part (band_middle hH) (band_middle hW) hout
  rw [hcrop] at hcenter
  obtain ⟨topLeft, htopLeft, ptopLeft⟩ := subAvgPool_part (band_first hH) (band_first hW) hout
    rfl rfl rfl rfl
  obtain ⟨topRight, htopRight, ptopRight⟩ := subAvgPool_part (band_first hH) (band_last hW) hout
    rfl (hbegin W hW) rfl (hend W hW)
  obtain ⟨bottomRight, hbottomRight, pbottomRight⟩ :=
    subAvgPool_part (band_last hH) (band_last hW) hout
    (hbegin H hH) (hbegin W hW) (hend H hH) (hend W hW)
  obtain ⟨bottomLeft, hbottomLeft, pbottomLeft⟩ :=
    subAvgPool_part (band_last hH) (band_first hW) hout
    (hbegin H hH) rfl (hend H hH) rfl
  obtain ⟨left, hleft, pleft⟩ := subAvgPool_part (band_middle hH) (band_first hW) hout
    rfl rfl (hall H) rfl
  obtain ⟨right, hright, pright⟩ := subAvgPool_part (band_middle hH) (band_last hW) hout
    rfl (hbegin W hW) (hall H) (hend W hW)
  obtain ⟨top, htop, ptop⟩ := subAvgPool_part (band_first hH) (band_middle hW) hout
    rfl rfl rfl (hall W)
  obtain ⟨bottom, hbottom, pbottom⟩ := subAvgPool_part (band_last hH) (band_middle hW) hout
    (hbegin H hH) rfl (hend H hH) (hall W)
  let parts : List Part := [⟨1, 1, center⟩, ⟨0, 0, topLeft⟩, ⟨0, W - 1, topRight⟩,
    ⟨H - 1, W - 1, bottomRight⟩, ⟨H - 1, 0, bottomLeft⟩, ⟨1, 0, left⟩, ⟨1, W - 1, right⟩,
    ⟨0, 1, top⟩, ⟨H - 1, 1, bottom⟩]
  have hparts : ∀ part ∈ parts, ∃ offsetY countY offsetX countX, offsetY + countY ≤ H ∧
        offsetX + countX ≤ W ∧ IsPartOf part out offsetY countY offsetX countX := by
    simp only [parts, List.forall_mem_cons, List.not_mem_nil, false_implies, implies_true, and_true]
    exact ⟨⟨_, _, _, _, by omega, by omega, pcenter⟩, ⟨_, _, _, _, by omega, by omega, ptopLeft⟩,
      ⟨_, _, _, _, by omega, by omega, ptopRight⟩, ⟨_, _, _, _, by omega, by omega, pbottomRight⟩,
      ⟨_, _, _, _, by omega, by omega, pbottomLeft⟩, ⟨_, _, _, _, by omega, by omega, pleft⟩,
      ⟨_, _, _, _, by omega, by omega, pright⟩, ⟨_, _, _, _, by omega, by omega, ptop⟩,
      ⟨_, _, _, _, by omega, by omega, pbottom⟩⟩
  refine ⟨parts, ?_, ⟨fun part hpart => ?_, fun part hpart => ?_, ?_,
    fun part hpart n _ c _ y hy x hx => ?_⟩⟩
  · rw [hsizes.1, hsizes.2]
    exact bind_eq_ok.mpr ⟨center, hcenter, bind_eq_ok.mpr ⟨topLeft, htopLeft, bind_eq_ok.mpr
      ⟨topRight, htopRight, bind_eq_ok.mpr ⟨bottomRight, hbottomRight, bind_eq_ok.mpr
      ⟨bottomLeft, hbottomLeft, bind_eq_ok.mpr ⟨left, hleft, bind_eq_ok.mpr ⟨right, hright,
      bind_eq_ok.mpr ⟨top, htop, bind_eq_ok.mpr ⟨bottom, hbottom, rfl⟩⟩⟩⟩⟩⟩⟩⟩⟩
  · obtain ⟨_, _, _, _, -, -, h⟩ := hparts part hpart
    exact ⟨h.N, h.C⟩
  · obtain ⟨_, _, _, _, hY, hX, h⟩ := hparts part hpart
    rw [h.offset.1, h.offset.2, h.size.1, h.size.2, hsizes.1, hsizes.2]
    exact ⟨hY, hX⟩
  · intro y hy x hx
    rw [hsizes.1] at hy
    rw [hsizes.2] at hx
    simp only [parts, List.countP_cons, List.countP_nil, decide_eq_true_eq, pcenter.covers_iff,
      ptopLeft.covers_iff, ptopRight.covers_iff, pbottomRight.covers_iff, pbottomLeft.covers_iff,
      pleft.covers_iff, pright.covers_iff, ptop.covers_iff, pbottom.covers_iff]
    exact nine_once (bands_once hH hy) (bands_once hW hx)
  · obtain ⟨_, _, _, _, -, -, h⟩ := hparts part hpart
    exact h.values n c hy hx

end Preserves

section Fails

open AveragePoolRewriter

variable {kernelSize : Dims2D} {roundingType : RoundingType} {H W height width : ℕ}
  {input : Tensor ℚ}

/-- One value is not zero. -/
def onePlace (H W y x : ℕ) : Tensor ℚ := ⟨1, 1, H, W, fun _ _ i j => if i = y ∧ j = x then 1 else 0⟩

theorem average_onePlace {y x y' x' : ℕ}
    (h : (y, x) ∈ (paddedPool kernelSize roundingType none).places H W y' x') :
    (paddedPool kernelSize roundingType none).average (onePlace H W y x) 0 0 y' x' ≠ 0 := by
  have hcard : (((paddedPool kernelSize roundingType none).places H W y' x').card : ℚ) ≠ 0 :=
    Nat.cast_ne_zero.mpr (card_ne_zero_of_mem h)
  have hsum : ∑ i ∈ (paddedPool kernelSize roundingType none).places H W y' x',
      (onePlace H W y x).get 0 0 i.1 i.2 = 1 := by
    rw [sum_eq_single_of_mem _ h]
    · exact if_pos ⟨rfl, rfl⟩
    · intro i _ hne
      exact if_neg fun heq => hne (Prod.ext heq.1 heq.2)
  change (∑ i ∈ AvgPoolOp.places _ H W y' x', _) / _ ≠ _
  rw [hsum]
  exact one_div_ne_zero hcard

theorem matchAndRewrite_corners {parts : List Part}
    (h : matchAndRewrite (paddedPool kernelSize roundingType none) input height width = .ok parts) :
    (kernelSize.Y ≤ input.H ∧ kernelSize.X ≤ input.W) ∧
      (∃ t, createSubAvgPool (paddedPool kernelSize roundingType none) input 0
        (width - (kernelSize.X - 1 : ℕ)) (kernelSize.Y - 1 : ℕ) width
        ⟨kernelSize.Y - 1, kernelSize.X - 1⟩ ⟨1, 1⟩ = .ok t ∧ ⟨0, width - 1, t⟩ ∈ parts) ∧
      ∃ t, createSubAvgPool (paddedPool kernelSize roundingType none) input
        (height - (kernelSize.Y - 1 : ℕ)) 0 height (kernelSize.X - 1 : ℕ)
        ⟨kernelSize.Y - 1, kernelSize.X - 1⟩ ⟨1, 1⟩ = .ok t ∧ ⟨height - 1, 0, t⟩ ∈ parts := by
  obtain ⟨center, hcenter, h⟩ := bind_eq_ok.mp h
  obtain ⟨topLeft, -, h⟩ := bind_eq_ok.mp h
  obtain ⟨topRight, htopRight, h⟩ := bind_eq_ok.mp h
  obtain ⟨bottomRight, -, h⟩ := bind_eq_ok.mp h
  obtain ⟨bottomLeft, hbottomLeft, h⟩ := bind_eq_ok.mp h
  obtain ⟨left, -, h⟩ := bind_eq_ok.mp h
  obtain ⟨right, -, h⟩ := bind_eq_ok.mp h
  obtain ⟨top, -, h⟩ := bind_eq_ok.mp h
  obtain ⟨bottom, -, h⟩ := bind_eq_ok.mp h
  obtain rfl := Except.ok.inj h
  obtain ⟨H', W', hH, hW, -⟩ := AvgPoolOp.eval_eq_ok.mp hcenter
  exact ⟨⟨(inferPoolDim_unit.mp hH).2.1, (inferPoolDim_unit.mp hW).2.1⟩,
    ⟨topRight, htopRight, by simp⟩, ⟨bottomLeft, hbottomLeft, by simp⟩⟩

theorem subAvgPool_onePlace {beginY beginX endY endX : ℤ} {kernel : Dims2D} {y x : ℕ} {t : Tensor ℚ}
    (hslice : (y < sliceBound H beginY ∨ sliceBound H endY ≤ y) ∨
      x < sliceBound W beginX ∨ sliceBound W endX ≤ x)
    (h : createSubAvgPool (paddedPool kernelSize roundingType none) (onePlace H W y x) beginY beginX
      endY
      endX kernel ⟨1, 1⟩ = .ok t) : (0 < t.H ∧ 0 < t.W) ∧ t.get 0 0 0 0 = 0 := by
  obtain ⟨H', W', hH, hW, rfl⟩ := AvgPoolOp.eval_eq_ok.mp h
  have hH' := inferPoolDim_unit.mp hH
  have hW' := inferPoolDim_unit.mp hW
  refine ⟨⟨by simp only at hH' ⊢; omega, by simp only at hW' ⊢; omega⟩, ?_⟩
  apply div_eq_zero_iff.mpr
  left
  apply sum_eq_zero
  intro i hi
  apply if_neg
  obtain ⟨hi1, hi2⟩ := mem_windowPlane.mp hi
  have hiY : i.1 < sliceBound H endY - sliceBound H beginY := (mem_window.mp hi1).1
  have hiX : i.2 < sliceBound W endX - sliceBound W beginX := (mem_window.mp hi2).1
  rintro ⟨hy, hx⟩
  change sliceBound H beginY + i.1 = y at hy
  change sliceBound W beginX + i.2 = x at hx
  omega

theorem AveragePoolRewriter.PreservesAverages.onePlace
    (h : PreservesAverages kernelSize roundingType H W)
    (hY : 2 ≤ kernelSize.Y ∧ kernelSize.Y ≤ H + 2) (hX : 2 ≤ kernelSize.X ∧ kernelSize.X ≤ W + 2)
    (y x : ℕ) : ∃ parts, matchAndRewrite (paddedPool kernelSize roundingType none)
      (onePlace H W y x) (H + 3 - kernelSize.Y) (W + 3 - kernelSize.X) = .ok parts ∧
      ∀ part ∈ parts, 0 < part.tensor.H ∧ 0 < part.tensor.W → part.tensor.get 0 0 0 0 =
        (paddedPool kernelSize roundingType none).average (IE.onePlace H W y x) 0 0 part.offsetY
          part.offsetX := by
  obtain ⟨parts, hparts, hassembles⟩ := h none 1 1 (IE.onePlace H W y x).get
    ⟨1, 1, H + 3 - kernelSize.Y, W + 3 - kernelSize.X,
      (paddedPool kernelSize roundingType none).average (IE.onePlace H W y x)⟩
    (AvgPoolOp.eval_eq_ok.mpr ⟨_, _, inferPoolDim_unit.mpr (by simp only; omega),
      inferPoolDim_unit.mpr (by simp only; omega), rfl⟩)
  refine ⟨parts, hparts, fun part hpart hpos => ?_⟩
  exact hassembles.values part hpart 0 Nat.one_pos 0 Nat.one_pos 0 hpos.1 0 hpos.2

variable {size kernel : ℕ}

section

variable (hkernel : 2 ≤ kernel) (h : kernel ≤ size)
include hkernel h

theorem last_mem_window :
    size - 1 ∈ window size 1 kernel ((size + 3 - kernel - 1) * 1) := by
  rw [mem_window]
  omega

theorem first_mem_window :
    0 ∈ window size 1 kernel (0 * 1) := by
  rw [mem_window]
  omega

theorem last_notMem_slice (hne : kernel ≠ 3) :
    size - 1 < sliceBound size ((size + 3 - kernel : ℕ) - (kernel - 1 : ℕ)) ∨
      sliceBound size (size + 3 - kernel : ℕ) ≤ size - 1 := by
  rw [sliceBound_natCast]
  by_cases htwo : kernel = 2
  · rw [htwo, sliceBound]
    split_ifs <;> omega
  · omega

end

theorem AveragePoolRewriter.PreservesAverages.kernelSize_eq
    (h : PreservesAverages kernelSize roundingType H W)
    (hY : 2 ≤ kernelSize.Y ∧ kernelSize.Y ≤ H + 2) (hX : 2 ≤ kernelSize.X ∧ kernelSize.X ≤ W + 2) :
    (kernelSize.Y ≤ H ∧ kernelSize.X ≤ W) ∧ kernelSize.Y = 3 ∧ kernelSize.X = 3 := by
  obtain ⟨parts, hparts, hvalues⟩ := h.onePlace hY hX 0 (W - 1)
  obtain ⟨parts', hparts', hvalues'⟩ := h.onePlace hY hX (H - 1) 0
  obtain ⟨⟨hfitsY, hfitsX⟩, ⟨topRight, htopRight, hmem⟩, -⟩ := matchAndRewrite_corners hparts
  obtain ⟨-, -, bottomLeft, hbottomLeft, hmem'⟩ := matchAndRewrite_corners hparts'
  refine ⟨⟨hfitsY, hfitsX⟩, ?_, ?_⟩
  · by_contra hne
    obtain ⟨hpos, hzero⟩ := subAvgPool_onePlace (Or.inl (last_notMem_slice hY.1 hfitsY hne))
        hbottomLeft
    have haverage := hvalues' _ hmem' hpos
    rw [hzero] at haverage
    apply average_onePlace _ haverage.symm
    exact mem_windowPlane.mpr ⟨last_mem_window hY.1 hfitsY, first_mem_window hX.1 hfitsX⟩
  · by_contra hne
    obtain ⟨hpos, hzero⟩ := subAvgPool_onePlace (Or.inr (last_notMem_slice hX.1 hfitsX hne))
        htopRight
    have haverage := hvalues _ hmem hpos
    rw [hzero] at haverage
    apply average_onePlace _ haverage.symm
    exact mem_windowPlane.mpr ⟨first_mem_window hY.1 hfitsY, last_mem_window hX.1 hfitsX⟩

/-- Only a kernel of three by three places, on an input that is no smaller, keeps its averages. -/
theorem preservesAverages_iff (kernelSize : Dims2D) (roundingType : RoundingType) (H W : ℕ)
    (hY : 2 ≤ kernelSize.Y ∧ kernelSize.Y ≤ H + 2) (hX : 2 ≤ kernelSize.X ∧ kernelSize.X ≤ W + 2) :
    PreservesAverages kernelSize roundingType H W ↔ kernelSize = ⟨3, 3⟩ ∧ 3 ≤ H ∧ 3 ≤ W := by
  constructor
  · intro h
    obtain ⟨⟨hfitsY, hfitsX⟩, hthreeY, hthreeX⟩ := h.kernelSize_eq hY hX
    rw [hthreeY] at hfitsY
    rw [hthreeX] at hfitsX
    exact ⟨congrArg₂ Dims2D.mk hthreeY hthreeX, hfitsY, hfitsX⟩
  · rintro ⟨rfl, hH, hW⟩
    exact preservesAverages_three roundingType hH hW

theorem preservesAverages_iff_examples :
    (PreservesAverages ⟨3, 3⟩ .FLOOR 8 8 ↔ (⟨3, 3⟩ : Dims2D) = ⟨3, 3⟩ ∧ 3 ≤ 8 ∧ 3 ≤ 8) ∧
      (PreservesAverages ⟨2, 5⟩ .CEIL 4 3 ↔ (⟨2, 5⟩ : Dims2D) = ⟨3, 3⟩ ∧ 3 ≤ 4 ∧ 3 ≤ 3) :=
  ⟨preservesAverages_iff ⟨3, 3⟩ .FLOOR 8 8 (by decide) (by decide),
    preservesAverages_iff ⟨2, 5⟩ .CEIL 4 3 (by decide) (by decide)⟩

/-- A pool of four by four places on eight by eight values. -/
theorem not_preservesAverages : ¬PreservesAverages ⟨4, 4⟩ .FLOOR 8 8 := by
  intro h
  have hkernelSize := (h.kernelSize_eq (by decide) (by decide)).2.1
  contradiction

end Fails

end Vpux.IE
