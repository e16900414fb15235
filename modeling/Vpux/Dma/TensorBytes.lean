import Vpux.Dma.SpaceToDepth

/-! The bytes of a tensor, element by element. -/
namespace Vpux.Dma
open Data Vpux.Const

/-- Byte `e` of the element at a coordinate. -/
@[ext]
structure TensorByte where
  point : List ℕ
  e : ℕ

structure InTensor (type : NDType) (elemTypeSize : ℕ) (x : TensorByte) : Prop where
  point : InBox type.shape x.point
  e : x.e < elemTypeSize

section Bytes

variable {type : NDType} {elemTypeSize : ℕ} {x y : TensorByte}

theorem byteAddress_lt_size (hx : InTensor type elemTypeSize x) :
    byteAddress type elemTypeSize x.point x.e < type.getNumElements * elemTypeSize :=
  digits_lt (NDType.memIndex_lt hx.point) hx.e

theorem byteAddress_inj (hx : InTensor type elemTypeSize x) (hy : InTensor type elemTypeSize y)
    (h : byteAddress type elemTypeSize x.point x.e = byteAddress type elemTypeSize y.point y.e) :
    x = y := by
  obtain ⟨hindex, he⟩ := digits_injective hx.e hy.e h
  exact TensorByte.ext (NDType.memIndex_injective hx.point hy.point hindex) he

theorem exists_tensorByte {d : ℕ} (hd : d < type.getNumElements * elemTypeSize) :
    ∃ x, InTensor type elemTypeSize x ∧ byteAddress type elemTypeSize x.point x.e = d := by
  obtain ⟨n, hn, e, he, rfl⟩ := exists_digits hd
  obtain ⟨point, hpoint, rfl⟩ := NDType.exists_memIndex type hn
  exact ⟨⟨point, e⟩, ⟨hpoint, he⟩, rfl⟩

end Bytes

/-- The sizes in memory above an axis and below it. -/
def sizeAbove (type : NDType) (axis : ℕ) : ℕ :=
  (type.getMemShape.take (type.dimsOrder.dimPos axis)).prod

def sizeBelow (type : NDType) (axis : ℕ) : ℕ :=
  (type.getMemShape.drop (type.dimsOrder.dimPos axis + 1)).prod

section Axis

variable {type type' : NDType} {axis size elemTypeSize : ℕ} {x : TensorByte}

section

variable (haxis : axis < type.shape.length)
include haxis

theorem getMemShape_set (hshape : type'.shape = type.shape.set axis size)
    (horder : type'.dimsOrder = type.dimsOrder) :
    type'.getMemShape = type.getMemShape.set (type.dimsOrder.dimPos axis) size := by
  rw [NDType.getMemShape, horder, hshape,
    DimsOrder.memoryOrder_set type.numDims_eq.symm (type.numDims_eq.symm ▸ haxis)]
  rfl

theorem dimPos_lt_memShape : type.dimsOrder.dimPos axis < type.getMemShape.length := by
  rw [NDType.getMemShape, DimsOrder.length_memoryOrder]
  exact DimsOrder.dimPos_lt (type.numDims_eq.symm ▸ haxis)

variable (hshape : type'.shape = type.shape.set axis size)
  (horder : type'.dimsOrder = type.dimsOrder)
include hshape horder

theorem sizes_set :
    sizeAbove type' axis = sizeAbove type axis ∧ sizeBelow type' axis = sizeBelow type axis := by
  unfold sizeAbove sizeBelow
  rw [getMemShape_set haxis hshape horder, horder, List.take_set_of_le le_rfl,
    List.drop_set_of_lt (Nat.lt_succ_self _)]
  exact ⟨rfl, rfl⟩

theorem getNumElements_set :
    type'.getNumElements = sizeAbove type axis * size * sizeBelow type axis := by
  rw [← type'.prod_getMemShape, getMemShape_set haxis hshape horder, List.prod_set,
    if_pos (dimPos_lt_memShape haxis)]
  rfl

end

theorem set_getD_self (values : List ℕ) (axis : ℕ) :
    values.set axis (values.getD axis 0) = values := by
  by_cases haxis : axis < values.length
  · rw [List.getD_eq_getElem _ _ haxis, List.set_getElem_self]
  · exact List.set_eq_of_length_le (Nat.le_of_not_lt haxis)

theorem InTensor.enlarge (hx : InTensor type elemTypeSize x)
    (hshape : type'.shape = type.shape.set axis size) (hle : type.shape.getD axis 0 ≤ size) :
    InTensor type' elemTypeSize x := by
  refine ⟨?_, hx.e⟩
  rw [hshape]
  refine inBox_of_getElem (by rw [List.length_set, hx.point.length_eq]) fun d hd hd' => ?_
  rw [List.length_set] at hd'
  have hlt := hx.point.getElem_lt hd hd'
  rw [List.getElem_set]
  split_ifs with hd
  · subst hd
    rw [List.getD_eq_getElem _ _ hd'] at hle
    exact hlt.trans_le hle
  · exact hlt

theorem byteAddress_set (haxis : axis < type.shape.length) (hx : InTensor type elemTypeSize x) :
    ∃ l r, l < sizeAbove type axis ∧ r < sizeBelow type axis ∧
      x.point.getD axis 0 < type.shape.getD axis 0 ∧
      ∀ (type' : NDType) (size v : ℕ), type'.shape = type.shape.set axis size →
        type'.dimsOrder = type.dimsOrder →
          byteAddress type' elemTypeSize (x.point.set axis v) x.e =
            ((l * size + v) * sizeBelow type axis + r) * elemTypeSize + x.e := by
  have hpos := dimPos_lt_memShape haxis
  have hbox := DimsOrder.inBox_memoryOrder hx.point type.numDims_eq.symm
  refine ⟨rowMajor (type.getMemShape.take (type.dimsOrder.dimPos axis))
      ((type.dimsOrder.memoryOrder x.point).take (type.dimsOrder.dimPos axis)),
    rowMajor (type.getMemShape.drop (type.dimsOrder.dimPos axis + 1))
      ((type.dimsOrder.memoryOrder x.point).drop (type.dimsOrder.dimPos axis + 1)),
    rowMajor_lt (List.forall₂_take _ hbox), rowMajor_lt (List.forall₂_drop _ hbox), ?_, ?_⟩
  · have hpoint : axis < x.point.length := hx.point.length_eq ▸ haxis
    have hlt := hx.point.getElem_lt hpoint haxis
    rwa [← List.getD_eq_getElem _ 0 hpoint, ← List.getD_eq_getElem _ 0 haxis] at hlt
  · intro type' size v hshape horder
    rw [byteAddress, horder]
    have hmem := getMemShape_set haxis hshape horder
    rw [NDType.getMemShape, horder] at hmem
    rw [hmem, DimsOrder.memoryOrder_set (hx.point.length_eq.trans type.numDims_eq.symm)
      (type.numDims_eq.symm ▸ haxis), rowMajor_set hpos (hbox.length_eq)]
    rfl

end Axis

section Batch

variable {type : NDType} {N C H W : ℕ} (hshape : type.shape = [N, C, H, W])
include hshape

theorem byteAddress_batch_NCHW (horder : type.dimsOrder = NCHW) (elemTypeSize n c h w e : ℕ) :
    byteAddress type elemTypeSize [n, c, h, w] e =
      (((n * C + c) * H + h) * W + w) * elemTypeSize + e := by
  rw [byteAddress, horder, hshape]
  change rowMajor [N, C, H, W] [n, c, h, w] * elemTypeSize + e = _
  simp only [rowMajor, List.prod_cons, List.prod_nil]
  ring

theorem byteAddress_batch_NHWC (horder : type.dimsOrder = NHWC) (elemTypeSize n c h w e : ℕ) :
    byteAddress type elemTypeSize [n, c, h, w] e =
      (((n * H + h) * W + w) * C + c) * elemTypeSize + e := by
  rw [byteAddress, horder, hshape]
  change rowMajor [N, H, W, C] [n, h, w, c] * elemTypeSize + e = _
  simp only [rowMajor, List.prod_cons, List.prod_nil]
  ring

end Batch

-- The bytes of a tensor whose rows and columns are cut into blocks.

/-- Byte `e` of the element of channel `c` at row `i` and column `j` of block `(h, w)`. -/
@[ext]
structure BlockPoint where
  c : ℕ
  i : ℕ
  j : ℕ
  h : ℕ
  w : ℕ
  e : ℕ

structure InBlocks (C b H W elemTypeSize : ℕ) (x : BlockPoint) : Prop where
  c : x.c < C
  i : x.i < b
  j : x.j < b
  h : x.h < H
  w : x.w < W
  e : x.e < elemTypeSize

/-- The channel that takes the elements of channel `c` at row `i` and column `j` of the blocks. -/
def deepChannel (mode : BlockMode) (b C c i j : ℕ) : ℕ :=
  match mode with
  | .BLOCKS_FIRST => (i * b + j) * C + c
  | .DEPTH_FIRST => c * b * b + i * b + j

section Channel

variable {mode : BlockMode} {b C c i j c' i' j' : ℕ}

theorem deepChannel_lt (hc : c < C) (hi : i < b) (hj : j < b) :
    deepChannel mode b C c i j < C * (b * b) := by
  cases mode with
  | BLOCKS_FIRST => exact mul_comm C (b * b) ▸ digits_lt (digits_lt hi hj) hc
  | DEPTH_FIRST =>
    have hlt := digits_lt hc (digits_lt hi hj)
    rwa [← mul_assoc, ← add_assoc] at hlt

theorem deepChannel_injective (hc : c < C) (hi : i < b) (hj : j < b) (hc' : c' < C) (hi' : i' < b)
    (hj' : j' < b) (h : deepChannel mode b C c i j = deepChannel mode b C c' i' j') :
    c = c' ∧ i = i' ∧ j = j' := by
  cases mode with
  | BLOCKS_FIRST =>
    obtain ⟨hblock, hc⟩ := digits_injective hc hc' h
    exact ⟨hc, digits_injective hj hj' hblock⟩
  | DEPTH_FIRST =>
    unfold deepChannel at h
    simp only [mul_assoc, add_assoc] at h
    obtain ⟨hc, hblock⟩ := digits_injective (digits_lt hi hj) (digits_lt hi' hj') h
    exact ⟨hc, digits_injective hj hj' hblock⟩

theorem exists_deepChannel (mode : BlockMode) {k : ℕ} (h : k < C * (b * b)) :
    ∃ c < C, ∃ i < b, ∃ j < b, k = deepChannel mode b C c i j := by
  cases mode with
  | BLOCKS_FIRST =>
    obtain ⟨r, hr, c, hc, rfl⟩ := exists_digits (mul_comm C (b * b) ▸ h)
    obtain ⟨i, hi, j, hj, rfl⟩ := exists_digits hr
    exact ⟨c, hc, i, hi, j, hj, rfl⟩
  | DEPTH_FIRST =>
    obtain ⟨c, hc, r, hr, rfl⟩ := exists_digits h
    obtain ⟨i, hi, j, hj, rfl⟩ := exists_digits hr
    refine ⟨c, hc, i, hi, j, hj, ?_⟩
    rw [deepChannel, mul_assoc, add_assoc]

end Channel

section Address

variable {type : NDType} {C H W : ℕ} (hshape : type.shape = [1, C, H, W])
include hshape

theorem byteAddress_NCHW (horder : type.dimsOrder = NCHW) (elemTypeSize c h w e : ℕ) :
    byteAddress type elemTypeSize [0, c, h, w] e = ((c * H + h) * W + w) * elemTypeSize + e := by
  rw [byteAddress, horder, hshape]
  change rowMajor [1, C, H, W] [0, c, h, w] * elemTypeSize + e = _
  simp only [rowMajor, List.prod_cons, List.prod_nil]
  ring

theorem byteAddress_NHWC (horder : type.dimsOrder = NHWC) (elemTypeSize c h w e : ℕ) :
    byteAddress type elemTypeSize [0, c, h, w] e = ((h * W + w) * C + c) * elemTypeSize + e := by
  rw [byteAddress, horder, hshape]
  change rowMajor [1, H, W, C] [0, h, w, c] * elemTypeSize + e = _
  simp only [rowMajor, List.prod_cons, List.prod_nil]
  ring

variable {elemTypeSize c h w e c' h' w' e' : ℕ}

variable (horder : type.dimsOrder = NCHW ∨ type.dimsOrder = NHWC)
include horder

theorem byteAddress_lt (hc : c < C) (hh : h < H) (hw : w < W) (he : e < elemTypeSize) :
    byteAddress type elemTypeSize [0, c, h, w] e < C * H * W * elemTypeSize := by
  rcases horder with horder | horder
  · rw [byteAddress_NCHW hshape horder]
    exact digits_lt (digits_lt (digits_lt hc hh) hw) he
  · rw [byteAddress_NHWC hshape horder, mul_assoc C, mul_comm C]
    exact digits_lt (digits_lt (digits_lt hh hw) hc) he

theorem byteAddress_injective (hc : c < C) (hh : h < H) (hw : w < W) (he : e < elemTypeSize)
    (hc' : c' < C) (hh' : h' < H) (hw' : w' < W) (he' : e' < elemTypeSize)
    (heq : byteAddress type elemTypeSize [0, c, h, w] e =
      byteAddress type elemTypeSize [0, c', h', w'] e') :
    c = c' ∧ h = h' ∧ w = w' ∧ e = e' := by
  rcases horder with horder | horder
  · rw [byteAddress_NCHW hshape horder, byteAddress_NCHW hshape horder] at heq
    obtain ⟨hrest, he⟩ := digits_injective he he' heq
    obtain ⟨hrest, hw⟩ := digits_injective hw hw' hrest
    obtain ⟨hc, hh⟩ := digits_injective hh hh' hrest
    exact ⟨hc, hh, hw, he⟩
  · rw [byteAddress_NHWC hshape horder, byteAddress_NHWC hshape horder] at heq
    obtain ⟨hrest, he⟩ := digits_injective he he' heq
    obtain ⟨hrest, hc⟩ := digits_injective hc hc' hrest
    obtain ⟨hh, hw⟩ := digits_injective hw hw' hrest
    exact ⟨hc, hh, hw, he⟩

theorem exists_byteAddress {d : ℕ} (hd : d < C * H * W * elemTypeSize) :
    ∃ c < C, ∃ h < H, ∃ w < W, ∃ e < elemTypeSize,
      d = byteAddress type elemTypeSize [0, c, h, w] e := by
  rcases horder with horder | horder
  · obtain ⟨n, hn, e, he, rfl⟩ := exists_digits hd
    obtain ⟨r, hr, w, hw, rfl⟩ := exists_digits hn
    obtain ⟨c, hc, h, hh, rfl⟩ := exists_digits hr
    exact ⟨c, hc, h, hh, w, hw, e, he, (byteAddress_NCHW hshape horder ..).symm⟩
  · rw [mul_assoc C, mul_comm C] at hd
    obtain ⟨n, hn, e, he, rfl⟩ := exists_digits hd
    obtain ⟨r, hr, c, hc, rfl⟩ := exists_digits hn
    obtain ⟨h, hh, w, hw, rfl⟩ := exists_digits hr
    exact ⟨c, hc, h, hh, w, hw, e, he, (byteAddress_NHWC hshape horder ..).symm⟩

end Address

end Vpux.Dma
