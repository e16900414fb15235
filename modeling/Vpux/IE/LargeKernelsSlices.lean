import Vpux.IE.DilatedTaps
import Vpux.IE.LargeKernels

/-! The slices of a large filter and of the extended activation, and what their convolutions
compute. -/
namespace Vpux.IE.ConvRewriter
open Finset Vpux.Const Data
open Tensor (Extends)

section FilterSlices

variable {K i : ℕ}

theorem numSlices_spec (K : ℕ) :
    K ≤ numSlices K * MAX_KERNEL_SIZE ∧ numSlices K * MAX_KERNEL_SIZE < K + MAX_KERNEL_SIZE := by
  simp only [numSlices, alignTo, MAX_KERNEL_SIZE]
  omega

theorem windowSize_spec (hi : i < numSlices K) :
    0 < windowSize K MAX_KERNEL_SIZE i ∧ windowSize K MAX_KERNEL_SIZE i ≤ MAX_KERNEL_SIZE ∧
      i * MAX_KERNEL_SIZE + windowSize K MAX_KERNEL_SIZE i ≤ K := by
  have hspec := numSlices_spec K
  simp only [windowSize, MAX_KERNEL_SIZE] at *
  omega

theorem slicedSize_eq (hi : i < numSlices K) :
    slicedSize K (numSlices K) MAX_KERNEL_SIZE i = (windowSize K MAX_KERNEL_SIZE i : ℕ) := by
  have hspec := numSlices_spec K
  simp only [slicedSize, windowSize, MAX_KERNEL_SIZE] at *
  split_ifs
  · omega
  · omega

theorem mem_sliceIndices {numXSlices numYSlices j : ℕ} :
    (j, i) ∈ sliceIndices numXSlices numYSlices ↔ j < numYSlices ∧ i < numXSlices := by
  simp [sliceIndices]

theorem filterSlice_eq {KX KY j : ℕ} (hj : j < numSlices KY) (hi : i < numSlices KX) :
    filterSlice KX KY (numSlices KX) (numSlices KY) MAX_KERNEL_SIZE j i =
      ⟨j * MAX_KERNEL_SIZE, i * MAX_KERNEL_SIZE, (windowSize KY MAX_KERNEL_SIZE j : ℕ),
        (windowSize KX MAX_KERNEL_SIZE i : ℕ)⟩ := by
  rw [filterSlice, slicedSize_eq hj, slicedSize_eq hi]

variable {α : Type}

/-- The part of the filter in the windows `j` and `i`. -/
def slicedFilter (filter : Tensor α) (j i : ℕ) : Tensor α :=
  filter.crop (j * MAX_KERNEL_SIZE) (i * MAX_KERNEL_SIZE) (windowSize filter.H MAX_KERNEL_SIZE j)
    (windowSize filter.W MAX_KERNEL_SIZE i)

/-- The parts of the filter, in the order of the passes. -/
def InOrder (filter : Tensor α) (slicedFilters : List (Tensor α)) : Prop :=
  ∀ j < numSlices filter.H, ∀ i < numSlices filter.W,
    slicedFilters[j * numSlices filter.W + i]? = some (slicedFilter filter j i)

theorem sliceFilter_ok (filter : Tensor α) : ∃ slicedFilters,
    sliceFilter filter (numSlices filter.W) (numSlices filter.H) MAX_KERNEL_SIZE =
      .ok slicedFilters ∧ InOrder filter slicedFilters := by
  have hslices : ∀ j < numSlices filter.H, ∀ i < numSlices filter.W, sliceOp filter (filterSlice
      filter.W filter.H (numSlices filter.W) (numSlices filter.H) MAX_KERNEL_SIZE j i) =
        .ok (slicedFilter filter j i) := by
    intro j hj i hi
    have hwindowY := windowSize_spec hj
    have hwindowX := windowSize_spec hi
    rw [filterSlice_eq hj hi, sliceOp_eq_ok]
    refine ⟨?_, rfl⟩
    simp only [Slice.Fits]
    omega
  refine ⟨(sliceIndices (numSlices filter.W) (numSlices filter.H)).map
    fun p => slicedFilter filter p.1 p.2, ?_, ?_⟩
  · rw [sliceFilter, filterSlices, List.mapM_map]
    apply mapM_ok
    rintro ⟨j, i⟩ hp
    obtain ⟨hj, hi⟩ := mem_sliceIndices.mp hp
    exact hslices j hj i hi
  · intro j hj i hi
    rw [List.getElem?_map, sliceIndices, getElem?_flatMap_range (by simp) hj hi, List.getElem?_map,
      List.getElem?_range hi]
    rfl

theorem filterSlices_getElem? {filter : Tensor α} {index : ℕ} {slice : Slice} :
    (filterSlices filter (numSlices filter.W) (numSlices filter.H) MAX_KERNEL_SIZE)[index]? =
      some slice ↔ ∃ j < numSlices filter.H, ∃ i < numSlices filter.W,
        index = j * numSlices filter.W + i ∧
        slice = ⟨j * MAX_KERNEL_SIZE, i * MAX_KERNEL_SIZE,
          (windowSize filter.H MAX_KERNEL_SIZE j : ℕ),
          (windowSize filter.W MAX_KERNEL_SIZE i : ℕ)⟩ := by
  have hget : ∀ j < numSlices filter.H, ∀ i < numSlices filter.W,
      (filterSlices filter (numSlices filter.W) (numSlices filter.H)
        MAX_KERNEL_SIZE)[j * numSlices filter.W + i]? = some ⟨j * MAX_KERNEL_SIZE,
          i * MAX_KERNEL_SIZE, (windowSize filter.H MAX_KERNEL_SIZE j : ℕ),
          (windowSize filter.W MAX_KERNEL_SIZE i : ℕ)⟩ := by
    intro j hj i hi
    rw [filterSlices, List.getElem?_map, sliceIndices, getElem?_flatMap_range (by simp) hj hi,
      List.getElem?_map, List.getElem?_range hi, ← filterSlice_eq hj hi]
    rfl
  constructor
  · intro h
    obtain ⟨hlt, -⟩ := List.getElem?_eq_some_iff.mp h
    have hlength : (filterSlices filter (numSlices filter.W) (numSlices filter.H)
        MAX_KERNEL_SIZE).length = numSlices filter.H * numSlices filter.W := by
      simp [filterSlices, sliceIndices, List.length_flatMap]
    rw [hlength] at hlt
    have hpos : 0 < numSlices filter.W := Nat.pos_of_lt_mul_left hlt
    have hj : index / numSlices filter.W < numSlices filter.H :=
      Nat.div_lt_of_lt_mul (Nat.mul_comm _ _ ▸ hlt)
    have hi := Nat.mod_lt index hpos
    have hindex := Nat.div_add_mod' index (numSlices filter.W)
    refine ⟨_, hj, _, hi, hindex.symm, ?_⟩
    have hslice := hget _ hj _ hi
    rw [hindex, h] at hslice
    exact Option.some.inj hslice
  · rintro ⟨j, hj, i, hi, rfl, rfl⟩
    exact hget j hj i hi

theorem filterSlices_partition (filter : Tensor α) {y x : ℕ} (hy : y < filter.H)
    (hx : x < filter.W) : ∃! index : ℕ, ∃ slice : Slice,
      (filterSlices filter (numSlices filter.W) (numSlices filter.H) MAX_KERNEL_SIZE)[index]? =
        some slice ∧ slice.Holds y x := by
  have hwindow : ∀ {j i : ℕ}, (⟨j * MAX_KERNEL_SIZE, i * MAX_KERNEL_SIZE,
      (windowSize filter.H MAX_KERNEL_SIZE j : ℕ),
      (windowSize filter.W MAX_KERNEL_SIZE i : ℕ)⟩ : Slice).Holds y x ↔
        j = y / MAX_KERNEL_SIZE ∧ i = x / MAX_KERNEL_SIZE := by
    intro j i
    have hpos : 0 < MAX_KERNEL_SIZE := by decide
    have hY : (j * MAX_KERNEL_SIZE ≤ y ∧
        y < j * MAX_KERNEL_SIZE + windowSize filter.H MAX_KERNEL_SIZE j) ↔ _ := window_unique hpos
    have hX : (i * MAX_KERNEL_SIZE ≤ x ∧
        x < i * MAX_KERNEL_SIZE + windowSize filter.W MAX_KERNEL_SIZE i) ↔ _ := window_unique hpos
    simp only [Slice.Holds]
    omega
  have hrows := numSlices_spec filter.H
  have hcolumns := numSlices_spec filter.W
  have hj : y / MAX_KERNEL_SIZE < numSlices filter.H := by
    simp only [MAX_KERNEL_SIZE] at *
    omega
  have hi : x / MAX_KERNEL_SIZE < numSlices filter.W := by
    simp only [MAX_KERNEL_SIZE] at *
    omega
  refine ⟨y / MAX_KERNEL_SIZE * numSlices filter.W + x / MAX_KERNEL_SIZE, ⟨_,
    filterSlices_getElem?.mpr ⟨_, hj, _, hi, rfl, rfl⟩, hwindow.mpr ⟨rfl, rfl⟩⟩, ?_⟩
  rintro index ⟨slice, hslice, hholds⟩
  obtain ⟨j, -, i, -, rfl, rfl⟩ := filterSlices_getElem?.mp hslice
  obtain ⟨rfl, rfl⟩ := hwindow.mp hholds
  rfl

end FilterSlices

section ExtendedActivation

variable {α : Type} [Semiring α] {origOp : OrigOp α}

/-- The zeros are needed for no pad, or can be made. -/
def CanExtend (origOp : OrigOp α) : Prop :=
  origOp.padsBegin = ⟨0, 0⟩ ∧ origOp.padsEnd = ⟨0, 0⟩ ∨ ZerosAllowed origOp.elemType

/-- The size of a dimension of the extended activation. -/
def extendedSize (size begin end' : ℕ) : ℕ := begin + size + if 0 < end' then begin else 0

variable {N C H W : ℕ}

theorem getZerosConst_eq_ok {t : Tensor α} :
    getZerosConst N C H W origOp = .ok t ↔
      ZerosAllowed origOp.elemType ∧ Tensor.fill N C H W 0 = t :=
  createZeros_eq_ok

/-- One addition of zeros, made when there is a pad. -/
def extendOn (pad : ℕ) (constZeros : Except Fault (Tensor α))
    (concat : Tensor α → Except Fault (Tensor α)) (activation : Tensor α) :
    Except Fault (Tensor α) :=
  if 0 < pad then constZeros >>= concat else pure activation

theorem getExtendedActivation_eq : getExtendedActivation origOp = (do
    let activation := origOp.input
    let padStart := origOp.padsBegin
    let padEnd := origOp.padsEnd
    let zerosW := getZerosConst activation.N activation.C activation.H padStart.X origOp
    let withLeft ← extendOn padStart.X zerosW (fun zeros => concatW zeros activation) activation
    let tempActivation ← extendOn padEnd.X zerosW (concatW withLeft) withLeft
    let zerosH := getZerosConst activation.N activation.C padStart.Y tempActivation.W origOp
    let withTop ← extendOn padStart.Y zerosH (fun zeros => concatH zeros tempActivation)
      tempActivation
    extendOn padEnd.Y zerosH (concatH withTop) withTop) := by
  simp only [getExtendedActivation, extendOn]
  split_ifs <;> simp

section ExtendOn

variable {input t : Tensor α} {top left height width pad : ℕ}
  {concat : Tensor α → Except Fault (Tensor α)}

theorem extendOn_zerosAllowed {u : Tensor α}
    (h : extendOn pad (getZerosConst N C H W origOp) concat t = .ok u) :
    pad = 0 ∨ ZerosAllowed origOp.elemType := by
  unfold extendOn at h
  split_ifs at h with hpad
  · obtain ⟨zeros, hzeros, -⟩ := bind_eq_ok.mp h
    exact Or.inr (getZerosConst_eq_ok.mp hzeros).1
  · exact Or.inl (by omega)

theorem extendOn_ok {u : Tensor α} (hzeros : pad = 0 ∨ ZerosAllowed origOp.elemType)
    (hconcat : concat (Tensor.fill N C H W 0) = .ok u) :
    extendOn pad (getZerosConst N C H W origOp) concat t = .ok (if 0 < pad then u else t) := by
  unfold extendOn
  split_ifs with hpad
  · have hallowed : ZerosAllowed origOp.elemType := hzeros.resolve_left (by omega)
    rw [getZerosConst_eq_ok.mpr ⟨hallowed, rfl⟩]
    exact hconcat
  · rfl

variable (hpad : pad = 0 ∨ ZerosAllowed origOp.elemType)
include hpad

theorem extendOn_left (h : Extends input top 0 height width t) : ∃ u,
    extendOn pad (getZerosConst input.N input.C height pad origOp) (fun zeros => concatW zeros t)
      t =
      .ok u ∧ Extends input top pad height (pad + width) u := by
  refine ⟨_, extendOn_ok hpad (concatW_eq_ok.mpr ⟨⟨h.N.symm, h.C.symm, h.H.symm⟩, rfl⟩), ?_⟩
  split_ifs with hpos
  · exact h.before pad
  · obtain rfl : pad = 0 := by omega
    rw [Nat.zero_add]
    exact h

theorem extendOn_right (h : Extends input top left height width t) (hwidth : left + input.W ≤ width)
    (count : ℕ) :
    ∃ u, extendOn pad (getZerosConst input.N input.C height count origOp) (concatW t) t = .ok u ∧
      Extends input top left height (width + if 0 < pad then count else 0) u := by
  refine ⟨_, extendOn_ok hpad (concatW_eq_ok.mpr ⟨⟨h.N, h.C, h.H⟩, rfl⟩), ?_⟩
  split_ifs
  · exact h.behind hwidth count
  · exact h

theorem extendOn_top (h : Extends input 0 left height width t) : ∃ u,
    extendOn pad (getZerosConst input.N input.C pad width origOp) (fun zeros => concatH zeros t) t =
      .ok u ∧ Extends input pad left (pad + height) width u := by
  refine ⟨_, extendOn_ok hpad (concatH_eq_ok.mpr ⟨⟨h.N.symm, h.C.symm, h.W.symm⟩, rfl⟩), ?_⟩
  split_ifs with hpos
  · exact h.above pad
  · obtain rfl : pad = 0 := by omega
    rw [Nat.zero_add]
    exact h

theorem extendOn_bottom (h : Extends input top left height width t)
    (hheight : top + input.H ≤ height) (count : ℕ) :
    ∃ u, extendOn pad (getZerosConst input.N input.C count width origOp) (concatH t) t = .ok u ∧
      Extends input top left (height + if 0 < pad then count else 0) width u := by
  refine ⟨_, extendOn_ok hpad (concatH_eq_ok.mpr ⟨⟨h.N, h.C, h.W⟩, rfl⟩), ?_⟩
  split_ifs
  · exact h.below hheight count
  · exact h

end ExtendOn

/-- The padded input, its end pads replaced by as many zeros as the begin pads have. -/
def ExtendsActivation (origOp : OrigOp α) (extended : Tensor α) : Prop :=
  Extends origOp.input origOp.padsBegin.Y origOp.padsBegin.X
    (extendedSize origOp.input.H origOp.padsBegin.Y origOp.padsEnd.Y)
    (extendedSize origOp.input.W origOp.padsBegin.X origOp.padsEnd.X) extended

theorem getExtendedActivation_ok (h : CanExtend origOp) :
    ∃ extended, getExtendedActivation origOp = .ok extended ∧
      ExtendsActivation origOp extended := by
  have hpads : (origOp.padsBegin.X = 0 ∨ ZerosAllowed origOp.elemType) ∧
      (origOp.padsEnd.X = 0 ∨ ZerosAllowed origOp.elemType) ∧
      (origOp.padsBegin.Y = 0 ∨ ZerosAllowed origOp.elemType) ∧
      (origOp.padsEnd.Y = 0 ∨ ZerosAllowed origOp.elemType) := by
    obtain ⟨hbegin, hend⟩ | hallowed := h
    · simp [hbegin, hend]
    · simp [hallowed]
  obtain ⟨withLeft, hleft, hwithLeft⟩ := extendOn_left hpads.1 (Extends.refl origOp.input)
  obtain ⟨temp, hright, htemp⟩ :=
    extendOn_right hpads.2.1 hwithLeft (le_refl _) origOp.padsBegin.X
  obtain ⟨withTop, htop, hwithTop⟩ := extendOn_top hpads.2.2.1 htemp
  obtain ⟨extended, hbottom, hextended⟩ :=
    extendOn_bottom hpads.2.2.2 hwithTop (le_refl _) origOp.padsBegin.Y
  refine ⟨extended, ?_, hextended⟩
  simp only [getExtendedActivation_eq, bind_eq_ok]
  rw [← htemp.W] at htop hbottom
  exact ⟨withLeft, hleft, temp, hright, withTop, htop, hbottom⟩

theorem canExtend_of_ok {extended : Tensor α} (h : getExtendedActivation origOp = .ok extended) :
    CanExtend origOp := by
  simp only [getExtendedActivation_eq, bind_eq_ok] at h
  obtain ⟨withLeft, hleft, temp, hright, withTop, htop, hbottom⟩ := h
  by_cases hallowed : ZerosAllowed origOp.elemType
  · exact Or.inr hallowed
  · have hbeginX := (extendOn_zerosAllowed hleft).resolve_right hallowed
    have hendX := (extendOn_zerosAllowed hright).resolve_right hallowed
    have hbeginY := (extendOn_zerosAllowed htop).resolve_right hallowed
    have hendY := (extendOn_zerosAllowed hbottom).resolve_right hallowed
    exact Or.inl ⟨congr (congrArg Dims2D.mk hbeginY) hbeginX,
      congr (congrArg Dims2D.mk hendY) hendX⟩

end ExtendedActivation

section Slices

variable {α : Type} [Semiring α] {origOp : OrigOp α} {extended : Tensor α}

/-- How often a kernel of one dimension moves over the extended activation. -/
def outSize (extended kernel stride : ℕ) : ℕ := (extended - kernel) / stride + 1

/-- The number of values of a slice of the activation. -/
def partSize (extended kernel stride i : ℕ) : ℕ :=
  (extended - kernel) / stride * stride + windowSize kernel MAX_KERNEL_SIZE i

variable {size kernel stride i : ℕ}

theorem newActivationSize_eq (hkernel : kernel ≤ size) (hi : i < numSlices kernel) :
    newActivationSize size kernel stride (windowSize kernel MAX_KERNEL_SIZE i : ℕ) =
      (partSize size kernel stride i : ℕ) := by
  have hmoves := Nat.div_mul_le_self (size - kernel) stride
  have hwindow := windowSize_spec hi
  have hsub : ((size : ℤ) - kernel).tdiv stride = ((size - kernel) / stride : ℕ) := by
    rw [← Nat.cast_sub hkernel]
    rfl
  have hfits : (size - kernel) / stride * stride + windowSize kernel MAX_KERNEL_SIZE i ≤ size := by
    omega
  rw [newActivationSize, hsub, partSize, min_eq_left (by exact_mod_cast hfits)]
  rfl

theorem partSize_fits (hkernel : kernel ≤ size) (hi : i < numSlices kernel) :
    0 < partSize size kernel stride i ∧
      i * MAX_KERNEL_SIZE + partSize size kernel stride i ≤ size := by
  have hmoves := Nat.div_mul_le_self (size - kernel) stride
  have hwindow := windowSize_spec hi
  unfold partSize
  omega

theorem inferDim_part (hstride : 0 < stride) (hi : i < numSlices kernel) :
    inferDim (partSize size kernel stride i) 0 0 (windowSize kernel MAX_KERNEL_SIZE i) stride 1 =
      .ok (outSize size kernel stride) := by
  have hwindow := windowSize_spec hi
  have hspan : (windowSize kernel MAX_KERNEL_SIZE i - 1) * 1 + 1 =
      windowSize kernel MAX_KERNEL_SIZE i := by omega
  rw [inferDim_eq_ok, hspan, partSize, Nat.add_zero, Nat.add_zero, Nat.add_sub_cancel_right,
    Nat.mul_div_cancel _ hstride]
  exact ⟨⟨hstride, Nat.one_pos, hwindow.1⟩, Nat.le_add_left _ _, rfl⟩

theorem part_place {size kernel stride i o k : ℕ} (ho : o < outSize size kernel stride)
    (hk : k < windowSize kernel MAX_KERNEL_SIZE i) :
    o * stride + k < partSize size kernel stride i := by
  have hmoves : o * stride ≤ (size - kernel) / stride * stride :=
    Nat.mul_le_mul_right stride (Nat.le_of_lt_succ ho)
  unfold partSize
  omega

/-- The part of a window sum that belongs to one slice of the filter. -/
def OrigOp.term (origOp : OrigOp α) (p : ℕ × ℕ) (n oc y x : ℕ) : α :=
  Dilated.tapSum origOp.toConvolutionOp (windowSize origOp.filter.H MAX_KERNEL_SIZE p.1)
    (windowSize origOp.filter.W MAX_KERNEL_SIZE p.2) (p.1 * MAX_KERNEL_SIZE)
    (p.2 * MAX_KERNEL_SIZE) n oc y x

/-- The convolution of a slice of the activation with a slice of the filter. -/
def slicedConv (origOp : OrigOp α) (extended : Tensor α) (bias : Option (Tensor α))
    (p : ℕ × ℕ) : ConvolutionOp α where
  input := extended.crop (p.1 * MAX_KERNEL_SIZE) (p.2 * MAX_KERNEL_SIZE)
    (partSize extended.H origOp.filter.H origOp.strides.Y p.1)
    (partSize extended.W origOp.filter.W origOp.strides.X p.2)
  filter := slicedFilter origOp.filter p.1 p.2
  bias := bias
  strides := origOp.strides
  padsBegin := ⟨0, 0⟩
  padsEnd := ⟨0, 0⟩
  dilations := origOp.dilations
  postOp := none
  kind := origOp.kind

/-- What the rewrite relies on: a convolution whose kernel fits into what is there to read. -/
structure Slides (origOp : OrigOp α) (extended : Tensor α) : Prop where
  channels : origOp.groupChannels = origOp.filter.C
  dilations : origOp.dilations = ⟨1, 1⟩
  strides : 0 < origOp.strides.Y ∧ 0 < origOp.strides.X
  activation : ExtendsActivation origOp extended
  fits : origOp.filter.H ≤ extended.H ∧ origOp.filter.W ≤ extended.W

/-- The slice of the activation for the windows `p` of the filter. -/
def partSlice (origOp : OrigOp α) (extended : Tensor α) (p : ℕ × ℕ) : Slice where
  offsetY := p.1 * MAX_KERNEL_SIZE
  offsetX := p.2 * MAX_KERNEL_SIZE
  sizeY := partSize extended.H origOp.filter.H origOp.strides.Y p.1
  sizeX := partSize extended.W origOp.filter.W origOp.strides.X p.2

/-- The passes over the slices. -/
def OrigOp.indices (origOp : OrigOp α) : List (ℕ × ℕ) :=
  sliceIndices (numSlices origOp.filter.W) (numSlices origOp.filter.H)

/-- The last pass, the one with the bias and the post operation. -/
def OrigOp.IsLast (origOp : OrigOp α) (p : ℕ × ℕ) : Prop :=
  p.2 + 1 = numSlices origOp.filter.W ∧ p.1 + 1 = numSlices origOp.filter.H

instance (origOp : OrigOp α) (p : ℕ × ℕ) : Decidable (origOp.IsLast p) :=
  inferInstanceAs (Decidable (_ ∧ _))

namespace Slides

variable {p : ℕ × ℕ}

theorem partSlice_fits (h : Slides origOp extended) (hp : p ∈ origOp.indices) :
    (partSlice origOp extended p).Fits extended.H extended.W := by
  obtain ⟨hj, hi⟩ := mem_sliceIndices.mp hp
  have hpartY : 0 < partSize extended.H origOp.filter.H origOp.strides.Y p.1 ∧
      p.1 * MAX_KERNEL_SIZE + partSize extended.H origOp.filter.H origOp.strides.Y p.1 ≤
        extended.H := partSize_fits h.fits.1 hj
  have hpartX : 0 < partSize extended.W origOp.filter.W origOp.strides.X p.2 ∧
      p.2 * MAX_KERNEL_SIZE + partSize extended.W origOp.filter.W origOp.strides.X p.2 ≤
        extended.W := partSize_fits h.fits.2 hi
  simp only [Slice.Fits, partSlice]
  omega

section

variable (h : Slides origOp extended) (bias : Option (Tensor α)) (hp : p ∈ origOp.indices)
include h bias hp

theorem windowSum_slicedConv (n oc : ℕ) {y x : ℕ}
    (hy : y < outSize extended.H origOp.filter.H origOp.strides.Y)
    (hx : x < outSize extended.W origOp.filter.W origOp.strides.X) :
    (slicedConv origOp extended bias p).windowSum n oc y x = origOp.term p n oc y x := by
  have hfits := h.partSlice_fits hp
  simp only [Slice.Fits, partSlice] at hfits
  apply sum_congr rfl
  intro ic _
  apply sum_congr rfl
  intro ky hky
  apply sum_congr rfl
  intro kx hkx
  have hplaceY := part_place hy (mem_range.mp hky)
  have hplaceX := part_place hx (mem_range.mp hkx)
  have hread : (extended.crop (p.1 * MAX_KERNEL_SIZE) (p.2 * MAX_KERNEL_SIZE)
      (partSize extended.H origOp.filter.H origOp.strides.Y p.1)
      (partSize extended.W origOp.filter.W origOp.strides.X p.2)).padded 0 0 n
        (origOp.inputChannel oc ic) (y * origOp.strides.Y + ky) (x * origOp.strides.X + kx) =
      origOp.input.padded origOp.padsBegin.Y origOp.padsBegin.X n (origOp.inputChannel oc ic)
        (y * origOp.strides.Y + (p.1 * MAX_KERNEL_SIZE + ky))
        (x * origOp.strides.X + (p.2 * MAX_KERNEL_SIZE + kx)) := by
    rw [Tensor.padded_zero_zero hplaceY hplaceX, Nat.add_left_comm, Nat.add_left_comm (x * _)]
    exact h.activation.get n _ _ (h.activation.H ▸ by omega) _ (h.activation.W ▸ by omega)
  change (extended.crop _ _ _ _).padded 0 0 n _ (_ + ky * origOp.dilations.Y)
    (_ + kx * origOp.dilations.X) * origOp.filter.get _ _ _ _ = _ * origOp.filter.get _ _ _ _
  rw [h.dilations, Nat.mul_one, Nat.mul_one, Nat.mul_one, Nat.mul_one]
  exact congrArg (· * _) hread

theorem eval_slicedConv : ∃ t, (slicedConv origOp extended bias p).eval = .ok t ∧
      t.Agrees ⟨origOp.input.N, origOp.filter.N,
        outSize extended.H origOp.filter.H origOp.strides.Y,
        outSize extended.W origOp.filter.W origOp.strides.X,
        fun n oc y x => origOp.term p n oc y x + ConvolutionOp.biasAt bias oc⟩ := by
  obtain ⟨hj, hi⟩ := mem_sliceIndices.mp hp
  have hdilation : origOp.dilations.Y = 1 ∧ origOp.dilations.X = 1 := by simp [h.dilations]
  have hsizeY : inferDim (slicedConv origOp extended bias p).input.H 0 0
      (slicedConv origOp extended bias p).filter.H origOp.strides.Y origOp.dilations.Y =
        .ok (outSize extended.H origOp.filter.H origOp.strides.Y) := by
    rw [hdilation.1]
    exact inferDim_part h.strides.1 hj
  have hsizeX : inferDim (slicedConv origOp extended bias p).input.W 0 0
      (slicedConv origOp extended bias p).filter.W origOp.strides.X origOp.dilations.X =
        .ok (outSize extended.W origOp.filter.W origOp.strides.X) := by
    rw [hdilation.2]
    exact inferDim_part h.strides.2 hi
  have hchannels : (slicedConv origOp extended bias p).groupChannels = origOp.filter.C := by
    have hC : (slicedConv origOp extended bias p).input.C = origOp.input.C := h.activation.C
    rw [← h.channels, ConvolutionOp.groupChannels, hC]
    rfl
  obtain ⟨t, ht, hagrees⟩ := ConvolutionOp.eval_agrees hchannels hsizeY hsizeX
    fun n oc _ y hy x hx => h.windowSum_slicedConv bias hp n oc hy hx
  refine ⟨t, ht, hagrees.trans ?_⟩
  exact ⟨h.activation.N, rfl, rfl, rfl, fun _ _ _ _ _ _ _ _ => rfl⟩

end

section Pass

variable {slicedFilters : List (Tensor α)} (hfilters : InOrder origOp.filter slicedFilters)
  (graph : SubGraph α) {p : ℕ × ℕ} (hp : p ∈ origOp.indices)
include hfilters hp

theorem rewriteSlice_eq (h : Slides origOp extended) :
    rewriteSlice origOp slicedFilters extended (numSlices origOp.filter.W)
      (numSlices origOp.filter.H) MAX_KERNEL_SIZE graph p = (do
        let conv ← (slicedConv origOp extended (if origOp.IsLast p then origOp.bias else none)
          p).eval
        let output ← graph.accumulativeOutputTensors.getLast?.elim (pure conv) fun back =>
          addOp back conv (if origOp.IsLast p then origOp.postOp else none)
        pure ⟨graph.activationSlices ++ [partSlice origOp extended p],
          graph.accumulativeOutputTensors ++ [output]⟩) := by
  obtain ⟨hj, hi⟩ := mem_sliceIndices.mp hp
  have hfits := h.partSlice_fits hp
  have hslice : sliceOp extended (partSlice origOp extended p) = .ok (extended.crop
      (p.1 * MAX_KERNEL_SIZE) (p.2 * MAX_KERNEL_SIZE)
      (partSize extended.H origOp.filter.H origOp.strides.Y p.1)
      (partSize extended.W origOp.filter.W origOp.strides.X p.2)) :=
    sliceOp_eq_ok.mpr ⟨hfits, rfl⟩
  have hstart : p.2 * MAX_KERNEL_SIZE < extended.W ∧ p.1 * MAX_KERNEL_SIZE < extended.H := by
    simp only [Slice.Fits, partSlice] at hfits
    omega
  have hsizes :
      newActivationSize extended.H origOp.filter.H origOp.strides.Y
        (slicedFilter origOp.filter p.1 p.2).H = (partSlice origOp extended p).sizeY ∧
      newActivationSize extended.W origOp.filter.W origOp.strides.X
        (slicedFilter origOp.filter p.1 p.2).W = (partSlice origOp extended p).sizeX :=
    ⟨newActivationSize_eq h.fits.1 hj, newActivationSize_eq h.fits.2 hi⟩
  have hfilter := hfilters p.1 hj p.2 hi
  simp only [rewriteSlice, throwUnless, if_pos hstart.1, if_pos hstart.2, hfilter]
  change (sliceOp extended _ >>= _) = _
  rw [hsizes.1, hsizes.2]
  change (sliceOp extended (partSlice origOp extended p) >>= _) = _
  rw [hslice]
  cases graph.accumulativeOutputTensors.getLast? with
  | none => rfl
  | some back => rfl

end Pass

end Slides

end Slices

end Vpux.IE.ConvRewriter
