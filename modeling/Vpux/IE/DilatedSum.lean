import Vpux.IE.DilatedTaps

/-! The sum of the convolutions with slices of the filter is the dilated convolution. -/
namespace Vpux.IE.Dilated
open Finset Vpux.Const Data

variable {α : Type} [Semiring α]

section Additions

theorem addOp_agrees {N C H W : ℕ} {t u : Tensor α} {f g : ℕ → ℕ → ℕ → ℕ → α}
    (ht : t.Agrees ⟨N, C, H, W, f⟩) (hu : u.Agrees ⟨N, C, H, W, g⟩) (postOp : Option (α → α)) :
    ∃ v, addOp t u postOp = .ok v ∧ v.Agrees ⟨N, C, H, W, fun n c y x =>
      applyPostOp postOp (f n c y x + g n c y x)⟩ := by
  have hsizes : t.N = u.N ∧ t.C = u.C ∧ t.H = u.H ∧ t.W = u.W :=
    ⟨ht.N.trans hu.N.symm, ht.C.trans hu.C.symm, ht.H.trans hu.H.symm, ht.W.trans hu.W.symm⟩
  refine ⟨(t.zipWith (· + ·) u).map (applyPostOp postOp), ?_, ht.N, ht.C, ht.H, ht.W, ?_⟩
  · simp [addOp, throwUnless, hsizes, pure, bind, Except.pure, Except.bind]
  · intro n hn c hc y hy x hx
    change applyPostOp postOp (t.get n c y x + u.get n c y x) = _
    rw [ht.get n hn c hc y hy x hx, hu.get n (hsizes.1 ▸ hn) c (hsizes.2.1 ▸ hc) y
      (hsizes.2.2.1 ▸ hy) x (hsizes.2.2.2 ▸ hx)]

theorem addNewConvs_agrees {N C H W : ℕ} {add : Tensor α} {f : ℕ → ℕ → ℕ → ℕ → α}
    {newConvs : List (NewConv α)} {gs : List (ℕ → ℕ → ℕ → ℕ → α)}
    (hadd : add.Agrees ⟨N, C, H, W, f⟩)
    (hconvs : List.Forall₂ (fun c g => c.result.Agrees ⟨N, C, H, W, g⟩) newConvs gs)
    (hne : newConvs ≠ []) (postOp : Option (α → α)) :
    ∃ v, addNewConvs postOp add newConvs = .ok v ∧ v.Agrees ⟨N, C, H, W, fun n c y x =>
      applyPostOp postOp (f n c y x + (gs.map fun g => g n c y x).sum)⟩ := by
  induction hconvs generalizing add f with
  | nil => exact absurd rfl hne
  | @cons conv g newConvs gs hconv hconvs ih =>
    cases newConvs with
    | nil =>
      cases hconvs
      simpa [addNewConvs] using addOp_agrees hadd hconv postOp
    | cons next newConvs =>
      obtain ⟨mid, hmid, hagrees⟩ := addOp_agrees hadd hconv none
      obtain ⟨v, hv, hvalue⟩ := ih hagrees (List.cons_ne_nil _ _)
      refine ⟨v, ?_, ?_⟩
      · rw [addNewConvs, hmid]
        · exact hv
        · exact List.cons_ne_nil _ _
      · simpa [applyPostOp, add_assoc] using hvalue

end Additions

variable {p : SliceAndPaddingParameters}

section Parameters

variable {origOp : OrigOp α} {out : Tensor α}

/-- The numbers of slices of the filter. -/
def OrigOp.slicedShape (origOp : OrigOp α) : Dims2D :=
  getSlicedShape origOp.dilations origOp.filter.W origOp.filter.H

def OrigOp.parameters (origOp : OrigOp α) (out : Tensor α) : List SliceAndPaddingParameters :=
  getActivationSliceAndPaddingParameters origOp.slicedShape origOp.padsBegin origOp.padsEnd
    ⟨origOp.input.H, origOp.input.W⟩ ⟨out.H, out.W⟩ origOp.dilations origOp.strides

/-- The convolution has a result, and one of its taps reads a value of the input. -/
structure Reads (origOp : OrigOp α) (out : Tensor α) : Prop where
  eval : origOp.eval = .ok out
  tapY : ∃ y < out.H, ∃ ky < origOp.filter.H,
    origOp.padsBegin.Y ≤ y * origOp.strides.Y + ky * origOp.dilations.Y ∧
    y * origOp.strides.Y + ky * origOp.dilations.Y < origOp.padsBegin.Y + origOp.input.H
  tapX : ∃ x < out.W, ∃ kx < origOp.filter.W,
    origOp.padsBegin.X ≤ x * origOp.strides.X + kx * origOp.dilations.X ∧
    x * origOp.strides.X + kx * origOp.dilations.X < origOp.padsBegin.X + origOp.input.W

namespace Reads

theorem result (h : Reads origOp out) : origOp.groupChannels = origOp.filter.C ∧
    inferDim origOp.input.H origOp.padsBegin.Y origOp.padsEnd.Y origOp.filter.H origOp.strides.Y
      origOp.dilations.Y = .ok out.H ∧
    inferDim origOp.input.W origOp.padsBegin.X origOp.padsEnd.X origOp.filter.W origOp.strides.X
      origOp.dilations.X = .ok out.W ∧
    out.Agrees ⟨origOp.input.N, origOp.filter.N, out.H, out.W, fun n oc y x =>
      applyPostOp origOp.postOp (origOp.windowSum n oc y x +
        ConvolutionOp.biasAt origOp.bias oc)⟩ := by
  obtain ⟨hchannels, H, W, hH, hW, rfl⟩ := ConvolutionOp.eval_eq_ok.mp h.eval
  exact ⟨hchannels, hH, hW, Tensor.Agrees.refl _⟩

theorem sizes (h : Reads origOp out) : 0 < origOp.input.H ∧ 0 < origOp.input.W := by
  obtain ⟨y, -, ky, -, hy⟩ := h.tapY
  obtain ⟨x, -, kx, -, hx⟩ := h.tapX
  omega

theorem positive (h : Reads origOp out) :
    (0 < origOp.strides.Y ∧ 0 < origOp.dilations.Y ∧ 0 < origOp.filter.H) ∧
      0 < origOp.strides.X ∧ 0 < origOp.dilations.X ∧ 0 < origOp.filter.W :=
  ⟨(inferDim_eq_ok.mp h.result.2.1).1, (inferDim_eq_ok.mp h.result.2.2.1).1⟩

end Reads

theorem slicedShape_cases {dilation K : ℕ} :
    (if 1 < dilation then K else 1) = 1 ∨ (if 1 < dilation then K else 1) = K := by
  split_ifs
  · exact Or.inr rfl
  · exact Or.inl rfl

theorem slice_fits {K sliced i : ℕ} (hK : 0 < K) (h : sliced = 1 ∨ sliced = K) (hi : i < sliced) :
    0 < K / sliced ∧ i + K / sliced ≤ K := by
  obtain rfl | rfl := h
  · omega
  · rw [Nat.div_self hK]
    omega

omit [Semiring α] in
theorem getSlicedFilters_ok (filter : Tensor α) {slicedShape : Dims2D} (hH : 0 < filter.H)
    (hW : 0 < filter.W) (hY : slicedShape.Y = 1 ∨ slicedShape.Y = filter.H)
    (hX : slicedShape.X = 1 ∨ slicedShape.X = filter.W) :
    ∃ filters, getSlicedFilters filter slicedShape = .ok filters ∧
      ∀ ix < slicedShape.X, ∀ iy < slicedShape.Y, filters[ix * slicedShape.Y + iy]? =
        some (filter.crop iy ix (filter.H / slicedShape.Y) (filter.W / slicedShape.X)) := by
  refine ⟨_, mapM_ok (k := fun slice : Slice => filter.crop slice.offsetY slice.offsetX
    slice.sizeY.toNat slice.sizeX.toNat) ?_, ?_⟩
  · intro slice hslice
    obtain ⟨kx, hkx, hslice⟩ := List.mem_flatMap.mp hslice
    obtain ⟨ky, hky, rfl⟩ := List.mem_map.mp hslice
    have hfitsY := slice_fits hH hY (List.mem_range.mp hky)
    have hfitsX := slice_fits hW hX (List.mem_range.mp hkx)
    refine sliceOp_eq_ok.mpr ⟨?_, rfl⟩
    simp only [Slice.Fits]
    omega
  · intro ix hix iy hiy
    rw [List.getElem?_map, getElem?_flatMap_range (by simp) hix hiy, List.getElem?_map,
      List.getElem?_range hiy]
    rfl

/-- The slice of the filter that a set of parameters names. -/
def OrigOp.filterSlice (origOp : OrigOp α) (p : SliceAndPaddingParameters) : Tensor α :=
  origOp.filter.crop (p.index % origOp.slicedShape.Y) (p.index / origOp.slicedShape.Y)
    (origOp.filter.H / origOp.slicedShape.Y) (origOp.filter.W / origOp.slicedShape.X)

/-- The taps of that slice. -/
def OrigOp.term (origOp : OrigOp α) (p : SliceAndPaddingParameters) (n oc y x : ℕ) : α :=
  tapSum origOp.toConvolutionOp (origOp.filter.H / origOp.slicedShape.Y)
    (origOp.filter.W / origOp.slicedShape.X) (p.index % origOp.slicedShape.Y)
    (p.index / origOp.slicedShape.Y) n oc y x

section Index

variable {ix iy : ℕ} (hp : p.index = ix * origOp.slicedShape.Y + iy)
  (hiy : iy < origOp.slicedShape.Y)
include hp hiy

omit [Semiring α] in
theorem index_slicedShape : p.index % origOp.slicedShape.Y = iy ∧
    p.index / origOp.slicedShape.Y = ix := by
  constructor
  · rw [hp, Nat.mul_comm, Nat.mul_add_mod, Nat.mod_eq_of_lt hiy]
  · rw [hp, Nat.mul_comm, Nat.mul_add_div (by omega), Nat.div_eq_of_lt hiy, Nat.add_zero]

omit [Semiring α] in
theorem filterSlice_eq_crop : origOp.filterSlice p = origOp.filter.crop iy ix
    (origOp.filter.H / origOp.slicedShape.Y) (origOp.filter.W / origOp.slicedShape.X) := by
  obtain ⟨hmod, hdiv⟩ := index_slicedShape hp hiy
  rw [OrigOp.filterSlice, hmod, hdiv]

theorem term_eq_tapSum (n oc y x : ℕ) : origOp.term p n oc y x =
    tapSum origOp.toConvolutionOp (origOp.filter.H / origOp.slicedShape.Y)
      (origOp.filter.W / origOp.slicedShape.X) iy ix n oc y x := by
  obtain ⟨hmod, hdiv⟩ := index_slicedShape hp hiy
  rw [OrigOp.term, hmod, hdiv]

end Index

/-- The convolution that is made of a set of parameters and a bias. -/
structure Made (origOp : OrigOp α) (out : Tensor α) (bias : Option (Tensor α))
    (p : SliceAndPaddingParameters) (c : NewConv α) : Prop where
  fits : c.slice.Fits origOp.input.H origOp.input.W
  bias_eq : c.conv.bias = bias
  dilations_eq : c.conv.dilations = ⟨1, 1⟩
  filter_eq : c.conv.filter = origOp.filterSlice p
  result : c.result.Agrees ⟨origOp.input.N, origOp.filter.N, out.H, out.W, fun n oc y x =>
    origOp.term p n oc y x + ConvolutionOp.biasAt bias oc⟩
  withPostOp : ∀ postOp, ∃ t, ({ c.conv with postOp := postOp } : ConvolutionOp α).eval = .ok t ∧
    t.Agrees ⟨origOp.input.N, origOp.filter.N, out.H, out.W, fun n oc y x =>
      applyPostOp postOp (origOp.term p n oc y x + ConvolutionOp.biasAt bias oc)⟩

theorem mem_parameters (h : Reads origOp out) (hp : p ∈ origOp.parameters out) :
    ∃ ix iy offsetY partY top bottom offsetX partX left right : ℕ,
    ix < origOp.slicedShape.X ∧ iy < origOp.slicedShape.Y ∧
    p = ⟨ix * origOp.slicedShape.Y + iy, offsetX, partX, offsetY, partY, (top, left),
      (bottom, right)⟩ ∧
    AxisPart origOp.slicedShape.Y origOp.filter.H iy origOp.dilations.Y origOp.strides.Y
      origOp.padsBegin.Y origOp.input.H out.H offsetY partY top bottom ∧
    AxisPart origOp.slicedShape.X origOp.filter.W ix origOp.dilations.X origOp.strides.X
      origOp.padsBegin.X origOp.input.W out.W offsetX partX left right := by
  obtain ⟨-, houtY, houtX, -⟩ := h.result
  obtain ⟨⟨-, -, hKY⟩, -, -, hKX⟩ := h.positive
  obtain ⟨hH, hW⟩ := h.sizes
  obtain ⟨ix, hix, hp⟩ := List.mem_flatMap.mp hp
  rw [List.mem_range] at hix
  cases haxisX : axisParameters origOp.slicedShape.X ix origOp.dilations.X origOp.strides.X
    origOp.padsBegin.X origOp.padsEnd.X origOp.input.W out.W with
  | none => simp [haxisX] at hp
  | some px =>
    obtain ⟨offsetX, partX, left, right, rfl, hX⟩ :=
      axisParameters_eq_some hKX hW rfl hix houtX haxisX
    simp only [haxisX] at hp
    obtain ⟨iy, hiy, hp⟩ := List.mem_flatMap.mp hp
    rw [List.mem_range] at hiy
    cases haxisY : axisParameters origOp.slicedShape.Y iy origOp.dilations.Y origOp.strides.Y
      origOp.padsBegin.Y origOp.padsEnd.Y origOp.input.H out.H with
    | none => simp [haxisY] at hp
    | some py =>
      obtain ⟨offsetY, partY, top, bottom, rfl, hY⟩ :=
        axisParameters_eq_some hKY hH rfl hiy houtY haxisY
      simp only [haxisY, List.mem_singleton] at hp
      exact ⟨ix, iy, offsetY, partY, top, bottom, offsetX, partX, left, right, hix, hiy, hp, hY, hX⟩

theorem createNewOp_ok (h : Reads origOp out) {filters : List (Tensor α)}
    (hfilters : ∀ ix < origOp.slicedShape.X, ∀ iy < origOp.slicedShape.Y,
      filters[ix * origOp.slicedShape.Y + iy]? = some (origOp.filter.crop iy ix
        (origOp.filter.H / origOp.slicedShape.Y) (origOp.filter.W / origOp.slicedShape.X)))
    (hp : p ∈ origOp.parameters out) (bias : Option (Tensor α)) :
    ∃ c, createNewOp origOp filters bias p = .ok c ∧ Made origOp out bias p c := by
  obtain ⟨ix, iy, offsetY, partY, top, bottom, offsetX, partX, left, right, hix, hiy, rfl, hY,
      hX⟩ :=
    mem_parameters h hp
  have hterm : ∀ n oc y x, origOp.term ⟨ix * origOp.slicedShape.Y + iy, offsetX, partX, offsetY,
      partY, (top, left), (bottom, right)⟩ n oc y x =
      tapSum origOp.toConvolutionOp (origOp.filter.H / origOp.slicedShape.Y)
        (origOp.filter.W / origOp.slicedShape.X) iy ix n oc y x := term_eq_tapSum rfl hiy
  have hfits : (⟨offsetY, offsetX, partY, partX⟩ : Slice).Fits origOp.input.H origOp.input.W := by
    have := hY.pos
    have := hY.le
    have := hX.pos
    have := hX.le
    simp only [Slice.Fits]
    omega
  have heval := fun postOp => eval_partConv h.result.1 hY hX bias postOp
  obtain ⟨t, ht, hagrees⟩ := heval none
  refine ⟨⟨⟨offsetY, offsetX, partY, partX⟩, partConv origOp.toConvolutionOp
    ⟨offsetY, offsetX, partY, partX⟩ ⟨iy, ix, (origOp.filter.H / origOp.slicedShape.Y : ℕ),
      (origOp.filter.W / origOp.slicedShape.X : ℕ)⟩ top left bottom right bias none, t⟩, ?_, ?_⟩
  · have hslice : sliceOp origOp.input ⟨offsetY, offsetX, partY, partX⟩ = .ok (origOp.input.crop
        offsetY offsetX partY partX) := sliceOp_eq_ok.mpr ⟨hfits, rfl⟩
    have hbind : createNewOp origOp filters bias ⟨ix * origOp.slicedShape.Y + iy, offsetX, partX,
        offsetY, partY, (top, left), (bottom, right)⟩ =
        ((partConv origOp.toConvolutionOp ⟨offsetY, offsetX, partY, partX⟩
          ⟨iy, ix, (origOp.filter.H / origOp.slicedShape.Y : ℕ),
            (origOp.filter.W / origOp.slicedShape.X : ℕ)⟩ top left bottom right bias none).eval >>=
          fun t => .ok ⟨⟨offsetY, offsetX, partY, partX⟩, partConv origOp.toConvolutionOp
            ⟨offsetY, offsetX, partY, partX⟩ ⟨iy, ix, (origOp.filter.H / origOp.slicedShape.Y : ℕ),
              (origOp.filter.W / origOp.slicedShape.X : ℕ)⟩ top left bottom right bias none,
                t⟩) := by
      simp only [createNewOp, Int.toNat_natCast, hslice, hfilters ix hix iy hiy]
      rfl
    rw [hbind, ht]
    rfl
  · refine ⟨hfits, rfl, rfl, (filterSlice_eq_crop rfl hiy).symm, ?_, ?_⟩
    · simp only [hterm]
      exact hagrees
    · simp only [hterm]
      exact heval

end Parameters

section Sum

variable {origOp : OrigOp α} {out : Tensor α}

theorem sum_flatMap_range {M β : Type} [AddCommMonoid M] (n : ℕ) (f : ℕ → List β) (g : β → M) :
    (((List.range n).flatMap f).map g).sum = ∑ i ∈ range n, ((f i).map g).sum := by
  induction n with
  | zero => rfl
  | succ n ih =>
    rw [List.range_succ, List.flatMap_append, List.map_append, List.sum_append, ih,
      sum_range_succ, List.flatMap_singleton]

theorem tapSum_eq_zero_of_y {op : ConvolutionOp α} {widthY iy y : ℕ}
    (h : ∀ ky < widthY, ¬(op.padsBegin.Y ≤ y * op.strides.Y + (iy + ky) * op.dilations.Y ∧
      y * op.strides.Y + (iy + ky) * op.dilations.Y < op.padsBegin.Y + op.input.H))
    (widthX ix n oc x : ℕ) : tapSum op widthY widthX iy ix n oc y x = 0 := by
  apply sum_eq_zero
  intro ic _
  apply sum_eq_zero
  intro ky hky
  apply sum_eq_zero
  intro kx _
  rw [Tensor.padded_eq_zero_of_y (h ky (mem_range.mp hky)), zero_mul]

theorem tapSum_eq_zero_of_x {op : ConvolutionOp α} {widthX ix x : ℕ}
    (h : ∀ kx < widthX, ¬(op.padsBegin.X ≤ x * op.strides.X + (ix + kx) * op.dilations.X ∧
      x * op.strides.X + (ix + kx) * op.dilations.X < op.padsBegin.X + op.input.W))
    (widthY iy n oc y : ℕ) : tapSum op widthY widthX iy ix n oc y x = 0 := by
  apply sum_eq_zero
  intro ic _
  apply sum_eq_zero
  intro ky _
  apply sum_eq_zero
  intro kx hkx
  rw [Tensor.padded_eq_zero_of_x (h kx (mem_range.mp hkx)), zero_mul]

theorem sum_terms (h : Reads origOp out) (n oc : ℕ) {y x : ℕ} (hy : y < out.H) (hx : x < out.W) :
    ((origOp.parameters out).map fun p => origOp.term p n oc y x).sum =
      origOp.windowSum n oc y x := by
  obtain ⟨⟨hstrideY, hdilationY, hKY⟩, hstrideX, hdilationX, hKX⟩ := h.positive
  rw [windowSum_eq_tapSums origOp.toConvolutionOp hKY hKX slicedShape_cases slicedShape_cases,
    OrigOp.parameters, getActivationSliceAndPaddingParameters, sum_flatMap_range]
  apply sum_congr rfl
  intro ix hix
  cases haxisX : axisParameters origOp.slicedShape.X ix origOp.dilations.X origOp.strides.X
    origOp.padsBegin.X origOp.padsEnd.X origOp.input.W out.W with
  | none =>
    symm
    apply sum_eq_zero
    intro iy _
    apply tapSum_eq_zero_of_x
    intro kx hkx
    exact axisParameters_eq_none hKX hdilationX hstrideX rfl haxisX hx hkx
  | some px =>
    rw [sum_flatMap_range]
    apply sum_congr rfl
    intro iy hiy
    cases haxisY : axisParameters origOp.slicedShape.Y iy origOp.dilations.Y origOp.strides.Y
      origOp.padsBegin.Y origOp.padsEnd.Y origOp.input.H out.H with
    | none =>
      symm
      apply tapSum_eq_zero_of_y
      intro ky hky
      exact axisParameters_eq_none hKY hdilationY hstrideY rfl haxisY hy hky
    | some py =>
      rw [List.map_singleton, List.sum_singleton]
      exact term_eq_tapSum rfl (mem_range.mp hiy) n oc y x

variable {parameters : List SliceAndPaddingParameters}

theorem createNewConvs_ok (h : Reads origOp out) {filters : List (Tensor α)}
    (hfilters : ∀ ix < origOp.slicedShape.X, ∀ iy < origOp.slicedShape.Y,
      filters[ix * origOp.slicedShape.Y + iy]? = some (origOp.filter.crop iy ix
        (origOp.filter.H / origOp.slicedShape.Y) (origOp.filter.W / origOp.slicedShape.X)))
    (zeroBias : Option (Tensor α)) (hparameters : parameters ⊆ origOp.parameters out) :
    ∃ convs, createNewConvs origOp filters zeroBias false parameters = .ok convs ∧
      List.Forall₂ (fun c p => Made origOp out zeroBias p c) convs parameters := by
  induction parameters with
  | nil => exact ⟨[], rfl, .nil⟩
  | cons p parameters ih =>
    obtain ⟨hp, hrest⟩ := List.cons_subset.mp hparameters
    obtain ⟨c, hc, hmade⟩ := createNewOp_ok h hfilters hp zeroBias
    obtain ⟨convs, hconvs, hall⟩ := ih hrest
    refine ⟨c :: convs, ?_, .cons hmade hall⟩
    rw [createNewConvs, if_neg Bool.false_ne_true, hc]
    rw [hconvs]
    rfl

theorem exists_axisParameters {sliced K dilation stride padStart padEnd size out : ℕ} (hK : 0 < K)
    (hdilation : 0 < dilation) (hstride : 0 < stride)
    (hsliced : sliced = if 1 < dilation then K else 1)
    (htap : ∃ o < out, ∃ k < K, padStart ≤ o * stride + k * dilation ∧
      o * stride + k * dilation < padStart + size) :
    ∃ i < sliced, ∃ p, axisParameters sliced i dilation stride padStart padEnd size out =
      some p := by
  obtain ⟨o, ho, k, hk, hread⟩ := htap
  obtain ⟨hone, -⟩ | ⟨hne, hall⟩ := sliced_cases hdilation hsliced
  · exact ⟨0, by omega, _, if_pos hone⟩
  · cases h : axisParameters sliced k dilation stride padStart padEnd size out with
    | none =>
      have hzero : 0 < K / sliced := by rw [hall, Nat.div_self hK]; exact Nat.one_pos
      exact absurd hread (axisParameters_eq_none hK hdilation hstride hsliced h ho hzero)
    | some p => exact ⟨k, hall ▸ hk, p, h⟩

theorem parameters_ne_nil (h : Reads origOp out) : origOp.parameters out ≠ [] := by
  obtain ⟨⟨hstrideY, hdilationY, hKY⟩, hstrideX, hdilationX, hKX⟩ := h.positive
  obtain ⟨ix, hix, px, hpx⟩ : ∃ i < origOp.slicedShape.X, ∃ p,
      axisParameters origOp.slicedShape.X i origOp.dilations.X origOp.strides.X
        origOp.padsBegin.X origOp.padsEnd.X origOp.input.W out.W = some p :=
    exists_axisParameters hKX hdilationX hstrideX rfl h.tapX
  obtain ⟨iy, hiy, py, hpy⟩ : ∃ i < origOp.slicedShape.Y, ∃ p,
      axisParameters origOp.slicedShape.Y i origOp.dilations.Y origOp.strides.Y
        origOp.padsBegin.Y origOp.padsEnd.Y origOp.input.H out.H = some p :=
    exists_axisParameters hKY hdilationY hstrideY rfl h.tapY
  intro hnil
  rw [OrigOp.parameters, getActivationSliceAndPaddingParameters, List.flatMap_eq_nil_iff] at hnil
  have hcolumn := hnil ix (List.mem_range.mpr hix)
  simp only [hpx] at hcolumn
  rw [List.flatMap_eq_nil_iff] at hcolumn
  have hentry := hcolumn iy (List.mem_range.mpr hiy)
  simp only [hpy] at hentry
  exact List.cons_ne_nil _ _ hentry

/-- What takes the place of the convolution computes what it computed, without dilations: with a
slice of the filter for each tap that is kept, or with the expanded filter. -/
structure Preserves (origOp : OrigOp α) (out : Tensor α) (g : Rewritten α) : Prop where
  output : g.output.Agrees out
  slices : ∀ slice ∈ g.activationSlices, slice.Fits origOp.input.H origOp.input.W
  bias : ∃ first rest, g.convs = first :: rest ∧ first.bias = origOp.bias ∧
    ∀ conv ∈ rest, ∀ oc, ConvolutionOp.biasAt conv.bias oc = 0
  dilations : ∀ conv ∈ g.convs, conv.dilations = ⟨1, 1⟩
  filters : g.convs.map (·.filter) =
    if needsSplit origOp.toConvolutionOp then (origOp.parameters out).map origOp.filterSlice
    else [expandDilatedOp origOp.filter origOp.dilations]

theorem sumNewConvs_ok (h : Reads origOp out) (hsplit : needsSplit origOp.toConvolutionOp)
    {first : NewConv α} {rest : List (NewConv α)}
    (hparameters : origOp.parameters out = p :: parameters) {zeroBias : Option (Tensor α)}
    (hzero : ∀ oc, ConvolutionOp.biasAt zeroBias oc = 0)
    (hfirst : Made origOp out origOp.bias p first)
    (hrest : List.Forall₂ (fun c p => Made origOp out zeroBias p c) rest parameters) :
    ∃ g, sumNewConvs origOp (first :: rest) = .ok g ∧ Preserves origOp out g := by
  obtain ⟨-, -, -, hout⟩ := h.result
  have hall : ∀ c ∈ first :: rest, ∃ bias p, Made origOp out bias p c := by
    intro c hc
    obtain rfl | hc := List.mem_cons.mp hc
    · exact ⟨_, _, hfirst⟩
    · obtain ⟨p, -, hmade⟩ := exists_rel_of_mem hrest hc
      exact ⟨_, p, hmade⟩
  have hfits : ∀ slice ∈ (first :: rest).map (·.slice),
      slice.Fits origOp.input.H origOp.input.W := by
    intro slice hslice
    obtain ⟨c, hc, rfl⟩ := List.mem_map.mp hslice
    obtain ⟨_, _, hmade⟩ := hall c hc
    exact hmade.fits
  have hdilations : ∀ conv ∈ (first :: rest).map (·.conv), conv.dilations = ⟨1, 1⟩ := by
    intro conv hconv
    obtain ⟨c, hc, rfl⟩ := List.mem_map.mp hconv
    obtain ⟨_, _, hmade⟩ := hall c hc
    exact hmade.dilations_eq
  have hfilters : (first :: rest).map (·.conv.filter) =
      if needsSplit origOp.toConvolutionOp then (origOp.parameters out).map origOp.filterSlice
      else [expandDilatedOp origOp.filter origOp.dilations] := by
    rw [if_pos hsplit, hparameters, ← List.forall₂_eq_eq_eq, List.forall₂_map_left_iff,
      List.forall₂_map_right_iff]
    exact .cons hfirst.filter_eq (hrest.imp fun c p hmade => hmade.filter_eq)
  have hsum : ∀ n oc, ∀ y < out.H, ∀ x < out.W, origOp.windowSum n oc y x =
      origOp.term p n oc y x + (parameters.map fun p => origOp.term p n oc y x).sum := by
    intro n oc y hy x hx
    rw [← sum_terms h n oc hy hx, hparameters, List.map_cons, List.sum_cons]
  cases rest with
  | nil =>
    cases hrest
    obtain ⟨t, ht, hagrees⟩ := hfirst.withPostOp origOp.postOp
    refine ⟨⟨[first.slice], [{ first.conv with postOp := origOp.postOp }], t⟩, ?_, ?_, hfits, ?_,
      ?_, hfilters⟩
    · rw [sumNewConvs, ht]
      rfl
    · apply hagrees.trans (Tensor.Agrees.symm (hout.trans _))
      refine ⟨rfl, rfl, rfl, rfl, fun n _ oc _ y hy x hx => ?_⟩
      simp [hsum n oc y hy x hx]
    · exact ⟨_, [], rfl, hfirst.bias_eq, by simp⟩
    · intro conv hconv
      obtain rfl := List.mem_singleton.mp hconv
      exact hfirst.dilations_eq
  | cons next rest =>
    have hterms : List.Forall₂ (fun c g => c.result.Agrees
        ⟨origOp.input.N, origOp.filter.N, out.H, out.W, g⟩) (next :: rest)
        (parameters.map fun p => origOp.term p) := by
      rw [List.forall₂_map_right_iff]
      refine hrest.imp fun c p hmade => ?_
      simpa [hzero] using hmade.result
    obtain ⟨t, ht, hagrees⟩ :=
      addNewConvs_agrees hfirst.result hterms (List.cons_ne_nil _ _) origOp.postOp
    refine ⟨⟨(first :: next :: rest).map (·.slice), (first :: next :: rest).map (·.conv), t⟩,
      ?_, ?_, hfits, ?_, hdilations, by rw [List.map_map]; exact hfilters⟩
    · rw [sumNewConvs, ht]
      · rfl
      · exact List.cons_ne_nil _ _
    · apply hagrees.trans (Tensor.Agrees.symm (hout.trans _))
      refine ⟨rfl, rfl, rfl, rfl, fun n _ oc _ y hy x hx => ?_⟩
      simp [hsum n oc y hy x hx, Function.comp_def, add_right_comm]
    · refine ⟨first.conv, (next :: rest).map (·.conv), rfl, hfirst.bias_eq, ?_⟩
      intro conv hconv oc
      obtain ⟨c, hc, rfl⟩ := List.mem_map.mp hconv
      obtain ⟨p, -, hmade⟩ := exists_rel_of_mem hrest hc
      rw [hmade.bias_eq, hzero]

end Sum

end Vpux.IE.Dilated
