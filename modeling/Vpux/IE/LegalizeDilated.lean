import Vpux.IE.DilatedSum

/-! The graph in place of a dilated convolution computes what the convolution computed. -/
namespace Vpux.IE.Dilated
open Finset Vpux.Const Data

section Expansion

variable {K d : ℕ}

theorem place_expanded (hd : 0 < d) (k : ℕ) : k + (d - 1) * k = k * d := by
  obtain ⟨d, rfl⟩ := Nat.exists_eq_succ_of_ne_zero hd.ne'
  rw [Nat.succ_sub_one, Nat.mul_succ, Nat.mul_comm, Nat.add_comm]

theorem find_expanded (hd : 0 < d) {k : ℕ} (hk : k < K) :
    (List.range K).find? (fun j => j + (d - 1) * j = k * d) = some k := by
  simp only [place_expanded hd, List.find?_range_eq_some, decide_eq_true_eq, List.mem_range,
    true_and]
  refine ⟨hk, fun j hj => ?_⟩
  simpa using (Nat.mul_lt_mul_of_pos_right hj hd).ne

theorem find_expanded_eq_none (hd : 0 < d) {i : ℕ} (h : ∀ k < K, k * d ≠ i) :
    (List.range K).find? (fun j => j + (d - 1) * j = i) = none := by
  rw [List.find?_range_eq_none]
  intro k hk
  simpa [place_expanded hd] using h k hk

theorem span_expanded (hK : 0 < K) (hd : 0 < d) :
    (K + (K - 1) * (d - 1) - 1) * 1 + 1 = (K - 1) * d + 1 := by
  obtain ⟨K, rfl⟩ := Nat.exists_eq_succ_of_ne_zero hK.ne'
  obtain ⟨d, rfl⟩ := Nat.exists_eq_succ_of_ne_zero hd.ne'
  rw [Nat.succ_sub_one, Nat.succ_sub_one, Nat.mul_succ K d]
  omega

theorem inferDim_expanded {size begin end' stride out : ℕ}
    (h : inferDim size begin end' K stride d = .ok out) :
    inferDim size begin end' (K + (K - 1) * (d - 1)) stride 1 = .ok out := by
  obtain ⟨⟨hstride, hd, hK⟩, hfits, hcount⟩ := inferDim_eq_ok.mp h
  have hspan := span_expanded hK hd
  rw [inferDim_eq_ok, hspan]
  exact ⟨⟨hstride, Nat.one_pos, by omega⟩, hfits, hcount⟩

theorem sum_expanded {M : Type} [AddCommMonoid M] (hK : 0 < K) (hd : 0 < d) (f : ℕ → M)
    (hzero : ∀ i, (∀ k < K, k * d ≠ i) → f i = 0) :
    ∑ i ∈ range (K + (K - 1) * (d - 1)), f i = ∑ k ∈ range K, f (k * d) := by
  have hinj : Set.InjOn (fun k => k * d) (range K) :=
    fun a _ b _ hab => Nat.eq_of_mul_eq_mul_right hd hab
  have hspan := span_expanded hK hd
  calc ∑ i ∈ range (K + (K - 1) * (d - 1)), f i
      = ∑ i ∈ (range K).image (fun k => k * d), f i := by
        symm
        apply sum_subset
        · intro i hi
          obtain ⟨k, hk, rfl⟩ := mem_image.mp hi
          have hlast := Nat.mul_le_mul_right d (Nat.le_sub_one_of_lt (mem_range.mp hk))
          rw [mem_range]
          omega
        · intro i _ hi
          apply hzero
          intro k hk hki
          exact hi (mem_image.mpr ⟨k, mem_range.mpr hk, hki⟩)
    _ = ∑ k ∈ range K, f (k * d) := sum_image hinj

variable {α : Type} [Semiring α] {filter : Tensor α} {dilations : Dims2D}

theorem get_expanded (hY : 0 < dilations.Y) (hX : 0 < dilations.X) (oc ic : ℕ) {ky kx : ℕ}
    (hky : ky < filter.H) (hkx : kx < filter.W) :
    (expandDilatedOp filter dilations).get oc ic (ky * dilations.Y) (kx * dilations.X) =
      filter.get oc ic ky kx := by
  simp only [expandDilatedOp, find_expanded hY hky, find_expanded hX hkx]

theorem get_expanded_of_y (hY : 0 < dilations.Y) {i : ℕ}
    (h : ∀ k < filter.H, k * dilations.Y ≠ i) (oc ic j : ℕ) :
    (expandDilatedOp filter dilations).get oc ic i j = 0 := by
  simp only [expandDilatedOp, find_expanded_eq_none hY h]

theorem get_expanded_of_x (hX : 0 < dilations.X) {j : ℕ}
    (h : ∀ k < filter.W, k * dilations.X ≠ j) (oc ic i : ℕ) :
    (expandDilatedOp filter dilations).get oc ic i j = 0 := by
  simp only [expandDilatedOp, find_expanded_eq_none hX h]
  split <;> simp_all

/-- The convolution with the expanded filter. -/
def expanded (op : ConvolutionOp α) : ConvolutionOp α :=
  { op with filter := expandDilatedOp op.filter op.dilations, dilations := ⟨1, 1⟩ }

theorem windowSum_expanded {op : ConvolutionOp α} (hKY : 0 < op.filter.H)
    (hKX : 0 < op.filter.W) (hY : 0 < op.dilations.Y) (hX : 0 < op.dilations.X)
    (n oc y x : ℕ) : (expanded op).windowSum n oc y x = op.windowSum n oc y x := by
  apply sum_congr rfl
  intro ic _
  refine (sum_expanded hKY hY _ ?_).trans (sum_congr rfl fun ky hky => ?_)
  · intro i hi
    apply sum_eq_zero
    intro j _
    change _ * (expandDilatedOp op.filter op.dilations).get oc ic i j = 0
    rw [get_expanded_of_y hY hi, mul_zero]
  · refine (sum_expanded hKX hX _ ?_).trans (sum_congr rfl fun kx hkx => ?_)
    · intro j hj
      change _ * (expandDilatedOp op.filter op.dilations).get oc ic _ j = 0
      rw [get_expanded_of_x hX hj, mul_zero]
    · change op.input.padded op.padsBegin.Y op.padsBegin.X n (op.inputChannel oc ic)
        (y * op.strides.Y + ky * op.dilations.Y * 1) (x * op.strides.X + kx * op.dilations.X * 1) *
        (expandDilatedOp op.filter op.dilations).get oc ic (ky * op.dilations.Y)
          (kx * op.dilations.X) = _
      rw [get_expanded hY hX oc ic (mem_range.mp hky) (mem_range.mp hkx), Nat.mul_one, Nat.mul_one]

end Expansion

variable {α : Type} [Semiring α] {origOp : OrigOp α} {out : Tensor α}

theorem expand_ok (h : Reads origOp out) (hsplit : ¬needsSplit origOp.toConvolutionOp) :
    ∃ g, expand origOp = .ok g ∧ Preserves origOp out g := by
  obtain ⟨hchannels, hH, hW, hout⟩ := h.result
  obtain ⟨⟨-, hY, hKY⟩, -, hX, hKX⟩ := h.positive
  obtain ⟨t, ht, hagrees⟩ := @ConvolutionOp.eval_agrees _ _ (expanded origOp.toConvolutionOp) _ _ _
    hchannels (inferDim_expanded hH) (inferDim_expanded hW)
    fun n oc _ y _ x _ => windowSum_expanded hKY hKX hY hX n oc y x
  refine ⟨⟨[], [expanded origOp.toConvolutionOp], t⟩, ?_, ?_, ?_, ?_, ?_, ?_⟩
  · change (expanded origOp.toConvolutionOp).eval >>= _ = _
    rw [ht]
    rfl
  · exact hagrees.trans hout.symm
  · simp
  · exact ⟨_, [], rfl, rfl, by simp⟩
  · simp [expanded]
  · rw [if_neg hsplit]
    rfl

theorem getZeroBias_ok (h : origOp.bias = none ∨ ZerosAllowed origOp.elemType) :
    ∃ zeroBias, getZeroBias origOp = .ok zeroBias ∧
      (∀ oc, ConvolutionOp.biasAt zeroBias oc = 0) ∧
      (if origOp.bias.isSome then origOp.bias else zeroBias) = origOp.bias := by
  cases hbias : origOp.bias with
  | none =>
    refine ⟨none, ?_, fun _ => rfl, rfl⟩
    rw [getZeroBias, hbias]
    rfl
  | some bias =>
    have htype : ZerosAllowed origOp.elemType :=
      h.resolve_left (by rw [hbias]; exact Option.some_ne_none _)
    refine ⟨some (Tensor.fill bias.N bias.C bias.H bias.W 0), ?_, fun _ => rfl, rfl⟩
    rw [getZeroBias, hbias]
    simp only [getZerosConst, createZeros, throwUnless, if_pos htype]
    rfl

theorem split_eq (h : Reads origOp out) : ∃ filters,
    (∀ ix < origOp.slicedShape.X, ∀ iy < origOp.slicedShape.Y,
      filters[ix * origOp.slicedShape.Y + iy]? = some (origOp.filter.crop iy ix
        (origOp.filter.H / origOp.slicedShape.Y) (origOp.filter.W / origOp.slicedShape.X))) ∧
    split origOp ⟨out.H, out.W⟩ = (do
      let zeroBias ← getZeroBias origOp
      let newConvs ← createNewConvs origOp filters zeroBias origOp.bias.isSome
        (origOp.parameters out)
      sumNewConvs origOp newConvs) := by
  obtain ⟨⟨-, -, hKY⟩, -, -, hKX⟩ := h.positive
  have hcases : (origOp.slicedShape.Y = 1 ∨ origOp.slicedShape.Y = origOp.filter.H) ∧
      (origOp.slicedShape.X = 1 ∨ origOp.slicedShape.X = origOp.filter.W) :=
    ⟨slicedShape_cases, slicedShape_cases⟩
  obtain ⟨filters, hfilters, hget⟩ := getSlicedFilters_ok origOp.filter hKY hKX hcases.1 hcases.2
  have hne := parameters_ne_nil h
  refine ⟨filters, hget, ?_⟩
  change (getSlicedFilters origOp.filter origOp.slicedShape >>= fun slicedFilters =>
    throwUnless (origOp.parameters out ≠ []) "no any activation slice" >>= fun _ => _) = _
  rw [hfilters, throwUnless, if_pos hne]
  rfl

theorem split_ok (h : Reads origOp out) (hsplit : needsSplit origOp.toConvolutionOp)
    (hzeros : origOp.bias = none ∨ ZerosAllowed origOp.elemType) :
    ∃ g, split origOp ⟨out.H, out.W⟩ = .ok g ∧ Preserves origOp out g := by
  obtain ⟨filters, hfilters, heq⟩ := split_eq h
  obtain ⟨zeroBias, hzeroBias, hzero, hfirst⟩ := getZeroBias_ok hzeros
  obtain ⟨p, parameters, hparameters⟩ := List.exists_cons_of_ne_nil (parameters_ne_nil h)
  have hmem : p ∈ origOp.parameters out := by
    rw [hparameters]
    exact List.mem_cons_self
  have hrest : parameters ⊆ origOp.parameters out := by
    rw [hparameters]
    exact List.subset_cons_self p parameters
  obtain ⟨first, hok, hmade⟩ := createNewOp_ok h hfilters hmem origOp.bias
  obtain ⟨rest, hconvs, hall⟩ := createNewConvs_ok h hfilters zeroBias hrest
  obtain ⟨g, hg, hpreserves⟩ := sumNewConvs_ok h hsplit hparameters hzero hmade hall
  refine ⟨g, ?_, hpreserves⟩
  have hcreate : createNewConvs origOp filters zeroBias origOp.bias.isSome (p :: parameters) =
      .ok (first :: rest) := by
    rw [createNewConvs, hfirst, hok]
    simp only [hconvs, bind, Except.bind]
    rfl
  rw [heq, hzeroBias, hparameters]
  simp only [hcreate, bind, Except.bind]
  exact hg

theorem split_error (h : Reads origOp out) (hbias : origOp.bias ≠ none)
    (hzeros : ¬ZerosAllowed origOp.elemType) : split origOp ⟨out.H, out.W⟩ = .error (.exception
      "input has incompatible data type, only float16 or float32 are supported") := by
  obtain ⟨filters, -, hsplit⟩ := split_eq h
  obtain ⟨bias, hbias⟩ := Option.ne_none_iff_exists'.mp hbias
  have hzeroBias : getZeroBias origOp = .error (.exception
      "input has incompatible data type, only float16 or float32 are supported") := by
    rw [getZeroBias, hbias]
    simp only [getZerosConst, createZeros, throwUnless, if_neg hzeros]
    rfl
  rw [hsplit, hzeroBias]
  rfl

/-- The graph is built unless a bias of zeros is needed and cannot be made. -/
theorem matchAndRewrite_preserves (h : Reads origOp out) :
    (∃ g, matchAndRewrite origOp ⟨out.H, out.W⟩ = .ok g ∧ Preserves origOp out g) ∨
      (needsSplit origOp.toConvolutionOp ∧ origOp.bias ≠ none ∧ ¬ZerosAllowed origOp.elemType ∧
        matchAndRewrite origOp ⟨out.H, out.W⟩ = .error (.exception
          "input has incompatible data type, only float16 or float32 are supported")) := by
  unfold matchAndRewrite
  by_cases hsplit : needsSplit origOp.toConvolutionOp
  · rw [if_pos hsplit]
    by_cases hzeros : origOp.bias = none ∨ ZerosAllowed origOp.elemType
    · exact Or.inl (split_ok h hsplit hzeros)
    · obtain ⟨hbias, htype⟩ := not_or.mp hzeros
      exact Or.inr ⟨hsplit, hbias, htype, split_error h hbias htype⟩
  · rw [if_neg hsplit]
    exact Or.inl (expand_ok h hsplit)

/-- Two taps, twelve rows apart, on an input of four rows with begin pads only. -/
def twoTaps : OrigOp ℕ where
  input := ⟨1, 1, 4, 3, fun _ _ y x => y + x⟩
  filter := ⟨1, 1, 2, 1, fun _ _ ky _ => ky + 1⟩
  bias := some ⟨1, 1, 1, 1, fun _ _ _ _ => 5⟩
  strides := ⟨2, 1⟩
  padsBegin := ⟨12, 0⟩
  padsEnd := ⟨0, 0⟩
  dilations := ⟨12, 1⟩
  postOp := some (· + 1)
  kind := .Convolution
  elemType := .f16

theorem matchAndRewrite_preserves_twoTaps :
    ∃ out g, twoTaps.eval = .ok out ∧ matchAndRewrite twoTaps ⟨out.H, out.W⟩ = .ok g ∧
      Preserves twoTaps out g := by
  have hreads : Reads twoTaps ⟨1, 1, 2, 3, fun n oc y x =>
      twoTaps.windowSum n oc y x + 5 + 1⟩ := by
    refine ⟨rfl, ⟨0, by decide, 1, by decide, by decide⟩, 0, by decide, 0, by decide, by decide⟩
  obtain ⟨g, hg, hpreserves⟩ := (matchAndRewrite_preserves hreads).resolve_right
    fun hthrows => hthrows.2.2.1 (Or.inr rfl)
  exact ⟨_, g, hreads.eval, hg, hpreserves⟩

end Vpux.IE.Dilated
