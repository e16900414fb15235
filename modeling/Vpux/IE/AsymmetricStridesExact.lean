import Vpux.IE.AsymmetricStrides

/-! When the shifted convolutions compute what the convolution with different strides computed. -/
namespace Vpux.IE.AsymmetricStrides
open Finset Vpux.Const Data

variable {α : Type} [Semiring α] {op : ConvolutionOp α}

open ConvolutionOp Tensor

section Parts

variable {stride offsetH offsetW : ℕ}

/-- The convolution with one stride of the input without its first rows and columns. -/
def slicedConv (op : ConvolutionOp α) (stride offsetH offsetW : ℕ) : ConvolutionOp α :=
  makeOperation op
    (op.input.crop offsetH offsetW (op.input.H - offsetH) (op.input.W - offsetW))
    ⟨⟨stride, stride⟩, op.padsBegin, ⟨op.padsEnd.Y + offsetH, op.padsEnd.X + offsetW⟩⟩

theorem makeSliced_eq_ok {t : Tensor α} : makeSliced op ⟨stride, stride⟩ offsetH offsetW = .ok t ↔
    (offsetH < op.input.H ∧ offsetW < op.input.W) ∧
      (op.padsEnd.Y + offsetH ≤ (op.filter.H + 1) / 2 ∧
        op.padsEnd.X + offsetW ≤ (op.filter.W + 1) / 2) ∧
      (slicedConv op stride offsetH offsetW).eval = .ok t := by
  have hfits : (⟨offsetH, offsetW, op.input.H - offsetH, op.input.W - offsetW⟩ : Slice).Fits
      op.input.H op.input.W ↔ offsetH < op.input.H ∧ offsetW < op.input.W := by
    simp only [Slice.Fits]
    omega
  have hsizes : ((op.input.H : ℤ) - offsetH).toNat = op.input.H - offsetH ∧
      ((op.input.W : ℤ) - offsetW).toNat = op.input.W - offsetW := by omega
  simp only [makeSliced, bind_eq_ok, sliceOp_eq_ok, throwUnless_eq_ok, hfits, hsizes, not_or,
    not_lt]
  constructor
  · rintro ⟨_, ⟨hinside, rfl⟩, _, hpads, heval⟩
    exact ⟨hinside, hpads, heval⟩
  · rintro ⟨hinside, hpads, heval⟩
    exact ⟨_, ⟨hinside, rfl⟩, (), hpads, heval⟩

theorem eval_slicedConv (hchannels : op.groupChannels = op.filter.C) {H W : ℕ}
    (hH : inferDim op.input.H op.padsBegin.Y op.padsEnd.Y op.filter.H stride op.dilations.Y = .ok H)
    (hW : inferDim op.input.W op.padsBegin.X op.padsEnd.X op.filter.W stride op.dilations.X = .ok W)
    (hoffsetH : offsetH ≤ op.input.H) (hoffsetW : offsetW ≤ op.input.W) :
    (slicedConv op stride offsetH offsetW).eval = .ok ⟨op.input.N, op.filter.N, H, W,
      fun n oc y x => applyPostOp op.postOp
        ((slicedConv op stride offsetH offsetW).windowSum n oc y x +
          biasAt op.bias oc)⟩ := by
  have hspanH : op.input.H - offsetH + op.padsBegin.Y + (op.padsEnd.Y + offsetH) =
      op.input.H + op.padsBegin.Y + op.padsEnd.Y := by omega
  have hspanW : op.input.W - offsetW + op.padsBegin.X + (op.padsEnd.X + offsetW) =
      op.input.W + op.padsBegin.X + op.padsEnd.X := by omega
  refine eval_eq_ok.mpr ⟨hchannels, H, W, ?_, ?_, rfl⟩
  · rw [inferDim_eq_ok] at hH ⊢
    change _ ∧ _ ≤ op.input.H - offsetH + op.padsBegin.Y + (op.padsEnd.Y + offsetH) ∧
      (op.input.H - offsetH + op.padsBegin.Y + (op.padsEnd.Y + offsetH) - _) / _ + 1 = H
    rw [hspanH]
    exact hH
  · rw [inferDim_eq_ok] at hW ⊢
    change _ ∧ _ ≤ op.input.W - offsetW + op.padsBegin.X + (op.padsEnd.X + offsetW) ∧
      (op.input.W - offsetW + op.padsBegin.X + (op.padsEnd.X + offsetW) - _) / _ + 1 = W
    rw [hspanW]
    exact hW

theorem windowSum_slicedConv {y x y' x' : ℕ}
    (hY : ∀ ky < op.filter.H, Tensor.SameRead op.input.H op.padsBegin.Y
      (y * op.strides.Y + ky * op.dilations.Y) (op.input.H - offsetH) op.padsBegin.Y
      (y' * stride + ky * op.dilations.Y) offsetH)
    (hX : ∀ kx < op.filter.W, Tensor.SameRead op.input.W op.padsBegin.X
      (x * op.strides.X + kx * op.dilations.X) (op.input.W - offsetW) op.padsBegin.X
      (x' * stride + kx * op.dilations.X) offsetW) (n oc : ℕ) :
    (slicedConv op stride offsetH offsetW).windowSum n oc y' x' = op.windowSum n oc y x := by
  apply sum_congr rfl
  intro ic _
  apply sum_congr rfl
  intro ky hky
  apply sum_congr rfl
  intro kx hkx
  exact congrArg (· * op.filter.get oc ic ky kx) (padded_crop (hY ky (mem_range.mp hky))
    (hX kx (mem_range.mp hkx)) n (op.inputChannel oc ic))

theorem windowSum_eq_zero_of_x {x : ℕ} (h : ∀ kx < op.filter.W,
    ¬(op.padsBegin.X ≤ x * op.strides.X + kx * op.dilations.X ∧
      x * op.strides.X + kx * op.dilations.X < op.padsBegin.X + op.input.W)) (n oc y : ℕ) :
    op.windowSum n oc y x = 0 := by
  apply sum_eq_zero
  intro ic _
  apply sum_eq_zero
  intro ky _
  apply sum_eq_zero
  intro kx hkx
  rw [padded_eq_zero_of_x (h kx (mem_range.mp hkx)), zero_mul]

end Parts

section Values

/-- What flows through a convolution, apart from its sizes. -/
structure Values (α : Type) where
  input : ℕ → ℕ → ℕ → ℕ → α
  filter : ℕ → ℕ → ℕ → ℕ → α
  bias : Option (Tensor α)
  postOp : Option (α → α)

def withValues (op : ConvolutionOp α) (v : Values α) : ConvolutionOp α :=
  { op with
    input := { op.input with get := v.input }
    filter := { op.filter with get := v.filter }
    bias := v.bias
    postOp := v.postOp }

/-- Ones, and a filter with a single one. -/
def oneTap (ky kx : ℕ) : Values α where
  input _ _ _ _ := 1
  filter oc ic y x := if oc = 0 ∧ ic = 0 ∧ y = ky ∧ x = kx then 1 else 0
  bias := none
  postOp := none

theorem windowSum_oneTap (conv : ConvolutionOp α) {ky kx : ℕ} (hC : 0 < conv.filter.C)
    (hky : ky < conv.filter.H)
    (hkx : kx < conv.filter.W) (hfilter : conv.filter.get = (oneTap ky kx : Values α).filter)
    (n y x : ℕ) : conv.windowSum n 0 y x =
      conv.input.padded conv.padsBegin.Y conv.padsBegin.X n (conv.inputChannel 0 0)
        (y * conv.strides.Y + ky * conv.dilations.Y)
          (x * conv.strides.X + kx * conv.dilations.X) := by
  simp only [windowSum, hfilter, oneTap]
  rw [sum_eq_single 0, sum_eq_single ky, sum_eq_single kx]
  · simp
  · intro i _ hi
    simp [hi]
  · simp [hkx]
  · intro i _ hi
    simp [hi]
  · simp [hky]
  · intro i _ hi
    simp [hi]
  · simp [hC]

theorem exists_values_ne [Nontrivial α] {stride offsetH offsetW y x y' x' ky kx : ℕ}
    (hC : 0 < op.filter.C) (hky : ky < op.filter.H) (hkx : kx < op.filter.W)
    (hY : op.padsBegin.Y ≤ y * op.strides.Y + ky * op.dilations.Y ∧
      y * op.strides.Y + ky * op.dilations.Y < op.padsBegin.Y + op.input.H)
    (hX : op.padsBegin.X ≤ x * op.strides.X + kx * op.dilations.X ∧
      x * op.strides.X + kx * op.dilations.X < op.padsBegin.X + op.input.W)
    (hpad : y' * stride + ky * op.dilations.Y < op.padsBegin.Y ∨
      x' * stride + kx * op.dilations.X < op.padsBegin.X) (n : ℕ) :
    (slicedConv (withValues op (oneTap ky kx)) stride offsetH offsetW).windowSum n 0 y' x' ≠
      (withValues op (oneTap ky kx)).windowSum n 0 y x := by
  have hpart : (slicedConv (withValues op (oneTap ky kx)) stride offsetH offsetW).windowSum
      n 0 y' x' = 0 := by
    rw [windowSum_oneTap (slicedConv (withValues op (oneTap ky kx)) _ _ _) hC hky hkx rfl]
    obtain hpad | hpad := hpad
    · exact padded_eq_zero_of_y (fun hmem => absurd hmem.1 (not_le.mpr hpad)) _ _ _ _
    · exact padded_eq_zero_of_x (fun hmem => absurd hmem.1 (not_le.mpr hpad)) _ _ _ _
  have hwhole : (withValues op (oneTap ky kx)).windowSum n 0 y x = 1 := by
    rw [windowSum_oneTap (withValues op (oneTap ky kx)) hC hky hkx rfl]
    exact if_pos ⟨hY.1, hY.2, hX.1, hX.2⟩
  rw [hpart, hwhole]
  exact zero_ne_one

end Values

def axisY (op : ConvolutionOp α) : Axis :=
  ⟨op.input.H, op.filter.H, op.padsBegin.Y, op.padsEnd.Y, op.strides.Y⟩

def axisX (op : ConvolutionOp α) : Axis :=
  ⟨op.input.W, op.filter.W, op.padsBegin.X, op.padsEnd.X, op.strides.X⟩

theorem inferDim_axis {a : Axis} {stride out : ℕ} :
    inferDim a.size a.padBegin a.padEnd a.kernel stride 1 = .ok out ↔
      (0 < stride ∧ 0 < a.kernel) ∧ a.kernel ≤ a.size + a.padBegin + a.padEnd ∧
        a.travel / stride + 1 = out := by
  rw [inferDim_eq_ok, Nat.mul_one]
  constructor
  · rintro ⟨⟨hstride, -, hkernel⟩, hfits, hcount⟩
    rw [Nat.sub_add_cancel hkernel] at hfits hcount
    exact ⟨⟨hstride, hkernel⟩, hfits, hcount⟩
  · rintro ⟨⟨hstride, hkernel⟩, hfits, hcount⟩
    rw [Nat.sub_add_cancel hkernel]
    exact ⟨⟨hstride, Nat.one_pos, hkernel⟩, hfits, hcount⟩

/-- What has to hold of the sizes for the parts to be made and put together. -/
structure PartsFit (op : ConvolutionOp α) (q : ℕ) (minor major : Axis) : Prop where
  dilations : op.dilations = ⟨1, 1⟩
  channels : op.groupChannels = op.filter.C
  one_lt : 1 < q
  minor_stride : minor.stride = 1
  major_stride : major.stride = q
  minor_reach : 0 < minor.kernel ∧ minor.kernel ≤ minor.size + minor.padBegin + minor.padEnd
  major_reach : 0 < major.kernel ∧ major.kernel ≤ major.size + major.padBegin + major.padEnd
  inside : q ≤ minor.size ∧ 0 < major.size
  pads : minor.padEnd + (q - 1) ≤ (minor.kernel + 1) / 2 ∧ major.padEnd ≤ (major.kernel + 1) / 2

theorem eval_whole (hdilations : op.dilations = ⟨1, 1⟩)
    (hchannels : op.groupChannels = op.filter.C)
    (hstrides : 0 < op.strides.Y ∧ 0 < op.strides.X)
    (hY : 0 < (axisY op).kernel ∧
      (axisY op).kernel ≤ (axisY op).size + (axisY op).padBegin + (axisY op).padEnd)
    (hX : 0 < (axisX op).kernel ∧
      (axisX op).kernel ≤ (axisX op).size + (axisX op).padBegin + (axisX op).padEnd) :
    op.eval = .ok ⟨op.input.N, op.filter.N, (axisY op).travel / op.strides.Y + 1,
      (axisX op).travel / op.strides.X + 1, fun n oc y x => applyPostOp op.postOp
        (op.windowSum n oc y x + biasAt op.bias oc)⟩ := by
  refine eval_eq_ok.mpr ⟨hchannels, _, _, ?_, ?_, rfl⟩
  · rw [hdilations]
    exact inferDim_axis.mpr ⟨⟨hstrides.1, hY.1⟩, hY.2, rfl⟩
  · rw [hdilations]
    exact inferDim_axis.mpr ⟨⟨hstrides.2, hX.1⟩, hX.2, rfl⟩

theorem sameRead_refl {size pad place : ℕ} : Tensor.SameRead size pad place (size - 0) pad place
    0 :=
  ⟨Iff.rfl, fun _ _ => Nat.zero_add _⟩

section Rows

variable {q : ℕ}

namespace PartsFit

variable {minor major : Axis}

omit [Semiring α] in
theorem counts (h : PartsFit op q minor major) :
    inferDim minor.size minor.padBegin minor.padEnd minor.kernel q 1 =
      .ok (minor.travel / q + 1) ∧
      inferDim major.size major.padBegin major.padEnd major.kernel q 1 =
        .ok (major.travel / q + 1) := by
  have hq : 0 < q := Nat.zero_lt_of_lt h.one_lt
  exact ⟨inferDim_axis.mpr ⟨⟨hq, h.minor_reach.1⟩, h.minor_reach.2, rfl⟩,
    inferDim_axis.mpr ⟨⟨hq, h.major_reach.1⟩, h.major_reach.2, rfl⟩⟩

end PartsFit

/-- The result of the convolution of the rows from `j` on. -/
def rowsPart (op : ConvolutionOp α) (q j : ℕ) : Tensor α :=
  ⟨op.input.N, op.filter.N, (axisY op).travel / q + 1, (axisX op).travel / q + 1,
    fun n oc y x => applyPostOp op.postOp
      ((slicedConv op q j 0).windowSum n oc y x + ConvolutionOp.biasAt op.bias oc)⟩

section

variable (h : PartsFit op q (axisY op) (axisX op))
include h

theorem makeSliced_row {j : ℕ} (hj : j < q) :
    makeSliced op ⟨q, q⟩ j 0 = .ok (rowsPart op q j) := by
  obtain ⟨hH, hW⟩ := h.counts
  have hinside := h.inside
  have hpads := h.pads
  simp only [axisY, axisX] at hinside hpads
  apply makeSliced_eq_ok.mpr
  refine ⟨⟨by omega, hinside.2⟩, ⟨by omega, by omega⟩, ?_⟩
  apply eval_slicedConv h.channels
  · rw [h.dilations]
    exact hH
  · rw [h.dilations]
    exact hW
  · omega
  · omega

theorem generalSplitter_rows (hcut : ¬isShortcut op) :
    ∃ g, generalSplitter op = .ok (some g) ∧
      g.Agrees ⟨op.input.N, op.filter.N, q * ((axisY op).travel / q + 1),
        (axisX op).travel / q + 1, fun n oc y x => (rowsPart op q (y % q)).get n oc (y / q) x⟩ := by
  have hq : 0 < q := Nat.zero_lt_of_lt h.one_lt
  have hY : op.strides.Y = 1 := h.minor_stride
  have hX : op.strides.X = q := h.major_stride
  have hsplit := generalSplitter_of_rows hcut (by omega) hq (by rw [hX, hY, Nat.mul_one])
  have hparts : (List.range q).mapM (fun j => makeSliced op ⟨q, q⟩ j 0) =
      .ok ((List.range q).map (rowsPart op q)) :=
    mapM_ok fun j hj => makeSliced_row h (List.mem_range.mp hj)
  obtain ⟨u, hu, ⟨hN, hC, hH, hW⟩, hget⟩ := concatOpH_ok (t := rowsPart op q) hq
    (Nat.succ_pos ((axisY op).travel / q)) fun _ _ => rfl
  refine ⟨u, ?_, hN, hC, hH, hW, ?_⟩
  · simp only [hX, hY, Nat.mul_one] at hsplit
    rw [hsplit, hparts]
    simp only [bind, Except.bind]
    rw [concatParts_of_one_lt _ _ _ (by simpa using h.one_lt), hu]
    rfl
  · intro n _ oc _ y hy x _
    exact hget n oc y (hH ▸ hy) x

theorem windowSum_rows (hreads : (axisY op).Undisturbed q ∨ ¬(axisX op).Meets) {x : ℕ}
    (hx : x < (axisX op).travel / q + 1) (n oc y : ℕ) :
    (slicedConv op q (y % q) 0).windowSum n oc (y / q) x = op.windowSum n oc y x := by
  have hq : 0 < q := Nat.zero_lt_of_lt h.one_lt
  have hY : op.strides.Y = 1 := h.minor_stride
  have hX : op.strides.X = q := h.major_stride
  have hdilations := h.dilations
  obtain hkept | hmiss := hreads
  · apply windowSum_slicedConv
    · intro ky hky
      have hmod := Nat.mod_lt y hq
      have hinside := h.inside.1
      rw [hY, hdilations, Nat.mul_one, Nat.mul_one]
      exact Axis.sameRead hkept (by omega) hky hq
    · intro kx _
      rw [hX]
      exact sameRead_refl
  · have hnone : ∀ kx < op.filter.W, ¬(op.padsBegin.X ≤ x * q + kx * op.dilations.X ∧
        x * q + kx * op.dilations.X < op.padsBegin.X + op.input.W) := by
      intro kx hkx hmem
      rw [hdilations, Nat.mul_one] at hmem
      exact hmiss ⟨x, by rw [h.major_stride]; exact hx, kx, hkx, by rwa [h.major_stride]⟩
    have hpart : (slicedConv op q (y % q) 0).windowSum n oc (y / q) x = 0 :=
      windowSum_eq_zero_of_x hnone n oc (y / q)
    have hwhole : op.windowSum n oc y x = 0 := windowSum_eq_zero_of_x (by rwa [hX]) n oc y
    rw [hpart, hwhole]

end

omit [Semiring α] in
theorem PartsFit.withValues (h : PartsFit op q (axisY op) (axisX op)) (v : Values α) :
    PartsFit (withValues op v) q (axisY op) (axisX op) :=
  ⟨h.dilations, h.channels, h.one_lt, h.minor_stride, h.major_stride, h.minor_reach,
    h.major_reach, h.inside, h.pads⟩

theorem rows_iff [Nontrivial α] (h : PartsFit op q (axisY op) (axisX op)) (hcut : ¬isShortcut op)
    (hN : 0 < op.input.N) (hOC : 0 < op.filter.N) (hC : 0 < op.filter.C) :
    (∀ v out g, (withValues op v).eval = .ok out →
      generalSplitter (withValues op v) = .ok (some g) → g.Agrees out) ↔
      ((axisY op).travel + 1) % q = 0 ∧ ((axisY op).Undisturbed q ∨ ¬(axisX op).Meets) := by
  have hq : 0 < q := Nat.zero_lt_of_lt h.one_lt
  have hY : op.strides.Y = 1 := h.minor_stride
  have hX : op.strides.X = q := h.major_stride
  have heval : ∀ v, (withValues op v).eval = .ok ⟨op.input.N, op.filter.N,
      (axisY op).travel + 1, (axisX op).travel / q + 1, fun n oc y x => applyPostOp v.postOp
        ((withValues op v).windowSum n oc y x + biasAt v.bias oc)⟩ := by
    intro v
    have hwhole := @eval_whole _ _ (withValues op v) h.dilations h.channels
      ⟨by rw [show (withValues op v).strides.Y = 1 from hY]; exact Nat.one_pos,
        by rw [show (withValues op v).strides.X = q from hX]; exact hq⟩ h.minor_reach h.major_reach
    rw [show (withValues op v).strides.Y = 1 from hY, show (withValues op v).strides.X = q from hX,
      Nat.div_one] at hwhole
    exact hwhole
  constructor
  · intro hall
    have hcount : q * ((axisY op).travel / q + 1) = (axisY op).travel + 1 := by
      obtain ⟨g, hg, hagrees⟩ := generalSplitter_rows (h.withValues (oneTap 0 0)) hcut
      exact hagrees.H.symm.trans (hall _ _ g (heval _) hg).H
    refine ⟨(Axis.count_eq hq).mp hcount, ?_⟩
    by_contra hreads
    obtain ⟨hdisturbed, hmeets⟩ := not_or.mp hreads
    obtain ⟨x, hx, kx, hkx, hmem⟩ := not_not.mp hmeets
    obtain ⟨j, hj, r, hr, ky, hky, hpad, hplace⟩ := Axis.exists_misread hdisturbed h.one_lt
      (by have := h.inside.1; omega) h.minor_reach.1 h.minor_reach.2
    obtain ⟨g, hg, hagrees⟩ := generalSplitter_rows (h.withValues (oneTap ky kx)) hcut
    have hout := hall _ _ g (heval _) hg
    have hmod : (r * q + j) % q = j := by
      rw [Nat.mul_comm, Nat.mul_add_mod, Nat.mod_eq_of_lt hj]
    have hdiv : (r * q + j) / q = r := by
      rw [Nat.mul_comm, Nat.mul_add_div hq, Nat.div_eq_of_lt hj, Nat.add_zero]
    have hrow : r * q + j < g.H := by
      have hH : g.H = q * ((axisY op).travel / q + 1) := hagrees.H
      have hlast := Nat.mul_le_mul_right q hr
      rw [hH, Nat.mul_comm q]
      rw [Nat.succ_mul] at hlast
      omega
    have hcolumn : x < g.W := by
      rw [hagrees.W]
      rwa [h.major_stride] at hx
    have hvalue : (slicedConv (withValues op (oneTap ky kx)) q ((r * q + j) % q) 0).windowSum 0 0
        ((r * q + j) / q) x + 0 =
        (withValues op (oneTap ky kx)).windowSum 0 0 (r * q + j) x + 0 :=
      (hagrees.get 0 (hagrees.N ▸ hN) 0 (hagrees.C ▸ hOC) _ hrow x hcolumn).symm.trans
        (hout.get 0 (hagrees.N ▸ hN) 0 (hagrees.C ▸ hOC) _ hrow x hcolumn)
    rw [hmod, hdiv, add_zero, add_zero] at hvalue
    refine exists_values_ne hC hky hkx ?_ ?_ (Or.inl ?_) 0 hvalue
    · rw [hY, h.dilations, Nat.mul_one, Nat.mul_one]
      have := h.inside.1
      change op.padsBegin.Y ≤ _ ∧ _ < op.padsBegin.Y + (axisY op).size
      change _ = op.padsBegin.Y at hplace
      omega
    · rw [hX, h.dilations, Nat.mul_one]
      rwa [h.major_stride] at hmem
    · rw [h.dilations, Nat.mul_one]
      exact hpad
  · rintro ⟨hcount, hreads⟩ v out g hout hg
    obtain rfl := Except.ok.inj ((heval v).symm.trans hout)
    obtain ⟨g', hg', hagrees⟩ := generalSplitter_rows (h.withValues v) hcut
    obtain rfl : g' = g := Option.some.inj (Except.ok.inj (hg'.symm.trans hg))
    apply hagrees.trans
    refine ⟨rfl, rfl, (Axis.count_eq hq).mpr hcount, rfl, ?_⟩
    intro n _ oc _ y _ x hx
    change applyPostOp v.postOp (_ + _) = applyPostOp v.postOp (_ + _)
    rw [windowSum_rows (h.withValues v) hreads hx]
    rfl

end Rows

section Transposition

variable {q : ℕ} {g : Tensor α}

theorem makeSliced_transpose {stride offsetH offsetW : ℕ}
    (h : makeSliced op ⟨stride, stride⟩ offsetH offsetW = .ok g) :
    makeSliced op.transpose ⟨stride, stride⟩ offsetW offsetH = .ok g.transpose := by
  obtain ⟨hinside, hpads, heval⟩ := makeSliced_eq_ok.mp h
  exact makeSliced_eq_ok.mpr ⟨hinside.symm, hpads.symm, eval_transpose heval⟩

theorem concatOpH_transpose (inputs : List (Tensor α)) (offset stride : ℕ) :
    concatOpH (inputs.map Tensor.transpose) offset stride =
      Tensor.transpose <$> concatOpW inputs offset stride := by
  have hsizes : (inputs.map Tensor.transpose).map (·.H) = inputs.map (·.W) := by
    rw [List.map_map]
    rfl
  unfold concatOpH concatOpW
  rw [hsizes, List.head?_map]
  cases inputs.head? with
  | none => rfl
  | some front =>
    cases inferOutDimWithAxis (inputs.map (·.W)) offset stride with
    | error e => rfl
    | ok W =>
      simp only [Option.map_some, Option.elim_some, bind, Except.bind, List.getElem?_map,
        Option.map_map]
      rfl

theorem concatParts_transpose (offset stride : ℕ) (parts : List (Tensor α)) :
    concatParts concatOpH offset stride (parts.map Tensor.transpose) =
      Option.map Tensor.transpose <$> concatParts concatOpW offset stride parts := by
  match parts with
  | [] => rfl
  | [_] => rfl
  | part :: next :: parts =>
    change some <$> concatOpH ((part :: next :: parts).map Tensor.transpose) offset stride =
      Option.map Tensor.transpose <$> some <$> concatOpW (part :: next :: parts) offset stride
    rw [concatOpH_transpose]
    cases concatOpW (part :: next :: parts) offset stride <;> rfl

omit [Semiring α] in
theorem of_map_transpose {x : Except Fault (Option (Tensor α))}
    (h : Option.map Tensor.transpose <$> x = .ok (some g)) : x = .ok (some g.transpose) := by
  cases x with
  | error e => cases h
  | ok t =>
    cases t with
    | none => cases h
    | some t =>
      obtain rfl : t.transpose = g := Option.some.inj (Except.ok.inj h)
      rfl

/-- The stride of the columns is a multiple of the stride of the rows. -/
def RowsMinor (op : ConvolutionOp α) (q : ℕ) : Prop :=
  0 < op.strides.Y ∧ 1 < q ∧ op.strides.X = q * op.strides.Y

theorem shortcut_transpose (h : isShortcut op) (hok : generalSplitter op = .ok (some g)) :
    generalSplitter op.transpose = .ok (some g.transpose) := by
  rw [generalSplitter_of_shortcut h] at hok
  have h' : isShortcut op.transpose := h.symm
  rw [generalSplitter_of_shortcut h', show max op.transpose.strides.Y op.transpose.strides.X =
    max op.strides.Y op.strides.X from max_comm _ _]
  cases heval : (makeOperation op op.input
      ⟨⟨max op.strides.Y op.strides.X, max op.strides.Y op.strides.X⟩, op.padsBegin,
        op.padsEnd⟩).eval with
  | error e =>
    rw [heval] at hok
    cases hok
  | ok t =>
    rw [heval] at hok
    obtain rfl : t = g := Option.some.inj (Except.ok.inj hok)
    have htransposed := eval_transpose heval
    exact congrArg (some <$> ·) htransposed

theorem generalSplitter_transpose (h : RowsMinor op q ∨ RowsMinor op.transpose q)
    (hok : generalSplitter op = .ok (some g)) :
    generalSplitter op.transpose = .ok (some g.transpose) := by
  by_cases hcut : isShortcut op
  · exact shortcut_transpose hcut hok
  have hcut' : ¬isShortcut op.transpose := fun hor => hcut hor.symm
  obtain ⟨hs, hq, hX⟩ | ⟨hs, hq, hY⟩ := h
  · rw [generalSplitter_of_rows hcut hs (by omega) hX] at hok
    obtain ⟨parts, hparts, hconcat⟩ := bind_eq_ok.mp hok
    rw [generalSplitter_of_columns hcut' hs (by omega) hX, bind_eq_ok]
    refine ⟨parts.map Tensor.transpose, mapM_ok_map (fun j _ t ht => makeSliced_transpose ht)
      hparts, ?_⟩
    have hmap : (parts.map Tensor.transpose).map Tensor.transpose = parts := by
      rw [List.map_map]
      exact List.map_id parts
    rw [← hmap, concatParts_transpose] at hconcat
    exact of_map_transpose hconcat
  · rw [generalSplitter_of_columns hcut hs (by omega) hY] at hok
    obtain ⟨parts, hparts, hconcat⟩ := bind_eq_ok.mp hok
    rw [generalSplitter_of_rows hcut' hs (by omega) hY, bind_eq_ok]
    refine ⟨parts.map Tensor.transpose, mapM_ok_map (fun j _ t ht => makeSliced_transpose ht)
      hparts, ?_⟩
    rw [concatParts_transpose]
    exact congrArg (Option.map Tensor.transpose <$> ·) hconcat

end Transposition

/-- For all values, what is built computes what the convolution computes. -/
def Preserved (op : ConvolutionOp α) : Prop :=
  ∀ v out g, (withValues op v).eval = .ok out → matchAndRewrite (withValues op v) = .ok (some g) →
    g.Agrees out

theorem preserved_transpose {q : ℕ} (h : RowsMinor op q ∨ RowsMinor op.transpose q) :
    Preserved op.transpose ↔ Preserved op := by
  have hone : ∀ op : ConvolutionOp α, RowsMinor op q ∨ RowsMinor op.transpose q →
      Preserved op → Preserved op.transpose := by
    intro op h hall v out g hout hg
    have hstrides : RowsMinor (withValues op.transpose v) q ∨
        RowsMinor (withValues op.transpose v).transpose q := h.symm
    have hvalues := hall ⟨fun n c y x => v.input n c x y, fun oc ic y x => v.filter oc ic x y,
      v.bias, v.postOp⟩ out.transpose g.transpose (eval_transpose hout)
      (generalSplitter_transpose hstrides hg)
    exact hvalues.transpose
  exact ⟨hone op.transpose h.symm, hone op h⟩

section Claim

variable {q : ℕ} {out g : Tensor α}

/-- Parts that are made and put together fit, and the smaller stride is one. -/
theorem partsFit_of_ok (hminor : RowsMinor op q) (hcut : ¬isShortcut op)
    (hdilations : op.dilations = ⟨1, 1⟩) (heval : op.eval = .ok out)
    (hok : generalSplitter op = .ok (some g)) : PartsFit op q (axisY op) (axisX op) := by
  obtain ⟨hs, hq, hX⟩ := hminor
  obtain ⟨hchannels, H, W, hH, hW, -⟩ := eval_eq_ok.mp heval
  rw [hdilations] at hH hW
  obtain ⟨⟨-, hkernelY⟩, hreachY, -⟩ := inferDim_axis.mp (show inferDim (axisY op).size
    (axisY op).padBegin (axisY op).padEnd (axisY op).kernel op.strides.Y 1 = .ok H from hH)
  obtain ⟨⟨hstrideX, hkernelX⟩, hreachX, -⟩ := inferDim_axis.mp (show inferDim (axisX op).size
    (axisX op).padBegin (axisX op).padEnd (axisX op).kernel op.strides.X 1 = .ok W from hW)
  rw [generalSplitter_of_rows hcut hs (by omega) hX] at hok
  obtain ⟨parts, hparts, hconcat⟩ := bind_eq_ok.mp hok
  have hmade : ∀ j < q, ∃ t, makeSliced op ⟨op.strides.X, op.strides.X⟩ (j * op.strides.Y) 0 =
      .ok t := fun j hj => mapM_runs hparts j (List.mem_range.mpr hj)
  have : Nonempty (Tensor α) := ⟨g⟩
  choose! t ht using hmade
  have hheight : ∀ j < q, (t j).H = (axisY op).travel / op.strides.X + 1 := by
    intro j hj
    obtain ⟨hinside, -, hconv⟩ := makeSliced_eq_ok.mp (ht j hj)
    have hvalue := eval_slicedConv hchannels (by
      rw [hdilations]
      exact inferDim_axis.mpr ⟨⟨hstrideX, hkernelY⟩, hreachY, rfl⟩) (by rw [hdilations]; exact hW)
      hinside.1.le hinside.2.le
    rw [← Except.ok.inj (hvalue.symm.trans hconv)]
  have hlist : parts = (List.range q).map t := Except.ok.inj (hparts.symm.trans
    (mapM_ok fun j hj => ht j (List.mem_range.mp hj)))
  rw [hlist, concatParts_of_one_lt _ _ _ (by simpa using hq), hX] at hconcat
  cases hu : concatOpH ((List.range q).map t) op.strides.Y (q * op.strides.Y) with
  | error e =>
    rw [hu] at hconcat
    cases hconcat
  | ok u =>
    have hone := eq_one_of_concatOpH hs hq (Nat.succ_pos _) hheight hu
    obtain ⟨hinside, hpads, -⟩ := makeSliced_eq_ok.mp (ht (q - 1) (by omega))
    rw [hone, Nat.mul_one] at hinside hpads
    constructor
    · exact hdilations
    · exact hchannels
    · exact hq
    · exact hone
    · rw [axisX, hX, hone, Nat.mul_one]
    · exact ⟨hkernelY, hreachY⟩
    · exact ⟨hkernelX, hreachX⟩
    · exact ⟨by simp only [axisY]; omega, by simp only [axisX]; omega⟩
    · exact ⟨hpads.1, hpads.2⟩

/-- One convolution with the larger stride does when there is one row only. -/
theorem shortcut_iff (hminor : RowsMinor op q) (hcut : isShortcut op)
    (hdilations : op.dilations = ⟨1, 1⟩) (heval : op.eval = .ok out) :
    Preserved op ↔ (axisY op).travel < (axisY op).stride := by
  obtain ⟨hs, hq, hX⟩ := hminor
  have hlt : op.strides.Y < op.strides.X := by
    rw [hX]
    exact lt_mul_of_one_lt_left hs hq
  have hmax : max op.strides.Y op.strides.X = op.strides.X := max_eq_right hlt.le
  obtain ⟨hchannels, H, W, hH, hW, -⟩ := eval_eq_ok.mp heval
  rw [hdilations] at hH hW
  obtain ⟨⟨-, hkernelY⟩, hreachY, -⟩ := inferDim_axis.mp (show inferDim (axisY op).size
    (axisY op).padBegin (axisY op).padEnd (axisY op).kernel op.strides.Y 1 = .ok H from hH)
  obtain ⟨⟨hstrideX, hkernelX⟩, hreachX, -⟩ := inferDim_axis.mp (show inferDim (axisX op).size
    (axisX op).padBegin (axisX op).padEnd (axisX op).kernel op.strides.X 1 = .ok W from hW)
  have hwhole : ∀ v, (withValues op v).eval = .ok ⟨op.input.N, op.filter.N,
      (axisY op).travel / op.strides.Y + 1, (axisX op).travel / op.strides.X + 1,
      fun n oc y x => applyPostOp v.postOp
        ((withValues op v).windowSum n oc y x + biasAt v.bias oc)⟩ :=
    fun v => eval_whole hdilations hchannels ⟨hs, hstrideX⟩ ⟨hkernelY, hreachY⟩
      ⟨hkernelX, hreachX⟩
  have hsingle : ∀ v, matchAndRewrite (withValues op v) = .ok (some ⟨op.input.N, op.filter.N,
      (axisY op).travel / op.strides.X + 1, (axisX op).travel / op.strides.X + 1,
      fun n oc y x => applyPostOp v.postOp
        (({ withValues op v with strides := ⟨op.strides.X, op.strides.X⟩ } :
          ConvolutionOp α).windowSum n oc y x + biasAt v.bias oc)⟩) := by
    intro v
    have hcut' : isShortcut (withValues op v) := hcut
    rw [matchAndRewrite, generalSplitter_of_shortcut hcut', show max
      (withValues op v).strides.Y (withValues op v).strides.X = op.strides.X from hmax]
    have hconv : ({ withValues op v with strides := ⟨op.strides.X, op.strides.X⟩ } :
        ConvolutionOp α).eval = _ := eval_whole hdilations hchannels ⟨hstrideX, hstrideX⟩
      ⟨hkernelY, hreachY⟩ ⟨hkernelX, hreachX⟩
    exact congrArg (some <$> ·) hconv
  have hcounts : (axisY op).travel / op.strides.X = (axisY op).travel / op.strides.Y ↔
      (axisY op).travel < op.strides.Y := by
    rw [hX, Nat.mul_comm q, ← Nat.div_div_eq_div_mul]
    constructor
    · intro heq
      by_contra hge
      have hpos := Nat.div_pos (not_lt.mp hge) hs
      exact absurd heq (Nat.div_lt_self hpos hq).ne
    · intro hsmall
      rw [Nat.div_eq_of_lt hsmall, Nat.zero_div]
  constructor
  · intro hall
    have hagrees := hall (oneTap 0 0) _ _ (hwhole _) (hsingle _)
    exact hcounts.mp (Nat.succ.inj hagrees.H)
  · intro hsmall v out g hout hg
    obtain rfl := Except.ok.inj ((hwhole v).symm.trans hout)
    obtain rfl := Option.some.inj (Except.ok.inj ((hsingle v).symm.trans hg))
    refine ⟨rfl, rfl, congrArg Nat.succ (hcounts.mpr hsmall), rfl, ?_⟩
    intro n _ oc _ y hy x _
    have hsmall' : (axisY op).travel < op.strides.X := hsmall.trans hlt
    obtain rfl : y = 0 := by
      change y < (axisY op).travel / op.strides.X + 1 at hy
      rw [Nat.div_eq_of_lt hsmall'] at hy
      omega
    simp only [windowSum, Nat.zero_mul]
    rfl

/-- When the graph is right, for the dimension with the smaller stride and the other one. -/
def Exact (op : ConvolutionOp α) (minor major : Axis) : Prop :=
  if isShortcut op then minor.travel < minor.stride
  else (minor.travel + 1) % (major.stride / minor.stride) = 0 ∧
    (minor.Undisturbed (major.stride / minor.stride) ∨ ¬major.Meets)

instance (op : ConvolutionOp α) (minor major : Axis) : Decidable (Exact op minor major) :=
  inferInstanceAs (Decidable (if isShortcut op then minor.travel < minor.stride
    else (minor.travel + 1) % (major.stride / minor.stride) = 0 ∧
      (minor.Undisturbed (major.stride / minor.stride) ∨ ¬major.Meets)))

theorem preserved_iff_of_rows [Nontrivial α] (hminor : RowsMinor op q)
    (hdilations : op.dilations = ⟨1, 1⟩)
    (hpos : 0 < op.input.N ∧ 0 < op.filter.N ∧ 0 < op.filter.C) (heval : op.eval = .ok out)
    (hok : matchAndRewrite op = .ok (some g)) : Preserved op ↔ Exact op (axisY op) (axisX op) := by
  have hratio : (axisX op).stride / (axisY op).stride = q := by
    obtain ⟨hs, -, hX⟩ := hminor
    rw [axisX, axisY, hX, Nat.mul_div_cancel _ hs]
  unfold Exact
  split_ifs with hcut
  · exact shortcut_iff hminor hcut hdilations heval
  · rw [hratio]
    exact rows_iff (partsFit_of_ok hminor hcut hdilations heval hok) hcut hpos.1 hpos.2.1 hpos.2.2

omit [Semiring α] in
theorem rowsMinor_of_not_isLegalOp (h : ¬isLegalOp op) : ∃ q, RowsMinor op q ∨
    RowsMinor op.transpose q := by
  have hratio : ∀ right left size : ℕ, checkStridesRelation right left size →
      1 < right / left ∧ right = right / left * left := by
    rintro right left size ⟨hlt, hpos, hmod, -⟩
    have hmul : right / left * left = right := Nat.div_mul_cancel (Nat.dvd_of_mod_eq_zero hmod)
    refine ⟨?_, hmul.symm⟩
    by_contra hle
    have := Nat.mul_le_mul_right left (not_lt.mp hle)
    omega
  obtain ⟨-, hrelation⟩ := not_or.mp h
  obtain hX | hY := not_not.mp hrelation
  · obtain ⟨hone, hmul⟩ := hratio _ _ _ hX
    exact ⟨_, Or.inl ⟨hX.2.1, hone, hmul⟩⟩
  · obtain ⟨hone, hmul⟩ := hratio _ _ _ hY
    exact ⟨_, Or.inr ⟨hY.2.1, hone, hmul⟩⟩

/-- The dimension with the smaller stride decides. -/
def StridesExact (op : ConvolutionOp α) : Prop :=
  if op.strides.Y < op.strides.X then Exact op (axisY op) (axisX op)
  else Exact op (axisX op) (axisY op)

instance (op : ConvolutionOp α) : Decidable (StridesExact op) :=
  inferInstanceAs (Decidable (if op.strides.Y < op.strides.X then Exact op (axisY op) (axisX op)
    else Exact op (axisX op) (axisY op)))

theorem matchAndRewrite_preserved_iff [Nontrivial α] (hlegal : ¬isLegalOp op)
    (hdilations : op.dilations = ⟨1, 1⟩)
    (hpos : 0 < op.input.N ∧ 0 < op.filter.N ∧ 0 < op.filter.C) (heval : op.eval = .ok out)
    (hok : matchAndRewrite op = .ok (some g)) : Preserved op ↔ StridesExact op := by
  obtain ⟨q, hminor⟩ := rowsMinor_of_not_isLegalOp hlegal
  obtain hrows | hcolumns := hminor
  · have hlt : op.strides.Y < op.strides.X := by
      rw [hrows.2.2]
      exact lt_mul_of_one_lt_left hrows.1 hrows.2.1
    rw [StridesExact, if_pos hlt]
    exact preserved_iff_of_rows hrows hdilations hpos heval hok
  · have hlt : op.strides.X < op.strides.Y := by
      have hY : op.strides.Y = q * op.strides.X := hcolumns.2.2
      rw [hY]
      exact lt_mul_of_one_lt_left hcolumns.1 hcolumns.2.1
    have hdilations' : op.transpose.dilations = ⟨1, 1⟩ := by
      rw [ConvolutionOp.transpose, hdilations]
      rfl
    have hmirror := preserved_iff_of_rows hcolumns hdilations' hpos
      (ConvolutionOp.eval_transpose heval) (generalSplitter_transpose (Or.inr hcolumns) hok)
    rw [StridesExact, if_neg hlt.not_gt, ← preserved_transpose (Or.inr hcolumns), hmirror]
    exact iff_of_eq (if_congr or_comm rfl rfl)

/-- Every second column, as in the tests of the pass. -/
def everySecondColumn : ConvolutionOp ℕ where
  input := ⟨1, 16, 64, 1024, fun _ c y x => c + y + x⟩
  filter := ⟨32, 16, 1, 3, fun _ _ _ _ => 1⟩
  bias := none
  strides := ⟨1, 2⟩
  padsBegin := ⟨0, 0⟩
  padsEnd := ⟨0, 1⟩
  dilations := ⟨1, 1⟩
  postOp := none
  kind := .Convolution

theorem everySecondColumn_preserved : Preserved everySecondColumn :=
  (matchAndRewrite_preserved_iff (by decide) rfl (by decide) rfl rfl).mpr (by decide)

/-- A kernel of three by three with a border of one. -/
def bordered : ConvolutionOp ℕ where
  input := ⟨1, 1, 4, 4, fun _ _ _ _ => 1⟩
  filter := ⟨1, 1, 3, 3, fun _ _ _ _ => 1⟩
  bias := none
  strides := ⟨1, 2⟩
  padsBegin := ⟨1, 1⟩
  padsEnd := ⟨1, 1⟩
  dilations := ⟨1, 1⟩
  postOp := none
  kind := .Convolution

theorem bordered_not_preserved : ¬isLegalOp bordered ∧ ∃ out g, bordered.eval = .ok out ∧
    matchAndRewrite bordered = .ok (some g) ∧ ¬g.Agrees out := by
  refine ⟨by decide, _, _, rfl, rfl, fun hagrees => ?_⟩
  have hvalue := hagrees.get 0 (by decide) 0 (by decide) 1 (by decide) 0 (by decide)
  revert hvalue
  decide

end Claim

end Vpux.IE.AsymmetricStrides
