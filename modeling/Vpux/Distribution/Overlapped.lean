import Vpux.Data.Folds
import Vpux.Distribution.Segments
import Vpux.Tiling.Preserve

/-! The clusters of an overlapped tensor. Their input ranges are those of their output segments,
their pads go by position, and the two agree when the border clusters alone touch the padding. -/
namespace Vpux.VPU
open Data Tiling Dims4D DistributionMode

/-- The padding on the two sides of a planar axis. -/
def padBefore (pads : PadInfo) (axis : ℕ) : ℤ := if axis = Act.H then pads.top else pads.left

def padAfter (pads : PadInfo) (axis : ℕ) : ℤ := if axis = Act.H then pads.bottom else pads.right

/-- The entry of a kernel or of strides for a planar axis. -/
def planar (values : List ℤ) (axis : ℕ) : ℤ :=
  if axis = Act.H then values.getD Kernel.Y 0 else values.getD Kernel.X 0

section Dim

variable {kernel stride size before after first count b a : ℤ}

/-- With the clipped range, a cluster reproduces its outputs exactly when its padding is what the
window of the first output needs and at least what the window of the last output needs. -/
theorem reproduces_clipped_iff (hkernel : 0 < kernel) (hstride : 0 < stride)
    (hfirst : 0 ≤ first) (hcount : 0 < count)
    (hstop : first + count ≤ (PaddedRange.mk 0 size before after).outputs kernel stride)
    (hb : 0 ≤ b) :
    (PaddedRange.mk (max 0 (first * stride - before))
        (min size ((first + count - 1) * stride + kernel - before) -
          max 0 (first * stride - before)) b a).Reproduces
      ⟨0, size, before, after⟩ kernel stride first count ↔
    b = max 0 (before - first * stride) ∧
      max 0 ((first + count - 1) * stride + kernel - before - size) ≤ a ∧
      a < max 0 ((first + count - 1) * stride + kernel - before - size) + stride := by
  have hspan : (first + count - 1) * stride = first * stride + (count - 1) * stride := by ring
  have hnext : count * stride = (count - 1) * stride + stride := by ring
  have hnonneg' : 0 ≤ (count - 1) * stride := mul_nonneg (by omega) hstride.le
  constructor
  · intro h
    have hread := h.read 0 le_rfl hcount 0 le_rfl hkernel
    have houtputs := (PaddedRange.outputs_eq_iff hstride).mp h.outputs
    simp only [PaddedRange.extent] at houtputs
    have hb' : b = max 0 (before - first * stride) := by
      simp only [zero_mul, add_zero] at hread
      rw [PaddedRange.read, PaddedRange.read,
        if_pos (by simp only [PaddedRange.extent]; omega : _ ∧ _ < PaddedRange.extent _)] at hread
      -- both sides are the same cell, an element or a padding position
      split_ifs at hread <;> simp only [Option.some.injEq, Cell.element.injEq, Cell.padding.injEq,
        reduceCtorEq] at hread <;> omega
    refine ⟨hb', ?_, ?_⟩ <;> omega
  · rintro ⟨rfl, hneed, hneed'⟩
    apply PaddedRange.Reproduces.of_window hstride hfirst hstop
    · simp only
      omega
    · simp only
      omega
    · rw [PaddedRange.outputs_eq_iff hstride]
      simp only [PaddedRange.extent]
      omega

end Dim

section Ranges

variable {sizes : List ℤ} {start : ℤ} {i : ℕ}

/-- Ranges of the given sizes, one after the other. -/
def consecutive (start : ℤ) (sizes : List ℤ) : List DimRange :=
  (sizes.zip (dividedOffsets start sizes)).map fun (size, offset) => ⟨offset, offset + size⟩

theorem consecutive_cons (size : ℤ) : consecutive start (size :: sizes) =
    ⟨start, start + size⟩ :: consecutive (start + size) sizes := rfl

theorem length_consecutive (start : ℤ) (sizes : List ℤ) :
    (consecutive start sizes).length = sizes.length := by
  simp [consecutive, dividedOffsets_length]

variable {range : DimRange}

theorem consecutive_bounds (hpos : ∀ s ∈ sizes, 0 < s) (h : range ∈ consecutive start sizes) :
    start ≤ range.begin ∧ range.begin < range.stop ∧ range.stop ≤ start + sizes.sum := by
  obtain ⟨⟨size, offset⟩, hmem, rfl⟩ := List.mem_map.mp h
  obtain ⟨i, hi⟩ := List.mem_iff_getElem?.mp hmem
  obtain ⟨hsize, hoffset⟩ := List.getElem?_zip_eq_some.mp hi
  have hbelow := dividedOffsets_add_le hpos hoffset hsize
  have habove := le_of_mem_dividedOffsets hpos (List.mem_of_getElem? hoffset)
  have hsizePos := hpos size (List.mem_of_getElem? hsize)
  exact ⟨habove, by simpa using hsizePos, hbelow⟩

theorem consecutive_first (h : (consecutive start sizes)[0]? = some range) :
    range.begin = start := by
  cases sizes with
  | nil => simp [consecutive] at h
  | cons size sizes =>
    obtain rfl : ⟨start, start + size⟩ = range := by simpa [consecutive_cons] using h
    rfl

theorem consecutive_next {range next : DimRange} (h : (consecutive start sizes)[i]? = some range)
    (hnext : (consecutive start sizes)[i + 1]? = some next) : range.stop = next.begin := by
  induction sizes generalizing start i with
  | nil => simp [consecutive] at h
  | cons size sizes ih =>
    rw [consecutive_cons] at h hnext
    cases i with
    | zero =>
      obtain rfl : ⟨start, start + size⟩ = range := by simpa using h
      cases sizes with
      | nil => simp [consecutive] at hnext
      | cons size' sizes =>
        rw [consecutive_cons] at hnext
        obtain rfl : ⟨start + size, start + size + size'⟩ = next := by simpa using hnext
        rfl
    | succ i => exact ih h hnext

theorem consecutive_last (h : (consecutive start sizes)[i]? = some range)
    (hlast : i + 1 = sizes.length) : range.stop = start + sizes.sum := by
  induction sizes generalizing start i with
  | nil => simp at hlast
  | cons size sizes ih =>
    rw [consecutive_cons] at h
    rw [List.sum_cons]
    cases i with
    | zero =>
      obtain rfl : ⟨start, start + size⟩ = range := by simpa using h
      obtain rfl : sizes = [] := List.length_eq_zero_iff.mp (by simpa using hlast.symm)
      simp
    | succ i =>
      have := ih h (by simpa using hlast)
      omega

end Ranges

section Clusters

/-- A cluster's range lies inside the axis, and the padded range reproduces the segment. -/
structure ComputesSegment (shape : Shape) (axis : ℕ) (whole : PaddedRange) (kernel stride : ℤ)
    (segment : DimRange) (size offset : Shape) (pad : PadInfo) : Prop where
  inside : 0 ≤ offset.dim axis ∧ 0 < size.dim axis ∧
    offset.dim axis + size.dim axis ≤ shape.dim axis
  reproduces : (PaddedRange.mk (offset.dim axis) (size.dim axis) (padBefore pad axis)
    (padAfter pad axis)).Reproduces whole kernel stride segment.begin segment.length

def wholeAxis (shape : Shape) (axis : ℕ) (pads : PadInfo) : PaddedRange :=
  ⟨0, shape.dim axis, padBefore pads axis, padAfter pads axis⟩

/-- There is a range and a padding for each segment of the output, and they compute it. -/
def ComputesClusters (shape : Shape) (attr : DistributedTensorAttr) (axis : ℕ)
    (kernel strides : List ℤ) (pads : PadInfo) (segments : List DimRange) : Prop :=
  ∃ sizes offsets clusterPads, getPerClusterMemoryShapes shape attr = some sizes ∧
    getPerClusterMemoryShapeOffsets shape attr = some offsets ∧
    getPerClusterPadding attr pads = some clusterPads ∧
    sizes.length = segments.length ∧ offsets.length = segments.length ∧
    clusterPads.length = segments.length ∧
    ∀ (i : ℕ) segment, segments[i]? = some segment → ∃ size offset pad, sizes[i]? = some size ∧
      offsets[i]? = some offset ∧ clusterPads[i]? = some pad ∧
      ComputesSegment shape axis (wholeAxis shape axis pads) (planar kernel axis)
        (planar strides axis) segment size offset pad

variable {shape : Shape} {attr : DistributedTensorAttr} {tilingScheme kernel strides : List ℤ}
  {numClusters outputHeight outputWidth : ℤ} {pads : PadInfo} {outputTiles : List Shape} {axis : ℕ}

def inputRange (size kernel stride before : ℤ) (segment : DimRange) : DimRange :=
  ⟨max 0 (segment.begin * stride - before),
    min size ((segment.stop - 1) * stride + kernel - before)⟩

theorem getElem?_border {first mid last x : PadInfo} {m i : ℕ}
    (h : (first :: List.replicate m mid ++ [last])[i]? = some x) :
    (i = 0 ∧ x = first) ∨ (0 < i ∧ i ≤ m ∧ x = mid) ∨ (i = m + 1 ∧ x = last) := by
  cases i with
  | zero => exact .inl ⟨rfl, by simpa using h.symm⟩
  | succ i =>
    rw [List.cons_append, List.getElem?_cons_succ, List.getElem?_append, List.length_replicate] at h
    split_ifs at h with hlt
    · rw [List.getElem?_replicate, if_pos hlt, Option.some.injEq] at h
      exact .inr (.inl ⟨by omega, hlt, h.symm⟩)
    · rw [List.getElem?_singleton] at h
      split_ifs at h
      exact .inr (.inr ⟨by omega, (Option.some.inj h).symm⟩)

theorem getPerClusterPadding_eq (pads : PadInfo) (hmode : attr.mode = OVERLAPPED)
    (htiles : attr.numTiles = some tilingScheme) (hclusters : attr.numClusters = some numClusters)
    (haxis : getDistributedTilingAxis tilingScheme = Act.H ∨
      getDistributedTilingAxis tilingScheme = Act.W)
    (hexplicit : attr.computeShapes.isNone ∧ attr.computeOffsets.isNone)
    (hmany : 1 < numClusters) :
    ∃ clusterPads, getPerClusterPadding attr pads = some clusterPads ∧
      (clusterPads.length : ℤ) = numClusters ∧ ∀ (i : ℕ) pad, clusterPads[i]? = some pad →
        padBefore pad (getDistributedTilingAxis tilingScheme) =
          (if i = 0 then padBefore pads (getDistributedTilingAxis tilingScheme) else 0) ∧
        padAfter pad (getDistributedTilingAxis tilingScheme) =
          if (i : ℤ) + 1 = numClusters then padAfter pads (getDistributedTilingAxis tilingScheme)
          else 0 := by
  obtain ⟨left, right, top, bottom⟩ := pads
  have hne : ¬ Act.W = Act.H := by decide
  simp only [getPerClusterPadding, hmode, htiles, hclusters, haxis, hexplicit, guard_true,
    Option.pure_def, Option.bind_eq_bind, Option.bind_some, and_self]
  refine ⟨_, rfl, ?_, fun i pad hpad => ?_⟩
  · simp only [List.length_append, List.length_cons, List.length_replicate, List.length_nil]
    omega
  · generalize getDistributedTilingAxis tilingScheme = axis at *
    rcases getElem?_border hpad with ⟨rfl, rfl⟩ | ⟨hpos, hlt, rfl⟩ | ⟨rfl, rfl⟩
    · have hlast : ¬ ((0 : ℕ) : ℤ) + 1 = numClusters := by omega
      rw [if_pos rfl, if_neg hlast]
      rcases haxis with rfl | rfl <;> simp [padBefore, padAfter, hne]
    · have hfirst : ¬ i = 0 := by omega
      have hlast : ¬ (i : ℤ) + 1 = numClusters := by omega
      rw [if_neg hfirst, if_neg hlast]
      rcases haxis with rfl | rfl <;> simp [padBefore, padAfter, hne]
    · have hfirst : ¬ (numClusters - 2).toNat + 1 = 0 := by omega
      have hlast : (((numClusters - 2).toNat + 1 : ℕ) : ℤ) + 1 = numClusters := by omega
      rw [if_neg hfirst, if_pos hlast]
      rcases haxis with rfl | rfl <;> simp [padBefore, padAfter, hne]

section Memory

variable (hverify : verify attr shape = .ok ()) (hmode : attr.mode = OVERLAPPED)
variable (htiles : attr.numTiles = some tilingScheme)
  (hclusters : attr.numClusters = some numClusters)
variable (hkernel : attr.kernel = some kernel) (hstrides : attr.strides = some strides)
variable (hpads : attr.pads = some pads) (halign : ∀ a ∈ attr.alignment, 0 ∉ a)

include hverify hmode htiles hclusters hkernel hstrides hpads in
theorem overlapped_accepted {axis : ℕ} (haxis : axis = getDistributedTilingAxis tilingScheme) :
    (axis = Act.H ∨ axis = Act.W) ∧ axis < shape.length ∧ 1 < numClusters ∧
      tilingScheme.getD axis 0 = numClusters ∧
      (∀ a ∈ attr.alignment, shape.length = a.length ∧ a.getD axis 0 = 1) ∧
      0 < planar kernel axis ∧ 0 < planar strides axis ∧
      0 ≤ padBefore pads axis ∧ 0 ≤ padAfter pads axis ∧
      attr.computeShapes.isNone ∧ attr.computeOffsets.isNone := by
  subst haxis
  have htiled : attr.isTiledMode = true := by
    rw [DistributedTensorAttr.isTiledMode, hmode]
    rfl
  obtain ⟨tilingScheme', numClusters', htiles', hclusters', htiling, hoverlapped, hparams⟩ :=
    verify_tiled hverify htiled
  obtain rfl : tilingScheme = tilingScheme' := Option.some.inj (htiles.symm.trans htiles')
  obtain rfl : numClusters = numClusters' := Option.some.inj (hclusters.symm.trans hclusters')
  obtain ⟨haxis, hmany, hscheme⟩ := verifyTiling_ok htiling
  obtain ⟨hrank, hrankTiles⟩ := verifyParams_rank hparams
  obtain ⟨hplanar, honAxis, hnone⟩ := verify_overlapped hverify
    (hoverlapped (by rw [hmode]; rfl))
    (by rw [DistributedTensorAttr.overlappedWithKernelStridesPads, hkernel, hstrides, hpads]; rfl)
  have hkernelPos := verifyParams_kernel hparams hkernel
  have hstridesPos := verifyParams_strides hparams hstrides
  have hpadsNonneg := verifyParams_pads hparams hpads
  refine ⟨hplanar, ?_, hmany, hscheme, fun a ha =>
    ⟨hrank a ha, honAxis a ha⟩, ?_, ?_, ?_, ?_, hnone⟩
  · rw [hrankTiles tilingScheme htiles]
    exact haxis
  · unfold planar
    split_ifs <;> omega
  · unfold planar
    split_ifs <;> omega
  · unfold padBefore
    split_ifs <;> omega
  · unfold padAfter
    split_ifs <;> omega

theorem spatialOutputForInputWindowSize_spec
    (h : spatialOutputForInputWindowSize (shape.dim Act.H, shape.dim Act.W) (some kernel)
      (some strides) pads = .ok (outputHeight, outputWidth)) :
    (shape.dim Act.H - kernel.getD Kernel.Y 0 + pads.top + pads.bottom).tdiv
        (strides.getD Kernel.Y 0) + 1 = outputHeight ∧
      (shape.dim Act.W - kernel.getD Kernel.X 0 + pads.left + pads.right).tdiv
        (strides.getD Kernel.X 0) + 1 = outputWidth ∧ 0 < outputHeight ∧ 0 < outputWidth := by
  obtain ⟨k, hk, h⟩ := of_bind_eq_ok h
  obtain ⟨s, hs, h⟩ := of_bind_eq_ok h
  obtain ⟨_, -, h⟩ := of_bind_eq_ok h
  obtain ⟨_, -, h⟩ := of_bind_eq_ok h
  obtain ⟨_, -, h⟩ := of_bind_eq_ok h
  obtain ⟨_, hpositive, h⟩ := of_bind_eq_ok h
  obtain rfl : kernel = k := Except.ok.inj hk
  obtain rfl : strides = s := Except.ok.inj hs
  obtain ⟨rfl, rfl⟩ := Prod.mk.inj (Except.ok.inj h)
  refine ⟨rfl, rfl, ?_⟩
  unfold throwUnless at hpositive
  split_ifs at hpositive with hboth
  exact hboth

theorem tdiv_add_one_eq {a stride : ℤ} (hstride : 0 < stride) (h : 1 < a.tdiv stride + 1) :
    a.tdiv stride + 1 = a / stride + 1 := by
  have hnonneg : 0 ≤ a := by
    by_contra hneg
    have hopposite : 0 ≤ (-a).tdiv stride := Int.tdiv_nonneg (by omega) hstride.le
    rw [Int.neg_tdiv] at hopposite
    omega
  rw [Int.tdiv_eq_ediv_of_nonneg hnonneg]

theorem outputs_of_spatialOutput (haxis : axis = Act.H ∨ axis = Act.W)
    (hstride : 0 < planar strides axis)
    (houtput : spatialOutputForInputWindowSize (shape.dim Act.H, shape.dim Act.W) (some kernel)
      (some strides) pads = .ok (outputHeight, outputWidth))
    (hmany : 1 < Shape.dim [shape.dim Act.N, shape.dim Act.C, outputHeight, outputWidth] axis) :
    (wholeAxis shape axis pads).outputs (planar kernel axis) (planar strides axis) =
      Shape.dim [shape.dim Act.N, shape.dim Act.C, outputHeight, outputWidth] axis := by
  obtain ⟨hheight, hwidth, -, -⟩ := spatialOutputForInputWindowSize_spec houtput
  have hne : ¬ Act.W = Act.H := by decide
  rcases haxis with rfl | rfl
  · have hdim : Shape.dim [shape.dim Act.N, shape.dim Act.C, outputHeight, outputWidth] Act.H =
      outputHeight := rfl
    simp only [planar, if_true] at hstride
    rw [hdim, ← hheight] at hmany
    rw [hdim, ← hheight, tdiv_add_one_eq hstride hmany]
    simp only [wholeAxis, PaddedRange.outputs, PaddedRange.extent, padBefore, padAfter, planar,
      if_true]
    congr 2
    ring
  · have hdim : Shape.dim [shape.dim Act.N, shape.dim Act.C, outputHeight, outputWidth] Act.W =
      outputWidth := rfl
    simp only [planar, if_neg hne] at hstride
    rw [hdim, ← hwidth] at hmany
    rw [hdim, ← hwidth, tdiv_add_one_eq hstride hmany]
    simp only [wholeAxis, PaddedRange.outputs, PaddedRange.extent, padBefore, padAfter, planar,
      if_neg hne]
    congr 2
    ring

/-- The output segments follow each other from the first to the last output. -/
structure OutputSegments (outputs numClusters : ℤ) (segments : List DimRange) : Prop where
  length : (segments.length : ℤ) = numClusters
  bounds : ∀ r ∈ segments, 0 ≤ r.begin ∧ r.begin < r.stop ∧ r.stop ≤ outputs
  first : ∀ r, segments[0]? = some r → r.begin = 0
  next : ∀ (i : ℕ) r r', segments[i]? = some r → segments[i + 1]? = some r' → r.stop = r'.begin
  last : ∀ (i : ℕ) r, segments[i]? = some r → (i : ℤ) + 1 = numClusters → r.stop = outputs

theorem outputSegments_of_split (haxis : axis = Act.H ∨ axis = Act.W) (hmany : 1 < numClusters)
    (hstride : 0 < planar strides axis)
    (houtput : spatialOutputForInputWindowSize (shape.dim Act.H, shape.dim Act.W) (some kernel)
      (some strides) pads = .ok (outputHeight, outputWidth))
    (hsplit : splitSegmentedShape [shape.dim Act.N, shape.dim Act.C, outputHeight, outputWidth]
      tilingScheme numClusters axis none attr.uniformDistributedSegments = some outputTiles) :
    OutputSegments ((wholeAxis shape axis pads).outputs (planar kernel axis) (planar strides axis))
      numClusters (tileRanges axis outputTiles) := by
  obtain ⟨-, -, hheight, hwidth⟩ := spatialOutputForInputWindowSize_spec houtput
  generalize houtputShape : [shape.dim Act.N, shape.dim Act.C, outputHeight, outputWidth] =
    outputShape at hsplit
  have hlength : outputShape.length = 4 := by
    rw [← houtputShape]
    rfl
  have haxisLt : axis < outputShape.length := by
    rw [hlength]
    rcases haxis with rfl | rfl <;> decide
  have hpositive : 0 ≤ Shape.dim outputShape axis := by
    rw [← houtputShape]
    rcases haxis with rfl | rfl
    · exact hheight.le
    · exact hwidth.le
  have hrank : ∀ a ∈ (none : Option (List ℤ)), outputShape.length = a.length := by simp
  have hs : Segments outputShape axis numClusters outputTiles := by
    simp only [splitSegmentedShape, Option.bind_eq_bind, Option.bind_eq_some_iff,
      Option.guard_eq_some'] at hsplit
    obtain ⟨-, -, -, -, hsplit⟩ := hsplit
    split_ifs at hsplit
    · exact (splitUniform_spec haxisLt hrank hmany hpositive hsplit).1
    · exact (splitDividedUp_spec haxisLt hrank hmany hpositive (by simp) hsplit).1
  have hpos : ∀ s ∈ outputTiles.map (·.dim axis), 0 < s := by
    intro s hmem
    obtain ⟨t, ht, rfl⟩ := List.mem_map.mp hmem
    exact hs.positive t ht
  have hclusters : ((outputTiles.map (·.dim axis)).length : ℤ) = numClusters := by
    rw [List.length_map, hs.length]
    omega
  have hcount : numClusters ≤ Shape.dim outputShape axis := by
    rw [← hs.sum, ← hclusters]
    simpa using List.card_nsmul_le_sum _ 1 fun s hmem => hpos s hmem
  have houtputs := outputs_of_spatialOutput haxis hstride houtput
    (by rw [houtputShape]; omega)
  rw [houtputs, houtputShape, ← hs.sum, ← zero_add (List.sum _)]
  exact {
    length := by rw [← hclusters]; exact_mod_cast length_consecutive _ _
    bounds := fun r => consecutive_bounds hpos
    first := fun r => consecutive_first
    next := fun i r r' => consecutive_next
    last := fun i r hr hlast => consecutive_last hr (by omega) }

theorem getInputTileDimRanges_eq (haxis : axis = Act.H ∨ axis = Act.W)
    (haxisOf : axis = getDistributedTilingAxis tilingScheme)
    (htiles : attr.numTiles = some tilingScheme) (hclusters : attr.numClusters = some numClusters)
    (hkernel : attr.kernel = some kernel) (hstrides : attr.strides = some strides)
    (hpads : attr.pads = some pads) (hsize : 0 < shape.dim axis)
    (hpositive : 0 < planar kernel axis ∧ 0 < planar strides axis)
    (hnonneg : 0 ≤ padBefore pads axis ∧ 0 ≤ padAfter pads axis)
    (hsmall : padBefore pads axis < planar kernel axis ∧ padAfter pads axis < planar kernel axis)
    (houtput : spatialOutputForInputWindowSize (shape.dim Act.H, shape.dim Act.W) (some kernel)
      (some strides) pads = .ok (outputHeight, outputWidth))
    (hsplit : splitSegmentedShape [shape.dim Act.N, shape.dim Act.C, outputHeight, outputWidth]
      tilingScheme numClusters axis none attr.uniformDistributedSegments = some outputTiles)
    (hs : OutputSegments ((wholeAxis shape axis pads).outputs (planar kernel axis)
      (planar strides axis)) numClusters (tileRanges axis outputTiles)) :
    getInputTileDimRanges shape attr = some (axis, (tileRanges axis outputTiles).map
      (inputRange (shape.dim axis) (planar kernel axis) (planar strides axis)
        (padBefore pads axis))) := by
  have hne : ¬ Act.W = Act.H := by decide
  have hmake : ∀ {a b : ℤ}, a ≤ b → DimRange.make a b = .ok ⟨a, b⟩ := by
    intro a b hle
    rw [DimRange.make, throwUnless_bind hle]
    rfl
  simp only [getInputTileDimRanges, htiles, hclusters, hkernel, hstrides, hpads, ← haxisOf,
    Option.bind_eq_bind, Option.bind_some, getOverlappedInputTileDimRanges, haxis.symm, guard_true,
    Option.pure_def, houtput, Except.toOption, hsplit]
  rw [mapM_eq_map (k := inputRange (shape.dim axis) (planar kernel axis) (planar strides axis)
    (padBefore pads axis))]
  · rfl
  · intro r hr
    obtain ⟨hbegin, hlt, hstop⟩ := hs.bounds r hr
    have hdim := inputForOutputDim_eq hpositive.1 hpositive.2 hsize hnonneg.1 hsmall.1 hnonneg.2
      hsmall.2 hbegin (by rw [DimRange.length]; omega) hstop
    rw [hmake hlt.le, hmake hsize.le]
    rcases haxis with rfl | rfl
    · simp only [planar, padBefore, padAfter, if_true] at hdim ⊢
      rw [Option.bind_some, Option.bind_some, hdim]
      rfl
    · simp only [planar, padBefore, padAfter, if_neg hne] at hdim ⊢
      rw [Option.bind_some, Option.bind_some, hdim]
      rfl

theorem memoryRanges (hmode : attr.mode = OVERLAPPED)
    (hclusters : attr.numClusters = some numClusters) (haxis : axis < shape.length)
    (halignment : ∀ a ∈ attr.alignment, shape.length = a.length ∧ a.getD axis 0 = 1)
    (halign : ∀ a ∈ attr.alignment, 0 ∉ a) {ranges : List DimRange}
    (hranges : getInputTileDimRanges shape attr = some (axis, ranges)) :
    ∃ sizes offsets, getPerClusterMemoryShapes shape attr = some sizes ∧
      getPerClusterMemoryShapeOffsets shape attr = some offsets ∧
      sizes.length = ranges.length ∧ offsets.length = ranges.length ∧
      ∀ (i : ℕ) range, ranges[i]? = some range → ∃ size offset, sizes[i]? = some size ∧
        offsets[i]? = some offset ∧ size.dim axis = range.length ∧
        offset.dim axis = range.begin := by
  have hnot : ¬ (bitEnumContains attr.mode DUPLICATED ||
      bitEnumContains attr.mode MULTICASTED) = true := by
    rw [hmode]
    decide
  have hnotSegmented : ¬ attr.mode = SEGMENTED := by
    rw [hmode]
    decide
  have haligned : ∀ range : DimRange, ∃ size,
      alignShape (shape.set axis (range.stop - range.begin)) attr.alignment alignValUp = some size ∧
        size.dim axis = range.length := by
    intro range
    cases ha : attr.alignment with
    | none => exact ⟨_, rfl, dim_set_self haxis _⟩
    | some a =>
      obtain ⟨hlength, hone⟩ := halignment a ha
      have hsome : alignShape (shape.set axis (range.stop - range.begin)) (some a) alignValUp =
          some (List.zipWith alignValUp (shape.set axis (range.stop - range.begin)) a) :=
        if_neg (halign a ha)
      refine ⟨_, hsome, ?_⟩
      obtain ⟨-, hdims⟩ := alignShape_spec (by simpa using hlength) hsome
      have hone' : a.getD axis 1 = 1 := by
        rw [List.getD_eq_getElem _ _ (hlength ▸ haxis)] at hone ⊢
        exact hone
      rw [hdims axis (by simpa using haxis), dim_set_self haxis, Option.elim_some, hone',
        alignValUp]
      simp [DimRange.length]
  choose aligned haligned hdim using haligned
  have hshapes : getPerClusterMemoryShapes shape attr = some (ranges.map aligned) := by
    simp only [getPerClusterMemoryShapes, hclusters, Option.bind_eq_bind, Option.bind_some,
      if_neg hnot, if_neg hnotSegmented, if_pos hmode, hranges]
    exact mapM_eq_map fun range _ => haligned range
  have hoffsets : getPerClusterMemoryShapeOffsets shape attr =
      some (ranges.map fun range => (List.replicate shape.length 0).set axis range.begin) := by
    simp only [getPerClusterMemoryShapeOffsets, hclusters, Option.bind_eq_bind, Option.bind_some,
      if_neg hnot, if_neg hnotSegmented, if_pos hmode, hranges]
    rfl
  refine ⟨_, _, hshapes, hoffsets, List.length_map _, List.length_map _, fun i range hi => ?_⟩
  refine ⟨aligned range, _, by rw [List.getElem?_map, hi]; rfl,
    by rw [List.getElem?_map, hi]; rfl, hdim range, ?_⟩
  exact dim_set_self (by rwa [List.length_replicate]) _

end Memory

/-- A cluster computes its segment exactly when it is the first one or needs no leading padding,
and it is the last one or needs no trailing padding. -/
theorem computesSegment_iff {segments : List DimRange} {k s : ℤ} (hk : 0 < k) (hs : 0 < s)
    (hsize : 0 < shape.dim axis) (hbefore : 0 ≤ padBefore pads axis ∧ padBefore pads axis < k)
    (hafter : 0 ≤ padAfter pads axis ∧ padAfter pads axis < k)
    (hsegments : OutputSegments ((wholeAxis shape axis pads).outputs k s) numClusters segments)
    {i : ℕ} {segment : DimRange} (hi : segments[i]? = some segment) {size offset : Shape}
    (hsizeDim : size.dim axis =
      (inputRange (shape.dim axis) k s (padBefore pads axis) segment).length)
    (hoffset : offset.dim axis =
      (inputRange (shape.dim axis) k s (padBefore pads axis) segment).begin)
    {pad : PadInfo} (hpadBefore : padBefore pad axis = if i = 0 then padBefore pads axis else 0)
    (hpadAfter : padAfter pad axis = if (i : ℤ) + 1 = numClusters then padAfter pads axis else 0) :
    ComputesSegment shape axis (wholeAxis shape axis pads) k s segment size offset pad ↔
      (i = 0 ∨ padBefore pads axis ≤ segment.begin * s) ∧
      ((i : ℤ) + 1 = numClusters ∨
        (segment.stop - 1) * s + k ≤ padBefore pads axis + shape.dim axis) := by
  obtain ⟨hbegin, hlt, hstop⟩ := hsegments.bounds segment (List.mem_of_getElem? hi)
  have hlength : segment.begin + segment.length = segment.stop := by
    rw [DimRange.length]
    omega
  have hlast := (PaddedRange.le_outputs_iff hs).mp hstop
  have hmono : segment.begin * s ≤ (segment.stop - 1) * s :=
    Int.mul_le_mul_of_nonneg_right (by omega) hs.le
  have hnonneg : 0 ≤ segment.begin * s := mul_nonneg hbegin hs.le
  have hclipped := reproduces_clipped_iff (b := padBefore pad axis) (a := padAfter pad axis) hk hs
    hbegin (by omega : 0 < segment.length)
    (hlength ▸ hstop) (by rw [hpadBefore]; split_ifs <;> omega)
  rw [hlength] at hclipped
  have hrange : PaddedRange.mk (offset.dim axis) (size.dim axis) (padBefore pad axis)
      (padAfter pad axis) = ⟨max 0 (segment.begin * s - padBefore pads axis),
        min (shape.dim axis) ((segment.stop - 1) * s + k - padBefore pads axis) -
          max 0 (segment.begin * s - padBefore pads axis), padBefore pad axis,
        padAfter pad axis⟩ := by
    rw [hsizeDim, hoffset]
    rfl
  simp only [wholeAxis, PaddedRange.extent] at hlast
  have hinside : 0 ≤ offset.dim axis ∧ 0 < size.dim axis ∧
      offset.dim axis + size.dim axis ≤ shape.dim axis := by
    rw [hsizeDim, hoffset]
    simp only [inputRange, DimRange.length]
    omega
  have hiff : ComputesSegment shape axis (wholeAxis shape axis pads) k s segment size offset pad ↔
      (PaddedRange.mk (offset.dim axis) (size.dim axis) (padBefore pad axis)
        (padAfter pad axis)).Reproduces (wholeAxis shape axis pads) k s segment.begin
        segment.length :=
    ⟨fun h => h.reproduces, fun h => ⟨hinside, h⟩⟩
  rw [hiff, hrange, wholeAxis, hclipped, hpadBefore, hpadAfter]
  have hzero : i = 0 → segment.begin * s = 0 := by
    rintro rfl
    rw [hsegments.first segment hi, zero_mul]
  -- the last window leaves less than one stride of the padded input
  have hrest : (i : ℤ) + 1 = numClusters →
      padBefore pads axis + shape.dim axis + padAfter pads axis <
        (segment.stop - 1) * s + k + s := by
    intro hfinal
    have hwhole := (PaddedRange.outputs_eq_iff hs).mp (hsegments.last i segment hi hfinal).symm
    have hnext : segment.stop * s = (segment.stop - 1) * s + s := by ring
    simp only [wholeAxis, PaddedRange.extent] at hwhole
    omega
  split_ifs <;> omega

/-- The clusters compute the operation that is not split exactly when no segment but the first
starts in the leading padding, and no segment but the last has a window that reaches the trailing
padding. -/
theorem computesClusters_iff (hverify : verify attr shape = .ok ()) (hmode : attr.mode = OVERLAPPED)
    (htiles : attr.numTiles = some tilingScheme) (hclusters : attr.numClusters = some numClusters)
    (haxis : axis = getDistributedTilingAxis tilingScheme)
    (hkernel : attr.kernel = some kernel) (hstrides : attr.strides = some strides)
    (hpads : attr.pads = some pads) (halign : ∀ a ∈ attr.alignment, 0 ∉ a)
    (hsize : 0 < shape.dim axis)
    (hsmall : padBefore pads axis < planar kernel axis ∧ padAfter pads axis < planar kernel axis)
    (houtput : spatialOutputForInputWindowSize (shape.dim Act.H, shape.dim Act.W) (some kernel)
      (some strides) pads = .ok (outputHeight, outputWidth))
    (hsplit : splitSegmentedShape [shape.dim Act.N, shape.dim Act.C, outputHeight, outputWidth]
      tilingScheme numClusters axis none attr.uniformDistributedSegments = some outputTiles) :
    ComputesClusters shape attr axis kernel strides pads (tileRanges axis outputTiles) ↔
      ∀ segment ∈ (tileRanges axis outputTiles).tail,
        padBefore pads axis ≤ segment.begin * planar strides axis ∧
        (segment.begin - 1) * planar strides axis + planar kernel axis ≤
          padBefore pads axis + shape.dim axis := by
  obtain ⟨hplanar, haxisLt, hmany, -, halignment, hkernelPos, hstridePos, hbefore, hafter, hnone⟩ :=
    overlapped_accepted hverify hmode htiles hclusters hkernel hstrides hpads haxis
  have hs := outputSegments_of_split hplanar hmany hstridePos houtput hsplit
  have hranges := getInputTileDimRanges_eq hplanar haxis htiles hclusters hkernel hstrides hpads
    hsize ⟨hkernelPos, hstridePos⟩ ⟨hbefore, hafter⟩ hsmall houtput hsplit hs
  obtain ⟨sizes, offsets, hsizes, hoffsets, hsizesLength, hoffsetsLength, hclusterRanges⟩ :=
    memoryRanges hmode hclusters haxisLt halignment halign hranges
  obtain ⟨clusterPads, hclusterPads, hpadsLength, hposition⟩ :=
    getPerClusterPadding_eq pads hmode htiles hclusters (haxis ▸ hplanar) hnone hmany
  rw [List.length_map] at hsizesLength hoffsetsLength
  have hsegment : ∀ (i : ℕ) segment, (tileRanges axis outputTiles)[i]? = some segment →
      ∃ size offset pad, sizes[i]? = some size ∧ offsets[i]? = some offset ∧
        clusterPads[i]? = some pad ∧
        (ComputesSegment shape axis (wholeAxis shape axis pads) (planar kernel axis)
            (planar strides axis) segment size offset pad ↔
          (i = 0 ∨ padBefore pads axis ≤ segment.begin * planar strides axis) ∧
          ((i : ℤ) + 1 = numClusters ∨ (segment.stop - 1) * planar strides axis +
            planar kernel axis ≤ padBefore pads axis + shape.dim axis)) := by
    intro i segment hi
    obtain ⟨size, offset, hsizeAt, hoffsetAt, hsizeDim, hoffsetDim⟩ :=
      hclusterRanges i _ (by rw [List.getElem?_map, hi]; rfl)
    have hlt : i < clusterPads.length := by
      have := (List.getElem?_eq_some_iff.mp hi).choose
      have := hs.length
      omega
    obtain ⟨hpadBefore, hpadAfter⟩ := hposition i _ (List.getElem?_eq_getElem hlt)
    rw [← haxis] at hpadBefore hpadAfter
    exact ⟨size, offset, _, hsizeAt, hoffsetAt, List.getElem?_eq_getElem hlt,
      computesSegment_iff hkernelPos hstridePos hsize ⟨hbefore, hsmall.1⟩ ⟨hafter, hsmall.2⟩ hs hi
        hsizeDim hoffsetDim hpadBefore hpadAfter⟩
  constructor
  · rintro ⟨sizes', offsets', clusterPads', hsizes', hoffsets', hclusterPads', -, -, -, hall⟩
    obtain rfl := Option.some.inj (hsizes.symm.trans hsizes')
    obtain rfl := Option.some.inj (hoffsets.symm.trans hoffsets')
    obtain rfl := Option.some.inj (hclusterPads.symm.trans hclusterPads')
    have hcond : ∀ (i : ℕ) segment, (tileRanges axis outputTiles)[i]? = some segment →
        (i = 0 ∨ padBefore pads axis ≤ segment.begin * planar strides axis) ∧
        ((i : ℤ) + 1 = numClusters ∨ (segment.stop - 1) * planar strides axis +
          planar kernel axis ≤ padBefore pads axis + shape.dim axis) := by
      intro i segment hi
      obtain ⟨size, offset, pad, hsize', hoffset', hpad', hcomputes⟩ := hall i segment hi
      obtain ⟨size'', offset'', pad'', hsize'', hoffset'', hpad'', hiff⟩ := hsegment i segment hi
      obtain rfl := Option.some.inj (hsize'.symm.trans hsize'')
      obtain rfl := Option.some.inj (hoffset'.symm.trans hoffset'')
      obtain rfl := Option.some.inj (hpad'.symm.trans hpad'')
      exact hiff.mp hcomputes
    intro segment hmem
    obtain ⟨i, hi⟩ := List.mem_iff_getElem?.mp hmem
    rw [List.getElem?_tail] at hi
    obtain ⟨hlt, -⟩ := List.getElem?_eq_some_iff.mp hi
    have hprevious := List.getElem?_eq_getElem (Nat.lt_of_succ_lt hlt)
    obtain ⟨hstart, -⟩ := hcond (i + 1) segment hi
    obtain ⟨-, hend⟩ := hcond i _ hprevious
    rw [hs.next i _ segment hprevious hi] at hend
    have hcount := hs.length
    exact ⟨hstart.resolve_left (by omega), hend.resolve_left (by omega)⟩
  · intro hcond
    refine ⟨sizes, offsets, clusterPads, hsizes, hoffsets, hclusterPads, hsizesLength,
      hoffsetsLength, by have := hs.length; omega, fun i segment hi => ?_⟩
    obtain ⟨size, offset, pad, hsize', hoffset', hpad', hiff⟩ := hsegment i segment hi
    refine ⟨size, offset, pad, hsize', hoffset', hpad', hiff.mpr ⟨?_, ?_⟩⟩
    · cases i with
      | zero => exact .inl rfl
      | succ i =>
        have hmem : segment ∈ (tileRanges axis outputTiles).tail :=
          List.mem_of_getElem? (by rw [List.getElem?_tail]; exact hi)
        exact .inr (hcond segment hmem).1
    · by_cases hlast : (i : ℤ) + 1 = numClusters
      · exact .inl hlast
      · have hcount := hs.length
        have hlt := (List.getElem?_eq_some_iff.mp hi).choose
        have hlt' : i + 1 < (tileRanges axis outputTiles).length := by omega
        have hnext := List.getElem?_eq_getElem hlt'
        have hmem : (tileRanges axis outputTiles)[i + 1] ∈ (tileRanges axis outputTiles).tail :=
          List.mem_of_getElem? (by rw [List.getElem?_tail]; exact hnext)
        rw [hs.next i segment _ hi hnext]
        exact .inr (hcond _ hmem).2

/-- Height over two clusters, for a kernel of five rows with two rows of padding. -/
def tallKernel : DistributedTensorAttr where
  mode := OVERLAPPED
  numTiles := some [1, 1, 2, 1]
  kernel := some [5, 1]
  pads := some ⟨0, 0, 2, 2⟩
  strides := some [1, 1]
  numClusters := some 2
  alignment := none
  uniformDistributedSegments := false
  computeShapes := none
  computeOffsets := none
  memoryShapes := none
  memoryOffsets := none
  equalMemoryAndComputeView := false

theorem computesClusters_tallKernel :
    ComputesClusters [1, 16, 9, 8] tallKernel 2 [5, 1] [1, 1] ⟨0, 0, 2, 2⟩
      (tileRanges 2 [[1, 16, 5, 8], [1, 16, 4, 8]]) := by
  let shape : Shape := [1, 16, 9, 8]
  have hverify : verify tallKernel shape = .ok () := by decide
  have houtput : spatialOutputForInputWindowSize (shape.dim Act.H, shape.dim Act.W) (some [5, 1])
      (some [1, 1]) ⟨0, 0, 2, 2⟩ = .ok (9, 8) := by decide
  have hsplit : splitSegmentedShape [shape.dim Act.N, shape.dim Act.C, 9, 8] [1, 1, 2, 1] 2 2 none
      tallKernel.uniformDistributedSegments = some [[1, 16, 5, 8], [1, 16, 4, 8]] := by decide
  apply (computesClusters_iff hverify rfl rfl rfl (by decide) rfl rfl rfl (by decide) (by decide)
    (by decide) houtput hsplit).mpr
  decide

/-- With two rows, the first of the two clusters has no padding below its rows, so it computes
nothing. -/
theorem not_computesClusters_tallKernel :
    verify tallKernel [1, 16, 2, 8] = .ok () ∧
      spatialOutputForInputWindowSize (2, 8) (some [5, 1]) (some [1, 1]) ⟨0, 0, 2, 2⟩ =
        .ok (2, 8) ∧
      splitSegmentedShape [1, 16, 2, 8] [1, 1, 2, 1] 2 2 none false =
        some [[1, 16, 1, 8], [1, 16, 1, 8]] ∧
      ¬ ComputesClusters [1, 16, 2, 8] tallKernel 2 [5, 1] [1, 1] ⟨0, 0, 2, 2⟩
        (tileRanges 2 [[1, 16, 1, 8], [1, 16, 1, 8]]) := by
  refine ⟨by decide, by decide, by decide, ?_⟩
  rintro ⟨sizes, offsets, clusterPads, hsizes, hoffsets, hpads, -, -, -, hall⟩
  have hsizes' : getPerClusterMemoryShapes [1, 16, 2, 8] tallKernel =
      some [[1, 16, 2, 8], [1, 16, 2, 8]] := by decide
  have hoffsets' : getPerClusterMemoryShapeOffsets [1, 16, 2, 8] tallKernel =
      some [[0, 0, 0, 0], [0, 0, 0, 0]] := by decide
  have hpads' : getPerClusterPadding tallKernel ⟨0, 0, 2, 2⟩ =
      some [⟨0, 0, 2, 0⟩, ⟨0, 0, 0, 2⟩] := by decide
  obtain rfl := Option.some.inj (hsizes'.symm.trans hsizes)
  obtain rfl := Option.some.inj (hoffsets'.symm.trans hoffsets)
  obtain rfl := Option.some.inj (hpads'.symm.trans hpads)
  obtain ⟨size, offset, pad, hsize, hoffset, hpad, hcomputes⟩ := hall 0 ⟨0, 1⟩ rfl
  obtain rfl := Option.some.inj hsize
  obtain rfl := Option.some.inj hoffset
  obtain rfl := Option.some.inj hpad
  exact absurd hcomputes.reproduces.outputs (by decide)

end Clusters

end Vpux.VPU
