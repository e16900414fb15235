import Vpux.IE.DilatedSum
import Vpux.IE.LargeKernelsSlices

/-! The sum of the convolutions with slices of a large filter, and when it is the convolution. -/
namespace Vpux.IE.ConvRewriter
open Finset Vpux.Const Data ConvolutionOp

section Sum

variable {α : Type} [Semiring α] {origOp : OrigOp α} {extended : Tensor α}

/-- The sum of the convolutions with some slices of the filter. -/
def OrigOp.sumOver (origOp : OrigOp α) (extended : Tensor α) (bias : Option (Tensor α))
    (postOp : Option (α → α)) (done : List (ℕ × ℕ)) : Tensor α where
  N := origOp.input.N
  C := origOp.filter.N
  H := outSize extended.H origOp.filter.H origOp.strides.Y
  W := outSize extended.W origOp.filter.W origOp.strides.X
  get n oc y x := applyPostOp postOp
    ((done.map fun p => origOp.term p n oc y x).sum + ConvolutionOp.biasAt bias oc)

/-- What has been built after some passes. -/
structure Accumulates (origOp : OrigOp α) (extended : Tensor α) (bias : Option (Tensor α))
    (postOp : Option (α → α)) (done : List (ℕ × ℕ)) (graph : SubGraph α) : Prop where
  slices : ∀ slice ∈ graph.activationSlices, slice.Fits extended.H extended.W
  start : graph.accumulativeOutputTensors.getLast? = none → done = []
  back : ∀ back, graph.accumulativeOutputTensors.getLast? = some back →
    back.Agrees (origOp.sumOver extended bias postOp done)

section Loop

variable (h : Slides origOp extended) {slicedFilters : List (Tensor α)}
  (hfilters : InOrder origOp.filter slicedFilters)
include h hfilters

theorem rewriteSlice_accumulates {done : List (ℕ × ℕ)} {graph : SubGraph α}
    (hgraph : Accumulates origOp extended none none done graph) {p : ℕ × ℕ}
    (hp : p ∈ origOp.indices) (hlast : origOp.IsLast p → done ≠ []) :
    ∃ graph', rewriteSlice origOp slicedFilters extended (numSlices origOp.filter.W)
      (numSlices origOp.filter.H) MAX_KERNEL_SIZE graph p = .ok graph' ∧
      Accumulates origOp extended (if origOp.IsLast p then origOp.bias else none)
        (if origOp.IsLast p then origOp.postOp else none) (done ++ [p]) graph' := by
  obtain ⟨conv, hconv, hvalue⟩ :=
    h.eval_slicedConv (if origOp.IsLast p then origOp.bias else none) hp
  have hslices : ∀ slice ∈ graph.activationSlices ++ [partSlice origOp extended p],
      slice.Fits extended.H extended.W := by
    intro slice hslice
    rcases List.mem_append.mp hslice with hbefore | hnew
    · exact hgraph.slices slice hbefore
    · rw [List.mem_singleton.mp hnew]
      exact h.partSlice_fits hp
  rw [h.rewriteSlice_eq hfilters graph hp, hconv]
  cases hback : graph.accumulativeOutputTensors.getLast? with
  | none =>
    obtain rfl := hgraph.start hback
    have hnot : ¬origOp.IsLast p := fun hlast' => hlast hlast' rfl
    refine ⟨_, rfl, hslices, by simp, ?_⟩
    intro back hlastBack
    obtain rfl : conv = back := by simpa using hlastBack
    simpa [OrigOp.sumOver, hnot, applyPostOp] using hvalue
  | some back =>
    obtain ⟨sum, hsum, hagrees⟩ := Dilated.addOp_agrees (hgraph.back back hback) hvalue
      (if origOp.IsLast p then origOp.postOp else none)
    refine ⟨⟨_, graph.accumulativeOutputTensors ++ [sum]⟩, ?_, hslices, by simp, ?_⟩
    · change (addOp back conv _ >>= _) = _
      rw [hsum]
      rfl
    · intro back' hlastBack
      obtain rfl : sum = back' := by simpa using hlastBack
      simpa [OrigOp.sumOver, applyPostOp, biasAt, add_assoc] using hagrees

theorem foldlM_rewriteSlice_accumulates {rest : List (ℕ × ℕ)} (hrest : rest ⊆ origOp.indices)
    (hbefore : ∀ p ∈ rest, ¬origOp.IsLast p) {done : List (ℕ × ℕ)} {graph : SubGraph α}
    (hgraph : Accumulates origOp extended none none done graph) :
    ∃ graph', rest.foldlM (rewriteSlice origOp slicedFilters extended (numSlices origOp.filter.W)
      (numSlices origOp.filter.H) MAX_KERNEL_SIZE) graph = .ok graph' ∧
      Accumulates origOp extended none none (done ++ rest) graph' := by
  induction rest generalizing done graph with
  | nil =>
    rw [List.append_nil]
    exact ⟨graph, rfl, hgraph⟩
  | cons p rest ih =>
    have hnot : ¬origOp.IsLast p := hbefore p List.mem_cons_self
    obtain ⟨hp, hrest⟩ := List.cons_subset.mp hrest
    obtain ⟨middle, hmiddle, hnext⟩ :=
      rewriteSlice_accumulates h hfilters hgraph hp fun hlast => absurd hlast hnot
    rw [if_neg hnot, if_neg hnot] at hnext
    obtain ⟨graph', hgraph', hdone⟩ :=
      ih hrest (fun q hq => hbefore q (List.mem_cons_of_mem p hq)) hnext
    rw [List.append_assoc, List.singleton_append] at hdone
    rw [List.foldlM_cons, hmiddle]
    exact ⟨graph', hgraph', hdone⟩

end Loop

omit [Semiring α] in
theorem indices_split (hH : 0 < origOp.filter.H) (hW : 0 < origOp.filter.W)
    (hlarge : ¬isLegal origOp.toConvolutionOp) : ∃ before last, origOp.indices = before ++ [last] ∧
      before ≠ [] ∧ origOp.IsLast last ∧ ∀ p ∈ before, ¬origOp.IsLast p := by
  have hrows := numSlices_spec origOp.filter.H
  have hcolumns := numSlices_spec origOp.filter.W
  simp only [isLegal, MAX_KERNEL_SIZE] at *
  obtain ⟨rows, hY⟩ : ∃ rows, numSlices origOp.filter.H = rows + 1 :=
    ⟨numSlices origOp.filter.H - 1, by omega⟩
  obtain ⟨columns, hX⟩ : ∃ columns, numSlices origOp.filter.W = columns + 1 :=
    ⟨numSlices origOp.filter.W - 1, by omega⟩
  refine ⟨((List.range rows).flatMap fun j => (List.range (columns + 1)).map fun i => (j, i)) ++
    (List.range columns).map (fun i => (rows, i)), (rows, columns), ?_, ?_, ⟨?_, ?_⟩, ?_⟩
  · rw [OrigOp.indices, hX, hY, sliceIndices, List.range_succ (n := rows), List.flatMap_append,
      List.flatMap_singleton, List.append_assoc]
    congr 1
    rw [List.range_succ, List.map_append]
    rfl
  · intro hnil
    have hcount := congrArg List.length hnil
    rw [List.length_append, List.length_map, List.length_range, List.length_nil] at hcount
    have hrow : rows = 0 := by
      by_contra hpos
      have hmem : (0, 0) ∈ (List.range rows).flatMap fun j =>
          (List.range (columns + 1)).map fun i => (j, i) := by
        simpa using Nat.pos_of_ne_zero hpos
      rw [List.eq_nil_of_length_eq_zero (Nat.eq_zero_of_add_eq_zero_right hcount)] at hmem
      exact List.not_mem_nil hmem
    omega
  · exact hX.symm
  · exact hY.symm
  · intro p hp hlast
    obtain ⟨hcolumn, hrow⟩ := hlast
    rcases List.mem_append.mp hp with hp | hp
    · obtain ⟨j, hj, hp⟩ := List.mem_flatMap.mp hp
      obtain ⟨i, -, rfl⟩ := List.mem_map.mp hp
      rw [List.mem_range] at hj
      omega
    · obtain ⟨i, hi, rfl⟩ := List.mem_map.mp hp
      rw [List.mem_range] at hi
      omega

theorem rewriteSubGraph_accumulates (h : Slides origOp extended) {slicedFilters : List (Tensor α)}
    (hfilters : InOrder origOp.filter slicedFilters) (hH : 0 < origOp.filter.H)
    (hW : 0 < origOp.filter.W) (hlarge : ¬isLegal origOp.toConvolutionOp) :
    ∃ graph, rewriteSubGraph origOp slicedFilters extended (numSlices origOp.filter.W)
      (numSlices origOp.filter.H) MAX_KERNEL_SIZE = .ok graph ∧
      Accumulates origOp extended origOp.bias origOp.postOp origOp.indices graph := by
  obtain ⟨before, last, hsplit, hne, hlast, hbefore⟩ := indices_split hH hW hlarge
  have hall : before ⊆ origOp.indices ∧ last ∈ origOp.indices := by simp [hsplit]
  have hstart : Accumulates origOp extended none none [] ⟨[], []⟩ := ⟨by simp, by simp, by simp⟩
  obtain ⟨middle, hmiddle, hdone⟩ :=
    foldlM_rewriteSlice_accumulates h hfilters hall.1 hbefore hstart
  obtain ⟨graph, hgraph, haccumulates⟩ :=
    rewriteSlice_accumulates h hfilters hdone hall.2 fun _ => hne
  rw [if_pos hlast, if_pos hlast, List.nil_append, ← hsplit] at haccumulates
  have hindices : sliceIndices (numSlices origOp.filter.W) (numSlices origOp.filter.H) =
      before ++ [last] := hsplit
  refine ⟨graph, ?_, haccumulates⟩
  rw [rewriteSubGraph, hindices, List.foldlM_append, hmiddle]
  change (rewriteSlice _ _ _ _ _ _ middle last >>= pure) = _
  rw [hgraph]
  rfl

section WindowSum

theorem sum_kernel_windows {M : Type} [AddCommMonoid M] (f : ℕ → ℕ → M) (KY KX : ℕ) :
    ∑ ky ∈ range KY, ∑ kx ∈ range KX, f ky kx =
      ∑ j ∈ range (numSlices KY), ∑ i ∈ range (numSlices KX),
        ∑ ky ∈ range (windowSize KY MAX_KERNEL_SIZE j),
          ∑ kx ∈ range (windowSize KX MAX_KERNEL_SIZE i),
            f (j * MAX_KERNEL_SIZE + ky) (i * MAX_KERNEL_SIZE + kx) := by
  rw [sum_range_windows _ (numSlices_spec KY).1]
  apply sum_congr rfl
  intro j _
  exact (sum_congr rfl fun ky _ => sum_range_windows _ (numSlices_spec KX).1).trans sum_comm

theorem sum_terms (origOp : OrigOp α) (n oc y x : ℕ) :
    (origOp.indices.map fun p => origOp.term p n oc y x).sum = origOp.windowSum n oc y x := by
  rw [OrigOp.indices, sliceIndices, Dilated.sum_flatMap_range, windowSum,
    sum_congr rfl fun ic _ => sum_kernel_windows (fun ky kx =>
      origOp.input.padded origOp.padsBegin.Y origOp.padsBegin.X n (origOp.inputChannel oc ic)
        (y * origOp.strides.Y + ky * origOp.dilations.Y)
        (x * origOp.strides.X + kx * origOp.dilations.X) * origOp.filter.get oc ic ky kx)
      origOp.filter.H origOp.filter.W, sum_comm]
  apply sum_congr rfl
  intro j _
  rw [sum_comm, List.map_map]
  rfl

end WindowSum

end Sum

section Rewrite

variable {α : Type} [Semiring α] {origOp : OrigOp α} {out : Tensor α}

/-- A dimension whose end pad is not needed as wide as it is: the begin pad in its place leaves room
for as many windows. -/
def KeepsWindows (size begin padEnd kernel stride : ℕ) : Prop :=
  padEnd = 0 ∨ kernel ≤ size + 2 * begin ∧
    (size + 2 * begin - kernel) / stride = (size + begin + padEnd - kernel) / stride

instance (size begin padEnd kernel stride : ℕ) :
    Decidable (KeepsWindows size begin padEnd kernel stride) :=
  inferInstanceAs (Decidable (_ ∨ _ ∧ _))

theorem keepsWindows_iff {size begin padEnd kernel stride count : ℕ}
    (hcount : inferDim size begin padEnd kernel stride 1 = .ok count) :
    KeepsWindows size begin padEnd kernel stride ↔ kernel ≤ extendedSize size begin padEnd ∧
      outSize (extendedSize size begin padEnd) kernel stride = count := by
  obtain ⟨⟨-, -, hkernel⟩, hfits, rfl⟩ := inferDim_eq_ok.mp hcount
  have hspan : (kernel - 1) * 1 + 1 = kernel := by omega
  rw [hspan] at hfits ⊢
  unfold KeepsWindows outSize extendedSize
  split_ifs with hend
  · have hsize : begin + size + begin = size + 2 * begin := by omega
    rw [hsize, or_iff_right (by omega), Nat.add_right_cancel_iff]
  · obtain rfl : padEnd = 0 := by omega
    have hsize : begin + size + 0 = size + begin := by omega
    rw [hsize]
    simpa using hfits

/-- What takes the place of the convolution computes what it computed, with slices of its filter
that are small and make it up. -/
structure Preserves (origOp : OrigOp α) (out : Tensor α) (g : Rewritten α) : Prop where
  output : g.output.Agrees out
  filters : List.Forall₂ (fun slice filter => sliceOp origOp.filter slice = .ok filter)
    g.filterSlices g.slicedFilters
  kernels : ∀ slice ∈ g.filterSlices, (1 ≤ slice.sizeY ∧ slice.sizeY ≤ MAX_KERNEL_SIZE) ∧
    1 ≤ slice.sizeX ∧ slice.sizeX ≤ MAX_KERNEL_SIZE
  partition : ∀ y < origOp.filter.H, ∀ x < origOp.filter.W, ∃! index : ℕ, ∃ slice : Slice,
    g.filterSlices[index]? = some slice ∧ slice.Holds y x
  slices : ∀ slice ∈ g.activationSlices,
    slice.Fits g.extendedActivation.H g.extendedActivation.W

/-- The values of the convolution in as many windows as the extended activation has room for. -/
def OrigOp.extendedOutput (origOp : OrigOp α) : Tensor α where
  N := origOp.input.N
  C := origOp.filter.N
  H := outSize (extendedSize origOp.input.H origOp.padsBegin.Y origOp.padsEnd.Y) origOp.filter.H
    origOp.strides.Y
  W := outSize (extendedSize origOp.input.W origOp.padsBegin.X origOp.padsEnd.X) origOp.filter.W
    origOp.strides.X
  get n oc y x := applyPostOp origOp.postOp
    (origOp.windowSum n oc y x + ConvolutionOp.biasAt origOp.bias oc)

theorem extendedOutput_agrees_iff (heval : origOp.eval = .ok out) :
    origOp.extendedOutput.Agrees out ↔
      outSize (extendedSize origOp.input.H origOp.padsBegin.Y origOp.padsEnd.Y) origOp.filter.H
        origOp.strides.Y = out.H ∧
      outSize (extendedSize origOp.input.W origOp.padsBegin.X origOp.padsEnd.X) origOp.filter.W
        origOp.strides.X = out.W := by
  obtain ⟨-, H, W, -, -, rfl⟩ := eval_eq_ok.mp heval
  constructor
  · intro hagrees
    exact ⟨hagrees.H, hagrees.W⟩
  · rintro ⟨hH, hW⟩
    exact ⟨rfl, rfl, hH, hW, fun _ _ _ _ _ _ _ _ => rfl⟩

theorem fits_of_rewriteSlice {slicedFilters : List (Tensor α)} {extended : Tensor α}
    (hdilations : origOp.dilations = ⟨1, 1⟩) (hfilters : InOrder origOp.filter slicedFilters)
    {graph graph' : SubGraph α} {p : ℕ × ℕ} (hp : p ∈ origOp.indices)
    (h : rewriteSlice origOp slicedFilters extended (numSlices origOp.filter.W)
      (numSlices origOp.filter.H) MAX_KERNEL_SIZE graph p = .ok graph') :
    p.1 * MAX_KERNEL_SIZE + windowSize origOp.filter.H MAX_KERNEL_SIZE p.1 ≤ extended.H ∧
      p.2 * MAX_KERNEL_SIZE + windowSize origOp.filter.W MAX_KERNEL_SIZE p.2 ≤ extended.W := by
  obtain ⟨hj, hi⟩ := mem_sliceIndices.mp hp
  simp only [rewriteSlice, hfilters p.1 hj p.2 hi, bind_eq_ok] at h
  obtain ⟨-, -, -, -, filter, hfilter, convInput, hslice, conv, hconv, -⟩ := h
  obtain rfl : slicedFilter origOp.filter p.1 p.2 = filter := Except.ok.inj hfilter
  obtain ⟨hfits, rfl⟩ := sliceOp_eq_ok.mp hslice
  obtain ⟨-, H, W, hH, hW, -⟩ := eval_eq_ok.mp hconv
  obtain ⟨⟨-, -, hposY⟩, hsizeY, -⟩ := inferDim_eq_ok.mp hH
  obtain ⟨⟨-, -, hposX⟩, hsizeX, -⟩ := inferDim_eq_ok.mp hW
  simp only [hdilations, Slice.Fits, slicedFilter, Tensor.crop] at *
  omega

theorem fits_of_rewriteSubGraph {slicedFilters : List (Tensor α)} {extended : Tensor α}
    (hH : 0 < origOp.filter.H) (hW : 0 < origOp.filter.W) (hdilations : origOp.dilations = ⟨1, 1⟩)
    (hfilters : InOrder origOp.filter slicedFilters)
    {graph : SubGraph α} (h : rewriteSubGraph origOp slicedFilters extended
      (numSlices origOp.filter.W) (numSlices origOp.filter.H) MAX_KERNEL_SIZE = .ok graph) :
    origOp.filter.H ≤ extended.H ∧ origOp.filter.W ≤ extended.W := by
  have hrows := numSlices_spec origOp.filter.H
  have hcolumns := numSlices_spec origOp.filter.W
  -- the last slices reach to the end of the filter
  have hlast : (numSlices origOp.filter.H - 1, numSlices origOp.filter.W - 1) ∈ origOp.indices := by
    rw [OrigOp.indices, mem_sliceIndices]
    simp only [MAX_KERNEL_SIZE] at *
    omega
  obtain ⟨graph', graph'', hpass⟩ := foldlM_runs h _ hlast
  have hfits := fits_of_rewriteSlice hdilations hfilters hlast hpass
  simp only [windowSize, MAX_KERNEL_SIZE] at *
  omega

section

variable (heval : origOp.eval = .ok out) (hlarge : ¬isLegal origOp.toConvolutionOp)
  (hdilations : origOp.dilations = ⟨1, 1⟩)
include heval hlarge hdilations

/-- The graph is built when the zeros can be made and the kernel fits into what is extended. -/
theorem matchAndRewrite_ok (hzeros : CanExtend origOp)
    (hfitsY : origOp.filter.H ≤ extendedSize origOp.input.H origOp.padsBegin.Y origOp.padsEnd.Y)
    (hfitsX : origOp.filter.W ≤ extendedSize origOp.input.W origOp.padsBegin.X origOp.padsEnd.X) :
    ∃ g, matchAndRewrite origOp = .ok g ∧ g.output.Agrees origOp.extendedOutput ∧
      (g.output.Agrees out → Preserves origOp out g) := by
  obtain ⟨hchannels, H, W, hsizeH, hsizeW, -⟩ := eval_eq_ok.mp heval
  obtain ⟨⟨hstrideY, -, hH⟩, -, -⟩ := inferDim_eq_ok.mp hsizeH
  obtain ⟨⟨hstrideX, -, hW⟩, -, -⟩ := inferDim_eq_ok.mp hsizeW
  obtain ⟨slicedFilters, hsliced, hfilters⟩ := sliceFilter_ok origOp.filter
  obtain ⟨extended, hextended, hactivation⟩ := getExtendedActivation_ok hzeros
  have hslides : Slides origOp extended := by
    refine ⟨hchannels, hdilations, ⟨hstrideY, hstrideX⟩, hactivation, ?_⟩
    rw [hactivation.H, hactivation.W]
    exact ⟨hfitsY, hfitsX⟩
  obtain ⟨graph, hgraph, haccumulates⟩ :=
    rewriteSubGraph_accumulates hslides hfilters hH hW hlarge
  obtain ⟨output, houtput⟩ : ∃ output,
      graph.accumulativeOutputTensors.getLast? = some output := by
    obtain ⟨before, last, hsplit, -⟩ := indices_split hH hW hlarge
    rw [← Option.ne_none_iff_exists']
    intro hnone
    rw [haccumulates.start hnone] at hsplit
    simp at hsplit
  refine ⟨⟨filterSlices origOp.filter (numSlices origOp.filter.W) (numSlices origOp.filter.H)
    MAX_KERNEL_SIZE, slicedFilters, extended, graph.activationSlices, output⟩, ?_, ?_, ?_⟩
  · simp only [matchAndRewrite, hsliced, hextended, bind_eq_ok]
    exact ⟨_, rfl, _, rfl, graph, hgraph, output, by rw [houtput]; rfl, rfl⟩
  · apply (haccumulates.back output houtput).trans
    refine ⟨rfl, rfl, ?_, ?_, fun n _ oc _ y _ x _ => ?_⟩
    · rw [OrigOp.sumOver, hactivation.H]
      rfl
    · rw [OrigOp.sumOver, hactivation.W]
      rfl
    · change applyPostOp _ (_ + _) = applyPostOp _ (_ + _)
      rw [sum_terms]
  · intro hagrees
    refine ⟨hagrees, forall₂_of_mapM hsliced, ?_,
      fun y hy x hx => filterSlices_partition origOp.filter hy hx, haccumulates.slices⟩
    intro slice hslice
    obtain ⟨index, hindex⟩ := List.mem_iff_getElem?.mp hslice
    obtain ⟨j, hj, i, hi, -, rfl⟩ := filterSlices_getElem?.mp hindex
    have hwindowY := windowSize_spec hj
    have hwindowX := windowSize_spec hi
    simp only
    omega

theorem keepsWindows_of_preserves {g : Rewritten α} (hg : matchAndRewrite origOp = .ok g)
    (hagrees : g.output.Agrees out) :
    CanExtend origOp ∧
      KeepsWindows origOp.input.H origOp.padsBegin.Y origOp.padsEnd.Y origOp.filter.H
        origOp.strides.Y ∧
      KeepsWindows origOp.input.W origOp.padsBegin.X origOp.padsEnd.X origOp.filter.W
        origOp.strides.X := by
  obtain ⟨-, H, W, hsizeH, hsizeW, rfl⟩ := eval_eq_ok.mp heval
  obtain ⟨⟨-, -, hH⟩, -, -⟩ := inferDim_eq_ok.mp hsizeH
  obtain ⟨⟨-, -, hW⟩, -, -⟩ := inferDim_eq_ok.mp hsizeW
  obtain ⟨slicedFilters, hsliced, hfilters⟩ := sliceFilter_ok origOp.filter
  have hrun := hg
  simp only [matchAndRewrite, hsliced, bind_eq_ok] at hrun
  obtain ⟨_, hfilter, extended, hextended, graph, hgraph, -⟩ := hrun
  obtain rfl := Except.ok.inj hfilter
  have hzeros := canExtend_of_ok hextended
  obtain ⟨extended', hextended', hactivation⟩ := getExtendedActivation_ok hzeros
  obtain rfl : extended' = extended := Except.ok.inj (hextended'.symm.trans hextended)
  have hfits := fits_of_rewriteSubGraph hH hW hdilations hfilters hgraph
  rw [hactivation.H, hactivation.W] at hfits
  obtain ⟨g', hg', houtput, -⟩ := matchAndRewrite_ok heval hlarge hdilations hzeros hfits.1 hfits.2
  obtain rfl : g' = g := Except.ok.inj (hg'.symm.trans hg)
  have hwindows := (extendedOutput_agrees_iff heval).mp (houtput.symm.trans hagrees)
  rw [hdilations] at hsizeH hsizeW
  exact ⟨hzeros, (keepsWindows_iff hsizeH).mpr ⟨hfits.1, hwindows.1⟩,
    (keepsWindows_iff hsizeW).mpr ⟨hfits.2, hwindows.2⟩⟩

end

/-- The sum of the sliced convolutions is the convolution when the zeros can be made and the begin
pads, which the extension puts behind the input as well, leave room for all windows. -/
theorem matchAndRewrite_preserves_iff (heval : origOp.eval = .ok out)
    (hlarge : ¬isLegal origOp.toConvolutionOp) (hdilations : origOp.dilations = ⟨1, 1⟩) :
    (∃ g, matchAndRewrite origOp = .ok g ∧ Preserves origOp out g) ↔ CanExtend origOp ∧
      KeepsWindows origOp.input.H origOp.padsBegin.Y origOp.padsEnd.Y origOp.filter.H
        origOp.strides.Y ∧
      KeepsWindows origOp.input.W origOp.padsBegin.X origOp.padsEnd.X origOp.filter.W
        origOp.strides.X := by
  constructor
  · rintro ⟨g, hg, hpreserves⟩
    exact keepsWindows_of_preserves heval hlarge hdilations hg hpreserves.output
  · rintro ⟨hzeros, hY, hX⟩
    obtain ⟨-, H, W, hsizeH, hsizeW, hout⟩ := ConvolutionOp.eval_eq_ok.mp heval
    rw [hdilations] at hsizeH hsizeW
    obtain ⟨hfitsY, hwindowsY⟩ := (keepsWindows_iff hsizeH).mp hY
    obtain ⟨hfitsX, hwindowsX⟩ := (keepsWindows_iff hsizeW).mp hX
    obtain ⟨g, hg, houtput, hpreserves⟩ :=
      matchAndRewrite_ok heval hlarge hdilations hzeros hfitsY hfitsX
    have hagrees : origOp.extendedOutput.Agrees out := by
      rw [extendedOutput_agrees_iff heval, ← hout]
      exact ⟨hwindowsY, hwindowsX⟩
    exact ⟨g, hg, hpreserves (houtput.trans hagrees)⟩

/-- Thirteen columns with one of padding on either side, for a kernel of two slices. -/
def twoSlices : OrigOp ℕ where
  input := ⟨1, 1, 2, 13, fun _ _ y x => y + x⟩
  filter := ⟨1, 1, 2, 12, fun _ _ ky kx => ky + kx⟩
  bias := some ⟨1, 1, 1, 1, fun _ _ _ _ => 5⟩
  strides := ⟨1, 2⟩
  padsBegin := ⟨0, 1⟩
  padsEnd := ⟨0, 1⟩
  dilations := ⟨1, 1⟩
  postOp := some (· + 1)
  kind := .Convolution
  elemType := .f16

theorem matchAndRewrite_preserves_twoSlices : ∃ out g, twoSlices.eval = .ok out ∧
    matchAndRewrite twoSlices = .ok g ∧ Preserves twoSlices out g := by
  have heval : twoSlices.eval = .ok ⟨1, 1, 1, 2, fun n oc y x =>
      twoSlices.windowSum n oc y x + 5 + 1⟩ := rfl
  have hlarge : ¬isLegal twoSlices.toConvolutionOp := fun h => absurd h.2 (by decide)
  obtain ⟨g, hg, hpreserves⟩ := (matchAndRewrite_preserves_iff heval hlarge rfl).mpr
    ⟨Or.inr (Or.inr rfl), by decide, by decide⟩
  exact ⟨_, g, heval, hg, hpreserves⟩

/-- A column of padding behind the input only. -/
def endPad : OrigOp ℕ where
  input := ⟨1, 1, 1, 12, fun _ _ _ x => x⟩
  filter := ⟨1, 1, 1, 12, fun _ _ _ kx => kx⟩
  bias := none
  strides := ⟨1, 1⟩
  padsBegin := ⟨0, 0⟩
  padsEnd := ⟨0, 1⟩
  dilations := ⟨1, 1⟩
  postOp := none
  kind := .Convolution
  elemType := .f16

/-- Instead of two values in a row there is one. -/
theorem endPad_not_preserved : ∃ out, endPad.eval = .ok out ∧ out.W = 2 ∧
    ¬isLegal endPad.toConvolutionOp ∧ endPad.dilations = ⟨1, 1⟩ ∧
    (∃ g, matchAndRewrite endPad = .ok g ∧ g.output.W = 1) ∧
    ¬∃ g, matchAndRewrite endPad = .ok g ∧ Preserves endPad out g := by
  have heval : endPad.eval = .ok ⟨1, 1, 1, 2, fun n oc y x => endPad.windowSum n oc y x + 0⟩ := rfl
  have hlarge : ¬isLegal endPad.toConvolutionOp := fun h => absurd h.2 (by decide)
  obtain ⟨g, hg, houtput, -⟩ := matchAndRewrite_ok heval hlarge rfl (Or.inr (Or.inr rfl))
    (by decide) (by decide)
  refine ⟨_, heval, rfl, hlarge, rfl, ⟨g, hg, houtput.W⟩, ?_⟩
  rintro ⟨g', hg', hpreserves⟩
  obtain ⟨-, -, hwindows⟩ := keepsWindows_of_preserves heval hlarge rfl hg' hpreserves.output
  revert hwindows
  decide

end Rewrite

end Vpux.IE.ConvRewriter
