import Mathlib.Algebra.BigOperators.Group.List.Lemmas
import Vpux.IE.Operations

/-! A dilated convolution as one with an expanded filter, or as a sum of convolutions with one
tap of the filter each. -/
namespace Vpux.IE.Dilated

section DilatedConvolution
open Vpux.Const Data

variable {α : Type}

abbrev OrigOp := TypedConvolutionOp

structure SliceAndPaddingParameters where
  index : ℕ
  offsetX : ℤ
  sizeX : ℤ
  offsetY : ℤ
  sizeY : ℤ
  padStart : ℤ × ℤ
  padEnd : ℤ × ℤ
  deriving DecidableEq, Repr

def getSlicedShape (dilations : Dims2D) (kernelX kernelY : ℕ) : Dims2D where
  X := if 1 < dilations.X then kernelX else 1
  Y := if 1 < dilations.Y then kernelY else 1

/-- The slices of the filter, in the order of the passes over `kx` and, inside, over `ky`. -/
def getSlicedFilters (filter : Tensor α) (slicedShape : Dims2D) : Except Fault (List (Tensor α)) :=
  ((List.range slicedShape.X).flatMap fun kx => (List.range slicedShape.Y).map fun ky =>
    ({ offsetY := ky
       offsetX := kx
       sizeY := (filter.H / slicedShape.Y : ℕ)
       sizeX := (filter.W / slicedShape.X : ℕ) } : Slice)).mapM (sliceOp filter)

/-- The offset, the size and the pads of a window that is cut to the dimension. -/
def getParameters (start end' padding dimension : ℤ) : ℤ × ℤ × ℤ × ℤ :=
  let start := start - padding
  let padStart := if start < 0 then -start else 0
  let start := if start < 0 then 0 else start
  let end' := end' - padding
  let padEnd := if dimension < end' then end' - dimension else 0
  let end' := if dimension < end' then dimension else end'
  (start, end' - start, padStart, padEnd)

/-- The parameters of one pass in one dimension; none for a window in the padding. -/
def axisParameters (sliced k dilation stride padStart padEnd size out : ℕ) :
    Option (ℤ × ℤ × ℤ × ℤ) :=
  if sliced = 1 then some (0, size, padStart, padEnd)
  else
    let start := k * dilation
    let end' := out * stride + start
    if size + padStart ≤ start then none
    else if end' ≤ padStart then none
    else some (getParameters start end' padStart size)

def getActivationSliceAndPaddingParameters (slicedShape padStart padEnd inputShape outputShape
    dilations strides : Dims2D) : List SliceAndPaddingParameters :=
  (List.range slicedShape.X).flatMap fun kx =>
    match axisParameters slicedShape.X kx dilations.X strides.X padStart.X padEnd.X inputShape.X
      outputShape.X with
    | none => []
    | some (offsetX, sizeX, left, right) =>
      (List.range slicedShape.Y).flatMap fun ky =>
        match axisParameters slicedShape.Y ky dilations.Y strides.Y padStart.Y padEnd.Y
          inputShape.Y outputShape.Y with
        | none => []
        | some (offsetY, sizeY, top, bottom) =>
          [{ index := kx * slicedShape.Y + ky, offsetX, sizeX, offsetY, sizeY,
             padStart := (top, left), padEnd := (bottom, right) }]

variable [Semiring α]

def getZerosConst (origOp : OrigOp α) (constShape : Tensor α) : Except Fault (Tensor α) :=
  createZeros "input has incompatible data type, only float16 or float32 are supported"
    origOp.elemType constShape.N constShape.C constShape.H constShape.W

/-- A new convolution, and the slice it reads. -/
structure NewConv (α : Type) where
  slice : Slice
  conv : ConvolutionOp α
  result : Tensor α

/-- A slice of the activation and the convolution with one slice of the filter. -/
def createNewOp (origOp : OrigOp α) (slicedFilters : List (Tensor α)) (bias : Option (Tensor α))
    (parameter : SliceAndPaddingParameters) : Except Fault (NewConv α) := do
  let slice : Slice := {
    offsetY := parameter.offsetY.toNat
    offsetX := parameter.offsetX.toNat
    sizeY := parameter.sizeY
    sizeX := parameter.sizeX }
  let slicedActivation ← sliceOp origOp.input slice
  let filter ← (slicedFilters[parameter.index]?).elim (.error .overread) .ok
  let conv : ConvolutionOp α := {
    input := slicedActivation
    filter := filter
    bias := bias
    strides := origOp.strides
    padsBegin := ⟨parameter.padStart.1.toNat, parameter.padStart.2.toNat⟩
    padsEnd := ⟨parameter.padEnd.1.toNat, parameter.padEnd.2.toNat⟩
    dilations := ⟨1, 1⟩
    postOp := none
    kind := origOp.kind }
  let result ← conv.eval
  pure ⟨slice, conv, result⟩

/-- The first of the new convolutions has the bias, the others have the zeros. -/
def createNewConvs (origOp : OrigOp α) (slicedFilters : List (Tensor α))
    (zeroBias : Option (Tensor α)) :
    Bool → List SliceAndPaddingParameters → Except Fault (List (NewConv α))
  | _, [] => pure []
  | biasAdded, parameter :: parameters => do
    let newConv ← createNewOp origOp slicedFilters
      (if biasAdded then origOp.bias else zeroBias) parameter
    let newConvs ← createNewConvs origOp slicedFilters zeroBias false parameters
    pure (newConv :: newConvs)

/-- The additions one by one, the last one with the post operation. -/
def addNewConvs (postOp : Option (α → α)) : Tensor α → List (NewConv α) → Except Fault (Tensor α)
  | add, [] => pure add
  | add, [last] => addOp add last.result postOp
  | add, newConv :: newConvs => do
    let add ← addOp add newConv.result none
    addNewConvs postOp add newConvs

/-- What takes the place of the convolution. -/
structure Rewritten (α : Type) where
  activationSlices : List Slice
  convs : List (ConvolutionOp α)
  output : Tensor α

def getZeroBias (origOp : OrigOp α) : Except Fault (Option (Tensor α)) :=
  match origOp.bias with
  | some bias => some <$> getZerosConst origOp bias
  | none => pure none

/-- The sum of the new convolutions, or the only one of them with the post operation. -/
def sumNewConvs (origOp : OrigOp α) : List (NewConv α) → Except Fault (Rewritten α)
  | [] => .error (.exception "no any new conv created.")
  | [newConv] => do
    let conv := { newConv.conv with postOp := origOp.postOp }
    let output ← conv.eval
    pure ⟨[newConv.slice], [conv], output⟩
  | newConv :: rest => do
    let output ← addNewConvs origOp.postOp newConv.result rest
    pure ⟨(newConv :: rest).map (·.slice), (newConv :: rest).map (·.conv), output⟩

/-- The sum of convolutions with slices of the filter. -/
def split (origOp : OrigOp α) (outputShape : Dims2D) : Except Fault (Rewritten α) := do
  let slicedShape := getSlicedShape origOp.dilations origOp.filter.W origOp.filter.H
  let slicedFilters ← getSlicedFilters origOp.filter slicedShape
  let parameters := getActivationSliceAndPaddingParameters slicedShape origOp.padsBegin
    origOp.padsEnd ⟨origOp.input.H, origOp.input.W⟩ outputShape origOp.dilations origOp.strides
  throwUnless (parameters ≠ []) "no any activation slice"
  let zeroBias ← getZeroBias origOp
  let newConvs ← createNewConvs origOp slicedFilters zeroBias origOp.bias.isSome parameters
  sumNewConvs origOp newConvs

/-- One convolution with the expanded filter. -/
def expand (origOp : OrigOp α) : Except Fault (Rewritten α) := do
  let newOp : ConvolutionOp α := {
    origOp.toConvolutionOp with
    filter := expandDilatedOp origOp.filter origOp.dilations
    dilations := ⟨1, 1⟩ }
  let output ← newOp.eval
  pure ⟨[], [newOp], output⟩

def needsSplit (op : ConvolutionOp α) : Prop :=
  MAX_KERNEL_SIZE < (op.filter.W - 1) * op.dilations.X + 1 ∨
    MAX_KERNEL_SIZE < (op.filter.H - 1) * op.dilations.Y + 1

instance (op : ConvolutionOp α) : Decidable (needsSplit op) :=
  inferInstanceAs (Decidable (_ ∨ _))

/-- The shape of the result of the operation is known, hence the second argument. -/
def matchAndRewrite (origOp : OrigOp α) (outputShape : Dims2D) : Except Fault (Rewritten α) :=
  if needsSplit origOp.toConvolutionOp then split origOp outputShape else expand origOp

end DilatedConvolution

-- The taps of a dilated convolution: which part of the input each of them reads.
section DilatedTaps
open Finset Vpux.Const Data

section Axis

variable {sliced K k dilation stride padStart padEnd size out : ℕ}

theorem sliced_cases (hdilation : 0 < dilation)
    (hsliced : sliced = if 1 < dilation then K else 1) :
    sliced = 1 ∧ (dilation = 1 ∨ K = 1) ∨ sliced ≠ 1 ∧ sliced = K := by
  split_ifs at hsliced with hlt
  · by_cases hone : K = 1
    · exact Or.inl ⟨hsliced.trans hone, Or.inr hone⟩
    · exact Or.inr ⟨hsliced ▸ hone, hsliced⟩
  · exact Or.inl ⟨hsliced, Or.inl (by omega)⟩

theorem axisParameters_eq_none (hK : 0 < K) (hdilation : 0 < dilation) (hstride : 0 < stride)
    (hsliced : sliced = if 1 < dilation then K else 1)
    (h : axisParameters sliced k dilation stride padStart padEnd size out = none) {o k' : ℕ}
    (ho : o < out) (hk' : k' < K / sliced) :
    ¬(padStart ≤ o * stride + (k + k') * dilation ∧
      o * stride + (k + k') * dilation < padStart + size) := by
  have hlast : o * stride + stride ≤ out * stride := by
    rw [← Nat.succ_mul]
    exact Nat.mul_le_mul_right stride ho
  dsimp only [axisParameters] at h
  obtain ⟨hone, -⟩ | ⟨hne, hall⟩ := sliced_cases hdilation hsliced
  · rw [if_pos hone] at h
    cases h
  · rw [hall, Nat.div_self hK] at hk'
    obtain rfl : k' = 0 := by omega
    rw [Nat.add_zero]
    split_ifs at h with hbehind hbefore
    · omega
    · omega

/-- The part of the input that a slice of the filter reads, with its own pads. -/
structure AxisPart (sliced K k dilation stride padStart size out offset part top bottom : ℕ) :
    Prop where
  pos : 0 < part
  le : offset + part ≤ size
  out_eq : inferDim part top bottom (K / sliced) stride 1 = .ok out
  reads : ∀ o < out, ∀ k' < K / sliced,
    Tensor.SameRead size padStart (o * stride + (k + k') * dilation) part top (o * stride + k' * 1)
      offset

theorem axisParameters_eq_some (hK : 0 < K) (hsize : 0 < size)
    (hsliced : sliced = if 1 < dilation then K else 1) (hk : k < sliced)
    (hout : inferDim size padStart padEnd K stride dilation = .ok out)
    {p : ℤ × ℤ × ℤ × ℤ}
    (h : axisParameters sliced k dilation stride padStart padEnd size out = some p) :
    ∃ offset part top bottom : ℕ, p = (↑offset, ↑part, ↑top, ↑bottom) ∧
      AxisPart sliced K k dilation stride padStart size out offset part top bottom := by
  obtain ⟨⟨hstride, hdilation, -⟩, hfits, hcount⟩ := inferDim_eq_ok.mp hout
  obtain ⟨hone, hplain⟩ | ⟨hne, hall⟩ := sliced_cases hdilation hsliced
  · rw [axisParameters, if_pos hone] at h
    obtain rfl := Option.some.inj h
    obtain rfl : k = 0 := by omega
    have htap : ∀ k' < K, k' * dilation = k' := by
      intro k' hk'
      obtain rfl | rfl := hplain
      · exact Nat.mul_one k'
      · obtain rfl : k' = 0 := by omega
        exact Nat.zero_mul dilation
    refine ⟨0, size, padStart, padEnd, rfl, hsize, by omega, ?_, ?_⟩
    · have hspan := htap (K - 1) (by omega)
      rw [hone, Nat.div_one, inferDim_eq_ok, Nat.mul_one]
      rw [hspan] at hfits hcount
      exact ⟨⟨hstride, Nat.one_pos, hK⟩, hfits, hcount⟩
    · intro o ho k' hk'
      rw [hone, Nat.div_one] at hk'
      rw [Nat.zero_add, htap k' hk', Nat.mul_one]
      exact ⟨Iff.rfl, fun _ _ => Nat.zero_add _⟩
  · dsimp only [axisParameters] at h
    rw [if_neg hne] at h
    split_ifs at h with hbehind hbefore
    obtain rfl := Option.some.inj h
    have hwhole : K / sliced = 1 := by rw [hall, Nat.div_self hK]
    have hspan : 0 < out * stride := by
      rw [← hcount]
      exact Nat.mul_pos (Nat.succ_pos _) hstride
    refine ⟨k * dilation - padStart,
      min (out * stride + k * dilation - padStart) size - (k * dilation - padStart),
      padStart - k * dilation, out * stride + k * dilation - padStart - size, ?_, ?_, ?_, ?_, ?_⟩
    · simp only [getParameters, Prod.mk.injEq]
      refine ⟨?_, ?_, ?_, ?_⟩ <;> split_ifs <;> omega
    · omega
    · omega
    · have htotal : min (out * stride + k * dilation - padStart) size - (k * dilation - padStart) +
          (padStart - k * dilation) + (out * stride + k * dilation - padStart - size) =
            out * stride := by omega
      rw [hwhole, inferDim_eq_ok, htotal]
      refine ⟨⟨hstride, Nat.one_pos, Nat.one_pos⟩, by omega, ?_⟩
      obtain ⟨before, rfl⟩ : ∃ before, out = before + 1 := ⟨_, hcount.symm⟩
      rw [Nat.succ_mul, Nat.sub_self, Nat.zero_mul, Nat.zero_add, Nat.add_sub_assoc hstride,
        Nat.mul_comm, Nat.mul_add_div hstride, Nat.div_eq_of_lt (by omega), Nat.add_zero]
    · intro o ho k' hk'
      obtain rfl : k' = 0 := by omega
      have hlast : o * stride + stride ≤ out * stride := by
        rw [← Nat.succ_mul]
        exact Nat.mul_le_mul_right stride ho
      rw [Nat.add_zero, Nat.zero_mul, Nat.add_zero]
      constructor
      · omega
      · omega

end Axis

section Taps

variable {α : Type} [Semiring α]

theorem sum_range_slices {M : Type} [AddCommMonoid M] (f : ℕ → M) {K sliced : ℕ} (hK : 0 < K)
    (h : sliced = 1 ∨ sliced = K) :
    ∑ k ∈ range K, f k = ∑ i ∈ range sliced, ∑ k ∈ range (K / sliced), f (i + k) := by
  obtain rfl | rfl := h
  · simp
  · simp [Nat.div_self hK]

theorem sum_kernel_slices {M : Type} [AddCommMonoid M] (f : ℕ → ℕ → M)
    {KY KX slicedY slicedX : ℕ} (hKY : 0 < KY) (hKX : 0 < KX) (hY : slicedY = 1 ∨ slicedY = KY)
    (hX : slicedX = 1 ∨ slicedX = KX) :
    ∑ ky ∈ range KY, ∑ kx ∈ range KX, f ky kx =
      ∑ ix ∈ range slicedX, ∑ iy ∈ range slicedY, ∑ ky ∈ range (KY / slicedY),
        ∑ kx ∈ range (KX / slicedX), f (iy + ky) (ix + kx) := by
  calc ∑ ky ∈ range KY, ∑ kx ∈ range KX, f ky kx
      = ∑ iy ∈ range slicedY, ∑ ky ∈ range (KY / slicedY), ∑ kx ∈ range KX, f (iy + ky) kx :=
        sum_range_slices _ hKY hY
    _ = ∑ iy ∈ range slicedY, ∑ ky ∈ range (KY / slicedY), ∑ ix ∈ range slicedX,
          ∑ kx ∈ range (KX / slicedX), f (iy + ky) (ix + kx) :=
        sum_congr rfl fun iy _ => sum_congr rfl fun ky _ => sum_range_slices _ hKX hX
    _ = ∑ iy ∈ range slicedY, ∑ ix ∈ range slicedX, ∑ ky ∈ range (KY / slicedY),
          ∑ kx ∈ range (KX / slicedX), f (iy + ky) (ix + kx) :=
        sum_congr rfl fun iy _ => sum_comm
    _ = _ := sum_comm

/-- The part of a window sum that belongs to the taps of one slice of the filter. -/
def tapSum (op : ConvolutionOp α) (widthY widthX iy ix n oc y x : ℕ) : α :=
  ∑ ic ∈ range op.filter.C, ∑ ky ∈ range widthY, ∑ kx ∈ range widthX,
    op.input.padded op.padsBegin.Y op.padsBegin.X n (op.inputChannel oc ic)
      (y * op.strides.Y + (iy + ky) * op.dilations.Y)
      (x * op.strides.X + (ix + kx) * op.dilations.X) * op.filter.get oc ic (iy + ky) (ix + kx)

theorem windowSum_eq_tapSums (op : ConvolutionOp α) {slicedY slicedX : ℕ}
    (hH : 0 < op.filter.H) (hW : 0 < op.filter.W) (hY : slicedY = 1 ∨ slicedY = op.filter.H)
    (hX : slicedX = 1 ∨ slicedX = op.filter.W) (n oc y x : ℕ) :
    op.windowSum n oc y x = ∑ ix ∈ range slicedX, ∑ iy ∈ range slicedY,
      tapSum op (op.filter.H / slicedY) (op.filter.W / slicedX) iy ix n oc y x := by
  rw [ConvolutionOp.windowSum,
    sum_congr rfl fun ic _ => sum_kernel_slices (fun ky kx =>
      op.input.padded op.padsBegin.Y op.padsBegin.X n (op.inputChannel oc ic)
        (y * op.strides.Y + ky * op.dilations.Y) (x * op.strides.X + kx * op.dilations.X) *
        op.filter.get oc ic ky kx) hH hW hY hX, sum_comm]
  apply sum_congr rfl
  intro ix hix
  rw [sum_comm]
  rfl

/-- The convolution of a part of the input with a slice of the filter. -/
def partConv (op : ConvolutionOp α) (input filter : Slice) (top left bottom right : ℕ)
    (bias : Option (Tensor α)) (postOp : Option (α → α)) : ConvolutionOp α where
  input := op.input.crop input.offsetY input.offsetX input.sizeY.toNat input.sizeX.toNat
  filter := op.filter.crop filter.offsetY filter.offsetX filter.sizeY.toNat filter.sizeX.toNat
  bias := bias
  strides := op.strides
  padsBegin := ⟨top, left⟩
  padsEnd := ⟨bottom, right⟩
  dilations := ⟨1, 1⟩
  postOp := postOp
  kind := op.kind

variable {op : ConvolutionOp α} {slicedY slicedX iy ix outH outW : ℕ}
  {offsetY partY top bottom offsetX partX left right : ℕ}

theorem windowSum_partConv
    (hY : AxisPart slicedY op.filter.H iy op.dilations.Y op.strides.Y op.padsBegin.Y op.input.H
      outH offsetY partY top bottom)
    (hX : AxisPart slicedX op.filter.W ix op.dilations.X op.strides.X op.padsBegin.X op.input.W
      outW offsetX partX left right)
    (bias : Option (Tensor α)) (postOp : Option (α → α)) (n oc : ℕ) {y x : ℕ} (hy : y < outH)
    (hx : x < outW) :
    (partConv op ⟨offsetY, offsetX, partY, partX⟩
      ⟨iy, ix, (op.filter.H / slicedY : ℕ), (op.filter.W / slicedX : ℕ)⟩ top left bottom right
      bias postOp).windowSum n oc y x =
      tapSum op (op.filter.H / slicedY) (op.filter.W / slicedX) iy ix n oc y x := by
  apply sum_congr rfl
  intro ic _
  apply sum_congr rfl
  intro ky hky
  apply sum_congr rfl
  intro kx hkx
  have hread := Tensor.padded_crop (hY.reads y hy ky (mem_range.mp hky))
    (hX.reads x hx kx (mem_range.mp hkx)) n (op.inputChannel oc ic)
  exact congrArg (· * op.filter.get oc ic (iy + ky) (ix + kx)) hread

theorem eval_partConv (hchannels : op.groupChannels = op.filter.C)
    (hY : AxisPart slicedY op.filter.H iy op.dilations.Y op.strides.Y op.padsBegin.Y op.input.H
      outH offsetY partY top bottom)
    (hX : AxisPart slicedX op.filter.W ix op.dilations.X op.strides.X op.padsBegin.X op.input.W
      outW offsetX partX left right)
    (bias : Option (Tensor α)) (postOp : Option (α → α)) :
    ∃ t, (partConv op ⟨offsetY, offsetX, partY, partX⟩
      ⟨iy, ix, (op.filter.H / slicedY : ℕ), (op.filter.W / slicedX : ℕ)⟩ top left bottom right
      bias postOp).eval = .ok t ∧
      t.Agrees ⟨op.input.N, op.filter.N, outH, outW, fun n oc y x => applyPostOp postOp
        (tapSum op (op.filter.H / slicedY) (op.filter.W / slicedX) iy ix n oc y x +
          ConvolutionOp.biasAt bias oc)⟩ :=
  ConvolutionOp.eval_agrees hchannels hY.out_eq hX.out_eq fun n oc _ _ hy _ hx =>
    windowSum_partConv hY hX bias postOp n oc hy hx

end Taps

end DilatedTaps

end Vpux.IE.Dilated
