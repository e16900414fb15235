import Vpux.Tiling.Preserve

/-! Tiling a group convolution over its output channels: `backInferGroupConvTile` of
`core/tiling.cpp`, and how `VPU/ops/group_convolution.cpp` uses it. -/
namespace Vpux.Tiling
open Data Dims4D

def backInferGroupConvTile (outputTile : TileInfo) (origInputShape origFilterShape
    origBiasShape : Shape) (strides : List ℤ) (origPadding : PadInfo) (groups : ℤ) :
    Except TilingError TilingInfo := do
  let res ← backInferConvTile outputTile origInputShape origFilterShape origBiasShape strides
    origPadding
  let numOutChannelsPerGroup := (origFilterShape.dim Filter.OC).tdiv groups
  let startGroupForTile := (outputTile.offsets.dim Act.C).tdiv numOutChannelsPerGroup
  let numGroupsForTile := divUp (outputTile.shape.dim Act.C) numOutChannelsPerGroup
  return { res with
    tiles := res.tiles.modifyHead fun inputTile => { inputTile with
      offsets := inputTile.offsets.set Act.C (startGroupForTile * origFilterShape.dim Filter.IC)
      shape := inputTile.shape.set Act.C (numGroupsForTile * origFilterShape.dim Filter.IC) } }

/-- A group convolution with the shapes of its operands. `biasShape` is empty where the operation
has no bias. -/
structure GroupConvolutionOp where
  inputShape : Shape
  filterShape : Shape
  biasShape : Shape
  strides : List ℤ
  pads : PadInfo
  groups : Option ℤ
  deriving DecidableEq, Repr

inductive AdjustError where
  /-- "Missed tile information. Got {0} tiles info, must be at least 2" -/
  | missedTileInformation (tiles : ℕ)
  /-- "Missing tile information for paddings" -/
  | missingPaddings
  deriving DecidableEq, Repr

namespace GroupConvolutionOp

def backInferTileInfo (op : GroupConvolutionOp) (outputTile : TileInfo) :
    Except TilingError TilingInfo :=
  backInferGroupConvTile outputTile op.inputShape op.filterShape op.biasShape op.strides op.pads
    (op.groups.getD 1)

/-- `IE::adjustPaddings`. -/
def adjustPaddings (op : GroupConvolutionOp) (inputTiling : TilingInfo) :
    Except AdjustError GroupConvolutionOp :=
  match inputTiling.pads with
  | some pads => .ok { op with pads }
  | none => .error .missingPaddings

def adjustAttrs (op : GroupConvolutionOp) (inputTiling : TilingInfo) :
    Except AdjustError GroupConvolutionOp :=
  match inputTiling.tiles with
  | inputTile :: filterTile :: _ => do
    let op ← op.adjustPaddings inputTiling
    return { op with
      groups := some ((inputTile.shape.dim Act.C).tdiv (filterTile.shape.dim Filter.IC)) }
  | tiles => .error (.missedTileInformation tiles.length)

/-- The operation on the tiles of its operands, before its attributes are adjusted. -/
def sliceOperands (op : GroupConvolutionOp) (tiles : List TileInfo) : GroupConvolutionOp where
  inputShape := (tiles.map TileInfo.shape).getD 0 []
  filterShape := (tiles.map TileInfo.shape).getD 1 []
  biasShape := (tiles.map TileInfo.shape).getD 2 []
  strides := op.strides
  pads := op.pads
  groups := op.groups

def sliding (op : GroupConvolutionOp) : Sliding where
  kernelY := op.filterShape.dim Filter.KY
  kernelX := op.filterShape.dim Filter.KX
  strideY := op.strides.getD Kernel.Y 0
  strideX := op.strides.getD Kernel.X 0
  pads := op.pads

end GroupConvolutionOp

section Meaning

variable {α : Type} [Semiring α]

/-- The values of the operands, the filter's and the input's by the place in their plane. -/
structure GroupConvOperands (α : Type) where
  input : ℤ → ℤ → ℤ × ℤ → α
  /-- By the number of the position in the window. -/
  filter : ℤ → ℤ → ℕ → α
  bias : ℤ → α

/-- A padding position counts as zero. -/
def cellValue (plane : ℤ × ℤ → α) : Option (Cell (ℤ × ℤ)) → α
  | some (.element place) => plane place
  | _ => 0

/-- The sum over the window and the channels of a group, each channel with its plane. -/
def groupWindowSum (inChannels : ℤ) (window : List (Option (Cell (ℤ × ℤ))))
    (planes : ℤ → ℤ × ℤ → α) (kernels : ℤ → ℕ → α) : α :=
  ((List.range inChannels.toNat).map fun (ic : ℕ) =>
    (window.mapIdx fun k cell => cellValue (planes ic) cell * kernels ic k).sum).sum

namespace GroupConvolutionOp

/-- The channel of the input from which on the group of an output channel reads. -/
def firstChannel (op : GroupConvolutionOp) (outChannel : ℤ) : ℤ :=
  outChannel / (op.filterShape.dim Filter.OC / op.groups.getD 1) * op.filterShape.dim Filter.IC

/-- An output of the operation (with dilations of one) on operands that are the given tiles of
larger tensors. -/
def evalOn (op : GroupConvolutionOp) (tiles : List TileInfo) (operands : GroupConvOperands α)
    (n c y x : ℤ) : α :=
  match tiles with
  | inputTile :: filterTile :: biasTiles =>
    let window := (inputTile.padded op.pads).window op.sliding.kernelY op.sliding.kernelX
      op.sliding.strideY op.sliding.strideX y x
    groupWindowSum (op.filterShape.dim Filter.IC) window
        (fun ic => operands.input (inputTile.offsets.dim Act.N + n)
          (inputTile.offsets.dim Act.C + (op.firstChannel c + ic)))
        (operands.filter (filterTile.offsets.dim Filter.OC + c)) +
      biasTiles.head?.elim 0 fun biasTile => operands.bias (biasTile.offsets.dim Act.C + c)
  | _ => 0

def wholeTiles (op : GroupConvolutionOp) : List TileInfo :=
  [.ofShape op.inputShape, .ofShape op.filterShape] ++
    if op.biasShape ≠ [] then [.ofShape op.biasShape] else []

def eval (op : GroupConvolutionOp) (operands : GroupConvOperands α) (n c y x : ℤ) : α :=
  op.evalOn op.wholeTiles operands n c y x

end GroupConvolutionOp
end Meaning

/-- The input tile has the channels of every group of the output tile and lies inside the input,
the tiled operation's groups give the channels of the output tile, and it computes its values. -/
structure GroupConvolutionOp.ComputesTile (op : GroupConvolutionOp) (outputTile : TileInfo)
    (info : TilingInfo) (tiledOp : GroupConvolutionOp) : Prop where
  covers : ∀ inputTile ∈ info.tiles.head?, ∀ c, outputTile.offsets.dim Act.C ≤ c →
    c < outputTile.offsets.dim Act.C + outputTile.shape.dim Act.C →
    inputTile.offsets.dim Act.C ≤ op.firstChannel c ∧
      op.firstChannel c + op.filterShape.dim Filter.IC ≤
        inputTile.offsets.dim Act.C + inputTile.shape.dim Act.C
  inside : ∀ inputTile ∈ info.tiles.head?, inputTile.Inside op.inputShape
  groups : tiledOp.groups.getD 1 * (op.filterShape.dim Filter.OC / op.groups.getD 1) =
    outputTile.shape.dim Act.C
  values : ∀ {α : Type} [Semiring α] (operands : GroupConvOperands α) (n c y x : ℤ),
    0 ≤ c → c < outputTile.shape.dim Act.C → 0 ≤ y → y < outputTile.shape.dim Act.H →
    0 ≤ x → x < outputTile.shape.dim Act.W →
    tiledOp.evalOn info.tiles operands n c y x =
      op.eval operands (outputTile.offsets.dim Act.N + n) (outputTile.offsets.dim Act.C + c)
        (outputTile.offsets.dim Act.H + y) (outputTile.offsets.dim Act.W + x)

/-- Tiling the operation to the output tile succeeds, and the result computes the tile. -/
def GroupConvolutionOp.TilesTo (op : GroupConvolutionOp) (outputTile : TileInfo) : Prop :=
  ∃ info tiledOp, op.backInferTileInfo outputTile = .ok info ∧
    (op.sliceOperands info.tiles).adjustAttrs info = .ok tiledOp ∧
    op.ComputesTile outputTile info tiledOp

section Pieces

variable {groups outPerGroup divisor k : ℤ} {sizes : List ℤ}

/-- The pieces of a dimension all have a multiple of `outPerGroup` elements exactly when that is
one, or the pieces share out the groups evenly. -/
theorem dividedShapes_dvd_iff (hgroups : 0 < groups) (hout : 0 < outPerGroup)
    (h : dividedShapes (groups * outPerGroup) divisor 1 = some sizes) :
    (∀ size ∈ sizes, outPerGroup ∣ size) ↔ outPerGroup = 1 ∨ divisor ∣ groups := by
  have hpos : 0 < groups * outPerGroup := Int.mul_pos hgroups hout
  obtain ⟨hone, ⟨_, _, haligned, -⟩ | ⟨-, rfl⟩⟩ := dividedShapes_cases hpos.le h
  · omega
  have hmod := Int.emod_nonneg (groups * outPerGroup) (show divisor ≠ 0 by omega)
  have hlt := Int.emod_lt_of_pos (groups * outPerGroup) (show 0 < divisor by omega)
  have hdivmod := Int.mul_ediv_add_emod (groups * outPerGroup) divisor
  constructor
  · intro hall
    have hlast : outPerGroup ∣ groups * outPerGroup / divisor :=
      hall _ (List.mem_append_right _ (List.mem_replicate.mpr ⟨by omega, rfl⟩))
    by_cases hrem : groups * outPerGroup % divisor = 0
    · obtain ⟨share, hshare⟩ := hlast
      refine .inr ⟨share, ?_⟩
      rw [hrem, hshare, add_zero] at hdivmod
      refine (Int.eq_of_mul_eq_mul_right hout.ne' ?_).symm
      rw [← hdivmod]
      ring
    · -- two neighbouring sizes are both multiples
      have hfirst : outPerGroup ∣ groups * outPerGroup / divisor + 1 :=
        hall _ (List.mem_append_left _ (List.mem_replicate.mpr ⟨by omega, rfl⟩))
      have hdvd : outPerGroup ∣ 1 := (Int.dvd_add_right hlast).mp hfirst
      exact .inl (Int.eq_one_of_dvd_one hout.le hdvd)
  · rintro (rfl | ⟨share, rfl⟩) size hsize
    · exact one_dvd size
    · have hproduct : divisor * share * outPerGroup = divisor * (share * outPerGroup) := by ring
      rw [hproduct, Int.mul_emod_right, Int.mul_ediv_cancel_left _ (by omega)] at hsize
      simp only [Int.toNat_zero, List.replicate_zero, List.nil_append, List.mem_replicate] at hsize
      rw [hsize.2]
      exact Int.dvd_mul_left share outPerGroup

theorem dvd_of_mem_zip {start size offset : ℤ} (hstart : k ∣ start) (hsizes : ∀ s ∈ sizes, k ∣ s)
    (hmem : (size, offset) ∈ sizes.zip (dividedOffsets start sizes)) : k ∣ offset := by
  induction sizes generalizing start with
  | nil => simp at hmem
  | cons first sizes ih =>
    simp only [dividedOffsets, List.zip_cons_cons, List.mem_cons, Prod.mk.injEq] at hmem
    rcases hmem with ⟨-, rfl⟩ | hmem
    · exact hstart
    · have hfirst : k ∣ first := hsizes first List.mem_cons_self
      exact ih (Int.dvd_add hstart hfirst) (fun s hs => hsizes s (List.mem_cons_of_mem _ hs)) hmem

/-- Every piece starts and ends between groups exactly when the pieces share out the groups. -/
theorem pieces_dvd_iff {divisors shape : Shape} {alignment : List ℤ} {d : ℕ}
    (hgroups : 0 < groups) (hout : 0 < outPerGroup) (hshape : shape.dim d = groups * outPerGroup)
    (halignment : alignment.getD d 1 = 1) {pairs : List (ℤ × ℤ)}
    (h : shapeOffsetPairs divisors shape alignment d = some pairs) :
    ((∀ q ∈ pairs, outPerGroup ∣ q.1) ↔ outPerGroup = 1 ∨ divisors.dim d ∣ groups) ∧
    ((∀ q ∈ pairs, outPerGroup ∣ q.1) → ∀ q ∈ pairs, outPerGroup ∣ q.2) := by
  simp only [shapeOffsetPairs, Option.bind_eq_bind, Option.bind_eq_some_iff, Option.pure_def,
    Option.some.injEq] at h
  obtain ⟨sizes, hsizes, rfl⟩ := h
  rw [hshape, halignment] at hsizes
  have hfst : (sizes.zip (dividedOffsets 0 sizes)).map Prod.fst = sizes :=
    List.map_fst_zip (dividedOffsets_length 0 sizes).ge
  have hall : (∀ q ∈ sizes.zip (dividedOffsets 0 sizes), outPerGroup ∣ q.1) ↔
      ∀ size ∈ sizes, outPerGroup ∣ size := by
    conv_rhs => rw [← hfst]
    simp only [List.forall_mem_map]
  refine ⟨hall.trans (dividedShapes_dvd_iff hgroups hout hsizes), fun hdvd q hq => ?_⟩
  exact dvd_of_mem_zip (Int.dvd_zero outPerGroup) (hall.mp hdvd) hq

end Pieces

/-- The group convolution of `groups` groups, each with its output and input channels. -/
def Sliding.groupConv (sliding : Sliding) (n h w groups outPerGroup inPerGroup : ℤ)
    (hasBias : Bool) : GroupConvolutionOp where
  inputShape := [n, groups * inPerGroup, h, w]
  filterShape := [groups * outPerGroup, inPerGroup, sliding.kernelY, sliding.kernelX]
  biasShape := if hasBias then [1, groups * outPerGroup, 1, 1] else []
  strides := [sliding.strideY, sliding.strideX]
  pads := sliding.pads
  groups := some groups

def GroupConvolutionOp.outputShape (op : GroupConvolutionOp) : Shape :=
  [op.inputShape.dim Act.N, op.filterShape.dim Filter.OC, op.sliding.outHeight op.inputShape,
    op.sliding.outWidth op.inputShape]

section Tile

variable {sliding : Sliding} {n h w groups outPerGroup inPerGroup : ℤ} {hasBias : Bool}
variable {sn sc sh sw on oc oh ow dn dc dh dw : ℤ}

theorem tiled_groups (hgroups : 0 < groups) (hout : 0 < outPerGroup) (start : ℤ) {numGroups : ℤ}
    (hnum : 0 ≤ numGroups) :
    (outPerGroup * start).tdiv ((groups * outPerGroup).tdiv groups) = start ∧
      divUp (outPerGroup * numGroups) ((groups * outPerGroup).tdiv groups) = numGroups := by
  have hper : (groups * outPerGroup).tdiv groups = outPerGroup :=
    Int.mul_tdiv_cancel_left _ hgroups.ne'
  have hnonneg : 0 ≤ outPerGroup * numGroups := mul_nonneg hout.le hnum
  rw [hper, Int.mul_tdiv_cancel_left _ hout.ne', divUp, Int.tdiv_eq_ediv_of_nonneg (by omega),
    add_sub_assoc, Int.add_ediv_of_dvd_left (Dvd.intro _ rfl), Int.mul_ediv_cancel_left _ hout.ne',
    Int.ediv_eq_zero_of_lt (by omega) (by omega), add_zero]
  exact ⟨rfl, rfl⟩

variable {pads : PadInfo}

theorem backInferTileInfo_eq {start numGroups : ℤ}
    (hstart : oc.tdiv ((groups * outPerGroup).tdiv groups) = start)
    (hnum : divUp sc ((groups * outPerGroup).tdiv groups) = numGroups) {height width : DimRange}
    (hsolution : inputForOutputTile ⟨⟨ow, ow + sw⟩, ⟨oh, oh + sh⟩⟩ sliding.kernelX sliding.kernelY
      sliding.strideX sliding.strideY [n, groups * inPerGroup, h, w] sliding.pads =
        .ok (⟨width, height⟩, pads)) (hheight : height.length ≤ h) (hwidth : width.length ≤ w) :
    (sliding.groupConv n h w groups outPerGroup inPerGroup hasBias).backInferTileInfo
        ⟨[sn, sc, sh, sw], [on, oc, oh, ow], [dn, dc, dh, dw], true⟩ =
      .ok ⟨⟨[sn, numGroups * inPerGroup, if dh = 1 then h else height.length,
          if dw = 1 then w else width.length],
        [on, start * inPerGroup, height.begin, width.begin], [1, 1, 1, 1], false⟩ ::
        paramTiles ⟨[sn, sc, sh, sw], [on, oc, oh, ow], [dn, dc, dh, dw], true⟩
          [groups * outPerGroup, inPerGroup, sliding.kernelY, sliding.kernelX]
          (if hasBias then [1, groups * outPerGroup, 1, 1] else []), some pads⟩ := by
  subst hstart hnum
  exact bind_of_ok (backInferConvTile_eq hsolution hheight hwidth) rfl

theorem adjustAttrs_eq {numGroups start th tw uh uw : ℤ} {axis : Shape} {completed : Bool}
    (hin : 0 < inPerGroup) {info : TilingInfo}
    (hinfo : info = ⟨⟨[sn, numGroups * inPerGroup, th, tw], [on, start, uh, uw], axis, completed⟩ ::
      paramTiles ⟨[sn, sc, sh, sw], [on, oc, oh, ow], [dn, dc, dh, dw], true⟩
        [groups * outPerGroup, inPerGroup, sliding.kernelY, sliding.kernelX]
        (if hasBias then [1, groups * outPerGroup, 1, 1] else []), some pads⟩) :
    ((sliding.groupConv n h w groups outPerGroup inPerGroup hasBias).sliceOperands
        info.tiles).adjustAttrs info =
      .ok ⟨[sn, numGroups * inPerGroup, th, tw],
        [sc, inPerGroup, sliding.kernelY, sliding.kernelX],
        if hasBias then [1, sc, 1, 1] else [], [sliding.strideY, sliding.strideX], pads,
        some numGroups⟩ := by
  have hnum : some numGroups = some ((numGroups * inPerGroup).tdiv inPerGroup) :=
    congrArg some (Int.mul_tdiv_cancel _ hin.ne').symm
  rw [hnum]
  subst hinfo
  cases hasBias <;> rfl

theorem firstChannel_tiled (hout : 0 < outPerGroup) {start numGroups c : ℤ} (hc : 0 ≤ c)
    (hc' : c < outPerGroup * numGroups) :
    start * inPerGroup + c / (outPerGroup * numGroups / numGroups) * inPerGroup =
      (outPerGroup * start + c) / outPerGroup * inPerGroup := by
  have hnum : 0 < numGroups := pos_of_mul_pos_right (by omega) hout.le
  rw [Int.mul_ediv_cancel _ hnum.ne', Int.add_ediv_of_dvd_left (Dvd.intro _ rfl),
    Int.mul_ediv_cancel_left _ hout.ne']
  ring

theorem evalOn_tiled {α : Type} [Semiring α] (operands : GroupConvOperands α)
    {start numGroups th tw uh uw c y x : ℤ} {axis : Shape} {completed : Bool}
    (hchannel : start * inPerGroup + c / (sc / numGroups) * inPerGroup =
      (oc + c) / (groups * outPerGroup / groups) * inPerGroup)
    (hwindow : (PaddedPlane.mk ⟨uh, th, pads.top, pads.bottom⟩
        ⟨uw, tw, pads.left, pads.right⟩).window sliding.kernelY sliding.kernelX sliding.strideY
        sliding.strideX y x =
      (sliding.whole [n, groups * inPerGroup, h, w]).window sliding.kernelY sliding.kernelX
        sliding.strideY sliding.strideX (oh + y) (ow + x)) (m : ℤ) :
    (GroupConvolutionOp.mk [sn, numGroups * inPerGroup, th, tw]
        [sc, inPerGroup, sliding.kernelY, sliding.kernelX]
        (if hasBias then [1, sc, 1, 1] else []) [sliding.strideY, sliding.strideX] pads
        (some numGroups)).evalOn
      (⟨[sn, numGroups * inPerGroup, th, tw], [on, start * inPerGroup, uh, uw], axis, completed⟩ ::
        paramTiles ⟨[sn, sc, sh, sw], [on, oc, oh, ow], [dn, dc, dh, dw], true⟩
          [groups * outPerGroup, inPerGroup, sliding.kernelY, sliding.kernelX]
          (if hasBias then [1, groups * outPerGroup, 1, 1] else [])) operands m c y x =
      (sliding.groupConv n h w groups outPerGroup inPerGroup hasBias).eval operands (on + m)
        (oc + c) (oh + y) (ow + x) := by
  have hplanes : (fun ic => operands.input (on + m)
        (start * inPerGroup + (c / (sc / numGroups) * inPerGroup + ic))) =
      fun ic => operands.input (0 + (on + m))
        (0 + ((oc + c) / (groups * outPerGroup / groups) * inPerGroup + ic)) := by
    funext ic
    rw [← add_assoc, hchannel, zero_add, zero_add]
  have hsum : groupWindowSum inPerGroup
        ((PaddedPlane.mk ⟨uh, th, pads.top, pads.bottom⟩ ⟨uw, tw, pads.left, pads.right⟩).window
          sliding.kernelY sliding.kernelX sliding.strideY sliding.strideX y x)
        (fun ic => operands.input (on + m)
          (start * inPerGroup + (c / (sc / numGroups) * inPerGroup + ic)))
        (operands.filter (oc + c)) =
      groupWindowSum inPerGroup
        ((sliding.whole [n, groups * inPerGroup, h, w]).window sliding.kernelY sliding.kernelX
          sliding.strideY sliding.strideX (oh + y) (ow + x))
        (fun ic => operands.input (0 + (on + m))
          (0 + ((oc + c) / (groups * outPerGroup / groups) * inPerGroup + ic)))
        (operands.filter (0 + (oc + c))) := by
    rw [hwindow, hplanes, zero_add (oc + c)]
  cases hasBias with
  | false => exact congrArg (· + 0) hsum
  | true =>
    have hbias : operands.bias (oc + c) = operands.bias (0 + (oc + c)) := by rw [zero_add]
    exact congrArg₂ (· + ·) hsum hbias

/-- A tile that starts and ends between groups is computed. -/
theorem tilesTo_of_dvd (hop : sliding.Valid) (hh : 0 < h) (hw : 0 < w) (hgroups : 0 < groups)
    (hout : 0 < outPerGroup) (hin : 0 < inPerGroup) (hN : 0 ≤ on ∧ 0 ≤ sn ∧ on + sn ≤ n)
    (hC : 0 ≤ oc ∧ 0 ≤ sc ∧ oc + sc ≤ groups * outPerGroup)
    (houtH : PlanarPiece oh sh dh (sliding.outHeight [n, groups * inPerGroup, h, w]))
    (houtW : PlanarPiece ow sw dw (sliding.outWidth [n, groups * inPerGroup, h, w]))
    (hoc : outPerGroup ∣ oc) (hsc : outPerGroup ∣ sc) :
    (sliding.groupConv n h w groups outPerGroup inPerGroup hasBias).TilesTo
      ⟨[sn, sc, sh, sw], [on, oc, oh, ow], [dn, dc, dh, dw], true⟩ := by
  obtain ⟨height, width, pads, hsolution, hpads, hplanarH, hplanarW, hH, hW⟩ :=
    inputForOutputTile_reproduces hop hh hw houtH houtW
  obtain ⟨start, rfl⟩ := hoc
  obtain ⟨numGroups, rfl⟩ := hsc
  have hstart : 0 ≤ start := nonneg_of_mul_nonneg_right hC.1 hout
  have hnum : 0 ≤ numGroups := nonneg_of_mul_nonneg_right hC.2.1 hout
  have hend : start + numGroups ≤ groups := by
    refine le_of_mul_le_mul_left ?_ hout
    rw [mul_add, mul_comm outPerGroup groups]
    exact hC.2.2
  have hper : groups * outPerGroup / groups = outPerGroup :=
    Int.mul_ediv_cancel_left _ hgroups.ne'
  obtain ⟨hfirst, hcount⟩ := tiled_groups hgroups hout start hnum
  refine ⟨_, _, backInferTileInfo_eq hfirst hcount hsolution hplanarH.length_le
    hplanarW.length_le, adjustAttrs_eq hin rfl, ?_⟩
  constructor
  · intro inputTile htile c hc hc'
    obtain rfl := Option.some.inj htile
    have hgroup : start ≤ c / outPerGroup ∧ c / outPerGroup < start + numGroups := by
      refine ⟨(Int.le_ediv_iff_mul_le hout).mpr ?_, (Int.ediv_lt_iff_lt_mul hout).mpr ?_⟩
      · rw [mul_comm]
        exact hc
      · rw [mul_comm, mul_add]
        exact hc'
    have hfirst : start * inPerGroup ≤ c / outPerGroup * inPerGroup :=
      mul_le_mul_of_nonneg_right hgroup.1 hin.le
    have hlast : (c / outPerGroup + 1) * inPerGroup ≤ (start + numGroups) * inPerGroup :=
      mul_le_mul_of_nonneg_right hgroup.2 hin.le
    change start * inPerGroup ≤ c / (groups * outPerGroup / groups) * inPerGroup ∧
      c / (groups * outPerGroup / groups) * inPerGroup + inPerGroup ≤
        start * inPerGroup + numGroups * inPerGroup
    rw [hper]
    exact ⟨hfirst, by linarith⟩
  · intro inputTile htile
    obtain rfl := Option.some.inj htile
    have hchannels : start * inPerGroup + numGroups * inPerGroup ≤ groups * inPerGroup := by
      rw [← add_mul]
      exact mul_le_mul_of_nonneg_right hend hin.le
    refine ⟨⟨rfl, rfl⟩, fun d hd => ?_⟩
    match d, hd with
    | 0, _ => exact hN
    | 1, _ => exact ⟨mul_nonneg hstart hin.le, mul_nonneg hnum hin.le, hchannels⟩
    | 2, _ => exact ⟨hplanarH.begin_nonneg, hplanarH.size_nonneg, hplanarH.stop_le⟩
    | 3, _ => exact ⟨hplanarW.begin_nonneg, hplanarW.size_nonneg, hplanarW.stop_le⟩
  · change numGroups * (groups * outPerGroup / groups) = outPerGroup * numGroups
    rw [hper, mul_comm]
  · intro α _ operands m c y x hc hc' hy hy' hx hx'
    refine evalOn_tiled operands ?_ (PaddedPlane.window_eq hH hW hy hy' hx hx') m
    rw [hper]
    exact firstChannel_tiled hout hc hc'

end Tile

theorem plane_pos_of_tilesTo {op : GroupConvolutionOp} {tile : TileInfo} (h : op.TilesTo tile) :
    0 < tile.plane.height.length ∧ 0 < tile.plane.width.length := by
  obtain ⟨info, -, hinfo, -⟩ := h
  obtain ⟨_, hconv, -⟩ := of_bind_eq_ok hinfo
  obtain ⟨_, hplane, -⟩ := of_bind_eq_ok hconv
  exact length_pos_of_inputForOutputTile hplane

/-- All tiles of a group convolution compute what the operation computes exactly when no planar
dimension has more tiles than outputs and no group is cut: a group has one output channel, or the
channel tiles share out the groups evenly. -/
theorem backInferGroupConvTile_computes_iff (sliding : Sliding) (hop : sliding.Valid)
    (n h w : ℤ) (hin : 0 ≤ n ∧ 0 < h ∧ 0 < w) (groups outPerGroup inPerGroup : ℤ)
    (hgroups : 0 < groups ∧ 0 < outPerGroup ∧ 0 < inPerGroup)
    (hout : 0 < sliding.outHeight [n, groups * inPerGroup, h, w] ∧
      0 < sliding.outWidth [n, groups * inPerGroup, h, w])
    (hasBias : Bool) (divisors : Shape) (hdivisors : divisors.length = 4) (tiles : List TileInfo)
    (htiles : fillDividedTiles divisors
      (sliding.groupConv n h w groups outPerGroup inPerGroup hasBias).outputShape none =
        some tiles) :
    (∀ tile ∈ tiles,
        (sliding.groupConv n h w groups outPerGroup inPerGroup hasBias).TilesTo tile) ↔
      FitsPlane divisors
          (sliding.groupConv n h w groups outPerGroup inPerGroup hasBias).outputShape none ∧
        (outPerGroup = 1 ∨ divisors.dim Act.C ∣ groups) := by
  obtain ⟨hn, hh, hw⟩ := hin
  obtain ⟨hgroups, houtPer, hinPer⟩ := hgroups
  obtain ⟨hrows, hcolumns⟩ := hout
  have hchannels : 0 ≤ groups * outPerGroup := mul_nonneg hgroups.le houtPer.le
  match divisors, hdivisors with
  | [dn, dc, dh, dw], _ =>
    have hshape : ∀ j, 0 ≤ Shape.dim
        (sliding.groupConv n h w groups outPerGroup inPerGroup hasBias).outputShape j :=
      dim_nonneg_of_four hn hchannels hrows.le hcolumns.le
    obtain ⟨pieces, hpieces, hmem⟩ := mem_tiles_of_four hshape htiles
    obtain ⟨hdvd, hoffsets⟩ :=
      pieces_dvd_iff hgroups houtPer (by rfl) (by rfl) (hpieces Act.C (by decide))
    rw [← forall_plane_pos_iff hshape hrows hcolumns htiles, ← hdvd]
    constructor
    · intro hall
      refine ⟨fun tile htile => plane_pos_of_tilesTo (hall tile htile), fun qc hqc => ?_⟩
      have hne : ∀ j < 4, ∃ q, q ∈ pieces j := fun j hj =>
        List.exists_mem_of_ne_nil _ (shapeOffsetPairs_ne_nil (hshape j) (hpieces j hj))
      obtain ⟨qn, hqn⟩ := hne 0 (by omega)
      obtain ⟨qh, hqh⟩ := hne 2 (by omega)
      obtain ⟨qw, hqw⟩ := hne 3 (by omega)
      obtain ⟨info, tiledOp, -, -, hcomputes⟩ :=
        hall _ ((hmem _).mpr ⟨qn, hqn, qc, hqc, qh, hqh, qw, hqw, rfl⟩)
      have hsize : tiledOp.groups.getD 1 * (groups * outPerGroup / groups) = qc.1 :=
        hcomputes.groups
      rw [Int.mul_ediv_cancel_left _ hgroups.ne'] at hsize
      exact ⟨_, hsize.symm.trans (mul_comm _ _)⟩
    · rintro ⟨hplane, hsizes⟩ tile htile
      obtain ⟨hposH, hposW⟩ := hplane tile htile
      obtain ⟨qn, hqn, qc, hqc, qh, hqh, qw, hqw, rfl⟩ := (hmem tile).mp htile
      obtain ⟨hn₁, hn₂, hn₃, -⟩ := piece_bounds (hshape 0) (hpieces 0 (by omega)) hqn
      obtain ⟨hc₁, hc₂, hc₃, -⟩ := piece_bounds (hshape 1) (hpieces 1 (by omega)) hqc
      obtain ⟨hh₁, -, hh₃, hh₄⟩ := piece_bounds (hshape 2) (hpieces 2 (by omega)) hqh
      obtain ⟨hw₁, -, hw₃, hw₄⟩ := piece_bounds (hshape 3) (hpieces 3 (by omega)) hqw
      refine tilesTo_of_dvd hop hh hw hgroups houtPer hinPer ⟨hn₁, hn₂, hn₃⟩ ⟨hc₁, hc₂, hc₃⟩
        ⟨hh₁, ?_, hh₃, hh₄⟩ ⟨hw₁, ?_, hw₃, hw₄⟩ (hoffsets hsizes qc hqc) (hsizes qc hqc)
      · simpa [TileInfo.plane, DimRange.length, Shape.dim, Act.H] using hposH
      · simpa [TileInfo.plane, DimRange.length, Shape.dim, Act.W] using hposW

/-- Six groups of three output and two input channels, cut into three tiles. -/
theorem backInferGroupConvTile_computes_iff_thirds :
    (∀ tile ∈ [(⟨[1, 6, 1, 1], [0, 0, 0, 0], [1, 3, 1, 1], true⟩ : TileInfo),
        ⟨[1, 6, 1, 1], [0, 6, 0, 0], [1, 3, 1, 1], true⟩,
        ⟨[1, 6, 1, 1], [0, 12, 0, 0], [1, 3, 1, 1], true⟩],
      ((Sliding.mk 1 1 1 1 ⟨0, 0, 0, 0⟩).groupConv 1 1 1 6 3 2 false).TilesTo tile) ↔
      FitsPlane [1, 3, 1, 1]
        ((Sliding.mk 1 1 1 1 ⟨0, 0, 0, 0⟩).groupConv 1 1 1 6 3 2 false).outputShape none ∧
        ((3 : ℤ) = 1 ∨ (3 : ℤ) ∣ 6) :=
  backInferGroupConvTile_computes_iff ⟨1, 1, 1, 1, ⟨0, 0, 0, 0⟩⟩
    ⟨by decide, by decide, by decide, by decide, by decide, by decide, by decide, by decide⟩
    1 1 1 (by decide) 6 3 2 (by decide) (by decide) false [1, 3, 1, 1] rfl _ (by decide)

/-- Three groups of two output channels, cut into two tiles of three channels: the tiled operation
has two groups for three channels. -/
theorem backInferGroupConvTile_cutGroup :
    let op := (Sliding.mk 1 1 1 1 ⟨0, 0, 0, 0⟩).groupConv 1 1 1 3 2 1 false
    (Sliding.mk 1 1 1 1 ⟨0, 0, 0, 0⟩).Valid ∧
    ∃ tiles, fillDividedTiles [1, 2, 1, 1] op.outputShape none = some tiles ∧
      ∃ tile ∈ tiles, (∃ info tiledOp, op.backInferTileInfo tile = .ok info ∧
        (op.sliceOperands info.tiles).adjustAttrs info = .ok tiledOp ∧
        tiledOp.groups = some 2 ∧ tiledOp.filterShape.dim Filter.OC = 3) ∧ ¬op.TilesTo tile := by
  refine ⟨⟨by decide, by decide, by decide, by decide, by decide, by decide, by decide,
    by decide⟩, [⟨[1, 3, 1, 1], [0, 0, 0, 0], [1, 2, 1, 1], true⟩,
      ⟨[1, 3, 1, 1], [0, 3, 0, 0], [1, 2, 1, 1], true⟩], by decide,
    ⟨[1, 3, 1, 1], [0, 0, 0, 0], [1, 2, 1, 1], true⟩, by simp, ⟨_, _, rfl, rfl, rfl, rfl⟩, ?_⟩
  rintro ⟨info, tiledOp, -, -, hcomputes⟩
  have hgroups : tiledOp.groups.getD 1 * 2 = 3 := hcomputes.groups
  omega

end Vpux.Tiling
