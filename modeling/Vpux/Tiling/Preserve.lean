import Vpux.Tiling.BackInfer

/-! Tiling a convolution or a pooling preserves its meaning: every tile reads what the
operation without tiling reads. -/
namespace Vpux.Tiling
open Data Dims4D

/-- A kernel that slides over the two planar dimensions. -/
structure Sliding where
  kernelY : ℤ
  kernelX : ℤ
  strideY : ℤ
  strideX : ℤ
  pads : PadInfo
  deriving DecidableEq, Repr

structure Sliding.Valid (op : Sliding) : Prop where
  kernelY : 1 ≤ op.kernelY
  kernelX : 1 ≤ op.kernelX
  strideY : 1 ≤ op.strideY
  strideX : 1 ≤ op.strideX
  top : 0 ≤ op.pads.top ∧ op.pads.top < op.kernelY
  bottom : 0 ≤ op.pads.bottom ∧ op.pads.bottom < op.kernelY
  left : 0 ≤ op.pads.left ∧ op.pads.left < op.kernelX
  right : 0 ≤ op.pads.right ∧ op.pads.right < op.kernelX

/-- The planar dimensions of a tile, padded. -/
def TileInfo.padded (tile : TileInfo) (pads : PadInfo) : PaddedPlane where
  height := ⟨tile.offsets.dim Act.H, tile.shape.dim Act.H, pads.top, pads.bottom⟩
  width := ⟨tile.offsets.dim Act.W, tile.shape.dim Act.W, pads.left, pads.right⟩

/-- The padded input of the operation without tiling. -/
def Sliding.whole (op : Sliding) (inShape : Shape) : PaddedPlane :=
  (TileInfo.ofShape inShape).padded op.pads

def Sliding.outHeight (op : Sliding) (inShape : Shape) : ℤ :=
  (op.whole inShape).height.outputs op.kernelY op.strideY

def Sliding.outWidth (op : Sliding) (inShape : Shape) : ℤ :=
  (op.whole inShape).width.outputs op.kernelX op.strideX

structure TileInfo.Inside (tile : TileInfo) (shape : Shape) : Prop where
  rank : tile.shape.length = shape.length ∧ tile.offsets.length = shape.length
  bounds : ∀ d < shape.length, 0 ≤ tile.offsets.dim d ∧ 0 ≤ tile.shape.dim d ∧
    tile.offsets.dim d + tile.shape.dim d ≤ shape.dim d

/-- The back-inferred input tile lies inside the input, the operation on it gives an output of
the tile's size, and every output reads what the output at its place reads without tiling. -/
def Sliding.ComputesTile (op : Sliding) (inShape : Shape) (outputTile : TileInfo)
    (result : Except TilingError TilingInfo) : Prop :=
  ∃ info inputTile inputPad, result = .ok info ∧ info.tiles.head? = some inputTile ∧
    info.pads = some inputPad ∧ inputTile.Inside inShape ∧
    spatialOutputForInputWindowSize (inputTile.shape.dim Act.H, inputTile.shape.dim Act.W)
        (some [op.kernelY, op.kernelX]) (some [op.strideY, op.strideX]) inputPad =
      .ok (outputTile.shape.dim Act.H, outputTile.shape.dim Act.W) ∧
    ∀ y x, 0 ≤ y → y < outputTile.shape.dim Act.H → 0 ≤ x → x < outputTile.shape.dim Act.W →
      let window := (op.whole inShape).window op.kernelY op.kernelX op.strideY op.strideX
        (outputTile.offsets.dim Act.H + y) (outputTile.offsets.dim Act.W + x)
      none ∉ window ∧
        (inputTile.padded inputPad).window op.kernelY op.kernelX op.strideY op.strideX y x = window

section Dim

variable {kernel stride size padBefore padAfter first count : ℤ}

theorem reproduces_clipped (hstride : 0 < stride) (hfirst : 0 ≤ first)
    (hstop : first + count ≤ (PaddedRange.mk 0 size padBefore padAfter).outputs kernel stride) :
    (PaddedRange.mk (max 0 (first * stride - padBefore))
        (min size ((first + count - 1) * stride + kernel - padBefore) -
          max 0 (first * stride - padBefore))
        (max 0 (padBefore - first * stride))
        (max 0 ((first + count - 1) * stride + kernel - padBefore - size))).Reproduces
      ⟨0, size, padBefore, padAfter⟩ kernel stride first count := by
  have hspan : (first + count - 1) * stride = first * stride + (count - 1) * stride := by ring
  have hnext : count * stride = (count - 1) * stride + stride := by ring
  apply PaddedRange.Reproduces.of_start hstride hfirst hstop
  · simp only
    omega
  · simp only [PaddedRange.extent]
    omega
  · rw [PaddedRange.outputs_eq_iff hstride]
    simp only [PaddedRange.extent]
    omega

theorem reproduces_restored (hstride : 0 < stride) (hafter : 0 ≤ padAfter)
    (hcount : (PaddedRange.mk 0 size padBefore padAfter).outputs kernel stride = count) :
    (PaddedRange.mk 0 size padBefore
        (max 0 ((count - 1) * stride + kernel - padBefore - size))).Reproduces
      ⟨0, size, padBefore, padAfter⟩ kernel stride 0 count := by
  have hlast := (PaddedRange.outputs_eq_iff hstride).mp hcount
  simp only [PaddedRange.extent] at hlast
  apply PaddedRange.Reproduces.of_start hstride le_rfl (by rw [hcount, zero_add])
  · simp
  · simp
  · rw [PaddedRange.outputs_eq_iff hstride]
    simp only [PaddedRange.extent]
    omega

/-- What back-inference gives in one planar dimension: `axis` is the dimension's divisor, and
the restored length is the whole input where that is one. -/
theorem inputForOutputDim_reproduces {axis : ℤ} (hkernel : 0 < kernel) (hstride : 0 < stride)
    (hsize : 0 < size) (hbefore : 0 ≤ padBefore ∧ padBefore < kernel)
    (hafter : 0 ≤ padAfter ∧ padAfter < kernel) (hfirst : 0 ≤ first) (hcount : 0 < count)
    (hstop : first + count ≤ (PaddedRange.mk 0 size padBefore padAfter).outputs kernel stride)
    (haxis : axis = 1 → first = 0 ∧
      count = (PaddedRange.mk 0 size padBefore padAfter).outputs kernel stride) :
    ∃ range before after,
      inputForOutputDim ⟨first, first + count⟩ kernel stride ⟨0, size⟩ padBefore padAfter =
        .ok (range, before, after) ∧
      0 ≤ before ∧ 0 ≤ after ∧ 0 ≤ range.begin ∧
      0 ≤ (if axis = 1 then size else range.length) ∧ range.length ≤ size ∧
      range.begin + (if axis = 1 then size else range.length) ≤ size ∧
      (PaddedRange.mk range.begin (if axis = 1 then size else range.length) before
        after).Reproduces ⟨0, size, padBefore, padAfter⟩ kernel stride first count := by
  have hlast := (PaddedRange.le_outputs_iff hstride).mp hstop
  have hspan : (first + count - 1) * stride = first * stride + (count - 1) * stride := by ring
  have hnonneg : 0 ≤ first * stride := mul_nonneg hfirst hstride.le
  have hnonneg' : 0 ≤ (count - 1) * stride := mul_nonneg (by omega) hstride.le
  simp only [PaddedRange.extent] at hlast
  refine ⟨_, _, _, inputForOutputDim_eq hkernel hstride hsize hbefore.1 hbefore.2 hafter.1
    hafter.2 hfirst (by simpa [DimRange.length] using hcount) hstop, by omega, by omega,
    by simp, ?_, ?_, ?_, ?_⟩
  · simp only [DimRange.length]
    split_ifs <;> omega
  · simp only [DimRange.length]
    omega
  · split_ifs with hone
    · obtain ⟨rfl, -⟩ := haxis hone
      simp only [zero_mul]
      omega
    · simp only [DimRange.length]
      omega
  · split_ifs with hone
    · obtain ⟨rfl, hall⟩ := haxis hone
      simpa [max_eq_left (neg_nonpos.mpr hbefore.1), max_eq_right hbefore.1] using
        reproduces_restored hstride hafter.1 hall.symm
    · exact reproduces_clipped hstride hfirst hstop

end Dim

variable {pads : PadInfo}

/-- The code's output size is the number of places the kernel takes. -/
theorem spatialOutputForInputWindowSize_eq {op : Sliding} (hop : op.Valid) (plane : PaddedPlane)
    (hheight : plane.height.before = pads.top ∧ plane.height.after = pads.bottom)
    (hwidth : plane.width.before = pads.left ∧ plane.width.after = pads.right)
    (hpads : 0 ≤ pads.top ∧ 0 ≤ pads.bottom ∧ 0 ≤ pads.left ∧ 0 ≤ pads.right)
    (hrows : 0 < plane.height.outputs op.kernelY op.strideY)
    (hcolumns : 0 < plane.width.outputs op.kernelX op.strideX) :
    spatialOutputForInputWindowSize (plane.height.size, plane.width.size)
        (some [op.kernelY, op.kernelX]) (some [op.strideY, op.strideX]) pads =
      .ok (plane.height.outputs op.kernelY op.strideY,
        plane.width.outputs op.kernelX op.strideX) := by
  have houtputs : ∀ (r : PaddedRange) (kernel stride : ℤ), 0 < stride →
      0 < r.outputs kernel stride →
      (r.size - kernel + r.before + r.after).tdiv stride + 1 = r.outputs kernel stride := by
    intro r kernel stride hstride hpos
    have hfit := (PaddedRange.le_outputs_iff hstride).mp
        (show 1 ≤ r.outputs kernel stride from hpos)
    have hextent : r.size - kernel + r.before + r.after = r.extent - kernel := by
      rw [PaddedRange.extent]
      ring
    rw [hextent, Int.tdiv_eq_ediv_of_nonneg (by omega), PaddedRange.outputs]
  have hY := houtputs plane.height op.kernelY op.strideY hop.strideY hrows
  have hX := houtputs plane.width op.kernelX op.strideX hop.strideX hcolumns
  rw [hheight.1, hheight.2] at hY
  rw [hwidth.1, hwidth.2] at hX
  have hout : (plane.height.size - op.kernelY + pads.top + pads.bottom).tdiv op.strideY + 1 > 0 ∧
      (plane.width.size - op.kernelX + pads.left + pads.right).tdiv op.strideX + 1 > 0 :=
    ⟨hY ▸ hrows, hX ▸ hcolumns⟩
  rw [← hY, ← hX]
  have hok : ∀ {α β : Type} (a : α) (f : α → Except TilingError β), Except.ok a >>= f = f a :=
    fun _ _ => rfl
  simp only [spatialOutputForInputWindowSize, Option.elim, hok]
  have hpair : ∀ a b : ℤ, [a, b].length = 2 := fun _ _ => rfl
  rw [throwUnless_bind (hpair _ _), throwUnless_bind (hpair _ _), throwUnless_bind hpads]
  exact throwUnless_bind hout _ _

section Tile

variable {op : Sliding} {n c h w : ℤ} {sn sc sh sw on oc oh ow dn dc dh dw : ℤ}

/-- A planar dimension of an output tile: `axis` is its divisor and `outputs` its whole size. -/
structure PlanarPiece (offset size axis outputs : ℤ) : Prop where
  offset_nonneg : 0 ≤ offset
  size_pos : 0 < size
  stop_le : offset + size ≤ outputs
  whole : axis = 1 → offset = 0 ∧ size = outputs

/-- A planar range of an input tile, inside the input also where it is restored. -/
structure PlanarInput (range : DimRange) (size axis : ℤ) : Prop where
  begin_nonneg : 0 ≤ range.begin
  size_nonneg : 0 ≤ if axis = 1 then size else range.length
  length_le : range.length ≤ size
  stop_le : range.begin + (if axis = 1 then size else range.length) ≤ size

theorem computesTile_of_planar (hop : op.Valid) {info : TilingInfo} {rest : List TileInfo}
    {tn tc th tw un uc uh uw : ℤ} {axis : Shape} {completed : Bool}
    (hinfo : info = ⟨⟨[tn, tc, th, tw], [un, uc, uh, uw], axis, completed⟩ :: rest, some pads⟩)
    (hN : 0 ≤ un ∧ 0 ≤ tn ∧ un + tn ≤ n) (hC : 0 ≤ uc ∧ 0 ≤ tc ∧ uc + tc ≤ c)
    (hH : 0 ≤ uh ∧ 0 ≤ th ∧ uh + th ≤ h) (hW : 0 ≤ uw ∧ 0 ≤ tw ∧ uw + tw ≤ w)
    (hpads : 0 ≤ pads.top ∧ 0 ≤ pads.bottom ∧ 0 ≤ pads.left ∧ 0 ≤ pads.right)
    (houtH : PlanarPiece oh sh dh (op.outHeight [n, c, h, w]))
    (houtW : PlanarPiece ow sw dw (op.outWidth [n, c, h, w]))
    (hheight : (PaddedRange.mk uh th pads.top pads.bottom).Reproduces
      (op.whole [n, c, h, w]).height op.kernelY op.strideY oh sh)
    (hwidth : (PaddedRange.mk uw tw pads.left pads.right).Reproduces
      (op.whole [n, c, h, w]).width op.kernelX op.strideX ow sw) :
    op.ComputesTile [n, c, h, w] ⟨[sn, sc, sh, sw], [on, oc, oh, ow], [dn, dc, dh, dw], true⟩
      (.ok info) := by
  refine ⟨info, _, pads, rfl, by rw [hinfo]; rfl, by rw [hinfo], ⟨⟨rfl, rfl⟩, ?_⟩, ?_, ?_⟩
  · intro d hd
    match d, hd with
    | 0, _ => exact hN
    | 1, _ => exact hC
    | 2, _ => exact hH
    | 3, _ => exact hW
  · have hout := spatialOutputForInputWindowSize_eq hop
      ⟨⟨uh, th, pads.top, pads.bottom⟩, ⟨uw, tw, pads.left, pads.right⟩⟩ ⟨rfl, rfl⟩ ⟨rfl, rfl⟩
      hpads (hheight.outputs ▸ houtH.size_pos) (hwidth.outputs ▸ houtW.size_pos)
    rw [hheight.outputs, hwidth.outputs] at hout
    exact hout
  · intro y x hy hy' hx hx'
    have hrow : oh + y < op.outHeight [n, c, h, w] :=
      lt_of_lt_of_le (add_lt_add_right hy' oh) houtH.stop_le
    have hcolumn : ow + x < op.outWidth [n, c, h, w] :=
      lt_of_lt_of_le (add_lt_add_right hx' ow) houtW.stop_le
    exact ⟨PaddedPlane.none_notMem_window hop.strideY hop.strideX
      (add_nonneg houtH.offset_nonneg hy) hrow (add_nonneg houtW.offset_nonneg hx) hcolumn,
      PaddedPlane.window_eq hheight hwidth hy hy' hx hx'⟩

theorem inputForOutputTile_reproduces (hop : op.Valid) (hh : 0 < h) (hw : 0 < w)
    (houtH : PlanarPiece oh sh dh (op.outHeight [n, c, h, w]))
    (houtW : PlanarPiece ow sw dw (op.outWidth [n, c, h, w])) :
    ∃ height width pads,
      inputForOutputTile ⟨⟨ow, ow + sw⟩, ⟨oh, oh + sh⟩⟩ op.kernelX op.kernelY op.strideX op.strideY
        [n, c, h, w] op.pads = .ok (⟨width, height⟩, pads) ∧
      (0 ≤ pads.top ∧ 0 ≤ pads.bottom ∧ 0 ≤ pads.left ∧ 0 ≤ pads.right) ∧
      PlanarInput height h dh ∧ PlanarInput width w dw ∧
      (PaddedRange.mk height.begin (if dh = 1 then h else height.length) pads.top
        pads.bottom).Reproduces (op.whole [n, c, h, w]).height op.kernelY op.strideY oh sh ∧
      (PaddedRange.mk width.begin (if dw = 1 then w else width.length) pads.left
        pads.right).Reproduces (op.whole [n, c, h, w]).width op.kernelX op.strideX ow sw := by
  obtain ⟨height, top, bottom, hheight, htop, hbottom, hH₁, hH₂, hH₃, hH₄, hH⟩ :=
    inputForOutputDim_reproduces hop.kernelY hop.strideY hh hop.top hop.bottom
      houtH.offset_nonneg houtH.size_pos houtH.stop_le houtH.whole
  obtain ⟨width, left, right, hwidth, hleft, hright, hW₁, hW₂, hW₃, hW₄, hW⟩ :=
    inputForOutputDim_reproduces hop.kernelX hop.strideX hw hop.left hop.right
      houtW.offset_nonneg houtW.size_pos houtW.stop_le houtW.whole
  have hmake : ∀ size : ℤ, 0 < size → DimRange.make 0 size = .ok ⟨0, size⟩ := by
    intro size hsize
    exact throwUnless_bind hsize.le _ _
  refine ⟨height, width, ⟨left, right, top, bottom⟩, ?_, ⟨htop, hbottom, hleft, hright⟩,
    ⟨hH₁, hH₂, hH₃, hH₄⟩, ⟨hW₁, hW₂, hW₃, hW₄⟩, hH, hW⟩
  have hdimH : Shape.dim [n, c, h, w] Act.H = h := rfl
  have hdimW : Shape.dim [n, c, h, w] Act.W = w := rfl
  rw [inputForOutputTile, hdimH, hdimW, hmake h hh, hmake w hw]
  change inputForOutputDim ⟨oh, oh + sh⟩ op.kernelY op.strideY ⟨0, h⟩ op.pads.top op.pads.bottom >>=
    _ = _
  rw [hheight]
  change inputForOutputDim ⟨ow, ow + sw⟩ op.kernelX op.strideX ⟨0, w⟩ op.pads.left op.pads.right >>=
    _ = _
  rw [hwidth]
  rfl

theorem bind_of_ok {α β : Type} {x : Except TilingError α} {f : α → Except TilingError β} {a : α}
    {y : Except TilingError β} (hx : x = .ok a) (hf : f a = y) : x >>= f = y := by
  rw [hx]
  exact hf

theorem restoreIfUntiled_eq {outputTile inputTile : TileInfo} {origInputShape : Shape} {d : ℕ}
    (hd : d = Act.H ∨ d = Act.W) (hle : inputTile.shape.dim d ≤ origInputShape.dim d)
    (hcompleted : outputTile.isCompletedTile) :
    restoreIfUntiled outputTile inputTile origInputShape d =
      .ok { inputTile with
        shape := if outputTile.axis.dim d = 1 then inputTile.shape.set d (origInputShape.dim d)
          else inputTile.shape } := by
  by_cases haxis : outputTile.axis.dim d = 1
  · rw [restoreIfUntiled, if_pos ⟨hcompleted, haxis⟩, if_pos haxis]
    exact (throwUnless_bind hd _ _).trans (throwUnless_bind hle _ _)
  · rw [restoreIfUntiled, if_neg (fun h => haxis h.2), if_neg haxis]

theorem restored_eq {height width : DimRange} {tn tc un uc : ℤ} {axis : Shape}
    (hheight : height.length ≤ h) (hwidth : width.length ≤ w) {β : Type}
    (f : TileInfo → Except TilingError β) :
    (do
      let tile ← restoreIfUntiled
        ⟨[sn, sc, sh, sw], [on, oc, oh, ow], [dn, dc, dh, dw], true⟩
        ⟨[tn, tc, height.length, width.length], [un, uc, height.begin, width.begin], axis, false⟩
        [n, c, h, w] Act.H
      let tile ← restoreIfUntiled
        ⟨[sn, sc, sh, sw], [on, oc, oh, ow], [dn, dc, dh, dw], true⟩ tile [n, c, h, w] Act.W
      f tile) =
      f ⟨[tn, tc, if dh = 1 then h else height.length, if dw = 1 then w else width.length],
        [un, uc, height.begin, width.begin], axis, false⟩ := by
  have hrows : restoreIfUntiled ⟨[sn, sc, sh, sw], [on, oc, oh, ow], [dn, dc, dh, dw], true⟩
      ⟨[tn, tc, height.length, width.length], [un, uc, height.begin, width.begin], axis, false⟩
      [n, c, h, w] Act.H =
      .ok ⟨[tn, tc, if dh = 1 then h else height.length, width.length],
        [un, uc, height.begin, width.begin], axis, false⟩ := by
    have hset : (if dh = 1 then [tn, tc, h, width.length]
        else [tn, tc, height.length, width.length]) =
        [tn, tc, if dh = 1 then h else height.length, width.length] := by
      split_ifs <;> rfl
    rw [← hset]
    exact restoreIfUntiled_eq (.inl rfl) hheight rfl
  have hcolumns : ∀ rows : ℤ, restoreIfUntiled
      ⟨[sn, sc, sh, sw], [on, oc, oh, ow], [dn, dc, dh, dw], true⟩
      ⟨[tn, tc, rows, width.length], [un, uc, height.begin, width.begin], axis, false⟩
      [n, c, h, w] Act.W =
      .ok ⟨[tn, tc, rows, if dw = 1 then w else width.length],
        [un, uc, height.begin, width.begin], axis, false⟩ := by
    intro rows
    have hset : (if dw = 1 then [tn, tc, rows, w] else [tn, tc, rows, width.length]) =
        [tn, tc, rows, if dw = 1 then w else width.length] := by
      split_ifs <;> rfl
    rw [← hset]
    exact restoreIfUntiled_eq (.inr rfl) hwidth rfl
  exact bind_of_ok hrows (bind_of_ok (hcolumns _) rfl)

/-- The tiles of the filter and of the bias that an output tile needs. -/
def paramTiles (outputTile : TileInfo) (origFilterShape origBiasShape : Shape) : List TileInfo :=
  let filterTile := (TileInfo.ofShape origFilterShape).copyDim Filter.OC outputTile Act.C
  if origBiasShape ≠ [] then
    [filterTile, (TileInfo.ofShape origBiasShape).copyDim Act.C outputTile Act.C]
  else [filterTile]

variable {outChannels inChannels : ℤ}

theorem backInferConvTile_eq {height width : DimRange} {bias : Shape}
    (hsolution : inputForOutputTile ⟨⟨ow, ow + sw⟩, ⟨oh, oh + sh⟩⟩ op.kernelX op.kernelY op.strideX
      op.strideY [n, c, h, w] op.pads = .ok (⟨width, height⟩, pads)) (hheight : height.length ≤ h)
    (hwidth : width.length ≤ w) :
    backInferConvTile ⟨[sn, sc, sh, sw], [on, oc, oh, ow], [dn, dc, dh, dw], true⟩ [n, c, h, w]
        [outChannels, inChannels, op.kernelY, op.kernelX] bias [op.strideY, op.strideX] op.pads =
      .ok ⟨⟨[sn, c, if dh = 1 then h else height.length, if dw = 1 then w else width.length],
        [on, 0, height.begin, width.begin], [1, 1, 1, 1], false⟩ ::
        paramTiles ⟨[sn, sc, sh, sw], [on, oc, oh, ow], [dn, dc, dh, dw], true⟩
          [outChannels, inChannels, op.kernelY, op.kernelX] bias, some pads⟩ := by
  rw [paramTiles]
  by_cases hbias : bias ≠ []
  · rw [if_pos hbias]
    exact bind_of_ok hsolution ((restored_eq hheight hwidth _).trans (if_pos hbias))
  · rw [if_neg hbias]
    exact bind_of_ok hsolution ((restored_eq hheight hwidth _).trans (if_neg hbias))

theorem backInferConvTile_computes (hop : op.Valid) (hh : 0 < h) (hw : 0 < w) (hc : 0 ≤ c)
    {bias : Shape} (hN : 0 ≤ on ∧ 0 ≤ sn ∧ on + sn ≤ n)
    (houtH : PlanarPiece oh sh dh (op.outHeight [n, c, h, w]))
    (houtW : PlanarPiece ow sw dw (op.outWidth [n, c, h, w])) :
    op.ComputesTile [n, c, h, w] ⟨[sn, sc, sh, sw], [on, oc, oh, ow], [dn, dc, dh, dw], true⟩
      (backInferConvTile ⟨[sn, sc, sh, sw], [on, oc, oh, ow], [dn, dc, dh, dw], true⟩
        [n, c, h, w] [outChannels, inChannels, op.kernelY, op.kernelX] bias
        [op.strideY, op.strideX] op.pads) := by
  obtain ⟨height, width, pads, hsolution, hpads, hplanarH, hplanarW, hH, hW⟩ :=
    inputForOutputTile_reproduces hop hh hw houtH houtW
  rw [backInferConvTile_eq hsolution hplanarH.length_le hplanarW.length_le]
  exact computesTile_of_planar hop rfl hN ⟨le_rfl, hc, by omega⟩
    ⟨hplanarH.begin_nonneg, hplanarH.size_nonneg, hplanarH.stop_le⟩
    ⟨hplanarW.begin_nonneg, hplanarW.size_nonneg, hplanarW.stop_le⟩ hpads houtH houtW hH hW

theorem backInferPoolTile_computes (hop : op.Valid) (hh : 0 < h) (hw : 0 < w)
    (hN : 0 ≤ on ∧ 0 ≤ sn ∧ on + sn ≤ n) (hC : 0 ≤ oc ∧ 0 ≤ sc ∧ oc + sc ≤ c)
    (houtH : PlanarPiece oh sh dh (op.outHeight [n, c, h, w]))
    (houtW : PlanarPiece ow sw dw (op.outWidth [n, c, h, w])) :
    op.ComputesTile [n, c, h, w] ⟨[sn, sc, sh, sw], [on, oc, oh, ow], [dn, dc, dh, dw], true⟩
      (backInferPoolTile ⟨[sn, sc, sh, sw], [on, oc, oh, ow], [dn, dc, dh, dw], true⟩
        [n, c, h, w] [op.kernelY, op.kernelX] [op.strideY, op.strideX] op.pads) := by
  obtain ⟨height, width, pads, hsolution, hpads, hplanarH, hplanarW, hH, hW⟩ :=
    inputForOutputTile_reproduces hop hh hw houtH houtW
  have hresult : backInferPoolTile
      ⟨[sn, sc, sh, sw], [on, oc, oh, ow], [dn, dc, dh, dw], true⟩ [n, c, h, w]
      [op.kernelY, op.kernelX] [op.strideY, op.strideX] op.pads =
      .ok ⟨[⟨[sn, sc, if dh = 1 then h else height.length, if dw = 1 then w else width.length],
        [on, oc, height.begin, width.begin], [1, 1, 1, 1], false⟩], some pads⟩ :=
    bind_of_ok hsolution (restored_eq hplanarH.length_le hplanarW.length_le _)
  rw [hresult]
  exact computesTile_of_planar hop rfl hN hC
    ⟨hplanarH.begin_nonneg, hplanarH.size_nonneg, hplanarH.stop_le⟩
    ⟨hplanarW.begin_nonneg, hplanarW.size_nonneg, hplanarW.stop_le⟩ hpads houtH houtW hH hW

theorem of_bind_eq_ok {α β : Type} {x : Except TilingError α} {f : α → Except TilingError β}
    {y : β} (h : x >>= f = .ok y) : ∃ a, x = .ok a ∧ f a = .ok y := by
  cases x with
  | error error => contradiction
  | ok a => exact ⟨a, rfl, h⟩

theorem of_throwUnless_eq_ok {cond : Prop} [Decidable cond] {error : TilingError} {u : Unit}
    (h : throwUnless cond error = .ok u) : cond := by
  by_contra hcond
  rw [throwUnless, if_neg hcond] at h
  contradiction

theorem length_pos_of_inputForOutputDim {output initial : DimRange}
    {kernel stride before after : ℤ} {r : DimRange × ℤ × ℤ}
    (h : inputForOutputDim output kernel stride initial before after = .ok r) :
    0 < output.length := by
  obtain ⟨_, hcheck, -⟩ := of_bind_eq_ok h
  exact of_throwUnless_eq_ok hcheck

theorem length_pos_of_inputForOutputTile {output : PlaneTile} {inShape : Shape}
    {kernelX kernelY strideX strideY : ℤ} {r : PlaneTile × PadInfo}
    (h : inputForOutputTile output kernelX kernelY strideX strideY inShape pads = .ok r) :
    0 < output.height.length ∧ 0 < output.width.length := by
  obtain ⟨_, -, h⟩ := of_bind_eq_ok h
  obtain ⟨⟨_, _, _⟩, hheight, h⟩ := of_bind_eq_ok h
  obtain ⟨_, -, h⟩ := of_bind_eq_ok h
  obtain ⟨_, hwidth, -⟩ := of_bind_eq_ok h
  exact ⟨length_pos_of_inputForOutputDim hheight, length_pos_of_inputForOutputDim hwidth⟩

end Tile

/-- Each planar dimension is aligned or has an output for each of its tiles. -/
def FitsPlane (divisors outShape : Shape) (alignment : Option (List ℤ)) : Prop :=
  ∀ d ∈ [Act.H, Act.W],
    1 < (alignmentShape outShape alignment).getD d 1 ∨ divisors.dim d ≤ outShape.dim d

variable {alignment : Option (List ℤ)} {tiles : List TileInfo}

theorem mem_tiles_of_four {dn dc dh dw : ℤ} {outShape : Shape} (hshape : ∀ j, 0 ≤ outShape.dim j)
    (htiles : fillDividedTiles [dn, dc, dh, dw] outShape alignment = some tiles) :
    ∃ pieces : ℕ → List (ℤ × ℤ),
      (∀ j < 4, shapeOffsetPairs [dn, dc, dh, dw] outShape (alignmentShape outShape alignment) j =
        some (pieces j)) ∧
      ∀ tile, tile ∈ tiles ↔ ∃ qn ∈ pieces 0, ∃ qc ∈ pieces 1, ∃ qh ∈ pieces 2, ∃ qw ∈ pieces 3,
        tile = ⟨[qn.1, qc.1, qh.1, qw.1], [qn.2, qc.2, qh.2, qw.2], [dn, dc, dh, dw], true⟩ := by
  obtain ⟨pairs, hpairs, hmem⟩ := mem_fillDividedTiles hshape htiles
  change List.Forall₂ _ [0, 1, 2, 3] pairs at hpairs
  simp only [List.forall₂_cons_left_iff, List.forall₂_nil_left_iff] at hpairs
  obtain ⟨pn, _, hn, ⟨pc, _, hc, ⟨ph, _, hh, ⟨pw, _, hw, rfl, rfl⟩, rfl⟩, rfl⟩, rfl⟩ := hpairs
  refine ⟨fun j => [pn, pc, ph, pw].getD j [], ?_, fun tile => (hmem tile).trans ?_⟩
  · intro j hj
    match j, hj with
    | 0, _ => exact hn
    | 1, _ => exact hc
    | 2, _ => exact hh
    | 3, _ => exact hw
  · constructor
    · rintro ⟨point, hpoint, rfl⟩
      simp only [List.forall₂_cons_right_iff, List.forall₂_nil_right_iff] at hpoint
      obtain ⟨qn, _, hqn, ⟨qc, _, hqc, ⟨qh, _, hqh, ⟨qw, _, hqw, rfl, rfl⟩, rfl⟩, rfl⟩, rfl⟩ :=
        hpoint
      exact ⟨qn, hqn, qc, hqc, qh, hqh, qw, hqw, rfl⟩
    · rintro ⟨qn, hqn, qc, hqc, qh, hqh, qw, hqw, rfl⟩
      exact ⟨[qn, qc, qh, qw], .cons hqn (.cons hqc (.cons hqh (.cons hqw .nil))), rfl⟩

/-- No tile is empty in a planar dimension exactly when the planar dimensions fit. -/
theorem forall_plane_pos_iff {outShape : Shape} {dn dc dh dw : ℤ} (hshape : ∀ j, 0 ≤ outShape.dim j)
    (hrows : 0 < outShape.dim Act.H) (hcolumns : 0 < outShape.dim Act.W)
    (htiles : fillDividedTiles [dn, dc, dh, dw] outShape alignment = some tiles) :
    (∀ tile ∈ tiles, 0 < tile.plane.height.length ∧ 0 < tile.plane.width.length) ↔
      FitsPlane [dn, dc, dh, dw] outShape alignment := by
  obtain ⟨pieces, hpieces, hmem⟩ := mem_tiles_of_four hshape htiles
  have hH := pieces_pos_iff (by exact hrows) (hpieces 2 (by omega))
  have hW := pieces_pos_iff (by exact hcolumns) (hpieces 3 (by omega))
  have hfits : FitsPlane [dn, dc, dh, dw] outShape alignment ↔
      (∀ q ∈ pieces 2, 0 < q.1) ∧ ∀ q ∈ pieces 3, 0 < q.1 := by
    rw [hH, hW]
    simp only [FitsPlane, List.forall_mem_cons, List.not_mem_nil, false_imp_iff, implies_true,
      and_true]
    rfl
  have hne : ∀ j < 4, ∃ q, q ∈ pieces j := fun j hj =>
    List.exists_mem_of_ne_nil _ (shapeOffsetPairs_ne_nil (hshape j) (hpieces j hj))
  rw [hfits]
  constructor
  · intro hall
    -- a tile with the piece in question, and any pieces in the other dimensions
    have hpos : ∀ qh ∈ pieces 2, ∀ qw ∈ pieces 3, 0 < qh.1 ∧ 0 < qw.1 := by
      intro qh hqh qw hqw
      obtain ⟨qn, hqn⟩ := hne 0 (by omega)
      obtain ⟨qc, hqc⟩ := hne 1 (by omega)
      have hlen := hall _ ((hmem _).mpr ⟨qn, hqn, qc, hqc, qh, hqh, qw, hqw, rfl⟩)
      simpa [TileInfo.plane, DimRange.length, Shape.dim, Act.H, Act.W] using hlen
    obtain ⟨qh, hqh⟩ := hne 2 (by omega)
    obtain ⟨qw, hqw⟩ := hne 3 (by omega)
    exact ⟨fun q hq => (hpos q hq qw hqw).1, fun q hq => (hpos qh hqh q hq).2⟩
  · rintro ⟨hposH, hposW⟩ tile htile
    obtain ⟨qn, hqn, qc, hqc, qh, hqh, qw, hqw, rfl⟩ := (hmem tile).mp htile
    have hlen : 0 < qh.1 ∧ 0 < qw.1 := ⟨hposH qh hqh, hposW qw hqw⟩
    simpa [TileInfo.plane, DimRange.length, Shape.dim, Act.H, Act.W] using hlen

theorem dim_nonneg_of_four {n k h w : ℤ} (hn : 0 ≤ n) (hk : 0 ≤ k) (hh : 0 ≤ h) (hw : 0 ≤ w)
    (j : ℕ) : 0 ≤ Shape.dim [n, k, h, w] j := by
  match j with
  | 0 => exact hn
  | 1 => exact hk
  | 2 => exact hh
  | 3 => exact hw
  | j + 4 => exact le_rfl

/-- For a way to back-infer that computes every non-empty tile and rejects the others, all tiles
are computed exactly when none is empty. -/
theorem forall_computesTile_iff {op : Sliding} {n c h w k dn dc dh dw : ℤ} (hn : 0 ≤ n) (hk : 0 ≤ k)
    (hrows : 0 < op.outHeight [n, c, h, w]) (hcolumns : 0 < op.outWidth [n, c, h, w])
    {backInfer : TileInfo → Except TilingError TilingInfo}
    (hcomputes : ∀ sn sc sh sw on oc oh ow : ℤ, (0 ≤ on ∧ 0 ≤ sn ∧ on + sn ≤ n) →
      (0 ≤ oc ∧ 0 ≤ sc ∧ oc + sc ≤ k) → PlanarPiece oh sh dh (op.outHeight [n, c, h, w]) →
      PlanarPiece ow sw dw (op.outWidth [n, c, h, w]) →
      op.ComputesTile [n, c, h, w] ⟨[sn, sc, sh, sw], [on, oc, oh, ow], [dn, dc, dh, dw], true⟩
        (backInfer ⟨[sn, sc, sh, sw], [on, oc, oh, ow], [dn, dc, dh, dw], true⟩))
    (hrejects : ∀ tile info, backInfer tile = .ok info →
      0 < tile.plane.height.length ∧ 0 < tile.plane.width.length)
    (htiles : fillDividedTiles [dn, dc, dh, dw]
      [n, k, op.outHeight [n, c, h, w], op.outWidth [n, c, h, w]] alignment = some tiles) :
    (∀ tile ∈ tiles, op.ComputesTile [n, c, h, w] tile (backInfer tile)) ↔
      FitsPlane [dn, dc, dh, dw] [n, k, op.outHeight [n, c, h, w], op.outWidth [n, c, h, w]]
        alignment := by
  have hshape := dim_nonneg_of_four hn hk hrows.le hcolumns.le
  rw [← forall_plane_pos_iff hshape (by exact hrows) (by exact hcolumns) htiles]
  constructor
  · intro hall tile htile
    obtain ⟨info, -, -, hinfo, -⟩ := hall tile htile
    exact hrejects tile info hinfo
  · intro hall tile htile
    obtain ⟨pieces, hpieces, hmem⟩ := mem_tiles_of_four hshape htiles
    obtain ⟨hposH, hposW⟩ := hall tile htile
    obtain ⟨qn, hqn, qc, hqc, qh, hqh, qw, hqw, rfl⟩ := (hmem tile).mp htile
    obtain ⟨hn₁, hn₂, hn₃, -⟩ := piece_bounds (hshape 0) (hpieces 0 (by omega)) hqn
    obtain ⟨hc₁, hc₂, hc₃, -⟩ := piece_bounds (hshape 1) (hpieces 1 (by omega)) hqc
    obtain ⟨hh₁, -, hh₃, hh₄⟩ := piece_bounds (hshape 2) (hpieces 2 (by omega)) hqh
    obtain ⟨hw₁, -, hw₃, hw₄⟩ := piece_bounds (hshape 3) (hpieces 3 (by omega)) hqw
    refine hcomputes _ _ _ _ _ _ _ _ ⟨hn₁, hn₂, hn₃⟩ ⟨hc₁, hc₂, hc₃⟩
      ⟨hh₁, ?_, hh₃, hh₄⟩ ⟨hw₁, ?_, hw₃, hw₄⟩
    · simpa [TileInfo.plane, DimRange.length, Shape.dim, Act.H] using hposH
    · simpa [TileInfo.plane, DimRange.length, Shape.dim, Act.W] using hposW

/-- The tiles of a convolution, and those of a pooling, compute what the operation computes
exactly when no planar dimension has more tiles than outputs, unless it is aligned. -/
theorem backInfer_computesTile_iff (op : Sliding) (hop : op.Valid) (n c h w : ℤ)
    (hin : 0 ≤ n ∧ 0 ≤ c ∧ 0 < h ∧ 0 < w)
    (hout : 0 < op.outHeight [n, c, h, w] ∧ 0 < op.outWidth [n, c, h, w])
    (outChannels inChannels : ℤ) (houtChannels : 0 ≤ outChannels) (bias divisors : Shape)
    (hdivisors : divisors.length = 4) (alignment : Option (List ℤ)) :
    (∀ tiles, fillDividedTiles divisors
        [n, outChannels, op.outHeight [n, c, h, w], op.outWidth [n, c, h, w]] alignment =
          some tiles →
      ((∀ tile ∈ tiles, op.ComputesTile [n, c, h, w] tile
          (backInferConvTile tile [n, c, h, w] [outChannels, inChannels, op.kernelY, op.kernelX]
            bias [op.strideY, op.strideX] op.pads)) ↔
        FitsPlane divisors
          [n, outChannels, op.outHeight [n, c, h, w], op.outWidth [n, c, h, w]] alignment)) ∧
    (∀ tiles, fillDividedTiles divisors
        [n, c, op.outHeight [n, c, h, w], op.outWidth [n, c, h, w]] alignment = some tiles →
      ((∀ tile ∈ tiles, op.ComputesTile [n, c, h, w] tile
          (backInferPoolTile tile [n, c, h, w] [op.kernelY, op.kernelX]
            [op.strideY, op.strideX] op.pads)) ↔
        FitsPlane divisors
          [n, c, op.outHeight [n, c, h, w], op.outWidth [n, c, h, w]] alignment)) := by
  obtain ⟨hn, hc, hh, hw⟩ := hin
  obtain ⟨hrows, hcolumns⟩ := hout
  match divisors, hdivisors with
  | [dn, dc, dh, dw], _ =>
    constructor
    · intro tiles htiles
      refine forall_computesTile_iff hn houtChannels hrows hcolumns ?_ ?_ htiles
      · intro sn sc sh sw on oc oh ow hN _ hH hW
        exact backInferConvTile_computes hop hh hw hc hN hH hW
      · intro tile info hinfo
        obtain ⟨_, hplane, -⟩ := of_bind_eq_ok hinfo
        exact length_pos_of_inputForOutputTile hplane
    · intro tiles htiles
      refine forall_computesTile_iff hn hc hrows hcolumns ?_ ?_ htiles
      · intro sn sc sh sw on oc oh ow hN hC hH hW
        exact backInferPoolTile_computes hop hh hw hN hC hH hW
      · intro tile info hinfo
        obtain ⟨_, hplane, -⟩ := of_bind_eq_ok hinfo
        exact length_pos_of_inputForOutputTile hplane

/-- A convolution with three input channels, cut in two along the height. -/
theorem backInfer_computesTile_iff_halves :
    (∀ tile ∈ [(⟨[1, 4, 2, 3], [0, 0, 0, 0], [1, 1, 2, 1], true⟩ : TileInfo),
        ⟨[1, 4, 2, 3], [0, 0, 2, 0], [1, 1, 2, 1], true⟩],
      (Sliding.mk 3 3 1 1 ⟨1, 1, 1, 1⟩).ComputesTile [1, 3, 4, 3] tile
        (backInferConvTile tile [1, 3, 4, 3] [4, 3, 3, 3] [] [1, 1] ⟨1, 1, 1, 1⟩)) ↔
      FitsPlane [1, 1, 2, 1] [1, 4, 4, 3] none :=
  (backInfer_computesTile_iff ⟨3, 3, 1, 1, ⟨1, 1, 1, 1⟩⟩
    ⟨by decide, by decide, by decide, by decide, by decide, by decide, by decide, by decide⟩
    1 3 4 3 (by decide) (by decide) 4 3 (by decide) [] [1, 1, 2, 1] rfl none).1 _ (by decide)

/-- Three tiles of a height of two: the third is empty, and its back-inference throws. -/
theorem backInfer_throws_emptyTile :
    (Sliding.mk 1 1 1 1 ⟨0, 0, 0, 0⟩).Valid ∧
    ∃ tiles, fillDividedTiles [1, 1, 3, 1]
        [1, 1, (Sliding.mk 1 1 1 1 ⟨0, 0, 0, 0⟩).outHeight [1, 1, 2, 2],
          (Sliding.mk 1 1 1 1 ⟨0, 0, 0, 0⟩).outWidth [1, 1, 2, 2]] none = some tiles ∧
      ∃ tile ∈ tiles,
        backInferConvTile tile [1, 1, 2, 2] [1, 1, 1, 1] [] [1, 1] ⟨0, 0, 0, 0⟩ =
          .error (.wrongOutputTile ⟨2, 2⟩) ∧
        ¬(Sliding.mk 1 1 1 1 ⟨0, 0, 0, 0⟩).ComputesTile [1, 1, 2, 2] tile
          (backInferConvTile tile [1, 1, 2, 2] [1, 1, 1, 1] [] [1, 1] ⟨0, 0, 0, 0⟩) := by
  have hthrows : backInferConvTile ⟨[1, 1, 0, 2], [0, 0, 2, 0], [1, 1, 3, 1], true⟩ [1, 1, 2, 2]
      [1, 1, 1, 1] [] [1, 1] ⟨0, 0, 0, 0⟩ = .error (.wrongOutputTile ⟨2, 2⟩) := by decide
  refine ⟨⟨by decide, by decide, by decide, by decide, by decide, by decide, by decide, by decide⟩,
    [⟨[1, 1, 1, 2], [0, 0, 0, 0], [1, 1, 3, 1], true⟩,
      ⟨[1, 1, 1, 2], [0, 0, 1, 0], [1, 1, 3, 1], true⟩,
      ⟨[1, 1, 0, 2], [0, 0, 2, 0], [1, 1, 3, 1], true⟩], by decide, _,
    by simp, hthrows, ?_⟩
  rintro ⟨info, -, -, hinfo, -⟩
  rw [hthrows] at hinfo
  contradiction

end Vpux.Tiling
