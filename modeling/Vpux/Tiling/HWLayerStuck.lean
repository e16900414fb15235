import Vpux.Tiling.HWLayerEnds

/-! Layers on which the search does not end, for some answers of their operations. -/
namespace Vpux.Tiling
open Data Dims4D Looping

/-- The tile counts that tiles were divided by. -/
def countsOf (tiles : List TileInfo) : List ℕ :=
  ((tiles.head?.map TileInfo.axis).getD []).map Int.toNat

namespace HWLayer

variable {layer : HWLayer} {tileDimOrder : List ℕ} {n : List ℕ} {d : ℕ}

theorem alignmentShape_getD (hvalid : layer.IsValid) (hd : d < 4) :
    (alignmentShape layer.outputShape (layer.outputChannelAlignment.map fun alignment =>
      (List.replicate layer.outputShape.length 1).set Act.C alignment)).getD d 1 =
        if d = Act.C then layer.dimAlignment else 1 := by
  have hlt : d < (List.replicate layer.outputShape.length (1 : ℤ)).length := by
    rw [List.length_replicate, hvalid.rank]
    exact hd
  unfold alignmentShape dimAlignment
  cases layer.outputChannelAlignment with
  | none => simp
  | some alignment =>
    rw [Option.map_some, Option.getD_some, Option.getD_some, List.getD_eq_getElem?_getD]
    by_cases heq : d = Act.C
    · rw [heq] at hlt ⊢
      rw [List.getElem?_set_self hlt, Option.getD_some, if_pos rfl]
    · rw [List.getElem?_set_ne (Ne.symm heq), List.getElem?_replicate, if_neg heq]
      split <;> rfl

theorem countsOf_fillDividedTiles (hvalid : layer.IsValid) (hn : layer.IsCounts n) :
    ∃ tiles, layer.fillDividedTiles n = some tiles ∧ countsOf tiles = n := by
  have hnonneg : ∀ d < 4, 0 ≤ layer.outputShape.dim d := fun d hd => (hvalid.dim_pos hd).le
  have hdim : ∀ d < 4, Shape.dim (n.map Int.ofNat) d = tilesOn n d := by
    intro d hd
    have hlt : d < n.length := by rwa [hn.length]
    rw [Shape.dim, tilesOn, List.getD_eq_getElem _ _ (by rwa [List.length_map]),
      List.getD_eq_getElem _ _ hlt, List.getElem_map]
    rfl
  have hdivides : ∀ d < 4, ∃ pairs, shapeOffsetPairs (n.map Int.ofNat) layer.outputShape
      (alignmentShape layer.outputShape (layer.outputChannelAlignment.map fun alignment =>
        (List.replicate layer.outputShape.length 1).set Act.C alignment)) d = some pairs := by
    intro d hd
    have hpos := hn.pos d
    have hunskipped := hn.unskipped d
    unfold shapeOffsetPairs dividedShapes
    rw [hdim d hd, alignmentShape_getD hvalid hd, if_neg (by omega)]
    by_cases hC : d = Act.C
    · rw [if_pos hC]
      by_cases halign : 1 < layer.dimAlignment
      · have haligned : layer.isAligned d = true := decide_eq_true ⟨hC, by omega⟩
        rw [isSkipped, haligned, Bool.true_and, Bool.not_eq_false', isSupportedAlignedDivision,
          decide_eq_true_eq] at hunskipped
        rw [if_pos halign]
        rw [if_neg (not_le.mpr hunskipped)]
        exact ⟨_, rfl⟩
      · rw [if_neg halign]
        dsimp only
        split <;> exact ⟨_, rfl⟩
    · rw [if_neg hC, if_neg (lt_irrefl _)]
      dsimp only
      split <;> exact ⟨_, rfl⟩
  choose! pairs hpairs using hdivides
  have hall : List.Forall₂ (fun j p => shapeOffsetPairs (n.map Int.ofNat) layer.outputShape
      (alignmentShape layer.outputShape (layer.outputChannelAlignment.map fun alignment =>
        (List.replicate layer.outputShape.length 1).set Act.C alignment)) j = some p)
      (List.range (n.map Int.ofNat).length)
      ((List.range (n.map Int.ofNat).length).map pairs) := by
    rw [List.forall₂_map_right_iff, List.forall₂_same]
    intro d hd
    rw [List.mem_range, List.length_map, hn.length] at hd
    exact hpairs d hd
  refine ⟨_, fillDividedTiles_eq_grid hall, ?_⟩
  obtain ⟨point, hpoint⟩ : ∃ point, point ∈ grid
      ((List.range (n.map Int.ofNat).length).map pairs) := by
    have hchoice : ∀ d ∈ List.range (n.map Int.ofNat).length, ∃ pair, pair ∈ pairs d := by
      intro d hd
      rw [List.mem_range, List.length_map, hn.length] at hd
      exact List.exists_mem_of_ne_nil _ (shapeOffsetPairs_ne_nil (hnonneg d hd) (hpairs d hd))
    choose! choice hchoice using hchoice
    refine ⟨(List.range (n.map Int.ofNat).length).map choice, mem_grid.mpr ?_⟩
    rw [List.forall₂_map_right_iff, List.forall₂_map_left_iff, List.forall₂_same]
    exact hchoice
  cases hgrid : grid ((List.range (n.map Int.ofNat).length).map pairs) with
  | nil =>
    rw [hgrid] at hpoint
    cases hpoint
  | cons first rest =>
    change ((n.map Int.ofNat).map Int.toNat) = n
    rw [List.map_map]
    exact (List.map_congr_left fun _ _ => rfl).trans (List.map_id n)

/-- An operation that answers by the tile counts. -/
def answering (layer : HWLayer) (compatible : List ℕ → Bool)
    (supported : List ℕ → TilingMode → Bool) : HWLayerOp where
  toHWLayer := layer
  isMultiClusterCompatibleForTiling := fun tiles => compatible (countsOf tiles)
  isSupportedTiling := fun tiles tilingMode => supported (countsOf tiles) tilingMode

section Answering

variable {compatible : List ℕ → Bool} {supported : List ℕ → TilingMode → Bool}

theorem isMultiClusterCompatible_answering (hvalid : layer.IsValid) (hn : layer.IsCounts n) :
    (layer.answering compatible supported).isMultiClusterCompatible n = compatible n := by
  obtain ⟨tiles, hfill, hcounts⟩ := countsOf_fillDividedTiles hvalid hn
  unfold HWLayerOp.isMultiClusterCompatible
  rw [show (layer.answering compatible supported).fillDividedTiles n = some tiles from hfill]
  exact congrArg compatible hcounts

theorem isSupportedTileSize_answering (hvalid : layer.IsValid) (hn : layer.IsCounts n)
    (tilingMode : TilingMode) :
    (layer.answering compatible supported).isSupportedTileSize n tilingMode =
      (compatible n && supported n tilingMode) := by
  obtain ⟨tiles, hfill, hcounts⟩ := countsOf_fillDividedTiles hvalid hn
  unfold HWLayerOp.isSupportedTileSize
  rw [show (layer.answering compatible supported).fillDividedTiles n = some tiles from hfill]
  change (compatible (countsOf tiles) && supported (countsOf tiles) tilingMode) = _
  rw [hcounts]

theorem isSupportedTileSize_of_never {tilingMode : TilingMode}
    (h : ∀ n, supported n tilingMode = false) (n : List ℕ) :
    (layer.answering compatible supported).isSupportedTileSize n tilingMode = false := by
  unfold HWLayerOp.isSupportedTileSize
  split
  · rfl
  · change (compatible _ && supported _ tilingMode) = false
    rw [h, Bool.and_false]

end Answering

end HWLayer

namespace HWLayerOp

variable {op : HWLayerOp} {tilingMode : TilingMode} {tileDimOrder : List ℕ}

/-- Channels that are not passed keep an aligned tiling number. -/
def ChannelsLeft (op : HWLayerOp) (done : List ℕ) (cursor : DimCursor) : Prop :=
  HWLayer.dimToAlign ∉ done ∧ (tilesOn cursor.nTilesOnDim HWLayer.dimToAlign : ℤ) ≤
    divUp (op.outputShape.dim HWLayer.dimToAlign) op.dimAlignment

open HWLayer

section Stuck

variable (hvalid : op.IsValid) (horder : IsTileDimOrder tileDimOrder)
  (hstuck : ¬op.ReachesMaxTiles tileDimOrder)
include hvalid horder hstuck

omit hvalid horder in
theorem ChannelsLeft.ne {done : List ℕ} {cursor : DimCursor} (h : op.ChannelsLeft done cursor)
    (hleft : op.isDimLeftToTile cursor.nTilesOnDim cursor.dimToTile = false) :
    cursor.dimToTile ≠ dimToAlign := by
  intro heq
  have hmax := of_decide_eq_false hleft
  rw [heq] at hmax
  obtain ⟨-, hstuck⟩ := not_or.mp hstuck
  obtain ⟨-, hlt⟩ := not_or.mp hstuck
  have hle := h.2
  omega

theorem searchKeeps_channelsLeft :
    op.SearchKeeps tilingMode tileDimOrder op.ChannelsLeft op.ChannelsLeft where
  enter := fun _ _ _ h _ => h
  leave := by
    intro done cursor y dimToTile laterDims hstands h hleft hy hlater
    have hne := h.ne hstuck hleft
    constructor
    · rw [List.mem_append, List.mem_singleton, not_or]
      exact ⟨h.1, Ne.symm hne⟩
    · rw [tilesOn_set_ne hne]
      exact h.2
  raise := by
    intro done cursor y hstands h hleft hnext
    refine ⟨h.1, ?_⟩
    by_cases heq : cursor.dimToTile = dimToAlign
    · have hlt := hstands.dim_lt horder
      have hunskipped := hnext.unskipped
      have hpos := hnext.lt
      rw [heq] at hlt hunskipped ⊢
      have haligned : op.isAligned dimToAlign = true :=
        decide_eq_true ⟨rfl, (not_or.mp hstuck).1⟩
      rw [HWLayer.isSkipped, haligned, Bool.true_and, Bool.not_eq_false'] at hunskipped
      rw [tilesOn_set_self hlt]
      exact le_divUp_of_isSupportedAlignedDivision (hvalid.dim_pos (by decide)) hvalid.alignment
        (by omega) hunskipped
    · rw [tilesOn_set_ne heq]
      exact h.2

theorem findTiling_not_returns (hunsupported : ∀ n, op.isSupportedTileSize n tilingMode = false)
    {cursor : DimCursor} (hstands : op.Stands tileDimOrder [] cursor)
    (hchannels : op.ChannelsLeft [] cursor) (result : Except Strategy DimCursor) :
    ¬(op.findTiling tilingMode cursor).Returns result := by
  apply not_returns_loop (I := fun current => ∃ done, op.Stands tileDimOrder done current ∧
    op.ChannelsLeft done current)
  · rintro current ⟨done, hstands, hchannels⟩ next hnext
    have hkeeps : op.SearchKeeps tilingMode tileDimOrder op.ChannelsLeft op.ChannelsLeft :=
      searchKeeps_channelsLeft hvalid horder hstuck
    rw [if_neg (by rw [hunsupported]; exact Bool.false_ne_true)] at hnext
    obtain ⟨left, hleft, hnext⟩ := returns_bind_iff.mp hnext
    have hspec := (leaveTiledDims_ends hvalid horder hkeeps hstands hchannels).of_returns hleft
    cases left with
    | error strategy =>
      obtain ⟨-, done', last, hstands', hchannels', hlater, hlast⟩ := hspec
      have hmem : dimToAlign ∈ tileDimOrder := by
        obtain ⟨-, hstuck⟩ := not_or.mp hstuck
        exact not_not.mp (not_or.mp hstuck).1
      rw [hstands'.order_eq, hlater, List.mem_append, List.mem_singleton] at hmem
      exact absurd (hmem.resolve_left hchannels'.1).symm (hchannels'.ne hstuck hlast)
    | ok cursor' =>
      obtain ⟨⟨done', hstands', hchannels'⟩, hdim, -⟩ := hspec
      obtain ⟨n, hn, hnext⟩ := returns_bind_iff.mp hnext
      obtain rfl := returns_pure_iff.mp hnext
      obtain ⟨y, rfl, hy⟩ := increaseTiles_returns (hstands'.dim_lt horder) hn
      exact ⟨_, rfl, done', hstands'.raise hdim hy,
        hkeeps.raise done' cursor' y hstands' hchannels' hdim hy⟩
  · exact ⟨[], hstands, hchannels⟩

theorem search_not_returns_of_unsupported
    (hunsupported : ∀ n mode, op.isSupportedTileSize n mode = false) (tilingMode : TilingMode)
    (strategy : Strategy) :
    ¬(op.getHWLayerTilingStrategyWithTileDimOrder tilingMode tileDimOrder).Returns strategy := by
  obtain ⟨dimToTile, laterDims, rfl⟩ := List.exists_cons_of_ne_nil horder.ne_nil
  unfold getHWLayerTilingStrategyWithTileDimOrder
  rw [if_neg (not_not.mpr hvalid.rank)]
  intro hreturns
  obtain ⟨result, hresult, -⟩ := returns_bind_iff.mp hreturns
  refine findTiling_not_returns hvalid horder hstuck (fun n => hunsupported n _)
    (stands_start hvalid dimToTile laterDims) ⟨List.not_mem_nil, ?_⟩ result hresult
  have hone := divUp_pos (hvalid.dim_pos (d := dimToAlign) (by decide)) hvalid.alignment
  rw [tilesOn_replicate, Nat.cast_one]
  omega

end Stuck

theorem pipelineTiling_not_returns {n : List ℕ} {targetDim dimToTile : ℕ}
    (hunsupported : ∀ m, op.isSupportedTileSize m .PIPELINING = false)
    (haligned : op.isAligned targetDim = false) (hne : dimToTile ≠ targetDim)
    (hpos : 1 ≤ tilesOn n targetDim) (hleft : tilesOn n targetDim < op.maxTilesOn targetDim)
    (tiles : Option (List TileInfo)) :
    ¬(op.pipelineTiling n targetDim dimToTile).Returns tiles := by
  apply not_returns_loop (I := fun m => tilesOn m targetDim = tilesOn n targetDim)
  · intro m hm next hnext
    have hgo : ¬(MAX_PREFETCH_TILING_TIME * tilesOn n targetDim ≤ tilesOn m targetDim ∨
        ¬op.isDimLeftToTile m targetDim = true) := by
      rw [isDimLeftToTile, hm, MAX_PREFETCH_TILING_TIME, decide_eq_true_eq]
      omega
    rw [if_neg (by rw [hunsupported]; exact Bool.false_ne_true), if_neg hgo,
      if_neg (by rw [haligned]; exact Bool.false_ne_true)] at hnext
    obtain rfl := returns_pure_iff.mp hnext
    refine ⟨_, rfl, ?_⟩
    rw [tilesOn_set_ne hne, hm]
  · rfl

theorem search_not_returns_of_pipelining (hrank : op.outputShape.length = 4) {dimToTile : ℕ}
    {laterDims : List ℕ}
    (hsteps : (op.findTiling .ISOLATED ⟨op.neutralTiling, dimToTile, laterDims⟩).Ends fun result =>
      ∃ found, result = .ok found ∧
        ((dimToTile :: laterDims).foldlM (op.reduceDim .ISOLATED) found.nTilesOnDim).Ends fun n =>
          (getDimsToTile n).length ≤ 1 ∧ ∀ tiles, ¬(op.pipelineTiling n
            ((getDimsToTile n).headD Act.C) found.dimToTile).Returns tiles)
    (strategy : Strategy) :
    ¬(op.getHWLayerTilingStrategyWithTileDimOrder .PIPELINING (dimToTile :: laterDims)).Returns
      strategy := by
  unfold getHWLayerTilingStrategyWithTileDimOrder
  rw [if_neg (not_not.mpr hrank)]
  intro hreturns
  obtain ⟨result, hresult, hreturns⟩ := returns_bind_iff.mp hreturns
  obtain ⟨found, rfl, hreduce⟩ := hsteps.of_returns hresult
  obtain ⟨n, hn, hreturns⟩ := returns_bind_iff.mp hreturns
  obtain ⟨hdims, hstuck⟩ := hreduce.of_returns hn
  rw [if_neg (not_or.mpr ⟨not_not.mpr rfl, not_lt.mpr hdims⟩)] at hreturns
  obtain ⟨tiles, htiles, -⟩ := returns_bind_iff.mp hreturns
  exact hstuck tiles htiles

end HWLayerOp

end Vpux.Tiling
