import Vpux.Data.Looping
import Vpux.Tiling.BackInfer

/-! The search for a tiling strategy, `getHWLayerTilingStrategyWithTileDimOrder` of
`core/tiling.cpp`. -/
namespace Vpux.Tiling
open Data Dims4D Looping

inductive TilingMode where
  | ISOLATED
  | PIPELINING
  | PREFETCHING
  deriving DecidableEq, Repr

inductive StrategyError where
  | unsupportedRank
  | failedToTile
  | emptyTileDimOrder
  deriving DecidableEq, Repr

def MAX_PREFETCH_TILING_TIME : ℕ := 3

/-- The tiling, or `none` where the shape cannot be divided into it. -/
abbrev Strategy := Except StrategyError (Option (List TileInfo))

/-- The sizes that the search depends on. Channels are aligned where the operation has the
interface for it. -/
structure HWLayer where
  outputShape : Shape
  outputChannelAlignment : Option ℤ
  maxNumTiles : List ℕ

/-- A layer with what its operation answers about a tiling. -/
structure HWLayerOp extends HWLayer where
  isMultiClusterCompatibleForTiling : List TileInfo → Bool
  isSupportedTiling : List TileInfo → TilingMode → Bool

/-- Tile counts are never read outside of the rank. -/
def tilesOn (nTilesOnDim : List ℕ) (d : ℕ) : ℕ := nTilesOnDim.getD d 1

/-- Allow uneven tiling over channels, such as 80 channels in tiles of 32, 32 and 16. -/
def isSupportedAlignedDivision (dimSize tiles alignment : ℤ) : Bool :=
  let base := divUp dimSize tiles
  let alignedBase := alignValUp base alignment
  let remainder := dimSize - alignedBase * (tiles - 1)
  0 < remainder

namespace HWLayer

variable (layer : HWLayer)

def dimToAlign : ℕ := Act.C

def dimAlignment : ℤ := layer.outputChannelAlignment.getD 1

def fillDividedTiles (nTilesOnDim : List ℕ) : Option (List TileInfo) :=
  Tiling.fillDividedTiles (nTilesOnDim.map Int.ofNat) layer.outputShape
    (layer.outputChannelAlignment.map fun alignment =>
      (List.replicate layer.outputShape.length 1).set Act.C alignment)

def maxTilesOn (d : ℕ) : ℕ := layer.maxNumTiles.getD d 0

def isDimLeftToTile (tileShape : List ℕ) (testTileDim : ℕ) : Bool :=
  tilesOn tileShape testTileDim < layer.maxTilesOn testTileDim

def isAligned (d : ℕ) : Bool := d = dimToAlign ∧ layer.dimAlignment ≠ 1

/-- The tiling numbers which are skipped because they are not aligned. -/
def isSkipped (d tiles : ℕ) : Bool :=
  layer.isAligned d &&
    !isSupportedAlignedDivision (layer.outputShape.dim d) tiles layer.dimAlignment

def decreaseTiles (d : ℕ) (nTilesOnDim : List ℕ) : Looping (List ℕ) :=
  whileDo (fun n => layer.isSkipped d (tilesOn n d) && 1 < tilesOn n d)
    (fun n => pure (n.set d (tilesOn n d - 1)))
    (nTilesOnDim.set d (tilesOn nTilesOnDim d - 1))

/-- Also the loop that the first step writes as do-while for aligned dimensions only. -/
def increaseTiles (d : ℕ) (nTilesOnDim : List ℕ) : Looping (List ℕ) :=
  whileDo (fun n => layer.isSkipped d (tilesOn n d))
    (fun n => pure (n.set d (tilesOn n d + 1)))
    (nTilesOnDim.set d (tilesOn nTilesOnDim d + 1))

end HWLayer

/-- Where the first step stands. `laterDims` are the dimensions behind the iterator. -/
structure DimCursor where
  nTilesOnDim : List ℕ
  dimToTile : ℕ
  laterDims : List ℕ
  deriving DecidableEq, Repr

namespace HWLayerOp

variable (op : HWLayerOp)

def isMultiClusterCompatible (nTilesOnDim : List ℕ) : Bool :=
  match op.fillDividedTiles nTilesOnDim with
  | none => false
  | some tiles => op.isMultiClusterCompatibleForTiling tiles

def isSupportedTileSize (nTilesOnDim : List ℕ) (tilingMode : TilingMode) : Bool :=
  match op.fillDividedTiles nTilesOnDim with
  | none => false
  | some tiles =>
    op.isMultiClusterCompatibleForTiling tiles && op.isSupportedTiling tiles tilingMode

/-- Decreases the tiling of a dimension until the multicluster strategy is compatible again. -/
def restoreMultiCluster (d : ℕ) (nTilesOnDim : List ℕ) : Looping (List ℕ) :=
  whileDo (fun n => 1 < tilesOn n d && !op.isMultiClusterCompatible n) (op.decreaseTiles d)
    nTilesOnDim

def neutralTiling : List ℕ := List.replicate op.outputShape.length 1

/-- What happens behind the last dimension. -/
def fallBack (tilingMode : TilingMode) : Strategy :=
  if tilingMode = .ISOLATED then .error .failedToTile else .ok
    (op.fillDividedTiles op.neutralTiling)

/-- Passes over the dimensions that have all of their tiles. -/
def leaveTiledDims (tilingMode : TilingMode) :
    DimCursor → Looping (Except Strategy DimCursor) :=
  loop fun cursor =>
    if op.isDimLeftToTile cursor.nTilesOnDim cursor.dimToTile then pure (.inr (.ok cursor))
    else do
      let nTilesOnDim ← op.restoreMultiCluster cursor.dimToTile cursor.nTilesOnDim
      match cursor.laterDims with
      | [] => pure (.inr (.error (op.fallBack tilingMode)))
      | dimToTile :: laterDims => pure (.inl ⟨nTilesOnDim, dimToTile, laterDims⟩)

/-- Step 1: get a feasible isolated or prefetching strategy. -/
def findTiling (tilingMode : TilingMode) : DimCursor → Looping (Except Strategy DimCursor) :=
  loop fun cursor =>
    if op.isSupportedTileSize cursor.nTilesOnDim tilingMode then pure (.inr (.ok cursor))
    else do
      match ← op.leaveTiledDims tilingMode cursor with
      | .error strategy => pure (.inr (.error strategy))
      | .ok cursor => do
        let nTilesOnDim ← op.increaseTiles cursor.dimToTile cursor.nTilesOnDim
        pure (.inl { cursor with nTilesOnDim := nTilesOnDim })

/-- Step 1.1: reduce the tiling scheme on one dimension. -/
def reduceDim (tilingMode : TilingMode) (nTilesOnDim : List ℕ) (reduceDim : ℕ) :
    Looping (List ℕ) := do
  let nTilesOnDim ←
    whileDo (fun n => op.isSupportedTileSize n tilingMode && 1 < tilesOn n reduceDim)
      (op.decreaseTiles reduceDim) nTilesOnDim
  whileDo (fun n => !op.isSupportedTileSize n tilingMode) (op.increaseTiles reduceDim) nTilesOnDim

def getDimsToTile (nTilesOnDim : List ℕ) : List ℕ :=
  (List.range nTilesOnDim.length).filter fun d => 1 < tilesOn nTilesOnDim d

/-- The next aligned tiling number, if there is one before the dimension has all of its tiles. -/
def increaseAligned (targetDim : ℕ) : List ℕ → Looping (Option (List ℕ)) :=
  loop fun n =>
    let n := n.set targetDim (tilesOn n targetDim + 1)
    if ¬op.isDimLeftToTile n targetDim then pure (.inr none)
    else if isSupportedAlignedDivision (op.outputShape.dim targetDim) (tilesOn n targetDim)
      op.dimAlignment then pure (.inr (some n))
    else pure (.inl n)

/-- Step 2: continue to increase. The dimension that is not aligned is the last one of step 1. -/
def pipelineTiling (nTilesOnDim : List ℕ) (targetDim dimToTile : ℕ) :
    Looping (Option (List TileInfo)) :=
  loop (fun prefetchableTilesOnDim =>
    let isolatedTiles := op.fillDividedTiles nTilesOnDim
    if op.isSupportedTileSize prefetchableTilesOnDim .PIPELINING then
      pure (.inr (op.fillDividedTiles prefetchableTilesOnDim))
    else if MAX_PREFETCH_TILING_TIME * tilesOn nTilesOnDim targetDim ≤
        tilesOn prefetchableTilesOnDim targetDim ∨
        ¬op.isDimLeftToTile prefetchableTilesOnDim targetDim then pure (.inr isolatedTiles)
    else if op.isAligned targetDim then do
      match ← op.increaseAligned targetDim prefetchableTilesOnDim with
      | none => pure (.inr isolatedTiles)
      | some n => pure (.inl n)
    else pure (.inl
      (prefetchableTilesOnDim.set dimToTile (tilesOn prefetchableTilesOnDim dimToTile + 1))))
    nTilesOnDim

def getHWLayerTilingStrategyWithTileDimOrder (tilingMode : TilingMode) (tileDimOrder : List ℕ) :
    Looping Strategy :=
  if op.outputShape.length ≠ 4 then pure (.error .unsupportedRank)
  else
    match tileDimOrder with
    | [] => pure (.error .emptyTileDimOrder)
    | dimToTile :: laterDims => do
      let tilingModeToCheck := if tilingMode = .PIPELINING then .ISOLATED else tilingMode
      match ← op.findTiling tilingModeToCheck ⟨op.neutralTiling, dimToTile, laterDims⟩ with
      | .error strategy => pure strategy
      | .ok cursor => do
        let nTilesOnDim ← tileDimOrder.foldlM (op.reduceDim tilingModeToCheck) cursor.nTilesOnDim
        let dimsToTile := getDimsToTile nTilesOnDim
        if tilingMode ≠ .PIPELINING ∨ 1 < dimsToTile.length then
          pure (.ok (op.fillDividedTiles nTilesOnDim))
        else do
          let tiles ← op.pipelineTiling nTilesOnDim (dimsToTile.headD Act.C) cursor.dimToTile
          pure (.ok tiles)

end HWLayerOp

end Vpux.Tiling
