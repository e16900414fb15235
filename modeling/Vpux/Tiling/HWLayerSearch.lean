import Mathlib.Data.Prod.Lex
import Vpux.Tiling.HWLayerSteps

/-! The first step of the search, from one dimension to the next. -/
namespace Vpux.Tiling
open Data Dims4D Looping

structure IsTileDimOrder (tileDimOrder : List ℕ) : Prop where
  ne_nil : tileDimOrder ≠ []
  nodup : tileDimOrder.Nodup
  lt : ∀ d ∈ tileDimOrder, d < 4

namespace HWLayer

variable {layer : HWLayer} {tileDimOrder done : List ℕ} {cursor : DimCursor}

/-- Channels have an aligned tiling number wherever they have tiles left. -/
def ReachesMaxTiles (layer : HWLayer) (tileDimOrder : List ℕ) : Prop :=
  layer.dimAlignment = 1 ∨ dimToAlign ∉ tileDimOrder ∨
    (layer.maxTilesOn dimToAlign : ℤ) ≤ divUp (layer.outputShape.dim dimToAlign) layer.dimAlignment

theorem exists_unskipped (hvalid : layer.IsValid) (hreach : layer.ReachesMaxTiles tileDimOrder)
    {d k : ℕ} (hd : d ∈ tileDimOrder) (hleft : k < layer.maxTilesOn d) :
    ∃ p, k < p ∧ layer.isSkipped d p = false := by
  cases haligned : layer.isAligned d with
  | false => exact ⟨k + 1, Nat.lt_succ_self k, isSkipped_of_not_isAligned haligned _⟩
  | true =>
    obtain ⟨rfl, hne⟩ := of_decide_eq_true haligned
    have hmax := (hreach.resolve_left hne).resolve_left (not_not.mpr hd)
    have hdim : 0 < layer.outputShape.dim dimToAlign := hvalid.dim_pos (by decide)
    have hlast := isSupportedAlignedDivision_divUp hdim hvalid.alignment
    refine ⟨(divUp (layer.outputShape.dim dimToAlign) layer.dimAlignment).toNat, by omega, ?_⟩
    have hcast := Int.toNat_of_nonneg (divUp_pos hdim hvalid.alignment).le
    rw [isSkipped, hcast, hlast, Bool.not_true, Bool.and_false]

/-- Where the first step can stand, with the dimensions that it is done with. -/
structure Stands (layer : HWLayer) (tileDimOrder done : List ℕ) (cursor : DimCursor) : Prop where
  order_eq : tileDimOrder = done ++ cursor.dimToTile :: cursor.laterDims
  counts : layer.IsCounts cursor.nTilesOnDim
  reached : ∀ d, 1 < tilesOn cursor.nTilesOnDim d → d ∈ done ∨ d = cursor.dimToTile
  grown : ∀ d, 1 < tilesOn cursor.nTilesOnDim d → 1 < layer.maxTilesOn d

theorem stands_start (hvalid : layer.IsValid) (dimToTile : ℕ) (laterDims : List ℕ) :
    layer.Stands (dimToTile :: laterDims) []
      ⟨List.replicate layer.outputShape.length 1, dimToTile, laterDims⟩ where
  order_eq := rfl
  counts := hvalid.isCounts_neutral
  reached := by
    intro d hd
    rw [tilesOn_replicate] at hd
    omega
  grown := by
    intro d hd
    rw [tilesOn_replicate] at hd
    omega

namespace Stands

variable (h : layer.Stands tileDimOrder done cursor)
include h

theorem dim_mem : cursor.dimToTile ∈ tileDimOrder := by
  rw [h.order_eq]
  exact List.mem_append_right _ List.mem_cons_self

theorem dim_lt (horder : IsTileDimOrder tileDimOrder) :
    cursor.dimToTile < cursor.nTilesOnDim.length := by
  rw [h.counts.length]
  exact horder.lt _ h.dim_mem

theorem not_mem_done (horder : IsTileDimOrder tileDimOrder) : cursor.dimToTile ∉ done := by
  have hnodup := horder.nodup
  rw [h.order_eq, List.nodup_append] at hnodup
  intro hmem
  exact hnodup.2.2 _ hmem _ List.mem_cons_self rfl

theorem eq_one {d : ℕ} (hdone : d ∉ done) (hd : d ≠ cursor.dimToTile) :
    tilesOn cursor.nTilesOnDim d = 1 := by
  have hpos := h.counts.pos d
  by_contra hne
  rcases h.reached d (by omega) with hmem | heq
  · exact hdone hmem
  · exact hd heq

theorem leave (horder : IsTileDimOrder tileDimOrder) {y dimToTile : ℕ} {laterDims : List ℕ}
    (hpos : 1 ≤ y) (hle : y ≤ tilesOn cursor.nTilesOnDim cursor.dimToTile)
    (hskip : layer.isSkipped cursor.dimToTile y = false)
    (hlater : cursor.laterDims = dimToTile :: laterDims) :
    layer.Stands tileDimOrder (done ++ [cursor.dimToTile])
      ⟨cursor.nTilesOnDim.set cursor.dimToTile y, dimToTile, laterDims⟩ := by
  have hlt := h.dim_lt horder
  constructor
  · rw [h.order_eq, hlater, List.append_assoc, List.singleton_append]
  · exact h.counts.set hpos hskip
  · intro d hd
    by_cases heq : cursor.dimToTile = d
    · exact .inl (List.mem_append_right _ (List.mem_singleton.mpr heq.symm))
    · rw [tilesOn_set_ne heq] at hd
      exact .inl (List.mem_append_left _ ((h.reached d hd).resolve_right (Ne.symm heq)))
  · intro d hd
    by_cases heq : cursor.dimToTile = d
    · subst heq
      rw [tilesOn_set_self hlt] at hd
      exact h.grown _ (by omega)
    · rw [tilesOn_set_ne heq] at hd
      exact h.grown d hd

theorem raise {y : ℕ}
    (hleft : layer.isDimLeftToTile cursor.nTilesOnDim cursor.dimToTile = true)
    (hnext : layer.Next cursor.dimToTile (tilesOn cursor.nTilesOnDim cursor.dimToTile) y) :
    layer.Stands tileDimOrder done
      { cursor with nTilesOnDim := cursor.nTilesOnDim.set cursor.dimToTile y } := by
  have hone := h.counts.pos cursor.dimToTile
  constructor
  · exact h.order_eq
  · exact h.counts.set (by have := hnext.lt; omega) hnext.unskipped
  · intro d hd
    by_cases heq : cursor.dimToTile = d
    · exact .inr heq.symm
    · rw [tilesOn_set_ne heq] at hd
      exact h.reached d hd
  · intro d hd
    by_cases heq : cursor.dimToTile = d
    · subst heq
      have := of_decide_eq_true hleft
      omega
    · rw [tilesOn_set_ne heq] at hd
      exact h.grown d hd

end Stands

end HWLayer

namespace HWLayerOp

variable {op : HWLayerOp} {tilingMode : TilingMode} {tileDimOrder : List ℕ}

/-- What holds each time that the first step checks the tiling, and, of `Leaving`, while it looks
for a dimension with tiles left. -/
structure SearchKeeps (op : HWLayerOp) (tilingMode : TilingMode) (tileDimOrder : List ℕ)
    (Checking Leaving : List ℕ → DimCursor → Prop) : Prop where
  enter : ∀ done cursor, op.Stands tileDimOrder done cursor → Checking done cursor →
    op.isSupportedTileSize cursor.nTilesOnDim tilingMode = false → Leaving done cursor
  leave : ∀ done cursor y dimToTile laterDims, op.Stands tileDimOrder done cursor →
    Leaving done cursor → op.isDimLeftToTile cursor.nTilesOnDim cursor.dimToTile = false →
    op.Restored cursor.dimToTile cursor.nTilesOnDim y →
    cursor.laterDims = dimToTile :: laterDims → Leaving (done ++ [cursor.dimToTile])
      ⟨cursor.nTilesOnDim.set cursor.dimToTile y, dimToTile, laterDims⟩
  raise : ∀ done cursor y, op.Stands tileDimOrder done cursor → Leaving done cursor →
    op.isDimLeftToTile cursor.nTilesOnDim cursor.dimToTile = true →
    op.Next cursor.dimToTile (tilesOn cursor.nTilesOnDim cursor.dimToTile) y →
    Checking done { cursor with nTilesOnDim := cursor.nTilesOnDim.set cursor.dimToTile y }

variable {Checking Leaving : List ℕ → DimCursor → Prop}
  (hvalid : op.IsValid) (horder : IsTileDimOrder tileDimOrder)
  (hkeeps : op.SearchKeeps tilingMode tileDimOrder Checking Leaving)
include hvalid horder hkeeps

def PassedAll (op : HWLayerOp) (tileDimOrder : List ℕ)
    (Leaving : List ℕ → DimCursor → Prop) : Prop :=
  ∃ done cursor, op.Stands tileDimOrder done cursor ∧ Leaving done cursor ∧
    cursor.laterDims = [] ∧ op.isDimLeftToTile cursor.nTilesOnDim cursor.dimToTile = false

theorem leaveTiledDims_ends {done : List ℕ} {cursor : DimCursor}
    (hstands : op.Stands tileDimOrder done cursor) (hleaving : Leaving done cursor) :
    (op.leaveTiledDims tilingMode cursor).Ends fun result =>
      match result with
      | .error strategy => strategy = op.fallBack tilingMode ∧ op.PassedAll tileDimOrder Leaving
      | .ok next => (∃ done, op.Stands tileDimOrder done next ∧ Leaving done next) ∧
        op.isDimLeftToTile next.nTilesOnDim next.dimToTile = true ∧
        (next = cursor ∨ next.laterDims.length < cursor.laterDims.length) := by
  apply ends_loop (I := fun next => (∃ done, op.Stands tileDimOrder done next ∧
    Leaving done next) ∧ (next = cursor ∨ next.laterDims.length < cursor.laterDims.length))
    fun next => next.laterDims.length
  · rintro next ⟨⟨done, hstands, hleaving⟩, hshorter⟩
    cases hleft : op.isDimLeftToTile next.nTilesOnDim next.dimToTile with
    | true =>
      exact ends_pure ⟨⟨done, hstands, hleaving⟩, hleft, hshorter⟩
    | false =>
      refine (restoreMultiCluster_ends hvalid hstands.counts
        (horder.lt _ hstands.dim_mem)).bind ?_
      rintro _ ⟨y, rfl, hy⟩
      cases hlater : next.laterDims with
      | nil => exact ends_pure ⟨rfl, done, next, hstands, hleaving, hlater, hleft⟩
      | cons dimToTile laterDims =>
        apply ends_pure
        have hlength : laterDims.length < next.laterDims.length := by
          rw [hlater]
          exact Nat.lt_succ_self _
        refine ⟨⟨⟨_, hstands.leave horder hy.pos hy.le hy.unskipped hlater,
          hkeeps.leave done next y dimToTile laterDims hstands hleaving hleft hy hlater⟩, ?_⟩, ?_⟩
        · right
          rcases hshorter with rfl | hshorter
          · exact hlength
          · exact hlength.trans hshorter
        · exact Nat.lt_succ_self _
  · exact ⟨⟨done, hstands, hleaving⟩, .inl rfl⟩

/-- The first step ends where aligned tiling numbers reach the maximum. -/
theorem findTiling_ends (hreach : op.ReachesMaxTiles tileDimOrder) {cursor : DimCursor}
    (hstands : op.Stands tileDimOrder [] cursor) (hchecking : Checking [] cursor) :
    (op.findTiling tilingMode cursor).Ends fun result =>
      match result with
      | .error strategy => strategy = op.fallBack tilingMode ∧ op.PassedAll tileDimOrder Leaving
      | .ok found => (∃ done, op.Stands tileDimOrder done found ∧ Checking done found) ∧
        op.isSupportedTileSize found.nTilesOnDim tilingMode = true := by
  apply ends_loop (I := fun next => ∃ done, op.Stands tileDimOrder done next ∧
    Checking done next) fun next => toLex (next.laterDims.length,
      op.maxTilesOn next.dimToTile - tilesOn next.nTilesOnDim next.dimToTile)
  · rintro current ⟨done, hstands, hchecking⟩
    cases hsupp : op.isSupportedTileSize current.nTilesOnDim tilingMode with
    | true =>
      exact ends_pure ⟨⟨done, hstands, hchecking⟩, hsupp⟩
    | false =>
      refine (leaveTiledDims_ends hvalid horder hkeeps hstands
        (hkeeps.enter done current hstands hchecking hsupp)).bind fun result hresult => ?_
      cases result with
      | error strategy => exact ends_pure hresult
      | ok next =>
        obtain ⟨⟨done', hstands', hleaving⟩, hleft, hshorter⟩ := hresult
        have hlt := hstands'.dim_lt horder
        have hmax := of_decide_eq_true hleft
        obtain ⟨p, hp, hskip⟩ := HWLayer.exists_unskipped hvalid hreach hstands'.dim_mem hmax
        refine (HWLayer.increaseTiles_ends hlt hp hskip).bind ?_
        rintro _ ⟨y, rfl, hnext, -⟩
        apply ends_pure
        refine ⟨⟨done', hstands'.raise hleft hnext,
          hkeeps.raise done' next y hstands' hleaving hleft hnext⟩, ?_⟩
        rw [Prod.Lex.toLex_lt_toLex]
        rcases hshorter with rfl | hshorter
        · right
          have := hnext.lt
          dsimp only
          rw [tilesOn_set_self hlt]
          exact ⟨rfl, by omega⟩
        · exact .inl hshorter
  · exact ⟨[], hstands, hchecking⟩

end HWLayerOp

end Vpux.Tiling
