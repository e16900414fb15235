import Vpux.Tiling.HWLayerSearch

/-! The search ends where it pipelines over the dimension that it has tiled last. -/
namespace Vpux.Tiling
open Data Dims4D Looping

section Dims

variable {n : List ℕ} {d : ℕ}

theorem mem_getDimsToTile : d ∈ HWLayerOp.getDimsToTile n ↔ d < n.length ∧ 1 < tilesOn n d := by
  rw [HWLayerOp.getDimsToTile, List.mem_filter, List.mem_range, decide_eq_true_eq]

theorem lt_of_one_lt_tilesOn (h : 1 < tilesOn n d) : d < n.length := by
  by_contra hge
  rw [tilesOn, List.getD_eq_default _ _ (by omega)] at h
  omega

theorem eq_set_neutral (hpos : ∀ e, 1 ≤ tilesOn n e) (hone : ∀ e, e ≠ d → tilesOn n e ≤ 1) :
    n = (List.replicate n.length 1).set d (tilesOn n d) := by
  apply ext_tilesOn
  · rw [List.length_set, List.length_replicate]
  · intro e
    by_cases hd : d < n.length
    · by_cases he : d = e
      · rw [← he, tilesOn_set_self (by rwa [List.length_replicate])]
      · have := hpos e
        have := hone e (Ne.symm he)
        rw [tilesOn_set_ne he, tilesOn_replicate]
        omega
    · rw [List.set_eq_of_length_le (by rw [List.length_replicate]; omega), tilesOn_replicate]
      have := hpos e
      by_contra hne
      have hlt := lt_of_one_lt_tilesOn (show 1 < tilesOn n e by omega)
      exact hne (by have := hone e (by omega); omega)

end Dims

namespace HWLayer

/-- The layer increases the dimension that it looks at when it pipelines: the channels where it
is not tiled at all, else a dimension that is not followed by another one. -/
def PipelinesTiledDim (layer : HWLayer) (tileDimOrder : List ℕ) : Prop :=
  (layer.isAligned dimToAlign = true ∨ tileDimOrder.head? = some dimToAlign ∨
    layer.maxTilesOn dimToAlign ≤ 1) ∧
  ∀ first second last, [first, second, last].Sublist tileDimOrder → 1 < layer.maxTilesOn first →
    2 < layer.maxTilesOn second → 1 < layer.maxTilesOn last → layer.isAligned second = true

end HWLayer

namespace HWLayerOp

variable {op : HWLayerOp} {tilingMode : TilingMode} {tileDimOrder : List ℕ}

/-- The search throws, falls back to the neutral tiling when prefetching, or returns a tiling that
is supported in the mode that was searched for. -/
def Settles (op : HWLayerOp) (tilingMode : TilingMode) (strategy : Strategy) : Prop :=
  strategy = .error .failedToTile ∨
  (tilingMode = .PREFETCHING ∧ strategy = .ok (op.fillDividedTiles op.neutralTiling)) ∨
  ∃ n, strategy = .ok (op.fillDividedTiles n) ∧ (op.isSupportedTileSize n tilingMode = true ∨
    tilingMode = .PIPELINING ∧ op.isSupportedTileSize n .ISOLATED = true)

theorem reduceTiles_ends (hvalid : op.IsValid) (horder : IsTileDimOrder tileDimOrder) {n : List ℕ}
    (hn : op.IsCounts n) (hsupported : op.isSupportedTileSize n tilingMode = true) :
    (tileDimOrder.foldlM (op.reduceDim tilingMode) n).Ends fun n' =>
      op.IsCounts n' ∧ op.isSupportedTileSize n' tilingMode = true ∧
        ∀ d, tilesOn n' d ≤ tilesOn n d := by
  apply ends_foldlM (I := fun _ m => op.IsCounts m ∧
    op.isSupportedTileSize m tilingMode = true ∧ ∀ d, tilesOn m d ≤ tilesOn n d)
  · rintro done d later m horder_eq ⟨hm, hsupp, hle⟩
    have hd : d < 4 := horder.lt d (horder_eq ▸ List.mem_append_right _ List.mem_cons_self)
    refine (reduceDim_ends hvalid hm hd hsupp).mono ?_
    rintro _ ⟨y, rfl, hy⟩
    refine ⟨hm.set hy.pos hy.unskipped, hy.supported, fun e => ?_⟩
    by_cases he : d = e
    · rw [← he, tilesOn_set_self (by rw [hm.length]; exact hd)]
      exact hy.le.trans (hle d)
    · rw [tilesOn_set_ne he]
      exact hle e
  · exact ⟨hn, hsupported, fun _ => le_rfl⟩

variable {done : List ℕ} {cursor : DimCursor}

section Tried

/-- No tiling of one dimension alone, of up to `k` tiles, is supported. -/
def Tried (op : HWLayerOp) (d k : ℕ) : Prop :=
  ∀ y, 1 ≤ y → y ≤ k → op.isSupportedTileSize (op.neutralTiling.set d y) .ISOLATED = false

/-- The dimensions that were tiled alone have been tried. -/
def TriedDone (op : HWLayerOp) (done : List ℕ) (n : List ℕ) : Prop :=
  ∀ before d after, done = before ++ d :: after → (∀ e ∈ before, tilesOn n e = 1) →
    op.isAligned d = false → op.Tried d (op.maxTilesOn d)

def TriedDim (op : HWLayerOp) (done : List ℕ) (cursor : DimCursor) (k : ℕ) : Prop :=
  (∀ e ∈ done, tilesOn cursor.nTilesOnDim e = 1) → op.isAligned cursor.dimToTile = false →
    op.Tried cursor.dimToTile k

def TriedBefore (op : HWLayerOp) (done : List ℕ) (cursor : DimCursor) : Prop :=
  (done = [] ∧ cursor.nTilesOnDim = op.neutralTiling) ∨
  (1 < tilesOn cursor.nTilesOnDim cursor.dimToTile ∧
    op.isSupportedTileSize op.neutralTiling .ISOLATED = false ∧
    op.TriedDone done cursor.nTilesOnDim ∧
    op.TriedDim done cursor (tilesOn cursor.nTilesOnDim cursor.dimToTile - 1))

def TriedSince (op : HWLayerOp) (done : List ℕ) (cursor : DimCursor) : Prop :=
  op.isSupportedTileSize op.neutralTiling .ISOLATED = false ∧
    op.TriedDone done cursor.nTilesOnDim ∧
    op.TriedDim done cursor (tilesOn cursor.nTilesOnDim cursor.dimToTile)

theorem tried_one {d : ℕ} (h : op.isSupportedTileSize op.neutralTiling .ISOLATED = false) :
    op.Tried d 1 := by
  intro y hy hle
  obtain rfl : y = 1 := by omega
  have hset := set_tilesOn op.neutralTiling d
  rw [neutralTiling, tilesOn_replicate] at hset
  rw [neutralTiling, hset]
  exact h

theorem TriedDone.set {done n : List ℕ} (h : op.TriedDone done n) {d : ℕ} (hd : d ∉ done) (y : ℕ) :
    op.TriedDone done (n.set d y) := by
  intro before e after hdone hone
  apply h before e after hdone
  intro x hx
  have hne : d ≠ x := by
    rintro rfl
    exact hd (hdone ▸ List.mem_append_left _ hx)
  rw [← hone x hx, tilesOn_set_ne hne]

theorem triedSince_enter (hvalid : op.IsValid) (hstands : op.Stands tileDimOrder done cursor)
    (h : op.TriedBefore done cursor)
    (hunsupported : op.isSupportedTileSize cursor.nTilesOnDim .ISOLATED = false) :
    op.TriedSince done cursor := by
  rcases h with ⟨rfl, hneutral⟩ | ⟨hone, hneutral, hdone, hdim⟩
  · rw [hneutral] at hunsupported
    refine ⟨hunsupported, ?_, ?_⟩
    · intro before d after hnil
      simp at hnil
    · intro _ _
      rw [hneutral, neutralTiling, tilesOn_replicate]
      exact tried_one hunsupported
  · refine ⟨hneutral, hdone, fun hall haligned y hy hle => ?_⟩
    by_cases hlt : y ≤ tilesOn cursor.nTilesOnDim cursor.dimToTile - 1
    · exact hdim hall haligned y hy hlt
    · obtain rfl : y = tilesOn cursor.nTilesOnDim cursor.dimToTile := by omega
      have heq := eq_set_neutral (d := cursor.dimToTile) hstands.counts.pos fun e he => by
        by_cases hmem : e ∈ done
        · exact (hall e hmem).le
        · exact (hstands.eq_one hmem he).le
      rw [hstands.counts.length, ← hvalid.rank] at heq
      rw [neutralTiling, ← heq]
      exact hunsupported

section

variable (horder : IsTileDimOrder tileDimOrder) (hstands : op.Stands tileDimOrder done cursor)
  (h : op.TriedSince done cursor)
include horder hstands h

theorem triedSince_leave {y dimToTile : ℕ} {laterDims : List ℕ}
    (hleft : op.isDimLeftToTile cursor.nTilesOnDim cursor.dimToTile = false)
    (hlater : cursor.laterDims = dimToTile :: laterDims) :
    op.TriedSince (done ++ [cursor.dimToTile])
      ⟨cursor.nTilesOnDim.set cursor.dimToTile y, dimToTile, laterDims⟩ := by
  obtain ⟨hneutral, hdone, hdim⟩ := h
  have hmem := hstands.not_mem_done horder
  have hset := hdone.set hmem y
  have hmax := of_decide_eq_false hleft
  have hnodup := horder.nodup
  rw [hstands.order_eq, hlater, List.nodup_append, List.nodup_cons] at hnodup
  obtain ⟨-, ⟨hnot, -⟩, hapart⟩ := hnodup
  have hne : cursor.dimToTile ≠ dimToTile := fun heq => hnot (heq ▸ List.mem_cons_self)
  have hfresh : dimToTile ∉ done := fun hd =>
    hapart _ hd _ (List.mem_cons_of_mem _ List.mem_cons_self) rfl
  refine ⟨hneutral, ?_, fun _ _ => ?_⟩
  · intro before d after hsplit hone haligned
    rcases List.eq_nil_or_concat after with rfl | ⟨rest, last, rfl⟩
    · obtain ⟨rfl, hlast⟩ := List.append_inj' hsplit rfl
      obtain rfl := List.singleton_inj.mp hlast
      have hall : ∀ e ∈ done, tilesOn cursor.nTilesOnDim e = 1 := by
        intro e he
        rw [← hone e he, tilesOn_set_ne]
        rintro rfl
        exact hmem he
      intro z hz hle
      exact hdim hall haligned z hz (by omega)
    · rw [List.concat_eq_append, ← List.cons_append, ← List.append_assoc] at hsplit
      exact hset before d rest (List.append_inj' hsplit rfl).1 hone haligned
  · rw [tilesOn_set_ne hne, hstands.eq_one hfresh (Ne.symm hne)]
    exact tried_one hneutral

theorem triedBefore_raise {y : ℕ}
    (hnext : op.Next cursor.dimToTile (tilesOn cursor.nTilesOnDim cursor.dimToTile) y) :
    op.TriedBefore done
      { cursor with nTilesOnDim := cursor.nTilesOnDim.set cursor.dimToTile y } := by
  obtain ⟨hneutral, hdone, hdim⟩ := h
  have hmem := hstands.not_mem_done horder
  have hpos := hstands.counts.pos cursor.dimToTile
  have hlt := hnext.lt
  right
  rw [tilesOn_set_self (hstands.dim_lt horder)]
  refine ⟨by omega, hneutral, hdone.set hmem y, fun hone haligned => ?_⟩
  have hall : ∀ e ∈ done, tilesOn cursor.nTilesOnDim e = 1 := by
    intro e he
    rw [← hone e he, tilesOn_set_ne]
    rintro rfl
    exact hmem he
  obtain rfl := hnext.unique (HWLayer.next_of_not_isAligned haligned _)
  exact hdim hall haligned

end

theorem searchKeeps_tried (hvalid : op.IsValid) (horder : IsTileDimOrder tileDimOrder) :
    op.SearchKeeps .ISOLATED tileDimOrder op.TriedBefore op.TriedSince where
  enter := fun _ _ hstands h hunsupported => triedSince_enter hvalid hstands h hunsupported
  leave := fun _ _ _ _ _ hstands h hleft _ hlater => triedSince_leave horder hstands h hleft hlater
  raise := fun _ _ _ hstands h _ hnext => triedBefore_raise horder hstands h hnext

end Tried

/-- Where the reduced tiling has at most one dimension, pipelining increases it. -/
theorem pipelines_of_tried (hvalid : op.IsValid) (hpipelines : op.PipelinesTiledDim tileDimOrder)
    (hstands : op.Stands tileDimOrder done cursor) (htried : op.TriedBefore done cursor)
    {n : List ℕ} (hn : op.IsCounts n) (hsupported : op.isSupportedTileSize n .ISOLATED = true)
    (hle : ∀ d, tilesOn n d ≤ tilesOn cursor.nTilesOnDim d) (hdims : (getDimsToTile n).length ≤ 1) :
    op.isAligned ((getDimsToTile n).headD Act.C) = true ∨
      cursor.dimToTile = (getDimsToTile n).headD Act.C ∨
      op.maxTilesOn ((getDimsToTile n).headD Act.C) ≤
        tilesOn n ((getDimsToTile n).headD Act.C) := by
  have hrank : n.length = op.outputShape.length := by rw [hn.length, hvalid.rank]
  cases hlist : getDimsToTile n with
  | nil =>
    have hone : ∀ d, tilesOn n d ≤ 1 := by
      intro d
      by_contra hlt
      have hmem := mem_getDimsToTile.mpr ⟨lt_of_one_lt_tilesOn (by omega), not_le.mp hlt⟩
      rw [hlist] at hmem
      cases hmem
    have hneutral : n = op.neutralTiling := by
      apply ext_tilesOn
      · rw [neutralTiling, List.length_replicate, hrank]
      · intro d
        have := hn.pos d
        have := hone d
        rw [neutralTiling, tilesOn_replicate]
        omega
    rcases htried with ⟨rfl, -⟩ | ⟨-, hunsupported, -⟩
    · rcases hpipelines.1 with haligned | hhead | hmax
      · exact .inl haligned
      · rw [hstands.order_eq] at hhead
        exact .inr (.inl (Option.some.inj hhead))
      · exact .inr (.inr (hmax.trans (hn.pos _)))
    · rw [← hneutral, hsupported] at hunsupported
      cases hunsupported
  | cons d rest =>
    rw [hlist, List.length_cons] at hdims
    obtain rfl : rest = [] := List.length_eq_zero_iff.mp (by omega)
    by_contra hnot
    obtain ⟨haligned, hnot⟩ := not_or.mp hnot
    obtain ⟨hne, hmax⟩ := not_or.mp hnot
    dsimp only [List.headD_cons] at haligned hne hmax
    rw [Bool.not_eq_true] at haligned
    have hd : 1 < tilesOn n d := (mem_getDimsToTile.mp (hlist ▸ List.mem_cons_self)).2
    have hmem : d ∈ done :=
      (hstands.reached d (hd.trans_le (hle d))).resolve_right (Ne.symm hne)
    rcases htried with ⟨rfl, -⟩ | ⟨hone, hneutral, hdone, -⟩
    · cases hmem
    · obtain ⟨before, after, rfl⟩ := List.append_of_mem hmem
      have hothers : ∀ e, e ≠ d → tilesOn n e ≤ 1 := by
        intro e he
        by_contra hlt
        have hmem := mem_getDimsToTile.mpr ⟨lt_of_one_lt_tilesOn (by omega), not_le.mp hlt⟩
        rw [hlist, List.mem_singleton] at hmem
        exact he hmem
      by_cases hall : ∀ e ∈ before, tilesOn cursor.nTilesOnDim e = 1
      · have htried := hdone before d after rfl hall haligned (tilesOn n d) (hn.pos d) (by omega)
        have heq := eq_set_neutral (d := d) hn.pos hothers
        rw [hrank] at heq
        rw [neutralTiling, ← heq, hsupported] at htried
        cases htried
      · push Not at hall
        obtain ⟨first, hfirst, hfirstOne⟩ := hall
        have hpos := hstands.counts.pos first
        have hsublist : [first, d, cursor.dimToTile].Sublist tileDimOrder := by
          rw [hstands.order_eq, List.append_assoc]
          refine (List.singleton_sublist.mpr hfirst).append ?_
          apply List.Sublist.cons_cons
          exact List.singleton_sublist.mpr (List.mem_append_right _ List.mem_cons_self)
        have haligned' := hpipelines.2 _ _ _ hsublist (hstands.grown first (by omega)) (by omega)
          (hstands.grown _ hone)
        rw [haligned] at haligned'
        cases haligned'

theorem searchKeeps_true : op.SearchKeeps tilingMode tileDimOrder (fun _ _ => True)
    fun _ _ => True where
  enter _ _ _ _ _ := trivial
  leave _ _ _ _ _ _ _ _ _ _ := trivial
  raise _ _ _ _ _ _ _ := trivial

variable (hvalid : op.IsValid) (horder : IsTileDimOrder tileDimOrder)
  (hreach : op.ReachesMaxTiles tileDimOrder)
include hvalid horder hreach

theorem settles_of_not_pipelining (hmode : tilingMode ≠ .PIPELINING) :
    (op.getHWLayerTilingStrategyWithTileDimOrder tilingMode tileDimOrder).Ends
      (op.Settles tilingMode) := by
  obtain ⟨dimToTile, laterDims, rfl⟩ := List.exists_cons_of_ne_nil horder.ne_nil
  unfold getHWLayerTilingStrategyWithTileDimOrder
  rw [if_neg (not_not.mpr hvalid.rank)]
  rw [if_neg hmode]
  refine (findTiling_ends hvalid horder searchKeeps_true hreach
    (HWLayer.stands_start hvalid dimToTile laterDims) trivial).bind fun result hresult => ?_
  cases result with
  | error strategy =>
    apply ends_pure
    obtain ⟨rfl, -⟩ := hresult
    unfold fallBack
    split
    · exact .inl rfl
    · next hisolated =>
      refine .inr (.inl ⟨?_, rfl⟩)
      cases tilingMode with
      | ISOLATED => exact absurd rfl hisolated
      | PIPELINING => exact absurd rfl hmode
      | PREFETCHING => rfl
  | ok found =>
    obtain ⟨⟨done, hstands, -⟩, hsupported⟩ := hresult
    refine (reduceTiles_ends hvalid horder hstands.counts hsupported).bind ?_
    rintro n ⟨-, hn, -⟩
    rw [if_pos (.inl hmode)]
    exact ends_pure (.inr (.inr ⟨n, rfl, .inl hn⟩))

theorem settles_of_pipelining (hpipelines : op.PipelinesTiledDim tileDimOrder) :
    (op.getHWLayerTilingStrategyWithTileDimOrder .PIPELINING tileDimOrder).Ends
      (op.Settles .PIPELINING) := by
  obtain ⟨dimToTile, laterDims, rfl⟩ := List.exists_cons_of_ne_nil horder.ne_nil
  unfold getHWLayerTilingStrategyWithTileDimOrder
  rw [if_neg (not_not.mpr hvalid.rank)]
  refine (findTiling_ends hvalid horder (searchKeeps_tried hvalid horder) hreach
    (HWLayer.stands_start hvalid dimToTile laterDims) (.inl ⟨rfl, rfl⟩)).bind
    fun result hresult => ?_
  cases result with
  | error strategy =>
    apply ends_pure
    obtain ⟨rfl, -⟩ := hresult
    exact .inl rfl
  | ok found =>
    obtain ⟨⟨done, hstands, htried⟩, hsupported⟩ := hresult
    refine (reduceTiles_ends hvalid horder hstands.counts hsupported).bind ?_
    rintro n ⟨hn, hnsupported, hle⟩
    by_cases hdims : 1 < (getDimsToTile n).length
    · rw [if_pos (.inr hdims)]
      exact ends_pure (.inr (.inr ⟨n, rfl, .inr ⟨rfl, hnsupported⟩⟩))
    · rw [if_neg (not_or.mpr ⟨not_not.mpr rfl, hdims⟩)]
      have htarget : (getDimsToTile n).headD Act.C < n.length := by
        cases hlist : getDimsToTile n with
        | nil =>
          rw [hn.length]
          decide
        | cons d rest =>
          have hmem : d ∈ getDimsToTile n := by
            rw [hlist]
            exact List.mem_cons_self
          exact (mem_getDimsToTile.mp hmem).1
      refine (pipelineTiling_ends htarget (pipelines_of_tried hvalid hpipelines hstands htried hn
        hnsupported hle (not_lt.mp hdims))).bind ?_
      rintro _ (⟨m, rfl, hm⟩ | rfl)
      · exact ends_pure (.inr (.inr ⟨m, rfl, .inl hm⟩))
      · exact ends_pure (.inr (.inr ⟨n, rfl, .inr ⟨rfl, hnsupported⟩⟩))

end HWLayerOp

end Vpux.Tiling
