import Vpux.Tiling.HWLayerStuck

/-! When the search ends for all answers of an operation. -/
namespace Vpux.Tiling
open Data Dims4D Looping

theorem mem_done_of_sublist {α : Type} {order done later : List α} {first second dim : α}
    (hnodup : order.Nodup) (hsublist : [first, second].Sublist order)
    (horder : order = done ++ dim :: later) (hsecond : second ∈ done ∨ second = dim) :
    first ∈ done := by
  subst horder
  obtain ⟨l, l', hsplit, hdone, hlater⟩ := List.sublist_append_iff.mp hsublist
  cases l with
  | cons x l =>
    obtain ⟨rfl, -⟩ := List.cons.inj hsplit
    exact hdone.subset List.mem_cons_self
  | nil =>
    subst hsplit
    obtain ⟨-, hnotmem, hapart⟩ := List.nodup_append.mp hnodup
    have hmem : second ∈ later := by
      rcases List.cons_sublist_cons'.mp hlater with hlater | ⟨-, hlater⟩
      · exact hlater.subset (List.mem_cons_of_mem _ List.mem_cons_self)
      · exact hlater.subset List.mem_cons_self
    rcases hsecond with hsecond | rfl
    · exact absurd rfl (hapart _ hsecond _ (List.mem_cons_of_mem _ hmem))
    · exact absurd hmem (List.nodup_cons.mp hnotmem).1

namespace HWLayerOp

variable {op : HWLayerOp} {tilingMode : TilingMode}

theorem findTiling_of_supported {cursor : DimCursor}
    (h : op.isSupportedTileSize cursor.nTilesOnDim tilingMode = true) :
    (op.findTiling tilingMode cursor).Ends fun result => result = .ok cursor := by
  apply ends_loop (I := fun current => current = cursor) fun _ => 0
  · rintro _ rfl
    rw [if_pos h]
    exact ends_pure rfl
  · rfl

theorem Reduced.eq_one {n : List ℕ} {d y : ℕ} (hvalid : op.IsValid)
    (h : op.Reduced tilingMode d n y) (hall : ∀ z, 1 ≤ z → op.isSkipped d z = false →
      op.isSupportedTileSize (n.set d z) tilingMode = true) : y = 1 := by
  by_contra hne
  have hpos := h.pos
  have hbelow : ∃ k, 1 ≤ y - 1 - k ∧ op.isSkipped d (y - 1 - k) = false := by
    refine ⟨y - 2, by omega, ?_⟩
    rw [show y - 1 - (y - 2) = 1 by omega]
    exact hvalid.isSkipped_one d
  obtain ⟨hone, hskip⟩ := Nat.find_spec hbelow
  have hnext : op.Next d (y - 1 - Nat.find hbelow) y := by
    refine ⟨by omega, h.unskipped, fun z hz hzy => ?_⟩
    have hmin := Nat.find_min hbelow (show y - 1 - z < Nat.find hbelow by omega)
    rw [show y - 1 - (y - 1 - z) = z by omega] at hmin
    simpa using fun hfalse => hmin ⟨by omega, hfalse⟩
  have hleast := h.least _ hone hskip hnext
  rw [hall _ hone hskip] at hleast
  cases hleast

end HWLayerOp

namespace HWLayer

variable {layer : HWLayer} {tileDimOrder : List ℕ}

open HWLayerOp

section Untiled

/-- Supports every tiling that is not pipelined. -/
def neverPipelines (layer : HWLayer) : HWLayerOp :=
  layer.answering (fun _ => true) fun _ tilingMode => tilingMode = .ISOLATED

/-- The layer need not be tiled, and the first dimension is not the channels. -/
theorem neverPipelines_not_returns (hvalid : layer.IsValid) (horder : IsTileDimOrder tileDimOrder)
    (haligned : layer.isAligned dimToAlign = false)
    (hhead : tileDimOrder.head? ≠ some dimToAlign) (hmax : 1 < layer.maxTilesOn dimToAlign)
    (strategy : Strategy) : ¬(layer.neverPipelines.getHWLayerTilingStrategyWithTileDimOrder
      .PIPELINING tileDimOrder).Returns strategy := by
  obtain ⟨dimToTile, laterDims, rfl⟩ := List.exists_cons_of_ne_nil horder.ne_nil
  have hneutral : layer.IsCounts layer.neverPipelines.neutralTiling := hvalid.isCounts_neutral
  have hsupported : layer.neverPipelines.isSupportedTileSize
      layer.neverPipelines.neutralTiling .ISOLATED = true :=
    isSupportedTileSize_answering hvalid hneutral .ISOLATED
  have hunsupported : ∀ m, layer.neverPipelines.isSupportedTileSize m .PIPELINING = false :=
    isSupportedTileSize_of_never fun _ => rfl
  apply search_not_returns_of_pipelining hvalid.rank
  refine (findTiling_of_supported hsupported).mono ?_
  rintro _ rfl
  refine ⟨_, rfl, (reduceTiles_ends hvalid horder hneutral hsupported).mono ?_⟩
  rintro n ⟨hn, -, hle⟩
  have hone : ∀ d, tilesOn n d ≤ 1 := by
    intro d
    have := hle d
    rwa [neutralTiling, tilesOn_replicate] at this
  have hdims : getDimsToTile n = [] := by
    apply List.eq_nil_iff_forall_not_mem.mpr
    intro d hd
    have := (mem_getDimsToTile.mp hd).2
    have := hone d
    omega
  rw [hdims]
  refine ⟨Nat.zero_le 1, ?_⟩
  apply pipelineTiling_not_returns hunsupported haligned _ (hn.pos _)
  · exact (hone _).trans_lt hmax
  · exact fun heq => hhead (congrArg some heq)

end Untiled

section Nested

/-- Tiles only the given dimensions, the second of them always, the first not alone with it. -/
def tilesSecond (layer : HWLayer) (first second last : ℕ) : HWLayerOp :=
  layer.answering
    (fun n => (List.range 4).all fun d => d ∈ [first, second, last] ∨ tilesOn n d = 1)
    fun n tilingMode => tilingMode = .ISOLATED ∧ 1 < tilesOn n second ∧
      (1 < tilesOn n last ∨ tilesOn n first = 1)

variable {first second last : ℕ} {n : List ℕ}

theorem compatible_tilesSecond (hvalid : layer.IsValid) (hn : layer.IsCounts n) :
    (layer.tilesSecond first second last).isMultiClusterCompatible n = true ↔
      ∀ d < 4, d ∈ [first, second, last] ∨ tilesOn n d = 1 := by
  rw [tilesSecond, isMultiClusterCompatible_answering hvalid hn]
  simp

theorem supported_tilesSecond (hvalid : layer.IsValid) (hn : layer.IsCounts n) :
    (layer.tilesSecond first second last).isSupportedTileSize n .ISOLATED = true ↔
      (∀ d < 4, d ∈ [first, second, last] ∨ tilesOn n d = 1) ∧ 1 < tilesOn n second ∧
        (1 < tilesOn n last ∨ tilesOn n first = 1) := by
  rw [tilesSecond, isSupportedTileSize_answering hvalid hn]
  simp

/-- Step 1 tiles the first two dimensions as far as they can be, and others not at all. -/
structure TilesInOrder (first second last : ℕ) (done : List ℕ) (cursor : DimCursor) : Prop where
  others : ∀ d ∈ done, d ∉ [first, second, last] → tilesOn cursor.nTilesOnDim d = 1
  first : first ∈ done → 1 < tilesOn cursor.nTilesOnDim first
  second : second ∈ done → 1 < tilesOn cursor.nTilesOnDim second
  last : last ∉ done

/-- A dimension that is looked at with more than one tile has not been supported. -/
def TilesLeaving (op : HWLayerOp) (first second last : ℕ) (done : List ℕ) (cursor : DimCursor) :
    Prop :=
  TilesInOrder first second last done cursor ∧
    (op.isSupportedTileSize cursor.nTilesOnDim .ISOLATED = false ∨
      tilesOn cursor.nTilesOnDim cursor.dimToTile = 1)

variable (hvalid : layer.IsValid) (horder : IsTileDimOrder tileDimOrder)
  (hsublist : [first, second, last].Sublist tileDimOrder)
  (hfirst : 1 < layer.maxTilesOn first) (hsecond : 2 < layer.maxTilesOn second)
  (hlast : 1 < layer.maxTilesOn last)

section Search

variable {done : List ℕ} {cursor : DimCursor}
  (hstands : layer.Stands tileDimOrder done cursor)

theorem TilesInOrder.others_eq_one (h : TilesInOrder first second last done cursor)
    (hstands : layer.Stands tileDimOrder done cursor)
    (hdim : cursor.dimToTile ∈ [first, second, last] ∨
      tilesOn cursor.nTilesOnDim cursor.dimToTile = 1) :
    ∀ d < 4, d ∈ [first, second, last] ∨ tilesOn cursor.nTilesOnDim d = 1 := by
  intro d _
  by_cases hmem : d ∈ [first, second, last]
  · exact .inl hmem
  · right
    by_cases hd : d ∈ done
    · exact h.others d hd hmem
    · by_cases heq : d = cursor.dimToTile
      · subst heq
        exact hdim.resolve_left hmem
      · exact hstands.eq_one hd heq

include hvalid horder hsublist hstands hlast in
theorem TilesLeaving.ne (h : TilesLeaving (layer.tilesSecond first second last) first second last
      done cursor)
    (hleft : layer.isDimLeftToTile cursor.nTilesOnDim cursor.dimToTile = false) :
    cursor.dimToTile ≠ last := by
  intro heq
  have hmax := of_decide_eq_false hleft
  obtain ⟨hinorder, hunsupported⟩ := h
  have hmem : second ∈ done := by
    refine mem_done_of_sublist horder.nodup ?_ hstands.order_eq (.inr heq.symm)
    exact (List.sublist_cons_self _ _).trans hsublist
  have hlastTiles : 1 < tilesOn cursor.nTilesOnDim last := by
    rw [heq] at hmax
    omega
  have hsupported : (layer.tilesSecond first second last).isSupportedTileSize
      cursor.nTilesOnDim .ISOLATED = true :=
    (supported_tilesSecond hvalid hstands.counts).mpr
      ⟨hinorder.others_eq_one hstands (.inl (by simp [heq])), hinorder.second hmem, .inl hlastTiles⟩
  rcases hunsupported with hfalse | hone
  · rw [hsupported] at hfalse
    cases hfalse
  · rw [heq] at hone hmax
    omega

include hvalid horder hsublist hfirst hsecond hlast in
theorem searchKeeps_tilesSecond :
    (layer.tilesSecond first second last).SearchKeeps .ISOLATED tileDimOrder
      (TilesInOrder first second last)
      (TilesLeaving (layer.tilesSecond first second last) first second last) where
  enter := fun _ _ _ h hunsupported => ⟨h, .inl hunsupported⟩
  leave := by
    intro done cursor y dimToTile laterDims hstands h hleft hy hlater
    have hne := h.ne hvalid horder hsublist hlast hstands hleft
    have hmem := hstands.not_mem_done horder
    have hlt := hstands.dim_lt horder
    have hmax : ¬tilesOn cursor.nTilesOnDim cursor.dimToTile < layer.maxTilesOn cursor.dimToTile :=
      of_decide_eq_false hleft
    have hcounts : layer.IsCounts (cursor.nTilesOnDim.set cursor.dimToTile y) :=
      hstands.counts.set hy.pos hy.unskipped
    have hkept : cursor.dimToTile ∈ [first, second, last] →
        y = tilesOn cursor.nTilesOnDim cursor.dimToTile := fun hdim =>
      hy.kept ((compatible_tilesSecond hvalid hstands.counts).mpr
        (h.1.others_eq_one hstands (.inl hdim)))
    have hdone : ∀ d ∈ done, tilesOn (cursor.nTilesOnDim.set cursor.dimToTile y) d =
        tilesOn cursor.nTilesOnDim d := by
      intro d hd
      apply tilesOn_set_ne
      rintro rfl
      exact hmem hd
    refine ⟨⟨?_, ?_, ?_, ?_⟩, .inr ?_⟩
    · intro d hd hothers
      rcases List.mem_append.mp hd with hd | hd
      · rw [hdone d hd]
        exact h.1.others d hd hothers
      · obtain rfl := List.mem_singleton.mp hd
        rcases hy.compatible with rfl | hcompatible
        · exact tilesOn_set_self hlt 1
        · exact ((compatible_tilesSecond hvalid hcounts).mp hcompatible _
            (horder.lt _ hstands.dim_mem)).resolve_left hothers
    · intro hd
      rcases List.mem_append.mp hd with hd | hd
      · rw [hdone _ hd]
        exact h.1.first hd
      · obtain rfl := List.mem_singleton.mp hd
        dsimp only
        rw [tilesOn_set_self hlt, hkept (by simp)]
        omega
    · intro hd
      rcases List.mem_append.mp hd with hd | hd
      · rw [hdone _ hd]
        exact h.1.second hd
      · obtain rfl := List.mem_singleton.mp hd
        dsimp only
        rw [tilesOn_set_self hlt, hkept (by simp)]
        omega
    · rw [List.mem_append, List.mem_singleton, not_or]
      exact ⟨h.1.last, Ne.symm hne⟩
    · have hstands' := hstands.leave horder hy.pos hy.le hy.unskipped hlater
      have hnodup := horder.nodup
      rw [hstands.order_eq, hlater, List.nodup_append, List.nodup_cons] at hnodup
      obtain ⟨-, ⟨hnot, -⟩, hapart⟩ := hnodup
      have hfresh : dimToTile ∉ done := fun hd =>
        hapart _ hd _ (List.mem_cons_of_mem _ List.mem_cons_self) rfl
      have hnext : cursor.dimToTile ≠ dimToTile := fun heq => hnot (heq ▸ List.mem_cons_self)
      dsimp only
      rw [tilesOn_set_ne hnext]
      exact hstands.eq_one hfresh (Ne.symm hnext)
  raise := by
    intro done cursor y hstands h _ _
    have hdone : ∀ d ∈ done, tilesOn (cursor.nTilesOnDim.set cursor.dimToTile y) d =
        tilesOn cursor.nTilesOnDim d := by
      intro d hd
      apply tilesOn_set_ne
      rintro rfl
      exact hstands.not_mem_done horder hd
    constructor
    · intro d hd hothers
      rw [hdone d hd]
      exact h.1.others d hd hothers
    · intro hd
      rw [hdone _ hd]
      exact h.1.first hd
    · intro hd
      rw [hdone _ hd]
      exact h.1.second hd
    · exact h.1.last

end Search

include hvalid horder hsublist hfirst hsecond hlast

theorem findTiling_tilesSecond (hreach : layer.ReachesMaxTiles tileDimOrder) {cursor : DimCursor}
    (hstands : layer.Stands tileDimOrder [] cursor) :
    ((layer.tilesSecond first second last).findTiling .ISOLATED cursor).Ends fun result =>
      ∃ found, result = .ok found ∧ layer.IsCounts found.nTilesOnDim ∧
        (layer.tilesSecond first second last).isSupportedTileSize found.nTilesOnDim .ISOLATED =
          true ∧ 1 < tilesOn found.nTilesOnDim last ∧ found.dimToTile = last := by
  have hkeeps := searchKeeps_tilesSecond hvalid horder hsublist hfirst hsecond hlast
  refine Ends.mono (c := (layer.tilesSecond first second last).findTiling .ISOLATED cursor)
    (findTiling_ends hvalid horder hkeeps hreach hstands
      ⟨?_, ?_, ?_, List.not_mem_nil⟩) ?_
  · intro d hd
    cases hd
  · intro hd
    cases hd
  · intro hd
    cases hd
  · intro result hresult
    cases result with
    | error strategy =>
      obtain ⟨-, done, passed, hpassed, hleaving, hlater, hleft⟩ := hresult
      have hne := hleaving.ne hvalid horder hsublist hlast hpassed hleft
      have hmem : last ∈ tileDimOrder := hsublist.subset (by simp)
      rw [hpassed.order_eq, hlater, List.mem_append, List.mem_singleton] at hmem
      exact absurd (hmem.resolve_left hleaving.1.last).symm hne
    | ok found =>
      obtain ⟨⟨done, hfound, hinorder⟩, hsupported⟩ := hresult
      obtain ⟨-, hsecondTiles, hcases⟩ :=
        (supported_tilesSecond hvalid hfound.counts).mp hsupported
      have hfirstDone : first ∈ done := by
        refine mem_done_of_sublist horder.nodup ?_ hfound.order_eq
          (hfound.reached second hsecondTiles)
        exact (List.sublist_append_left [first, second] [last]).trans hsublist
      have hfirstTiles := hinorder.first hfirstDone
      have hlastTiles := hcases.resolve_right (by omega)
      exact ⟨found, rfl, hfound.counts, hsupported, hlastTiles,
        ((hfound.reached last hlastTiles).resolve_left hinorder.last).symm⟩

omit hfirst hsecond hlast in
theorem reduceTiles_tilesSecond (haligned : layer.isAligned second = false)
    (hn : layer.IsCounts n)
    (hsupported : (layer.tilesSecond first second last).isSupportedTileSize n .ISOLATED = true)
    (hlastTiles : 1 < tilesOn n last) :
    (tileDimOrder.foldlM ((layer.tilesSecond first second last).reduceDim .ISOLATED) n).Ends
      fun n' => layer.IsCounts n' ∧ tilesOn n' second = 2 ∧ ∀ d ≠ second, tilesOn n' d = 1 := by
  have hdistinct := hsublist.nodup horder.nodup
  simp only [List.nodup_cons, List.mem_cons, List.not_mem_nil, or_false, not_or] at hdistinct
  obtain ⟨⟨hfs, hfl⟩, hsl, -⟩ := hdistinct
  have hsupp : ∀ {m : List ℕ}, layer.IsCounts m →
      ((layer.tilesSecond first second last).isSupportedTileSize m .ISOLATED = true ↔
        (∀ d < 4, d ∈ [first, second, last] ∨ tilesOn m d = 1) ∧ 1 < tilesOn m second ∧
          (1 < tilesOn m last ∨ tilesOn m first = 1)) :=
    fun hm => supported_tilesSecond hvalid hm
  refine (ends_foldlM (I := fun done m => layer.IsCounts m ∧
    (layer.tilesSecond first second last).isSupportedTileSize m .ISOLATED = true ∧
    (last ∉ done → 1 < tilesOn m last) ∧ (first ∈ done → tilesOn m first = 1) ∧
    (second ∈ done → tilesOn m second = 2) ∧ (last ∈ done → tilesOn m last = 1)) ?_ ?_).mono ?_
  · rintro done d later m horder_eq ⟨hm, hmsupp, hnotlast, hdfirst, hdsecond, hdlast⟩
    have hd : d < 4 := horder.lt d (horder_eq ▸ List.mem_append_right _ List.mem_cons_self)
    have hlt : d < m.length := by rw [hm.length]; exact hd
    have hmem : d ∉ done := by
      have hnodup := horder.nodup
      rw [horder_eq, List.nodup_append] at hnodup
      exact fun hdone => hnodup.2.2 _ hdone _ List.mem_cons_self rfl
    obtain ⟨hothers, hmsecond, hmcases⟩ := (hsupp hm).mp hmsupp
    have hothersSet : ∀ z, d ∈ [first, second, last] →
        ∀ e < 4, e ∈ [first, second, last] ∨ tilesOn (m.set d z) e = 1 := by
      intro z hin e he
      by_cases heq : d = e
      · exact .inl (heq ▸ hin)
      · rw [tilesOn_set_ne heq]
        exact hothers e he
    refine Ends.mono (c := (layer.tilesSecond first second last).reduceDim .ISOLATED m d)
      (reduceDim_ends hvalid hm hd hmsupp) ?_
    rintro _ ⟨y, rfl, hy⟩
    have hkept : ∀ e ∈ done, tilesOn (m.set d y) e = tilesOn m e := by
      intro e he
      apply tilesOn_set_ne
      rintro rfl
      exact hmem he
    refine ⟨hm.set hy.pos hy.unskipped, hy.supported, fun hlast => ?_, fun hin => ?_,
      fun hin => ?_, fun hin => ?_⟩
    · rw [List.mem_append, List.mem_singleton, not_or] at hlast
      rw [tilesOn_set_ne (Ne.symm hlast.2)]
      exact hnotlast hlast.1
    · rcases List.mem_append.mp hin with hin | hin
      · rw [hkept _ hin]
        exact hdfirst hin
      · obtain rfl := List.mem_singleton.mp hin
        rw [tilesOn_set_self hlt]
        have hlastDone : last ∉ done := fun hdone => hmem <|
          mem_done_of_sublist horder.nodup
            ((by simp : [first, last].Sublist [first, second, last]).trans hsublist) horder_eq
              (.inl hdone)
        refine hy.eq_one hvalid fun z hz hskip => (hsupp (hm.set hz hskip)).mpr ?_
        rw [tilesOn_set_ne hfs, tilesOn_set_ne hfl]
        exact ⟨hothersSet z (by simp), hmsecond, .inl (hnotlast hlastDone)⟩
    · rcases List.mem_append.mp hin with hin | hin
      · rw [hkept _ hin]
        exact hdsecond hin
      · obtain rfl := List.mem_singleton.mp hin
        rw [tilesOn_set_self hlt]
        obtain ⟨-, hysecond, -⟩ := (hsupp (hm.set hy.pos hy.unskipped)).mp hy.supported
        rw [tilesOn_set_self hlt] at hysecond
        by_contra hne
        have hskip : layer.isSkipped second (y - 1) = false :=
          isSkipped_of_not_isAligned haligned _
        have hnext : layer.Next second (y - 1) y := by
          have hnext := next_of_not_isAligned haligned (y - 1)
          rwa [Nat.sub_add_cancel hy.pos] at hnext
        have hleast := hy.least (y - 1) (by omega) hskip hnext
        have hbelow := (hsupp (hm.set (show 1 ≤ y - 1 by omega) hskip)).mpr (by
          rw [tilesOn_set_self hlt, tilesOn_set_ne hsl, tilesOn_set_ne (Ne.symm hfs)]
          exact ⟨hothersSet _ (by simp), by omega, hmcases⟩)
        rw [hbelow] at hleast
        cases hleast
    · rcases List.mem_append.mp hin with hin | hin
      · rw [hkept _ hin]
        exact hdlast hin
      · obtain rfl := List.mem_singleton.mp hin
        rw [tilesOn_set_self hlt]
        have hfirstDone : first ∈ done :=
          mem_done_of_sublist horder.nodup
            ((by simp : [first, last].Sublist [first, second, last]).trans hsublist) horder_eq
              (.inr rfl)
        refine hy.eq_one hvalid fun z hz hskip => (hsupp (hm.set hz hskip)).mpr ?_
        rw [tilesOn_set_ne (Ne.symm hsl), tilesOn_set_ne (Ne.symm hfl)]
        exact ⟨hothersSet z (by simp), hmsecond, .inr (hdfirst hfirstDone)⟩
  · exact ⟨hn, hsupported, fun _ => hlastTiles, by simp, by simp, by simp⟩
  · rintro m ⟨hm, hmsupp, -, hmfirst, hmsecond, hmlast⟩
    refine ⟨hm, hmsecond (hsublist.subset (by simp)), fun d hd => ?_⟩
    by_cases hfirst : d = first
    · rw [hfirst]
      exact hmfirst (hsublist.subset (by simp))
    · by_cases hlast : d = last
      · rw [hlast]
        exact hmlast (hsublist.subset (by simp))
      · by_cases hlt : d < 4
        · exact (((hsupp hm).mp hmsupp).1 d hlt).resolve_left (by simp [hfirst, hd, hlast])
        · rw [tilesOn, List.getD_eq_default _ _ (by rw [hm.length]; omega)]

/-- The first step stops at the last dimension, and pipelining looks at the second. -/
theorem tilesSecond_not_returns (hreach : layer.ReachesMaxTiles tileDimOrder)
    (haligned : layer.isAligned second = false) (strategy : Strategy) :
    ¬((layer.tilesSecond first second last).getHWLayerTilingStrategyWithTileDimOrder
      .PIPELINING tileDimOrder).Returns strategy := by
  obtain ⟨dimToTile, laterDims, rfl⟩ := List.exists_cons_of_ne_nil horder.ne_nil
  have hlt : second < 4 := horder.lt second (hsublist.subset (by simp))
  have hne : last ≠ second := by
    have hdistinct := hsublist.nodup horder.nodup
    simp only [List.nodup_cons, List.mem_cons, List.not_mem_nil, or_false, not_or] at hdistinct
    exact Ne.symm hdistinct.2.1
  have hunsupported :
      ∀ m, (layer.tilesSecond first second last).isSupportedTileSize m .PIPELINING = false :=
    isSupportedTileSize_of_never fun _ => by simp
  apply search_not_returns_of_pipelining hvalid.rank
  refine (findTiling_tilesSecond hvalid horder hsublist hfirst hsecond hlast hreach
    (stands_start hvalid dimToTile laterDims)).mono ?_
  rintro _ ⟨found, rfl, hfound, hsupported, hlastTiles, hdim⟩
  refine ⟨found, rfl, (reduceTiles_tilesSecond hvalid horder hsublist haligned hfound hsupported
    hlastTiles).mono ?_⟩
  rintro n ⟨hn, htwo, hone⟩
  have hdims : getDimsToTile n = [second] := by
    have hfilter : getDimsToTile n = (List.range 4).filter fun d => d = second := by
      unfold getDimsToTile
      rw [hn.length]
      apply List.filter_congr
      intro d _
      by_cases heq : d = second
      · simp [heq, htwo]
      · simp [heq, hone d heq]
    have hsingle : ∀ e < 4, (List.range 4).filter (fun d => d = e) = [e] := by decide
    exact hfilter.trans (hsingle second hlt)
  rw [hdims, hdim]
  refine ⟨le_rfl, pipelineTiling_not_returns hunsupported haligned hne (hn.pos second) ?_⟩
  rw [List.headD_cons, htwo]
  exact hsecond

end Nested

/-- The search ends for all answers of an operation, with a supported tiling, exactly when the
aligned tiling numbers of the channels reach their maximum, and when, for pipelining, the layer
increases the dimension that it looks at. -/
theorem getHWLayerTilingStrategyWithTileDimOrder_settles_iff (layer : HWLayer)
    (hvalid : layer.IsValid) (tileDimOrder : List ℕ) (horder : IsTileDimOrder tileDimOrder)
    (tilingMode : TilingMode) :
    (∀ op : HWLayerOp, op.toHWLayer = layer →
      (op.getHWLayerTilingStrategyWithTileDimOrder tilingMode tileDimOrder).Ends
        (op.Settles tilingMode)) ↔
      layer.ReachesMaxTiles tileDimOrder ∧
        (tilingMode = .PIPELINING → layer.PipelinesTiledDim tileDimOrder) := by
  constructor
  · intro hall
    have hreach : layer.ReachesMaxTiles tileDimOrder := by
      by_contra hstuck
      obtain ⟨strategy, hstrategy, -⟩ := hall (layer.answering (fun _ => true) fun _ _ => false) rfl
      exact HWLayerOp.search_not_returns_of_unsupported hvalid horder hstuck
        (fun n mode => isSupportedTileSize_of_never (fun _ => rfl) n) tilingMode strategy hstrategy
    refine ⟨hreach, fun hmode => ⟨?_, ?_⟩⟩
    · subst hmode
      by_contra hnot
      obtain ⟨haligned, hnot⟩ := not_or.mp hnot
      obtain ⟨hhead, hmax⟩ := not_or.mp hnot
      rw [Bool.not_eq_true] at haligned
      obtain ⟨strategy, hstrategy, -⟩ := hall layer.neverPipelines rfl
      exact neverPipelines_not_returns hvalid horder haligned hhead (not_le.mp hmax) strategy
        hstrategy
    · subst hmode
      intro first second last hsublist hfirst hsecond hlast
      by_contra haligned
      rw [Bool.not_eq_true] at haligned
      obtain ⟨strategy, hstrategy, -⟩ := hall (layer.tilesSecond first second last) rfl
      exact tilesSecond_not_returns hvalid horder hsublist hfirst hsecond hlast hreach haligned
        strategy hstrategy
  · rintro ⟨hreach, hpipelines⟩ op rfl
    by_cases hmode : tilingMode = .PIPELINING
    · subst hmode
      exact HWLayerOp.settles_of_pipelining hvalid horder hreach (hpipelines rfl)
    · exact HWLayerOp.settles_of_not_pipelining hvalid horder hreach hmode

/-- A convolution with two aligned tiles of its channels, and eight tiles of its plane. -/
def smallConvolution : HWLayer := ⟨[1, 32, 8, 8], some 16, [1, 2, 8, 8]⟩

theorem smallConvolution_isValid : smallConvolution.IsValid where
  rank := rfl
  positive := by decide
  alignment := by decide

/-- Over channels and height only, pipelining has no third dimension to increase. -/
theorem smallConvolution_settles :
    ((smallConvolution.tilesSecond Act.C Act.H Act.W).getHWLayerTilingStrategyWithTileDimOrder
      .PIPELINING [Act.C, Act.H]).Ends
      ((smallConvolution.tilesSecond Act.C Act.H Act.W).Settles .PIPELINING) := by
  refine (getHWLayerTilingStrategyWithTileDimOrder_settles_iff smallConvolution
    smallConvolution_isValid [Act.C, Act.H] ⟨by decide, by decide, by decide⟩ .PIPELINING).mpr
    ⟨.inr (.inr (by decide)), fun _ => ⟨.inl (by decide), ?_⟩⟩ _ rfl
  intro first second last hsublist
  exact absurd hsublist.length_le (by decide : ¬3 ≤ 2)

/-- Over channels, height and width, the width is increased forever to pipeline over height. -/
theorem smallConvolution_not_settles :
    smallConvolution.IsValid ∧ IsTileDimOrder [Act.C, Act.H, Act.W] ∧
      ¬((smallConvolution.tilesSecond Act.C Act.H Act.W).getHWLayerTilingStrategyWithTileDimOrder
        .PIPELINING [Act.C, Act.H, Act.W]).Ends
        ((smallConvolution.tilesSecond Act.C Act.H Act.W).Settles .PIPELINING) := by
  have horder : IsTileDimOrder [Act.C, Act.H, Act.W] := ⟨by decide, by decide, by decide⟩
  refine ⟨smallConvolution_isValid, horder, ?_⟩
  rintro ⟨strategy, hstrategy, -⟩
  exact tilesSecond_not_returns smallConvolution_isValid horder (List.Sublist.refl _) (by decide)
    (by decide) (by decide) (.inr (.inr (by decide))) (by decide) strategy hstrategy

end HWLayer

end Vpux.Tiling
