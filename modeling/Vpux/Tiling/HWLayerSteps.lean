import Vpux.Tiling.HWLayer

/-! What the loops over the tiles of one dimension do. -/
namespace Vpux.Tiling
open Data Dims4D Looping

section Counts

variable {n m : List ℕ} {d e k : ℕ}

theorem tilesOn_set_self (h : d < n.length) (k : ℕ) : tilesOn (n.set d k) d = k := by
  rw [tilesOn, List.getD_eq_getElem?_getD, List.getElem?_set_self h, Option.getD_some]

theorem tilesOn_set_ne (h : d ≠ e) (k : ℕ) : tilesOn (n.set d k) e = tilesOn n e := by
  rw [tilesOn, tilesOn, List.getD_eq_getElem?_getD, List.getElem?_set_ne h,
    List.getD_eq_getElem?_getD]

theorem ext_tilesOn (hlength : n.length = m.length) (h : ∀ d, tilesOn n d = tilesOn m d) :
    n = m := by
  apply List.ext_getElem hlength
  intro d hn hm
  have hd := h d
  rwa [tilesOn, tilesOn, List.getD_eq_getElem _ _ hn, List.getD_eq_getElem _ _ hm] at hd

theorem set_tilesOn (n : List ℕ) (d : ℕ) : n.set d (tilesOn n d) = n := by
  apply ext_tilesOn List.length_set
  intro e
  by_cases hd : d < n.length
  · by_cases he : d = e
    · subst he
      exact tilesOn_set_self hd _
    · exact tilesOn_set_ne he _
  · rw [List.set_eq_of_length_le (by omega)]

theorem tilesOn_replicate (rank d : ℕ) : tilesOn (List.replicate rank 1) d = 1 := by
  rw [tilesOn, List.getD_eq_getElem?_getD, List.getElem?_replicate]
  split <;> rfl

end Counts

section Alignment

variable {dimSize alignment : ℤ}

theorem alignValUp_eq {val : ℤ} (hval : 0 ≤ val) (halign : 0 < alignment) :
    alignValUp val alignment = (val + (alignment - 1)) / alignment * alignment := by
  rw [alignValUp, if_pos hval, one_mul, Int.tdiv_eq_ediv_of_nonneg (by omega)]

theorem isSupportedAlignedDivision_iff {tiles : ℤ} : isSupportedAlignedDivision dimSize tiles
    alignment = true ↔ alignValUp (divUp dimSize tiles) alignment * (tiles - 1) < dimSize := by
  unfold isSupportedAlignedDivision
  simp only [decide_eq_true_eq]
  omega

variable (hdim : 0 < dimSize) (halign : 0 < alignment)
include hdim

theorem isSupportedAlignedDivision_one (alignment : ℤ) :
    isSupportedAlignedDivision dimSize 1 alignment = true := by
  rw [isSupportedAlignedDivision_iff]
  simpa using hdim

include halign

theorem le_divUp_of_isSupportedAlignedDivision {tiles : ℤ} (htiles : 1 ≤ tiles)
    (h : isSupportedAlignedDivision dimSize tiles alignment = true) :
    tiles ≤ divUp dimSize alignment := by
  rw [isSupportedAlignedDivision_iff, alignValUp_eq (divUp_pos hdim (by omega)).le halign] at h
  have hbase := divUp_pos hdim (show 0 < tiles by omega)
  have hone : 1 ≤ (divUp dimSize tiles + (alignment - 1)) / alignment :=
    (Int.le_ediv_iff_mul_le halign).mpr (by omega)
  rw [divUp, Int.tdiv_eq_ediv_of_nonneg (by omega), Int.le_ediv_iff_mul_le halign]
  nlinarith

theorem isSupportedAlignedDivision_divUp :
    isSupportedAlignedDivision dimSize (divUp dimSize alignment) alignment = true := by
  have htiles := divUp_pos hdim halign
  rw [isSupportedAlignedDivision_iff, alignValUp_eq (divUp_pos hdim htiles).le halign]
  have hcover : dimSize ≤ alignment * divUp dimSize alignment := by
    have hdiv := Int.lt_ediv_add_one_mul_self (dimSize + alignment - 1) halign
    rw [divUp, Int.tdiv_eq_ediv_of_nonneg (by omega)]
    nlinarith
  have hbase : divUp dimSize (divUp dimSize alignment) ≤ alignment := by
    nth_rewrite 1 [divUp]
    rw [Int.tdiv_eq_ediv_of_nonneg (by omega), ← Int.lt_add_one_iff, Int.ediv_lt_iff_lt_mul htiles]
    nlinarith
  have hone : (divUp dimSize (divUp dimSize alignment) + (alignment - 1)) / alignment = 1 := by
    have hpos := divUp_pos hdim htiles
    rw [Int.ediv_eq_iff_of_pos halign]
    omega
  have hlast : alignment * (divUp dimSize alignment - 1) < dimSize := by
    have hdiv := Int.ediv_mul_le (dimSize + alignment - 1) (by omega : alignment ≠ 0)
    rw [divUp, Int.tdiv_eq_ediv_of_nonneg (by omega)]
    nlinarith
  rw [hone, one_mul]
  exact hlast

end Alignment

namespace HWLayer

variable {layer : HWLayer} {d k y : ℕ} {n : List ℕ}

structure IsValid (layer : HWLayer) : Prop where
  rank : layer.outputShape.length = 4
  positive : ∀ size ∈ layer.outputShape, 0 < size
  alignment : 0 < layer.dimAlignment

theorem IsValid.dim_pos (hvalid : layer.IsValid) (hd : d < 4) : 0 < layer.outputShape.dim d := by
  have hlt : d < layer.outputShape.length := by rw [hvalid.rank]; exact hd
  rw [Shape.dim, List.getD_eq_getElem _ _ hlt]
  exact hvalid.positive _ (List.getElem_mem hlt)

theorem isSkipped_of_ne (h : d ≠ dimToAlign) (tiles : ℕ) : layer.isSkipped d tiles = false := by
  simp [isSkipped, isAligned, h]

theorem isSkipped_of_not_isAligned (h : layer.isAligned d = false) (tiles : ℕ) :
    layer.isSkipped d tiles = false := by
  rw [isSkipped, h, Bool.false_and]

theorem IsValid.isSkipped_one (hvalid : layer.IsValid) (d : ℕ) :
    layer.isSkipped d 1 = false := by
  by_cases hd : d = dimToAlign
  · subst hd
    have haligned := isSupportedAlignedDivision_one (hvalid.dim_pos (d := dimToAlign) (by decide))
    rw [isSkipped, Nat.cast_one, haligned, Bool.not_true, Bool.and_false]
  · exact isSkipped_of_ne hd 1

structure IsCounts (layer : HWLayer) (n : List ℕ) : Prop where
  length : n.length = 4
  pos : ∀ d, 1 ≤ tilesOn n d
  unskipped : ∀ d, layer.isSkipped d (tilesOn n d) = false

theorem IsCounts.set (h : layer.IsCounts n) (hk : 1 ≤ k) (hskip : layer.isSkipped d k = false) :
    layer.IsCounts (n.set d k) := by
  by_cases hd : d < n.length
  · constructor
    · rw [List.length_set, h.length]
    · intro e
      by_cases he : d = e
      · rwa [← he, tilesOn_set_self hd]
      · rw [tilesOn_set_ne he]
        exact h.pos e
    · intro e
      by_cases he : d = e
      · rwa [← he, tilesOn_set_self hd]
      · rw [tilesOn_set_ne he]
        exact h.unskipped e
  · rwa [List.set_eq_of_length_le (by omega)]

theorem IsValid.isCounts_neutral (hvalid : layer.IsValid) :
    layer.IsCounts (List.replicate layer.outputShape.length 1) := by
  constructor
  · rw [List.length_replicate, hvalid.rank]
  · intro d
    rw [tilesOn_replicate]
  · intro d
    rw [tilesOn_replicate]
    exact hvalid.isSkipped_one d

/-- The next tiling number that is not skipped. -/
structure Next (layer : HWLayer) (d k y : ℕ) : Prop where
  lt : k < y
  unskipped : layer.isSkipped d y = false
  skipped : ∀ z, k < z → z < y → layer.isSkipped d z = true

theorem Next.unique {y' : ℕ} (h : layer.Next d k y) (h' : layer.Next d k y') : y = y' := by
  rcases lt_trichotomy y y' with hlt | heq | hlt
  · have hskip := h'.skipped y h.lt hlt
    rw [h.unskipped] at hskip
    cases hskip
  · exact heq
  · have hskip := h.skipped y' h'.lt hlt
    rw [h'.unskipped] at hskip
    cases hskip

theorem Next.unique_prev {k' : ℕ} (h : layer.Next d k y) (h' : layer.Next d k' y)
    (hk : layer.isSkipped d k = false) (hk' : layer.isSkipped d k' = false) : k = k' := by
  rcases lt_trichotomy k k' with hlt | heq | hlt
  · rw [h.skipped k' hlt h'.lt] at hk'
    cases hk'
  · exact heq
  · rw [h'.skipped k hlt h.lt] at hk
    cases hk

theorem next_of_not_isAligned (h : layer.isAligned d = false) (k : ℕ) : layer.Next d k (k + 1) where
  lt := Nat.lt_succ_self k
  unskipped := isSkipped_of_not_isAligned h _
  skipped := by omega

variable (hd : d < n.length)
include hd

theorem increaseTiles_ends {p : ℕ} (hlt : tilesOn n d < p) (hp : layer.isSkipped d p = false) :
    (layer.increaseTiles d n).Ends fun n' =>
      ∃ y, n' = n.set d y ∧ layer.Next d (tilesOn n d) y ∧ y ≤ p := by
  apply ends_whileDo (I := fun m => ∃ x, m = n.set d x ∧ tilesOn n d < x ∧ x ≤ p ∧
    ∀ z, tilesOn n d < z → z < x → layer.isSkipped d z = true) fun m => p - tilesOn m d
  · rintro _ ⟨x, rfl, hx, hle, hall⟩ hskip
    rw [tilesOn_set_self hd] at hskip
    have hne : x ≠ p := by
      rintro rfl
      rw [hp] at hskip
      cases hskip
    refine ends_pure ⟨⟨x + 1, ?_, by omega, by omega, ?_⟩, ?_⟩
    · rw [tilesOn_set_self hd, List.set_set]
    · intro z hz hzx
      by_cases hzeq : z = x
      · rw [hzeq, hskip]
      · exact hall z hz (by omega)
    · rw [tilesOn_set_self hd, List.set_set, tilesOn_set_self hd]
      omega
  · rintro _ ⟨x, rfl, hx, hle, hall⟩ hstop
    rw [tilesOn_set_self hd] at hstop
    exact ⟨x, rfl, ⟨hx, hstop, hall⟩, hle⟩
  · exact ⟨tilesOn n d + 1, rfl, by omega, hlt, by omega⟩

theorem increaseTiles_returns {n' : List ℕ} (h : (layer.increaseTiles d n).Returns n') :
    ∃ y, n' = n.set d y ∧ layer.Next d (tilesOn n d) y := by
  refine whileDo_keeps (Q := fun m => ∃ y, m = n.set d y ∧ layer.Next d (tilesOn n d) y)
    (I := fun m => ∃ x, m = n.set d x ∧ tilesOn n d < x ∧
      ∀ z, tilesOn n d < z → z < x → layer.isSkipped d z = true) ?_ ?_ ?_ h
  · rintro _ ⟨x, rfl, hx, hall⟩ hskip m hm
    obtain rfl := returns_pure_iff.mp hm
    rw [tilesOn_set_self hd] at hskip
    rw [tilesOn_set_self hd, List.set_set]
    refine ⟨x + 1, rfl, by omega, fun z hz hzx => ?_⟩
    by_cases hzeq : z = x
    · rw [hzeq, hskip]
    · exact hall z hz (by omega)
  · rintro _ ⟨x, rfl, hx, hall⟩ hstop
    rw [tilesOn_set_self hd] at hstop
    exact ⟨x, rfl, hx, hstop, hall⟩
  · exact ⟨tilesOn n d + 1, rfl, by omega, by omega⟩

theorem decreaseTiles_ends (hvalid : layer.IsValid) (hone : 1 < tilesOn n d)
    (hunskipped : layer.isSkipped d (tilesOn n d) = false) :
    (layer.decreaseTiles d n).Ends fun n' => ∃ y, n' = n.set d y ∧ 1 ≤ y ∧
      layer.isSkipped d y = false ∧ layer.Next d y (tilesOn n d) := by
  apply ends_whileDo (I := fun m => ∃ x, m = n.set d x ∧ 1 ≤ x ∧ x < tilesOn n d ∧
    ∀ z, x < z → z < tilesOn n d → layer.isSkipped d z = true) fun m => tilesOn m d
  · rintro _ ⟨x, rfl, hx, hlt, hall⟩ hcond
    rw [tilesOn_set_self hd, Bool.and_eq_true, decide_eq_true_eq] at hcond
    obtain ⟨hskip, hxone⟩ := hcond
    refine ends_pure ⟨⟨x - 1, ?_, by omega, by omega, ?_⟩, ?_⟩
    · rw [tilesOn_set_self hd, List.set_set]
    · intro z hz hzn
      by_cases hzeq : z = x
      · rw [hzeq, hskip]
      · exact hall z (by omega) hzn
    · rw [tilesOn_set_self hd, List.set_set, tilesOn_set_self hd]
      omega
  · rintro _ ⟨x, rfl, hx, hlt, hall⟩ hstop
    rw [tilesOn_set_self hd] at hstop
    have hskip : layer.isSkipped d x = false := by
      by_cases hxone : 1 < x
      · simpa [hxone] using hstop
      · obtain rfl : x = 1 := by omega
        exact hvalid.isSkipped_one d
    exact ⟨x, rfl, hx, hskip, hlt, hunskipped, hall⟩
  · exact ⟨tilesOn n d - 1, rfl, by omega, by omega, by omega⟩

end HWLayer

namespace HWLayerOp

variable {op : HWLayerOp} {tilingMode : TilingMode} {n : List ℕ} {d : ℕ}

/-- What decreasing a dimension for its multicluster strategy leaves of it. -/
structure Restored (op : HWLayerOp) (d : ℕ) (n : List ℕ) (y : ℕ) : Prop where
  pos : 1 ≤ y
  le : y ≤ tilesOn n d
  unskipped : op.isSkipped d y = false
  compatible : y = 1 ∨ op.isMultiClusterCompatible (n.set d y) = true
  kept : op.isMultiClusterCompatible n = true → y = tilesOn n d

theorem restoreMultiCluster_ends (hvalid : op.IsValid) (hn : op.IsCounts n) (hd : d < 4) :
    (op.restoreMultiCluster d n).Ends fun n' => ∃ y, n' = n.set d y ∧ op.Restored d n y := by
  have hlt : d < n.length := by rw [hn.length]; exact hd
  apply ends_whileDo (I := fun m => ∃ x, m = n.set d x ∧ 1 ≤ x ∧ x ≤ tilesOn n d ∧
    op.isSkipped d x = false ∧ (op.isMultiClusterCompatible n = true → x = tilesOn n d))
    fun m => tilesOn m d
  · rintro _ ⟨x, rfl, hx, hle, hskip, hkept⟩ hcond
    have hxlt : d < (n.set d x).length := by rwa [List.length_set]
    rw [tilesOn_set_self hlt, Bool.and_eq_true, decide_eq_true_eq] at hcond
    obtain ⟨hone, hincompatible⟩ := hcond
    have hdecrease := HWLayer.decreaseTiles_ends hxlt hvalid
      (by rwa [tilesOn_set_self hlt]) (by rwa [tilesOn_set_self hlt])
    refine hdecrease.mono ?_
    rintro _ ⟨y, rfl, hy, hyskip, hnext⟩
    have hyx := hnext.lt
    rw [tilesOn_set_self hlt] at hyx
    refine ⟨⟨y, List.set_set _, hy, by omega, hyskip, fun hcompatible => ?_⟩, ?_⟩
    · obtain rfl := hkept hcompatible
      rw [set_tilesOn, hcompatible] at hincompatible
      cases hincompatible
    · rw [List.set_set, tilesOn_set_self hlt, tilesOn_set_self hlt]
      exact hyx
  · rintro _ ⟨x, rfl, hx, hle, hskip, hkept⟩ hstop
    refine ⟨x, rfl, hx, hle, hskip, ?_, hkept⟩
    rw [tilesOn_set_self hlt] at hstop
    by_cases hone : 1 < x
    · right
      simpa [hone] using hstop
    · omega
  · exact ⟨tilesOn n d, (set_tilesOn n d).symm, hn.pos d, le_rfl, hn.unskipped d, fun _ => rfl⟩

/-- What reducing leaves of a dimension: it is still supported, and with one tile less it is not. -/
structure Reduced (op : HWLayerOp) (tilingMode : TilingMode) (d : ℕ) (n : List ℕ) (y : ℕ) :
    Prop where
  pos : 1 ≤ y
  le : y ≤ tilesOn n d
  unskipped : op.isSkipped d y = false
  supported : op.isSupportedTileSize (n.set d y) tilingMode = true
  least : ∀ z, 1 ≤ z → op.isSkipped d z = false → op.Next d z y →
    op.isSupportedTileSize (n.set d z) tilingMode = false

theorem reduceDim_ends (hvalid : op.IsValid) (hn : op.IsCounts n) (hd : d < 4)
    (hsupported : op.isSupportedTileSize n tilingMode = true) :
    (op.reduceDim tilingMode n d).Ends fun n' =>
      ∃ y, n' = n.set d y ∧ op.Reduced tilingMode d n y := by
  have hlt : d < n.length := by rw [hn.length]; exact hd
  have hlower : (whileDo (fun m => op.isSupportedTileSize m tilingMode && 1 < tilesOn m d)
      (op.decreaseTiles d) n).Ends fun m => ∃ x, m = n.set d x ∧ 1 ≤ x ∧ x ≤ tilesOn n d ∧
        op.isSkipped d x = false ∧ (op.isSupportedTileSize m tilingMode = true ∧ x = 1 ∨
        op.isSupportedTileSize m tilingMode = false ∧ ∃ p, op.Next d x p ∧ p ≤ tilesOn n d ∧
          op.isSupportedTileSize (n.set d p) tilingMode = true) := by
    apply ends_whileDo (I := fun m => ∃ x, m = n.set d x ∧ 1 ≤ x ∧ x ≤ tilesOn n d ∧
      op.isSkipped d x = false ∧ (op.isSupportedTileSize m tilingMode = true ∨
        ∃ p, op.Next d x p ∧ p ≤ tilesOn n d ∧
          op.isSupportedTileSize (n.set d p) tilingMode = true)) fun m => tilesOn m d
    · rintro _ ⟨x, rfl, hx, hle, hskip, -⟩ hcond
      have hxlt : d < (n.set d x).length := by rwa [List.length_set]
      rw [tilesOn_set_self hlt, Bool.and_eq_true, decide_eq_true_eq] at hcond
      obtain ⟨hsupp, hone⟩ := hcond
      have hdecrease := HWLayer.decreaseTiles_ends hxlt hvalid
        (by rwa [tilesOn_set_self hlt]) (by rwa [tilesOn_set_self hlt])
      refine hdecrease.mono ?_
      rintro _ ⟨y, rfl, hy, hyskip, hnext⟩
      rw [tilesOn_set_self hlt] at hnext
      have hyx := hnext.lt
      refine ⟨⟨y, List.set_set _, hy, by omega, hyskip, .inr ⟨x, hnext, hle, hsupp⟩⟩, ?_⟩
      rw [List.set_set, tilesOn_set_self hlt, tilesOn_set_self hlt]
      exact hyx
    · rintro _ ⟨x, rfl, hx, hle, hskip, hcases⟩ hstop
      rw [tilesOn_set_self hlt] at hstop
      refine ⟨x, rfl, hx, hle, hskip, ?_⟩
      cases hsupp : op.isSupportedTileSize (n.set d x) tilingMode with
      | true =>
        rw [hsupp, Bool.true_and, decide_eq_false_iff_not] at hstop
        exact .inl ⟨rfl, by omega⟩
      | false =>
        rw [hsupp] at hcases
        exact .inr ⟨rfl, hcases.resolve_left Bool.false_ne_true⟩
    · refine ⟨tilesOn n d, (set_tilesOn n d).symm, hn.pos d, le_rfl, hn.unskipped d,
        .inl hsupported⟩
  refine hlower.bind ?_
  rintro _ ⟨x, rfl, hx, hle, hskip, ⟨hsupp, rfl⟩ | ⟨hsupp, p, hnext, hp, hpsupp⟩⟩
  · apply ends_whileDo (I := fun m => m = n.set d 1) fun _ => 0
    · rintro _ rfl hcond
      rw [hsupp] at hcond
      cases hcond
    · rintro _ rfl -
      refine ⟨1, rfl, le_rfl, hle, hskip, hsupp, fun z hz _ hzone => ?_⟩
      exact absurd hzone.lt (by omega)
    · rfl
  · apply ends_whileDo (I := fun m => m = n.set d x ∨ m = n.set d p) fun m =>
      if op.isSupportedTileSize m tilingMode = true then 0 else 1
    · rintro _ (rfl | rfl) hcond
      · have hxlt : d < (n.set d x).length := by rwa [List.length_set]
        refine (HWLayer.increaseTiles_ends hxlt (by rw [tilesOn_set_self hlt]; exact hnext.lt)
          hnext.unskipped).mono ?_
        rintro _ ⟨y, rfl, hy, -⟩
        rw [tilesOn_set_self hlt] at hy
        obtain rfl := hnext.unique hy
        rw [List.set_set, if_pos hpsupp, if_neg (by rw [hsupp]; exact Bool.false_ne_true)]
        exact ⟨.inr rfl, Nat.zero_lt_one⟩
      · rw [hpsupp] at hcond
        cases hcond
    · rintro _ (rfl | rfl) hstop
      · rw [hsupp] at hstop
        cases hstop
      · have hxp := hnext.lt
        refine ⟨p, rfl, by omega, hp, hnext.unskipped, hpsupp, fun z _ hzskip hz => ?_⟩
        rw [hz.unique_prev hnext hzskip hskip]
        exact hsupp
    · exact .inl rfl

theorem increaseAligned_ends (hd : d < n.length) : (op.increaseAligned d n).Ends fun result =>
    ∀ m, result = some m → ∃ y, m = n.set d y ∧ tilesOn n d < y ∧ y < op.maxTilesOn d := by
  apply ends_loop (I := fun m => ∃ x, m = n.set d x ∧ tilesOn n d ≤ x)
    fun m => op.maxTilesOn d - tilesOn m d
  · rintro _ ⟨x, rfl, hx⟩
    dsimp only
    rw [tilesOn_set_self hd, List.set_set]
    split
    · apply ends_pure
      intro m hm
      cases hm
    · next hleft =>
      rw [HWLayer.isDimLeftToTile, tilesOn_set_self hd, decide_eq_true_eq, not_not] at hleft
      split
      · apply ends_pure
        rintro m hm
        cases hm
        exact ⟨x + 1, rfl, by omega, hleft⟩
      · apply ends_pure
        refine ⟨⟨x + 1, rfl, by omega⟩, ?_⟩
        rw [tilesOn_set_self hd]
        omega
  · exact ⟨tilesOn n d, (set_tilesOn n d).symm, le_rfl⟩

theorem pipelineTiling_ends {targetDim dimToTile : ℕ} (htarget : targetDim < n.length)
    (hprogress : op.isAligned targetDim = true ∨ dimToTile = targetDim ∨
      op.maxTilesOn targetDim ≤ tilesOn n targetDim) :
    (op.pipelineTiling n targetDim dimToTile).Ends fun tiles =>
      (∃ m, tiles = op.fillDividedTiles m ∧ op.isSupportedTileSize m .PIPELINING = true) ∨
        tiles = op.fillDividedTiles n := by
  apply ends_loop (I := fun m => targetDim < m.length ∧ (op.isAligned targetDim = true ∨
    dimToTile = targetDim ∨ op.maxTilesOn targetDim ≤ tilesOn m targetDim))
    fun m => op.maxTilesOn targetDim - tilesOn m targetDim
  · rintro m ⟨hm, hcases⟩
    split
    · next hsupp => exact ends_pure (.inl ⟨m, rfl, hsupp⟩)
    · split
      · exact ends_pure (.inr rfl)
      · next hgo =>
        have hleft : tilesOn m targetDim < op.maxTilesOn targetDim := by
          have hleft := not_not.mp (not_or.mp hgo).2
          rwa [HWLayer.isDimLeftToTile, decide_eq_true_eq] at hleft
        split
        · next haligned =>
          refine (increaseAligned_ends hm).bind fun result hresult => ?_
          cases result with
          | none => exact ends_pure (.inr rfl)
          | some m' =>
            obtain ⟨y, rfl, hlt, hmax⟩ := hresult m' rfl
            apply ends_pure
            refine ⟨⟨by rwa [List.length_set], .inl haligned⟩, ?_⟩
            rw [tilesOn_set_self hm]
            omega
        · next haligned =>
          obtain rfl := (hcases.resolve_left haligned).resolve_right (by omega)
          apply ends_pure
          refine ⟨⟨by rwa [List.length_set], .inr (.inl rfl)⟩, ?_⟩
          rw [tilesOn_set_self hm]
          omega
  · exact ⟨htarget, hprogress⟩

end HWLayerOp

end Vpux.Tiling
