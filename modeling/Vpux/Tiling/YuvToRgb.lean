import Vpux.Tiling.Partition

/-! Dividing the output of a conversion from YUV to RGB, `divideTilesYuvToRgbOp` of
`core/tiling.cpp`. -/
namespace Vpux.Tiling
open Data

namespace TileInfo

def setShape (tile : TileInfo) (d : ℕ) (size : ℤ) : TileInfo :=
  { tile with shape := tile.shape.set d size }

def setOffset (tile : TileInfo) (d : ℕ) (offset : ℤ) : TileInfo :=
  { tile with offsets := tile.offsets.set d offset }

def setAxis (tile : TileInfo) (d : ℕ) (axis : ℤ) : TileInfo :=
  { tile with axis := tile.axis.set d axis }

end TileInfo

def dimN : ℕ := 0
def dimC : ℕ := 1
def dimH : ℕ := 2
def dimW : ℕ := 3

/-- The tile size of a divided dimension, rounded up to an even number. -/
def evenTileSize (shapeVal divisorVal : ℤ) : ℤ :=
  let tileSizeInit := shapeVal.tdiv divisorVal
  tileSizeInit + tileSizeInit.tmod 2

/-- One pass registers the ongoing tile at the next offset. -/
def registerAt (tileSize : ℤ) (state : List TileInfo × TileInfo) (j : ℕ) :
    List TileInfo × TileInfo :=
  let ongoingTile := state.2.setOffset dimH (tileSize * j)
  (state.1 ++ [ongoingTile], ongoingTile)

/-- The rows of tiles for the channels the ongoing tile has. -/
def divideRows (divisors shape : Shape) (state : List TileInfo × TileInfo) :
    List TileInfo × TileInfo :=
  let shapeValH := shape.dim dimH
  let tileSizeH := evenTileSize shapeValH (divisors.dim dimH)
  let divisorValH := shapeValH.tdiv tileSizeH
  let remainderTileSizeH := shapeValH.tmod tileSizeH
  let state := (List.range divisorValH.toNat).foldl (registerAt tileSizeH)
    (state.1, state.2.setShape dimH tileSizeH)
  if remainderTileSizeH ≠ 0 then
    let ongoingTile := (state.2.setShape dimH remainderTileSizeH).setOffset dimH
      (tileSizeH * divisorValH)
    (state.1 ++ [ongoingTile], ongoingTile)
  else state

def divideTilesYuvToRgbOp (divisors shape : Shape) (state : List TileInfo × TileInfo) :
    List TileInfo × TileInfo :=
  let ongoingTile := (state.2.setShape dimN (shape.dim dimN)).setShape dimW (shape.dim dimW)
  let ongoingTile := (((ongoingTile.setAxis dimN (divisors.dim dimN)).setAxis dimC
    (divisors.dim dimC)).setAxis dimH (divisors.dim dimH)).setAxis dimW (divisors.dim dimW)
  let shapeValC := shape.dim dimC
  let tileSizeC := evenTileSize shapeValC (divisors.dim dimC)
  let divisorValC := shapeValC.tdiv tileSizeC
  let remainderTileSizeC := shapeValC.tmod tileSizeC
  let state := (List.range divisorValC.toNat).foldl (fun state (i : ℕ) =>
    divideRows divisors shape (state.1, state.2.setOffset dimC (tileSizeC * i)))
    (state.1, ongoingTile.setShape dimC tileSizeC)
  if remainderTileSizeC ≠ 0 then
    divideRows divisors shape (state.1, (state.2.setShape dimC remainderTileSizeC).setOffset dimC
      (tileSizeC * divisorValC))
  else state

def fillDividedTilesYuvToRgbOp (divisors shape : Shape) : List TileInfo :=
  (divideTilesYuvToRgbOp divisors shape
    ([], { TileInfo.ofRank divisors.length with isCompletedTile := true })).1

def evenSizes (shapeVal divisorVal : ℤ) : List ℤ :=
  let tileSize := evenTileSize shapeVal divisorVal
  List.replicate (shapeVal.tdiv tileSize).toNat tileSize ++
    if shapeVal.tmod tileSize ≠ 0 then [shapeVal.tmod tileSize] else []

def evenPieces (shapeVal divisorVal : ℤ) : List (ℤ × ℤ) :=
  (evenSizes shapeVal divisorVal).zip (dividedOffsets 0 (evenSizes shapeVal divisorVal))

section Pieces

variable {shapeVal divisorVal : ℤ}

theorem evenTileSize_spec (hone : 1 ≤ divisorVal) (hle : divisorVal ≤ shapeVal) :
    0 < evenTileSize shapeVal divisorVal ∧ 2 ∣ evenTileSize shapeVal divisorVal := by
  have hinit : 1 ≤ shapeVal / divisorVal := (Int.le_ediv_iff_mul_le (by omega)).mpr (by omega)
  unfold evenTileSize
  rw [Int.tdiv_eq_ediv_of_nonneg (by omega)]
  dsimp only
  rw [Int.tmod_eq_emod_of_nonneg (by omega)]
  constructor <;> omega

theorem dividedOffsets_append (start : ℤ) (a b : List ℤ) :
    dividedOffsets start (a ++ b) = dividedOffsets start a ++ dividedOffsets (start + a.sum) b := by
  induction a generalizing start with
  | nil => simp [dividedOffsets]
  | cons size a ih => simp [dividedOffsets, ih, add_assoc]

theorem zip_dividedOffsets_replicate (start size : ℤ) (n : ℕ) :
    (List.replicate n size).zip (dividedOffsets start (List.replicate n size)) =
      (List.range n).map fun (i : ℕ) => (size, start + size * i) := by
  induction n with
  | zero => rfl
  | succ n ih =>
    rw [List.replicate_succ', dividedOffsets_append,
      List.zip_append (by rw [dividedOffsets_length]), ih, List.range_succ, List.map_append]
    simp [dividedOffsets, mul_comm]

theorem evenPieces_eq (hone : 1 ≤ divisorVal) (hle : divisorVal ≤ shapeVal) :
    evenPieces shapeVal divisorVal =
      ((List.range (shapeVal.tdiv (evenTileSize shapeVal divisorVal)).toNat).map fun (i : ℕ) =>
        (evenTileSize shapeVal divisorVal, evenTileSize shapeVal divisorVal * i)) ++
      if shapeVal.tmod (evenTileSize shapeVal divisorVal) ≠ 0 then
        [(shapeVal.tmod (evenTileSize shapeVal divisorVal),
          evenTileSize shapeVal divisorVal * shapeVal.tdiv (evenTileSize shapeVal divisorVal))]
      else [] := by
  obtain ⟨hpos, -⟩ := evenTileSize_spec hone hle
  have hquot : 0 ≤ shapeVal.tdiv (evenTileSize shapeVal divisorVal) := by
    rw [Int.tdiv_eq_ediv_of_nonneg (by omega)]
    exact Int.ediv_nonneg (by omega) hpos.le
  unfold evenPieces evenSizes
  rw [dividedOffsets_append, List.zip_append (by rw [dividedOffsets_length]),
    zip_dividedOffsets_replicate]
  congr 1
  · simp
  · split_ifs
    · simp [dividedOffsets, hquot, mul_comm]
    · rfl

theorem evenSizes_spec (hone : 1 ≤ divisorVal) (hle : divisorVal ≤ shapeVal)
    (heven : 2 ∣ shapeVal) :
    (∀ size ∈ evenSizes shapeVal divisorVal, 0 < size ∧ 2 ∣ size) ∧
      (evenSizes shapeVal divisorVal).sum = shapeVal := by
  obtain ⟨hpos, htwo⟩ := evenTileSize_spec hone hle
  unfold evenSizes
  dsimp only
  rw [Int.tdiv_eq_ediv_of_nonneg (by omega), Int.tmod_eq_emod_of_nonneg (by omega)]
  set tileSize := evenTileSize shapeVal divisorVal
  have hquot : 0 ≤ shapeVal / tileSize := Int.ediv_nonneg (by omega) hpos.le
  have hmod := Int.emod_nonneg shapeVal hpos.ne'
  have hdivmod := Int.emod_add_mul_ediv shapeVal tileSize
  have hdvd : 2 ∣ shapeVal % tileSize := by
    rw [Int.emod_def]
    exact dvd_sub heven (htwo.mul_right _)
  constructor
  · intro size hsize
    simp only [List.mem_append, List.mem_replicate] at hsize
    rcases hsize with ⟨-, rfl⟩ | hsize
    · exact ⟨hpos, htwo⟩
    · split_ifs at hsize with hrem
      · obtain rfl := List.mem_singleton.mp hsize
        exact ⟨by omega, hdvd⟩
      · simp at hsize
  · rw [List.sum_append, List.sum_replicate, nsmul_eq_mul, Int.toNat_of_nonneg hquot]
    split_ifs with hrem
    · rw [List.sum_singleton]
      linarith
    · rw [not_not] at hrem
      rw [List.sum_nil]
      linarith

theorem even_offsets {sizes : List ℤ} (hsizes : ∀ size ∈ sizes, 2 ∣ size) {start : ℤ}
    (hstart : 2 ∣ start) : ∀ q ∈ sizes.zip (dividedOffsets start sizes), 2 ∣ q.1 ∧ 2 ∣ q.2 := by
  induction sizes generalizing start with
  | nil => simp
  | cons size sizes ih =>
    have hsize := hsizes size (by simp)
    intro q hq
    rcases List.mem_cons.mp hq with rfl | hq
    · exact ⟨hsize, hstart⟩
    · exact ih (fun s hs => hsizes s (by simp [hs])) (dvd_add hstart hsize) q hq

/-- As many as it takes to cover the dimension. -/
theorem length_evenPieces (hone : 1 ≤ divisorVal) (hle : divisorVal ≤ shapeVal) :
    ((evenPieces shapeVal divisorVal).length : ℤ) =
      divUp shapeVal (evenTileSize shapeVal divisorVal) := by
  obtain ⟨hpos, -⟩ := evenTileSize_spec hone hle
  rw [evenPieces_eq hone hle, divUp, Int.tdiv_eq_ediv_of_nonneg (by omega),
    Int.tdiv_eq_ediv_of_nonneg (by omega), Int.tmod_eq_emod_of_nonneg (by omega)]
  set tileSize := evenTileSize shapeVal divisorVal
  have hquot : 0 ≤ shapeVal / tileSize := Int.ediv_nonneg (by omega) hpos.le
  have hmod := Int.emod_nonneg shapeVal hpos.ne'
  have hlt := Int.emod_lt_of_pos shapeVal hpos
  have hsplit : shapeVal + tileSize - 1 =
      (shapeVal % tileSize + tileSize - 1) + tileSize * (shapeVal / tileSize) := by
    have hdivmod := Int.emod_add_mul_ediv shapeVal tileSize
    linarith
  rw [hsplit, Int.add_mul_ediv_left _ _ hpos.ne']
  split_ifs with hrem
  · have hone : (shapeVal % tileSize + tileSize - 1) / tileSize = 1 := by
      rw [show shapeVal % tileSize + tileSize - 1 = shapeVal % tileSize - 1 + tileSize * 1 by ring,
        Int.add_mul_ediv_left _ _ hpos.ne', Int.ediv_eq_zero_of_lt (by omega) (by omega), zero_add]
    rw [hone]
    simp [hquot, add_comm]
  · have hzero : (shapeVal % tileSize + tileSize - 1) / tileSize = 0 :=
      Int.ediv_eq_zero_of_lt (by omega) (by omega)
    rw [hzero]
    simp [hquot]

/-- Only the last piece is smaller than the tile size. -/
theorem evenPieces_size (hone : 1 ≤ divisorVal) (hle : divisorVal ≤ shapeVal) :
    ∀ q ∈ evenPieces shapeVal divisorVal, q.1 = evenTileSize shapeVal divisorVal ∨
      q.1 < evenTileSize shapeVal divisorVal ∧ q.2 + q.1 = shapeVal := by
  obtain ⟨hpos, -⟩ := evenTileSize_spec hone hle
  intro q hq
  rw [evenPieces_eq hone hle] at hq
  rcases List.mem_append.mp hq with hq | hq
  · obtain ⟨i, -, rfl⟩ := List.mem_map.mp hq
    exact Or.inl rfl
  · split_ifs at hq
    · obtain rfl := List.mem_singleton.mp hq
      exact Or.inr ⟨Int.tmod_lt_of_pos _ hpos, Int.mul_tdiv_add_tmod _ _⟩
    · cases hq

end Pieces

section Tiles

variable {N C H W : ℤ} {divisors : Shape}

/-- The tile with given pieces in the two divided dimensions. -/
def yuvTile (N W : ℤ) (axis : Shape) (c h : ℤ × ℤ) : TileInfo :=
  ⟨[N, c.1, h.1, W], [0, c.2, h.2, 0], axis, true⟩

theorem divideRows_eq (axis : Shape) (tiles : List TileInfo) (c h : ℤ × ℤ)
    (hone : 1 ≤ divisors.dim dimH) (hle : divisors.dim dimH ≤ H) :
    ∃ h', divideRows divisors [N, C, H, W] (tiles, yuvTile N W axis c h) =
      (tiles ++ (evenPieces H (divisors.dim dimH)).map (yuvTile N W axis c),
        yuvTile N W axis c h') := by
  have hdim : Shape.dim [N, C, H, W] dimH = H := rfl
  unfold divideRows
  rw [hdim, evenPieces_eq hone hle]
  set tileSize := evenTileSize H (divisors.dim dimH)
  obtain ⟨last, hloop, offset, rfl⟩ := foldl_append (f := registerAt tileSize)
    (g := fun (j : ℕ) => [yuvTile N W axis c (tileSize, tileSize * j)])
    (R := fun tile => ∃ offset, tile = yuvTile N W axis c (tileSize, offset))
    (by
      rintro j - acc tile ⟨offset, rfl⟩
      exact ⟨yuvTile N W axis c (tileSize, tileSize * j), rfl, _, rfl⟩)
    tiles (s := yuvTile N W axis c (tileSize, h.2)) ⟨_, rfl⟩
  have hshape : (yuvTile N W axis c h).setShape dimH tileSize =
      yuvTile N W axis c (tileSize, h.2) := rfl
  have hmap : (List.range (H.tdiv tileSize).toNat).flatMap
      (fun (j : ℕ) => [yuvTile N W axis c (tileSize, tileSize * j)]) =
        ((List.range (H.tdiv tileSize).toNat).map fun (j : ℕ) => (tileSize, tileSize * j)).map
          (yuvTile N W axis c) := by
    rw [← List.map_eq_flatMap, List.map_map]
    rfl
  dsimp only
  rw [hshape, hloop, hmap]
  split_ifs with hrem
  · refine ⟨(H.tmod tileSize, tileSize * H.tdiv tileSize), ?_⟩
    rw [List.map_append, List.append_assoc]
    rfl
  · refine ⟨(tileSize, offset), ?_⟩
    rw [List.append_nil]

section

variable (hdivisors : divisors.length = 4) (hC : 1 ≤ divisors.dim dimC ∧ divisors.dim dimC ≤ C)
  (hH : 1 ≤ divisors.dim dimH ∧ divisors.dim dimH ≤ H)
include hdivisors hC hH

theorem divideTilesYuvToRgbOp_eq :
    fillDividedTilesYuvToRgbOp divisors [N, C, H, W] =
      (evenPieces C (divisors.dim dimC)).flatMap fun c =>
        (evenPieces H (divisors.dim dimH)).map (yuvTile N W divisors c) := by
  obtain ⟨n, c, h, w, rfl⟩ : ∃ n c h w, divisors = [n, c, h, w] := by
    match divisors, hdivisors with
    | [n, c, h, w], _ => exact ⟨n, c, h, w, rfl⟩
  rw [evenPieces_eq hC.1 hC.2]
  set tileSize := evenTileSize C (Shape.dim [n, c, h, w] dimC)
  obtain ⟨last, hloop, offset, row, rfl⟩ := foldl_append
    (f := fun state (i : ℕ) => divideRows [n, c, h, w] [N, C, H, W]
      (state.1, state.2.setOffset dimC (tileSize * i)))
    (R := fun tile => ∃ offset row, tile = yuvTile N W [n, c, h, w] (tileSize, offset) row)
    (by
      rintro i - acc tile ⟨offset, row, rfl⟩
      obtain ⟨row', hrows⟩ := @divideRows_eq N C H W [n, c, h, w] [n, c, h, w] acc
        (tileSize, tileSize * i) row hH.1 hH.2
      exact ⟨yuvTile N W [n, c, h, w] (tileSize, tileSize * i) row', hrows, _, _, rfl⟩)
    [] (s := yuvTile N W [n, c, h, w] (tileSize, 0) (0, 0)) ⟨_, _, rfl⟩
  have hstart : divideTilesYuvToRgbOp [n, c, h, w] [N, C, H, W]
      ([], { TileInfo.ofRank 4 with isCompletedTile := true }) =
      let state := (List.range (C.tdiv tileSize).toNat).foldl (fun state (i : ℕ) =>
        divideRows [n, c, h, w] [N, C, H, W] (state.1, state.2.setOffset dimC (tileSize * i)))
        ([], yuvTile N W [n, c, h, w] (tileSize, 0) (0, 0))
      if C.tmod tileSize ≠ 0 then
        divideRows [n, c, h, w] [N, C, H, W] (state.1,
          (state.2.setShape dimC (C.tmod tileSize)).setOffset dimC (tileSize * C.tdiv tileSize))
      else state := rfl
  refine (congrArg Prod.fst hstart).trans ?_
  rw [hloop, List.nil_append]
  split_ifs with hrem
  · obtain ⟨row', hrows⟩ := @divideRows_eq N C H W [n, c, h, w]
      [n, c, h, w] ((List.range (C.tdiv tileSize).toNat).flatMap fun (i : ℕ) =>
        (evenPieces H (Shape.dim [n, c, h, w] dimH)).map
          (yuvTile N W [n, c, h, w] (tileSize, tileSize * i)))
      (C.tmod tileSize, tileSize * C.tdiv tileSize) row hH.1 hH.2
    refine (congrArg Prod.fst hrows).trans ?_
    rw [List.flatMap_append, List.flatMap_map, List.flatMap_singleton]
  · rw [List.append_nil, List.flatMap_map]

theorem fillDividedTilesYuvToRgbOp_eq_grid :
    fillDividedTilesYuvToRgbOp divisors [N, C, H, W] =
      (grid [[(N, 0)], evenPieces C (divisors.dim dimC), evenPieces H (divisors.dim dimH),
        [(W, 0)]]).map fun point => ⟨point.map Prod.fst, point.map Prod.snd, divisors, true⟩ := by
  rw [divideTilesYuvToRgbOp_eq hdivisors hC hH]
  simp only [grid, List.map_flatMap, List.flatMap_cons, List.flatMap_nil, List.append_nil,
    List.map_cons, List.map_nil]
  congr 1
  funext c
  rw [List.map_eq_flatMap]
  rfl

end

theorem evenPieces_partition {shapeVal divisorVal : ℤ} (hone : 1 ≤ divisorVal)
    (hle : divisorVal ≤ shapeVal) (heven : 2 ∣ shapeVal) :
    (evenPieces shapeVal divisorVal).Pairwise Before ∧
      (∀ q ∈ evenPieces shapeVal divisorVal, 0 < q.1) ∧
      ∀ x, (∃ q ∈ evenPieces shapeVal divisorVal, Inside q x) ↔ 0 ≤ x ∧ x < shapeVal := by
  obtain ⟨hsizes, hsum⟩ := evenSizes_spec hone hle heven
  have hnonneg : ∀ size ∈ evenSizes shapeVal divisorVal, 0 ≤ size :=
    fun size hsize => (hsizes size hsize).1.le
  refine ⟨pairwise_zip_dividedOffsets hnonneg 0, ?_, ?_⟩
  · intro q hq
    exact (hsizes q.1 (List.of_mem_zip hq).1).1
  · intro x
    unfold evenPieces
    rw [exists_inside_zip_iff hnonneg, hsum, zero_add]

/-- A tile has even sizes and offsets in the divided dimensions, and the size that the divisors
give unless it is the last one. -/
structure IsYuvTile (divisors shape : Shape) (tile : TileInfo) : Prop where
  axis : tile.axis = divisors
  even : ∀ d, d = dimC ∨ d = dimH → 2 ∣ tile.shape.dim d ∧ 2 ∣ tile.offsets.dim d
  size : ∀ d, d = dimC ∨ d = dimH →
    tile.shape.dim d = evenTileSize (shape.dim d) (divisors.dim d) ∨
      tile.shape.dim d < evenTileSize (shape.dim d) (divisors.dim d) ∧
        tile.offsets.dim d + tile.shape.dim d = shape.dim d

/-- The tiles partition the image. Every size and offset in the divided dimensions is even, and the
divisors decide the sizes and how many tiles there are. -/
theorem fillDividedTilesYuvToRgbOp_partitions (N C H W : ℤ) (divisors : Shape)
    (hdivisors : divisors.length = 4) (hN : 0 < N) (hW : 0 < W) (hCeven : 2 ∣ C) (hHeven : 2 ∣ H)
    (hC : 1 ≤ divisors.dim dimC ∧ divisors.dim dimC ≤ C)
    (hH : 1 ≤ divisors.dim dimH ∧ divisors.dim dimH ≤ H) :
    Partitions (fillDividedTilesYuvToRgbOp divisors [N, C, H, W]) [N, C, H, W] ∧
      (∀ tile ∈ fillDividedTilesYuvToRgbOp divisors [N, C, H, W],
        IsYuvTile divisors [N, C, H, W] tile) ∧
      ((fillDividedTilesYuvToRgbOp divisors [N, C, H, W]).length : ℤ) =
        divUp C (evenTileSize C (divisors.dim dimC)) *
          divUp H (evenTileSize H (divisors.dim dimH)) := by
  refine ⟨?_, ?_, ?_⟩
  · rw [fillDividedTilesYuvToRgbOp_eq_grid hdivisors hC hH]
    apply partitions_grid rfl
    exact .cons (whole_partition hN) (.cons (evenPieces_partition hC.1 hC.2 hCeven)
      (.cons (evenPieces_partition hH.1 hH.2 hHeven) (.cons (whole_partition hW) .nil)))
  · rw [divideTilesYuvToRgbOp_eq hdivisors hC hH]
    intro tile htile
    simp only [List.mem_flatMap, List.mem_map] at htile
    obtain ⟨c, hc, h, hh, rfl⟩ := htile
    have hpieces : ∀ {shapeVal divisorVal : ℤ}, 1 ≤ divisorVal → divisorVal ≤ shapeVal →
        2 ∣ shapeVal → ∀ q ∈ evenPieces shapeVal divisorVal, 2 ∣ q.1 ∧ 2 ∣ q.2 :=
      fun hone hle heven => even_offsets
        (fun size hsize => ((evenSizes_spec hone hle heven).1 size hsize).2) (dvd_zero 2)
    constructor
    · rfl
    · rintro d (rfl | rfl)
      · exact hpieces hC.1 hC.2 hCeven c hc
      · exact hpieces hH.1 hH.2 hHeven h hh
    · rintro d (rfl | rfl)
      · exact evenPieces_size hC.1 hC.2 c hc
      · exact evenPieces_size hH.1 hH.2 h hh
  · rw [fillDividedTilesYuvToRgbOp_eq_grid hdivisors hC hH, List.length_map, length_grid,
      ← length_evenPieces hC.1 hC.2, ← length_evenPieces hH.1 hH.2]
    simp

/-- Ten rows divided by four: tiles of two rows, one more of them than the divisor. -/
theorem fillDividedTilesYuvToRgbOp_partitions_ten :
    Partitions (fillDividedTilesYuvToRgbOp [1, 3, 4, 1] [1, 8, 10, 3]) [1, 8, 10, 3] ∧
      (∀ tile ∈ fillDividedTilesYuvToRgbOp [1, 3, 4, 1] [1, 8, 10, 3],
        IsYuvTile [1, 3, 4, 1] [1, 8, 10, 3] tile) ∧
      ((fillDividedTilesYuvToRgbOp [1, 3, 4, 1] [1, 8, 10, 3]).length : ℤ) = 20 :=
  fillDividedTilesYuvToRgbOp_partitions 1 8 10 3 [1, 3, 4, 1] rfl (by decide) (by decide)
    (by decide) (by decide) (by decide) (by decide)

end Tiles

end Vpux.Tiling
