import Mathlib.Algebra.Order.BigOperators.Group.List
import Vpux.Data.Grid

/-! Dividing a shape into tiles, `divideTiles` of `core/tiling.cpp`. -/
namespace Vpux.Tiling
open Data

abbrev Shape := List ℤ

def Shape.dim (shape : Shape) (d : ℕ) : ℤ := shape.getD d 0

structure TileInfo where
  shape : Shape
  offsets : Shape
  axis : Shape
  isCompletedTile : Bool
  deriving DecidableEq, Repr

namespace TileInfo

def ofRank (rank : ℕ) : TileInfo :=
  ⟨List.replicate rank 0, List.replicate rank 0, List.replicate rank 0, false⟩

def ofShape (shape : Shape) : TileInfo :=
  ⟨shape, List.replicate shape.length 0, List.replicate shape.length 1, false⟩

def setDim (tile : TileInfo) (d : ℕ) (size offset axis : ℤ) : TileInfo :=
  { tile with
    shape := tile.shape.set d size
    offsets := tile.offsets.set d offset
    axis := tile.axis.set d axis }

end TileInfo

def divUp (a b : ℤ) : ℤ := (a + b - 1).tdiv b

def alignValUp (val align : ℤ) : ℤ :=
  (val + (if 0 ≤ val then 1 else 0) * (align - 1)).tdiv align * align

def dividedShapes (shapeVal divisorVal alignmentVal : ℤ) : Option (List ℤ) :=
  -- a divisor below one does not get past the vectors' allocation or the division
  if divisorVal < 1 then none
  else if 1 < alignmentVal then
    let tileSize := alignValUp (divUp shapeVal divisorVal) alignmentVal
    let remainderTileSize := shapeVal - tileSize * (divisorVal - 1)
    if remainderTileSize ≤ 0 then none
    else some (List.replicate (divisorVal - 1).toNat tileSize ++ [remainderTileSize])
  else
    let tileSize := shapeVal.tdiv divisorVal
    let remainderTileSize := shapeVal.tmod divisorVal
    if remainderTileSize ≠ 0 then
      some (List.replicate remainderTileSize.toNat (tileSize + 1) ++
        List.replicate (divisorVal - remainderTileSize).toNat tileSize)
    else some (List.replicate divisorVal.toNat tileSize)

def dividedOffsets (offset : ℤ) : List ℤ → List ℤ
  | [] => []
  | size :: sizes => offset :: dividedOffsets (offset + size) sizes

/-- The sizes of one dimension, each with its offset. -/
def shapeOffsetPairs (divisors shape : Shape) (alignment : List ℤ) (d : ℕ) :
    Option (List (ℤ × ℤ)) := do
  let sizes ← dividedShapes (shape.dim d) (divisors.dim d) (alignment.getD d 1)
  return sizes.zip (dividedOffsets 0 sizes)

/-- `left` dimensions are still to be divided, the first of them `dimensionIndex`. The state
holds the tiles divided so far and the ongoing tile, which the loops of all dimensions write. -/
def divideTiles (divisors shape : Shape) (alignment : List ℤ) :
    (left dimensionIndex : ℕ) → List TileInfo × TileInfo → Option (List TileInfo × TileInfo)
  -- the last dimension registers the tile
  | 0, _, (dividedTiles, ongoingTile) => some (dividedTiles ++ [ongoingTile], ongoingTile)
  | left + 1, d, state => do
    let pairs ← shapeOffsetPairs divisors shape alignment d
    pairs.foldlM (fun (dividedTiles, ongoingTile) (size, offset) =>
      divideTiles divisors shape alignment left (d + 1)
        (dividedTiles, ongoingTile.setDim d size offset (divisors.dim d))) state

def alignmentShape (shape : Shape) (alignment : Option (List ℤ)) : List ℤ :=
  alignment.getD (List.replicate shape.length 1)

def fillDividedTiles (divisors shape : Shape) (alignment : Option (List ℤ)) :
    Option (List TileInfo) :=
  let ongoingTile := { TileInfo.ofRank divisors.length with isCompletedTile := true }
  (divideTiles divisors shape (alignmentShape shape alignment) divisors.length 0
    ([], ongoingTile)).map Prod.fst

example : (fillDividedTiles [1, 2, 3, 2] [1, 8, 8, 17] none).map (·.getLast?) =
    some (some ⟨[1, 4, 2, 8], [0, 4, 6, 9], [1, 2, 3, 2], true⟩) := by decide

/-- The tiles agree on the dimensions before `d`. -/
structure TileInfo.AgreesBelow (d : ℕ) (a b : TileInfo) : Prop where
  shape : a.shape.take d = b.shape.take d
  offsets : a.offsets.take d = b.offsets.take d
  axis : a.axis.take d = b.axis.take d
  isCompletedTile : a.isCompletedTile = b.isCompletedTile

structure TileInfo.HasRank (rank : ℕ) (tile : TileInfo) : Prop where
  shape : tile.shape.length = rank
  offsets : tile.offsets.length = rank
  axis : tile.axis.length = rank

/-- The tile with the given pairs in the dimensions from `d` on. -/
def TileInfo.complete (divisors : Shape) (d : ℕ) (tile : TileInfo) (pairs : List (ℤ × ℤ)) :
    TileInfo :=
  ⟨tile.shape.take d ++ pairs.map Prod.fst, tile.offsets.take d ++ pairs.map Prod.snd,
    tile.axis.take d ++ divisors.drop d, tile.isCompletedTile⟩

open List

namespace TileInfo

variable {divisors : Shape} {rank d : ℕ} {a b tile : TileInfo}

theorem AgreesBelow.mono {d' : ℕ} (h : a.AgreesBelow d' b) (hd : d ≤ d') : a.AgreesBelow d b := by
  have htake : ∀ l l' : List ℤ, l.take d' = l'.take d' → l.take d = l'.take d := by
    intro l l' hl
    have := congrArg (List.take d) hl
    simpa [take_take, Nat.min_eq_left hd] using this
  exact ⟨htake _ _ h.shape, htake _ _ h.offsets, htake _ _ h.axis, h.isCompletedTile⟩

theorem AgreesBelow.trans {c : TileInfo} (h : a.AgreesBelow d b) (h' : b.AgreesBelow d c) :
    a.AgreesBelow d c :=
  ⟨h.shape.trans h'.shape, h.offsets.trans h'.offsets, h.axis.trans h'.axis,
    h.isCompletedTile.trans h'.isCompletedTile⟩

theorem AgreesBelow.complete_eq (h : a.AgreesBelow d b) (pairs : List (ℤ × ℤ)) :
    a.complete divisors d pairs = b.complete divisors d pairs := by
  simp [complete, h.shape, h.offsets, h.axis, h.isCompletedTile]

theorem AgreesBelow.refl (d : ℕ) (tile : TileInfo) : tile.AgreesBelow d tile :=
  ⟨rfl, rfl, rfl, rfl⟩

theorem agreesBelow_setDim (size offset axis : ℤ) :
    (tile.setDim d size offset axis).AgreesBelow d tile := by
  constructor <;> simp [setDim, take_set_of_le]

variable (h : tile.HasRank rank)
include h

theorem HasRank.setDim (size offset axis : ℤ) :
    (tile.setDim d size offset axis).HasRank rank := by
  constructor <;> simp [TileInfo.setDim, h.shape, h.offsets, h.axis]

theorem HasRank.complete_setDim (hd : d < rank) (hdivisors : divisors.length = rank)
    (size offset : ℤ) (pairs : List (ℤ × ℤ)) :
    (tile.setDim d size offset (divisors.dim d)).complete divisors (d + 1) pairs =
      tile.complete divisors d ((size, offset) :: pairs) := by
  have htake : ∀ (l : List ℤ) (v : ℤ), l.length = rank →
      (l.set d v).take (d + 1) = l.take d ++ [v] := by
    intro l v hl
    rw [take_succ_eq_append_getElem (by simpa [hl] using hd)]
    simp [take_set_of_le]
  have hdrop : divisors.drop d = divisors.dim d :: divisors.drop (d + 1) := by
    simp [Shape.dim, getD_eq_getElem?_getD, getElem?_eq_getElem (hdivisors ▸ hd)]
  simp [complete, TileInfo.setDim, htake _ _ h.shape, htake _ _ h.offsets, htake _ _ h.axis,
    hdrop]

theorem HasRank.complete_nil (hdivisors : divisors.length = rank) :
    tile.complete divisors rank [] = tile := by
  obtain ⟨hshape, hoffsets, haxis⟩ := h
  simp [complete, ← hdivisors, take_of_length_le, hshape, hoffsets, haxis]

end TileInfo

variable {pairs : List (ℤ × ℤ)} {divisors shape : Shape}

section Divide

variable {divisors shape : Shape} {alignment : List ℤ} {rank : ℕ}

theorem dividedOffsets_length (offset : ℤ) (sizes : List ℤ) :
    (dividedOffsets offset sizes).length = sizes.length := by
  induction sizes generalizing offset with
  | nil => rfl
  | cons size sizes ih => simp [dividedOffsets, ih]

theorem dividedShapes_ne_nil {shapeVal divisorVal alignmentVal : ℤ} (hshape : 0 ≤ shapeVal)
    {sizes : List ℤ} (h : dividedShapes shapeVal divisorVal alignmentVal = some sizes) :
    sizes ≠ [] := by
  have hmod : 0 ≤ shapeVal.tmod divisorVal := Int.tmod_nonneg _ hshape
  simp only [dividedShapes] at h
  split_ifs at h with hpos haligned hrem hzero <;>
    rw [← Option.some.inj h] <;>
    simp only [ne_eq, append_eq_nil_iff, replicate_eq_nil_iff, cons_ne_nil,
      and_false, not_false_eq_true] <;>
    omega

theorem shapeOffsetPairs_ne_nil {d : ℕ} (hshape : 0 ≤ shape.dim d)
    (h : shapeOffsetPairs divisors shape alignment d = some pairs) : pairs ≠ [] := by
  simp only [shapeOffsetPairs, Option.bind_eq_bind, Option.bind_eq_some_iff, Option.pure_def,
    Option.some.injEq] at h
  obtain ⟨sizes, hsizes, rfl⟩ := h
  have hne := dividedShapes_ne_nil hshape hsizes
  rw [ne_eq, ← length_eq_zero_iff, length_zip, dividedOffsets_length]
  rw [ne_eq, ← length_eq_zero_iff] at hne
  omega

/-- Where every dimension from `d` on can be divided, the tiles are the grid of the pairs. -/
theorem divideTiles_eq_grid (hdivisors : divisors.length = rank) {left d : ℕ}
    (hrank : d + left = rank) {pairs : List (List (ℤ × ℤ))}
    (hpairs : List.Forall₂ (fun j p => shapeOffsetPairs divisors shape alignment j = some p)
      (List.range' d left) pairs)
    (tiles : List TileInfo) {tile : TileInfo} (htile : tile.HasRank rank) :
    ∃ tile', divideTiles divisors shape alignment left d (tiles, tile) =
        some (tiles ++ (grid pairs).map (tile.complete divisors d), tile') ∧
      tile'.HasRank rank ∧ tile'.AgreesBelow d tile := by
  induction left generalizing d pairs tiles tile with
  | zero =>
    obtain rfl : pairs = [] := by simpa using hpairs
    obtain rfl : d = rank := by simpa using hrank
    refine ⟨tile, ?_, htile, .refl d tile⟩
    simp [divideTiles, grid, htile.complete_nil hdivisors]
  | succ left ih =>
    obtain ⟨p, rest, hp, hrest, rfl⟩ := forall₂_cons_left_iff.mp hpairs
    have hstep : ∀ q ∈ p, ∀ (acc : List TileInfo) (t : TileInfo),
        t.HasRank rank ∧ t.AgreesBelow d tile → ∃ t',
          divideTiles divisors shape alignment left (d + 1)
              (acc, t.setDim d q.1 q.2 (divisors.dim d)) =
            some (acc ++ (grid rest).map (fun r => tile.complete divisors d (q :: r)), t') ∧
          t'.HasRank rank ∧ t'.AgreesBelow d tile := by
      intro q hq acc t ht
      obtain ⟨t', hdivide, hrank', hagrees⟩ :=
        ih (by omega) hrest acc (ht.1.setDim (d := d) q.1 q.2 (divisors.dim d))
      have hbelow : t'.AgreesBelow d t :=
        (hagrees.mono (Nat.le_succ d)).trans (TileInfo.agreesBelow_setDim _ _ _)
      refine ⟨t', ?_, hrank', hbelow.trans ht.2⟩
      rw [hdivide]
      congr 3
      refine map_congr_left fun r _ => ?_
      rw [ht.1.complete_setDim (by omega) hdivisors, ht.2.complete_eq]
    obtain ⟨tile', hfold, hrank', hagrees⟩ := foldlM_append
      (f := fun (s : List TileInfo × TileInfo) (q : ℤ × ℤ) =>
        divideTiles divisors shape alignment left (d + 1)
          (s.1, s.2.setDim d q.1 q.2 (divisors.dim d)))
      hstep tiles ⟨htile, .refl d tile⟩
    refine ⟨tile', ?_, hrank', hagrees⟩
    simp only [divideTiles, hp, Option.bind_eq_bind, Option.bind_some]
    rw [hfold]
    simp [grid, map_flatMap, Function.comp_def]

theorem divideTiles_eq_none (hshape : ∀ j, 0 ≤ shape.dim j) {left d j : ℕ} (hd : d ≤ j)
    (hj : j < d + left) (hnone : shapeOffsetPairs divisors shape alignment j = none)
    (state : List TileInfo × TileInfo) :
    divideTiles divisors shape alignment left d state = none := by
  induction left generalizing d state with
  | zero => omega
  | succ left ih =>
    cases hp : shapeOffsetPairs divisors shape alignment d with
    | none => simp [divideTiles, hp]
    | some p =>
      have hdj : d ≠ j := by
        intro heq
        rw [heq, hnone] at hp
        contradiction
      obtain ⟨q, rest, rfl⟩ := exists_cons_of_ne_nil (shapeOffsetPairs_ne_nil (hshape d) hp)
      simp only [divideTiles, hp, Option.bind_eq_bind, Option.bind_some, foldlM_cons]
      rw [ih (by omega) (by omega)]
      rfl

variable {alignment : Option (List ℤ)}

theorem fillDividedTiles_eq_grid {pairs : List (List (ℤ × ℤ))}
    (hpairs : List.Forall₂ (fun j p => shapeOffsetPairs divisors shape
      (alignmentShape shape alignment) j = some p) (List.range divisors.length) pairs) :
    fillDividedTiles divisors shape alignment = some ((grid pairs).map fun point =>
      ⟨point.map Prod.fst, point.map Prod.snd, divisors, true⟩) := by
  rw [range_eq_range'] at hpairs
  have hrank : TileInfo.HasRank divisors.length
      { TileInfo.ofRank divisors.length with isCompletedTile := true } := by
    constructor <;> simp [TileInfo.ofRank]
  obtain ⟨tile', heq, -⟩ := divideTiles_eq_grid (rfl : divisors.length = divisors.length)
    (Nat.zero_add _) hpairs [] hrank
  refine (congrArg (Option.map Prod.fst) heq).trans ?_
  simp [TileInfo.complete]

theorem shapeOffsetPairs_of_fillDividedTiles (hshape : ∀ j, 0 ≤ shape.dim j) {tiles : List TileInfo}
    (h : fillDividedTiles divisors shape alignment = some tiles) :
    ∃ pairs : List (List (ℤ × ℤ)), List.Forall₂ (fun j p => shapeOffsetPairs divisors shape
      (alignmentShape shape alignment) j = some p) (List.range divisors.length) pairs := by
  obtain ⟨result, hdivide, rfl⟩ := Option.map_eq_some_iff.mp h
  have hall : ∀ j ∈ List.range divisors.length,
      shapeOffsetPairs divisors shape (alignmentShape shape alignment) j =
        some ((shapeOffsetPairs divisors shape (alignmentShape shape alignment) j).getD []) := by
    intro j hj
    cases hp : shapeOffsetPairs divisors shape (alignmentShape shape alignment) j with
    | some p => rfl
    | none =>
      rw [divideTiles_eq_none hshape (Nat.zero_le j) (by simpa using hj) hp] at hdivide
      contradiction
  exact ⟨_, forall₂_map_right_iff.mpr (forall₂_same.mpr hall)⟩

theorem mem_fillDividedTiles (hshape : ∀ j, 0 ≤ shape.dim j) {tiles : List TileInfo}
    (h : fillDividedTiles divisors shape alignment = some tiles) :
    ∃ pairs : List (List (ℤ × ℤ)),
      List.Forall₂ (fun j p => shapeOffsetPairs divisors shape
        (alignmentShape shape alignment) j = some p) (List.range divisors.length) pairs ∧
      ∀ tile, tile ∈ tiles ↔ ∃ point, List.Forall₂ (· ∈ ·) point pairs ∧
        tile = ⟨point.map Prod.fst, point.map Prod.snd, divisors, true⟩ := by
  obtain ⟨pairs, hpairs⟩ := shapeOffsetPairs_of_fillDividedTiles hshape h
  refine ⟨pairs, hpairs, fun tile => ?_⟩
  rw [fillDividedTiles_eq_grid hpairs] at h
  obtain rfl := Option.some.inj h
  simp [mem_grid, eq_comm]

end Divide

section Sizes

variable {shapeVal divisorVal alignmentVal : ℤ} {sizes : List ℤ}

theorem divUp_nonneg {a b : ℤ} (ha : 0 ≤ a) (hb : 0 < b) : 0 ≤ divUp a b := by
  rw [divUp, Int.tdiv_eq_ediv_of_nonneg (by omega)]
  exact Int.ediv_nonneg (by omega) hb.le

theorem divUp_pos {a b : ℤ} (ha : 0 < a) (hb : 0 < b) : 0 < divUp a b := by
  have hone : 1 ≤ (a + b - 1) / b := (Int.le_ediv_iff_mul_le hb).mpr (by omega)
  rw [divUp, Int.tdiv_eq_ediv_of_nonneg (by omega)]
  omega

theorem le_alignValUp {val align : ℤ} (hval : 0 ≤ val) (halign : 0 < align) :
    val ≤ alignValUp val align := by
  have hdiv := Int.emod_add_mul_ediv (val + 1 * (align - 1)) align
  have hmod := Int.emod_lt_of_pos (val + 1 * (align - 1)) halign
  rw [alignValUp, if_pos hval, Int.tdiv_eq_ediv_of_nonneg (by omega), mul_comm]
  omega

section

variable (hshape : 0 ≤ shapeVal) (h : dividedShapes shapeVal divisorVal alignmentVal = some sizes)
include hshape h

theorem dividedShapes_cases :
    1 ≤ divisorVal ∧
      ((∃ tileSize remainderTileSize, 1 < alignmentVal ∧ divUp shapeVal divisorVal ≤ tileSize ∧
          0 < remainderTileSize ∧ remainderTileSize = shapeVal - tileSize * (divisorVal - 1) ∧
          sizes = List.replicate (divisorVal - 1).toNat tileSize ++ [remainderTileSize]) ∨
        (alignmentVal ≤ 1 ∧
          sizes = List.replicate (shapeVal % divisorVal).toNat (shapeVal / divisorVal + 1) ++
            List.replicate (divisorVal - shapeVal % divisorVal).toNat
              (shapeVal / divisorVal))) := by
  simp only [dividedShapes, Int.tdiv_eq_ediv_of_nonneg hshape,
    Int.tmod_eq_emod_of_nonneg hshape] at h
  split_ifs at h with hpos haligned hrem hzero
  · refine ⟨by omega, .inl ⟨_, _, haligned, ?_, by omega, rfl, (Option.some.inj h).symm⟩⟩
    exact le_alignValUp (divUp_nonneg hshape (by omega)) (by omega)
  · exact ⟨by omega, .inr ⟨by omega, (Option.some.inj h).symm⟩⟩
  · refine ⟨by omega, .inr ⟨by omega, ?_⟩⟩
    rw [← Option.some.inj h, not_not.mp hzero]
    simp

theorem dividedShapes_sum : sizes.sum = shapeVal := by
  have hreplicate : ∀ n v : ℤ, 0 ≤ n → (List.replicate n.toNat v).sum = n * v := by
    intro n v hn
    rw [sum_replicate, nsmul_eq_mul, Int.toNat_of_nonneg hn]
  obtain ⟨hone, ⟨t, r, -, -, -, hr, rfl⟩ | ⟨-, rfl⟩⟩ := dividedShapes_cases hshape h
  · rw [sum_append, hreplicate _ _ (by omega), sum_singleton, hr]
    linarith
  · have hmod := Int.emod_nonneg shapeVal (show divisorVal ≠ 0 by omega)
    have hlt := Int.emod_lt_of_pos shapeVal (show 0 < divisorVal by omega)
    have hdivmod := Int.emod_add_mul_ediv shapeVal divisorVal
    rw [sum_append, hreplicate _ _ hmod, hreplicate _ _ (by omega)]
    linarith

theorem dividedShapes_nonneg {size : ℤ} (hsize : size ∈ sizes) : 0 ≤ size := by
  obtain ⟨hone, ⟨t, r, -, ht, hr, -, rfl⟩ | ⟨-, rfl⟩⟩ := dividedShapes_cases hshape h
  · have hup := divUp_nonneg hshape (show 0 < divisorVal by omega)
    simp only [mem_append, mem_replicate, mem_singleton] at hsize
    omega
  · have hdiv : 0 ≤ shapeVal / divisorVal := Int.ediv_nonneg hshape (by omega)
    simp only [mem_append, mem_replicate] at hsize
    omega

end

theorem dividedShapes_pos (hshape : 0 < shapeVal)
    (h : dividedShapes shapeVal divisorVal alignmentVal = some sizes) :
    (∀ size ∈ sizes, 0 < size) ↔ 1 < alignmentVal ∨ divisorVal ≤ shapeVal := by
  obtain ⟨hone, ⟨t, r, haligned, ht, hr, -, rfl⟩ | ⟨haligned, rfl⟩⟩ :=
    dividedShapes_cases hshape.le h
  · have hup := divUp_pos hshape (show 0 < divisorVal by omega)
    simp only [haligned, true_or, iff_true, mem_append, mem_replicate,
      mem_singleton]
    omega
  · have hlt := Int.emod_lt_of_pos shapeVal (show 0 < divisorVal by omega)
    constructor
    · intro hpos
      have hquot : 0 < shapeVal / divisorVal :=
        hpos _ (mem_append_right _ (mem_replicate.mpr ⟨by omega, rfl⟩))
      exact .inr (by simpa using (Int.le_ediv_iff_mul_le (by omega)).mp hquot)
    · rintro (hcontra | hle) size hsize
      · omega
      · have hquot : 1 ≤ shapeVal / divisorVal :=
          (Int.le_ediv_iff_mul_le (by omega)).mpr (by simpa using hle)
        simp only [mem_append, mem_replicate] at hsize
        omega

theorem dividedShapes_one (hshape : 0 ≤ shapeVal)
    (h : dividedShapes shapeVal 1 alignmentVal = some sizes) : sizes = [shapeVal] := by
  obtain ⟨-, ⟨t, r, -, -, -, hr, rfl⟩ | ⟨-, rfl⟩⟩ := dividedShapes_cases hshape h
  · simp [hr]
  · simp

theorem bounds_of_mem_zip {start size offset : ℤ} (hnonneg : ∀ size ∈ sizes, 0 ≤ size)
    (hmem : (size, offset) ∈ sizes.zip (dividedOffsets start sizes)) :
    start ≤ offset ∧ offset + size ≤ start + sizes.sum := by
  induction sizes generalizing start with
  | nil => simp at hmem
  | cons first sizes ih =>
    have hfirst := hnonneg first (by simp)
    have hrest : 0 ≤ sizes.sum := sum_nonneg fun s hs => hnonneg s (by simp [hs])
    simp only [dividedOffsets, zip_cons_cons, mem_cons, Prod.mk.injEq] at hmem
    rw [sum_cons]
    rcases hmem with ⟨rfl, rfl⟩ | hmem
    · omega
    · have := ih (fun s hs => hnonneg s (by simp [hs])) hmem
      omega

theorem piece_bounds {alignment : List ℤ} {d : ℕ} (hshape : 0 ≤ shape.dim d)
    (h : shapeOffsetPairs divisors shape alignment d = some pairs) {size offset : ℤ}
    (hmem : (size, offset) ∈ pairs) :
    0 ≤ offset ∧ 0 ≤ size ∧ offset + size ≤ shape.dim d ∧
      (divisors.dim d = 1 → offset = 0 ∧ size = shape.dim d) := by
  simp only [shapeOffsetPairs, Option.bind_eq_bind, Option.bind_eq_some_iff, Option.pure_def,
    Option.some.injEq] at h
  obtain ⟨sizes, hsizes, rfl⟩ := h
  have hnonneg : ∀ s ∈ sizes, 0 ≤ s := fun s hs => dividedShapes_nonneg hshape hsizes hs
  have hbounds := bounds_of_mem_zip hnonneg hmem
  rw [dividedShapes_sum hshape hsizes] at hbounds
  refine ⟨hbounds.1, hnonneg _ (of_mem_zip hmem).1, by omega, fun hone => ?_⟩
  rw [hone] at hsizes
  rw [dividedShapes_one hshape hsizes] at hmem
  simpa [dividedOffsets, and_comm] using hmem

theorem pieces_pos_iff {alignment : List ℤ} {d : ℕ} (hshape : 0 < shape.dim d)
    (h : shapeOffsetPairs divisors shape alignment d = some pairs) :
    (∀ q ∈ pairs, 0 < q.1) ↔ 1 < alignment.getD d 1 ∨ divisors.dim d ≤ shape.dim d := by
  simp only [shapeOffsetPairs, Option.bind_eq_bind, Option.bind_eq_some_iff, Option.pure_def,
    Option.some.injEq] at h
  obtain ⟨sizes, hsizes, rfl⟩ := h
  rw [← dividedShapes_pos hshape hsizes]
  have hsizes : (sizes.zip (dividedOffsets 0 sizes)).map Prod.fst = sizes :=
    map_fst_zip (dividedOffsets_length 0 sizes).ge
  constructor
  · intro hpos size hsize
    rw [← hsizes] at hsize
    obtain ⟨q, hq, rfl⟩ := mem_map.mp hsize
    exact hpos q hq
  · intro hpos q hq
    exact hpos q.1 (of_mem_zip hq).1

end Sizes

end Vpux.Tiling
