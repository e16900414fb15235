import Mathlib.Algebra.BigOperators.Ring.Finset
import Mathlib.Algebra.Order.Group.Abs
import Vpux.Tiling.Divide

/-! Tilings that take every place of a tensor once. -/
namespace Vpux.Tiling
open Data

/-- A coordinate in a piece of its dimension, given by size and offset. -/
def Inside (piece : ℤ × ℤ) (x : ℤ) : Prop := piece.2 ≤ x ∧ x < piece.2 + piece.1

def TileInfo.Holds (tile : TileInfo) (place : List ℤ) : Prop :=
  List.Forall₂ Inside (tile.shape.zip tile.offsets) place

def InShape (shape : Shape) (place : List ℤ) : Prop :=
  List.Forall₂ (fun size x => 0 ≤ x ∧ x < size) shape place

/-- Disjoint boxes with positive sizes that cover the shape and nothing else. -/
structure Partitions (tiles : List TileInfo) (shape : Shape) : Prop where
  rank : ∀ tile ∈ tiles, tile.shape.length = shape.length ∧ tile.offsets.length = shape.length
  positive : ∀ tile ∈ tiles, ∀ size ∈ tile.shape, 0 < size
  disjoint : tiles.Pairwise fun a b => ∀ place, ¬ (a.Holds place ∧ b.Holds place)
  covers : ∀ place, (∃ tile ∈ tiles, tile.Holds place) ↔ InShape shape place

def Before (a b : ℤ × ℤ) : Prop := a.2 + a.1 ≤ b.2

theorem Before.disjoint {a b : ℤ × ℤ} (h : Before a b) (x : ℤ) : ¬ (Inside a x ∧ Inside b x) := by
  rintro ⟨ha, hb⟩
  unfold Before at h
  have := ha.2
  have := hb.1
  omega

section Pieces

variable {sizes : List ℤ}

theorem pairwise_zip_dividedOffsets (hnonneg : ∀ size ∈ sizes, 0 ≤ size) (start : ℤ) :
    (sizes.zip (dividedOffsets start sizes)).Pairwise Before := by
  induction sizes generalizing start with
  | nil => simp
  | cons size sizes ih =>
    have hrest : ∀ s ∈ sizes, 0 ≤ s := fun s hs => hnonneg s (by simp [hs])
    apply List.Pairwise.cons
    · rintro ⟨s, o⟩ hmem
      exact (bounds_of_mem_zip hrest hmem).1
    · exact ih hrest (start + size)

theorem exists_inside_zip_iff (hnonneg : ∀ size ∈ sizes, 0 ≤ size) (start x : ℤ) :
    (∃ q ∈ sizes.zip (dividedOffsets start sizes), Inside q x) ↔
      start ≤ x ∧ x < start + sizes.sum := by
  induction sizes generalizing start with
  | nil => simp
  | cons size sizes ih =>
    have hrest : ∀ s ∈ sizes, 0 ≤ s := fun s hs => hnonneg s (by simp [hs])
    have hsize := hnonneg size (by simp)
    have hsum : 0 ≤ sizes.sum := List.sum_nonneg hrest
    rw [dividedOffsets, List.zip_cons_cons]
    simp only [List.mem_cons, exists_eq_or_imp]
    rw [ih hrest, List.sum_cons]
    unfold Inside
    omega

variable {divisors shape : Shape} {alignment : List ℤ} {d : ℕ} {pairs : List (ℤ × ℤ)}

theorem shapeOffsetPairs_eq_some :
    shapeOffsetPairs divisors shape alignment d = some pairs ↔
      ∃ sizes, dividedShapes (shape.dim d) (divisors.dim d) (alignment.getD d 1) = some sizes ∧
        sizes.zip (dividedOffsets 0 sizes) = pairs := by
  simp [shapeOffsetPairs, Option.bind_eq_some_iff]

theorem pieces_partition (hshape : 0 ≤ shape.dim d)
    (h : shapeOffsetPairs divisors shape alignment d = some pairs) :
    pairs.Pairwise Before ∧ ∀ x, (∃ q ∈ pairs, Inside q x) ↔ 0 ≤ x ∧ x < shape.dim d := by
  obtain ⟨sizes, hsizes, rfl⟩ := shapeOffsetPairs_eq_some.mp h
  have hnonneg : ∀ s ∈ sizes, 0 ≤ s := fun s hs => dividedShapes_nonneg hshape hsizes hs
  refine ⟨pairwise_zip_dividedOffsets hnonneg 0, ?_⟩
  intro x
  rw [exists_inside_zip_iff hnonneg, dividedShapes_sum hshape hsizes, zero_add]

variable {shapeVal divisorVal alignmentVal : ℤ}

theorem dividedShapes_length (hshape : 0 ≤ shapeVal)
    (h : dividedShapes shapeVal divisorVal alignmentVal = some sizes) :
    (sizes.length : ℤ) = divisorVal := by
  obtain ⟨hone, ⟨t, r, -, -, -, -, rfl⟩ | ⟨-, rfl⟩⟩ := dividedShapes_cases hshape h
  · simp only [List.length_append, List.length_replicate, List.length_singleton]
    omega
  · have hmod := Int.emod_nonneg shapeVal (show divisorVal ≠ 0 by omega)
    have hlt := Int.emod_lt_of_pos shapeVal (show 0 < divisorVal by omega)
    simp only [List.length_append, List.length_replicate]
    omega

theorem pieces_length (hshape : 0 ≤ shape.dim d)
    (h : shapeOffsetPairs divisors shape alignment d = some pairs) :
    (pairs.length : ℤ) = divisors.dim d := by
  obtain ⟨sizes, hsizes, rfl⟩ := shapeOffsetPairs_eq_some.mp h
  rw [← dividedShapes_length hshape hsizes, List.length_zip, dividedOffsets_length, Nat.min_self]

theorem dividedShapes_even (hshape : 0 ≤ shapeVal) (halign : alignmentVal ≤ 1)
    (h : dividedShapes shapeVal divisorVal alignmentVal = some sizes) :
    ∀ size ∈ sizes, size = shapeVal / divisorVal ∨ size = shapeVal / divisorVal + 1 := by
  obtain ⟨-, ⟨t, r, haligned, -⟩ | ⟨-, rfl⟩⟩ := dividedShapes_cases hshape h
  · omega
  · intro size hsize
    simp only [List.mem_append, List.mem_replicate] at hsize
    omega

theorem dividedShapes_aligned (halign : 1 < alignmentVal)
    (h : dividedShapes shapeVal divisorVal alignmentVal = some sizes) :
    ∃ front last, sizes = front ++ [last] ∧ ∀ size ∈ front, alignmentVal ∣ size := by
  simp only [dividedShapes, halign, if_true] at h
  split_ifs at h with hpos hrem
  refine ⟨_, _, (Option.some.inj h).symm, ?_⟩
  intro size hsize
  obtain ⟨-, rfl⟩ := List.mem_replicate.mp hsize
  exact Int.dvd_mul_left _ _

theorem mem_zip_dividedOffsets_snoc {front : List ℤ} {last size offset start : ℤ}
    (h : (size, offset) ∈ (front ++ [last]).zip (dividedOffsets start (front ++ [last]))) :
    size ∈ front ∨ offset + size = start + (front ++ [last]).sum := by
  induction front generalizing start with
  | nil =>
    simp only [List.nil_append, dividedOffsets, List.zip_cons_cons, List.zip_nil_right,
      List.mem_singleton, Prod.mk.injEq] at h
    simp [h.1, h.2]
  | cons first front ih =>
    simp only [List.cons_append, dividedOffsets, List.zip_cons_cons, List.mem_cons,
      Prod.mk.injEq] at h
    rcases h with ⟨rfl, -⟩ | h
    · simp
    · rcases ih h with hmem | hend
      · exact Or.inl (by simp [hmem])
      · rw [List.cons_append, List.sum_cons]
        omega

theorem piece_aligned (hshape : 0 ≤ shape.dim d) (halign : 1 < alignment.getD d 1)
    (h : shapeOffsetPairs divisors shape alignment d = some pairs) {size offset : ℤ}
    (hmem : (size, offset) ∈ pairs) :
    alignment.getD d 1 ∣ size ∨ offset + size = shape.dim d := by
  obtain ⟨sizes, hsizes, rfl⟩ := shapeOffsetPairs_eq_some.mp h
  have hsum := dividedShapes_sum hshape hsizes
  obtain ⟨front, last, rfl, hdvd⟩ := dividedShapes_aligned halign hsizes
  rcases mem_zip_dividedOffsets_snoc hmem with hfront | hend
  · exact Or.inl (hdvd size hfront)
  · omega

theorem dividedShapes_eq_none (hone : 1 ≤ divisorVal) :
    dividedShapes shapeVal divisorVal alignmentVal = none ↔ 1 < alignmentVal ∧
      shapeVal - alignValUp (divUp shapeVal divisorVal) alignmentVal * (divisorVal - 1) ≤ 0 := by
  unfold dividedShapes
  rw [if_neg (by omega : ¬ divisorVal < 1)]
  by_cases halign : 1 < alignmentVal
  · dsimp only
    split_ifs with hrem
    · simp [halign, hrem]
    · simp [halign, hrem]
  · dsimp only
    split_ifs <;> simp [halign]

theorem whole_partition {size : ℤ} (hpos : 0 < size) : [(size, (0 : ℤ))].Pairwise Before ∧
    (∀ q ∈ [(size, (0 : ℤ))], 0 < q.1) ∧
    ∀ x, (∃ q ∈ [(size, (0 : ℤ))], Inside q x) ↔ 0 ≤ x ∧ x < size := by
  simp [Inside, hpos]

end Pieces

section Tiles

variable {divisors shape : Shape} {alignment : List ℤ} {pairs : List (List (ℤ × ℤ))}

theorem zip_map_fst_snd (point : List (ℤ × ℤ)) :
    (point.map Prod.fst).zip (point.map Prod.snd) = point := by
  induction point with
  | nil => rfl
  | cons q point ih => simp [ih]

theorem partitions_grid (hlength : pairs.length = shape.length)
    (hpartition : List.Forall₂ (fun p size => p.Pairwise Before ∧ (∀ q ∈ p, 0 < q.1) ∧
      ∀ x, (∃ q ∈ p, Inside q x) ↔ 0 ≤ x ∧ x < size) pairs shape) :
    Partitions ((grid pairs).map fun point =>
      ⟨point.map Prod.fst, point.map Prod.snd, divisors, true⟩) shape := by
  constructor
  · intro tile htile
    obtain ⟨point, hpoint, rfl⟩ := List.mem_map.mp htile
    have := (mem_grid.mp hpoint).length_eq
    simp [this, hlength]
  · intro tile htile size hsize
    obtain ⟨point, hpoint, rfl⟩ := List.mem_map.mp htile
    obtain ⟨q, hq, rfl⟩ := List.mem_map.mp hsize
    obtain ⟨i, hi, rfl⟩ := List.mem_iff_getElem.mp hq
    have hmem := (mem_grid.mp hpoint)
    have hi' : i < pairs.length := hmem.length_eq ▸ hi
    have hq' := hmem.get hi hi'
    exact (hpartition.get hi' (hlength ▸ hi')).2.1 _ hq'
  · apply List.pairwise_map.mpr
    have hbefore : ∀ axis ∈ pairs, axis.Pairwise Before := by
      intro axis haxis
      obtain ⟨i, hi, rfl⟩ := List.mem_iff_getElem.mp haxis
      exact (hpartition.get hi (hlength ▸ hi)).1
    apply (pairwise_grid hbefore).imp
    rintro p q hpq place ⟨hp, hq⟩
    apply hpq
    simp only [TileInfo.Holds, zip_map_fst_snd] at hp hq
    apply List.forall₂_iff_get.mpr
    have hlp := hp.length_eq
    have hlq := hq.length_eq
    refine ⟨by omega, ?_⟩
    intro i hi hi' hbefore'
    exact hbefore'.disjoint _ ⟨hp.get hi (by omega), hq.get hi' (by omega)⟩
  · intro place
    simp only [List.mem_map, exists_exists_and_eq_and, TileInfo.Holds, zip_map_fst_snd]
    rw [exists_mem_grid_forall₂]
    unfold InShape
    simp only [List.forall₂_iff_get]
    constructor
    · rintro ⟨hlen, hall⟩
      refine ⟨by omega, ?_⟩
      intro i hi hi'
      exact ((hpartition.get (by omega) hi).2.2 _).mp (hall i (by omega) hi')
    · rintro ⟨hlen, hall⟩
      refine ⟨by omega, ?_⟩
      intro i hi hi'
      exact ((hpartition.get hi (by omega)).2.2 _).mpr (hall i (by omega) hi')

theorem Shape.dim_eq_getElem {d : ℕ} (hd : d < shape.length) : shape.dim d = shape[d] := by
  simp [Shape.dim, hd]

theorem get_shapeOffsetPairs (hpairs : List.Forall₂ (fun j p =>
      shapeOffsetPairs divisors shape alignment j = some p) (List.range divisors.length) pairs)
    {d : ℕ} (hd : d < pairs.length) : shapeOffsetPairs divisors shape alignment d =
      some pairs[d] := by
  have hlength := hpairs.length_eq
  rw [List.length_range] at hlength
  have hget := hpairs.get (i := d) (by simpa using hlength ▸ hd) hd
  simpa using hget

theorem piece_of_mem_grid {point : List (ℤ × ℤ)} (hpoint : point ∈ grid pairs) {d : ℕ}
    (hd : d < pairs.length) :
    (Shape.dim (point.map Prod.fst) d, Shape.dim (point.map Prod.snd) d) ∈ pairs[d] := by
  have hmem := mem_grid.mp hpoint
  have hd' : d < point.length := hmem.length_eq ▸ hd
  have hget := hmem.get hd' hd
  rw [Shape.dim_eq_getElem (by simpa using hd'), Shape.dim_eq_getElem (by simpa using hd')]
  simpa using hget

/-- What a division of a shape gives: a partition of as many tiles as the divisors say, with
aligned sizes in front where there is an alignment, and nearly equal sizes where there is none. -/
structure Divides (divisors shape : Shape) (alignment : List ℤ) (tiles : List TileInfo) : Prop where
  partitions : Partitions tiles shape
  count : (tiles.length : ℤ) = divisors.prod
  aligned : ∀ d < shape.length, 1 < alignment.getD d 1 → ∀ tile ∈ tiles,
    alignment.getD d 1 ∣ tile.shape.dim d ∨
      tile.offsets.dim d + tile.shape.dim d = shape.dim d
  even : ∀ d < shape.length, alignment.getD d 1 ≤ 1 → ∀ a ∈ tiles, ∀ b ∈ tiles,
    |a.shape.dim d - b.shape.dim d| ≤ 1

theorem divides_grid (hrank : divisors.length = shape.length)
    (hdivisors : ∀ d < shape.length, 1 ≤ divisors.dim d ∧ divisors.dim d ≤ shape.dim d)
    (hpairs : List.Forall₂ (fun j p => shapeOffsetPairs divisors shape alignment j = some p)
      (List.range divisors.length) pairs) :
    Divides divisors shape alignment ((grid pairs).map fun point =>
      ⟨point.map Prod.fst, point.map Prod.snd, divisors, true⟩) := by
  have hlength : pairs.length = shape.length := by
    have := hpairs.length_eq
    rw [List.length_range] at this
    omega
  have hget : ∀ d (hd : d < pairs.length),
      shapeOffsetPairs divisors shape alignment d = some pairs[d] :=
    fun d hd => get_shapeOffsetPairs hpairs hd
  have hpos : ∀ d < pairs.length, 0 < shape.dim d := by
    intro d hd
    have := hdivisors d (by omega)
    omega
  constructor
  · apply partitions_grid hlength
    apply List.forall₂_iff_get.mpr
    refine ⟨hlength, ?_⟩
    intro d hd hd'
    obtain ⟨hpairwise, hcovers⟩ := pieces_partition (hpos d hd).le (hget d hd)
    refine ⟨hpairwise, ?_, ?_⟩
    · exact (pieces_pos_iff (hpos d hd) (hget d hd)).mpr (Or.inr (hdivisors d hd').2)
    · rw [Shape.dim_eq_getElem hd'] at hcovers
      exact hcovers
  · rw [List.length_map, length_grid, Nat.cast_list_prod]
    congr 1
    apply List.ext_getElem
    · simp [hlength, hrank]
    · intro d hd hd'
      have hd'' : d < pairs.length := by simpa using hd
      have := pieces_length (hpos d hd'').le (hget d hd'')
      rw [Shape.dim_eq_getElem hd'] at this
      simpa using this
  · intro d hd halign tile htile
    obtain ⟨point, hpoint, rfl⟩ := List.mem_map.mp htile
    have hd' : d < pairs.length := by omega
    exact piece_aligned (hpos d hd').le halign (hget d hd') (piece_of_mem_grid hpoint hd')
  · intro d hd halign a ha b hb
    obtain ⟨p, hp, rfl⟩ := List.mem_map.mp ha
    obtain ⟨q, hq, rfl⟩ := List.mem_map.mp hb
    have hd' : d < pairs.length := by omega
    obtain ⟨sizes, hsizes, hzip⟩ := shapeOffsetPairs_eq_some.mp (hget d hd')
    have heven := dividedShapes_even (hpos d hd').le halign hsizes
    have hsize : ∀ point ∈ grid pairs, Shape.dim (point.map Prod.fst) d ∈ sizes := by
      intro point hpoint
      have hmem := piece_of_mem_grid hpoint hd'
      rw [← hzip] at hmem
      exact (List.of_mem_zip hmem).1
    rw [abs_le]
    rcases heven _ (hsize p hp) with h | h <;> rcases heven _ (hsize q hq) with h' | h' <;>
      constructor <;> dsimp only <;> omega

theorem dim_nonneg_of_divisors
    (hdivisors : ∀ d < shape.length, 1 ≤ divisors.dim d ∧ divisors.dim d ≤ shape.dim d) (d : ℕ) :
    0 ≤ shape.dim d := by
  rcases Nat.lt_or_ge d shape.length with hd | hd
  · have := hdivisors d hd
    omega
  · simp [Shape.dim, hd]

theorem divides_of_fillDividedTiles {alignment : Option (List ℤ)} {tiles : List TileInfo}
    (hrank : divisors.length = shape.length)
    (hdivisors : ∀ d < shape.length, 1 ≤ divisors.dim d ∧ divisors.dim d ≤ shape.dim d)
    (h : fillDividedTiles divisors shape alignment = some tiles) :
    Divides divisors shape (alignmentShape shape alignment) tiles := by
  obtain ⟨pairs, hpairs⟩ :=
    shapeOffsetPairs_of_fillDividedTiles (dim_nonneg_of_divisors hdivisors) h
  rw [fillDividedTiles_eq_grid hpairs] at h
  rw [← Option.some.inj h]
  exact divides_grid hrank hdivisors hpairs

theorem fillDividedTiles_eq_none_iff {alignment : Option (List ℤ)}
    (hrank : divisors.length = shape.length)
    (hdivisors : ∀ d < shape.length, 1 ≤ divisors.dim d ∧ divisors.dim d ≤ shape.dim d) :
    fillDividedTiles divisors shape alignment = none ↔
      ∃ d < shape.length, 1 < (alignmentShape shape alignment).getD d 1 ∧
        shape.dim d - (divisors.dim d - 1) * alignValUp (divUp (shape.dim d) (divisors.dim d))
          ((alignmentShape shape alignment).getD d 1) ≤ 0 := by
  have hnone : ∀ d < shape.length, (1 < (alignmentShape shape alignment).getD d 1 ∧
      shape.dim d - (divisors.dim d - 1) * alignValUp (divUp (shape.dim d) (divisors.dim d))
        ((alignmentShape shape alignment).getD d 1) ≤ 0) ↔
      shapeOffsetPairs divisors shape (alignmentShape shape alignment) d = none := by
    intro d hd
    rw [shapeOffsetPairs, Option.bind_eq_bind, mul_comm, ← dividedShapes_eq_none (hdivisors d hd).1]
    cases dividedShapes (shape.dim d) (divisors.dim d)
      ((alignmentShape shape alignment).getD d 1) <;> simp
  constructor
  · intro hfail
    by_contra hall
    push Not at hall
    have hpairs : List.Forall₂ (fun j p => shapeOffsetPairs divisors shape
        (alignmentShape shape alignment) j = some p) (List.range divisors.length)
        ((List.range divisors.length).map fun j =>
          (shapeOffsetPairs divisors shape (alignmentShape shape alignment) j).getD []) := by
      apply List.forall₂_map_right_iff.mpr
      apply List.forall₂_same.mpr
      intro d hd
      have hd' : d < shape.length := hrank ▸ List.mem_range.mp hd
      cases hp : shapeOffsetPairs divisors shape (alignmentShape shape alignment) d with
      | some p => rfl
      | none =>
        obtain ⟨hone, hle⟩ := (hnone d hd').mpr hp
        exact absurd hle (not_le.mpr (hall d hd' hone))
    rw [fillDividedTiles_eq_grid hpairs] at hfail
    contradiction
  · rintro ⟨d, hd, hfail⟩
    unfold fillDividedTiles
    dsimp only
    rw [divideTiles_eq_none (dim_nonneg_of_divisors hdivisors) (Nat.zero_le d) (by omega)
      ((hnone d hd).mp hfail)]
    rfl

/-- The division partitions the shape, and fails exactly when an aligned dimension leaves nothing
for its last tile. -/
theorem fillDividedTiles_divides (divisors shape : Shape) (alignment : Option (List ℤ))
    (hrank : divisors.length = shape.length)
    (hdivisors : ∀ d < shape.length, 1 ≤ divisors.dim d ∧ divisors.dim d ≤ shape.dim d) :
    (∀ tiles, fillDividedTiles divisors shape alignment = some tiles →
      Divides divisors shape (alignmentShape shape alignment) tiles) ∧
    (fillDividedTiles divisors shape alignment = none ↔
      ∃ d < shape.length, 1 < (alignmentShape shape alignment).getD d 1 ∧
        shape.dim d - (divisors.dim d - 1) * alignValUp (divUp (shape.dim d) (divisors.dim d))
          ((alignmentShape shape alignment).getD d 1) ≤ 0) :=
  ⟨fun _ => divides_of_fillDividedTiles hrank hdivisors,
    fillDividedTiles_eq_none_iff hrank hdivisors⟩

/-- Seventeen columns in three tiles, aligned to four. -/
theorem fillDividedTiles_divides_seventeen :
    (∀ tiles, fillDividedTiles [2, 3] [5, 17] (some [1, 4]) = some tiles →
      Divides [2, 3] [5, 17] [1, 4] tiles) ∧
    (fillDividedTiles [2, 3] [5, 17] (some [1, 4]) = none ↔
      ∃ d < 2, 1 < ([1, 4] : List ℤ).getD d 1 ∧
        Shape.dim [5, 17] d - (Shape.dim [2, 3] d - 1) *
          alignValUp (divUp (Shape.dim [5, 17] d) (Shape.dim [2, 3] d))
            (([1, 4] : List ℤ).getD d 1) ≤ 0) :=
  fillDividedTiles_divides [2, 3] [5, 17] (some [1, 4]) rfl (by decide)

end Tiles

end Vpux.Tiling
