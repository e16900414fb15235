import Mathlib.Data.Int.Sqrt
import Vpux.Data.Folds
import Vpux.Tiling.BackInfer
import Vpux.Tiling.Remaining

/-! The workloads that an output is split into (`dialect/VPUIP/dpu_tiler.cpp`). -/
namespace Vpux.VPUIP
open Data Tiling Dims4D

inductive MPEMode
  | VECTOR | MATRIX | VECTOR_FP16 | CUBOID_16x16 | CUBOID_8x16 | CUBOID_4x16 | NOP
  deriving DecidableEq, Repr

inductive SplitDimension
  | SPLIT_OVER_H | SPLIT_OVER_W | SPLIT_OVER_HW
  deriving DecidableEq, Repr

abbrev WorkloadSplit := List (TileInfo × MPEMode)

/-- A set of splits. -/
abbrev WorkloadSplitPool := List WorkloadSplit

def DEFAULT_ZTILE_VALUE : ℤ := 16

def getMpeModeSize : MPEMode → Except String (ℤ × ℤ)
  | .MATRIX => .ok (4, 4)
  | .VECTOR => .ok (1, 16)
  | .VECTOR_FP16 => .ok (1, 4)
  | .CUBOID_16x16 => .ok (16, 16)
  | .CUBOID_8x16 => .ok (8, 16)
  | .CUBOID_4x16 => .ok (4, 16)
  | .NOP => .error "Unsupported MPE mode NOP"

def createWorkloadSplitOverHW (shape : Shape) (widthFactor heightFactor : ℤ) (mpeMode : MPEMode) :
    Except String WorkloadSplit := do
  let mpeModeSize ← getMpeModeSize mpeMode
  let width := shape.dim Act.W
  let height := shape.dim Act.H
  let maxWidth := alignValUp (divUp width widthFactor) mpeModeSize.2
  let actualWidthSplitsNum := divUp width maxWidth
  let maxHeight := alignValUp (divUp height heightFactor) mpeModeSize.1
  let actualHeightSplitsNum := divUp height maxHeight
  return (remainingSteps maxHeight actualHeightSplitsNum.toNat 0 height).flatMap fun h =>
    (remainingSteps maxWidth actualWidthSplitsNum.toNat 0 width).map fun w =>
      ((((TileInfo.ofShape shape).setDim Act.C (shape.dim Act.C) 0 1).setDim Act.H h.1 h.2
        actualHeightSplitsNum).setDim Act.W w.1 w.2 actualWidthSplitsNum, mpeMode)

/-- The pairs of factors, the larger one first. The root in double precision can be above the
integer root for large numbers, but never at a divisor. -/
def getFactorsList (n : ℤ) : List (ℤ × ℤ) :=
  let maxPossibleFactor := Int.sqrt n
  (((List.range maxPossibleFactor.toNat).map fun (i : ℕ) => (i : ℤ) + 1).filter fun i =>
    n.tmod i = 0).map fun i => (n.tdiv i, i)

structure DpuTiler where
  outShape : Shape
  mpeMode : MPEMode
  rank : outShape.length = 4

namespace DpuTiler

def tileOverH (tiler : DpuTiler) (numDPU : ℤ) (splitPool : WorkloadSplitPool) :
    WorkloadSplitPool :=
  let minTileSize := 1
  let minTilesCount := 1
  let maxTilesCount := numDPU
  let tilesCount :=
    min (max ((tiler.outShape.dim Act.H).tdiv minTileSize) minTilesCount) maxTilesCount
  let nTilesOnDim := (List.replicate tiler.outShape.length minTilesCount).set Act.H tilesCount
  match fillDividedTiles nTilesOnDim tiler.outShape none with
  | none => splitPool
  | some outTiles => splitPool.insert (outTiles.map fun outTile => (outTile, tiler.mpeMode))

def tileOverZ (tiler : DpuTiler) (splitNumber : ℤ) (splitPool : WorkloadSplitPool)
    (requiresEqualZ : Bool) : Except String WorkloadSplitPool :=
  if splitNumber = 0 then .error s!"Invalid split number: {splitNumber}"
  else
    let C := tiler.outShape.dim Act.C
    let maxChannelPerWL := alignValUp (divUp C splitNumber) DEFAULT_ZTILE_VALUE
    if maxChannelPerWL < DEFAULT_ZTILE_VALUE then .ok splitPool
    else if requiresEqualZ ∧ maxChannelPerWL * splitNumber ≠ C then .ok splitPool
    else
      let actualSplitNumber := divUp C maxChannelPerWL
      let split := (remainingSteps maxChannelPerWL actualSplitNumber.toNat 0 C).mapM fun c =>
        if c.1.tmod DEFAULT_ZTILE_VALUE ≠ 0 then none
        else some ((TileInfo.ofShape tiler.outShape).setDim Act.C c.1 c.2 actualSplitNumber,
          tiler.mpeMode)
      -- a tile that is not aligned returns out of the loop
      .ok (split.elim splitPool splitPool.insert)

def emplaceSplitOverHW (tiler : DpuTiler) (widthFactor heightFactor : ℤ)
    (splitPool : WorkloadSplitPool) : Except String WorkloadSplitPool := do
  let split ← createWorkloadSplitOverHW tiler.outShape widthFactor heightFactor tiler.mpeMode
  return splitPool.insert split

def tileOverHW (tiler : DpuTiler) (splitNumber : ℤ) (splitDimension : SplitDimension)
    (splitPool : WorkloadSplitPool) : Except String WorkloadSplitPool :=
  if splitNumber = 0 then .error s!"Invalid split number: {splitNumber}"
  else
    let width := tiler.outShape.dim Act.W
    let height := tiler.outShape.dim Act.H
    match splitDimension with
    | .SPLIT_OVER_H => tiler.emplaceSplitOverHW 1 splitNumber splitPool
    | .SPLIT_OVER_W => tiler.emplaceSplitOverHW splitNumber 1 splitPool
    | .SPLIT_OVER_HW =>
      (getFactorsList splitNumber).foldlM (fun splitPool factor => do
        let splitPool ← (if factor.1 ≤ width ∧ factor.2 ≤ height then
            tiler.emplaceSplitOverHW factor.1 factor.2 splitPool
          else .ok splitPool)
        if factor.2 ≤ width ∧ factor.1 ≤ height then
          tiler.emplaceSplitOverHW factor.2 factor.1 splitPool
        else .ok splitPool) splitPool

end DpuTiler

variable {widthFactor heightFactor : ℤ}

open TileInfo

section Splits

variable {shape : Shape} {mpeMode : MPEMode} {split : WorkloadSplit}

theorem getMpeModeSize_pos {size : ℤ × ℤ} (h : getMpeModeSize mpeMode = .ok size) :
    0 < size.1 ∧ 0 < size.2 := by
  cases mpeMode <;> cases h <;> decide

theorem alignValUp_divUp_pos {size factor align : ℤ} (hsize : 0 < size) (hfactor : 0 < factor)
    (halign : 0 < align) : 0 < alignValUp (divUp size factor) align :=
  lt_of_lt_of_le (divUp_pos hsize hfactor) (le_alignValUp (divUp_nonneg hsize.le hfactor) halign)

theorem createWorkloadSplitOverHW_partitions (hrank : shape.length = 4)
    (hpositive : ∀ size ∈ shape, 0 < size) (hw : 0 < widthFactor) (hh : 0 < heightFactor)
    (h : createWorkloadSplitOverHW shape widthFactor heightFactor mpeMode = .ok split) :
    Partitions (split.map Prod.fst) shape := by
  obtain ⟨n, c, height, width, rfl⟩ := List.length_eq_four.mp hrank
  simp only [List.mem_cons, List.not_mem_nil, or_false, forall_eq_or_imp, forall_eq] at hpositive
  obtain ⟨hn, hc, hheight, hwidth⟩ := hpositive
  obtain ⟨mpeModeSize, hmode, hsplit⟩ := bind_eq_ok.mp h
  obtain ⟨hfirst, hsecond⟩ := getMpeModeSize_pos hmode
  have hmaxHeight := alignValUp_divUp_pos hheight hh hfirst
  have hmaxWidth := alignValUp_divUp_pos hwidth hw hsecond
  have hgrid := @partitions_grid [] [n, c, height, width] [[(n, 0)], [(c, 0)], _, _] rfl
    (.cons (whole_partition hn) (.cons (whole_partition hc)
      (.cons (remainingSteps_pieces hmaxHeight hheight)
        (.cons (remainingSteps_pieces hmaxWidth hwidth) .nil))))
  apply hgrid.of_boxes
  cases hsplit
  simp [grid, box, ofShape, setDim, Shape.dim, Act.C, Act.H, Act.W,
    List.map_flatMap, Function.comp_def, ← List.map_eq_flatMap]

end Splits

/-- The pool gains splits with the property only. -/
def Inserts (pool : WorkloadSplitPool) (good : WorkloadSplit → Prop) (pool' : WorkloadSplitPool) :
    Prop := ∀ split ∈ pool', split ∈ pool ∨ good split

section Inserts

variable {pool pool' pool'' : WorkloadSplitPool} {good : WorkloadSplit → Prop}

theorem Inserts.refl : Inserts pool good pool := fun _ h => Or.inl h

theorem Inserts.insert (h : Inserts pool good pool') {split : WorkloadSplit} (hgood : good split) :
    Inserts pool good (pool'.insert split) := by
  intro other hother
  rcases List.mem_insert_iff.mp hother with rfl | hold
  · exact Or.inr hgood
  · exact h other hold

end Inserts

/-- The tiles of the split take every place of the output once. -/
def Splits (shape : Shape) (split : WorkloadSplit) : Prop := Partitions (split.map Prod.fst) shape

/-- The channels of every tile fill whole blocks, and are as many in every tile where asked. -/
structure SplitsOverZ (shape : Shape) (requiresEqualZ : Bool) (split : WorkloadSplit) : Prop where
  splits : Splits shape split
  aligned : ∀ workload ∈ split, DEFAULT_ZTILE_VALUE ∣ workload.1.shape.dim Act.C
  equal : requiresEqualZ → ∀ a ∈ split, ∀ b ∈ split, a.1.shape.dim Act.C = b.1.shape.dim Act.C

namespace DpuTiler

variable {tiler : DpuTiler} {pool pool' : WorkloadSplitPool} {splitNumber : ℤ}

section

variable (hpositive : ∀ size ∈ tiler.outShape, 0 < size)
include hpositive

theorem tileOverH_eq_insert {numDPU : ℤ} (hnumDPU : 0 < numDPU) : ∃ split,
    Splits tiler.outShape split ∧ tiler.tileOverH numDPU pool = pool.insert split := by
  obtain ⟨shape, mpeMode, hrank⟩ := tiler
  obtain ⟨n, c, height, width, rfl⟩ := List.length_eq_four.mp hrank
  have hall : ∀ size ∈ [n, c, height, width], 0 < size := hpositive
  simp only [List.mem_cons, List.not_mem_nil, or_false, forall_eq_or_imp, forall_eq] at hall
  obtain ⟨hn, hc, hheight, hwidth⟩ := hall
  have hdivisors : ∀ d < 4, 1 ≤ Shape.dim [1, 1, min (max height 1) numDPU, 1] d ∧
      Shape.dim [1, 1, min (max height 1) numDPU, 1] d ≤ Shape.dim [n, c, height, width] d := by
    intro d hd
    obtain rfl | rfl | rfl | rfl : d = 0 ∨ d = 1 ∨ d = 2 ∨ d = 3 := by omega
    all_goals simp only [Shape.dim, List.getD_cons_zero, List.getD_cons_succ]; omega
  have hsome : fillDividedTiles [1, 1, min (max height 1) numDPU, 1] [n, c, height, width] none ≠
      none := by
    have hfails : fillDividedTiles [1, 1, min (max height 1) numDPU, 1] [n, c, height, width]
        none = none ↔ _ := fillDividedTiles_eq_none_iff rfl hdivisors
    rw [ne_eq, hfails]
    rintro ⟨d, hd, hone, -⟩
    rw [alignmentShape, Option.getD_none, List.getD_eq_getElem _ _ (by simpa using hd),
      List.getElem_replicate] at hone
    exact absurd hone (lt_irrefl 1)
  obtain ⟨outTiles, houtTiles⟩ := Option.ne_none_iff_exists'.mp hsome
  have hdivides : Divides [1, 1, min (max height 1) numDPU, 1] [n, c, height, width] _ outTiles :=
    divides_of_fillDividedTiles rfl hdivisors houtTiles
  refine ⟨outTiles.map fun outTile => (outTile, mpeMode), ?_, ?_⟩
  · simpa [Splits, Function.comp_def] using hdivides.partitions
  · simp [tileOverH, Shape.dim, Act.H, houtTiles]

theorem tileOverZ_inserts (hsplitNumber : 0 < splitNumber) {requiresEqualZ : Bool}
    (h : tiler.tileOverZ splitNumber pool requiresEqualZ = .ok pool') :
    Inserts pool (SplitsOverZ tiler.outShape requiresEqualZ) pool' := by
  obtain ⟨shape, mpeMode, hrank⟩ := tiler
  obtain ⟨n, c, height, width, rfl⟩ := List.length_eq_four.mp hrank
  have hall : ∀ size ∈ [n, c, height, width], 0 < size := hpositive
  simp only [List.mem_cons, List.not_mem_nil, or_false, forall_eq_or_imp, forall_eq] at hall
  obtain ⟨hn, hc, hheight, hwidth⟩ := hall
  have hmax : 0 < alignValUp (divUp c splitNumber) DEFAULT_ZTILE_VALUE :=
    alignValUp_divUp_pos hc hsplitNumber (by decide)
  have hC : Shape.dim [n, c, height, width] Act.C = c := rfl
  simp only [tileOverZ, hsplitNumber.ne', if_false, hC] at h
  generalize alignValUp (divUp c splitNumber) DEFAULT_ZTILE_VALUE = maxChannelPerWL at h hmax
  split_ifs at h with hsmall hequal
  · cases h
    exact Inserts.refl
  · cases h
    exact Inserts.refl
  · cases h
    cases hsplit : (remainingSteps maxChannelPerWL (divUp c maxChannelPerWL).toNat 0 c).mapM
        fun q => if q.1.tmod DEFAULT_ZTILE_VALUE ≠ 0 then none
          else some ((ofShape [n, c, height, width]).setDim Act.C q.1 q.2
            (divUp c maxChannelPerWL), mpeMode) with
    | none => exact Inserts.refl
    | some split =>
      obtain ⟨haligned, rfl⟩ := mapM_guard_eq_some.mp hsplit
      apply Inserts.refl.insert
      constructor
      · have hgrid := @partitions_grid [] [n, c, height, width]
          [[(n, 0)], _, [(height, 0)], [(width, 0)]] rfl
          (.cons (whole_partition hn) (.cons (remainingSteps_pieces hmax hc)
            (.cons (whole_partition hheight) (.cons (whole_partition hwidth) .nil))))
        apply hgrid.of_boxes
        simp [grid, box, ofShape, setDim, Act.C, Function.comp_def,
          ← List.map_eq_flatMap]
      · intro workload hworkload
        obtain ⟨q, hq, rfl⟩ := List.mem_map.mp hworkload
        exact Int.dvd_of_tmod_eq_zero (not_not.mp (haligned q hq))
      · intro hrequires a ha b hb
        have hc' : c = splitNumber * maxChannelPerWL := by
          rw [mul_comm]
          by_contra hne
          exact hequal ⟨hrequires, fun heq => hne heq.symm⟩
        have hcount : c = ((divUp c maxChannelPerWL).toNat : ℤ) * maxChannelPerWL := by
          rw [hc', divUp_mul_self hmax hsplitNumber.le, Int.toNat_of_nonneg hsplitNumber.le]
        have hall := remainingSteps_equal hmax hcount 0
        obtain ⟨p, hp, rfl⟩ := List.mem_map.mp ha
        obtain ⟨q, hq, rfl⟩ := List.mem_map.mp hb
        exact (hall p hp).trans (hall q hq).symm

theorem emplaceSplitOverHW_inserts (hw : 0 < widthFactor) (hh : 0 < heightFactor)
    {start : WorkloadSplitPool} (hstart : Inserts start (Splits tiler.outShape) pool)
    (h : tiler.emplaceSplitOverHW widthFactor heightFactor pool = .ok pool') :
    Inserts start (Splits tiler.outShape) pool' := by
  obtain ⟨split, hsplit, hinsert⟩ := bind_eq_ok.mp h
  cases hinsert
  exact hstart.insert (createWorkloadSplitOverHW_partitions tiler.rank hpositive hw hh hsplit)

end

theorem pos_of_mem_getFactorsList {n : ℤ} (hn : 0 < n) {factor : ℤ × ℤ}
    (h : factor ∈ getFactorsList n) : 0 < factor.1 ∧ 0 < factor.2 := by
  simp only [getFactorsList, List.mem_map, List.mem_filter, List.mem_range, decide_eq_true_eq]
    at h
  obtain ⟨i, ⟨⟨k, -, rfl⟩, hdvd⟩, rfl⟩ := h
  have hi : (0 : ℤ) < k + 1 := by omega
  obtain ⟨q, rfl⟩ := Int.dvd_of_tmod_eq_zero hdvd
  refine ⟨?_, hi⟩
  rw [Int.mul_tdiv_cancel_left q hi.ne']
  exact pos_of_mul_pos_right hn hi.le

theorem tileOverHW_inserts (hpositive : ∀ size ∈ tiler.outShape, 0 < size)
    (hsplitNumber : 0 < splitNumber) {splitDimension : SplitDimension}
    (h : tiler.tileOverHW splitNumber splitDimension pool = .ok pool') :
    Inserts pool (Splits tiler.outShape) pool' := by
  rw [tileOverHW, if_neg hsplitNumber.ne'] at h
  cases splitDimension with
  | SPLIT_OVER_H => exact emplaceSplitOverHW_inserts hpositive one_pos hsplitNumber .refl h
  | SPLIT_OVER_W => exact emplaceSplitOverHW_inserts hpositive hsplitNumber one_pos .refl h
  | SPLIT_OVER_HW =>
    -- each of the two orders of the factors inserts a split, or is left out
    have horder : ∀ (fits : Prop) [Decidable fits] (a b : ℤ), 0 < a → 0 < b → ∀ p p',
        Inserts pool (Splits tiler.outShape) p →
          (if fits then tiler.emplaceSplitOverHW a b p else .ok p) = .ok p' →
            Inserts pool (Splits tiler.outShape) p' := by
      intro fits _ a b ha hb p p' hp hemplace
      split_ifs at hemplace with hfits
      · exact emplaceSplitOverHW_inserts hpositive ha hb hp hemplace
      · cases hemplace
        exact hp
    refine foldlM_ok_keeps ?_ Inserts.refl h
    intro p p' factor hfactor hp hstep
    obtain ⟨hlarger, hsmaller⟩ := pos_of_mem_getFactorsList hsplitNumber hfactor
    obtain ⟨middle, hfirst, hsecond⟩ := bind_eq_ok.mp hstep
    exact horder _ _ _ hsmaller hlarger _ _ (horder _ _ _ hlarger hsmaller _ _ hp hfirst) hsecond

theorem getMpeModeSize_isOk {mpeMode : MPEMode} (h : mpeMode ≠ .NOP) :
    ∃ size, getMpeModeSize mpeMode = .ok size := by
  cases mpeMode <;> first | exact ⟨_, rfl⟩ | exact absurd rfl h

theorem tileOverZ_isOk (pool : WorkloadSplitPool) (hsplitNumber : 0 < splitNumber)
    (requiresEqualZ : Bool) :
    ∃ pool', tiler.tileOverZ splitNumber pool requiresEqualZ = .ok pool' := by
  rw [tileOverZ, if_neg hsplitNumber.ne']
  dsimp only
  split_ifs <;> exact ⟨_, rfl⟩

theorem emplaceSplitOverHW_isOk (h : tiler.mpeMode ≠ .NOP) (widthFactor heightFactor : ℤ)
    (pool : WorkloadSplitPool) :
    ∃ pool', tiler.emplaceSplitOverHW widthFactor heightFactor pool = .ok pool' := by
  obtain ⟨size, hsize⟩ := getMpeModeSize_isOk h
  exact ⟨_, bind_eq_ok.mpr ⟨_, bind_eq_ok.mpr ⟨size, hsize, rfl⟩, rfl⟩⟩

theorem tileOverHW_isOk (h : tiler.mpeMode ≠ .NOP) (hsplitNumber : 0 < splitNumber)
    (splitDimension : SplitDimension) (pool : WorkloadSplitPool) :
    ∃ pool', tiler.tileOverHW splitNumber splitDimension pool = .ok pool' := by
  rw [tileOverHW, if_neg hsplitNumber.ne']
  cases splitDimension with
  | SPLIT_OVER_H => exact emplaceSplitOverHW_isOk h _ _ pool
  | SPLIT_OVER_W => exact emplaceSplitOverHW_isOk h _ _ pool
  | SPLIT_OVER_HW =>
    have horder : ∀ (fits : Prop) [Decidable fits] (a b : ℤ) (p : WorkloadSplitPool),
        ∃ p', (if fits then tiler.emplaceSplitOverHW a b p else .ok p) = .ok p' := by
      intro fits _ a b p
      split_ifs
      · exact emplaceSplitOverHW_isOk h a b p
      · exact ⟨p, rfl⟩
    apply foldlM_isOk
    intro p factor
    obtain ⟨middle, hfirst⟩ := horder (factor.1 ≤ tiler.outShape.dim Act.W ∧
      factor.2 ≤ tiler.outShape.dim Act.H) factor.1 factor.2 p
    obtain ⟨p', hsecond⟩ := horder (factor.2 ≤ tiler.outShape.dim Act.W ∧
      factor.1 ≤ tiler.outShape.dim Act.H) factor.2 factor.1 middle
    exact ⟨p', bind_eq_ok.mpr ⟨middle, hfirst, hsecond⟩⟩

/-- Every split that the tiler inserts takes every place of the output once, in whole blocks of
channels where it is split over them; only an engine mode without a size is refused. Over the rows
a split is always inserted. -/
theorem tiler_inserts_splits (tiler : DpuTiler) (hpositive : ∀ size ∈ tiler.outShape, 0 < size)
    (pool : WorkloadSplitPool) (splitNumber : ℤ) (hsplitNumber : 0 < splitNumber) :
    (∃ split, Splits tiler.outShape split ∧
      tiler.tileOverH splitNumber pool = pool.insert split) ∧
    (∀ requiresEqualZ, ∃ pool', tiler.tileOverZ splitNumber pool requiresEqualZ = .ok pool' ∧
      Inserts pool (SplitsOverZ tiler.outShape requiresEqualZ) pool') ∧
    (∀ splitDimension,
      (tiler.mpeMode ≠ .NOP →
        ∃ pool', tiler.tileOverHW splitNumber splitDimension pool = .ok pool') ∧
      ∀ pool', tiler.tileOverHW splitNumber splitDimension pool = .ok pool' →
        Inserts pool (Splits tiler.outShape) pool') := by
  refine ⟨tileOverH_eq_insert hpositive hsplitNumber, fun requiresEqualZ => ?_,
    fun splitDimension => ⟨fun hmode => ?_, fun pool' h => ?_⟩⟩
  · obtain ⟨pool', hpool'⟩ := tileOverZ_isOk pool hsplitNumber requiresEqualZ
    exact ⟨pool', hpool', tileOverZ_inserts hpositive hsplitNumber hpool'⟩
  · exact tileOverHW_isOk hmode hsplitNumber splitDimension pool
  · exact tileOverHW_inserts hpositive hsplitNumber h

/-- Twelve rows and columns and three blocks of channels, in three pieces. -/
theorem inserts_splits_twelve :
    let tiler : DpuTiler := ⟨[1, 48, 12, 12], .MATRIX, rfl⟩
    (∃ split, Splits [1, 48, 12, 12] split ∧ tiler.tileOverH 3 [] = [split]) ∧
    (∀ requiresEqualZ, ∃ pool', tiler.tileOverZ 3 [] requiresEqualZ = .ok pool' ∧
      Inserts [] (SplitsOverZ [1, 48, 12, 12] requiresEqualZ) pool') ∧
    (∀ splitDimension,
      (MPEMode.MATRIX ≠ .NOP → ∃ pool', tiler.tileOverHW 3 splitDimension [] = .ok pool') ∧
      ∀ pool', tiler.tileOverHW 3 splitDimension [] = .ok pool' →
        Inserts [] (Splits [1, 48, 12, 12]) pool') :=
  tiler_inserts_splits ⟨[1, 48, 12, 12], .MATRIX, rfl⟩ (by decide) [] 3 (by decide)

end DpuTiler

end Vpux.VPUIP
