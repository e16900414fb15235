import Vpux.Core.StrideReqs
import Vpux.Distribution.ClusterCount
import Vpux.VPU.ArchKind

/-! A layer that may be split over its height is split at the smaller alignment as the DPU asks for
(`dialect/VPU/utils/distributed_tensor_utils.cpp`). -/
namespace Vpux.VPU
open Vpux.Core Tiling Dims4D

def VPU_SEGMENT_SIZE_DENSE : ℤ := 4

def VPU_SEGMENT_SIZE_SPARSE : ℤ := 8

def isArchVPUX3XXX (arch : ArchKind) : Bool := arch = .VPUX37XX ∨ arch = .VPUX30XX

def spatialAlignment (isInputSparse : Bool) : ℤ :=
  if isInputSparse then VPU_SEGMENT_SIZE_SPARSE else VPU_SEGMENT_SIZE_DENSE

/-- The widths that are tried: the alignment of the segment is halved down to one. -/
def widthAlignments (isInputSparse : Bool) : List ℤ :=
    if isInputSparse then [8, 4, 2, 1] else [4, 2, 1]

def getSOHPerClusterHeightAlignment (inputWidth : ℤ) (isInputSparse : Bool) : ℤ :=
  ((widthAlignments isInputSparse).find? fun widthAlignment =>
    inputWidth.tmod widthAlignment = 0).elim (spatialAlignment isInputSparse) fun widthAlignment =>
      (spatialAlignment isInputSparse).tdiv widthAlignment

def getSOHMinimalHeightAlignment (shape : Shape) (numClusters : ℤ) (isInputSparse : Bool)
    (arch : ArchKind) : ℤ :=
  if !isArchVPUX3XXX arch then 1
  else if shape.length < Act.W + 1 then 1
  else
    let heightAlignment := getSOHPerClusterHeightAlignment (shape.dim Act.W) isInputSparse
    -- the powers of two that can be smaller than the alignment found
    ([1, 2, 4].find? fun alignment =>
      alignment < heightAlignment ∧
        (alignValUp (divUp (shape.dim Act.H) numClusters) alignment * shape.dim Act.W).tmod
          (spatialAlignment isInputSparse) = 0).getD heightAlignment

/-- The data of a sparse input can be smaller than the input. -/
def isSOHSupportedByDPU (sparseInputData : Option Shape) (inputShape : Shape) (numClusters : ℤ)
    (DWTypeOp : Bool) (arch : ArchKind) : Bool :=
  let isInputSparse := sparseInputData.isSome
  if sparseInputData.any fun inputDataShape => inputDataShape.dim Act.H ≤ 1 then false
  else
    let IH := inputShape.dim Act.H
    let IW := inputShape.dim Act.W
    let noDWAlignment := DWTypeOp && arch ≠ .VPUX37XX
    let alignment := if noDWAlignment then 1 else getSOHPerClusterHeightAlignment IW isInputSparse
    let hPerCluster := alignValUp (divUp IH numClusters) alignment
    let hLastCluster := IH - hPerCluster * (numClusters - 1)
    0 < hLastCluster

section Alignment

variable {shape : Shape} {numClusters : ℤ} {isInputSparse : Bool}

theorem getSOHPerClusterHeightAlignment_spec (inputWidth : ℤ) (isInputSparse : Bool) :
    getSOHPerClusterHeightAlignment inputWidth isInputSparse ∈ [(1 : ℤ), 2, 4, 8] ∧
      spatialAlignment isInputSparse ∣
        getSOHPerClusterHeightAlignment inputWidth isInputSparse * inputWidth := by
  unfold getSOHPerClusterHeightAlignment
  cases hfind : (widthAlignments isInputSparse).find? fun widthAlignment =>
      inputWidth.tmod widthAlignment = 0 with
  | none =>
    have hone := List.find?_eq_none.mp hfind 1 (by cases isInputSparse <;> decide)
    simp [Int.tmod_one] at hone
  | some widthAlignment =>
    have hmem := List.mem_of_find?_eq_some hfind
    have hzero : inputWidth.tmod widthAlignment = 0 := by simpa using List.find?_some hfind
    have hdvd : widthAlignment ∣ inputWidth := Int.dvd_of_tmod_eq_zero hzero
    have hparts : (spatialAlignment isInputSparse).tdiv widthAlignment ∈ [(1 : ℤ), 2, 4, 8] ∧
        (spatialAlignment isInputSparse).tdiv widthAlignment * widthAlignment =
          spatialAlignment isInputSparse := by
      clear hfind hzero hdvd
      revert widthAlignment
      cases isInputSparse <;> decide
    refine ⟨hparts.1, ?_⟩
    calc spatialAlignment isInputSparse
        = (spatialAlignment isInputSparse).tdiv widthAlignment * widthAlignment := hparts.2.symm
      _ ∣ (spatialAlignment isInputSparse).tdiv widthAlignment * inputWidth :=
        Int.mul_dvd_mul_left _ hdvd

theorem dvd_alignValUp_mul {a s w : ℤ} (h : s ∣ a * w) (x : ℤ) : s ∣ alignValUp x a * w := by
  rw [alignValUp, mul_assoc]
  exact Dvd.dvd.mul_left h _

/-- The smaller alignment divides the one of the check, and its parts are whole segments. -/
theorem getSOHMinimalHeightAlignment_spec {arch : ArchKind} (harch : isArchVPUX3XXX arch = true)
    (hrank : Act.W < shape.length) :
    0 < getSOHMinimalHeightAlignment shape numClusters isInputSparse arch ∧
      getSOHMinimalHeightAlignment shape numClusters isInputSparse arch ∣
        getSOHPerClusterHeightAlignment (shape.dim Act.W) isInputSparse ∧
      spatialAlignment isInputSparse ∣
        alignValUp (divUp (shape.dim Act.H) numClusters)
          (getSOHMinimalHeightAlignment shape numClusters isInputSparse arch) * shape.dim
            Act.W := by
  obtain ⟨hpower, hdvd⟩ := getSOHPerClusterHeightAlignment_spec (shape.dim Act.W) isInputSparse
  have hmany : ¬ shape.length < Act.W + 1 := by omega
  simp only [getSOHMinimalHeightAlignment, harch, hmany, Bool.not_true, Bool.false_eq_true,
    if_false]
  generalize getSOHPerClusterHeightAlignment (shape.dim Act.W) isInputSparse = heightAlignment at *
  cases hfind : [(1 : ℤ), 2, 4].find? fun alignment => decide (alignment < heightAlignment ∧
      (alignValUp (divUp (shape.dim Act.H) numClusters) alignment * shape.dim Act.W).tmod
        (spatialAlignment isInputSparse) = 0) with
  | none =>
    refine ⟨?_, dvd_rfl, dvd_alignValUp_mul hdvd _⟩
    clear hfind hdvd
    revert heightAlignment
    decide
  | some alignment =>
    have hmem := List.mem_of_find?_eq_some hfind
    have hsome := List.find?_some hfind
    obtain ⟨hlt, hzero⟩ := of_decide_eq_true hsome
    have hdivides : 0 < alignment ∧ alignment ∣ heightAlignment := by
      clear hfind hsome hzero hdvd
      revert alignment
      revert heightAlignment
      decide
    exact ⟨hdivides.1, hdivides.2, Int.dvd_of_tmod_eq_zero hzero⟩

theorem alignValUp_le_of_dvd {a b x : ℤ} (hx : 0 ≤ x) (ha : 0 < a) (hb : 0 < b) (h : a ∣ b) :
    alignValUp x a ≤ alignValUp x b := by
  have hle := le_alignValUp hx hb
  obtain ⟨k, hk⟩ : a ∣ alignValUp x b := h.trans (StrideReqs.dvd_alignValUp x b)
  rw [alignValUp, if_pos hx, one_mul, Int.tdiv_eq_ediv_of_nonneg (by omega), hk, mul_comm a]
  apply mul_le_mul_of_nonneg_right _ ha.le
  have hlt : (x + (a - 1)) / a < k + 1 := by
    apply Int.ediv_lt_of_lt_mul ha
    nlinarith
  omega

theorem le_divUp_mul {a b : ℤ} (hb : 0 < b) : a ≤ divUp a b * b := by
  have hsum := Int.mul_tdiv_add_tmod (a + b - 1) b
  have hrest := Int.tmod_lt_of_pos (a + b - 1) hb
  rw [divUp, mul_comm]
  omega

theorem isSOHSupportedByDPU_spec {sparseInputData : Option Shape} {arch : ArchKind}
    (h : isSOHSupportedByDPU sparseInputData shape numClusters false arch = true) :
    0 < shape.dim Act.H - alignValUp (divUp (shape.dim Act.H) numClusters)
      (getSOHPerClusterHeightAlignment (shape.dim Act.W) sparseInputData.isSome) *
        (numClusters - 1) := by
  simp only [isSOHSupportedByDPU, Bool.false_and, Bool.false_eq_true, if_false] at h
  split_ifs at h with hdata
  simpa using h

end Alignment

/-- The segments of a split over height: all but the last are equal and are whole segments of the
DPU, and the last is not larger. -/
structure SegmentsOfHeight (shape : Shape) (n : ℤ) (isInputSparse : Bool) (tile last : Shape) :
    Prop where
  whole : (tile.dim Act.H * shape.dim Act.W) % (if isInputSparse then 8 else 4) = 0
  width : tile.dim Act.W = shape.dim Act.W
  last_pos : 0 < last.dim Act.H
  last_le : last.dim Act.H ≤ tile.dim Act.H
  sum : (n - 1) * tile.dim Act.H + last.dim Act.H = shape.dim Act.H

def heightAlignmentOf (shape : Shape) (heightAlignment : ℤ) : List ℤ :=
  (List.replicate shape.length 1).set Act.H heightAlignment

theorem heightAlignmentOf_spec {shape : Shape} {alignment : ℤ} (hrank : Act.W < shape.length)
    (hpos : 0 < alignment) :
    shape.length = (heightAlignmentOf shape alignment).length ∧
      (∀ x ∈ heightAlignmentOf shape alignment, 0 < x) ∧
      (heightAlignmentOf shape alignment).getD Act.H 1 = alignment ∧
      (heightAlignmentOf shape alignment).getD Act.W 1 = 1 := by
  have hH : Act.H < shape.length := lt_trans (by decide) hrank
  have hne : Act.H ≠ Act.W := by decide
  refine ⟨by simp [heightAlignmentOf], fun x hx => ?_, ?_, ?_⟩
  · rcases List.mem_or_eq_of_mem_set hx with hone | rfl
    · rw [List.eq_of_mem_replicate hone]
      exact one_pos
    · exact hpos
  · simp [heightAlignmentOf, List.getD, hH]
  · rw [heightAlignmentOf, List.getD_eq_getElem?_getD, List.getElem?_set_ne hne]
    simp [hrank]

theorem last_of_finer {x n a b : ℤ} (hn : 2 ≤ n) (ha : 0 < a) (hb : 0 < b) (h : a ∣ b)
    (hlast : 0 < x - alignValUp (divUp x n) b * (n - 1)) :
    0 < x - alignValUp (divUp x n) a * (n - 1) ∧
      x - alignValUp (divUp x n) a * (n - 1) ≤ alignValUp (divUp x n) a := by
  have hceil := le_divUp_mul (a := x) (show 0 < n by omega)
  have hcoarse : divUp x n ≤ alignValUp (divUp x n) b := StrideReqs.le_alignValUp hb
  have hquot : 0 ≤ divUp x n := by
    nlinarith
  have hfine := alignValUp_le_of_dvd hquot ha hb h
  have hfine' := le_alignValUp hquot ha
  constructor <;> nlinarith

/-- What is supported is split into whole segments of the DPU. -/
theorem isSOHSupportedByDPU_segments {shape : Shape} {n : ℤ} {sparseInputData : Option Shape}
    {arch : ArchKind} (hrank : Act.W < shape.length) (hn : 2 ≤ n)
    (harch : isArchVPUX3XXX arch = true)
    (h : isSOHSupportedByDPU sparseInputData shape n false arch = true) :
    ∃ tile last,
      splitOver shape Act.H (some (heightAlignmentOf shape
          (getSOHMinimalHeightAlignment shape n sparseInputData.isSome arch))) false n =
        some (List.replicate (n - 1).toNat tile ++ [last]) ∧
      SegmentsOfHeight shape n sparseInputData.isSome tile last := by
  have hcheck := isSOHSupportedByDPU_spec h
  obtain ⟨hpower, -⟩ :=
    getSOHPerClusterHeightAlignment_spec (shape.dim Act.W) sparseInputData.isSome
  obtain ⟨hpos, hdvd, hwhole⟩ :=
    @getSOHMinimalHeightAlignment_spec shape n sparseInputData.isSome arch harch hrank
  generalize getSOHMinimalHeightAlignment shape n sparseInputData.isSome arch = alignment at *
  generalize getSOHPerClusterHeightAlignment (shape.dim Act.W) sparseInputData.isSome =
    checked at *
  have hcheckedPos : 0 < checked := by
    clear hcheck hdvd
    revert checked
    decide
  obtain ⟨hlastPos, hlastLe⟩ := last_of_finer hn hpos hcheckedPos hdvd hcheck
  have hH : Act.H < shape.length := lt_trans (by decide) hrank
  have hne : Act.W ≠ Act.H := by decide
  obtain ⟨hlength, hpositive, hunitH, hunitW⟩ := heightAlignmentOf_spec hrank hpos
  have hrank' : ∀ a ∈ some (heightAlignmentOf shape alignment), shape.length = a.length := by
    simpa using hlength
  obtain ⟨tile, htile⟩ := @alignShape_isSome (some (heightAlignmentOf shape alignment))
    (by simpa using hpositive) alignValUp (shape.set Act.H (divUp (shape.dim Act.H) n))
  obtain ⟨-, hdims⟩ := alignShape_spec (fun a ha => by simpa using hrank' a ha) htile
  rw [List.length_set] at hdims
  have htileH : tile.dim Act.H = alignValUp (divUp (shape.dim Act.H) n) alignment := by
    rw [hdims Act.H hH, Option.elim_some, hunitH, dim_set_self hH]
  have htileW : tile.dim Act.W = shape.dim Act.W := by
    rw [hdims Act.W hrank, Option.elim_some, hunitW, dim_set_of_ne hne, alignValUp_one]
  have hscheme : ((List.replicate shape.length (1 : ℤ)).set Act.H n).getD Act.H 0 = n := by
    simp [List.getD, hH]
  refine ⟨tile, shape.set Act.H (shape.dim Act.H - tile.dim Act.H * (n - 1)), ?_, ?_⟩
  · rw [← htileH] at hlastPos
    unfold splitOver splitSegmentedShape splitDividedUp
    simp only [hH, hscheme, htile, hlastPos, guard_true, Option.bind_eq_bind, Option.bind_some,
      Bool.false_eq_true, if_false, Option.pure_def]
  · constructor
    case whole =>
      rw [htileH]
      apply Int.emod_eq_zero_of_dvd
      cases sparseInputData <;> exact hwhole
    case width => exact htileW
    case last_pos => rwa [dim_set_self hH, htileH]
    case last_le => rwa [dim_set_self hH, htileH]
    case sum =>
      rw [dim_set_self hH]
      ring

/-- Ten rows of seven pixels over three clusters: four rows are the finest whole segments. -/
theorem segments_tenRows :
    isSOHSupportedByDPU none [1, 16, 10, 7] 3 false .VPUX37XX = true ∧
      ∃ tile last, splitOver [1, 16, 10, 7] Act.H (some (heightAlignmentOf [1, 16, 10, 7]
          (getSOHMinimalHeightAlignment [1, 16, 10, 7] 3 false .VPUX37XX))) false 3 =
        some (List.replicate 2 tile ++ [last]) ∧
      SegmentsOfHeight [1, 16, 10, 7] 3 false tile last :=
  ⟨by decide +kernel, @isSOHSupportedByDPU_segments [1, 16, 10, 7] 3 none .VPUX37XX (by decide)
    (by decide) rfl (by decide +kernel)⟩

end Vpux.VPU
