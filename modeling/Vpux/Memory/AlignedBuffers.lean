import Mathlib.Data.List.Sort
import Vpux.Data.Alignment
import Mathlib.Algebra.BigOperators.Group.List.Basic

/-! The memory that buffers with aligned offsets and sizes need together,
`calculateAlignedBuffersMemoryRequirement` of `utils/swizzling_utils.cpp`. -/
namespace Vpux.Memory.AlignedBuffers
open Data

variable (offsetAlignment sizeAlignment : ℤ)

/-- The size that a buffer takes. -/
def alignedSize (buffSize : ℤ) : ℤ :=
  if buffSize % sizeAlignment = 0 then buffSize
  else (buffSize / sizeAlignment + 1) * sizeAlignment

/-- One pass of the allocation loop: a buffer at the next aligned offset. -/
def placeBuffer (offset buffSize : ℤ) : ℤ :=
  let start :=
    if offset % offsetAlignment ≠ 0 then offset + (offsetAlignment - offset % offsetAlignment)
    else offset
  start + alignedSize sizeAlignment buffSize

/-- The end of buffers that are placed one after another. -/
def placeBuffers (buffers : List ℤ) : ℤ :=
  buffers.foldl (placeBuffer offsetAlignment sizeAlignment) 0

/-- The sizes, each with its distance to the next multiple of the offset alignment. -/
def buffersAlignments (bufferSizes : List ℤ) : List (ℤ × ℤ) :=
  bufferSizes.map fun buff =>
    (buff, if buff % offsetAlignment = 0 then 0 else offsetAlignment - buff % offsetAlignment)

def bufferSizesSorted (bufferSizes : List ℤ) : List ℤ :=
  ((buffersAlignments offsetAlignment bufferSizes).mergeSort
    fun a b => decide (a.2 ≥ b.2)).map Prod.fst

def calculateAlignedBuffersMemoryRequirement (bufferSizes : List ℤ) : Except String ℤ :=
  if ¬offsetAlignment > 0 then .error "offsetAlignment parameter should be >=1 byte."
  else if ¬sizeAlignment > 0 then .error "sizeAlignment parameter should be >=1 byte."
  else if ∃ buffSize ∈ bufferSizes, ¬buffSize > 0 then
    .error "Zero-sized buffer allocation requested."
  else if offsetAlignment = 1 ∧ sizeAlignment = 1 then .ok bufferSizes.sum
  else .ok (placeBuffers offsetAlignment sizeAlignment
    (bufferSizesSorted offsetAlignment bufferSizes))

variable {offsetAlignment sizeAlignment}

theorem alignedSize_eq (sizeAlignment buffSize : ℤ) :
    alignedSize sizeAlignment buffSize = buffSize + padding sizeAlignment buffSize := by
  have h := Int.emod_add_mul_ediv buffSize sizeAlignment
  unfold alignedSize padding
  split
  · rw [add_zero]
  · rw [add_mul, one_mul, mul_comm]
    omega

theorem placeBuffer_eq (offsetAlignment sizeAlignment offset buffSize : ℤ) :
    placeBuffer offsetAlignment sizeAlignment offset buffSize =
      offset + padding offsetAlignment offset + alignedSize sizeAlignment buffSize := by
  unfold placeBuffer padding
  split <;> simp_all

/-- The part of the space up to the next aligned offset that the last buffer leaves free. -/
def gap (offsetAlignment sizeAlignment buffSize : ℤ) : ℤ :=
  padding offsetAlignment buffSize - padding sizeAlignment buffSize

def alignedSum (offsetAlignment : ℤ) (buffers : List ℤ) : ℤ :=
  (buffers.map fun buffSize => buffSize + padding offsetAlignment buffSize).sum

section Order

variable (hoffset : 0 < offsetAlignment) (hsize : 0 < sizeAlignment)
  (hdvd : sizeAlignment ∣ offsetAlignment)
include hoffset hsize hdvd

theorem foldl_placeBuffer (buffers : List ℤ) (last offset : ℤ) :
    (buffers ++ [last]).foldl (placeBuffer offsetAlignment sizeAlignment) offset =
      offset + padding offsetAlignment offset + alignedSum offsetAlignment (buffers ++ [last]) -
        gap offsetAlignment sizeAlignment last := by
  induction buffers generalizing offset with
  | nil =>
    have halign := alignedSize_eq sizeAlignment last
    simp only [List.nil_append, List.foldl_cons, List.foldl_nil, placeBuffer_eq, alignedSum, gap,
      List.map_cons, List.map_nil, List.sum_cons, List.sum_nil]
    omega
  | cons buffSize buffers ih =>
    have hstart : offsetAlignment ∣ offset + padding offsetAlignment offset := dvd_add_padding
    have hpad : padding offsetAlignment
        (placeBuffer offsetAlignment sizeAlignment offset buffSize) =
          padding offsetAlignment buffSize - padding sizeAlignment buffSize := by
      rw [placeBuffer_eq, alignedSize_eq, padding_add_of_dvd hoffset hstart,
        padding_add_padding hoffset hsize hdvd]
    have hplace := placeBuffer_eq offsetAlignment sizeAlignment offset buffSize
    have halign := alignedSize_eq sizeAlignment buffSize
    rw [List.cons_append, List.foldl_cons, ih, hpad]
    simp only [alignedSum, List.map_cons, List.sum_cons]
    omega

theorem placeBuffers_append (buffers : List ℤ) (last : ℤ) :
    placeBuffers offsetAlignment sizeAlignment (buffers ++ [last]) =
      alignedSum offsetAlignment (buffers ++ [last]) -
        gap offsetAlignment sizeAlignment last := by
  have hzero : padding offsetAlignment 0 = 0 := by simp [padding]
  have h := foldl_placeBuffer hoffset hsize hdvd buffers last 0
  unfold placeBuffers
  omega

omit hoffset in
theorem gap_mono {x y : ℤ} (h : padding offsetAlignment x ≤ padding offsetAlignment y) :
    gap offsetAlignment sizeAlignment x ≤ gap offsetAlignment sizeAlignment y := by
  unfold gap
  rw [padding_sub_padding hsize hdvd, padding_sub_padding hsize hdvd]
  exact mul_le_mul_of_nonneg_left (Int.ediv_le_ediv hsize h) hsize.le

theorem placeBuffers_le {order sorted : List ℤ} (hperm : order.Perm sorted)
    (hsorted : sorted.Pairwise fun x y =>
      padding offsetAlignment y ≤ padding offsetAlignment x) :
    placeBuffers offsetAlignment sizeAlignment order ≤
      placeBuffers offsetAlignment sizeAlignment sorted := by
  rcases List.eq_nil_or_concat sorted with rfl | ⟨front, last, rfl⟩
  · rw [hperm.eq_nil]
  rcases List.eq_nil_or_concat order with rfl | ⟨front', last', rfl⟩
  · exact absurd hperm.symm.eq_nil (by simp)
  simp only [List.concat_eq_append] at *
  have hsum : alignedSum offsetAlignment (front' ++ [last']) =
      alignedSum offsetAlignment (front ++ [last]) := (hperm.map _).sum_eq
  have hlast : padding offsetAlignment last ≤ padding offsetAlignment last' := by
    have hmem : last' ∈ front ++ [last] := hperm.subset (by simp)
    rcases List.mem_append.mp hmem with hmem | hmem
    · exact (List.pairwise_append.mp hsorted).2.2 last' hmem last (by simp)
    · rw [List.mem_singleton.mp hmem]
  have hgap := gap_mono hsize hdvd hlast
  rw [placeBuffers_append hoffset hsize hdvd, placeBuffers_append hoffset hsize hdvd, hsum]
  omega

end Order

theorem bufferSizesSorted_perm (bufferSizes : List ℤ) :
    (bufferSizesSorted offsetAlignment bufferSizes).Perm bufferSizes := by
  have hperm := (List.mergeSort_perm (buffersAlignments offsetAlignment bufferSizes)
    fun a b => decide (a.2 ≥ b.2)).map Prod.fst
  have hmap : (buffersAlignments offsetAlignment bufferSizes).map Prod.fst = bufferSizes := by
    simp [buffersAlignments, Function.comp_def]
  rw [hmap] at hperm
  exact hperm

theorem pairwise_bufferSizesSorted (bufferSizes : List ℤ) :
    (bufferSizesSorted offsetAlignment bufferSizes).Pairwise fun x y =>
      padding offsetAlignment y ≤ padding offsetAlignment x := by
  let le : ℤ × ℤ → ℤ × ℤ → Bool := fun a b => decide (a.2 ≥ b.2)
  have htrans : ∀ a b c : ℤ × ℤ, le a b → le b c → le a c := by
    intro a b c hab hbc
    simp only [le, decide_eq_true_eq] at *
    omega
  have htotal : ∀ a b : ℤ × ℤ, le a b || le b a := by
    intro a b
    simp only [le, Bool.or_eq_true, decide_eq_true_eq]
    omega
  have hsorted := List.pairwise_mergeSort htrans htotal
    (buffersAlignments offsetAlignment bufferSizes)
  unfold bufferSizesSorted
  rw [List.pairwise_map]
  refine hsorted.imp_of_mem ?_
  intro a b ha hb hab
  rw [List.mem_mergeSort, buffersAlignments, List.mem_map] at ha hb
  obtain ⟨x, -, rfl⟩ := ha
  obtain ⟨y, -, rfl⟩ := hb
  exact of_decide_eq_true hab

theorem placeBuffers_one (buffers : List ℤ) : placeBuffers 1 1 buffers = buffers.sum := by
  have hone : ∀ n : ℤ, padding 1 n = 0 := fun n => by simp [padding]
  have hloop : ∀ offset : ℤ, buffers.foldl (placeBuffer 1 1) offset = offset + buffers.sum := by
    induction buffers with
    | nil => simp
    | cons buffSize buffers ih =>
      intro offset
      rw [List.foldl_cons, ih, placeBuffer_eq, alignedSize_eq, hone, hone, List.sum_cons]
      omega
  unfold placeBuffers
  rw [hloop, zero_add]

/-- The value returned is enough for every order of the buffers. -/
theorem calculateAlignedBuffersMemoryRequirement_sufficient (bufferSizes : List ℤ)
    (offsetAlignment sizeAlignment : ℤ) (hoffset : 0 < offsetAlignment)
    (hsize : 0 < sizeAlignment) (hdvd : sizeAlignment ∣ offsetAlignment) :
    ((∀ buffSize ∈ bufferSizes, 0 < buffSize) →
      ∃ requirement, calculateAlignedBuffersMemoryRequirement offsetAlignment sizeAlignment
        bufferSizes = .ok requirement) ∧
    ∀ requirement, calculateAlignedBuffersMemoryRequirement offsetAlignment sizeAlignment
        bufferSizes = .ok requirement →
      ∀ order : List ℤ, order.Perm bufferSizes →
        placeBuffers offsetAlignment sizeAlignment order ≤ requirement := by
  constructor
  · intro hpos
    have hnone : ¬∃ buffSize ∈ bufferSizes, ¬buffSize > 0 := by
      rintro ⟨buffSize, hmem, hle⟩
      exact hle (hpos buffSize hmem)
    unfold calculateAlignedBuffersMemoryRequirement
    rw [if_neg (not_not.mpr hoffset), if_neg (not_not.mpr hsize), if_neg hnone]
    split
    · exact ⟨_, rfl⟩
    · exact ⟨_, rfl⟩
  · intro requirement h order hperm
    unfold calculateAlignedBuffersMemoryRequirement at h
    rw [if_neg (not_not.mpr hoffset), if_neg (not_not.mpr hsize)] at h
    split at h
    · cases h
    split at h
    · next hone =>
      obtain ⟨rfl, rfl⟩ := hone
      cases h
      rw [placeBuffers_one, hperm.sum_eq]
    · cases h
      exact placeBuffers_le hoffset hsize hdvd
        (hperm.trans (bufferSizesSorted_perm bufferSizes).symm)
        (pairwise_bufferSizesSorted bufferSizes)

/-- A buffer of 40 bytes after one of 64 bytes ends at 112, before it the end is at 128. -/
theorem calculateAlignedBuffersMemoryRequirement_sufficient_pair :
    calculateAlignedBuffersMemoryRequirement 64 16 [64, 40] = .ok 128 ∧
      placeBuffers 64 16 [64, 40] = 112 ∧ placeBuffers 64 16 [64, 40] ≤ 128 := by
  have h := calculateAlignedBuffersMemoryRequirement_sufficient [64, 40] 64 16 (by decide)
    (by decide) (by decide)
  have hvalue : calculateAlignedBuffersMemoryRequirement 64 16 [64, 40] = .ok 128 := by
    simp [calculateAlignedBuffersMemoryRequirement, bufferSizesSorted, buffersAlignments,
      List.mergeSort, placeBuffers, placeBuffer, alignedSize]
  exact ⟨hvalue, by decide, h.2 128 hvalue [64, 40] (List.Perm.refl _)⟩

end Vpux.Memory.AlignedBuffers
