import Vpux.Distribution.Segments

/-! The number of clusters of a layer is the largest one over which its tensor can be split
(`dialect/VPU/utils/distributed_tensor_utils.cpp`). -/
namespace Vpux.VPU
open Tiling

def KMB_DPU_CHANNELS_ALIGNMENT : ℤ := 16

/-- The first number of clusters that is accepted, from the given one down. -/
def countDown (accepts : ℤ → Bool) : ℕ → ℤ
  | 0 => 1
  | clusters + 1 => if accepts (clusters + 1) then clusters + 1 else countDown accepts clusters

def getNumberOfClustersForSOKToAvoidAlignment (outputChannels numClustersToUseForLayer : ℤ)
    (uniformDistributedSegments : Bool) : ℤ :=
  countDown (fun clusters =>
    if uniformDistributedSegments then
      let baselineChannels :=
        alignValDown (outputChannels.tdiv clusters) KMB_DPU_CHANNELS_ALIGNMENT
      let remainder := outputChannels - baselineChannels * clusters
      0 < baselineChannels ∧ remainder.tmod KMB_DPU_CHANNELS_ALIGNMENT = 0
    else
      -- the first segments are equal, and the last one is equal or smaller
      let alignedOutputChannels :=
        alignValUp (divUp outputChannels clusters) KMB_DPU_CHANNELS_ALIGNMENT
      let remainder := outputChannels - (clusters - 1) * alignedOutputChannels
      0 < remainder) numClustersToUseForLayer.toNat

def getNumberOfClustersForSpatialDim (outputSpatialDim numClustersForCompilation : ℤ)
    (uniformDistributedSegments : Bool) : ℤ :=
  countDown (fun clusters =>
    if uniformDistributedSegments then
      let baselineHeight := outputSpatialDim.tdiv clusters
      0 < baselineHeight
    else
      let alignedOutputSpatialDim := divUp outputSpatialDim clusters
      let remainder := outputSpatialDim - (clusters - 1) * alignedOutputSpatialDim
      0 < remainder) numClustersForCompilation.toNat

theorem countDown_spec (accepts : ℤ → Bool) (n : ℕ) (h : 1 < countDown accepts n) :
    accepts (countDown accepts n) = true ∧ countDown accepts n ≤ n ∧
      ∀ m, countDown accepts n < m → m ≤ n → accepts m = false := by
  induction n with
  | zero => simp [countDown] at h
  | succ n ih =>
    unfold countDown at h ⊢
    split_ifs at h ⊢ with haccepts
    · refine ⟨haccepts, by push_cast; omega, fun m hlt hle => ?_⟩
      omega
    · obtain ⟨hchosen, hle, hlargest⟩ := ih h
      refine ⟨hchosen, by push_cast; omega, fun m hlt hle => ?_⟩
      rcases Int.lt_or_le m (n + 1) with hbelow | htop
      · exact hlargest m hlt (by omega)
      · obtain rfl : m = n + 1 := by omega
        simpa using haccepts

theorem isSome_guard_bind {α : Type} {p : Prop} [Decidable p] {f : Unit → Option α} :
    ((guard p : Option Unit).bind f).isSome ↔ p ∧ (f ()).isSome := by
  by_cases h : p
  · simp [h]
  · simp [guard, h]

section Accepts

variable {shape : Shape} {axis : ℕ} {tiles unit : ℤ} {alignment : Option (List ℤ)}

def splitOver (shape : Shape) (axis : ℕ) (alignment : Option (List ℤ)) (uniform : Bool)
    (clusters : ℤ) : Option (List Shape) :=
  splitSegmentedShape shape ((List.replicate shape.length 1).set axis clusters) clusters axis
    alignment uniform

theorem alignShape_isSome (hpositive : ∀ a ∈ alignment, ∀ x ∈ a, 0 < x) (f : ℤ → ℤ → ℤ)
    (shape : Shape) : ∃ aligned, alignShape shape alignment f = some aligned := by
  cases alignment with
  | none => exact ⟨shape, rfl⟩
  | some a =>
    have hzero : 0 ∉ a := fun hmem => lt_irrefl 0 (hpositive a rfl 0 hmem)
    exact ⟨_, if_neg hzero⟩

theorem alignValDown_one (x : ℤ) : alignValDown x 1 = x := by
  rw [alignValDown, Int.tdiv_one, mul_one]

theorem alignValUp_one (x : ℤ) : alignValUp x 1 = x := by
  rw [alignValUp, sub_self, mul_zero, add_zero, Int.tdiv_one, mul_one]

theorem rest_of_alignValDown {size : ℤ} (hsize : 0 ≤ size) (htiles : 0 < tiles) (hunit : 0 < unit) :
    0 ≤ size - alignValDown (size.tdiv tiles) unit * tiles ∧
      size - alignValDown (size.tdiv tiles) unit * tiles < unit * tiles := by
  have hquot := Int.tdiv_nonneg hsize htiles.le
  have hdown : alignValDown (size.tdiv tiles) unit ≤ size.tdiv tiles := alignValDown_le hquot
  have hup : size.tdiv tiles < alignValDown (size.tdiv tiles) unit + unit := by
    rw [alignValDown, Int.tdiv_eq_ediv_of_nonneg hquot]
    have := Int.lt_ediv_add_one_mul_self (size.tdiv tiles) hunit
    linarith
  have hsize' : size < (size.tdiv tiles + 1) * tiles := by
    rw [Int.tdiv_eq_ediv_of_nonneg hsize]
    exact Int.lt_ediv_add_one_mul_self size htiles
  have hle : size.tdiv tiles * tiles ≤ size := by
    rw [mul_comm]
    exact Int.mul_tdiv_self_le hsize
  constructor <;> nlinarith

variable (haxis : axis < shape.length) (hrank : ∀ a ∈ alignment, shape.length = a.length)
  (hpositive : ∀ a ∈ alignment, ∀ x ∈ a, 0 < x)
  (hunit : alignment.elim 1 (fun a => a.getD axis 1) = unit)

include haxis hrank hpositive hunit

theorem dim_alignShape {f : ℤ → ℤ → ℤ} (hone : ∀ x, f x 1 = x) (v : ℤ) :
    ∃ aligned, alignShape (shape.set axis v) alignment f = some aligned ∧
      aligned.dim axis = f v unit ∧ aligned.length = shape.length := by
  obtain ⟨aligned, haligned⟩ := alignShape_isSome hpositive f (shape.set axis v)
  obtain ⟨hlength, hdims⟩ := alignShape_spec (fun a ha => by simpa using hrank a ha) haligned
  rw [List.length_set] at hlength hdims
  refine ⟨aligned, haligned, ?_, hlength⟩
  rw [hdims axis haxis, dim_set_self haxis, ← hunit]
  cases alignment with
  | none => exact (hone v).symm
  | some a => rfl

theorem splitDividedUp_isSome_iff : (splitDividedUp shape tiles axis alignment).isSome ↔
    0 < shape.dim axis - (tiles - 1) * alignValUp (divUp (shape.dim axis) tiles) unit := by
  obtain ⟨aligned, haligned, hdim, -⟩ :=
    dim_alignShape haxis hrank hpositive hunit alignValUp_one (divUp (shape.dim axis) tiles)
  rw [mul_comm]
  unfold splitDividedUp
  simp only [haligned, hdim, Option.bind_eq_bind, Option.bind_some, isSome_guard_bind,
    Option.pure_def, Option.isSome_some, and_true]

theorem splitUniform_isSome_iff (hsize : 0 ≤ shape.dim axis) (htiles : 0 < tiles)
    (hunitPos : 0 < unit) (hsmall : unit < 2 ^ 31) :
    (splitUniform shape tiles axis alignment).isSome ↔
      0 < alignValDown ((shape.dim axis).tdiv tiles) unit ∧
        (shape.dim axis - alignValDown ((shape.dim axis).tdiv tiles) unit * tiles).tmod unit =
          0 := by
  obtain ⟨aligned, haligned, hdim, -⟩ :=
    dim_alignShape haxis hrank hpositive hunit alignValDown_one ((shape.dim axis).tdiv tiles)
  have hint : alignment.elim 1 (fun a => (a.getD axis 1).bmod (2 ^ 32)) = unit := by
    cases alignment with
    | none => exact hunit
    | some a =>
      rw [← hunit] at hunitPos hsmall ⊢
      exact Int.bmod_eq_of_le (by simp at hunitPos ⊢; omega) (by simp at hsmall ⊢; omega)
  obtain ⟨hnonneg, hlt⟩ := rest_of_alignValDown hsize htiles hunitPos
  have hcount := Int.tdiv_nonneg hnonneg hunitPos.le
  have hcount' : (shape.dim axis - alignValDown ((shape.dim axis).tdiv tiles) unit * tiles).tdiv
      unit ≤ tiles := by
    rw [Int.tdiv_eq_ediv_of_nonneg hnonneg]
    exact (Int.ediv_lt_of_lt_mul hunitPos (by linarith)).le
  unfold splitUniform
  simp only [haligned, hdim, hint, Option.bind_eq_bind, Option.bind_some, hunitPos.ne', ne_eq,
    not_false_eq_true, hcount, hcount', isSome_guard_bind, and_self, true_and, Option.pure_def,
    Option.isSome_some, and_true]

theorem splitOver_isSome_iff (uniform : Bool) (hsize : 0 ≤ shape.dim axis) (htiles : 0 < tiles)
    (hunitPos : 0 < unit) (hsmall : unit < 2 ^ 31) :
    (splitOver shape axis alignment uniform tiles).isSome ↔
      if uniform then 0 < alignValDown ((shape.dim axis).tdiv tiles) unit ∧
        (shape.dim axis - alignValDown ((shape.dim axis).tdiv tiles) unit * tiles).tmod unit = 0
      else 0 < shape.dim axis - (tiles - 1) * alignValUp (divUp (shape.dim axis) tiles) unit := by
  have hscheme : ((List.replicate shape.length (1 : ℤ)).set axis tiles).getD axis 0 = tiles := by
    simp [List.getD, haxis]
  unfold splitOver splitSegmentedShape
  simp only [haxis, hscheme, Option.bind_eq_bind, isSome_guard_bind, true_and]
  cases uniform with
  | true =>
    exact splitUniform_isSome_iff haxis hrank hpositive hunit hsize htiles hunitPos hsmall
  | false => exact splitDividedUp_isSome_iff haxis hrank hpositive hunit

omit hunit in
theorem splitOver_segments {uniform : Bool} {segments : List Shape} (hsize : 0 ≤ shape.dim axis)
    (htiles : 1 < tiles) (h : splitOver shape axis alignment uniform tiles = some segments) :
    Segments shape axis tiles segments := by
  have hdims : ∀ a ∈ alignment, ∀ d < shape.length, 0 < a.getD d 1 := by
    intro a ha d hd
    have hd' : d < a.length := hrank a ha ▸ hd
    rw [List.getD_eq_getElem _ _ hd']
    exact hpositive a ha _ (List.getElem_mem hd')
  simp only [splitOver, splitSegmentedShape, Option.bind_eq_bind, Option.bind_eq_some_iff,
    Option.guard_eq_some', exists_const] at h
  obtain ⟨-, -, h⟩ := h
  cases uniform with
  | true => exact (splitUniform_spec haxis hrank htiles hsize h).1
  | false => exact (splitDividedUp_spec haxis hrank htiles hsize hdims h).1

end Accepts

section Chosen

/-- A number of clusters that is not one is the largest over which the axis can be split. -/
def IsLargestSplit (shape : Shape) (axis : ℕ) (alignment : Option (List ℤ)) (uniform : Bool)
    (n c : ℤ) : Prop :=
  1 < c → (∃ segments, splitOver shape axis alignment uniform c = some segments ∧
      (segments.map (·.dim axis)).sum = shape.dim axis) ∧
    c ≤ n ∧ ∀ m, c < m → m ≤ n → splitOver shape axis alignment uniform m = none

variable {shape : Shape} {axis : ℕ} {n unit : ℤ} {alignment : Option (List ℤ)} {uniform : Bool}

theorem countDown_isLargestSplit {accepts : ℤ → Bool} (haxis : axis < shape.length)
    (hrank : ∀ a ∈ alignment, shape.length = a.length)
    (hpositive : ∀ a ∈ alignment, ∀ x ∈ a, 0 < x) (hsize : 0 ≤ shape.dim axis) (hn : 0 ≤ n)
    (haccepts : ∀ c, 0 < c →
      ((splitOver shape axis alignment uniform c).isSome ↔ accepts c = true)) :
    IsLargestSplit shape axis alignment uniform n (countDown accepts n.toNat) := by
  intro hmany
  obtain ⟨hchosen, hle, hlargest⟩ := countDown_spec accepts n.toNat hmany
  rw [Int.toNat_of_nonneg hn] at hle hlargest
  obtain ⟨segments, hsegments⟩ :=
    Option.isSome_iff_exists.mp ((haccepts _ (by omega)).mpr hchosen)
  refine ⟨⟨segments, hsegments, ?_⟩, hle, fun m hlt hm => ?_⟩
  · exact (splitOver_segments haxis hrank hpositive hsize hmany hsegments).sum
  · have hnot := (haccepts m (by omega)).not.mpr (by simp [hlargest m hlt hm])
    rwa [Option.not_isSome_iff_eq_none] at hnot

/-- The numbers of clusters that are chosen for channels and for spatial dimensions are the largest
ones over which the dimension can be split. -/
theorem getNumberOfClusters_isLargestSplit (shape : Shape) (axis : ℕ) (n : ℤ) (uniform : Bool)
    (haxis : axis < shape.length) (hsize : 1 ≤ shape.dim axis) (hn : 1 ≤ n) :
    (∀ alignment : List ℤ, shape.length = alignment.length → (∀ x ∈ alignment, 0 < x) →
      alignment.getD axis 1 = KMB_DPU_CHANNELS_ALIGNMENT →
      IsLargestSplit shape axis (some alignment) uniform n
        (getNumberOfClustersForSOKToAvoidAlignment (shape.dim axis) n uniform)) ∧
    IsLargestSplit shape axis none uniform n
      (getNumberOfClustersForSpatialDim (shape.dim axis) n uniform) := by
  have hnonneg : 0 ≤ shape.dim axis := by omega
  constructor
  · intro alignment hlength hpositive hunit
    have hrank' : ∀ a ∈ some alignment, shape.length = a.length := by simpa using hlength
    have hpositive' : ∀ a ∈ some alignment, ∀ x ∈ a, 0 < x := by simpa using hpositive
    apply countDown_isLargestSplit haxis hrank' hpositive' hnonneg (by omega)
    intro c hc
    rw [splitOver_isSome_iff haxis hrank' hpositive' hunit uniform hnonneg hc (by decide)
      (by decide)]
    cases uniform <;> simp
  · have hrank' : ∀ a ∈ (none : Option (List ℤ)), shape.length = a.length := by simp
    have hpositive' : ∀ a ∈ (none : Option (List ℤ)), ∀ x ∈ a, 0 < x := by simp
    apply countDown_isLargestSplit haxis hrank' hpositive' hnonneg (by omega)
    intro c hc
    have hunit : (none : Option (List ℤ)).elim 1 (fun a => a.getD axis 1) = (1 : ℤ) := rfl
    rw [splitOver_isSome_iff haxis hrank' hpositive' hunit uniform hnonneg hc (by decide)
      (by decide)]
    cases uniform <;> simp [alignValDown_one, alignValUp_one, Int.tmod_one]

/-- 80 channels are split over three of four clusters. -/
theorem isLargestSplit_eightyChannels :
    getNumberOfClustersForSOKToAvoidAlignment 80 4 false = 3 ∧
      IsLargestSplit [1, 80, 7, 7] 1 (some [1, 16, 1, 1]) false 4 3 :=
  ⟨by decide +kernel, (getNumberOfClusters_isLargestSplit [1, 80, 7, 7] 1 4 false (by decide)
    (by decide) (by decide)).1 [1, 16, 1, 1] rfl (by decide) rfl⟩

end Chosen

end Vpux.VPU
