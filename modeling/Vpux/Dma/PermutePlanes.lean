import Vpux.Dma.PermuteDMA
import Vpux.Dma.TensorBytes

/-! Transfers of many planes, created in pieces that have few enough of them. -/
namespace Vpux.Dma
open List

section PlanePieces
open Data

/-- The planes of the created transfers: as many as there may be, and the rest in the last one. -/
def planesOfDMAs (totalNumPlane : ℕ) : List ℕ :=
  let numberDMAs := divUp totalNumPlane DMA_MAX_NUMBER_PLANES
  List.replicate (numberDMAs - 1) DMA_MAX_NUMBER_PLANES ++
    [totalNumPlane - DMA_MAX_NUMBER_PLANES * (numberDMAs - 1)]

section Planes

variable {totalNumPlane : ℕ}

theorem fullPlanes_le : DMA_MAX_NUMBER_PLANES *
    (divUp totalNumPlane DMA_MAX_NUMBER_PLANES - 1) ≤ totalNumPlane := by
  unfold divUp DMA_MAX_NUMBER_PLANES
  omega

theorem sum_planesOfDMAs : (planesOfDMAs totalNumPlane).sum = totalNumPlane := by
  have hle : DMA_MAX_NUMBER_PLANES * (divUp totalNumPlane DMA_MAX_NUMBER_PLANES - 1) ≤
      totalNumPlane := fullPlanes_le
  unfold planesOfDMAs
  rw [sum_append, sum_replicate_nat, sum_singleton, Nat.mul_comm]
  omega

theorem planesOfDMAs_le : ∀ n ∈ planesOfDMAs totalNumPlane, n ≤ DMA_MAX_NUMBER_PLANES := by
  intro n hn
  rcases mem_append.mp hn with hn | hn
  · exact (eq_of_mem_replicate hn).le
  · have hlast : totalNumPlane ≤ divUp totalNumPlane DMA_MAX_NUMBER_PLANES * 256 :=
      le_divUp_mul (by decide)
    rw [mem_singleton.mp hn]
    unfold DMA_MAX_NUMBER_PLANES at *
    omega

end Planes

/-- A transfer to create, and how far it moves the offsets on. -/
structure SubOp where
  dmaDescriptor : DMADescriptorAttr
  srcStep : ℕ
  dstStep : ℕ

namespace Unrolled

/-- The transfers one after the other. -/
def createAll (dmaPortCount : ℕ) (subs : List SubOp) (u : Unrolled) : Unrolled :=
  subs.foldl (fun u sub =>
    let u := u.createSubOp dmaPortCount sub.dmaDescriptor
    { u with srcOffset := u.srcOffset + sub.srcStep, dstOffset := u.dstOffset + sub.dstStep }) u

variable {dmaPortCount : ℕ}

theorem createAll_cons (sub : SubOp) (subs : List SubOp) (u : Unrolled) :
    u.createAll dmaPortCount (sub :: subs) =
      createAll dmaPortCount subs
        { index := u.index + 1
          srcOffset := u.srcOffset + sub.srcStep
          dstOffset := u.dstOffset + sub.dstStep
          created := u.created ++
            [⟨u.index % dmaPortCount, sub.dmaDescriptor, u.srcOffset, u.dstOffset⟩] } := rfl

theorem mem_createAll {subs : List SubOp} {u : Unrolled} {dma : SubDMA}
    (h : dma ∈ (u.createAll dmaPortCount subs).created) :
    dma ∈ u.created ∨ ∃ sub ∈ subs, dma.dmaDescriptor = sub.dmaDescriptor := by
  induction subs generalizing u with
  | nil => exact .inl h
  | cons sub subs ih =>
    rcases ih h with hcreated | ⟨sub', hsub', heq⟩
    · rcases mem_append.mp hcreated with hbefore | hlast
      · exact .inl hbefore
      · rw [mem_singleton.mp hlast]
        exact .inr ⟨sub, mem_cons_self, rfl⟩
    · exact .inr ⟨sub', mem_cons_of_mem _ hsub', heq⟩

theorem copies_createAll (dmaPortCount : ℕ) (dmaDescriptor : DMADescriptorAttr) (sizes : List ℕ)
    (u : Unrolled) :
    (u.createAll dmaPortCount (sizes.map fun n => ⟨{ dmaDescriptor with numPlanes := n },
        n * dmaDescriptor.srcPlaneStride, n * dmaDescriptor.dstPlaneStride⟩)).created.map
          SubDMA.copy =
      u.created.map SubDMA.copy ++
        cutPlanes (SubDMA.copy ⟨0, dmaDescriptor, u.srcOffset, u.dstOffset⟩) sizes := by
  induction sizes generalizing u with
  | nil => simp [createAll, cutPlanes]
  | cons n sizes ih =>
    rw [map_cons, createAll_cons, ih, map_append, append_assoc]
    rfl

theorem copies_createAll_bytes (dmaPortCount P Q : ℕ) (width stride : ℕ → ℕ) (sizes : List ℕ)
    (u : Unrolled) :
    (u.createAll dmaPortCount (sizes.map fun n =>
        ⟨⟨1, n * P, n * P, n * P, 0, width n, stride n, 0⟩, n * P, n * Q⟩)).created.map
          SubDMA.copy =
      u.created.map SubDMA.copy ++
        cutBytes P Q width stride u.srcOffset u.dstOffset sizes := by
  induction sizes generalizing u with
  | nil => simp [createAll, cutBytes]
  | cons n sizes ih =>
    rw [map_cons, createAll_cons, ih, map_append, append_assoc]
    rfl

end Unrolled

end PlanePieces

-- The elements of a permuted tensor by their coordinates along the merged dimensions.
section PermutePoints
open Data Vpux.Const

variable {memShape point : List ℕ}

section Blocks

variable {A B C : List ℕ} (hblocks : A ++ B ++ C = nonUnit memShape (List.range memShape.length))
include hblocks

theorem rowMajor_eq_blocks (h : InBox memShape point) : rowMajor memShape point =
    (flat memShape point A * extent memShape B + flat memShape point B) * extent memShape C +
      flat memShape point C := by
  rw [← flat_range h, ← flat_nonUnit fun d hd => InBox.getD_lt h (mem_range.mp hd),
    ← hblocks, flat_append, flat_append]

theorem flat_blocks_lt (h : InBox memShape point) :
    flat memShape point A < extent memShape A ∧ flat memShape point B < extent memShape B ∧
      flat memShape point C < extent memShape C := by
  have hlt : ∀ d ∈ A ++ B ++ C, point.getD d 0 < memShape.getD d 0 := by
    intro d hd
    rw [hblocks] at hd
    exact InBox.getD_lt h (mem_range.mp (mem_filter.mp hd).1)
  simp only [mem_append] at hlt
  exact ⟨flat_lt fun d hd => hlt d (.inl (.inl hd)), flat_lt fun d hd => hlt d (.inl (.inr hd)),
    flat_lt fun d hd => hlt d (.inr hd)⟩

theorem prod_eq_blocks : memShape.prod =
    extent memShape A * extent memShape B * extent memShape C := by
  rw [← extent_append, ← extent_append, hblocks, extent_nonUnit, extent, map_getD_range]

theorem exists_point {a b c : ℕ} (ha : a < extent memShape A) (hb : b < extent memShape B)
    (hc : c < extent memShape C) : ∃ point, InBox memShape point ∧
      flat memShape point A = a ∧ flat memShape point B = b ∧ flat memShape point C = c := by
  have hlt : (a * extent memShape B + b) * extent memShape C + c < memShape.prod := by
    rw [prod_eq_blocks hblocks]
    exact digits_lt (digits_lt ha hb) hc
  have hbox := inBox_pointAt (Nat.zero_lt_of_lt hlt)
    ((a * extent memShape B + b) * extent memShape C + c)
  refine ⟨_, hbox, ?_⟩
  have hposition := rowMajor_eq_blocks hblocks hbox
  obtain ⟨-, hB, hC⟩ := flat_blocks_lt hblocks hbox
  rw [rowMajor_pointAt hlt] at hposition
  obtain ⟨hab, hc⟩ := digits_injective hc hC hposition
  obtain ⟨ha, hb⟩ := digits_injective hb hB hab
  exact ⟨ha.symm, hb.symm, hc.symm⟩

end Blocks

end PermutePoints

section PermutePlanes
open Data Vpux.Const

variable {subShapes : List (List ℕ)}

/-- All parts have as many planes as a transfer can have, but for the last. -/
theorem computeDMASubShape_counts {shape : List ℕ} {numPlaneDim : ℕ}
    (h : computeDMASubShape shape numPlaneDim = .ok subShapes) (hdim : numPlaneDim < shape.length) :
    subShapes.map (·.getD numPlaneDim 0) =
      (List.range (max 1 (divUp (shape.getD numPlaneDim 0) DMA_MAX_NUMBER_PLANES))).map fun k =>
        min DMA_MAX_NUMBER_PLANES (shape.getD numPlaneDim 0 - DMA_MAX_NUMBER_PLANES * k) := by
  obtain ⟨-, -, h⟩ := bind_eq_ok.mp h
  obtain ⟨-, -, h⟩ := bind_eq_ok.mp h
  generalize hN : shape.getD numPlaneDim 0 = N at h ⊢
  have hset : ∀ v, (shape.set numPlaneDim v).getD numPlaneDim 0 = v := by simp [hdim]
  simp only at h
  split at h
  next hmany =>
    obtain rfl := Except.ok.inj h
    obtain ⟨m, hm⟩ : ∃ m, divUp N DMA_MAX_NUMBER_PLANES = m + 1 :=
      ⟨divUp N DMA_MAX_NUMBER_PLANES - 1, by omega⟩
    have hlast : DMA_MAX_NUMBER_PLANES * m < N ∧ N ≤ DMA_MAX_NUMBER_PLANES * (m + 1) := by
      simp only [divUp, DMA_MAX_NUMBER_PLANES] at hm ⊢
      omega
    rw [hm, Nat.add_sub_cancel, max_eq_right (by omega), range_succ, map_append,
      map_append, map_replicate, hset, map_singleton, hset, map_singleton]
    congr 1
    · refine (eq_replicate_iff.mpr ⟨by simp, ?_⟩).symm
      intro count hcount
      obtain ⟨k, hk, rfl⟩ := mem_map.mp hcount
      rw [mem_range] at hk
      simp only [DMA_MAX_NUMBER_PLANES] at hlast ⊢
      omega
    · congr 1
      simp only [DMA_MAX_NUMBER_PLANES] at hlast ⊢
      omega
  next hone =>
    obtain rfl := Except.ok.inj h
    have hle : N ≤ DMA_MAX_NUMBER_PLANES := by
      simp only [divUp, DMA_MAX_NUMBER_PLANES] at hone ⊢
      omega
    rw [max_eq_left (by omega), range_one, map_singleton, map_singleton, hN,
      Nat.mul_zero, Nat.sub_zero, min_eq_right hle]

/-- The `k`-th of the transfers that share the planes of a descriptor. -/
def planeSub (dmaPortCount : ℕ) (dmaDescriptor : DMADescriptorAttr) (srcOffset dstOffset k : ℕ) :
    SubDMA :=
  let used := min (DMA_MAX_NUMBER_PLANES * k) dmaDescriptor.numPlanes
  ⟨k % dmaPortCount, updateNumPlanes dmaDescriptor (min DMA_MAX_NUMBER_PLANES
      (dmaDescriptor.numPlanes - DMA_MAX_NUMBER_PLANES * k)),
    srcOffset + used * dmaDescriptor.srcPlaneStride,
    dstOffset + used * dmaDescriptor.dstPlaneStride⟩

theorem address_add (offset planeStride width stride p q t : ℕ) :
    Walk.address ⟨offset, planeStride, width, stride⟩ (p + q) t =
      Walk.address ⟨offset + p * planeStride, planeStride, width, stride⟩ q t := by
  simp only [Walk.address]
  ring

theorem createSubOps_eq (op : PermuteDMAOp) (dmaPortCount : ℕ) (dmaDescriptor : DMADescriptorAttr)
    (numPlaneDim : ℕ) (m : ℕ)
    (h : subShapes.map (·.getD numPlaneDim 0) = (List.range m).map fun k =>
      min DMA_MAX_NUMBER_PLANES (dmaDescriptor.numPlanes - DMA_MAX_NUMBER_PLANES * k)) :
    op.createSubOps dmaPortCount dmaDescriptor numPlaneDim subShapes =
      { index := m
        srcOffset := op.srcOffset + min (DMA_MAX_NUMBER_PLANES * m) dmaDescriptor.numPlanes *
          dmaDescriptor.srcPlaneStride
        dstOffset := op.dstOffset + min (DMA_MAX_NUMBER_PLANES * m) dmaDescriptor.numPlanes *
          dmaDescriptor.dstPlaneStride
        created := (List.range m).map
          (planeSub dmaPortCount dmaDescriptor op.srcOffset op.dstOffset) } := by
  induction m generalizing subShapes with
  | zero =>
    obtain rfl : subShapes = [] := by simpa using h
    simp [PermuteDMAOp.createSubOps]
  | succ m ih =>
    rw [range_succ, map_append] at h
    obtain ⟨front, last, rfl, hfront, hlast⟩ := map_eq_append_iff.mp h
    obtain ⟨subShape, _, rfl, hcount, hnil⟩ := map_eq_cons_iff.mp hlast
    obtain rfl := map_eq_nil_iff.mp hnil
    have hfold := ih hfront
    have hnext : min (DMA_MAX_NUMBER_PLANES * (m + 1)) dmaDescriptor.numPlanes =
        min (DMA_MAX_NUMBER_PLANES * m) dmaDescriptor.numPlanes +
          min DMA_MAX_NUMBER_PLANES (dmaDescriptor.numPlanes - DMA_MAX_NUMBER_PLANES * m) := by
      rw [Nat.mul_succ]
      omega
    unfold PermuteDMAOp.createSubOps at hfold ⊢
    rw [List.foldl_append, hfold, foldl_cons, foldl_nil, range_succ,
      map_append, hnext]
    simp only [Unrolled.createSubOp, hcount, updateNumPlanes, planeSub, Nat.add_mul, add_assoc,
      map_cons, map_nil]

section Encode

variable {ι : Type} {points : ι → Prop} {source target : ι → ℕ}

/-- The transfers that share the planes do what one transfer with all the planes would do. -/
theorem encodes_planes (dmaPortCount : ℕ) (dmaDescriptor : DMADescriptorAttr)
    (srcOffset dstOffset : ℕ) (plane byte : ι → ℕ)
    (hplane : ∀ x, points x →
      plane x < dmaDescriptor.numPlanes ∧ byte x < dmaDescriptor.len)
    (hsource : ∀ x, points x → source x =
      (SubDMA.mk 0 dmaDescriptor srcOffset dstOffset).copy.source.address (plane x) (byte x))
    (htarget : ∀ x, points x → target x =
      (SubDMA.mk 0 dmaDescriptor srcOffset dstOffset).copy.target.address (plane x) (byte x))
    (honto : ∀ p < dmaDescriptor.numPlanes, ∀ t < dmaDescriptor.len,
      ∃ x, points x ∧ plane x = p ∧ byte x = t) :
    ∃ encode, Encodes (((List.range
      (max 1 (divUp dmaDescriptor.numPlanes DMA_MAX_NUMBER_PLANES))).map
        (planeSub dmaPortCount dmaDescriptor srcOffset dstOffset)).map SubDMA.copy)
      points source target encode := by
  have hlt : ∀ p, p % DMA_MAX_NUMBER_PLANES < DMA_MAX_NUMBER_PLANES :=
    fun p => Nat.mod_lt p (by decide)
  have hsplit : ∀ p, p = DMA_MAX_NUMBER_PLANES * (p / DMA_MAX_NUMBER_PLANES) +
      p % DMA_MAX_NUMBER_PLANES := fun p => (Nat.div_add_mod p _).symm
  have hused : ∀ x, points x →
      min (DMA_MAX_NUMBER_PLANES * (plane x / DMA_MAX_NUMBER_PLANES)) dmaDescriptor.numPlanes =
        DMA_MAX_NUMBER_PLANES * (plane x / DMA_MAX_NUMBER_PLANES) := by
    intro x hx
    have := (hplane x hx).1
    have := hsplit (plane x)
    omega
  have hgrid : ∀ count, (List.range count).map (planeSub dmaPortCount dmaDescriptor srcOffset
      dstOffset) = grid 1 count fun _ => planeSub dmaPortCount dmaDescriptor srcOffset dstOffset :=
    fun count => by simp [grid]
  rw [hgrid]
  refine ⟨_, encodes_grid (fun _ => 0) (fun x => plane x / DMA_MAX_NUMBER_PLANES)
    (fun x => plane x % DMA_MAX_NUMBER_PLANES) byte ?_ ?_ ?_ ?_ ?_⟩
  · intro x hx
    have := (hplane x hx).1
    refine ⟨zero_lt_one, ?_⟩
    simp only [divUp, DMA_MAX_NUMBER_PLANES]
    omega
  · intro x hx
    have := (hplane x hx).1
    refine ⟨?_, (hplane x hx).2⟩
    have := hsplit (plane x)
    have := hlt (plane x)
    simp only [planeSub, updateNumPlanes]
    omega
  · intro x hx
    rw [hsource x hx]
    conv_lhs => rw [hsplit (plane x)]
    simp only [SubDMA.copy, planeSub, updateNumPlanes, hused x hx, address_add]
  · intro x hx
    rw [htarget x hx]
    conv_lhs => rw [hsplit (plane x)]
    simp only [SubDMA.copy, planeSub, updateNumPlanes, hused x hx, address_add]
  · intro m hm n hn p hp t ht
    simp only [planeSub, updateNumPlanes, lt_min_iff] at hp ht
    obtain ⟨x, hx, hplane, hbyte⟩ := honto (DMA_MAX_NUMBER_PLANES * n + p) (by omega) t ht
    refine ⟨x, hx, by omega, ?_, ?_, hbyte⟩
    · rw [hplane, Nat.mul_add_div (by decide), Nat.div_eq_of_lt hp.1, add_zero]
    · rw [hplane, Nat.mul_add_mod, Nat.mod_eq_of_lt hp.1]

end Encode

end PermutePlanes

end Vpux.Dma
