import Vpux.Const.Types
import Vpux.Data.Folds
import Vpux.Data.Pieces

/-! The transfers that the rewriters of layout changing operations create. -/
namespace Vpux.Dma
open Data Vpux.Const

def DMA_MAX_NUMBER_PLANES : ℕ := 256

def divUp (a b : ℕ) : ℕ := (a + b - 1) / b

section DivUp

variable {a b : ℕ}

theorem divUp_pos (ha : 0 < a) (hb : 0 < b) : 0 < divUp a b :=
  Nat.div_pos (by omega) hb

theorem divUp_le (hb : 0 < b) : divUp a b ≤ a := by
  have hmul : a ≤ a * b := Nat.le_mul_of_pos_right a hb
  have hlt : a + b - 1 < (a + 1) * b := by
    rw [Nat.succ_mul]
    omega
  exact Nat.le_of_lt_succ ((Nat.div_lt_iff_lt_mul hb).mpr hlt)

theorem le_divUp_mul (hb : 0 < b) : a ≤ divUp a b * b := by
  have hsplit := Nat.div_add_mod' (a + b - 1) b
  have hmod := Nat.mod_lt (a + b - 1) hb
  unfold divUp
  omega

end DivUp

/-- `DMADescriptorAttr`. Every plane moves `len` bytes. -/
structure DMADescriptorAttr where
  numPlanes : ℕ
  len : ℕ
  srcWidth : ℕ
  srcStride : ℕ
  srcPlaneStride : ℕ
  dstWidth : ℕ
  dstStride : ℕ
  dstPlaneStride : ℕ
  deriving DecidableEq, Repr

def updateNumPlanes (dmaDescriptor : DMADescriptorAttr) (numPlane : ℕ) : DMADescriptorAttr :=
  { dmaDescriptor with numPlanes := numPlane }

/-- A created transfer, between the byte offsets of its two buffers. -/
structure SubDMA where
  port : ℕ
  dmaDescriptor : DMADescriptorAttr
  srcOffset : ℕ
  dstOffset : ℕ
  deriving DecidableEq, Repr

/-- What the engine does with a transfer. -/
def SubDMA.copy (dma : SubDMA) : StridedCopy where
  planes := dma.dmaDescriptor.numPlanes
  bytes := dma.dmaDescriptor.len
  source := ⟨dma.srcOffset, dma.dmaDescriptor.srcPlaneStride, dma.dmaDescriptor.srcWidth,
    dma.dmaDescriptor.srcStride⟩
  target := ⟨dma.dstOffset, dma.dmaDescriptor.dstPlaneStride, dma.dmaDescriptor.dstWidth,
    dma.dmaDescriptor.dstStride⟩

def NCHW : DimsOrder := DimsOrder.fromNumDims 4

def NHWC : DimsOrder := ⟨[0, 2, 3, 1], DimsOrder.NHWC.isPermutation⟩

theorem numDims_NCHW : NCHW.numDims = 4 := rfl

theorem numDims_NHWC : NHWC.numDims = 4 := rfl

/-- Byte `e` of an element of a compact buffer. -/
def byteAddress (type : NDType) (elemTypeSize : ℕ) (point : List ℕ) (e : ℕ) : ℕ :=
  rowMajor (type.dimsOrder.memoryOrder type.shape) (type.dimsOrder.memoryOrder point) *
    elemTypeSize + e

/-- The offsets that a rewriter moves on between the transfers it creates. -/
structure Unrolled where
  index : ℕ
  srcOffset : ℕ
  dstOffset : ℕ
  created : List SubDMA

namespace Unrolled

variable (dmaPortCount srcStep dstStep : ℕ) (dmaDescriptor : DMADescriptorAttr)

def createSubOp (u : Unrolled) : Unrolled :=
  { u with
    index := u.index + 1
    created := u.created ++ [⟨u.index % dmaPortCount, dmaDescriptor, u.srcOffset, u.dstOffset⟩] }

/-- `count` transfers in a row. -/
def createRow (count : ℕ) (u : Unrolled) : Unrolled :=
  (List.range count).foldl (fun u _ =>
    let u := u.createSubOp dmaPortCount dmaDescriptor
    { u with srcOffset := u.srcOffset + srcStep, dstOffset := u.dstOffset + dstStep }) u

/-- `rows` rows. After each the target offset is set from those at its start and its end. -/
def createRows (rows count : ℕ) (nextDst : ℕ → ℕ → ℕ) (u : Unrolled) : Unrolled :=
  (List.range rows).foldl (fun u _ =>
    let startDstIdx := u.dstOffset
    let u := u.createRow dmaPortCount srcStep dstStep dmaDescriptor count
    { u with dstOffset := nextDst startDstIdx u.dstOffset }) u

end Unrolled

def grid (rows count : ℕ) (sub : ℕ → ℕ → SubDMA) : List SubDMA :=
  (List.range rows).flatMap fun m => (List.range count).map (sub m)

namespace Unrolled

variable {dmaPortCount srcStep dstStep : ℕ} {dmaDescriptor : DMADescriptorAttr}

theorem createRow_eq (count : ℕ) (u : Unrolled) :
    u.createRow dmaPortCount srcStep dstStep dmaDescriptor count =
      { index := u.index + count
        srcOffset := u.srcOffset + count * srcStep
        dstOffset := u.dstOffset + count * dstStep
        created := u.created ++ (List.range count).map fun n =>
          ⟨(u.index + n) % dmaPortCount, dmaDescriptor, u.srcOffset + n * srcStep,
            u.dstOffset + n * dstStep⟩ } := by
  induction count with
  | zero => simp [createRow]
  | succ count ih =>
    unfold createRow at ih ⊢
    rw [List.range_succ, List.foldl_append, ih]
    simp only [List.foldl_cons, List.foldl_nil, createSubOp, List.map_append, List.map_cons,
      List.map_nil, List.append_assoc, Nat.succ_mul]
    simp only [add_assoc]

theorem createRows_eq {nextDst : ℕ → ℕ → ℕ} {count : ℕ} (rowStep : ℕ)
    (hnext : ∀ start, nextDst start (start + count * dstStep) = start + rowStep) (rows : ℕ)
    (u : Unrolled) :
    u.createRows dmaPortCount srcStep dstStep dmaDescriptor rows count nextDst =
      { index := u.index + rows * count
        srcOffset := u.srcOffset + rows * count * srcStep
        dstOffset := u.dstOffset + rows * rowStep
        created := u.created ++ grid rows count fun m n =>
          ⟨(u.index + (m * count + n)) % dmaPortCount, dmaDescriptor,
            u.srcOffset + (m * count + n) * srcStep,
            u.dstOffset + m * rowStep + n * dstStep⟩ } := by
  unfold grid
  induction rows with
  | zero => simp [createRows]
  | succ rows ih =>
    unfold createRows at ih ⊢
    rw [List.range_succ, List.foldl_append, ih]
    simp only [List.foldl_cons, List.foldl_nil, createRow_eq, hnext, List.flatMap_append,
      List.flatMap_cons, List.flatMap_nil, List.append_nil, List.append_assoc, Nat.succ_mul,
      Nat.add_mul]
    simp only [add_assoc]

end Unrolled

section Grid

variable {rows count : ℕ} {sub : ℕ → ℕ → SubDMA}

theorem length_grid : (grid rows count sub).length = rows * count := by
  simp [grid, List.length_flatMap, List.map_const']

theorem getElem?_grid {m n : ℕ} (hm : m < rows) (hn : n < count) :
    (grid rows count sub)[m * count + n]? = some (sub m n) := by
  unfold grid
  rw [getElem?_flatMap_range (fun _ _ => by simp) hm hn]
  simp [hn]

theorem exists_of_getElem?_grid {k : ℕ} {dma : SubDMA}
    (h : (grid rows count sub)[k]? = some dma) :
    ∃ m < rows, ∃ n < count, k = m * count + n ∧ dma = sub m n := by
  have hlength : (grid rows count sub).length = rows * count := length_grid
  have hk : k < rows * count := hlength ▸ (List.getElem?_eq_some_iff.mp h).1
  obtain ⟨m, hm, n, hn, rfl⟩ := exists_digits hk
  rw [getElem?_grid hm hn] at h
  exact ⟨m, hm, n, hn, rfl, (Option.some.inj h).symm⟩

theorem mem_grid {dma : SubDMA} :
    dma ∈ grid rows count sub ↔ ∃ m < rows, ∃ n < count, sub m n = dma := by
  simp [grid]

theorem map_range_eq_grid : (List.range count).map (sub 0) = grid 1 count sub := by
  simp [grid]

variable {ι : Type} {points : ι → Prop} {source target : ι → ℕ}

theorem encodes_grid (row column plane byte : ι → ℕ)
    (hrow : ∀ x, points x → row x < rows ∧ column x < count)
    (hplane : ∀ x, points x → plane x < (sub (row x) (column x)).dmaDescriptor.numPlanes ∧
      byte x < (sub (row x) (column x)).dmaDescriptor.len)
    (hsource : ∀ x, points x →
      source x = (sub (row x) (column x)).copy.source.address (plane x) (byte x))
    (htarget : ∀ x, points x →
      target x = (sub (row x) (column x)).copy.target.address (plane x) (byte x))
    (honto : ∀ m < rows, ∀ n < count, ∀ p < (sub m n).dmaDescriptor.numPlanes,
      ∀ t < (sub m n).dmaDescriptor.len,
        ∃ x, points x ∧ row x = m ∧ column x = n ∧ plane x = p ∧ byte x = t) :
    Encodes ((grid rows count sub).map SubDMA.copy) points source target
      fun x => ⟨row x * count + column x, plane x, byte x⟩ := by
  constructor
  · intro x hx
    refine ⟨(sub (row x) (column x)).copy, ?_, (hplane x hx).1, (hplane x hx).2, hsource x hx,
      htarget x hx⟩
    rw [List.getElem?_map, getElem?_grid (hrow x hx).1 (hrow x hx).2, Option.map_some]
  · rintro ⟨k, p, t⟩ s d ⟨c, hc, hp, ht, -, -⟩
    rw [List.getElem?_map, Option.map_eq_some_iff] at hc
    obtain ⟨dma, hdma, rfl⟩ := hc
    obtain ⟨m, hm, n, hn, rfl, rfl⟩ := exists_of_getElem?_grid hdma
    obtain ⟨x, hx, rfl, rfl, rfl, rfl⟩ := honto m hm n hn p hp t ht
    exact ⟨x, hx, rfl⟩

end Grid

end Vpux.Dma
