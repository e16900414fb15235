import Vpux.Const.Types
import Vpux.Core.StrideReqs

/-! Strides for shapes that a strided tensor is tiled to, `adaptStrides` of `core/tiling.cpp`. -/
namespace Vpux.Tiling
open Data Vpux.Core
open Vpux.Const (DimsOrder)

inductive AdaptError where
  | exception (message : String)
  | divisionByZero
  deriving DecidableEq, Repr

/-- The loop over the memory dimensions, the innermost one first. -/
def adaptMemStrides : (memStrides memShape adaptedMemShape : List ℤ) → Except AdaptError (List ℤ)
  | currStride :: prevStride :: memStrides, _ :: size :: memShape,
      _ :: adaptedSize :: adaptedMemShape => do
    let adaptedMemStrides ←
      adaptMemStrides (prevStride :: memStrides) (size :: memShape) (adaptedSize :: adaptedMemShape)
    let prevAdaptedStride := adaptedMemStrides.headD 0
    if prevStride = 0 then .error .divisionByZero
    else
      let adaptedStride := (prevAdaptedStride * currStride).tdiv prevStride
      let strideRatio := currStride.tdiv prevStride
      if size ≠ adaptedSize then
        if strideRatio ≠ size then
          .error (.exception "Can't have both stride ratio != shape and also adapted shape")
        else .ok (adaptedSize * prevAdaptedStride :: adaptedMemStrides)
      else .ok (adaptedStride :: adaptedMemStrides)
  | memStrides, _, _ => .ok memStrides

def toMemoryOrder (order : DimsOrder) (values : List ℤ) : Except AdaptError (List ℤ) :=
  if values.length = order.numDims then .ok (order.toMemory values)
  else .error (.exception "DimValues are not compatible with DimsOrder")

/-- The strides for one of the shapes. -/
def adaptShape (memStrides memShape : List ℤ) (dimsOrder : DimsOrder) (adaptedShape : List ℤ) :
    Except AdaptError (List ℤ) := do
  let adaptedMemShape ← toMemoryOrder dimsOrder adaptedShape
  let adaptedMemStrides ← adaptMemStrides memStrides memShape adaptedMemShape
  .ok (dimsOrder.toLogical adaptedMemStrides)

def adaptStrides (origShape origStrides : List ℤ) (adaptedShapes : List (List ℤ))
    (dimsOrder : DimsOrder) : Except AdaptError (List (List ℤ)) := do
  let memShape ← toMemoryOrder dimsOrder origShape
  let memStrides ← toMemoryOrder dimsOrder origStrides
  adaptedShapes.mapM (adaptShape memStrides memShape dimsOrder)

/-- The strides of a tensor type, which is always compact. -/
def getStrides (order : DimsOrder) (shape : List ℤ) (elemSize : ℤ) : List ℤ :=
  order.toLogical
    ((StrideReqs.compact order.numDims).calcStrides elemSize (order.toMemory shape))

/-- The stride of the next outer dimension leaves room behind the slices of a dimension. -/
def Padded (memStrides memShape : List ℤ) (d : ℕ) : Prop :=
  0 < d ∧ memStrides.getD (d - 1) 0 ≠ memStrides.getD d 0 * memShape.getD d 0

instance (memStrides memShape : List ℤ) (d : ℕ) : Decidable (Padded memStrides memShape d) :=
  inferInstanceAs (Decidable (_ ∧ _))

/-- No two elements of a tensor overlap. -/
def Apart (elemSize : ℤ) (strides shape : List ℤ) : Prop :=
  ∀ coords coords' : List ℤ, InBounds shape coords → InBounds shape coords' → coords ≠ coords' →
    offset strides coords + elemSize ≤ offset strides coords' ∨
      offset strides coords' + elemSize ≤ offset strides coords

variable {elemSize : ℤ}

section Step

variable {currStride prevStride first size first' size' p : ℤ}
  {memStrides memShape adaptedMemShape rest : List ℤ}

theorem adaptMemStrides_kept (hdiv : 0 < prevStride)
    (hinner : adaptMemStrides (prevStride :: memStrides) (size :: memShape)
      (size :: adaptedMemShape) = .ok (p :: rest)) :
    adaptMemStrides (currStride :: prevStride :: memStrides) (first :: size :: memShape)
      (first' :: size :: adaptedMemShape) =
        .ok ((p * currStride).tdiv prevStride :: p :: rest) := by
  rw [adaptMemStrides, hinner]
  simp [bind, Except.bind, hdiv.ne']

theorem adaptMemStrides_changed (hdiv : 0 < prevStride) (hne : size ≠ size')
    (hratio : currStride = prevStride * size)
    (hinner : adaptMemStrides (prevStride :: memStrides) (size :: memShape)
      (size' :: adaptedMemShape) = .ok (p :: rest)) :
    adaptMemStrides (currStride :: prevStride :: memStrides) (first :: size :: memShape)
      (first' :: size' :: adaptedMemShape) = .ok (size' * p :: p :: rest) := by
  have hquot : currStride.tdiv prevStride = size := by
    rw [hratio]
    exact Int.mul_tdiv_cancel_left size hdiv.ne'
  rw [adaptMemStrides, hinner]
  simp [bind, Except.bind, hdiv.ne', hne, hquot]

end Step

theorem adaptMemStrides_compact {memShape adaptedMemShape : List ℤ}
    (hlength : memShape.length = adaptedMemShape.length)
    (hdiv : ∀ stride ∈ (compactStrides elemSize memShape).tail, 0 < stride) :
    adaptMemStrides (compactStrides elemSize memShape) memShape adaptedMemShape =
      .ok (compactStrides elemSize adaptedMemShape) := by
  induction memShape generalizing adaptedMemShape with
  | nil =>
    obtain rfl : adaptedMemShape = [] := List.eq_nil_of_length_eq_zero hlength.symm
    rfl
  | cons first memShape ih =>
    cases adaptedMemShape with
    | nil => simp at hlength
    | cons first' adaptedMemShape =>
      cases memShape with
      | nil =>
        obtain rfl : adaptedMemShape = [] :=
          List.eq_nil_of_length_eq_zero (by simpa using hlength.symm)
        rfl
      | cons size memShape =>
        cases adaptedMemShape with
        | nil => simp at hlength
        | cons size' adaptedMemShape =>
          have hinner : adaptMemStrides (compactStrides elemSize (size :: memShape))
              (size :: memShape) (size' :: adaptedMemShape) =
                .ok (compactStrides elemSize (size' :: adaptedMemShape)) :=
            ih (by simpa using hlength) fun stride h => hdiv stride (List.mem_of_mem_tail h)
          have hprev := hdiv (innerExtent elemSize (compactStrides elemSize memShape) memShape)
            (by simp [compactStrides])
          by_cases hsize : size = size'
          · subst hsize
            refine (adaptMemStrides_kept hprev hinner).trans ?_
            have hquot : ∀ q : ℤ, (q * (innerExtent elemSize (compactStrides elemSize memShape)
                memShape * size)).tdiv (innerExtent elemSize (compactStrides elemSize memShape)
                memShape) = q * size := by
              intro q
              rw [mul_left_comm]
              exact Int.mul_tdiv_cancel_left _ hprev.ne'
            exact congrArg (fun head => Except.ok (head :: _)) (hquot _)
          · refine (adaptMemStrides_changed hprev hsize rfl hinner).trans ?_
            exact congrArg (fun head => Except.ok (head :: _)) (mul_comm _ _)

/-- Strides that step over what is inside of them still do when only sizes change that are not
padded. -/
theorem adaptMemStrides_nested {memStrides memShape adaptedMemShape : List ℤ}
    (helem : 0 < elemSize) (hlength : memShape.length = adaptedMemShape.length)
    (hnested : Nested elemSize memStrides memShape)
    (hadapted : ∀ size ∈ adaptedMemShape, 0 < size)
    (hdiv : ∀ stride ∈ memStrides.tail, 0 < stride)
    (hpadded : ∀ d < memShape.length, Padded memStrides memShape d →
      adaptedMemShape.getD d 0 = memShape.getD d 0) :
    ∃ adaptedMemStrides, adaptMemStrides memStrides memShape adaptedMemShape =
      .ok adaptedMemStrides ∧ Nested elemSize adaptedMemStrides adaptedMemShape := by
  induction memShape generalizing memStrides adaptedMemShape with
  | nil =>
    obtain rfl : adaptedMemShape = [] := List.eq_nil_of_length_eq_zero hlength.symm
    cases memStrides with
    | nil => exact ⟨[], rfl, trivial⟩
    | cons _ _ => exact hnested.elim
  | cons first memShape ih =>
    obtain ⟨first', adaptedMemShape, rfl⟩ :=
      List.exists_cons_of_length_eq_add_one (hlength.symm.trans (List.length_cons ..))
    cases memStrides with
    | nil => exact hnested.elim
    | cons currStride memStrides =>
      cases memShape with
      | nil =>
        obtain rfl : adaptedMemShape = [] :=
          List.eq_nil_of_length_eq_zero (by simpa using hlength.symm)
        cases memStrides with
        | nil => exact ⟨[currStride], rfl, hnested⟩
        | cons _ _ => exact hnested.2.elim
      | cons size memShape =>
        obtain ⟨size', adaptedMemShape, rfl⟩ :=
          List.exists_cons_of_length_eq_add_one (Nat.succ.inj hlength).symm
        cases memStrides with
        | nil => exact hnested.2.elim
        | cons prevStride memStrides =>
          have hpadded' : ∀ d < (size :: memShape).length,
              Padded (prevStride :: memStrides) (size :: memShape) d →
                (size' :: adaptedMemShape).getD d 0 = (size :: memShape).getD d 0 := by
            rintro d hd ⟨hpos, hne⟩
            obtain ⟨k, rfl⟩ := Nat.exists_eq_succ_of_ne_zero hpos.ne'
            exact hpadded (k + 2) (Nat.succ_lt_succ hd) ⟨Nat.succ_pos _, hne⟩
          obtain ⟨adaptedMemStrides, hinner, hnested'⟩ := ih (Nat.succ.inj hlength) hnested.2
            (fun n hn => hadapted n (List.mem_cons_of_mem first' hn))
            (fun stride h => hdiv stride (List.mem_cons_of_mem prevStride h)) hpadded'
          cases adaptedMemStrides with
          | nil => exact hnested'.elim
          | cons p rest =>
            have hprev : 0 < prevStride := hdiv prevStride (by simp)
            have hp : 0 < p := hnested'.head_pos helem fun n hn =>
              hadapted n (List.mem_cons_of_mem _ (List.mem_cons_of_mem _ hn))
            by_cases hsize : size = size'
            · subst hsize
              refine ⟨_, adaptMemStrides_kept hprev hinner, ?_, hnested'⟩
              have hcurr : prevStride * size ≤ currStride := hnested.1
              have hsize : 0 < size := hadapted size (by simp)
              have hmul : p * (prevStride * size) ≤ p * currStride :=
                mul_le_mul_of_nonneg_left hcurr hp.le
              have hnonneg : 0 ≤ p * (prevStride * size) :=
                mul_nonneg hp.le (mul_nonneg hprev.le hsize.le)
              change p * size ≤ (p * currStride).tdiv prevStride
              rw [Int.tdiv_eq_ediv_of_nonneg (hnonneg.trans hmul)]
              apply Int.le_ediv_of_mul_le hprev
              rwa [mul_right_comm, mul_assoc]
            · have hratio : currStride = prevStride * size := by
                by_contra hne
                exact hsize (hpadded 1 (by simp) ⟨Nat.one_pos, hne⟩).symm
              refine ⟨_, adaptMemStrides_changed hprev hsize hratio hinner, ?_, hnested'⟩
              exact (mul_comm p size').le

section Logical

variable {order : DimsOrder} {shape strides coords : List ℤ}

theorem offset_toMemory (hstrides : strides.length = order.numDims)
    (hcoords : coords.length = order.numDims) :
    offset (order.toMemory strides) (order.toMemory coords) = offset strides coords := by
  have hzip : (order.toMemory strides).zip (order.toMemory coords) =
      order.toMemory (strides.zip coords) := by
    apply List.ext_getElem (by simp)
    intro i hi hi'
    have hd : order.dimAt i < order.numDims := DimsOrder.dimAt_lt (by simpa using hi')
    rw [List.getElem_zip, DimsOrder.getElem_toMemory, DimsOrder.getElem_toMemory,
      DimsOrder.getElem_toMemory, List.getD_eq_getElem _ _ (hstrides ▸ hd),
      List.getD_eq_getElem _ _ (hcoords ▸ hd), List.getD_eq_getElem _ _ (by simp; omega),
      List.getElem_zip]
  have hperm : (order.toMemory (strides.zip coords)).Perm (strides.zip coords) :=
    DimsOrder.toMemory_perm (by simp [hstrides, hcoords])
  rw [offset_eq_sum (by simp), offset_eq_sum (hstrides.trans hcoords.symm), hzip]
  exact (hperm.map _).sum_eq

theorem apart_toLogical {memStrides : List ℤ} (helem : 0 ≤ elemSize)
    (hshape : shape.length = order.numDims) (hstrides : memStrides.length = order.numDims)
    (hnested : Nested elemSize memStrides (order.toMemory shape)) :
    Apart elemSize (order.toLogical memStrides) shape := by
  intro x x' hin hin' hne
  have hx : x.length = order.numDims := by rw [← hin.length_eq, hshape]
  have hx' : x'.length = order.numDims := by rw [← hin'.length_eq, hshape]
  have hmem : InBounds (order.toMemory shape) (order.toMemory x) :=
    DimsOrder.forall₂_toMemory hin hshape
  have hmem' : InBounds (order.toMemory shape) (order.toMemory x') :=
    DimsOrder.forall₂_toMemory hin' hshape
  have hne' : order.toMemory x ≠ order.toMemory x' := fun heq =>
    hne (DimsOrder.toMemory_injective hx hx' heq)
  have h := hnested.disjoint helem hmem hmem' hne'
  rw [← DimsOrder.toMemory_toLogical hstrides, offset_toMemory (by simp) hx,
    offset_toMemory (by simp) hx'] at h
  exact h

end Logical

variable {order : DimsOrder}

theorem toMemoryOrder_eq {values : List ℤ} (h : values.length = order.numDims) :
    toMemoryOrder order values = .ok (order.toMemory values) := if_pos h

theorem adaptStrides_eq {origShape origStrides : List ℤ} {adaptedShapes : List (List ℤ)}
    (hshape : origShape.length = order.numDims) (hstrides : origStrides.length = order.numDims) :
    adaptStrides origShape origStrides adaptedShapes order = adaptedShapes.mapM
      (adaptShape (order.toMemory origStrides) (order.toMemory origShape) order) := by
  unfold adaptStrides
  rw [toMemoryOrder_eq hshape, toMemoryOrder_eq hstrides]
  rfl

theorem adaptShape_eq {memStrides memShape adapted adaptedMemStrides : List ℤ}
    (hadapted : adapted.length = order.numDims)
    (h : adaptMemStrides memStrides memShape (order.toMemory adapted) = .ok adaptedMemStrides) :
    adaptShape memStrides memShape order adapted = .ok (order.toLogical adaptedMemStrides) := by
  unfold adaptShape
  rw [toMemoryOrder_eq hadapted]
  change (adaptMemStrides _ _ (order.toMemory adapted) >>= _ : Except _ _) = _
  rw [h]
  rfl

/-- For strides that the code can divide by, compact strides are adapted to compact strides, and
padded ones keep the elements apart as long as no padded dimension changes. -/
theorem adaptStrides_keeps (order : DimsOrder) (origShape origStrides : List ℤ)
    (adaptedShapes : List (List ℤ)) (elemSize : ℤ) (helem : 0 < elemSize)
    (hshape : origShape.length = order.numDims) (hstrides : origStrides.length = order.numDims)
    (hadapted : ∀ adapted ∈ adaptedShapes,
      adapted.length = order.numDims ∧ ∀ size ∈ adapted, 0 < size)
    (hdiv : ∀ stride ∈ (order.toMemory origStrides).tail, 0 < stride) :
    (origStrides = getStrides order origShape elemSize →
      adaptStrides origShape origStrides adaptedShapes order =
        .ok (adaptedShapes.map fun adapted => getStrides order adapted elemSize)) ∧
    (Nested elemSize (order.toMemory origStrides) (order.toMemory origShape) →
      (∀ adapted ∈ adaptedShapes, ∀ d < order.numDims,
        Padded (order.toMemory origStrides) (order.toMemory origShape) d →
          (order.toMemory adapted).getD d 0 = (order.toMemory origShape).getD d 0) →
      ∃ adaptedStrides, adaptStrides origShape origStrides adaptedShapes order =
        .ok adaptedStrides ∧
          List.Forall₂ (fun adapted strides => Apart elemSize strides adapted) adaptedShapes
            adaptedStrides) := by
  constructor
  · rintro rfl
    rw [adaptStrides_eq hshape hstrides]
    apply mapM_ok
    intro adapted hmem
    have hlength := (hadapted adapted hmem).1
    have hcompact : order.toMemory (getStrides order origShape elemSize) =
        compactStrides elemSize (order.toMemory origShape) := by
      unfold getStrides
      rw [StrideReqs.calcStrides_compact, DimsOrder.toMemory_toLogical (by simp)]
    rw [hcompact] at hdiv
    rw [hcompact, adaptShape_eq hlength (adaptMemStrides_compact (by simp) hdiv)]
    unfold getStrides
    rw [StrideReqs.calcStrides_compact]
  · intro hnested hpadded
    rw [adaptStrides_eq hshape hstrides]
    apply exists_mapM_ok
    intro adapted hmem
    obtain ⟨hlength, hpos⟩ := hadapted adapted hmem
    have hmemPos : ∀ size ∈ order.toMemory adapted, 0 < size := fun size hsize =>
      hpos size ((DimsOrder.toMemory_perm hlength).subset hsize)
    obtain ⟨adaptedMemStrides, hok, hnested'⟩ := adaptMemStrides_nested helem (by simp) hnested
      hmemPos hdiv (by simpa using hpadded adapted hmem)
    have hlength' : adaptedMemStrides.length = order.numDims := by
      rw [hnested'.length_eq, DimsOrder.length_toMemory]
    exact ⟨_, adaptShape_eq hlength hok, apart_toLogical helem.le hlength hlength' hnested'⟩

/-- Half of the rows of a plane, and a plane whose rows are padded to four elements. -/
theorem adaptStrides_keeps_rows :
    adaptStrides [1, 4, 3] [96, 24, 8] [[1, 2, 3]] (.fromNumDims 3) = .ok [[48, 24, 8]] ∧
      ∃ strides, adaptStrides [1, 4, 3] [128, 32, 8] [[1, 2, 3]] (.fromNumDims 3) =
        .ok [strides] ∧ Apart 8 strides [1, 2, 3] := by
  constructor
  · have h := (adaptStrides_keeps (.fromNumDims 3) [1, 4, 3] [96, 24, 8] [[1, 2, 3]] 8 (by decide)
      (by decide) (by decide) (by decide) (by decide)).1 (by decide)
    exact h
  · have hnested : Nested 8 [128, 32, 8] [1, 4, 3] :=
      ⟨by decide, by decide, by decide, trivial⟩
    have h := (adaptStrides_keeps (.fromNumDims 3) [1, 4, 3] [128, 32, 8] [[1, 2, 3]] 8
      (by decide) (by decide) (by decide) (by decide) (by decide)).2 hnested (by decide)
    obtain ⟨adaptedStrides, hok, hapart⟩ := h
    cases hapart with
    | cons hstrides hrest =>
      cases hrest
      exact ⟨_, hok, hstrides⟩

/-- The stride between the planes of an empty tensor is zero. -/
theorem adaptStrides_empty :
    (∀ size ∈ ([1, 1, 1] : List ℤ), 0 < size) ∧
      adaptStrides [1, 1, 0] (getStrides (.fromNumDims 3) [1, 1, 0] 8) [[1, 1, 1]]
        (.fromNumDims 3) ≠ .ok [getStrides (.fromNumDims 3) [1, 1, 1] 8] := by
  decide

end Vpux.Tiling
