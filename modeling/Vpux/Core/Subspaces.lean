import Mathlib.Algebra.Order.BigOperators.GroupWithZero.List
import Mathlib.Logic.Function.Iterate
import Vpux.Const.Types

/-! Coordinates of the elements, lines and planes of a tensor (`utils/subspaces.cpp`). The loops run
from the last dimension to the first, so a recursion handles the dimensions behind first. -/
namespace Vpux.Core.Subspace
open Data Vpux.Const

/-- The coordinates, and what is left of `numSections` in front of them. -/
def getCoordFrom : List ℕ → ℕ → List ℕ × ℕ
  | [], numSections => ([], numSections)
  | dimVal :: dims, numSections =>
    let (subspaceCoord, numSections) := getCoordFrom dims numSections
    let nUpSubspace := numSections / dimVal
    ((numSections - nUpSubspace * dimVal) :: subspaceCoord, nUpSubspace)

def getCoord (dims : List ℕ) (numSections : ℕ) : List ℕ := (getCoordFrom dims numSections).1

def getOffsetFrom : List ℕ → List ℤ → List Bool → ℤ
  | coord :: subspaceCoord, stride :: strides, broadcast =>
    let offset := getOffsetFrom subspaceCoord strides broadcast.tail
    if broadcast.isEmpty || !broadcast.headD false then offset + coord * stride else offset
  | _, _, _ => 0

/-- The offset in bits. -/
def getOffset (subspaceCoord : List ℕ) (strides : List ℤ) (broadcast : List Bool) :
    Except Fault ℤ := do
  throwUnless (subspaceCoord.length = strides.length) "Mismatch between shape and strides"
  throwUnless (broadcast = [] ∨ subspaceCoord.length = broadcast.length)
    "Mismatch between shape and broadcast"
  return getOffsetFrom subspaceCoord strides broadcast

/-- The loop over the dimensions that are not skipped, and whether it ends without a break. -/
def incrementFrom : (ℕ → Bool) → List ℕ → List ℕ → List ℕ × Bool
  | skip, coord :: subspaceCoord, dim :: dims =>
    match incrementFrom (fun d => skip (d + 1)) subspaceCoord dims with
    | (subspaceCoord, false) => (coord :: subspaceCoord, false)
    | (subspaceCoord, true) =>
      if skip 0 then (coord :: subspaceCoord, true)
      else if coord < dim - 1 then ((coord + 1) :: subspaceCoord, false)
      else (0 :: subspaceCoord, true)
  | _, subspaceCoord, _ => (subspaceCoord, true)

def increment1Coord (subspaceCoord dims : List ℕ) : List ℕ :=
  (incrementFrom (fun _ => false) subspaceCoord dims).1

def incrementLine (lineCoord dims : List ℕ) (axis : ℕ) : List ℕ :=
  (incrementFrom (fun d => d = axis) lineCoord dims).1

def incrementPlane (planeCoord dims : List ℕ) (axis0 axis1 : ℕ) : List ℕ :=
  (incrementFrom (fun d => d = axis0 || d = axis1) planeCoord dims).1

def incrementNFrom : List ℕ → List ℕ → ℕ → List ℕ × ℕ
  | coord :: subspaceCoord, dim :: dims, inc =>
    let (subspaceCoord, inc) := incrementNFrom subspaceCoord dims inc
    let inc := inc + coord
    let coord := inc % dim
    (coord :: subspaceCoord, (inc - coord) / dim)
  | subspaceCoord, _, inc => (subspaceCoord, inc)

def incrementNCoord (subspaceCoord dims : List ℕ) (inc : ℕ) : List ℕ :=
  (incrementNFrom subspaceCoord dims inc).1

def getTotalLines (dims : List ℕ) (axis : ℕ) : ℕ :=
  if dims.getD axis 0 ≠ 0 then dims.prod / dims.getD axis 0 else 0

def getTotalPlanes (dims : List ℕ) (axis0 axis1 : ℕ) : ℕ :=
  if dims.getD axis0 0 * dims.getD axis1 0 ≠ 0 then
    dims.prod / (dims.getD axis0 0 * dims.getD axis1 0)
  else 0

variable {dims coord : List ℕ}

section Steps

theorem getCoordFrom_eq (dims : List ℕ) (n : ℕ) :
    getCoordFrom dims n = (pointAt dims n, n / dims.prod) := by
  induction dims with
  | nil => simp [getCoordFrom, pointAt]
  | cons dim dims ih =>
    have hrest : n / dims.prod - n / dims.prod / dim * dim = n / dims.prod % dim := by
      rw [Nat.mod_eq_sub_div_mul]
    simp only [getCoordFrom, ih, pointAt, List.prod_cons]
    rw [hrest, Nat.div_div_eq_div_mul, mul_comm dim]

theorem getCoord_eq (dims : List ℕ) (n : ℕ) : getCoord dims n = pointAt dims n := by
  rw [getCoord, getCoordFrom_eq]

section

variable (h : 0 < dims.prod)
include h

/-- An increment carries into the dimensions in front where the number of those behind is full. -/
theorem incrementFrom_pointAt (n : ℕ) :
    incrementFrom (fun _ => false) (pointAt dims n) dims =
      (pointAt dims (n + 1), decide (dims.prod ∣ n + 1)) := by
  induction dims with
  | nil => simp [incrementFrom, pointAt]
  | cons dim dims ih =>
    have hdim : 0 < dim := Nat.pos_of_mul_pos_right h
    have hdims : 0 < dims.prod := Nat.pos_of_mul_pos_left h
    have hdvd : (dim :: dims).prod ∣ n + 1 → dims.prod ∣ n + 1 :=
      Dvd.dvd.trans (Dvd.intro_left dim List.prod_cons.symm)
    simp only [pointAt, incrementFrom, ih hdims]
    by_cases hfull : dims.prod ∣ n + 1
    · have hdiv : (n + 1) / dims.prod = n / dims.prod + 1 := by rw [Nat.succ_div, if_pos hfull]
      have hcarry : (dim :: dims).prod ∣ n + 1 ↔ dim ∣ n / dims.prod + 1 := by
        rw [List.prod_cons, mul_comm, ← hdiv, Nat.dvd_div_iff_mul_dvd hfull]
      have hlt := Nat.mod_lt (n / dims.prod) hdim
      simp only [decide_eq_true hfull, Bool.false_eq_true, if_false, hdiv, hcarry]
      split_ifs with hlast
      · have hmod : (n / dims.prod + 1) % dim = n / dims.prod % dim + 1 := by
          rw [Nat.add_mod_eq_add_mod_right 1 (Nat.mod_mod _ _).symm, Nat.mod_eq_of_lt (by omega)]
        have hnot : ¬ dim ∣ n / dims.prod + 1 := by
          rw [Nat.dvd_iff_mod_eq_zero, hmod]
          exact Nat.succ_ne_zero _
        rw [hmod, decide_eq_false hnot]
      · have hmod : (n / dims.prod + 1) % dim = 0 := by
          rw [Nat.add_mod_eq_add_mod_right 1 (Nat.mod_mod _ _).symm,
            show n / dims.prod % dim + 1 = dim by omega, Nat.mod_self]
        rw [hmod, decide_eq_true (Nat.dvd_of_mod_eq_zero hmod)]
    · have hdiv : (n + 1) / dims.prod = n / dims.prod := by
        rw [Nat.succ_div, if_neg hfull, add_zero]
      simp only [decide_eq_false hfull, decide_eq_false (mt hdvd hfull), hdiv]

theorem increment1Coord_pointAt (n : ℕ) :
    increment1Coord (pointAt dims n) dims = pointAt dims (n + 1) := by
  rw [increment1Coord, incrementFrom_pointAt h]

theorem iterate_increment1Coord (n k : ℕ) :
    (increment1Coord · dims)^[k] (pointAt dims n) = pointAt dims (n + k) := by
  induction k with
  | zero => rfl
  | succ k ih => rw [Function.iterate_succ_apply', ih, increment1Coord_pointAt h, add_assoc]

theorem incrementNFrom_pointAt (n k : ℕ) :
    incrementNFrom (pointAt dims n) dims k =
      (pointAt dims (n + k), (n % dims.prod + k) / dims.prod) := by
  induction dims with
  | nil => simp [incrementNFrom, pointAt, Nat.mod_one]
  | cons dim dims ih =>
    have hdims : 0 < dims.prod := Nat.pos_of_mul_pos_left h
    have hdiv : (n + k) / dims.prod = n / dims.prod + (n % dims.prod + k) / dims.prod := by
      conv_lhs => rw [← Nat.div_add_mod n dims.prod, add_assoc, Nat.mul_add_div hdims]
    have hcoord : ((n % dims.prod + k) / dims.prod + n / dims.prod % dim) % dim =
        (n + k) / dims.prod % dim := by
      rw [Nat.add_mod_mod, hdiv, add_comm]
    have hnext : ((n % dims.prod + k) / dims.prod + n / dims.prod % dim) / dim =
        (n % (dim * dims.prod) + k) / (dim * dims.prod) := by
      have hsum : n % (dim * dims.prod) + k =
          dims.prod * (n / dims.prod % dim) + (n % dims.prod + k) := by
        rw [mul_comm dim, Nat.mod_mul]
        ring
      rw [hsum, mul_comm dim, ← Nat.div_div_eq_div_mul, Nat.mul_add_div hdims, add_comm]
    simp only [incrementNFrom, pointAt, ih hdims, hcoord, List.prod_cons]
    rw [← hcoord, ← Nat.div_eq_sub_mod_div, hnext]

theorem incrementNCoord_pointAt (n k : ℕ) :
    incrementNCoord (pointAt dims n) dims k = pointAt dims (n + k) := by
  rw [incrementNCoord, incrementNFrom_pointAt h]

end

theorem pointAt_zero (dims : List ℕ) : pointAt dims 0 = List.replicate dims.length 0 := by
  induction dims with
  | nil => rfl
  | cons dim dims ih => rw [pointAt, ih, Nat.zero_div, Nat.zero_mod]; rfl

theorem pointAt_prod (h : 0 < dims.prod) : pointAt dims dims.prod = pointAt dims 0 := by
  apply rowMajor_injective (inBox_pointAt h _) (inBox_pointAt h _)
  rw [rowMajor_pointAt_mod, rowMajor_pointAt_mod, Nat.mod_self, Nat.zero_mod]

end Steps

section Offset

theorem getOffsetFrom_eq : ∀ (coord : List ℕ) (strides : List ℤ),
    getOffsetFrom coord strides [] = offset strides (coord.map (↑))
  | [], strides => by cases strides <;> rfl
  | coord :: subspaceCoord, [] => rfl
  | coord :: subspaceCoord, stride :: strides => by
    simp only [getOffsetFrom, List.tail_nil, getOffsetFrom_eq subspaceCoord strides,
      List.isEmpty_nil, Bool.true_or, if_true, List.map_cons, offset, add_comm]

theorem offset_compactStrides (elemSize : ℤ) (h : InBox dims coord) :
    offset (compactStrides elemSize (dims.map (↑))) (coord.map (↑)) =
      elemSize * (rowMajor dims coord : ℤ) := by
  induction h with
  | nil => simp [offset, rowMajor, compactStrides]
  | @cons i dim coord dims _ _ ih =>
    have hcast : (dims.map ((↑) : ℕ → ℤ)).prod = (dims.prod : ℤ) := by
      exact (map_list_prod (Nat.castRingHom ℤ) dims).symm
    rw [List.map_cons, List.map_cons, compactStrides, offset, ih, innerExtent_compactStrides,
      rowMajor, hcast]
    push_cast
    ring

end Offset

variable {axis : ℕ}

section Starts

/-- Steps from an origin come to every start once, and after the last one back to the origin. -/
structure Visits {α : Type} (step : α → α) (origin : α) (starts : α → Prop) (count : ℕ) :
    Prop where
  starts_iterate : ∀ i < count, starts (step^[i] origin)
  once : ∀ start, starts start → ∃! i, i < count ∧ step^[i] origin = start
  wraps : step^[count] origin = origin

/-- The sizes when only the first coordinate of the skipped dimensions counts. -/
def keptSizes (skip : ℕ → Bool) (dims : List ℕ) : List ℕ :=
  dims.mapIdx fun d dim => if skip d then 1 else dim

theorem incrementFrom_skip {skip : ℕ → Bool} (h : InBox (keptSizes skip dims) coord) :
    incrementFrom skip coord dims = incrementFrom (fun _ => false) coord (keptSizes skip dims) := by
  induction dims generalizing skip coord with
  | nil =>
    obtain rfl := inBox_nil.mp h
    rfl
  | cons dim dims ih =>
    have hkept : keptSizes skip (dim :: dims) =
        (if skip 0 then 1 else dim) :: keptSizes (fun d => skip (d + 1)) dims := by
      rw [keptSizes, List.mapIdx_cons]
      rfl
    rw [hkept] at h ⊢
    cases coord with
    | nil => cases h
    | cons i coord =>
      obtain ⟨hi, hcoord⟩ := inBox_cons.mp h
      rw [incrementFrom, incrementFrom, ih hcoord]
      generalize incrementFrom (fun _ => false) coord _ = result
      obtain ⟨subspaceCoord, carry⟩ := result
      cases carry with
      | false => rfl
      | true =>
        cases hskip : skip 0 with
        | false => simp
        | true =>
          rw [hskip, if_pos rfl, Nat.lt_one_iff] at hi
          simp [hi]

theorem visits_keptSizes {skip : ℕ → Bool} (h : 0 < (keptSizes skip dims).prod) :
    Visits (fun coord => (incrementFrom skip coord dims).1) (List.replicate dims.length 0)
      (InBox (keptSizes skip dims)) (keptSizes skip dims).prod := by
  have horigin : List.replicate dims.length 0 = pointAt (keptSizes skip dims) 0 := by
    rw [pointAt_zero, keptSizes, List.length_mapIdx]
  have hiterate : ∀ i, (fun coord => (incrementFrom skip coord dims).1)^[i]
      (List.replicate dims.length 0) = pointAt (keptSizes skip dims) i := by
    intro i
    induction i with
    | zero => exact horigin
    | succ i ih =>
      rw [Function.iterate_succ_apply', ih, incrementFrom_skip (inBox_pointAt h i),
        incrementFrom_pointAt h]
  refine ⟨fun i _ => ?_, fun start hstart => ?_, ?_⟩
  · rw [hiterate]
    exact inBox_pointAt h i
  · refine ⟨rowMajor (keptSizes skip dims) start, ⟨rowMajor_lt hstart, ?_⟩, ?_⟩
    · rw [hiterate, pointAt_rowMajor hstart]
    · rintro i ⟨hi, rfl⟩
      rw [hiterate, rowMajor_pointAt hi]
  · rw [hiterate, pointAt_prod h, horigin]

theorem keptSizes_line (dims : List ℕ) (axis : ℕ) :
    keptSizes (fun d => d = axis) dims = dims.set axis 1 := by
  apply List.ext_getElem
  · simp [keptSizes]
  · intro d _ _
    simp [keptSizes, List.getElem_set, eq_comm]

theorem keptSizes_plane (dims : List ℕ) (axis0 axis1 : ℕ) :
    keptSizes (fun d => d = axis0 || d = axis1) dims = (dims.set axis0 1).set axis1 1 := by
  apply List.ext_getElem
  · simp [keptSizes]
  · intro d _ _
    by_cases h1 : d = axis1
    · simp [keptSizes, h1]
    · by_cases h0 : d = axis0
      · simp [keptSizes, List.getElem_set, h0]
      · simp [keptSizes, h0, h1, Ne.symm h0, Ne.symm h1]

theorem inBox_set_one (haxis : axis < dims.length) (h : 0 < dims.getD axis 0) :
    InBox (dims.set axis 1) coord ↔ InBox dims coord ∧ coord.getD axis 0 = 0 := by
  rw [List.getD_eq_getElem _ _ haxis] at h
  constructor
  · intro hin
    have hlength : coord.length = dims.length := by rw [hin.length_eq, List.length_set]
    have hcoord : axis < coord.length := hlength ▸ haxis
    have hzero : coord[axis] < 1 := by
      have := hin.getElem_lt hcoord (by rwa [List.length_set])
      rwa [List.getElem_set_self] at this
    refine ⟨inBox_of_getElem hlength fun d hd hd' => ?_, ?_⟩
    · rcases eq_or_ne axis d with rfl | hne
      · omega
      · have := hin.getElem_lt hd (by rwa [List.length_set])
        rwa [List.getElem_set_ne hne] at this
    · rw [List.getD_eq_getElem _ _ hcoord, ← Nat.lt_one_iff]
      exact hzero
  · rintro ⟨hin, hzero⟩
    rw [List.getD_eq_getElem _ _ (hin.length_eq ▸ haxis)] at hzero
    refine inBox_of_getElem (by rw [hin.length_eq, List.length_set]) fun d hd hd' => ?_
    rw [List.length_set] at hd'
    rcases eq_or_ne axis d with rfl | hne
    · rw [List.getElem_set_self, hzero]
      exact Nat.one_pos
    · rw [List.getElem_set_ne hne]
      exact hin.getElem_lt hd hd'

theorem prod_set_one (haxis : axis < dims.length) :
    (dims.set axis 1).prod * dims.getD axis 0 = dims.prod := by
  rw [List.getD_eq_getElem _ _ haxis, List.prod_set, if_pos haxis, mul_one,
    ← List.prod_take_mul_prod_drop dims axis, List.drop_eq_getElem_cons haxis, List.prod_cons]
  ring

end Starts

/-- Stepping agrees with the linear index. -/
structure StepsLikeIndexing (dims : List ℕ) : Prop where
  increment1 : ∀ n, increment1Coord (getCoord dims n) dims = getCoord dims (n + 1)
  wraps : increment1Coord (getCoord dims (dims.prod - 1)) dims = List.replicate dims.length 0
  incrementN : ∀ coord, InBox dims coord → ∀ k,
    incrementNCoord coord dims k = (increment1Coord · dims)^[k] coord
  offset : ∀ n < dims.prod, ∀ elemSize : ℤ,
    getOffset (getCoord dims n) (compactStrides elemSize (dims.map (↑))) [] = .ok (elemSize * n)
  lines : ∀ axis < dims.length,
    Visits (incrementLine · dims axis) (List.replicate dims.length 0)
      (fun coord => InBox dims coord ∧ coord.getD axis 0 = 0) (getTotalLines dims axis)
  planes : ∀ axis0 < dims.length, ∀ axis1 < dims.length, axis0 ≠ axis1 →
    Visits (incrementPlane · dims axis0 axis1) (List.replicate dims.length 0)
      (fun coord => InBox dims coord ∧ coord.getD axis0 0 = 0 ∧ coord.getD axis1 0 = 0)
      (getTotalPlanes dims axis0 axis1)

theorem getD_pos (h : ∀ d ∈ dims, 0 < d) (haxis : axis < dims.length) : 0 < dims.getD axis 0 := by
  rw [List.getD_eq_getElem _ _ haxis]
  exact h _ (List.getElem_mem haxis)

theorem visits_lines (h : ∀ d ∈ dims, 0 < d) (haxis : axis < dims.length) :
    Visits (incrementLine · dims axis) (List.replicate dims.length 0)
      (fun coord => InBox dims coord ∧ coord.getD axis 0 = 0) (getTotalLines dims axis) := by
  have hsize := getD_pos h haxis
  have hstarts : InBox (dims.set axis 1) =
      fun coord => InBox dims coord ∧ coord.getD axis 0 = 0 :=
    funext fun _ => propext (inBox_set_one haxis hsize)
  have hcount : getTotalLines dims axis = (dims.set axis 1).prod := by
    rw [getTotalLines, if_pos hsize.ne', ← prod_set_one haxis, Nat.mul_div_cancel _ hsize]
  have hpos : 0 < (dims.set axis 1).prod :=
    Nat.pos_of_mul_pos_right ((prod_set_one haxis).symm ▸ List.prod_pos h)
  rw [hcount, ← hstarts, ← keptSizes_line]
  exact visits_keptSizes (by rwa [keptSizes_line])

theorem visits_planes (h : ∀ d ∈ dims, 0 < d) {axis0 axis1 : ℕ} (haxis0 : axis0 < dims.length)
    (haxis1 : axis1 < dims.length) (hne : axis0 ≠ axis1) :
    Visits (incrementPlane · dims axis0 axis1) (List.replicate dims.length 0)
      (fun coord => InBox dims coord ∧ coord.getD axis0 0 = 0 ∧ coord.getD axis1 0 = 0)
      (getTotalPlanes dims axis0 axis1) := by
  have hsize0 := getD_pos h haxis0
  have hsize1 := getD_pos h haxis1
  have haxis1' : axis1 < (dims.set axis0 1).length := by rwa [List.length_set]
  have hsame : (dims.set axis0 1).getD axis1 0 = dims.getD axis1 0 := by
    rw [List.getD_eq_getElem _ _ haxis1', List.getElem_set_ne hne, List.getD_eq_getElem]
  have hstarts : InBox ((dims.set axis0 1).set axis1 1) =
      fun coord => InBox dims coord ∧ coord.getD axis0 0 = 0 ∧ coord.getD axis1 0 = 0 := by
    funext coord
    rw [inBox_set_one haxis1' (by rwa [hsame]), inBox_set_one haxis0 hsize0, and_assoc]
  have hprod : ((dims.set axis0 1).set axis1 1).prod * (dims.getD axis0 0 * dims.getD axis1 0) =
      dims.prod := by
    rw [mul_left_comm, ← hsame, prod_set_one haxis1', mul_comm, prod_set_one haxis0]
  have hpair := Nat.mul_pos hsize0 hsize1
  have hcount : getTotalPlanes dims axis0 axis1 = ((dims.set axis0 1).set axis1 1).prod := by
    rw [getTotalPlanes, if_pos hpair.ne', ← hprod, Nat.mul_div_cancel _ hpair]
  have hpos : 0 < ((dims.set axis0 1).set axis1 1).prod :=
    Nat.pos_of_mul_pos_right (hprod.symm ▸ List.prod_pos h)
  rw [hcount, ← hstarts, ← keptSizes_plane]
  exact visits_keptSizes (by rwa [keptSizes_plane])

/-- Coordinates step like the linear index, whatever the rank and the sizes. -/
theorem stepsLikeIndexing (dims : List ℕ) (h : ∀ d ∈ dims, 0 < d) : StepsLikeIndexing dims where
  increment1 n := by rw [getCoord_eq, getCoord_eq, increment1Coord_pointAt (List.prod_pos h)]
  wraps := by
    have hprod := List.prod_pos h
    rw [getCoord_eq, increment1Coord_pointAt hprod, Nat.sub_add_cancel hprod, pointAt_prod hprod,
      pointAt_zero]
  incrementN coord hcoord k := by
    rw [← pointAt_rowMajor hcoord, incrementNCoord_pointAt hcoord.prod_pos,
      iterate_increment1Coord hcoord.prod_pos]
  offset n hn elemSize := by
    have hin := inBox_pointAt (Nat.zero_lt_of_lt hn) n
    have hlength : (pointAt dims n).length =
        (compactStrides elemSize (dims.map ((↑) : ℕ → ℤ))).length := by
      rw [length_compactStrides, List.length_map, hin.length_eq]
    rw [getOffset, getCoord_eq, throwUnless, if_pos hlength, throwUnless, if_pos (Or.inl rfl),
      getOffsetFrom_eq, offset_compactStrides elemSize hin, rowMajor_pointAt hn]
    rfl
  lines _ haxis := visits_lines h haxis
  planes _ haxis0 _ haxis1 hne := visits_planes h haxis0 haxis1 hne

theorem stepsLikeIndexing_two_three : StepsLikeIndexing [2, 3] :=
  stepsLikeIndexing [2, 3] (by decide)

end Vpux.Core.Subspace
