import Vpux.Const.Types
import Vpux.Data.DimGroups
import Vpux.Data.Runs

/-! Element-wise operations on shapes of any rank, made on shapes of rank four. -/
namespace Vpux.IE.ShapeTo4D

section ShapeTo4D
open Vpux.Const Data

def TARGET_TENSOR_DIM : ℕ := 4

abbrev MergeMap : Type := List (List ℕ)

def alignShapeToReferenceShapeSize (refSize : ℕ) (shape : List ℕ) : Except Fault (List ℕ) := do
  throwUnless (shape.length ≤ refSize)
    s!"The reference shape size({refSize}) < shape size({shape.length})"
  pure (List.replicate (refSize - shape.length) 1 ++ shape)

/-- The loop of `getBalancedDimIndexFromShape`, at most one pass for each dimension. -/
def balance : ℕ → List ℕ → ℕ → ℕ → ℕ → ℕ
  | 0, _, _, _, dimIndex => dimIndex
  | passes + 1, shape, dimH, dimW, dimIndex =>
    if shape.isEmpty then dimIndex
    else if dimW < dimH then
      balance passes shape.dropLast dimH (dimW * shape.getLastD 1) dimIndex
    else
      balance passes shape.tail (dimH * shape.headD 1) dimW (dimIndex + 1)

def getBalancedDimIndexFromShape (shape : List ℕ) : ℕ := balance shape.length shape 1 1 0

def alignShapeWithDimMap (originShape : List ℕ) (mapper : MergeMap) : List ℕ :=
  groupShape originShape mapper

def alignShapeTo4D (originShape : List ℕ) (mapper : MergeMap) : Except Fault (List ℕ) :=
  alignShapeToReferenceShapeSize TARGET_TENSOR_DIM (alignShapeWithDimMap originShape mapper)

/-- The numbers from `first` on and below `last`. -/
def irange (first last : ℕ) : List ℕ := List.range' first (last - first)

def getTrivialMap (size : ℕ) : MergeMap := (List.range size).map fun i => [i]

def getDimMapWithFirstGreater1DimAsC (shape : List ℕ) : MergeMap :=
  match shape.findIdx? (1 < ·) with
  | none => []
  | some firstMoreThanOne =>
    let nextDimCIndex := firstMoreThanOne + 1
    let splitDimIndex := getBalancedDimIndexFromShape (shape.drop nextDimCIndex) + nextDimCIndex
    [irange 0 nextDimCIndex, irange nextDimCIndex splitDimIndex, irange splitDimIndex shape.length]

def getDimMapGeneric (shape : List ℕ) : MergeMap :=
  if TARGET_TENSOR_DIM < shape.length then getDimMapWithFirstGreater1DimAsC shape
  else getTrivialMap shape.length

/-- The dimensions in a row that meet the condition, unless it is a single one. -/
def getMergeMap (fullShape planeShape : List ℕ) (condition : ℕ → List ℕ → ℕ) : MergeMap :=
  let (dimMap, inputDimsTmp) := (List.range fullShape.length).foldl
    (fun (dimMap, inputDimsTmp) i =>
      if condition i fullShape = planeShape.getD i 0 then (dimMap, inputDimsTmp ++ [i])
      else (if 1 < inputDimsTmp.length then dimMap ++ [inputDimsTmp] else dimMap, []))
    (([], []) : MergeMap × List ℕ)
  if 1 < inputDimsTmp.length then dimMap ++ [inputDimsTmp] else dimMap

def sameDimCondition (i : ℕ) (shape : List ℕ) : ℕ := shape.getD i 0

def planeDimCondition (_ : ℕ) (_ : List ℕ) : ℕ := 1

/-- The first dimension of the first item, when it is less than the least index so far. -/
def getMinimumIndex (dimMapper : MergeMap) (minIndex : ℕ) : Option ℕ :=
  match dimMapper with
  | (front :: _) :: _ => if front < minIndex then some front else none
  | _ => none

/-- What the passes from `dimIndex` on add: at most as many passes as there are dimensions left. -/
def mergeFrom (fullShapeSize : ℕ) : ℕ → ℕ → MergeMap → MergeMap → MergeMap
  | 0, _, _, _ => []
  | passes + 1, dimIndex, mergeInPlaneDims, mergeInSameDims =>
    if fullShapeSize ≤ dimIndex then []
    else
      let inPlane := getMinimumIndex mergeInPlaneDims fullShapeSize
      let inSame := getMinimumIndex mergeInSameDims (inPlane.getD fullShapeSize)
      let minIndex := inSame.getD (inPlane.getD fullShapeSize)
      if dimIndex < minIndex then
        [dimIndex] :: mergeFrom fullShapeSize passes (dimIndex + 1) mergeInPlaneDims mergeInSameDims
      else
        let minVector := if inSame.isSome then mergeInSameDims else mergeInPlaneDims
        let currentDims := (minVector.headD []).dropWhile (· < dimIndex)
        let mergeInPlaneDims' :=
          if inSame.isSome then mergeInPlaneDims else mergeInPlaneDims.tail
        let mergeInSameDims' := if inSame.isSome then mergeInSameDims.tail else mergeInSameDims
        if currentDims.isEmpty then
          mergeFrom fullShapeSize passes (dimIndex + 1) mergeInPlaneDims' mergeInSameDims'
        else
          currentDims :: mergeFrom fullShapeSize passes (currentDims.getLastD dimIndex + 1)
            mergeInPlaneDims' mergeInSameDims'

def calculateMergeMap (fullShape planeShape : List ℕ) : MergeMap :=
  mergeFrom fullShape.length fullShape.length 0 (getMergeMap fullShape planeShape planeDimCondition)
    (getMergeMap fullShape planeShape sameDimCondition)

/-- An item in two. -/
def expandMapTo3D (maxShape item : List ℕ) : MergeMap :=
  let newReshapeDim := getBalancedDimIndexFromShape (select maxShape item)
  [item.take newReshapeDim, item.drop newReshapeDim]

def maxShape (input1 input2 : List ℕ) : List ℕ := if input2.prod <
    input1.prod then input1 else input2

def planeShape (input1 input2 : List ℕ) : List ℕ := if input2.prod <
    input1.prod then input2 else input1

def getDimMergeMapWith2Inputs (input1 input2 : List ℕ) : Except Fault MergeMap :=
  let maxShape := maxShape input1 input2
  let planeShape := planeShape input1 input2
  if maxShape.isEmpty ∧ planeShape.isEmpty then pure (List.replicate 4 [])
  else
    let dimsCanMerge :=
      if maxShape = planeShape then [irange 0 maxShape.length]
      else calculateMergeMap maxShape planeShape
    match dimsCanMerge with
    | [_] => pure (getDimMapGeneric maxShape)
    | [first, second] =>
      if 1 < second.length then pure (first :: expandMapTo3D maxShape second)
      else pure (expandMapTo3D maxShape first ++ [second])
    | [_, _, _] => pure dimsCanMerge
    | [_, _, _, _] => pure dimsCanMerge
    | _ => .error (.exception s!"The input shape {input1}, {input2} can't convert to 4D")

def swapEntries {α : Type} (l : List α) (i j : ℕ) (default : α) : List α :=
  (l.set i (l.getD j default)).set j (l.getD i default)

/-- A single dimension of more than one element becomes the channels. -/
def tryAndConvert2NCEShape (shape1 shape2 : List ℕ) (map : MergeMap) : List ℕ × List ℕ × MergeMap :=
  let nonTrivialShape1Dims := shape1.countP (1 < ·)
  let nonTrivialShape2Dims := shape2.countP (1 < ·)
  if (1 < nonTrivialShape1Dims ∨ 1 < nonTrivialShape2Dims) ∨
      (nonTrivialShape1Dims = 0 ∧ nonTrivialShape2Dims = 0) then (shape1, shape2, map)
  else
    let firstNonTrivialIndex :=
      if shape1.findIdx (1 < ·) ≤ shape2.findIdx (1 < ·) then shape1.findIdx (1 < ·)
      else shape2.findIdx (1 < ·)
    if firstNonTrivialIndex = 1 then (shape1, shape2, map)
    else
      let map := if map.length < 4 then List.replicate (4 - map.length) [] ++ map else map
      (swapEntries shape1 1 firstNonTrivialIndex 0, swapEntries shape2 1 firstNonTrivialIndex 0,
        swapEntries map 1 firstNonTrivialIndex [])

/-- The shapes of the new operation, with the dimensions each of theirs is made of. -/
structure Converted where
  dimsCanMerge : MergeMap
  newInputShape1 : List ℕ
  newInputShape2 : List ℕ
  newResultShape : List ℕ
  deriving DecidableEq, Repr

/-- Leading ones for the smaller shape, or its channels for an operation without broadcast. -/
def alignDims (hasAutoBroadcast : Bool) (bigShape smallShape : List ℕ) : Except Fault (List ℕ) :=
  if ¬hasAutoBroadcast ∧ smallShape.length = 1 ∧ smallShape.getD 0 0 = bigShape.getD 1 0 then
    pure ((List.replicate bigShape.length 1).set 1 (smallShape.getD 0 0))
  else alignShapeToReferenceShapeSize bigShape.length smallShape

def convertWith2Inputs (hasAutoBroadcast isMultiply : Bool)
    (shapeOne shapeTwo resultShape : List ℕ) :
    Except Fault Converted := do
  let shapeOneVector ←
    if shapeOne.length < shapeTwo.length then alignDims hasAutoBroadcast shapeTwo shapeOne
    else pure shapeOne
  let shapeTwoVector ←
    if shapeTwo.length < shapeOne.length then alignDims hasAutoBroadcast shapeOne shapeTwo
    else pure shapeTwo
  let dimsCanMerge ← getDimMergeMapWith2Inputs shapeOneVector shapeTwoVector
  let newInputShape1 ← alignShapeTo4D shapeOneVector dimsCanMerge
  let newInputShape2 ← alignShapeTo4D shapeTwoVector dimsCanMerge
  let (newInputShape1, newInputShape2, dimsCanMerge) :=
    if isMultiply then tryAndConvert2NCEShape newInputShape1 newInputShape2 dimsCanMerge
    else (newInputShape1, newInputShape2, dimsCanMerge)
  let newResultShape ← alignShapeTo4D resultShape dimsCanMerge
  pure ⟨dimsCanMerge, newInputShape1, newInputShape2, newResultShape⟩

end ShapeTo4D

-- The dimensions merged for two shapes are groups made of the runs of the dimensions in which the
-- one shape has size one, and of the runs of those in which both have the same size.
section MergeRuns
open Data

def dimsOf (r : Run) : List ℕ := List.range' r.first (r.last + 1 - r.first)

/-- In the plane, or of the same size. -/
def Merges (full plane : List ℕ) (kind : Bool) (i : ℕ) : Prop :=
  if kind then plane.getD i 0 = 1 else full.getD i 0 = plane.getD i 0

instance (full plane : List ℕ) (kind : Bool) : DecidablePred (Merges full plane kind) := fun i =>
  inferInstanceAs (Decidable (if kind then plane.getD i 0 = 1 else full.getD i 0 = plane.getD i 0))

section Scan

variable {p : ℕ → Prop} {n : ℕ}

/-- What has been found of the runs before the position `m`, and where the open one begins. -/
structure Scanned (kind : Bool) (p : ℕ → Prop) (n m : ℕ) (closed : List Run) (start : ℕ) :
    Prop where
  start_le : start ≤ m
  open_holds : ∀ i, start ≤ i → i < m → p i
  before : start = 0 ∨ ¬p (start - 1)
  sorted : closed.Pairwise fun x z => x.last < z.first
  mem : ∀ r, r ∈ closed ↔ r.kind = kind ∧ IsRun p n r.first r.last ∧ r.last < start

/-- The run that ends in front of `m`, unless it is a single position. -/
def close (kind : Bool) (start m : ℕ) (closed : List Run) : List Run :=
  if 1 < m - start then closed ++ [⟨kind, start, m - 1⟩] else closed

theorem isRun_open_iff {start m : ℕ} (hmn : m ≤ n) (hholds : ∀ i, start ≤ i → i < m → p i)
    (hbefore : start = 0 ∨ ¬p (start - 1)) (hend : m = n ∨ ¬p m) {first last : ℕ} :
    IsRun p n first last ∧ start ≤ last ∧ last < m + 1 ↔ first = start ∧ last + 1 = m ∧ start <
      last := by
  constructor
  · rintro ⟨hrun, hstart, hlast⟩
    have hlt := hrun.1
    have hn := hrun.2.1
    have hm : last < m := by
      obtain rfl | hnot := hend
      · exact hn
      · by_contra hle
        obtain rfl : last = m := by omega
        exact hnot (hrun.holds hlt.le le_rfl)
    have hge : start ≤ first := by
      obtain rfl | hnot := hbefore
      · exact Nat.zero_le first
      · by_contra hle
        exact hnot (hrun.holds (by omega) (by omega))
    have hfirst : first = start := by
      obtain hzero | hnot := hrun.2.2.2.1
      · omega
      · by_contra hne
        exact hnot (hholds (first - 1) (by omega) (by omega))
    have hlastm : last + 1 = m := by
      obtain hl | hnot := hrun.2.2.2.2
      · omega
      · by_contra hne
        exact hnot (hholds (last + 1) (by omega) (by omega))
    exact ⟨hfirst, hlastm, hfirst ▸ hlt⟩
  · rintro ⟨rfl, rfl, hlt⟩
    exact ⟨⟨hlt, by omega, fun i hi hfirst => hholds i hfirst hi, hbefore, hend⟩, hlt.le, by omega⟩

variable {kind : Bool} {closed : List Run} {start m : ℕ}

section

variable (h : Scanned kind p n m closed start)
include h

theorem Scanned.close (hmn : m ≤ n) (hend : m = n ∨ ¬p m) :
    (close kind start m closed).Pairwise (fun x z => x.last < z.first) ∧
      ∀ r, r ∈ close kind start m closed ↔ r.kind = kind ∧ IsRun p n r.first r.last ∧
        r.last < m + 1 := by
  have hopen : ∀ first last, IsRun p n first last ∧ start ≤ last ∧ last < m + 1 ↔
      first = start ∧ last + 1 = m ∧ start < last :=
    fun first last => isRun_open_iff hmn h.open_holds h.before hend
  have hle := h.start_le
  constructor
  · unfold ShapeTo4D.close
    split_ifs
    · rw [List.pairwise_append]
      refine ⟨h.sorted, List.pairwise_singleton _ _, fun x hx z hz => ?_⟩
      obtain rfl := List.mem_singleton.mp hz
      exact ((h.mem x).mp hx).2.2
    · exact h.sorted
  · intro r
    have hsplit : IsRun p n r.first r.last ∧ r.last < m + 1 ↔
        (IsRun p n r.first r.last ∧ r.last < start) ∨
          r.first = start ∧ r.last + 1 = m ∧ start < r.last := by
      rw [← hopen]
      constructor
      · rintro ⟨hrun, hlt⟩
        obtain hbefore | hin := Nat.lt_or_ge r.last start
        · exact Or.inl ⟨hrun, hbefore⟩
        · exact Or.inr ⟨hrun, hin, hlt⟩
      · rintro (⟨hrun, hlt⟩ | ⟨hrun, -, hlt⟩)
        · exact ⟨hrun, by omega⟩
        · exact ⟨hrun, hlt⟩
    rw [hsplit]
    unfold ShapeTo4D.close
    split_ifs with hlong
    · rw [List.mem_append, h.mem, List.mem_singleton]
      simp only [Run.ext_iff]
      constructor
      · rintro (⟨hkind, hrun⟩ | ⟨hkind, hfirst, hlast⟩)
        · exact ⟨hkind, Or.inl hrun⟩
        · exact ⟨hkind, Or.inr ⟨hfirst, by omega, by omega⟩⟩
      · rintro ⟨hkind, hrun | ⟨hfirst, hlast, -⟩⟩
        · exact Or.inl ⟨hkind, hrun⟩
        · exact Or.inr ⟨hkind, hfirst, by omega⟩
    · rw [h.mem, or_iff_left (by omega)]

theorem Scanned.push (hp : p m) :
    Scanned kind p n (m + 1) closed start := by
  refine ⟨by have := h.start_le; omega, fun i hi hlt => ?_, h.before, h.sorted, h.mem⟩
  obtain rfl | hne := eq_or_ne i m
  · exact hp
  · exact h.open_holds i hi (by omega)

theorem Scanned.clear (hmn : m < n) (hp : ¬p m) :
    Scanned kind p n (m + 1) (ShapeTo4D.close kind start m closed) (m + 1) := by
  obtain ⟨hsorted, hmem⟩ := h.close hmn.le (Or.inr hp)
  exact ⟨le_rfl, fun i hi hlt => absurd hlt (by omega), Or.inr hp, hsorted, hmem⟩

end

theorem Scanned.zero : Scanned kind p n 0 [] 0 := by
  refine ⟨le_rfl, fun i _ hlt => absurd hlt (by omega), Or.inl rfl, List.Pairwise.nil, fun r => ?_⟩
  simp

end Scan

theorem map_close (kind : Bool) (start m : ℕ) (closed : List Run) :
    (close kind start m closed).map dimsOf =
      if 1 < (List.range' start (m - start)).length then
        closed.map dimsOf ++ [List.range' start (m - start)]
      else closed.map dimsOf := by
  rw [close, List.length_range', apply_ite (List.map dimsOf)]
  split_ifs with hlong
  · rw [List.map_append, List.map_singleton, dimsOf]
    rw [show m - 1 + 1 - start = m - start by omega]
  · rfl

theorem getMergeMap_eq (full plane : List ℕ) (kind : Bool) (condition : ℕ → List ℕ → ℕ)
    (hcondition : ∀ i, condition i full = plane.getD i 0 ↔ Merges full plane kind i) :
    getMergeMap full plane condition =
      (runsOf kind (Merges full plane kind) full.length).map dimsOf := by
  have hscan : ∀ m ≤ full.length, ∃ closed start,
      Scanned kind (Merges full plane kind) full.length m closed start ∧
        (List.range m).foldl (fun (found : MergeMap × List ℕ) i =>
          if condition i full = plane.getD i 0 then (found.1, found.2 ++ [i])
          else (if 1 < found.2.length then found.1 ++ [found.2] else found.1, []))
          ([], []) = (closed.map dimsOf, List.range' start (m - start)) := by
    intro m
    induction m with
    | zero => exact fun _ => ⟨[], 0, .zero, rfl⟩
    | succ m ih =>
      intro hm
      obtain ⟨closed, start, hscanned, hfold⟩ := ih (by omega)
      have hle := hscanned.start_le
      rw [List.range_succ, List.foldl_append, hfold, List.foldl_cons, List.foldl_nil]
      by_cases hp : Merges full plane kind m
      · refine ⟨closed, start, hscanned.push hp, ?_⟩
        rw [if_pos ((hcondition m).mpr hp), Nat.succ_sub hle, List.range'_1_concat,
          Nat.add_sub_cancel' hle]
      · refine ⟨_, m + 1, hscanned.clear (by omega) hp, ?_⟩
        rw [if_neg ((hcondition m).not.mpr hp), map_close, Nat.sub_self, List.range'_zero]
  obtain ⟨closed, start, hscanned, hfold⟩ := hscan full.length le_rfl
  obtain ⟨hsorted, hmem⟩ := hscanned.close le_rfl (Or.inl rfl)
  rw [getMergeMap, hfold]
  simp only
  rw [← map_close kind]
  congr 1
  apply eq_runsOf hsorted
  intro r
  rw [hmem]
  exact and_congr_right fun _ => and_iff_left_of_imp fun hrun => by
    have := hrun.2.1
    omega

section Merge

/-- The run that the passes take next, of the two lists. -/
inductive Next : List Run → List Run → Run → List Run → List Run → Prop
  | plane (r : Run) (inPlane inSame : List Run) (h : ∀ z ∈ inSame.head?, r.first ≤ z.first) :
    Next (r :: inPlane) inSame r inPlane inSame
  | same (r : Run) (inPlane inSame : List Run) (h : ∀ x ∈ inPlane.head?, r.first < x.first) :
    Next inPlane (r :: inSame) r inPlane inSame

variable {inPlane inSame inPlane' inSame' : List Run} {r : Run} {n i passes : ℕ}

theorem Next.merge_eq (h : Next inPlane inSame r inPlane' inSame') :
    (List.merge inPlane inSame fun x z => x.first ≤ z.first) =
      r :: List.merge inPlane' inSame' fun x z => x.first ≤ z.first := by
  cases h with
  | plane _ _ _ hle =>
    cases inSame with
    | nil => simp
    | cons z inSame => rw [List.cons_merge_cons_pos _ _ _ (decide_eq_true (hle z rfl))]
  | same _ _ _ hlt =>
    cases inPlane with
    | nil => simp
    | cons x inPlane =>
      have := hlt x rfl
      rw [List.cons_merge_cons_neg _ _ _ (by simpa using this)]

theorem exists_next (h : inPlane ≠ [] ∨ inSame ≠ []) :
    ∃ r inPlane' inSame', Next inPlane inSame r inPlane' inSame' := by
  cases inPlane with
  | nil =>
    cases inSame with
    | nil => simp at h
    | cons z inSame => exact ⟨z, [], inSame, .same z [] inSame (by simp)⟩
  | cons x inPlane =>
    cases inSame with
    | nil => exact ⟨x, inPlane, [], .plane x inPlane [] (by simp)⟩
    | cons z inSame =>
      by_cases hle : x.first ≤ z.first
      · exact ⟨x, inPlane, z :: inSame, .plane x inPlane (z :: inSame) (by simpa using hle)⟩
      · exact ⟨z, x :: inPlane, inSame, .same z (x :: inPlane) inSame (by simpa using hle)⟩

theorem dimsOf_eq_cons (h : r.first ≤ r.last) :
    dimsOf r = r.first :: List.range' (r.first + 1) (r.last - r.first) := by
  rw [dimsOf, show r.last + 1 - r.first = r.last - r.first + 1 by omega, List.range'_succ]

theorem getMinimumIndex_cons (h : r.first ≤ r.last) (rest : MergeMap) (minIndex : ℕ) :
    getMinimumIndex (dimsOf r :: rest) minIndex =
      if r.first < minIndex then some r.first else none := by
  rw [dimsOf_eq_cons h, getMinimumIndex]

theorem dropWhile_dimsOf (h : r.first ≤ i) :
    (dimsOf r).dropWhile (· < i) = List.range' i (r.last + 1 - i) := by
  have hsplit : dimsOf r = List.range' r.first (min (i - r.first) (r.last + 1 - r.first)) ++
      List.range' i (r.last + 1 - i) := by
    obtain hle | hlt := Nat.le_total i (r.last + 1)
    · obtain ⟨k, rfl⟩ := Nat.exists_eq_add_of_le h
      rw [min_eq_left (by omega), Nat.add_sub_cancel_left, List.range'_append_1, dimsOf]
      congr 1
      omega
    · rw [min_eq_right (by omega), Nat.sub_eq_zero_of_le hlt, List.range'_zero, List.append_nil,
        dimsOf]
  rw [hsplit, List.dropWhile_append_of_pos]
  · obtain hzero | hpos := Nat.eq_zero_or_pos (r.last + 1 - i)
    · rw [hzero]
      rfl
    · obtain ⟨k, hk⟩ := Nat.exists_eq_succ_of_ne_zero hpos.ne'
      rw [hk, List.range'_succ, List.dropWhile_cons_of_neg (by simp)]
  · intro d hd
    have := List.mem_range'_1.mp hd
    exact decide_eq_true (by omega)

theorem take_dimsOf (h : r.first ≤ i) (inPlane inSame : MergeMap) :
    (if ((dimsOf r).dropWhile (· < i)).isEmpty then mergeFrom n passes (i + 1) inPlane inSame
      else (dimsOf r).dropWhile (· < i) ::
        mergeFrom n passes (((dimsOf r).dropWhile (· < i)).getLastD i + 1) inPlane inSame) =
      if r.last < i then mergeFrom n passes (i + 1) inPlane inSame
      else List.range' i (r.last + 1 - i) :: mergeFrom n passes (r.last + 1) inPlane inSame := by
  rw [dropWhile_dimsOf h]
  by_cases hover : r.last < i
  · rw [if_pos hover, Nat.sub_eq_zero_of_le hover]
    rfl
  · obtain ⟨k, hk⟩ : ∃ k, r.last + 1 - i = k + 1 := ⟨r.last - i, by omega⟩
    have hlast : (List.range' i (k + 1)).getLastD i = r.last := by
      rw [List.range'_1_concat, List.getLastD_concat]
      omega
    rw [if_neg hover, hk, hlast, if_neg (by simp [List.range'_succ])]

theorem mergeFrom_succ (h : Next inPlane inSame r inPlane' inSame') (hi : i < n)
    (hruns : ∀ x ∈ inPlane ++ inSame, x.first ≤ x.last ∧ x.last < n) :
    mergeFrom n (passes + 1) i (inPlane.map dimsOf) (inSame.map dimsOf) =
      if i < r.first then [i] :: mergeFrom n passes (i + 1) (inPlane.map dimsOf) (inSame.map dimsOf)
      else if r.last < i then mergeFrom n passes (i + 1) (inPlane'.map dimsOf) (inSame'.map dimsOf)
      else List.range' i (r.last + 1 - i) ::
        mergeFrom n passes (r.last + 1) (inPlane'.map dimsOf) (inSame'.map dimsOf) := by
  rw [mergeFrom, if_neg (by omega)]
  cases h with
  | plane _ _ _ hle =>
    have hr := hruns r (by simp)
    have hsame : getMinimumIndex (inSame.map dimsOf) r.first = none := by
      cases inSame with
      | nil => rfl
      | cons z inSame =>
        have hz := hle z rfl
        rw [List.map_cons, getMinimumIndex_cons (hruns z (by simp)).1, if_neg (by omega)]
    simp only [getMinimumIndex_cons hr.1, if_pos (show r.first < n by omega), Option.getD_some,
      hsame,
      Option.getD_none, Option.isSome_none, Bool.false_eq_true, if_false, List.map_cons,
      List.headD_cons, List.tail_cons]
    by_cases hbefore : i < r.first
    · rw [if_pos hbefore, if_pos hbefore]
    · rw [if_neg hbefore, if_neg hbefore]
      exact take_dimsOf (by omega) _ _
  | same _ _ _ hlt =>
    have hr := hruns r (by simp)
    have hmin : r.first < (getMinimumIndex (inPlane.map dimsOf) n).getD n := by
      cases inPlane with
      | nil => exact lt_of_le_of_lt hr.1 hr.2
      | cons x inPlane =>
        have hx := hruns x (by simp)
        rw [List.map_cons, getMinimumIndex_cons hx.1, if_pos (by omega)]
        exact hlt x rfl
    simp only [getMinimumIndex_cons hr.1, if_pos hmin, Option.getD_some, Option.isSome_some,
      if_true, List.map_cons, List.headD_cons, List.tail_cons]
    by_cases hbefore : i < r.first
    · rw [if_pos hbefore, if_pos hbefore]
    · rw [if_neg hbefore, if_neg hbefore]
      exact take_dimsOf (by omega) _ _

theorem Next.subset (h : Next inPlane inSame r inPlane' inSame') :
    inPlane' ++ inSame' ⊆ inPlane ++ inSame := by
  intro x hx
  cases h with
  | plane => exact List.mem_cons_of_mem r hx
  | same =>
    rw [List.mem_append] at hx ⊢
    exact hx.imp_right (List.mem_cons_of_mem r)

theorem mergeFrom_eq (hpasses : n - i ≤ passes)
    (hruns : ∀ x ∈ inPlane ++ inSame, x.first ≤ x.last ∧ x.last < n) :
    mergeFrom n passes i (inPlane.map dimsOf) (inSame.map dimsOf) =
      groupsFrom n i (List.merge inPlane inSame fun x z => x.first ≤ z.first) := by
  induction passes generalizing i inPlane inSame with
  | zero => rw [groupsFrom_of_le (by omega), mergeFrom]
  | succ passes ih =>
    by_cases hi : i < n
    · by_cases hempty : inPlane = [] ∧ inSame = []
      · obtain ⟨rfl, rfl⟩ := hempty
        rw [List.nil_merge, groupsFrom.eq_def, if_pos hi, mergeFrom, if_neg (by omega)]
        have hrest := @ih [] [] (i + 1) (by omega) hruns
        rw [List.nil_merge, List.map_nil] at hrest
        simp only [List.map_nil, getMinimumIndex, Option.getD_none, if_pos hi, hrest]
      · obtain ⟨r, inPlane', inSame', hnext⟩ := exists_next (not_and_or.mp hempty)
        have hrest : ∀ x ∈ inPlane' ++ inSame', x.first ≤ x.last ∧ x.last < n :=
          fun x hx => hruns x (hnext.subset hx)
        rw [mergeFrom_succ hnext hi hruns, ih (by omega) hruns, ih (by omega) hrest, hnext.merge_eq,
          groupsFrom.eq_def n i, if_pos hi]
        by_cases hover : r.last < i
        · simp only [if_pos hover]
        · simp only [if_neg hover, ih (show n - (r.last + 1) ≤ passes by omega) hrest]
    · rw [groupsFrom_of_le (by omega), mergeFrom, if_pos (by omega)]

end Merge

theorem calculateMergeMap_eq {full plane : List ℕ} :
    calculateMergeMap full plane =
      groupsFrom full.length 0 (mergedRuns (Merges full plane) full.length) := by
  rw [calculateMergeMap, getMergeMap_eq full plane true planeDimCondition fun i => by
    rw [planeDimCondition, eq_comm]
    rfl, getMergeMap_eq full plane false sameDimCondition fun i => Iff.rfl, mergeFrom_eq (by omega)]
  · rfl
  · intro r hr
    obtain hr | hr := List.mem_append.mp hr
    · have hrun := (mem_runsOf.mp hr).2
      exact ⟨hrun.1.le, hrun.2.1⟩
    · have hrun := (mem_runsOf.mp hr).2
      exact ⟨hrun.1.le, hrun.2.1⟩

end MergeRuns

end Vpux.IE.ShapeTo4D
