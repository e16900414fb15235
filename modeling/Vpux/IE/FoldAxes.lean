import Vpux.Data.Fibres
import Vpux.Data.Folds
import Vpux.IE.FoldTo4D

/-! Operations along axes, and transpositions, made on shapes of rank four. -/
namespace Vpux.IE.ShapeTo4D
open Vpux.Const Data

section Model

def normalizedAxis (axis : ℤ) (rank : ℕ) : ℕ := (if axis < 0 then axis + rank else axis).toNat

/-- The operations that work along axes. The axes of `MVN6` have been made positive when they
became an attribute. -/
inductive AxisOp where
  | TopK (axis : ℤ) (k : ℕ)
  | MVN6 (axes : List ℕ)
  | SoftMax (axisInd : ℤ)
  deriving DecidableEq, Repr

/-- All dimensions before the axis become one, and all behind it. -/
def TopKOpConverter (inShape : List ℕ) (axis : ℤ) (k : ℕ) : Except Fault (List ℕ × AxisOp) := do
  let origInRank := inShape.length
  let axis := normalizedAxis axis origInRank
  let mergeMap : MergeMap := (if 0 < axis then [irange 0 axis] else []) ++ [[axis]] ++
    (if axis + 1 < origInRank then [irange (axis + 1) origInRank] else [])
  let newAxis := if 0 < axis then 1 else 0
  let delta4D := 4 - mergeMap.length
  let newInShape ← alignShapeTo4D inShape (List.replicate delta4D [] ++ mergeMap)
  pure (newInShape, .TopK (newAxis + delta4D : ℕ) k)

/-- Leading dimensions of one element are added, or two neighbouring dimensions of one type become
one. -/
def Mvn6Converter (inShape inAxes : List ℕ) : Except Fault (List ℕ × AxisOp) :=
  if inShape.length < TARGET_TENSOR_DIM then
    let newDims := TARGET_TENSOR_DIM - inShape.length
    pure (List.replicate newDims 1 ++ inShape, .MVN6 (inAxes.map (· + newDims)))
  else if inShape.length = 5 then do
    let isNormAxis (dim : ℕ) : Bool := dim ∈ inAxes
    match (List.range 4).find? fun dim => isNormAxis dim = isNormAxis (dim + 1) with
    | none => .error (.exception "MVN6 5D->4D failed : cannot find 2 adjacent dims of same type")
    | some mergeDim =>
      let newShape := (inShape.set mergeDim
        (inShape.getD mergeDim 0 * inShape.getD (mergeDim + 1) 0)).eraseIdx (mergeDim + 1)
      let newAxes := (inAxes.filter (· ≠ mergeDim + 1)).map fun axis =>
        if mergeDim < axis then axis - 1 else axis
      throwUnless (newShape.length = TARGET_TENSOR_DIM) "MVN6 5D->4D conversion failed"
      pure (newShape, .MVN6 newAxes)
  else .error (.exception s!"Unimplemented {inShape.length}D->4D convert")

/-- Nothing is done for a rank of four or more. -/
def SoftmaxConverter (inputShape : List ℕ) (axisInd : ℤ) : Option (List ℕ × AxisOp) :=
  let rank := inputShape.length
  if TARGET_TENSOR_DIM ≤ rank then none
  else
    let axis := normalizedAxis axisInd rank
    let isSingleDimSoftMax := (List.range rank).all fun ind =>
      ¬(inputShape.getD ind 0 ≠ 1 ∧ ind ≠ axis)
    let isTwoDimAxisLastSoftMax := rank = 2 ∧ axis = rank - 1
    let addDims := TARGET_TENSOR_DIM - rank
    if isSingleDimSoftMax ∨ isTwoDimAxisLastSoftMax then
      some (List.replicate addDims 1 ++ inputShape, .SoftMax (axis + addDims : ℕ))
    else if inputShape.getD 0 0 ≠ 1 then
      some (1 :: inputShape ++ List.replicate (addDims - 1) 1, .SoftMax (axis + 1 : ℕ))
    else some (inputShape ++ List.replicate addDims 1, .SoftMax axis)

namespace AxisOp

def convert : AxisOp → List ℕ → Except Fault (Option (List ℕ × AxisOp))
  | TopK axis k, inShape => do pure (some (← TopKOpConverter inShape axis k))
  | MVN6 axes, inShape => do pure (some (← Mvn6Converter inShape axes))
  | SoftMax axisInd, inShape => pure (SoftmaxConverter inShape axisInd)

def axes (op : AxisOp) (rank : ℕ) : List ℕ :=
  match op with
  | TopK axis _ => [normalizedAxis axis rank]
  | MVN6 axes => axes
  | SoftMax axisInd => [normalizedAxis axisInd rank]

def outShape (op : AxisOp) (shape : List ℕ) : List ℕ :=
  match op with
  | TopK axis k => shape.set (normalizedAxis axis shape.length) k
  | _ => shape

/-- The axes are dimensions of the shape. -/
def Valid (op : AxisOp) (shape : List ℕ) : Prop :=
  match op with
  | TopK axis _ => -(shape.length : ℤ) ≤ axis ∧ axis < shape.length
  | MVN6 axes => ∀ axis ∈ axes, axis < shape.length
  | SoftMax axisInd => -(shape.length : ℤ) ≤ axisInd ∧ axisInd < shape.length

instance (op : AxisOp) (shape : List ℕ) : Decidable (op.Valid shape) :=
  match op with
  | TopK _ _ => inferInstanceAs (Decidable (_ ∧ _))
  | MVN6 _ => inferInstanceAs (Decidable (∀ _ ∈ _, _))
  | SoftMax _ => inferInstanceAs (Decidable (_ ∧ _))

end AxisOp

def axisDims (shape axes : List ℕ) : AxisDims := .of (fun d => decide (d ∈ axes)) shape

/-- The values of the result in row-major order, when the operation makes of a fibre what the
function does. -/
def AxisOp.eval {α β : Type} (op : AxisOp) (f : List α → ℕ → β) (shape : List ℕ) (x : ℕ → α) :
    List β :=
  alongAxes f (axisDims shape (op.axes shape.length))
    (axisDims (op.outShape shape) (op.axes shape.length)) x

/-- Leading dimensions of one element are added; for a rank above four, their number is negative,
which no vector has. -/
def TransposeConverter (inputShape : List ℕ) (origOrder : DimsOrder) :
    Except Fault (List ℕ × DimsOrder) :=
  if TARGET_TENSOR_DIM < inputShape.length then .error .overwrite
  else do
    let addDims := TARGET_TENSOR_DIM - inputShape.length
    let permVec := List.range addDims ++ origOrder.toPermutation.map (· + addDims)
    let newOrder ← DimsOrder.fromPermutation permVec
    pure (List.replicate addDims 1 ++ inputShape, newOrder)

def transposeEval {α : Type} (shape : List ℕ) (order : DimsOrder) (x : ℕ → α) : List α :=
  (grid ((order.memoryOrder shape).map List.range)).map fun point =>
    x (rowMajor shape (order.logicalOrder point))

end Model

variable {shape newShape : List ℕ} {newOp : AxisOp}

open AxisDims List

section OneAxis

variable {front back front' back' : List ℕ}

theorem axisDims_single (front : List ℕ) (n : ℕ) (back : List ℕ) :
    axisDims (front ++ n :: back) [front.length] =
      front.map (false, ·) ++ (true, n) :: back.map (false, ·) := by
  rw [axisDims, of_append, of_cons, of_const (b := false),
    of_const (b := false)]
  · simp
  · simp
  · intro d hd
    simp [Nat.ne_of_lt hd]

theorem shape_map_false (s : List ℕ) : AxisDims.shape (s.map (false, ·)) = s := by
  simp [AxisDims.shape]

theorem sameLayout_single (hfront : front.prod = front'.prod) (hback : back.prod = back'.prod)
    (n : ℕ) :
    SameLayout (front.map (false, ·) ++ (true, n) :: back.map (false, ·))
      (front'.map (false, ·) ++ (true, n) :: back'.map (false, ·)) := by
  have hgroup : ∀ s : List ℕ, ∀ dims,
      SameLayout (s.map (false, ·) ++ dims) ((false, s.prod) :: dims) := by
    intro s dims
    have hall := SameLayout.group (b := false) (g := s.map (false, ·)) (by simp) dims
    rwa [shape_map_false] at hall
  have hall : ∀ s t : List ℕ, SameLayout (s.map (false, ·) ++ (true, n) :: t.map (false, ·))
      [(false, s.prod), (true, n), (false, t.prod)] := by
    intro s t
    have hlast := hgroup t []
    rw [append_nil] at hlast
    exact (hgroup s _).trans ((hlast.cons _).cons _)
  have hend := hall front' back'
  rw [← hfront, ← hback] at hend
  exact (hall front back).trans hend.symm

theorem alongAxes_single {α β : Type} (f : List α → ℕ → β) (x : ℕ → α)
    (hfront : front.prod = front'.prod) (hback : back.prod = back'.prod) (n k : ℕ) :
    alongAxes f (axisDims (front' ++ n :: back') [front'.length])
        (axisDims (front' ++ k :: back') [front'.length]) x =
      alongAxes f (axisDims (front ++ n :: back) [front.length])
        (axisDims (front ++ k :: back) [front.length]) x := by
  simp only [axisDims_single]
  apply alongAxes_congr
  · simp [sizesOf]
  · simp [sizesOf]
  · exact sameLayout_single hfront.symm hback.symm n
  · exact sameLayout_single hfront.symm hback.symm k

variable {axis : ℤ}

theorem exists_axis {shape : List ℕ} (h : -(shape.length : ℤ) ≤ axis ∧ axis < shape.length) :
    ∃ front n back, shape = front ++ n :: back ∧ normalizedAxis axis shape.length =
      front.length := by
  have hlt : normalizedAxis axis shape.length < shape.length := by
    rw [normalizedAxis]
    split_ifs <;> omega
  refine ⟨shape.take (normalizedAxis axis shape.length), shape[normalizedAxis axis shape.length],
    shape.drop (normalizedAxis axis shape.length + 1), ?_, ?_⟩
  · rw [cons_getElem_drop_succ, take_append_drop]
  · rw [length_take, Nat.min_eq_left hlt.le]

theorem normalizedAxis_natCast (axis rank : ℕ) : normalizedAxis (axis : ℤ) rank = axis := by
  rw [normalizedAxis, if_neg (by omega), Int.toNat_natCast]

/-- The result for a new operation along one axis. -/
structure Refolded (op newOp : AxisOp) (shape newShape : List ℕ) : Prop where
  rank : newShape.length = TARGET_TENSOR_DIM
  prod : newShape.prod = shape.prod
  eval : ∀ (α β : Type) (f : List α → ℕ → β) (x : ℕ → α),
    newOp.eval f newShape x = op.eval f shape x

theorem refolded_single {op newOp : AxisOp} {n k : ℕ} (hshape : shape = front ++ n :: back)
    (haxes : op.axes shape.length = [front.length]) (hout : op.outShape shape = front ++ k :: back)
    (hnew : newShape = front' ++ n :: back') (haxes' : newOp.axes newShape.length = [front'.length])
    (hout' : newOp.outShape newShape = front' ++ k :: back') (hfront : front.prod = front'.prod)
    (hback : back.prod = back'.prod) (hrank : front'.length + back'.length = 3) :
    Refolded op newOp shape newShape := by
  constructor
  · rw [hnew, length_append, length_cons, TARGET_TENSOR_DIM]
    omega
  · rw [hshape, hnew, prod_append, prod_append, prod_cons, prod_cons, hfront, hback]
  · intro α β f x
    rw [AxisOp.eval, AxisOp.eval, haxes, haxes', hout, hout', hshape, hnew]
    exact alongAxes_single f x hfront hback n k

theorem refolded_topK {newAxis n : ℕ} (k : ℕ) (front' back' : List ℕ)
    (hshape : shape = front ++ n :: back) (haxis : normalizedAxis axis shape.length = front.length)
    (hnew : newShape = front' ++ n :: back') (hnewAxis : newAxis = front'.length)
    (hfront : front.prod = front'.prod) (hback : back.prod = back'.prod)
    (hrank : front'.length + back'.length = 3) :
    Refolded (.TopK axis k) (.TopK newAxis k) shape newShape := by
  have hset : ∀ s t : List ℕ, (s ++ n :: t).set s.length k = s ++ k :: t := by simp
  refine refolded_single hshape (congrArg (fun a => [a]) haxis) (k := k) ?_ hnew ?_ ?_ hfront hback
    hrank
  · rw [AxisOp.outShape, haxis, hshape, hset]
  · rw [AxisOp.axes, normalizedAxis_natCast, hnewAxis]
  · rw [AxisOp.outShape, normalizedAxis_natCast, hnewAxis, hnew, hset]

theorem refolded_softMax {newAxis n : ℕ} (front' back' : List ℕ)
    (hshape : shape = front ++ n :: back) (haxis : normalizedAxis axis shape.length = front.length)
    (hnew : newShape = front' ++ n :: back') (hnewAxis : newAxis = front'.length)
    (hfront : front.prod = front'.prod) (hback : back.prod = back'.prod)
    (hrank : front'.length + back'.length = 3) :
    Refolded (.SoftMax axis) (.SoftMax newAxis) shape newShape := by
  refine refolded_single hshape (congrArg (fun a => [a]) haxis) hshape hnew ?_ hnew hfront hback
    hrank
  rw [AxisOp.axes, normalizedAxis_natCast, hnewAxis]

theorem select_irange (front middle back : List ℕ) :
    select (front ++ (middle ++ back)) (irange front.length (front.length + middle.length)) =
      middle := by
  apply ext_getElem
  · simp [select, irange]
  · intro d hd hd'
    simp [select, irange, hd', getElem?_append]

theorem refolded_TopKOpConverter {k : ℕ} (hvalid : (AxisOp.TopK axis k).Valid shape)
    (h : TopKOpConverter shape axis k = .ok (newShape, newOp)) :
    Refolded (.TopK axis k) newOp shape newShape := by
  obtain ⟨front, n, back, hshape, haxis⟩ := exists_axis hvalid
  have hlength : shape.length = front.length + 1 + back.length := by
    rw [hshape, length_append, length_cons]
    omega
  rw [TopKOpConverter] at h
  simp only [haxis] at h
  -- the groups before the axis and behind it
  obtain ⟨pre, hpre⟩ : ∃ pre, pre = if 0 < front.length then [irange 0 front.length] else [] :=
    ⟨_, rfl⟩
  obtain ⟨post, hpost⟩ : ∃ post, post = if front.length + 1 < shape.length then
      [irange (front.length + 1) shape.length] else [] := ⟨_, rfl⟩
  have hfront : (groupShape shape pre).prod = front.prod := by
    rw [hpre]
    split_ifs with hpos
    · have hselect := select_irange [] front (n :: back)
      rw [length_nil, Nat.zero_add, nil_append, ← hshape] at hselect
      rw [groupShape, map_singleton, hselect, prod_singleton]
    · rw [length_eq_zero_iff.mp (by omega : front.length = 0)]
      rfl
  have hback : (groupShape shape post).prod = back.prod := by
    rw [hpost]
    split_ifs with hpos
    · have hselect := select_irange (front ++ [n]) back []
      rw [append_nil, append_assoc, singleton_append, ← hshape, length_append,
        length_singleton, ← hlength] at hselect
      rw [groupShape, map_singleton, hselect, prod_singleton]
    · rw [length_eq_zero_iff.mp (by omega : back.length = 0)]
      rfl
  have hmiddle : shape[front.length]?.getD 0 = n := by simp [hshape]
  have hpreLength : pre.length = if 0 < front.length then 1 else 0 := by
    rw [hpre]
    split_ifs <;> rfl
  have hpostLength : post.length ≤ 1 := by
    rw [hpost]
    split_ifs <;> simp
  rw [← hpre, ← hpost, ← hpreLength] at h
  obtain ⟨newInShape, hnew, h⟩ := bind_eq_ok.mp h
  obtain ⟨rfl, rfl⟩ := Prod.mk.inj (Except.ok.inj h)
  obtain ⟨delta4D, hdelta⟩ : ∃ delta4D, delta4D = 4 - (pre ++ [[front.length]] ++ post).length :=
    ⟨_, rfl⟩
  have hsum : delta4D + pre.length + post.length = 3 := by
    simp only [length_append, length_singleton] at hdelta
    split_ifs at hpreLength <;> omega
  rw [← hdelta] at hnew ⊢
  have hlen : (List.replicate delta4D [] ++ (pre ++ [[front.length]] ++ post)).length = 4 := by
    simp only [length_append, length_replicate, length_singleton]
    omega
  rw [alignShapeTo4D_eq shape hlen.le, aligned, hlen] at hnew
  refine refolded_topK k (List.replicate delta4D 1 ++ groupShape shape pre) (groupShape shape post)
    hshape haxis ?_ ?_ ?_ hback.symm ?_
  · rw [← Except.ok.inj hnew]
    simp [groupShape, select, hmiddle]
  · simp [groupShape, Nat.add_comm]
  · simp [hfront]
  · simp only [groupShape, length_append, length_replicate, length_map]
    exact hsum

theorem refolded_SoftmaxConverter (hvalid : (AxisOp.SoftMax axis).Valid shape)
    (h : SoftmaxConverter shape axis = some (newShape, newOp)) :
    Refolded (.SoftMax axis) newOp shape newShape := by
  obtain ⟨front, n, back, hshape, haxis⟩ := exists_axis hvalid
  have hlength : shape.length = front.length + back.length + 1 := by
    rw [hshape, length_append, length_cons, Nat.add_assoc]
  rw [SoftmaxConverter] at h
  simp only [haxis] at h
  split_ifs at h with hrank hleading hbatch
  · obtain ⟨rfl, rfl⟩ := Prod.mk.inj (Option.some.inj h)
    refine refolded_softMax (List.replicate (TARGET_TENSOR_DIM - shape.length) 1 ++ front) back
      hshape
      haxis ?_ ?_ ?_ rfl ?_
    · rw [hshape, append_assoc]
    · simp [Nat.add_comm]
    · simp
    · simp only [length_append, length_replicate, TARGET_TENSOR_DIM] at hrank ⊢
      omega
  · obtain ⟨rfl, rfl⟩ := Prod.mk.inj (Option.some.inj h)
    refine refolded_softMax (1 :: front)
      (back ++ List.replicate (TARGET_TENSOR_DIM - shape.length - 1) 1) hshape haxis ?_ rfl ?_ ?_ ?_
    · rw [hshape, cons_append, cons_append, append_assoc, cons_append]
    · simp
    · simp
    · simp only [length_append, length_cons, length_replicate, TARGET_TENSOR_DIM] at hrank ⊢
      omega
  · obtain ⟨rfl, rfl⟩ := Prod.mk.inj (Option.some.inj h)
    refine refolded_softMax front (back ++ List.replicate (TARGET_TENSOR_DIM - shape.length) 1)
      hshape haxis
      ?_ rfl rfl ?_ ?_
    · rw [hshape, append_assoc, cons_append]
    · simp
    · simp only [length_append, length_replicate, TARGET_TENSOR_DIM] at hrank ⊢
      omega

end OneAxis

section Axes

theorem mem_map_filter_axes {axes : List ℕ} {m e : ℕ} :
    e ∈ (axes.filter (· ≠ m + 1)).map (fun axis => if m < axis then axis - 1 else axis) ↔
      (if e ≤ m then e else e + 1) ∈ axes := by
  simp only [mem_map, mem_filter, decide_eq_true_eq]
  constructor
  · rintro ⟨axis, ⟨hmem, hne⟩, rfl⟩
    have haxis : (if (if m < axis then axis - 1 else axis) ≤ m then if m <
        axis then axis - 1 else axis
        else (if m < axis then axis - 1 else axis) + 1) = axis := by
      split_ifs <;> omega
    rwa [haxis]
  · intro hmem
    refine ⟨_, ⟨hmem, ?_⟩, ?_⟩ <;> split_ifs <;> omega

theorem refolded_merge {front back axes newAxes : List ℕ} {a b : ℕ}
    (hsame : front.length ∈ axes ↔ front.length + 1 ∈ axes)
    (hnew : ∀ e, e ∈ newAxes ↔ (if e ≤ front.length then e else e + 1) ∈ axes)
    (hrank : (front ++ a * b :: back).length = TARGET_TENSOR_DIM) :
    Refolded (.MVN6 axes) (.MVN6 newAxes) (front ++ a :: b :: back) (front ++ a * b :: back) := by
  let before : AxisDims := .of (fun d => decide (d ∈ axes)) front
  let behind : AxisDims := .of (fun d => decide (front.length + (d + 1 + 1) ∈ axes)) back
  have hdims : axisDims (front ++ a :: b :: back) axes = before ++
      (decide (front.length ∈ axes), a) :: (decide (front.length ∈ axes), b) :: behind := by
    rw [axisDims, of_append, of_cons, of_cons]
    simp only [Nat.zero_add, Nat.add_zero, hsame]
    rfl
  have hdims' : axisDims (front ++ a * b :: back) newAxes =
      before ++ (decide (front.length ∈ axes), a * b) :: behind := by
    rw [axisDims, of_append, of_cons]
    congr 1
    · apply of_congr
      intro d hd
      rw [decide_eq_decide, hnew, if_pos hd.le]
    · congr 1
      · rw [Nat.add_zero, Prod.mk.injEq, decide_eq_decide, hnew, if_pos le_rfl]
        exact ⟨Iff.rfl, rfl⟩
      · apply of_congr
        intro d _
        rw [decide_eq_decide, hnew, if_neg (by omega)]
        rfl
  refine ⟨hrank, by simp [Nat.mul_assoc], fun α β f x => ?_⟩
  simp only [AxisOp.eval, AxisOp.axes, AxisOp.outShape, hdims, hdims']
  have hlayout := (SameLayout.merge (decide (front.length ∈ axes)) a b behind).append before
  exact (alongAxes_congr f rfl rfl hlayout hlayout x).symm

theorem refolded_Mvn6Converter {shape newShape axes : List ℕ}
    (h : Mvn6Converter shape axes = .ok (newShape, newOp)) :
    Refolded (.MVN6 axes) newOp shape newShape := by
  rw [Mvn6Converter] at h
  split_ifs at h with hrank hfive
  · obtain ⟨rfl, rfl⟩ := Prod.mk.inj (Except.ok.inj h)
    obtain ⟨k, hk⟩ : ∃ k, k = TARGET_TENSOR_DIM - shape.length := ⟨_, rfl⟩
    rw [← hk]
    have hdims : axisDims (List.replicate k 1 ++ shape) (axes.map (· + k)) =
        List.replicate k (false, 1) ++ axisDims shape axes := by
      rw [axisDims, of_append, of_const (b := false), map_replicate, axisDims]
      · congr 1
        apply of_congr
        intro d _
        simp [Nat.add_comm k]
      · intro d hd
        simp at hd ⊢
        omega
    constructor
    · simp
      omega
    · simp
    · intro α β f x
      simp only [AxisOp.eval, AxisOp.axes, AxisOp.outShape, hdims]
      exact alongAxes_congr f rfl rfl (.ones k false _) (.ones k false _) x
  · simp only at h
    split at h
    next => cases h
    next mergeDim hfind =>
      obtain ⟨u, hlength, h⟩ := bind_eq_ok.mp h
      obtain ⟨rfl, rfl⟩ := Prod.mk.inj (Except.ok.inj h)
      have hlt := mem_range.mp (mem_of_find?_eq_some hfind)
      have hsame := find?_some hfind
      obtain ⟨front, a, b, back, rfl, rfl⟩ :
          ∃ front a b back, shape = front ++ a :: b :: back ∧ front.length = mergeDim := by
        refine ⟨shape.take mergeDim, shape[mergeDim], shape[mergeDim + 1],
          shape.drop (mergeDim + 2), ?_, ?_⟩
        · rw [cons_getElem_drop_succ, cons_getElem_drop_succ, take_append_drop]
        · rw [length_take]
          omega
      have hnewShape : ((front ++ a :: b :: back).set front.length
          ((front ++ a :: b :: back).getD front.length 0 *
            (front ++ a :: b :: back).getD (front.length + 1) 0)).eraseIdx (front.length + 1) =
          front ++ a * b :: back := by
        simp [eraseIdx_append]
      rw [hnewShape] at hlength ⊢
      apply refolded_merge
      · simpa using hsame
      · exact fun e => mem_map_filter_axes
      · exact throwUnless_eq_ok.mp hlength

end Axes

section Leading

variable {order newOrder : DimsOrder} {k : ℕ}

theorem idxOf_map_add (perm : List ℕ) (k d : ℕ) :
    (perm.map (· + k)).idxOf (k + d) = perm.idxOf d := by
  induction perm with
  | nil => rfl
  | cons p perm ih =>
    have hbeq : (p + k == k + d) = (p == d) := by
      rw [Nat.add_comm k d, Bool.eq_iff_iff, beq_iff_eq, beq_iff_eq, Nat.add_right_cancel_iff]
    rw [map_cons, idxOf_cons, idxOf_cons, ih, hbeq]

theorem leading_perm (order : DimsOrder) (k : ℕ) :
    (List.range k ++ order.toPermutation.map (· + k)).Perm
      (List.range (List.range k ++ order.toPermutation.map (· + k)).length) := by
  have hmap := order.isPermutation.map (· + k)
  rw [length_append, length_range, length_map, range_add]
  simp only [Nat.add_comm k]
  exact hmap.append_left _

open DimsOrder

section

variable (h : newOrder.toPermutation = List.range k ++ order.toPermutation.map (· + k))
include h

theorem memoryOrder_leading (a : ℕ) (values : List ℕ) :
    newOrder.memoryOrder (List.replicate k a ++ values) =
      List.replicate k a ++ order.memoryOrder values := by
  rw [memoryOrder, h, map_append]
  congr 1
  · apply ext_getElem (by simp)
    intro d hd hd'
    have hlt : d < k := by simpa using hd
    simp [getElem?_append_left, hlt]
  · rw [map_map, memoryOrder]
    apply map_congr_left
    intro d _
    simp [getElem?_append_right]

theorem logicalOrder_leading (values : List ℕ) :
    newOrder.logicalOrder (List.replicate k 0 ++ values) =
      List.replicate k 0 ++ order.logicalOrder values := by
  have hnum : newOrder.numDims = k + order.numDims := by simp [numDims, h]
  rw [logicalOrder, hnum, range_add, map_append]
  congr 1
  · apply ext_getElem (by simp)
    intro d hd hd'
    have hmem : d ∈ List.range k := by simpa using hd
    have hpos := idxOf_lt_length_of_mem hmem
    rw [length_range] at hpos
    simp [dimPos, h, idxOf_append_of_mem hmem, getElem?_append_left, hpos]
  · rw [map_map, logicalOrder]
    apply map_congr_left
    intro d _
    have hmem : k + d ∉ List.range k := by simp
    simp [dimPos, h, idxOf_append_of_notMem hmem, idxOf_map_add, getElem?_append_right]

end

theorem grid_leading (k : ℕ) (axes : List (List ℕ)) :
    grid (List.replicate k [0] ++ axes) = (grid axes).map (List.replicate k 0 ++ ·) := by
  induction k with
  | zero => simp
  | succ k ih =>
    rw [replicate_succ, cons_append, grid, ih, flatMap_singleton, map_map]
    rfl

theorem transposeEval_leading {α : Type}
    (h : newOrder.toPermutation = List.range k ++ order.toPermutation.map (· + k)) (shape : List ℕ)
    (x : ℕ → α) : transposeEval (List.replicate k 1 ++ shape) newOrder x =
      transposeEval shape order x := by
  rw [transposeEval, memoryOrder_leading h, map_append, map_replicate, range_one,
    grid_leading, map_map, transposeEval]
  apply map_congr_left
  intro point _
  rw [Function.comp_apply, logicalOrder_leading h, rowMajor_append (by simp), rowMajor_replicate,
    Nat.zero_mul, Nat.zero_add]

theorem TransposeConverter_eq (h : TransposeConverter shape order = .ok (newShape, newOrder)) :
    shape.length ≤ TARGET_TENSOR_DIM ∧
      newShape = List.replicate (TARGET_TENSOR_DIM - shape.length) 1 ++ shape ∧
      newOrder.toPermutation = List.range (TARGET_TENSOR_DIM - shape.length) ++
        order.toPermutation.map (· + (TARGET_TENSOR_DIM - shape.length)) := by
  rw [TransposeConverter] at h
  split_ifs at h with hrank
  simp only [fromPermutation, dif_pos (leading_perm order _)] at h
  obtain ⟨rfl, rfl⟩ := Prod.mk.inj (Except.ok.inj h)
  exact ⟨not_lt.mp hrank, rfl, rfl⟩

end Leading

/-- Every operation that becomes one of rank four does there what it did before. -/
theorem convert_preserves :
    (∀ (op newOp : AxisOp) (shape newShape : List ℕ), op.Valid shape →
      op.convert shape = .ok (some (newShape, newOp)) → Refolded op newOp shape newShape) ∧
    (∀ (order newOrder : DimsOrder) (shape newShape : List ℕ), order.numDims = shape.length →
      TransposeConverter shape order = .ok (newShape, newOrder) →
      newShape.length = TARGET_TENSOR_DIM ∧ newOrder.numDims = TARGET_TENSOR_DIM ∧
        newShape.prod = shape.prod ∧
        ∀ {α : Type} (x : ℕ → α), transposeEval newShape newOrder x =
          transposeEval shape order x) := by
  constructor
  · intro op newOp shape newShape hvalid h
    cases op with
    | TopK axis k =>
      obtain ⟨_, hconvert, h⟩ := bind_eq_ok.mp h
      obtain rfl := Option.some.inj (Except.ok.inj h)
      exact refolded_TopKOpConverter hvalid hconvert
    | MVN6 axes =>
      obtain ⟨_, hconvert, h⟩ := bind_eq_ok.mp h
      obtain rfl := Option.some.inj (Except.ok.inj h)
      exact refolded_Mvn6Converter hconvert
    | SoftMax axisInd => exact refolded_SoftmaxConverter hvalid (Except.ok.inj h)
  · intro order newOrder shape newShape hnum h
    obtain ⟨hrank, rfl, hperm⟩ := TransposeConverter_eq h
    refine ⟨?_, ?_, by simp, fun x => transposeEval_leading hperm shape x⟩
    · rw [List.length_append, List.length_replicate, Nat.sub_add_cancel hrank]
    · rw [DimsOrder.numDims, hperm, List.length_append, List.length_range, List.length_map,
        ← DimsOrder.numDims, hnum, Nat.sub_add_cancel hrank]

theorem convert_preserves_examples :
    (Refolded (.TopK (-2) 3) (.TopK 2 3) [2, 1, 4, 5, 6] [1, 8, 5, 6] ∧
      Refolded (.MVN6 [1, 3, 4]) (.MVN6 [1, 3]) [2, 3, 4, 5, 6] [2, 3, 4, 30] ∧
      Refolded (.SoftMax 0) (.SoftMax 1) [32, 10] [1, 32, 10, 1]) ∧
    ∀ x : ℕ → ℕ, transposeEval [1, 2, 3, 4] ⟨[0, 3, 1, 2], by decide⟩ x =
      transposeEval [2, 3, 4] ⟨[2, 0, 1], by decide⟩ x := by
  refine ⟨⟨?_, ?_, ?_⟩, fun x => ?_⟩
  · exact convert_preserves.1 _ _ _ _ (by decide) rfl
  · exact convert_preserves.1 _ _ _ _ (by decide) rfl
  · exact convert_preserves.1 _ _ _ _ (by decide) rfl
  · exact (convert_preserves.2 ⟨[2, 0, 1], by decide⟩ ⟨[0, 3, 1, 2], by decide⟩ [2, 3, 4]
      [1, 2, 3, 4] (by decide) rfl).2.2.2 x

end Vpux.IE.ShapeTo4D
