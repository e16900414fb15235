import Mathlib.Algebra.Order.BigOperators.GroupWithZero.List
import Vpux.Const.Types
import Vpux.Data.Folds
import Vpux.Data.Grid

/-! The map from the dimensions of a shape to those of a reshaped one. -/
namespace Vpux.IE
open Data

/-- Why there is no result: the shapes or the layout are not suitable, memory is accessed
outside its bounds or a check throws, or a loop needs more rounds than it was given. -/
inductive Stop where
  | failure
  | fault (fault : Const.Fault)
  | unfinished
  deriving DecidableEq, Repr

def dimAt (shape : List ℕ) (idx : ℕ) : Except Stop ℕ :=
  match shape[idx]? with
  | some dim => .ok dim
  | none => .error (.fault .overread)

def nextDimIsOne (shape : List ℕ) (index : ℕ) : Prop := shape[index + 1]? = some 1

instance (shape : List ℕ) (index : ℕ) : Decidable (nextDimIsOne shape index) :=
  inferInstanceAs (Decidable (_ = _))

/-- `reassociationVec[inIdx].push_back(outIdx)` -/
def pushBack (reassociationVec : List (List ℕ)) (inIdx outIdx : ℕ) :
    Except Stop (List (List ℕ)) :=
  if inIdx < reassociationVec.length then
    .ok (reassociationVec.modify inIdx (· ++ [outIdx]))
  else .error (.fault .overwrite)

/-- The first index from `start` on whose dimension is not one. -/
def endOfOnes (shape : List ℕ) (start : ℕ) : ℕ :=
  start + ((shape.drop start).takeWhile (· = 1)).length

structure Cursor where
  inIdx : ℕ
  outIdx : ℕ
  reassociationVec : List (List ℕ)
  deriving DecidableEq

section

variable (inShape outShape : List ℕ)

def handleConsecutiveOnes (s : Cursor) : Except Stop Cursor := do
  let endIn := endOfOnes inShape s.inIdx
  let endOut := endOfOnes outShape s.outIdx
  let paired := min (endIn - s.inIdx) (endOut - s.outIdx)
  let vec ← (List.range paired).foldlM
    (fun vec i => pushBack vec (s.inIdx + i) (s.outIdx + i)) s.reassociationVec
  let startIn := s.inIdx + paired
  let startOut := s.outIdx + paired
  let vec ← (List.range (endIn - startIn)).foldlM
    (fun vec i => pushBack vec (startIn + i) (startOut - 1)) vec
  let vec ← (List.range (endOut - startOut)).foldlM
    (fun vec i => pushBack vec (endIn - 1) (startOut + i)) vec
  .ok ⟨endIn, endOut, vec⟩

/-- The side whose dimensions are collected: `true` for the input. -/
abbrev Smaller := Bool

def smallShape (isInputSmallerDim : Smaller) : List ℕ :=
  if isInputSmallerDim then inShape else outShape

def Cursor.shapeIdx (s : Cursor) (isInputSmallerDim : Smaller) : ℕ :=
  if isInputSmallerDim then s.inIdx else s.outIdx

def Cursor.advance (s : Cursor) (isInputSmallerDim : Smaller) : Cursor :=
  if isInputSmallerDim then { s with inIdx := s.inIdx + 1 }
  else { s with outIdx := s.outIdx + 1 }

/-- The `do` loop over the dimensions of the smaller side that make up the large one. -/
def splitLargeDim (isInputSmallerDim : Smaller) : ℕ → ℕ → Cursor → Except Stop Cursor
  | 0, _, _ => .error .unfinished
  | rounds + 1, largeDimQuotient, s => do
    let shape := smallShape inShape outShape isInputSmallerDim
    let shapeIdx := s.shapeIdx isInputSmallerDim
    let dim ← dimAt shape shapeIdx
    if largeDimQuotient % dim ≠ 0 then .error .failure
    else do
      let vec ← pushBack s.reassociationVec s.inIdx s.outIdx
      let s := { s with reassociationVec := vec }
      let largeDimQuotient := largeDimQuotient / dim
      if largeDimQuotient = 1 ∧ (¬nextDimIsOne shape shapeIdx ∨
          nextDimIsOne inShape s.inIdx ∧ nextDimIsOne outShape s.outIdx) then .ok s
      else if shapeIdx + 1 < shape.length then
        splitLargeDim isInputSmallerDim rounds largeDimQuotient (s.advance isInputSmallerDim)
      else .ok (s.advance isInputSmallerDim)

/-- The dimensions that are one in both shapes. -/
def pairOnes (s : Cursor) : Except Stop Cursor := do
  let inDim ← dimAt inShape s.inIdx
  let outDim ← dimAt outShape s.outIdx
  if inDim = 1 ∧ outDim = 1 then handleConsecutiveOnes inShape outShape s else .ok s

def matchDims (s : Cursor) : Except Stop Cursor := do
  let inDim ← dimAt inShape s.inIdx
  let outDim ← dimAt outShape s.outIdx
  let isInputSmallerDim := decide (inDim < outDim ∨ inDim = outDim ∧ nextDimIsOne inShape s.inIdx)
  splitLargeDim inShape outShape isInputSmallerDim
    (smallShape inShape outShape isInputSmallerDim).length
    (if isInputSmallerDim then outDim else inDim) s

def reassociationLoop : ℕ → Cursor → Except Stop Cursor
  | rounds, s =>
    if s.inIdx < inShape.length ∧ s.outIdx < outShape.length then
      match rounds with
      | 0 => .error .unfinished
      | rounds + 1 => do
        let s ← pairOnes inShape outShape s
        if inShape.length ≤ s.inIdx ∨ outShape.length ≤ s.outIdx then .ok s
        else do
          let s ← matchDims inShape outShape s
          reassociationLoop rounds { s with inIdx := s.inIdx + 1, outIdx := s.outIdx + 1 }
    else .ok s

def getReassociationMap : Except Stop (List (List ℕ)) := do
  let s ← reassociationLoop inShape outShape inShape.length
    ⟨0, 0, List.replicate inShape.length []⟩
  if s.inIdx < inShape.length ∨ s.outIdx < outShape.length then .error .failure
  else .ok s.reassociationVec

end

open List

section Pushes

/-- The vector after the given pairs were pushed. -/
def tabulate (n : ℕ) (pairs : List (ℕ × ℕ)) : List (List ℕ) :=
  (List.range n).map fun d => (pairs.filter (·.1 = d)).map Prod.snd

@[simp] theorem length_tabulate (n : ℕ) (pairs : List (ℕ × ℕ)) :
    (tabulate n pairs).length = n := by
  rw [tabulate, length_map, length_range]

theorem tabulate_nil (n : ℕ) : tabulate n [] = List.replicate n [] := by
  simp [tabulate]

theorem pushBack_tabulate {n d : ℕ} (hd : d < n) (pairs : List (ℕ × ℕ)) (o : ℕ) :
    pushBack (tabulate n pairs) d o = .ok (tabulate n (pairs ++ [(d, o)])) := by
  rw [pushBack, if_pos (by simpa using hd)]
  congr 1
  apply ext_getElem (by simp)
  intro i hi hi'
  by_cases hid : d = i
  · simp [tabulate, hid]
  · simp [tabulate, hid]

theorem foldlM_pushBack {n : ℕ} {l : List ℕ} {f g : ℕ → ℕ} (hf : ∀ i ∈ l, f i < n)
    (pairs : List (ℕ × ℕ)) :
    l.foldlM (fun vec i => pushBack vec (f i) (g i)) (tabulate n pairs) =
      .ok (tabulate n (pairs ++ l.map fun i => (f i, g i))) := by
  induction l generalizing pairs with
  | nil => simp; rfl
  | cons i l ih =>
    rw [foldlM_cons, pushBack_tabulate (hf i mem_cons_self)]
    change l.foldlM _ _ = _
    rw [ih (fun j hj => hf j (mem_cons_of_mem _ hj)), map_cons, append_assoc,
      singleton_append]

end Pushes

/-- One input dimension and some output dimensions, or some input dimensions and one output
dimension. -/
def IsBlock (b : List ℕ × List ℕ) : Prop :=
  (∃ d, b.1 = [d]) ∧ b.2 ≠ [] ∨ b.1 ≠ [] ∧ ∃ o, b.2 = [o]

variable {b : List ℕ × List ℕ}

theorem IsBlock.left_ne_nil (h : IsBlock b) : b.1 ≠ [] := by
  obtain ⟨⟨d, hd⟩, -⟩ | ⟨hne, -⟩ := h
  · simp [hd]
  · exact hne

theorem IsBlock.right_ne_nil (h : IsBlock b) : b.2 ≠ [] := by
  obtain ⟨-, hne⟩ | ⟨-, o, ho⟩ := h
  · exact hne
  · simp [ho]

/-- The pairs that are pushed for a block. -/
def blockPairs (b : List ℕ × List ℕ) : List (ℕ × ℕ) := b.1.product b.2

/-- What is known when the first dimensions of both shapes were matched. -/
structure Matched (inShape outShape : List ℕ) (s : Cursor) (blocks : List (List ℕ × List ℕ)) :
    Prop where
  left : blocks.flatMap Prod.fst = List.range s.inIdx
  right : blocks.flatMap Prod.snd = List.range s.outIdx
  in_le : s.inIdx ≤ inShape.length
  out_le : s.outIdx ≤ outShape.length
  prod_eq : ∀ b ∈ blocks, (select inShape b.1).prod = (select outShape b.2).prod
  isBlock : ∀ b ∈ blocks, IsBlock b
  vec : s.reassociationVec = tabulate inShape.length (blocks.flatMap blockPairs)

variable {shape : List ℕ} {idx : ℕ}

section Products

theorem select_range_take {values : List ℕ} {k : ℕ} (hk : k ≤ values.length) :
    select values (List.range k) = values.take k := by
  apply ext_getElem (by simp [hk])
  intro d hd hd'
  have hlt : d < values.length := by
    simp only [length_take] at hd'
    omega
  simp [select, hlt]

theorem prod_drop (h : idx < shape.length) :
    (shape.drop idx).prod = shape[idx] * (shape.drop (idx + 1)).prod := by
  rw [drop_eq_getElem_cons h, prod_cons]

variable {inShape outShape : List ℕ} {s : Cursor} {blocks : List (List ℕ × List ℕ)}

theorem Matched.prod_drop_eq (h : Matched inShape outShape s blocks)
    (hin : ∀ d ∈ inShape, 0 < d) (hprod : inShape.prod = outShape.prod) :
    (inShape.drop s.inIdx).prod = (outShape.drop s.outIdx).prod := by
  have hfront : (inShape.take s.inIdx).prod = (outShape.take s.outIdx).prod := by
    rw [← select_range_take h.in_le, ← select_range_take h.out_le, ← h.left, ← h.right,
      select_flatMap, select_flatMap, prod_flatMap, prod_flatMap,
      map_congr_left h.prod_eq]
  have hpos : 0 < (inShape.take s.inIdx).prod :=
    prod_pos fun d hd => hin d (mem_of_mem_take hd)
  apply Nat.eq_of_mul_eq_mul_left hpos
  rw [prod_take_mul_prod_drop, hprod, hfront, prod_take_mul_prod_drop]

end Products

variable {pairs : List (ℕ × ℕ)}

section Split

variable (inShape outShape : List ℕ)

/-- The cursor with the index of one side moved. -/
def Cursor.moved (s : Cursor) (isInputSmallerDim : Smaller) (idx : ℕ)
    (vec : List (List ℕ)) : Cursor :=
  if isInputSmallerDim then ⟨idx, s.outIdx, vec⟩ else ⟨s.inIdx, idx, vec⟩

/-- The pair that is pushed when one side has come to an index. -/
def Cursor.pairAt (s : Cursor) (isInputSmallerDim : Smaller) (idx : ℕ) : ℕ × ℕ :=
  if isInputSmallerDim then (idx, s.outIdx) else (s.inIdx, idx)

section

variable (s : Cursor) (side : Smaller)
include s side

@[simp] theorem Cursor.shapeIdx_moved (idx : ℕ) (vec : List (List ℕ)) :
    (s.moved side idx vec).shapeIdx side = idx := by
  cases side <;> rfl

@[simp] theorem Cursor.moved_moved (idx idx' : ℕ) (vec vec' : List (List ℕ)) :
    (s.moved side idx vec).moved side idx' vec' = s.moved side idx' vec' := by
  cases side <;> rfl

@[simp] theorem Cursor.pairAt_moved (idx : ℕ) (vec : List (List ℕ)) :
    (s.moved side idx vec).pairAt side = s.pairAt side := by
  cases side <;> rfl

@[simp] theorem Cursor.reassociationVec_moved (idx : ℕ) (vec : List (List ℕ)) :
    (s.moved side idx vec).reassociationVec = vec := by
  cases side <;> rfl

end

variable {s : Cursor}

section

variable (hin : s.inIdx < inShape.length) (hout : s.outIdx < outShape.length)
include hin hout

theorem Cursor.moved_lt {side : Smaller} (hidx : idx < (smallShape inShape outShape side).length)
    (vec : List (List ℕ)) :
    (s.moved side idx vec).inIdx < inShape.length ∧
      (s.moved side idx vec).outIdx < outShape.length := by
  cases side
  · exact ⟨hin, hidx⟩
  · exact ⟨hidx, hout⟩

theorem shapeIdx_lt (side : Smaller) :
    s.shapeIdx side < (smallShape inShape outShape side).length := by
  cases side
  · exact hout
  · exact hin

end

theorem splitLargeDim_succ {side : Smaller} (rounds quotient : ℕ) {dim : ℕ}
    (hvec : s.reassociationVec = tabulate inShape.length pairs) (hin : s.inIdx < inShape.length)
    (hpos : 0 < dim) (hdim : (smallShape inShape outShape side)[s.shapeIdx side]? = some dim) :
    splitLargeDim inShape outShape side (rounds + 1) (dim * quotient) s =
      if quotient = 1 ∧ (¬nextDimIsOne (smallShape inShape outShape side) (s.shapeIdx side) ∨
          nextDimIsOne inShape s.inIdx ∧ nextDimIsOne outShape s.outIdx) then
        .ok (s.moved side (s.shapeIdx side)
          (tabulate inShape.length (pairs ++ [s.pairAt side (s.shapeIdx side)])))
      else if s.shapeIdx side + 1 < (smallShape inShape outShape side).length then
        splitLargeDim inShape outShape side rounds quotient
          (s.moved side (s.shapeIdx side + 1)
            (tabulate inShape.length (pairs ++ [s.pairAt side (s.shapeIdx side)])))
      else .ok (s.moved side (s.shapeIdx side + 1)
          (tabulate inShape.length (pairs ++ [s.pairAt side (s.shapeIdx side)]))) := by
  have hread : dimAt (smallShape inShape outShape side) (s.shapeIdx side) = .ok dim := by
    rw [dimAt, hdim]
  have hpush := pushBack_tabulate hin pairs s.outIdx
  rw [← hvec] at hpush
  have hdvd : ¬dim * quotient % dim ≠ 0 := by simp
  have hdiv : dim * quotient / dim = quotient := Nat.mul_div_cancel_left _ hpos
  rw [splitLargeDim, hread]
  change (if dim * quotient % dim ≠ 0 then _ else _) = _
  rw [if_neg hdvd, hpush, hdiv]
  cases side <;> rfl

/-- The dimensions of the smaller side are collected up to the large one. -/
theorem splitLargeDim_spec (side : Smaller) (hpos : ∀ d ∈ smallShape inShape outShape side, 0 < d)
    {rounds q rest : ℕ} (hvec : s.reassociationVec = tabulate inShape.length pairs)
    (hin : s.inIdx < inShape.length) (hout : s.outIdx < outShape.length)
    (hrounds : (smallShape inShape outShape side).length ≤ s.shapeIdx side + rounds)
    (hprod : ((smallShape inShape outShape side).drop (s.shapeIdx side)).prod = q * rest) :
    splitLargeDim inShape outShape side rounds q s = .error .failure ∨
      ∃ count, s.shapeIdx side + count < (smallShape inShape outShape side).length ∧
        (select (smallShape inShape outShape side)
          (List.range' (s.shapeIdx side) (count + 1))).prod = q ∧
        splitLargeDim inShape outShape side rounds q s =
          .ok (s.moved side (s.shapeIdx side + count) (tabulate inShape.length
            (pairs ++ (List.range' (s.shapeIdx side) (count + 1)).map (s.pairAt side)))) := by
  have hidx := shapeIdx_lt inShape outShape hin hout side
  induction rounds generalizing q s pairs with
  | zero => omega
  | succ rounds ih =>
    have hget := getElem?_eq_getElem hidx
    have hsplit := prod_drop hidx
    have hdimpos := hpos _ (getElem_mem hidx)
    have hdims : ∀ count, (select (smallShape inShape outShape side)
        (List.range' (s.shapeIdx side) (count + 1))).prod =
          (smallShape inShape outShape side)[s.shapeIdx side] *
            (select (smallShape inShape outShape side)
              (List.range' (s.shapeIdx side + 1) count)).prod := by
      intro count
      rw [range'_succ, select, map_cons, prod_cons,
        getD_eq_getElem _ _ hidx, select]
    generalize hdim : (smallShape inShape outShape side)[s.shapeIdx side] = dim at *
    by_cases hdvd : q % dim = 0
    · obtain ⟨quotient, rfl⟩ := Nat.dvd_of_mod_eq_zero hdvd
      have hround := splitLargeDim_succ inShape outShape rounds quotient hvec hin hdimpos hget
      have hrest : ((smallShape inShape outShape side).drop (s.shapeIdx side + 1)).prod =
          quotient * rest := by
        apply Nat.eq_of_mul_eq_mul_left hdimpos
        rw [← hsplit, hprod, Nat.mul_assoc]
      by_cases hbreak : quotient = 1 ∧
          (¬nextDimIsOne (smallShape inShape outShape side) (s.shapeIdx side) ∨
            nextDimIsOne inShape s.inIdx ∧ nextDimIsOne outShape s.outIdx)
      · right
        refine ⟨0, hidx, ?_, ?_⟩
        · rw [hdims, hbreak.1]
          rfl
        · rw [hround, if_pos hbreak]
          rfl
      · rw [if_neg hbreak] at hround
        by_cases hnext : s.shapeIdx side + 1 < (smallShape inShape outShape side).length
        · rw [if_pos hnext] at hround
          rw [hround]
          obtain ⟨hin', hout'⟩ := Cursor.moved_lt inShape outShape hin hout hnext
            (tabulate inShape.length (pairs ++ [s.pairAt side (s.shapeIdx side)]))
          obtain hfail | ⟨count, hcount, hselect, hok⟩ := ih
            (Cursor.reassociationVec_moved _ _ _ _) hin' hout'
            (by rw [Cursor.shapeIdx_moved]; omega) (by rw [Cursor.shapeIdx_moved]; exact hrest)
            (by rw [Cursor.shapeIdx_moved]; exact hnext)
          · exact Or.inl hfail
          · right
            simp only [Cursor.shapeIdx_moved, Cursor.moved_moved, Cursor.pairAt_moved]
              at hcount hselect hok
            refine ⟨count + 1, by omega, ?_, ?_⟩
            · rw [hdims, hselect]
            · have hlast : s.shapeIdx side + 1 + count = s.shapeIdx side + (count + 1) := by omega
              rw [hok, hlast, range'_succ (n := count + 1), map_cons, append_assoc,
                singleton_append]
        · -- The other side has nothing left, so the quotient was one and the loop had ended.
          exfalso
          have hend : (smallShape inShape outShape side).length ≤ s.shapeIdx side + 1 :=
            Nat.le_of_not_lt hnext
          rw [drop_eq_nil_of_le hend, prod_nil] at hrest
          have hone : quotient = 1 := Nat.eq_one_of_mul_eq_one_right hrest.symm
          refine hbreak ⟨hone, Or.inl ?_⟩
          rw [nextDimIsOne, getElem?_eq_none hend]
          simp
    · left
      rw [splitLargeDim, dimAt, hget]
      exact if_pos hdvd

end Split

section Match

variable {inShape outShape : List ℕ} {s : Cursor} {blocks : List (List ℕ × List ℕ)}

theorem Matched.append (h : Matched inShape outShape s blocks) {m k : ℕ}
    (hm : s.inIdx + m ≤ inShape.length) (hk : s.outIdx + k ≤ outShape.length)
    (hblock : IsBlock (List.range' s.inIdx m, List.range' s.outIdx k))
    (hprod : (select inShape (List.range' s.inIdx m)).prod =
      (select outShape (List.range' s.outIdx k)).prod) :
    Matched inShape outShape ⟨s.inIdx + m, s.outIdx + k, tabulate inShape.length
        (blocks.flatMap blockPairs ++ (List.range' s.inIdx m).product (List.range' s.outIdx k))⟩
      (blocks ++ [(List.range' s.inIdx m, List.range' s.outIdx k)]) where
  left := by
    rw [flatMap_append, h.left, flatMap_singleton, range_add, range'_eq_map_range]
  right := by
    rw [flatMap_append, h.right, flatMap_singleton, range_add,
      range'_eq_map_range (s := s.outIdx)]
  in_le := hm
  out_le := hk
  prod_eq := by
    intro b hb
    obtain hb | hb := mem_append.mp hb
    · exact h.prod_eq b hb
    · rw [mem_singleton.mp hb]
      exact hprod
  isBlock := by
    intro b hb
    obtain hb | hb := mem_append.mp hb
    · exact h.isBlock b hb
    · rw [mem_singleton.mp hb]
      exact hblock
  vec := by
    rw [flatMap_append, flatMap_singleton]
    rfl

theorem dimAt_eq (h : idx < shape.length) : dimAt shape idx = .ok shape[idx] := by
  rw [dimAt, getElem?_eq_getElem h]

theorem select_single (h : idx < shape.length) :
    (select shape (List.range' idx 1)).prod = shape[idx] := by
  rw [range'_one, select, map_singleton, prod_singleton,
    getD_eq_getElem _ _ h]

theorem product_singleton (l : List ℕ) (o : ℕ) : l.product [o] = l.map (·, o) := by
  induction l with
  | nil => rfl
  | cons d l ih => exact congrArg ((d, o) :: ·) ih

theorem singleton_product (d : ℕ) (l : List ℕ) : [d].product l = l.map (d, ·) :=
  flatMap_singleton _ _

/-- The dimensions of the smaller side make up the large dimension, or there is no map. -/
theorem Matched.matchDims (h : Matched inShape outShape s blocks)
    (hin : ∀ d ∈ inShape, 0 < d) (hout : ∀ d ∈ outShape, 0 < d)
    (hprod : inShape.prod = outShape.prod) (hinIdx : s.inIdx < inShape.length)
    (houtIdx : s.outIdx < outShape.length) :
    IE.matchDims inShape outShape s = .error .failure ∨
      ∃ s' blocks', IE.matchDims inShape outShape s = .ok s' ∧ s.inIdx ≤ s'.inIdx ∧
        Matched inShape outShape { s' with inIdx := s'.inIdx + 1, outIdx := s'.outIdx + 1 }
          blocks' := by
  have hrest := h.prod_drop_eq hin hprod
  rw [prod_drop hinIdx, prod_drop houtIdx] at hrest
  obtain ⟨side, hside⟩ : ∃ side, IE.matchDims inShape outShape s =
      splitLargeDim inShape outShape side (smallShape inShape outShape side).length
        (if side then outShape[s.outIdx] else inShape[s.inIdx]) s := by
    rw [IE.matchDims, dimAt_eq hinIdx, dimAt_eq houtIdx]
    exact ⟨_, rfl⟩
  rw [hside]
  cases side with
  | true =>
    obtain hfail | ⟨count, hcount, hselect, hok⟩ := splitLargeDim_spec inShape outShape true
      hin h.vec hinIdx houtIdx (Nat.le_add_left _ _)
      ((prod_drop hinIdx).trans hrest)
    · exact Or.inl hfail
    · right
      have happend := h.append (m := count + 1) (k := 1) hcount houtIdx
        (Or.inr ⟨by simp, s.outIdx, rfl⟩) (hselect.trans (select_single houtIdx).symm)
      rw [range'_one, product_singleton] at happend
      exact ⟨_, _, hok, Nat.le_add_right _ _, happend⟩
  | false =>
    obtain hfail | ⟨count, hcount, hselect, hok⟩ := splitLargeDim_spec inShape outShape false
      hout h.vec hinIdx houtIdx (Nat.le_add_left _ _)
      ((prod_drop houtIdx).trans hrest.symm)
    · exact Or.inl hfail
    · right
      have happend := h.append (m := 1) (k := count + 1) hinIdx hcount
        (Or.inl ⟨⟨s.inIdx, rfl⟩, by simp⟩) ((select_single hinIdx).trans hselect.symm)
      rw [range'_one, singleton_product] at happend
      exact ⟨_, _, hok, Nat.le_refl _, happend⟩

end Match

section Ones

theorem length_ones_le (shape : List ℕ) (start : ℕ) :
    ((shape.drop start).takeWhile (· = 1)).length ≤ shape.length - start := by
  have hones := takeWhile_prefix (l := shape.drop start) fun d => decide (d = 1)
  simpa only [length_drop] using hones.length_le

theorem endOfOnes_le {start : ℕ} (h : start ≤ shape.length) :
    endOfOnes shape start ≤ shape.length := by
  have hle := length_ones_le shape start
  unfold endOfOnes
  omega

theorem lt_endOfOnes {start : ℕ} (h : start < shape.length) (hone : shape[start] = 1) :
    start < endOfOnes shape start := by
  rw [endOfOnes, drop_eq_getElem_cons h, takeWhile_cons_of_pos (by simpa using hone)]
  simp

theorem getD_of_lt_endOfOnes {start d : ℕ} (hstart : start ≤ d) (hd : d < endOfOnes shape start) :
    shape.getD d 0 = 1 := by
  obtain ⟨i, rfl⟩ := Nat.exists_eq_add_of_le hstart
  have hones := takeWhile_prefix (l := shape.drop start) fun d => decide (d = 1)
  have hi : i < ((shape.drop start).takeWhile (· = 1)).length := by
    unfold endOfOnes at hd
    omega
  have hlt : start + i < shape.length := by
    have hle := length_ones_le shape start
    omega
  have hmem := all_eq_true.mp all_takeWhile _ (getElem_mem hi)
  rw [hones.getElem hi, getElem_drop] at hmem
  rw [getD_eq_getElem _ _ hlt]
  simpa using hmem

theorem prod_select_ones {shape dims : List ℕ} (h : ∀ d ∈ dims, shape.getD d 0 = 1) :
    (select shape dims).prod = 1 := by
  apply prod_eq_one
  intro value hvalue
  obtain ⟨d, hd, rfl⟩ := mem_map.mp hvalue
  exact h d hd

variable {inShape outShape : List ℕ} {s : Cursor} {blocks : List (List ℕ × List ℕ)}

theorem Matched.pair (h : Matched inShape outShape s blocks) {count : ℕ}
    (hcount : s.inIdx + count ≤ endOfOnes inShape s.inIdx)
    (hcount' : s.outIdx + count ≤ endOfOnes outShape s.outIdx) :
    ∃ blocks', Matched inShape outShape ⟨s.inIdx + count, s.outIdx + count,
      tabulate inShape.length (blocks.flatMap blockPairs ++
        (List.range count).map fun i => (s.inIdx + i, s.outIdx + i))⟩ blocks' ∧
      blocks'.flatMap blockPairs = blocks.flatMap blockPairs ++
        (List.range count).map fun i => (s.inIdx + i, s.outIdx + i) := by
  have hin := endOfOnes_le h.in_le
  have hout := endOfOnes_le h.out_le
  induction count with
  | zero => exact ⟨blocks, by simpa using h.vec ▸ h, by simp⟩
  | succ count ih =>
    obtain ⟨blocks', hmatched, hpairs⟩ := ih (by omega) (by omega)
    have hone : (select inShape (List.range' (s.inIdx + count) 1)).prod = 1 := by
      apply prod_select_ones
      intro d hd
      obtain rfl := mem_singleton.mp hd
      exact getD_of_lt_endOfOnes (Nat.le_add_right _ _) (by omega)
    have hone' : (select outShape (List.range' (s.outIdx + count) 1)).prod = 1 := by
      apply prod_select_ones
      intro d hd
      obtain rfl := mem_singleton.mp hd
      exact getD_of_lt_endOfOnes (Nat.le_add_right _ _) (by omega)
    have happend := hmatched.append (m := 1) (k := 1) (by simp only; omega) (by simp only; omega)
      (Or.inl ⟨⟨_, rfl⟩, by simp⟩) (hone.trans hone'.symm)
    refine ⟨blocks' ++ [([s.inIdx + count], [s.outIdx + count])], ?_, ?_⟩
    · simpa [range_succ, hpairs, List.product, Nat.add_assoc] using happend
    · simp [range_succ, hpairs, blockPairs, List.product]

theorem range'_succ_eq (start count : ℕ) :
    List.range' start (count + 1) = start :: (List.range count).map fun i => start + 1 + i := by
  rw [range'_succ, range'_eq_map_range]

theorem handleConsecutiveOnes_eq {kin kout : ℕ}
    (hvec : s.reassociationVec = tabulate inShape.length pairs)
    (hin : endOfOnes inShape s.inIdx = s.inIdx + (kin + 1))
    (hout : endOfOnes outShape s.outIdx = s.outIdx + (kout + 1))
    (hle : s.inIdx + (kin + 1) ≤ inShape.length) :
    IE.handleConsecutiveOnes inShape outShape s =
      .ok ⟨s.inIdx + (kin + 1), s.outIdx + (kout + 1), tabulate inShape.length
        (pairs ++ ((List.range (min kin kout + 1)).map fun i => (s.inIdx + i, s.outIdx + i)) ++
          ((List.range (kin - min kin kout)).map fun i =>
            (s.inIdx + min kin kout + 1 + i, s.outIdx + min kin kout)) ++
          ((List.range (kout - min kin kout)).map fun i =>
            (s.inIdx + kin, s.outIdx + min kin kout + 1 + i)))⟩ := by
  unfold IE.handleConsecutiveOnes
  rw [hvec, hin, hout]
  have hpaired : min (s.inIdx + (kin + 1) - s.inIdx) (s.outIdx + (kout + 1) - s.outIdx) =
      min kin kout + 1 := by omega
  have hextraIn : s.inIdx + (kin + 1) - (s.inIdx + (min kin kout + 1)) =
      kin - min kin kout := by omega
  have hextraOut : s.outIdx + (kout + 1) - (s.outIdx + (min kin kout + 1)) =
      kout - min kin kout := by omega
  have hpairs := foldlM_pushBack (n := inShape.length) (l := List.range (min kin kout + 1))
    (f := (s.inIdx + ·)) (g := (s.outIdx + ·))
    (fun i hi => by rw [mem_range] at hi; omega) pairs
  have hins := foldlM_pushBack (n := inShape.length) (l := List.range (kin - min kin kout))
    (f := (s.inIdx + (min kin kout + 1) + ·)) (g := fun _ => s.outIdx + (min kin kout + 1) - 1)
    (fun i hi => by rw [mem_range] at hi; omega)
  have houts := foldlM_pushBack (n := inShape.length) (l := List.range (kout - min kin kout))
    (f := fun _ => s.inIdx + (kin + 1) - 1) (g := (s.outIdx + (min kin kout + 1) + ·))
    (fun i hi => by omega)
  simp only [hpaired, hextraIn, hextraOut, hpairs, hins, houts, bind, Except.bind]
  rfl

theorem product_ones {a b c kin kout : ℕ} (h : c = kin ∧ c ≤ kout ∨ c = kout ∧ c ≤ kin) :
    (List.range' (a + c) (kin - c + 1)).product (List.range' (b + c) (kout - c + 1)) =
      (a + c, b + c) :: ((List.range (kin - c)).map fun i => (a + c + 1 + i, b + c)) ++
        (List.range (kout - c)).map fun i => (a + kin, b + c + 1 + i) := by
  obtain ⟨rfl, -⟩ | ⟨rfl, -⟩ := h
  · simp [range'_succ_eq, List.product]
  · simp [range'_succ_eq, product_singleton]

theorem Matched.handleConsecutiveOnes (h : Matched inShape outShape s blocks)
    (hin : s.inIdx < endOfOnes inShape s.inIdx) (hout : s.outIdx < endOfOnes outShape s.outIdx) :
    ∃ s' blocks', IE.handleConsecutiveOnes inShape outShape s = .ok s' ∧ s.inIdx ≤ s'.inIdx ∧
      Matched inShape outShape s' blocks' := by
  have hinEnd := endOfOnes_le h.in_le
  have houtEnd := endOfOnes_le h.out_le
  obtain ⟨kin, hkin⟩ := Nat.exists_eq_add_of_lt hin
  obtain ⟨kout, hkout⟩ := Nat.exists_eq_add_of_lt hout
  have hok := handleConsecutiveOnes_eq h.vec hkin hkout (hkin ▸ hinEnd)
  have hmin : min kin kout = kin ∧ min kin kout ≤ kout ∨
      min kin kout = kout ∧ min kin kout ≤ kin := by omega
  generalize min kin kout = count at *
  obtain ⟨blocks', hmatched, hpairs⟩ := @Matched.pair _ _ _ _ h count (by omega) (by omega)
  have hones : ∀ d ∈ List.range' (s.inIdx + count) (kin - count + 1), inShape.getD d 0 = 1 := by
    intro d hd
    rw [mem_range'_1] at hd
    have hstart : s.inIdx ≤ d := by omega
    exact getD_of_lt_endOfOnes hstart (by omega)
  have hones' : ∀ d ∈ List.range' (s.outIdx + count) (kout - count + 1),
      outShape.getD d 0 = 1 := by
    intro d hd
    rw [mem_range'_1] at hd
    have hstart : s.outIdx ≤ d := by omega
    exact getD_of_lt_endOfOnes hstart (by omega)
  have hblock : IsBlock (List.range' (s.inIdx + count) (kin - count + 1),
      List.range' (s.outIdx + count) (kout - count + 1)) := by
    obtain ⟨rfl, -⟩ | ⟨rfl, -⟩ := hmin
    · exact Or.inl ⟨⟨_, by rw [Nat.sub_self]; rfl⟩, by simp⟩
    · exact Or.inr ⟨by simp, _, by rw [Nat.sub_self]; rfl⟩
  have hlast := hmatched.append (m := kin - count + 1) (k := kout - count + 1)
    (by simp only; omega) (by simp only; omega) hblock
    ((prod_select_ones hones).trans (prod_select_ones hones').symm)
  rw [hpairs, product_ones hmin] at hlast
  simp only [append_assoc] at hlast hok
  have hinLast : s.inIdx + count + (kin - count + 1) = s.inIdx + (kin + 1) := by omega
  have houtLast : s.outIdx + count + (kout - count + 1) = s.outIdx + (kout + 1) := by omega
  rw [hinLast, houtLast] at hlast
  rw [range_succ, map_append, append_assoc] at hok
  exact ⟨_, _, hok, Nat.le_add_right _ _, hlast⟩

theorem Matched.pairOnes (h : Matched inShape outShape s blocks)
    (hin : s.inIdx < inShape.length) (hout : s.outIdx < outShape.length) :
    ∃ s' blocks', IE.pairOnes inShape outShape s = .ok s' ∧ s.inIdx ≤ s'.inIdx ∧
      Matched inShape outShape s' blocks' := by
  have hunfold : IE.pairOnes inShape outShape s =
      if inShape[s.inIdx] = 1 ∧ outShape[s.outIdx] = 1 then
        IE.handleConsecutiveOnes inShape outShape s else .ok s := by
    rw [IE.pairOnes, dimAt_eq hin, dimAt_eq hout]
    rfl
  rw [hunfold]
  by_cases hones : inShape[s.inIdx] = 1 ∧ outShape[s.outIdx] = 1
  · rw [if_pos hones]
    exact h.handleConsecutiveOnes (lt_endOfOnes hin hones.1) (lt_endOfOnes hout hones.2)
  · rw [if_neg hones]
    exact ⟨s, blocks, rfl, Nat.le_refl _, h⟩

end Ones

section Loop

variable {inShape outShape : List ℕ} {s : Cursor} {blocks : List (List ℕ × List ℕ)}

theorem Matched.loop (h : Matched inShape outShape s blocks) (hin : ∀ d ∈ inShape, 0 < d)
    (hout : ∀ d ∈ outShape, 0 < d) (hprod : inShape.prod = outShape.prod) {rounds : ℕ}
    (hrounds : inShape.length ≤ s.inIdx + rounds) :
    reassociationLoop inShape outShape rounds s = .error .failure ∨
      ∃ s' blocks', reassociationLoop inShape outShape rounds s = .ok s' ∧
        Matched inShape outShape s' blocks' := by
  induction rounds generalizing s blocks with
  | zero =>
    right
    refine ⟨s, blocks, ?_, h⟩
    rw [reassociationLoop, if_neg (by omega)]
  | succ rounds ih =>
    rw [reassociationLoop]
    split_ifs with hidx
    · obtain ⟨s', blocks', hpair, hle, hmatched⟩ := h.pairOnes hidx.1 hidx.2
      rw [hpair]
      by_cases hend : inShape.length ≤ s'.inIdx ∨ outShape.length ≤ s'.outIdx
      · exact Or.inr ⟨s', blocks', if_pos hend, hmatched⟩
      · have hround : ((Except.ok s' : Except Stop Cursor) >>= fun s =>
            if inShape.length ≤ s.inIdx ∨ outShape.length ≤ s.outIdx then .ok s
            else do
              let s ← IE.matchDims inShape outShape s
              reassociationLoop inShape outShape rounds
                { s with inIdx := s.inIdx + 1, outIdx := s.outIdx + 1 }) =
            IE.matchDims inShape outShape s' >>= fun s =>
              reassociationLoop inShape outShape rounds
                { s with inIdx := s.inIdx + 1, outIdx := s.outIdx + 1 } := if_neg hend
        rw [hround]
        obtain hfail | ⟨s'', blocks'', hok, hle', hmatched'⟩ :=
          hmatched.matchDims hin hout hprod (by omega) (by omega)
        · rw [hfail]
          exact Or.inl rfl
        · rw [hok]
          exact ih hmatched' (by simp only; omega)
    · exact Or.inr ⟨s, blocks, rfl, h⟩

/-- The map sends every dimension of a block to all dimensions of its partner, and one of the
two sides of a block is a single dimension. -/
structure Reassociates (inShape outShape : List ℕ) (map : List (List ℕ))
    (blocks : List (List ℕ × List ℕ)) : Prop extends Splits inShape outShape blocks where
  isBlock : ∀ b ∈ blocks, IsBlock b
  map_eq : map = blocks.flatMap fun b => b.1.map fun _ => b.2

theorem filter_product {l : List ℕ} (hl : l.Nodup) (l' : List ℕ) (d : ℕ) :
    ((l.product l').filter (·.1 = d)).map Prod.snd = if d ∈ l then l' else [] := by
  induction l with
  | nil => rfl
  | cons a l ih =>
    obtain ⟨ha, hl⟩ := nodup_cons.mp hl
    have hcons : (a :: l).product l' = l'.map (a, ·) ++ l.product l' := rfl
    rw [hcons, filter_append, map_append, ih hl, filter_map, map_map]
    by_cases had : a = d
    · subst had
      simp [ha, Function.comp_def]
    · have hda : ¬d = a := fun h => had h.symm
      simp [had, hda, Function.comp_def]

theorem filter_blockPairs (h : (blocks.flatMap Prod.fst).Nodup) (hb : b ∈ blocks) {d : ℕ}
    (hd : d ∈ b.1) :
    ((blocks.flatMap blockPairs).filter (·.1 = d)).map Prod.snd = b.2 := by
  induction blocks with
  | nil => simp at hb
  | cons first blocks ih =>
    rw [flatMap_cons, nodup_append] at h
    obtain ⟨hfirst, hrest, hdisjoint⟩ := h
    rw [flatMap_cons, filter_append, map_append, blockPairs, filter_product hfirst]
    obtain rfl | hb := mem_cons.mp hb
    · have hnone : (blocks.flatMap blockPairs).filter (·.1 = d) = [] := by
        rw [filter_eq_nil_iff]
        intro pair hpair heq
        obtain ⟨b', hb', hpair⟩ := mem_flatMap.mp hpair
        have hmem := (pair_mem_product.mp hpair).1
        exact hdisjoint d hd pair.1 (mem_flatMap.mpr ⟨b', hb', hmem⟩)
          (of_decide_eq_true heq).symm
      rw [if_pos hd, hnone, map_nil, append_nil]
    · have hnot : d ∉ first.1 := fun hmem =>
        hdisjoint d hmem d (mem_flatMap.mpr ⟨b, hb, hd⟩) rfl
      rw [if_neg hnot, nil_append, ih hrest hb]

theorem Matched.reassociates (h : Matched inShape outShape s blocks)
    (hin : inShape.length ≤ s.inIdx) (hout : outShape.length ≤ s.outIdx) :
    Reassociates inShape outShape s.reassociationVec blocks where
  left := h.left.trans (congrArg List.range (Nat.le_antisymm h.in_le hin))
  right := h.right.trans (congrArg List.range (Nat.le_antisymm h.out_le hout))
  prod_eq := h.prod_eq
  isBlock := h.isBlock
  map_eq := by
    have hleft := h.left.trans (congrArg List.range (Nat.le_antisymm h.in_le hin))
    rw [h.vec, tabulate, ← hleft, map_flatMap]
    apply flatMap_congr
    intro b hb
    apply map_congr_left
    intro d hd
    exact filter_blockPairs (hleft ▸ nodup_range) hb hd

theorem getReassociationMap_spec (hin : ∀ d ∈ inShape, 0 < d) (hout : ∀ d ∈ outShape, 0 < d)
    (hprod : inShape.prod = outShape.prod) :
    getReassociationMap inShape outShape = .error .failure ∨
      ∃ map blocks, getReassociationMap inShape outShape = .ok map ∧
        Reassociates inShape outShape map blocks := by
  have hstart : Matched inShape outShape ⟨0, 0, List.replicate inShape.length []⟩ [] := by
    constructor <;> simp [tabulate_nil]
  rw [getReassociationMap]
  obtain hfail | ⟨s, blocks, hok, hmatched⟩ := hstart.loop hin hout hprod (Nat.le_add_left _ _)
  · rw [hfail]
    exact Or.inl rfl
  · rw [hok]
    by_cases hleft : s.inIdx < inShape.length ∨ s.outIdx < outShape.length
    · exact Or.inl (if_pos hleft)
    · right
      exact ⟨s.reassociationVec, blocks, if_neg hleft,
        hmatched.reassociates (by omega) (by omega)⟩

end Loop

end Vpux.IE
