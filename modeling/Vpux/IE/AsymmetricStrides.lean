import Vpux.IE.Operations

/-! A convolution with different strides as convolutions with the larger stride in both
dimensions, their results interleaved. -/
namespace Vpux.IE.AsymmetricStrides

section AsymmetricStrides
open Vpux.Const Data

variable {α : Type}

/-- The size of the result, when element `k` of input `idx` comes to place
`offset * idx + stride * k`. -/
def inferOutDimWithAxis (sizes : List ℕ) (offset stride : ℕ) : Except Fault ℕ := do
  let outShape := sizes.sum
  throwUnless (∀ idx < sizes.length, offset * idx + stride * (sizes.getD idx 0 - 1) < outShape)
    (s!"Concat with offset '{offset}' and stride '{stride}' doesn't fit to output " ++
      s!"dimension '{outShape}'")
  pure outShape

/-- The input and the place in it that an element of the result comes from. -/
def comesFrom (sizes : List ℕ) (offset stride place : ℕ) : Option (ℕ × ℕ) :=
  ((List.range sizes.length).find? fun idx => offset * idx ≤ place ∧
      (place - offset * idx) % stride = 0 ∧ (place - offset * idx) / stride < sizes.getD idx 0).map
    fun idx => (idx, (place - offset * idx) / stride)

section Concat

variable [Zero α]

def concatOpH (inputs : List (Tensor α)) (offset stride : ℕ) : Except Fault (Tensor α) := do
  let front ← (inputs.head?).elim (.error .overread) .ok
  let H ← inferOutDimWithAxis (inputs.map (·.H)) offset stride
  pure { front with
    H := H
    get := fun n c y x => ((comesFrom (inputs.map (·.H)) offset stride y).bind
      fun (idx, k) => (inputs[idx]?).map (·.get n c k x)).getD 0 }

def concatOpW (inputs : List (Tensor α)) (offset stride : ℕ) : Except Fault (Tensor α) := do
  let front ← (inputs.head?).elim (.error .overread) .ok
  let W ← inferOutDimWithAxis (inputs.map (·.W)) offset stride
  pure { front with
    W := W
    get := fun n c y x => ((comesFrom (inputs.map (·.W)) offset stride x).bind
      fun (idx, k) => (inputs[idx]?).map (·.get n c y k)).getD 0 }

/-- No operation for no parts, the part itself for a single one. -/
def concatParts (concatOp : List (Tensor α) → ℕ → ℕ → Except Fault (Tensor α))
    (minStride maxStride : ℕ) : List (Tensor α) → Except Fault (Option (Tensor α))
  | [] => pure none
  | [part] => pure (some part)
  | parts => some <$> concatOp parts minStride maxStride

end Concat

variable [Semiring α]

structure OperationPart where
  strides : Dims2D
  padBegin : Dims2D
  padEnd : Dims2D

def makeOperation (origOp : ConvolutionOp α) (input : Tensor α) (part : OperationPart) :
    ConvolutionOp α :=
  { origOp with
    input := input
    strides := part.strides
    padsBegin := part.padBegin
    padsEnd := part.padEnd }

/-- The convolution of the input without its first rows and columns. -/
def makeSliced (origOp : ConvolutionOp α) (newStrides : Dims2D) (offsetH offsetW : ℕ) :
    Except Fault (Tensor α) := do
  let slicedInput ← sliceOp origOp.input {
    offsetY := offsetH
    offsetX := offsetW
    sizeY := origOp.input.H - offsetH
    sizeX := origOp.input.W - offsetW }
  let newPaddingEnd : Dims2D := ⟨origOp.padsEnd.Y + offsetH, origOp.padsEnd.X + offsetW⟩
  throwUnless (¬((origOp.filter.H + 1) / 2 < newPaddingEnd.Y ∨
    (origOp.filter.W + 1) / 2 < newPaddingEnd.X)) "Paddings are out of range"
  (makeOperation origOp slicedInput ⟨newStrides, origOp.padsBegin, newPaddingEnd⟩).eval

/-- No result for a failure to match. -/
def generalSplitter (origOp : ConvolutionOp α) : Except Fault (Option (Tensor α)) := do
  let strides := origOp.strides
  let KX := origOp.filter.W
  let KY := origOp.filter.H
  let H := origOp.input.H
  let W := origOp.input.W
  let minStride := min strides.Y strides.X
  let maxStride := max strides.Y strides.X
  let newStrides : Dims2D := ⟨maxStride, maxStride⟩
  if W = KX ∨ H = KY then
    some <$> (makeOperation origOp origOp.input
      ⟨newStrides, origOp.padsBegin, origOp.padsEnd⟩).eval
  else
    let steps_h := (strides.X + strides.Y - 1) / strides.Y
    let steps_w := (strides.Y + strides.X - 1) / strides.X
    let hSliced ← (List.range steps_w).mapM fun i => do
      let wSliced ← (List.range steps_h).mapM fun j =>
        makeSliced origOp newStrides (j * minStride) (i * minStride)
      concatParts concatOpH minStride maxStride wSliced
    concatParts concatOpW minStride maxStride (hSliced.filterMap id)

def matchAndRewrite (origOp : ConvolutionOp α) : Except Fault (Option (Tensor α)) :=
  generalSplitter origOp

def checkStridesRelation (strideRight strideLeft inputSize : ℕ) : Prop :=
  strideLeft < strideRight ∧ 0 < strideLeft ∧ strideRight % strideLeft = 0 ∧
    inputSize % (strideRight / strideLeft) = 0

instance (strideRight strideLeft inputSize : ℕ) :
    Decidable (checkStridesRelation strideRight strideLeft inputSize) :=
  inferInstanceAs (Decidable (_ ∧ _))

/-- The target of the conversion. -/
def isLegalOp (op : ConvolutionOp α) : Prop :=
  op.strides.Y = op.strides.X ∨
    ¬(checkStridesRelation op.strides.X op.strides.Y op.input.W ∨
      checkStridesRelation op.strides.Y op.strides.X op.input.H)

instance (op : ConvolutionOp α) : Decidable (isLegalOp op) := inferInstanceAs (Decidable (_ ∨ _))

end AsymmetricStrides

-- What the shifted convolutions read and where their results come to lie.
section AsymmetricStridesParts
open Finset Vpux.Const Data

/-- One spatial dimension of a convolution. -/
structure Axis where
  size : ℕ
  kernel : ℕ
  padBegin : ℕ
  padEnd : ℕ
  stride : ℕ

namespace Axis

/-- How far the kernel can move. -/
def travel (a : Axis) : ℕ := a.size + a.padBegin + a.padEnd - a.kernel

/-- Some window reads a value of the input. -/
def Meets (a : Axis) : Prop :=
  ∃ o < a.travel / a.stride + 1, ∃ k < a.kernel,
    a.padBegin ≤ o * a.stride + k ∧ o * a.stride + k < a.padBegin + a.size

/-- No shifted window has a place of the begin pad where the window has a value of the input. -/
def Undisturbed (a : Axis) (q : ℕ) : Prop := a.padBegin = 0 ∨ a.kernel = 1 ∧ q ∣ a.padBegin

instance (a : Axis) : Decidable a.Meets :=
  inferInstanceAs (Decidable (∃ o < a.travel / a.stride + 1, ∃ k < a.kernel,
    a.padBegin ≤ o * a.stride + k ∧ o * a.stride + k < a.padBegin + a.size))

instance (a : Axis) (q : ℕ) : Decidable (a.Undisturbed q) := inferInstanceAs (Decidable (_ ∨ _ ∧ _))

variable {a : Axis} {q : ℕ}

theorem sameRead (h : a.Undisturbed q) {y k : ℕ} (hy : y % q ≤ a.size) (hk : k < a.kernel)
    (hq : 0 < q) :
    Tensor.SameRead a.size a.padBegin (y + k) (a.size - y % q) a.padBegin (y / q * q + k)
      (y % q) := by
  have hsplit : y / q * q + y % q = y := Nat.div_add_mod' y q
  have hbegin : a.padBegin ≤ y + k → a.padBegin ≤ y / q * q + k := by
    intro hle
    obtain hzero | ⟨hone, m, hm⟩ := h
    · omega
    · by_contra hlt
      have hrow : y / q < m := by
        apply Nat.lt_of_mul_lt_mul_right (a := q)
        rw [Nat.mul_comm m q]
        omega
      have hnext := Nat.mul_le_mul_right q hrow
      have hmod := Nat.mod_lt y hq
      rw [Nat.succ_mul, Nat.mul_comm m q] at hnext
      omega
  constructor
  · omega
  · omega

/-- Otherwise the last place of some begin pad stands for the first value of the input. -/
theorem exists_misread (h : ¬a.Undisturbed q) (hq : 1 < q) (hsize : 0 < a.size)
    (hkernel : 0 < a.kernel) (hfits : a.kernel ≤ a.size + a.padBegin + a.padEnd) :
    ∃ j < q, ∃ r < a.travel / q + 1, ∃ k < a.kernel,
      r * q + k < a.padBegin ∧ r * q + j + k = a.padBegin := by
  obtain ⟨hpad, hsingle⟩ := not_or.mp h
  have hpads := Nat.div_add_mod' (a.padBegin - 1) q
  have htravel := Nat.div_add_mod' a.travel q
  have hpadsMod := Nat.mod_lt (a.padBegin - 1) (by omega : 0 < q)
  have htravelMod := Nat.mod_lt a.travel (by omega : 0 < q)
  unfold travel at *
  -- the rest of the begin pad before row `r` is at most one window and a shift
  have hrest : ∃ r < (a.size + a.padBegin + a.padEnd - a.kernel) / q + 1, r * q < a.padBegin ∧
      (a.padBegin ≤ r * q + a.kernel ∨ a.padBegin + 2 ≤ r * q + a.kernel + q) := by
    rcases Nat.le_total ((a.padBegin - 1) / q)
      ((a.size + a.padBegin + a.padEnd - a.kernel) / q) with hle | hle
    · refine ⟨(a.padBegin - 1) / q, by omega, by omega, ?_⟩
      by_cases hone : a.kernel = 1
      · have hdvd : a.padBegin ≠ (a.padBegin - 1) / q * q + q := by
          intro heq
          rw [← Nat.succ_mul, Nat.mul_comm] at heq
          exact hsingle ⟨hone, _, heq⟩
        omega
      · omega
    · have hmul := Nat.mul_le_mul_right q hle
      refine ⟨(a.size + a.padBegin + a.padEnd - a.kernel) / q, by omega, by omega, ?_⟩
      omega
  obtain ⟨r, hr, hbefore, hnear⟩ := hrest
  refine ⟨a.padBegin - r * q - (min a.kernel (a.padBegin - r * q) - 1), ?_, r, hr,
    min a.kernel (a.padBegin - r * q) - 1, ?_, ?_, ?_⟩
  · omega
  · omega
  · omega
  · omega

theorem count_eq (hq : 0 < q) : q * (a.travel / q + 1) = a.travel + 1 ↔ (a.travel + 1) % q = 0 := by
  have hsplit := Nat.div_add_mod a.travel q
  obtain ⟨p, rfl⟩ : ∃ p, q = p + 1 := ⟨q - 1, by omega⟩
  rw [Nat.succ_mod_succ_eq_zero_iff, Nat.mul_succ]
  omega

end Axis

section Interleaving

variable {q n s : ℕ}

theorem getD_replicate {idx : ℕ} (h : idx < q) : (List.replicate q n).getD idx 0 = n := by
  rw [List.getD_eq_getElem _ _ (by simpa using h), List.getElem_replicate]

theorem inferOutDimWithAxis_one (hn : 0 < n) :
    inferOutDimWithAxis (List.replicate q n) 1 q = .ok (q * n) := by
  have hfits : ∀ idx < (List.replicate q n).length,
      1 * idx + q * ((List.replicate q n).getD idx 0 - 1) < (List.replicate q n).sum := by
    intro idx hidx
    rw [List.length_replicate] at hidx
    rw [getD_replicate hidx, List.sum_replicate_nat]
    obtain ⟨n, rfl⟩ := Nat.exists_eq_succ_of_ne_zero hn.ne'
    rw [Nat.succ_sub_one, Nat.mul_succ]
    omega
  rw [inferOutDimWithAxis, throwUnless, if_pos hfits, List.sum_replicate_nat]
  rfl

theorem eq_one_of_inferOutDimWithAxis (hs : 0 < s) (hq : 1 < q) (hn : 0 < n) {out : ℕ}
    (h : inferOutDimWithAxis (List.replicate q n) s (q * s) = .ok out) : s = 1 := by
  obtain ⟨_, hfits, -⟩ := bind_eq_ok.mp h
  rw [throwUnless_eq_ok] at hfits
  have hlast := hfits (q - 1) (by rw [List.length_replicate]; omega)
  rw [getD_replicate (by omega), List.sum_replicate_nat] at hlast
  by_contra hne
  have htwo : 2 ≤ s := by omega
  have hoffset : 2 * (q - 1) ≤ s * (q - 1) := Nat.mul_le_mul_right _ htwo
  have hstride : q * 1 * (n - 1) ≤ q * s * (n - 1) :=
    Nat.mul_le_mul_right _ (Nat.mul_le_mul_left q hs)
  have hall : q * n = q * (n - 1) + q := by rw [← Nat.mul_succ, Nat.succ_eq_add_one,
    Nat.sub_add_cancel hn]
  rw [Nat.mul_one] at hstride
  omega

theorem comesFrom_replicate (hq : 0 < q) {place : ℕ} (h : place < q * n) :
    comesFrom (List.replicate q n) 1 q place = some (place % q, place / q) := by
  have hsplit := Nat.div_add_mod place q
  have hmod := Nat.mod_lt place hq
  have hrest : place - place % q = q * (place / q) := by omega
  have hfind : (List.range (List.replicate q n).length).find? (fun idx => 1 * idx ≤ place ∧
      (place - 1 * idx) % q = 0 ∧ (place - 1 * idx) / q < (List.replicate q n).getD idx 0) =
        some (place % q) := by
    rw [List.length_replicate, List.find?_range_eq_some]
    refine ⟨?_, List.mem_range.mpr hmod, ?_⟩
    · rw [decide_eq_true_eq, Nat.one_mul, getD_replicate hmod, hrest, Nat.mul_mod_right,
        Nat.mul_div_cancel_left _ hq]
      exact ⟨Nat.mod_le place q, rfl, Nat.div_lt_of_lt_mul h⟩
    · intro idx hidx
      have hother : (place - idx) % q = place % q - idx := by
        rw [show place - idx = q * (place / q) + (place % q - idx) by omega, Nat.mul_add_mod,
          Nat.mod_eq_of_lt (by omega)]
      simp only [Nat.one_mul, hother, Bool.not_eq_true', decide_eq_false_iff_not]
      omega
  rw [comesFrom, hfind, Option.map_some, Nat.one_mul, hrest, Nat.mul_div_cancel_left _ hq]

end Interleaving

variable {α : Type} [Semiring α] {op : ConvolutionOp α}

section Splitter

variable {q : ℕ}

theorem steps_minor {s : ℕ} (hs : 0 < s) : (q * s + s - 1) / s = q := by
  rw [Nat.add_sub_assoc hs, Nat.mul_comm, Nat.mul_add_div hs, Nat.div_eq_of_lt (by omega),
    Nat.add_zero]

theorem steps_major {s : ℕ} (hs : 0 < s) (hq : 0 < q) : (s + q * s - 1) / (q * s) = 1 := by
  have hle := Nat.mul_le_mul_right s hq
  rw [Nat.div_eq_iff (by omega)]
  omega

/-- The convolution has one full dimension: one convolution takes its place. -/
def isShortcut (op : ConvolutionOp α) : Prop :=
  op.input.W = op.filter.W ∨ op.input.H = op.filter.H

instance (op : ConvolutionOp α) : Decidable (isShortcut op) := inferInstanceAs (Decidable (_ ∨ _))

theorem generalSplitter_of_shortcut (h : isShortcut op) :
    generalSplitter op = some <$> (makeOperation op op.input
      ⟨⟨max op.strides.Y op.strides.X, max op.strides.Y op.strides.X⟩, op.padsBegin,
        op.padsEnd⟩).eval := if_pos h

omit [Semiring α] in
theorem concatParts_single (concatOp : List (Tensor α) → ℕ → ℕ → Except Fault (Tensor α))
    (minStride maxStride : ℕ) (part : Option (Tensor α)) :
    concatParts concatOp minStride maxStride ([part].filterMap id) = pure part := by
  cases part <;> rfl

omit [Semiring α] in
theorem mapM_map_some (f : ℕ → Except Fault (Tensor α)) (l : List ℕ) :
    (l.mapM fun i => some <$> f i) = List.map some <$> l.mapM f := by
  induction l with
  | nil => rfl
  | cons i l ih =>
    rw [List.mapM_cons, List.mapM_cons, ih]
    simp only [map_eq_pure_bind, bind_assoc, pure_bind, List.map_cons]

theorem generalSplitter_of_rows (hcut : ¬isShortcut op) (hs : 0 < op.strides.Y) (hq : 0 < q)
    (hX : op.strides.X = q * op.strides.Y) :
    generalSplitter op = (do
      let parts ← (List.range q).mapM fun j =>
        makeSliced op ⟨op.strides.X, op.strides.X⟩ (j * op.strides.Y) 0
      concatParts concatOpH op.strides.Y op.strides.X parts) := by
  have hle : op.strides.Y ≤ op.strides.X := by
    rw [hX]
    exact Nat.le_mul_of_pos_left _ hq
  have hsteps : (op.strides.X + op.strides.Y - 1) / op.strides.Y = q ∧
      (op.strides.Y + op.strides.X - 1) / op.strides.X = 1 := by
    rw [hX]
    exact ⟨steps_minor hs, steps_major hs hq⟩
  unfold isShortcut at hcut
  simp only [generalSplitter]
  rw [if_neg hcut, hsteps.1, hsteps.2, min_eq_left hle, max_eq_right hle]
  simp only [List.range_one, List.mapM_cons, List.mapM_nil, Nat.zero_mul, bind_assoc, pure_bind,
    concatParts_single, bind_pure]

theorem generalSplitter_of_columns (hcut : ¬isShortcut op) (hs : 0 < op.strides.X) (hq : 0 < q)
    (hY : op.strides.Y = q * op.strides.X) :
    generalSplitter op = (do
      let parts ← (List.range q).mapM fun i =>
        makeSliced op ⟨op.strides.Y, op.strides.Y⟩ 0 (i * op.strides.X)
      concatParts concatOpW op.strides.X op.strides.Y parts) := by
  have hle : op.strides.X ≤ op.strides.Y := by
    rw [hY]
    exact Nat.le_mul_of_pos_left _ hq
  have hsteps : (op.strides.X + op.strides.Y - 1) / op.strides.Y = 1 ∧
      (op.strides.Y + op.strides.X - 1) / op.strides.X = q := by
    rw [hY]
    exact ⟨steps_major hs hq, steps_minor hs⟩
  unfold isShortcut at hcut
  simp only [generalSplitter]
  rw [if_neg hcut, hsteps.1, hsteps.2, min_eq_right hle, max_eq_left hle]
  simp only [List.range_one, List.mapM_cons, List.mapM_nil, Nat.zero_mul, bind_assoc, pure_bind]
  have hparts : ∀ part : Tensor α,
      concatParts concatOpH op.strides.X op.strides.Y [part] = pure (some part) := fun _ => rfl
  simp only [hparts, ← map_eq_pure_bind, mapM_map_some, bind_map_left]
  simp

end Splitter

section Concat

variable {q n s : ℕ} {t : ℕ → Tensor α}

omit [Semiring α] in
theorem concatParts_of_one_lt (concatOp : List (Tensor α) → ℕ → ℕ → Except Fault (Tensor α))
    (minStride maxStride : ℕ) {parts : List (Tensor α)} (h : 1 < parts.length) :
    concatParts concatOp minStride maxStride parts =
      some <$> concatOp parts minStride maxStride := by
  match parts, h with
  | _ :: _ :: _, _ => rfl

omit [Semiring α] in
theorem map_range_eq_replicate {size : Tensor α → ℕ} (h : ∀ j < q, size (t j) = n) :
    ((List.range q).map t).map size = List.replicate q n := by
  rw [List.map_map, List.eq_replicate_iff]
  refine ⟨by simp, fun b hb => ?_⟩
  obtain ⟨j, hj, rfl⟩ := List.mem_map.mp hb
  exact h j (List.mem_range.mp hj)

theorem concatOpH_ok (hq : 0 < q) (hn : 0 < n) (h : ∀ j < q, (t j).H = n) :
    ∃ u, concatOpH ((List.range q).map t) 1 q = .ok u ∧
      (u.N = (t 0).N ∧ u.C = (t 0).C ∧ u.H = q * n ∧ u.W = (t 0).W) ∧
      ∀ m c, ∀ y < q * n, ∀ x, u.get m c y x = (t (y % q)).get m c (y / q) x := by
  have hfront : ((List.range q).map t).head? = some (t 0) := by
    rw [List.head?_map, List.head?_range, if_neg hq.ne', Option.map_some]
  rw [concatOpH, map_range_eq_replicate h, inferOutDimWithAxis_one hn, hfront]
  refine ⟨_, rfl, ⟨rfl, rfl, rfl, rfl⟩, fun m c y hy x => ?_⟩
  simp only [comesFrom_replicate hq hy, Option.bind_some, List.getElem?_map,
    List.getElem?_range (Nat.mod_lt y hq), Option.map_some, Option.getD_some]

theorem eq_one_of_concatOpH (hs : 0 < s) (hq : 1 < q) (hn : 0 < n) (h : ∀ j < q, (t j).H = n)
    {u : Tensor α} (hok : concatOpH ((List.range q).map t) s (q * s) = .ok u) : s = 1 := by
  rw [concatOpH, map_range_eq_replicate h] at hok
  obtain ⟨_, -, hinfer⟩ := bind_eq_ok.mp hok
  obtain ⟨_, hdim, -⟩ := bind_eq_ok.mp hinfer
  exact eq_one_of_inferOutDimWithAxis hs hq hn hdim

end Concat

end AsymmetricStridesParts

end Vpux.IE.AsymmetricStrides
