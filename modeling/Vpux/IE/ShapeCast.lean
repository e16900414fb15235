import Mathlib.Algebra.Order.BigOperators.GroupWithZero.List
import Mathlib.Order.Bounds.Basic
import Vpux.Const.Types
import Vpux.Tiling.BackInfer

/-! Shapes to cast to before an expansion (`IE/utils/shape_infer.cpp`). `sizeToAlign` stands for
the channel alignment of the element type. -/
namespace Vpux.IE.ShapeCast
open Vpux.Const Tiling.Dims4D

section Factors

-- the square root of the standard library, rounded down
variable (sqrt : ℕ → ℕ)

/-- The loop of `getFactors` from `i` down. -/
def getFactorsFrom (total : ℕ) : ℕ → Option (List ℕ)
  | 0 => none
  | i + 1 => if total % (i + 1) = 0 then some [total / (i + 1), i + 1] else getFactorsFrom total i

/-- A size is never negative here. -/
def getFactors (total num : ℕ) : Option (List ℕ) :=
  if num = 1 then some [total]
  else if num > 2 then none
  else getFactorsFrom total (sqrt total)

/-- The loop of `getPrimeFactors` from `k + 2` on. -/
def primeFactorsFrom (k n : ℕ) : List ℕ :=
  if k + 2 < n then
    if n % (k + 2) = 0 then (k + 2) :: primeFactorsFrom k (n / (k + 2))
    else primeFactorsFrom (k + 1) n
  else [n]
termination_by n - k
decreasing_by
  · have := Nat.div_lt_self (by omega : 0 < n) (by omega : 1 < k + 2)
    omega
  · omega

def getPrimeFactors (n : ℕ) : List ℕ := primeFactorsFrom 0 n

end Factors

def VPU_DIMENSION_LIMIT : ℕ := 8192

section Casts

variable (sqrt : ℕ → ℕ) (sizeToAlign : ℕ)

/-- The set of the dimensions that the new shape has to align. -/
def dimsToAlign (inOrder outOrder : DimsOrder) (expandedShape unExpandedShape : List ℕ) : List ℕ :=
  (List.range expandedShape.length).filter fun d =>
    d = Act.C ∧ unExpandedShape.getD Act.C 0 % sizeToAlign = 0 ∨
    d = Act.W ∧ inOrder = .NHWC ∧ outOrder = .fromNumDims 4 ∧
      unExpandedShape.getD Act.W 0 % sizeToAlign = 0 ∨
    expandedShape.getD d 0 ≠ unExpandedShape.getD d 0

/-- The sizes at some indices: the alignment, or else the next factor. -/
def fillDims (dims : List ℕ) : List ℕ → List ℕ → Except Fault (List ℕ)
  | [], _ => .ok []
  | index :: indices, factors =>
    if index ∈ dims then do
      let rest ← fillDims dims indices factors
      return sizeToAlign :: rest
    else match factors with
      | [] => .error .overread
      | factor :: factors => do
        let rest ← fillDims dims indices factors
        return factor :: rest

/-- `none` where the code returns a failure. The number of factors is a `size_t`. -/
def getShapeCastExpandedShape (inOrder outOrder : DimsOrder)
    (expandedShape unExpandedShape : List ℕ) : Except Fault (Option (List ℕ)) :=
  let dims := dimsToAlign sizeToAlign inOrder outOrder expandedShape unExpandedShape
  let totalSize := unExpandedShape.prod
  let totalSizeToAlign := sizeToAlign ^ dims.length
  if unExpandedShape = [] then .ok none
  else if totalSize % totalSizeToAlign ≠ 0 then .ok none
  else
    let remainingSize := totalSize / totalSizeToAlign
    let num := (unExpandedShape.length - 1 + 2 ^ 64 - dims.length) % 2 ^ 64
    match getFactors sqrt remainingSize num with
    | none => .ok none
    | some factors => do
      let rest ← fillDims sizeToAlign dims (List.range' 1 (expandedShape.length - 1)) factors
      return some (unExpandedShape.getD Act.N 0 :: rest)

/-- A shape that ends with the first two factors. -/
def withFactors (front : List ℕ) : Option (List ℕ) → Except Fault (Option (List ℕ))
  | none => .ok none
  | some (h :: w :: _) => .ok (some (front ++ [h, w]))
  | some _ => .error .overread

def getShapeCastExpandedShapeInDimC (originShape : List ℕ) : Except Fault (Option (List ℕ)) :=
  let totalSize := originShape.prod
  if originShape = [] then .ok none
  else if totalSize % sizeToAlign ≠ 0 then .ok none
  else withFactors [1, sizeToAlign]
    (getFactors sqrt (totalSize / sizeToAlign) (originShape.length - 2))

def getShapeCastExpandedShapeKeepDimC (originShape : List ℕ) : Except Fault (Option (List ℕ)) :=
  let batch := originShape.getD Act.N 0
  let channelSize := originShape.getD Act.C 0
  let hwSize := originShape.getD Act.H 0 * originShape.getD Act.W 0
  let factor := sizeToAlign / channelSize
  if originShape = [] then .ok none
  else if factor = 0 then .ok none
  else if sizeToAlign % channelSize = 0 ∧ hwSize % factor = 0 then
    withFactors [batch, sizeToAlign] (getFactors sqrt (hwSize / factor) 2)
  else if hwSize % sizeToAlign = 0 then
    withFactors [batch, channelSize * sizeToAlign] (getFactors sqrt (hwSize / sizeToAlign) 2)
  else .ok none

/-- The first loop: the window of three factors moves on while its product stays small. -/
def mergeSmall (x y z : ℕ) : List ℕ → ℕ × ℕ × ℕ × List ℕ
  | [] => (x, y, z, [])
  | w :: rest => if x * z < 16 then mergeSmall y (x * z) w rest else (x, y, z, w :: rest)

/-- The second loop, while the channels are too many. -/
def mergeLarge (channel x y z : ℕ) : List ℕ → ℕ × ℕ × ℕ
  | [] => (channel, y, x)
  | w :: rest =>
    if channel > VPU_DIMENSION_LIMIT then mergeLarge (channel / z) y (x * z) w rest
    else (channel, y, x)

/-- Channels, height and width from the prime factors. -/
def splitFactors : List ℕ → ℕ × ℕ × ℕ
  | [] => (1, 1, 1)
  | [f] => (f, 1, 1)
  | [f, f'] => (f', f, 1)
  | x :: y :: z :: rest =>
    let (x, y, z, rest) := mergeSmall x y z rest
    mergeLarge ((z :: rest).prod) x y z rest

def getShapeCastExpandedShapeCanNotAlign (inputShape : List ℕ) : Option (List ℕ) :=
  let totalSize := inputShape.prod
  if inputShape = [] then none
  else if totalSize % sizeToAlign = 0 then none
  else
    let (c, h, w) := splitFactors (getPrimeFactors totalSize)
    if [1, c, h, w] = inputShape then none else some [1, c, h, w]

end Casts

/-- No memory is accessed out of its bounds, and the new shape, if there is one, is as it should
be. -/
def Casts (good : List ℕ → Prop) (result : Except Fault (Option (List ℕ))) : Prop :=
  ∃ cast, result = .ok cast ∧ ∀ newShape ∈ cast, good newShape

section Casts

variable {good good' : List ℕ → Prop} {newShape : List ℕ}

theorem casts_some : Casts good (.ok (some newShape)) ↔ good newShape := by
  simp [Casts]

theorem casts_none : Casts good (.ok none) := ⟨none, rfl, by simp⟩

theorem not_casts_error {fault : Fault} : ¬ Casts good (.error fault) := by
  simp [Casts]

end Casts

/-- What a cast to a new shape has to keep. -/
structure KeepsSize (sizeToAlign : ℕ) (dims shape newShape : List ℕ) : Prop where
  total : newShape.prod = shape.prod
  pos : ∀ size ∈ newShape, 0 < size
  aligned : ∀ d ∈ dims, sizeToAlign ∣ newShape.getD d 0

open Nat

section Factors

variable {sqrt : ℕ → ℕ} {total : ℕ}

theorem getFactorsFrom_eq {k : ℕ} (hk : 0 < k) :
    ∃ i, IsGreatest {d | d ∣ total ∧ d ≤ k} i ∧ getFactorsFrom total k = some [total / i, i] := by
  induction k with
  | zero => exact absurd hk (lt_irrefl 0)
  | succ k ih =>
    rw [getFactorsFrom]
    split_ifs with hdvd
    · exact ⟨k + 1, ⟨⟨Nat.dvd_of_mod_eq_zero hdvd, le_rfl⟩, fun d hd => hd.2⟩, rfl⟩
    · have hpos : 0 < k := by
        by_contra hzero
        obtain rfl : k = 0 := by omega
        exact hdvd (mod_one total)
      obtain ⟨i, ⟨hi, hmax⟩, heq⟩ := ih hpos
      refine ⟨i, ⟨⟨hi.1, le_succ_of_le hi.2⟩, fun d hd => hmax ⟨hd.1, ?_⟩⟩, heq⟩
      have hne : d ≠ k + 1 := by
        rintro rfl
        exact hdvd (mod_eq_zero_of_dvd hd.1)
      have := hd.2
      omega

theorem getFactors_eq (hsqrt : ∀ n, 0 < n → 0 < sqrt n) (htotal : 0 < total) {num : ℕ}
    (hnum : num = 0 ∨ num = 2) : ∃ i, IsGreatest {d | d ∣ total ∧ d ≤ sqrt total} i ∧
      getFactors sqrt total num = some [total / i, i] := by
  obtain ⟨i, hi, heq⟩ := @getFactorsFrom_eq total _ (hsqrt total htotal)
  refine ⟨i, hi, ?_⟩
  rw [getFactors, if_neg (by omega), if_neg (by omega), heq]

theorem prod_primeFactorsFrom (k n : ℕ) : (primeFactorsFrom k n).prod = n := by
  fun_induction primeFactorsFrom k n with
  | case1 k n hlt hdvd ih =>
    rw [List.prod_cons, ih, Nat.mul_div_cancel' (Nat.dvd_of_mod_eq_zero hdvd)]
  | case2 k n hlt hdvd ih => exact ih
  | case3 k n hlt => rw [List.prod_singleton]

theorem prod_mergeSmall (x y z : ℕ) (rest : List ℕ) :
    let r := mergeSmall x y z rest
    r.1 * r.2.1 * (r.2.2.1 * r.2.2.2.prod) = x * y * (z * rest.prod) := by
  induction rest generalizing x y z with
  | nil => rfl
  | cons w rest ih =>
    rw [mergeSmall]
    split_ifs with hsmall
    · dsimp only at ih ⊢
      rw [ih, List.prod_cons]
      ring
    · rfl

theorem prod_mergeLarge {x y z : ℕ} {rest : List ℕ} (h : 0 < z * rest.prod) :
    let r := mergeLarge (z * rest.prod) x y z rest
    r.1 * r.2.1 * r.2.2 = x * y * (z * rest.prod) := by
  induction rest generalizing x y z with
  | nil =>
    dsimp only [mergeLarge]
    ring
  | cons w rest ih =>
    rw [List.prod_cons] at h ⊢
    rw [mergeLarge]
    split_ifs with hlarge
    · have hrest := @ih y (x * z) w (Nat.pos_of_mul_pos_left h)
      rw [Nat.mul_div_cancel_left _ (Nat.pos_of_mul_pos_right h)]
      dsimp only at hrest ⊢
      rw [hrest]
      ring
    · ring

theorem prod_splitFactors {factors : List ℕ} (h : 0 < factors.prod) :
    let r := splitFactors factors
    r.1 * r.2.1 * r.2.2 = factors.prod := by
  match factors with
  | [] => rfl
  | [f] => simp [splitFactors]
  | [f, f'] => simp [splitFactors, mul_comm]
  | x :: y :: z :: rest =>
    have hsmall := prod_mergeSmall x y z rest
    rw [splitFactors]
    generalize mergeSmall x y z rest = r at hsmall ⊢
    obtain ⟨x', y', z', rest'⟩ := r
    have hall : (x :: y :: z :: rest).prod = x * y * (z * rest.prod) := by
      simp only [List.prod_cons, mul_assoc]
    rw [hall] at h ⊢
    dsimp only at hsmall ⊢
    rw [List.prod_cons, prod_mergeLarge (Nat.pos_of_mul_pos_left (hsmall ▸ h)), hsmall]

end Factors

section FillDims

variable {sizeToAlign : ℕ} {dims indices factors rest : List ℕ}

/-- What the sizes behind the batch are when there are enough factors. -/
structure Fills (sizeToAlign : ℕ) (dims indices factors rest : List ℕ) : Prop where
  prod : rest.prod = sizeToAlign ^ indices.countP (· ∈ dims) *
    (factors.take (indices.countP (· ∉ dims))).prod
  pos : 0 < sizeToAlign → (∀ f ∈ factors, 0 < f) → ∀ size ∈ rest, 0 < size
  aligned : ∀ j (hj : j < indices.length), indices[j] ∈ dims → rest.getD j 0 = sizeToAlign

theorem fillDims_short (h : factors.length < indices.countP (· ∉ dims)) :
    fillDims sizeToAlign dims indices factors = .error .overread := by
  induction indices generalizing factors with
  | nil => simp at h
  | cons index indices ih =>
    unfold fillDims
    by_cases hin : index ∈ dims
    · rw [if_pos hin, ih (by simpa [List.countP_cons, hin] using h)]
      rfl
    · rw [if_neg hin]
      cases factors with
      | nil => rfl
      | cons factor factors =>
        dsimp only
        rw [ih (by simpa [List.countP_cons, hin] using h)]
        rfl

theorem fillDims_fills (h : indices.countP (· ∉ dims) ≤ factors.length) :
    ∃ rest, fillDims sizeToAlign dims indices factors = .ok rest ∧
      Fills sizeToAlign dims indices factors rest := by
  induction indices generalizing factors with
  | nil => exact ⟨[], rfl, by simp, by simp, by simp⟩
  | cons index indices ih =>
    unfold fillDims
    by_cases hin : index ∈ dims
    · rw [List.countP_cons_of_neg (by simpa using hin)] at h
      obtain ⟨rest, heq, hrest⟩ := ih h
      rw [if_pos hin, heq]
      refine ⟨sizeToAlign :: rest, rfl, ?_, fun ha hf => ?_, fun j hj hmem => ?_⟩
      · rw [List.prod_cons, hrest.prod, List.countP_cons_of_pos (by simpa using hin),
          List.countP_cons_of_neg (by simpa using hin)]
        ring
      · simpa [ha] using hrest.pos ha hf
      · cases j with
        | zero => rfl
        | succ j => exact hrest.aligned j (by simpa using hj) hmem
    · rw [List.countP_cons_of_pos (by simpa using hin)] at h
      cases factors with
      | nil => simp at h
      | cons factor factors =>
        obtain ⟨rest, heq, hrest⟩ := ih (le_of_succ_le_succ h)
        rw [if_neg hin]
        dsimp only
        rw [heq]
        refine ⟨factor :: rest, rfl, ?_, fun ha hf => ?_, fun j hj hmem => ?_⟩
        · rw [List.prod_cons, hrest.prod, List.countP_cons_of_neg (by simpa using hin),
            List.countP_cons_of_pos (by simpa using hin), List.take_succ_cons, List.prod_cons]
          ring
        · obtain ⟨hfactor, hfactors⟩ := List.forall_mem_cons.mp hf
          exact List.forall_mem_cons.mpr ⟨hfactor, hrest.pos ha hfactors⟩
        · cases j with
          | zero => exact absurd hmem hin
          | succ j => exact hrest.aligned j (by simpa using hj) hmem

end FillDims

section KeepsSize

variable {sqrt : ℕ → ℕ} {sizeToAlign n c h w : ℕ}

theorem keepsSize_withFactors (hsqrt : ∀ n, 0 < n → 0 < sqrt n) {batch channels rest : ℕ}
    {shape : List ℕ} (hbatch : 0 < batch) (hchannels : 0 < channels) (hrest : 0 < rest)
    (hprod : batch * channels * rest = shape.prod) (haligned : sizeToAlign ∣ channels) :
    Casts (KeepsSize sizeToAlign [Act.C] shape)
      (withFactors [batch, channels] (getFactors sqrt rest 2)) := by
  obtain ⟨i, ⟨⟨hdvd, -⟩, -⟩, heq⟩ := getFactors_eq hsqrt hrest (Or.inr rfl)
  rw [heq]
  refine casts_some.mpr ⟨?_, ?_, ?_⟩
  · rw [← hprod, ← Nat.div_mul_cancel hdvd, Nat.div_mul_cancel hdvd]
    simp [mul_assoc, Nat.div_mul_cancel hdvd]
  · have hi := pos_of_dvd_of_pos hdvd hrest
    simp [hbatch, hchannels, hi, div_pos (le_of_dvd hrest hdvd) hi]
  · simpa [Act.C] using haligned

section

variable (hsqrt : ∀ n, 0 < n → 0 < sqrt n) (halign : 0 < sizeToAlign)
  (hshape : 0 < [n, c, h, w].prod)
include hsqrt halign hshape

theorem inDimC_keepsSize : Casts (KeepsSize sizeToAlign [Act.C] [n, c, h, w])
    (getShapeCastExpandedShapeInDimC sqrt sizeToAlign [n, c, h, w]) := by
  rw [getShapeCastExpandedShapeInDimC, if_neg (by simp)]
  split_ifs with hmod
  · exact casts_none
  · have hdvd := Nat.dvd_of_mod_eq_zero (not_not.mp hmod)
    refine keepsSize_withFactors hsqrt one_pos halign
      (div_pos (le_of_dvd hshape hdvd) halign) ?_ (dvd_refl _)
    rw [one_mul, Nat.mul_div_cancel' hdvd]

theorem keepDimC_keepsSize : Casts (KeepsSize sizeToAlign [Act.C] [n, c, h, w])
    (getShapeCastExpandedShapeKeepDimC sqrt sizeToAlign [n, c, h, w]) := by
  have hprod : [n, c, h, w].prod = n * c * (h * w) := by simp [mul_assoc]
  rw [hprod] at hshape
  have hn := Nat.pos_of_mul_pos_right (Nat.pos_of_mul_pos_right hshape)
  have hc := Nat.pos_of_mul_pos_left (Nat.pos_of_mul_pos_right hshape)
  have hhw := Nat.pos_of_mul_pos_left hshape
  rw [getShapeCastExpandedShapeKeepDimC]
  simp only [Act.N, Act.C, Act.H, Act.W, List.getD_cons_zero, List.getD_cons_succ]
  rw [if_neg (by simp)]
  split_ifs with hfactor hkeep hspread
  · exact casts_none
  · have hdvd := Nat.dvd_of_mod_eq_zero hkeep.2
    refine keepsSize_withFactors hsqrt hn halign
      (div_pos (le_of_dvd hhw hdvd) (pos_of_ne_zero hfactor)) ?_ (dvd_refl _)
    have hchannels := Nat.mul_div_cancel' (Nat.dvd_of_mod_eq_zero hkeep.1)
    have hsizes := Nat.mul_div_cancel' hdvd
    calc n * sizeToAlign * (h * w / (sizeToAlign / c))
        = n * (c * (sizeToAlign / c)) * (h * w / (sizeToAlign / c)) := by rw [hchannels]
      _ = n * c * (sizeToAlign / c * (h * w / (sizeToAlign / c))) := by ring
      _ = [n, c, h, w].prod := by rw [hsizes, hprod]
  · have hdvd := Nat.dvd_of_mod_eq_zero hspread
    refine keepsSize_withFactors hsqrt hn (mul_pos hc halign)
      (div_pos (le_of_dvd hhw hdvd) halign) ?_ (dvd_mul_left _ _)
    rw [hprod, ← mul_assoc, mul_assoc (n * c), Nat.mul_div_cancel' hdvd]
  · exact casts_none

end

theorem canNotAlign_keepsSize {newShape : List ℕ} (hshape : 0 < [n, c, h, w].prod)
    (hcast : getShapeCastExpandedShapeCanNotAlign sizeToAlign [n, c, h, w] = some newShape) :
    KeepsSize sizeToAlign [] [n, c, h, w] newShape := by
  have hfactors : (getPrimeFactors [n, c, h, w].prod).prod = [n, c, h, w].prod :=
    prod_primeFactorsFrom 0 _
  have hsplit := prod_splitFactors (hfactors.symm ▸ hshape)
  rw [hfactors] at hsplit
  rw [getShapeCastExpandedShapeCanNotAlign] at hcast
  dsimp only at hcast hsplit
  rw [if_neg (by simp)] at hcast
  generalize splitFactors (getPrimeFactors [n, c, h, w].prod) = r at hcast hsplit
  obtain ⟨c', h', w'⟩ := r
  split_ifs at hcast
  obtain rfl := Option.some.inj hcast
  rw [← hsplit] at hshape
  refine ⟨?_, ?_, by simp⟩
  · rw [← hsplit]
    simp [mul_assoc]
  · have hpair := Nat.pos_of_mul_pos_right hshape
    simp [Nat.pos_of_mul_pos_left hshape, Nat.pos_of_mul_pos_right hpair,
      Nat.pos_of_mul_pos_left hpair]

end KeepsSize

section ExpandedShape

variable {sqrt : ℕ → ℕ} {sizeToAlign n c h w : ℕ} {dims factors : List ℕ}

theorem length_filter_range (p : ℕ → Bool) (h : dims = (List.range 4).filter p) :
    dims.length = (if Act.N ∈ dims then 1 else 0) + [1, 2, 3].countP (· ∈ dims) := by
  subst h
  cases h0 : p 0 <;> cases h1 : p 1 <;> cases h2 : p 2 <;> cases h3 : p 3 <;>
    simp [List.range_succ, List.filter, Act.N, h0, h1, h2, h3]

theorem keepsSize_of_fills {rest : List ℕ} (hn : 0 < n) (halign : 0 < sizeToAlign)
    (hfactors : ∀ f ∈ factors, 0 < f) (hdims : ∀ d ∈ dims, d < 4)
    (hrest : Fills sizeToAlign dims [1, 2, 3] factors rest) :
    KeepsSize sizeToAlign dims [n, c, h, w] (n :: rest) ↔
      n * rest.prod = [n, c, h, w].prod ∧ (Act.N ∈ dims → sizeToAlign ∣ n) := by
  constructor
  · intro hkeeps
    exact ⟨by simpa using hkeeps.total, fun hmem => by simpa [Act.N] using hkeeps.aligned _ hmem⟩
  · rintro ⟨htotal, hbatch⟩
    refine ⟨by simpa using htotal,
      List.forall_mem_cons.mpr ⟨hn, hrest.pos halign hfactors⟩, fun d hd => ?_⟩
    rcases Nat.eq_zero_or_pos d with rfl | hpos
    · exact hbatch hd
    · obtain ⟨d, rfl⟩ := exists_eq_add_one_of_ne_zero (ne_of_gt hpos)
      have hlt := hdims _ hd
      have hindex : [1, 2, 3].get ⟨d, by simp; omega⟩ = d + 1 := by
        match d, hlt with
        | 0, _ => rfl
        | 1, _ => rfl
        | 2, _ => rfl
      rw [List.getD_cons_succ, hrest.aligned d (by simp; omega) (hindex.symm ▸ hd)]

theorem cast_keepsSize_iff (hn : 0 < n) (halign : 0 < sizeToAlign)
    (hfactors : ∀ f ∈ factors, 0 < f) (hdims : ∀ d ∈ dims, d < 4) :
    Casts (KeepsSize sizeToAlign dims [n, c, h, w]) (do
        let rest ← fillDims sizeToAlign dims [1, 2, 3] factors
        return some (n :: rest)) ↔
    [1, 2, 3].countP (· ∉ dims) ≤ factors.length ∧
      n * (sizeToAlign ^ [1, 2, 3].countP (· ∈ dims) *
        (factors.take ([1, 2, 3].countP (· ∉ dims))).prod) = [n, c, h, w].prod ∧
      (Act.N ∈ dims → sizeToAlign ∣ n) := by
  by_cases hfree : [1, 2, 3].countP (· ∉ dims) ≤ factors.length
  · obtain ⟨rest, heq, hrest⟩ := @fillDims_fills sizeToAlign _ _ _ hfree
    have hkeeps := @keepsSize_of_fills _ _ c h w _ _ rest hn halign hfactors hdims hrest
    rw [hrest.prod] at hkeeps
    rw [heq, and_iff_right hfree, ← hkeeps]
    exact casts_some
  · rw [fillDims_short (Nat.lt_of_not_le hfree)]
    exact iff_of_false not_casts_error fun hall => hfree hall.1

/-- When there are factors for all sizes and these multiply to those of the shape, by how many
dimensions are aligned. -/
def CountsBatchOnce (sqrt : ℕ → ℕ) (sizeToAlign : ℕ) (dims : List ℕ) (n c h w : ℕ) : Prop :=
  sizeToAlign ^ dims.length ∣ n * c * h * w →
    if Act.N ∈ dims then 2 < dims.length ∧ (dims.length = 3 → ∃ i, n = sizeToAlign * i ∧
      IsGreatest {d | d ∣ n * c * h * w / sizeToAlign ^ 3 ∧
        d ≤ sqrt (n * c * h * w / sizeToAlign ^ 3)} i)
    else (dims.length = 1 ∨ dims.length = 2 → n = 1) ∧
      (dims.length = 3 → c * h * w = sizeToAlign ^ 3)

section Casts

variable {inOrder outOrder : DimsOrder} {expandedShape : List ℕ}

theorem getShapeCastExpandedShape_eq (halign : 0 < sizeToAlign)
    (hrank : expandedShape.length = 4)
    (hdims : dims = dimsToAlign sizeToAlign inOrder outOrder expandedShape [n, c, h, w]) {r : ℕ}
    (hr : [n, c, h, w].prod = sizeToAlign ^ dims.length * r) :
    getShapeCastExpandedShape sqrt sizeToAlign inOrder outOrder expandedShape [n, c, h, w] =
      match getFactors sqrt r ((3 + 2 ^ 64 - dims.length) % 2 ^ 64) with
      | none => .ok none
      | some factors => do
        let rest ← fillDims sizeToAlign dims [1, 2, 3] factors
        return some (n :: rest) := by
  unfold getShapeCastExpandedShape
  rw [← hdims, hrank, hr]
  rw [if_neg (by simp), if_neg (not_not.mpr (mul_mod_right _ _)),
    Nat.mul_div_cancel_left r (Nat.pow_pos halign)]
  rfl

theorem expandedShape_keepsSize_iff (hsqrt : ∀ n, 0 < n → 0 < sqrt n) (halign : 0 < sizeToAlign)
    (hrank : expandedShape.length = 4) (hshape : 0 < [n, c, h, w].prod)
    (hdims : dims = dimsToAlign sizeToAlign inOrder outOrder expandedShape [n, c, h, w]) :
    Casts (KeepsSize sizeToAlign dims [n, c, h, w])
        (getShapeCastExpandedShape sqrt sizeToAlign inOrder outOrder expandedShape [n, c, h, w]) ↔
      CountsBatchOnce sqrt sizeToAlign dims n c h w := by
  have htotal : [n, c, h, w].prod = n * c * h * w := by simp [mul_assoc]
  have hchw : n * c * h * w = n * (c * h * w) := by ring
  have hn : 0 < n := Nat.pos_of_mul_pos_right (hchw ▸ htotal ▸ hshape)
  have hlt : ∀ d ∈ dims, d < 4 := by
    intro d hd
    rw [hdims, dimsToAlign, hrank] at hd
    exact List.mem_range.mp (List.mem_filter.mp hd).1
  have hlen := length_filter_range _ (hdims.trans (by rw [dimsToAlign, hrank]))
  have hfree : 3 = [1, 2, 3].countP (· ∈ dims) + [1, 2, 3].countP (· ∉ dims) := by
    simpa using @List.length_eq_countP_add_countP _ (fun d => decide (d ∈ dims)) [1, 2, 3]
  rw [CountsBatchOnce]
  by_cases hdvd : sizeToAlign ^ dims.length ∣ n * c * h * w
  swap
  · refine iff_of_true ?_ fun hd => absurd hd hdvd
    unfold getShapeCastExpandedShape
    rw [← hdims]
    dsimp only
    rw [if_neg (by simp), if_pos (mt Nat.dvd_of_mod_eq_zero (htotal.symm ▸ hdvd))]
    exact casts_none
  obtain ⟨r, hr⟩ := hdvd
  have hrpos : 0 < r := Nat.pos_of_mul_pos_left (hr ▸ htotal ▸ hshape)
  have hcast := @cast_keepsSize_iff sizeToAlign n c h w dims
  rw [getShapeCastExpandedShape_eq halign hrank hdims (htotal.trans hr)]
  obtain ⟨i, hi, heq⟩ := getFactors_eq hsqrt hrpos (Or.inl rfl)
  obtain ⟨j, hj, heq'⟩ := getFactors_eq hsqrt hrpos (Or.inr rfl)
  have hfactors : ∀ d, d ∣ r → ∀ f ∈ [r / d, d], 0 < f := by
    intro d hd
    have hdpos := pos_of_dvd_of_pos hd hrpos
    simp [hdpos, div_pos (le_of_dvd hrpos hd) hdpos]
  have hmany : ∀ num, num > 2 → getFactors sqrt r num = none := by
    intro num hnum
    rw [getFactors, if_neg (by omega), if_pos hnum]
  have hpow : ∀ e, 0 < sizeToAlign ^ e := fun e => Nat.pow_pos halign
  by_cases hbatch : Act.N ∈ dims
  · rw [if_pos hbatch] at hlen ⊢
    obtain hk | hk | hk | hk : dims.length = 1 ∨ dims.length = 2 ∨ dims.length = 3 ∨
        dims.length = 4 := by omega
    · rw [hk, show (3 + 2 ^ 64 - 1) % 2 ^ 64 = 2 by norm_num, heq']
      refine (hcast hn halign (hfactors j hj.1.1) hlt).trans (iff_of_false (fun hall => ?_) ?_)
      · have hle := hall.1
        simp only [List.length_cons, List.length_nil] at hle
        omega
      · exact fun hcounts => absurd (hcounts ⟨r, hk ▸ hr⟩).1 (by omega)
    · rw [hk, show (3 + 2 ^ 64 - 2) % 2 ^ 64 = 1 by norm_num]
      refine (hcast hn halign (List.forall_mem_singleton.mpr hrpos) hlt).trans
        (iff_of_false (fun hall => ?_) ?_)
      · have hle := hall.1
        simp only [List.length_cons, List.length_nil] at hle
        omega
      · exact fun hcounts => absurd (hcounts ⟨r, hk ▸ hr⟩).1 (by omega)
    · have hfront : [1, 2, 3].countP (· ∈ dims) = 2 := by omega
      have hback : [1, 2, 3].countP (· ∉ dims) = 1 := by omega
      rw [hk] at hr ⊢
      rw [show (3 + 2 ^ 64 - 3) % 2 ^ 64 = 0 by
        norm_num, heq, hr, Nat.mul_div_cancel_left r (hpow 3)]
      refine (hcast hn halign (hfactors i hi.1.1) hlt).trans ?_
      have hdiv : i * (r / i) = r := Nat.mul_div_cancel' hi.1.1
      have hcube : sizeToAlign ^ 3 * r = sizeToAlign * i * (sizeToAlign ^ 2 * (r / i)) := by
        rw [← hdiv, Nat.mul_div_cancel_left _ (pos_of_dvd_of_pos hi.1.1 hrpos)]
        ring
      rw [hfront, hback, htotal, hr, hcube]
      simp only [List.length_cons, List.take_succ_cons, List.take_zero, List.prod_singleton]
      constructor
      · rintro ⟨-, hprod, -⟩ _
        exact ⟨by omega, fun _ => ⟨i, eq_of_mul_eq_mul_right
          (mul_pos (hpow 2) (hfactors i hi.1.1 _ List.mem_cons_self)) hprod, hi⟩⟩
      · intro hall
        obtain ⟨i', hn', hi'⟩ := (hall (hcube ▸ dvd_mul_right _ r)).2 trivial
        rw [hi'.unique hi] at hn'
        exact ⟨by omega, by rw [← hn'], fun _ => Dvd.intro i hn'.symm⟩
    · rw [hk, show (3 + 2 ^ 64 - 4) % 2 ^ 64 = 2 ^ 64 - 1 by norm_num, hmany _ (by norm_num)]
      exact iff_of_true casts_none fun _ => ⟨by omega, by omega⟩
  · rw [if_neg hbatch] at hlen ⊢
    have hsame : ∀ e, n * (sizeToAlign ^ e * r) = sizeToAlign ^ e * r ↔ n = 1 := by
      intro e
      rw [mul_eq_right (mul_pos (hpow e) hrpos).ne']
    obtain hk | hk | hk | hk : dims.length = 0 ∨ dims.length = 1 ∨ dims.length = 2 ∨
        dims.length = 3 := by omega
    · rw [hk, show (3 + 2 ^ 64 - 0) % 2 ^ 64 = 3 by norm_num, hmany _ (by norm_num)]
      exact iff_of_true casts_none fun _ => ⟨by omega, by omega⟩
    · have hfront : [1, 2, 3].countP (· ∈ dims) = 1 := by omega
      have hback : [1, 2, 3].countP (· ∉ dims) = 2 := by omega
      rw [hk] at hr ⊢
      rw [show (3 + 2 ^ 64 - 1) % 2 ^ 64 = 2 by norm_num, heq']
      refine (hcast hn halign (hfactors j hj.1.1) hlt).trans ?_
      have hprod : ([r / j, j].take 2).prod = r := by simp [Nat.div_mul_cancel hj.1.1]
      rw [hfront, hback, htotal, hr, hprod, hsame]
      simp [hbatch]
    · have hfront : [1, 2, 3].countP (· ∈ dims) = 2 := by omega
      have hback : [1, 2, 3].countP (· ∉ dims) = 1 := by omega
      rw [hk] at hr ⊢
      refine (hcast hn halign (List.forall_mem_singleton.mpr hrpos) hlt).trans ?_
      have hprod : ([r].take 1).prod = r := by simp
      rw [hfront, hback, htotal, hr, hprod, hsame]
      simp [hbatch]
    · have hfront : [1, 2, 3].countP (· ∈ dims) = 3 := by omega
      have hback : [1, 2, 3].countP (· ∉ dims) = 0 := by omega
      rw [hk] at hr ⊢
      rw [show (3 + 2 ^ 64 - 3) % 2 ^ 64 = 0 by norm_num, heq]
      refine (hcast hn halign (hfactors i hi.1.1) hlt).trans ?_
      rw [hfront, hback, htotal, List.take_zero, List.prod_nil, mul_one]
      have hcube : n * sizeToAlign ^ 3 = n * c * h * w ↔ c * h * w = sizeToAlign ^ 3 := by
        rw [hchw, Nat.mul_right_inj hn.ne', eq_comm]
      rw [hcube, hr]
      simp [hbatch]

end Casts

/-- The casts of a shape of four dimensions keep its size. -/
structure CastsKeepSize (sqrt : ℕ → ℕ) (sizeToAlign : ℕ) (inOrder outOrder : DimsOrder)
    (expandedShape shape : List ℕ) : Prop where
  expandedShape : Casts (KeepsSize sizeToAlign
      (dimsToAlign sizeToAlign inOrder outOrder expandedShape shape) shape)
    (getShapeCastExpandedShape sqrt sizeToAlign inOrder outOrder expandedShape shape)
  inDimC : Casts (KeepsSize sizeToAlign [Act.C] shape)
    (getShapeCastExpandedShapeInDimC sqrt sizeToAlign shape)
  keepDimC : Casts (KeepsSize sizeToAlign [Act.C] shape)
    (getShapeCastExpandedShapeKeepDimC sqrt sizeToAlign shape)
  canNotAlign : ∀ newShape, getShapeCastExpandedShapeCanNotAlign sizeToAlign shape =
    some newShape → KeepsSize sizeToAlign [] shape newShape

/-- The casts keep the size exactly when the first of them counts the batch once. -/
theorem castsKeepSize_iff (sqrt : ℕ → ℕ) (hsqrt : ∀ n, 0 < n → 0 < sqrt n) (sizeToAlign : ℕ)
    (halign : 0 < sizeToAlign) (inOrder outOrder : DimsOrder) (expandedShape : List ℕ)
    (hrank : expandedShape.length = 4) (n c h w : ℕ) (hshape : ∀ size ∈ [n, c, h, w], 0 < size) :
    CastsKeepSize sqrt sizeToAlign inOrder outOrder expandedShape [n, c, h, w] ↔
      CountsBatchOnce sqrt sizeToAlign
        (dimsToAlign sizeToAlign inOrder outOrder expandedShape [n, c, h, w]) n c h w := by
  have hprod := List.prod_pos hshape
  have hiff := @expandedShape_keepsSize_iff sqrt sizeToAlign n c h w _ inOrder outOrder _ hsqrt
    halign hrank hprod rfl
  constructor
  · intro hcasts
    exact hiff.mp hcasts.expandedShape
  · intro hcounts
    exact ⟨hiff.mpr hcounts, inDimC_keepsSize hsqrt halign hprod,
      keepDimC_keepsSize hsqrt halign hprod, fun _ => canNotAlign_keepsSize hprod⟩

theorem castsKeepSize_iff_images :
    CastsKeepSize Nat.sqrt 16 .NHWC .NHWC [1, 16, 512, 512] [1, 3, 512, 512] ↔
      CountsBatchOnce Nat.sqrt 16 (dimsToAlign 16 .NHWC .NHWC [1, 16, 512, 512] [1, 3, 512, 512])
        1 3 512 512 :=
  castsKeepSize_iff Nat.sqrt (fun _ => Nat.sqrt_pos.mpr) 16 (by decide) .NHWC .NHWC
    [1, 16, 512, 512] rfl 1 3 512 512 (by decide)

/-- A batch of two is counted twice. -/
theorem not_castsKeepSize_batch :
    ¬ CastsKeepSize Nat.sqrt 16 .NHWC .NHWC [2, 16, 1, 1] [2, 16, 1, 1] := by
  intro hcasts
  have hcast : getShapeCastExpandedShape Nat.sqrt 16 .NHWC .NHWC [2, 16, 1, 1] [2, 16, 1, 1] =
      .ok (some [2, 16, 2, 1]) := by decide +kernel
  have hkeeps := hcasts.expandedShape
  rw [hcast, casts_some] at hkeeps
  exact absurd hkeeps.total (by decide)

/-- When only the batch is expanded, two factors are there for three sizes. -/
example : getShapeCastExpandedShape Nat.sqrt 16 .NHWC .NHWC [2, 3, 4, 4] [1, 3, 4, 4] =
    .error .overread := by
  decide +kernel

end ExpandedShape

end Vpux.IE.ShapeCast
