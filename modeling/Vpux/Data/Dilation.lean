import Mathlib.Data.List.Induction
import Vpux.Data.RowMajor

/-! Numbers in a mixed radix whose digits are spread out, and when two such radices spread all
numbers in the same way. A digit has a size and a step, and the list starts with the lowest one. -/
namespace Vpux.Data

/-- The room that a digit takes when its values are a step apart. -/
def spreadSize (size step : ℕ) : ℕ := (size - 1) * step + 1

/-- The number whose digits are those of `n`, each a step apart. -/
def spread : List (ℕ × ℕ) → ℕ → ℕ
  | [], _ => 0
  | (size, step) :: digits, n =>
    n % size * step + spreadSize size step * spread digits (n / size)

def numbers (digits : List (ℕ × ℕ)) : ℕ := (digits.map Prod.fst).prod

/-- A digit that stays as it is, put together with the next one when that does as well. -/
def mergeStill (size : ℕ) : List (ℕ × ℕ) → List (ℕ × ℕ)
  | [] => [(size, 1)]
  | d :: digits => if d.2 = 1 then (size * d.1, 1) :: digits else (size, 1) :: d :: digits

/-- Digits of one value left out, and neighbours that stay as they are put together. -/
def mergeDigits : List (ℕ × ℕ) → List (ℕ × ℕ)
  | [] => []
  | d :: digits =>
    if d.1 = 1 then mergeDigits digits
    else if d.2 = 1 then mergeStill d.1 (mergeDigits digits)
    else d :: mergeDigits digits

/-- The digits of a radix: a value at least, at least a step apart. -/
def IsRadix (digits : List (ℕ × ℕ)) : Prop := ∀ d ∈ digits, 0 < d.1 ∧ 0 < d.2

/-- No digit of one value, and no two neighbours that stay as they are. -/
def IsMerged : List (ℕ × ℕ) → Prop
  | [] => True
  | d :: digits =>
    2 ≤ d.1 ∧ 0 < d.2 ∧ (d.2 = 1 → ∀ d' ∈ digits.head?, d'.2 ≠ 1) ∧ IsMerged digits

open Nat

section Merge

variable {digits : List (ℕ × ℕ)}

theorem spreadSize_one (size : ℕ) (h : 0 < size) : spreadSize size 1 = size := by
  unfold spreadSize
  omega

theorem numbers_cons (d : ℕ × ℕ) (digits : List (ℕ × ℕ)) :
    numbers (d :: digits) = d.1 * numbers digits := by
  rfl

theorem spread_still {size : ℕ} (h : 0 < size) (digits : List (ℕ × ℕ)) (n : ℕ) :
    spread ((size, 1) :: digits) n = n % size + size * spread digits (n / size) := by
  rw [spread, spreadSize_one size h, mul_one]

theorem mergeStill_spec {size : ℕ} (hsize : 2 ≤ size) (h : IsMerged digits) :
    IsMerged (mergeStill size digits) ∧
      numbers (mergeStill size digits) = size * numbers digits ∧
      ∀ n, spread (mergeStill size digits) n = spread ((size, 1) :: digits) n := by
  have hpos : 0 < size := lt_of_lt_of_le two_pos hsize
  cases digits with
  | nil => exact ⟨⟨hsize, one_pos, by simp, trivial⟩, by simp [mergeStill, numbers], fun _ => rfl⟩
  | cons d digits =>
    obtain ⟨size', step'⟩ := d
    obtain ⟨hsize', hstep', hnext, hrest⟩ := h
    unfold mergeStill
    dsimp only at hsize' hstep' hnext ⊢
    split_ifs with hstill
    · subst hstill
      have hlarge : 2 ≤ size * size' := hsize.trans (Nat.le_mul_of_pos_right size (by omega))
      refine ⟨⟨hlarge, one_pos, hnext, hrest⟩, ?_, fun n => ?_⟩
      · rw [numbers_cons, numbers_cons, mul_assoc]
      · rw [spread_still (by omega), spread_still hpos, spread_still (by omega), mod_mul,
          Nat.div_div_eq_div_mul]
        ring
    · refine ⟨⟨hsize, one_pos, fun _ d' hd' => ?_, hsize', hstep', hnext, hrest⟩, ?_,
        fun _ => rfl⟩
      · rw [List.head?_cons, Option.mem_some_iff] at hd'
        exact hd' ▸ hstill
      · rw [numbers_cons]

theorem mergeDigits_spec (h : IsRadix digits) : IsMerged (mergeDigits digits) ∧
    numbers (mergeDigits digits) = numbers digits ∧
    ∀ n, spread (mergeDigits digits) n = spread digits n := by
  induction digits with
  | nil => exact ⟨trivial, rfl, fun _ => rfl⟩
  | cons d digits ih =>
    obtain ⟨size, step⟩ := d
    obtain ⟨hsize, hstep⟩ : 0 < size ∧ 0 < step := h _ List.mem_cons_self
    obtain ⟨hmerged, hnumbers, hspread⟩ := ih fun d hd => h d (List.mem_cons_of_mem _ hd)
    unfold mergeDigits
    split_ifs with hone hstill
    · subst hone
      refine ⟨hmerged, ?_, fun n => ?_⟩
      · rw [hnumbers, numbers_cons, one_mul]
      · rw [hspread, spread, Nat.mod_one, Nat.div_one, spreadSize]
        simp
    · subst hstill
      obtain ⟨hmerged', hnumbers', hspread'⟩ :=
        mergeStill_spec (show 2 ≤ size by omega) hmerged
      refine ⟨hmerged', ?_, fun n => ?_⟩
      · rw [hnumbers', hnumbers, numbers_cons]
      · rw [hspread', spread, spread, hspread]
    · refine ⟨⟨by omega, hstep, fun heq => absurd heq hstill, hmerged⟩, ?_, fun n => ?_⟩
      · rw [numbers_cons, numbers_cons, hnumbers]
      · rw [spread, spread, hspread]

end Merge

section Unique

variable {digits digits' : List (ℕ × ℕ)}

theorem numbers_pos (h : IsMerged digits) : 0 < numbers digits := by
  induction digits with
  | nil => exact one_pos
  | cons d digits ih =>
    exact mul_pos (lt_of_lt_of_le two_pos h.1) (ih h.2.2.2)

theorem spread_zero (digits : List (ℕ × ℕ)) : spread digits 0 = 0 := by
  induction digits with
  | nil => rfl
  | cons d digits ih => rw [spread, Nat.zero_mod, Nat.zero_div, ih, Nat.zero_mul, Nat.mul_zero]

theorem spread_of_lt {size step n : ℕ} (h : n < size) :
    spread ((size, step) :: digits) n = n * step := by
  rw [spread, mod_eq_of_lt h, div_eq_of_lt h, spread_zero, Nat.mul_zero, add_zero]

theorem spread_mul {size : ℕ} (step : ℕ) (h : 0 < size) (n : ℕ) :
    spread ((size, step) :: digits) (size * n) = spreadSize size step * spread digits n := by
  rw [spread, Nat.mul_mod_right, Nat.mul_div_cancel_left _ h, Nat.zero_mul, Nat.zero_add]

theorem spreadSize_mul_ne {size step step' : ℕ} (hsize : 2 ≤ size) (hstep' : 0 < step')
    (hne : step = 1 → step' ≠ 1) : spreadSize size step * step' ≠ size * step := by
  obtain ⟨m, rfl⟩ : ∃ m, size = m + 1 := ⟨size - 1, by omega⟩
  rw [spreadSize, Nat.add_sub_cancel]
  rcases eq_or_lt_of_le (show 1 ≤ step' from hstep') with hone | htwo
  · intro heq
    rw [← hone, mul_one, succ_mul] at heq
    exact hne (by omega) hone.symm
  · have hlarge : (m * step + 1) * 2 ≤ (m * step + 1) * step' := mul_le_mul_left _ htwo
    have hrow : step ≤ m * step := Nat.le_mul_of_pos_left step (by omega)
    rw [succ_mul m step]
    omega

theorem spread_size_ne {size step : ℕ} (h : IsMerged ((size, step) :: digits))
    (hlt : size < numbers ((size, step) :: digits)) :
    spread ((size, step) :: digits) size ≠ size * step := by
  obtain ⟨hsize, _, hnext, hrest⟩ := h
  cases digits with
  | nil => simp [numbers] at hlt
  | cons d digits =>
    obtain ⟨size', step'⟩ := d
    have hpos : 0 < size := lt_of_lt_of_le two_pos hsize
    have hself : spread ((size, step) :: (size', step') :: digits) (size * 1) =
        spreadSize size step * spread ((size', step') :: digits) 1 := spread_mul step hpos 1
    have hone : spread ((size', step') :: digits) 1 = 1 * step' :=
      spread_of_lt (show 1 < size' from hrest.1)
    rw [mul_one, hone, one_mul] at hself
    rw [hself]
    exact spreadSize_mul_ne hsize hrest.2.1 fun heq => hnext heq (size', step') rfl

theorem eq_of_spread (h : IsMerged digits) (h' : IsMerged digits')
    (hnumbers : numbers digits = numbers digits')
    (heq : ∀ n < numbers digits, spread digits n = spread digits' n) : digits = digits' := by
  induction digits generalizing digits' with
  | nil =>
    cases digits' with
    | nil => rfl
    | cons d' digits' =>
      have hlarge := mul_le_mul h'.1 (numbers_pos h'.2.2.2)
      rw [← numbers_cons, ← hnumbers] at hlarge
      exact absurd hlarge (by simp [numbers])
  | cons d digits ih =>
    cases digits' with
    | nil =>
      have hlarge := mul_le_mul h.1 (numbers_pos h.2.2.2)
      rw [← numbers_cons, hnumbers] at hlarge
      exact absurd hlarge (by simp [numbers])
    | cons d' digits' =>
      obtain ⟨size, step⟩ := d
      obtain ⟨size', step'⟩ := d'
      have hsize : 2 ≤ size := h.1
      have hsize' : 2 ≤ size' := h'.1
      have hle : size ≤ numbers ((size, step) :: digits) :=
        Nat.le_mul_of_pos_right size (numbers_pos h.2.2.2)
      have hle' : size' ≤ numbers ((size', step') :: digits') :=
        Nat.le_mul_of_pos_right size' (numbers_pos h'.2.2.2)
      -- the number one shows the step, and the first number that goes elsewhere the size
      obtain rfl : step = step' := by
        have hone := heq 1 (by omega)
        rwa [spread_of_lt (show 1 < size by omega), spread_of_lt (show 1 < size' by omega),
          one_mul, one_mul] at hone
      have hsame : size = size' := by
        rcases lt_trichotomy size size' with hlt | hsame | hgt
        · have hat := heq size (by omega)
          rw [spread_of_lt hlt] at hat
          exact absurd hat (spread_size_ne h (by omega))
        · exact hsame
        · have hat := heq size' (by omega)
          rw [spread_of_lt hgt] at hat
          exact absurd hat.symm (spread_size_ne h' (by omega))
      subst hsame
      have hrest : digits = digits' := by
        apply ih h.2.2.2 h'.2.2.2 (Nat.eq_of_mul_eq_mul_left (by omega) hnumbers)
        intro n hn
        have hat := heq (size * n) (by
          exact mul_lt_mul_of_pos_left hn (by omega))
        rw [spread_mul step (by omega), spread_mul step (by omega)] at hat
        exact Nat.eq_of_mul_eq_mul_left (Nat.succ_pos _) hat
      rw [hrest]

/-- Two radices send all their numbers to the same places exactly when they are the same once
merged. -/
theorem spread_eq_iff (h : IsRadix digits) (h' : IsRadix digits')
    (hnumbers : numbers digits = numbers digits') :
    (∀ n < numbers digits, spread digits n = spread digits' n) ↔
      mergeDigits digits = mergeDigits digits' := by
  obtain ⟨hmerged, hcount, hspread⟩ := mergeDigits_spec h
  obtain ⟨hmerged', hcount', hspread'⟩ := mergeDigits_spec h'
  constructor
  · intro heq
    apply eq_of_spread hmerged hmerged' (by rw [hcount, hcount', hnumbers])
    intro n hn
    rw [hspread, hspread', heq n (hcount ▸ hn)]
  · intro heq n _
    rw [← hspread, ← hspread', heq]

end Unique

section Points

variable {sizes steps point : List ℕ}

/-- The digits of the positions in a box, the last coordinate the lowest. -/
def digitsOf (sizes steps : List ℕ) : List (ℕ × ℕ) := (List.zip sizes steps).reverse

/-- The sizes of a box whose points are pulled apart. -/
def spreadSizes (sizes steps : List ℕ) : List ℕ := List.zipWith spreadSize sizes steps

def spreadPoint (point steps : List ℕ) : List ℕ := List.zipWith (· * ·) point steps

theorem numbers_digitsOf (h : steps.length = sizes.length) :
    numbers (digitsOf sizes steps) = sizes.prod := by
  rw [numbers, digitsOf, List.map_reverse, List.prod_reverse, List.map_fst_zip h.ge]

theorem isRadix_digitsOf (hsizes : ∀ n ∈ sizes, 0 < n) (hsteps : ∀ d ∈ steps, 0 < d) :
    IsRadix (digitsOf sizes steps) := by
  intro d hd
  have hzip := List.mem_reverse.mp hd
  exact ⟨hsizes _ (List.of_mem_zip hzip).1, hsteps _ (List.of_mem_zip hzip).2⟩

theorem inBox_spreadPoint (hsteps : steps.length = sizes.length) (h : InBox sizes point) :
    InBox (spreadSizes sizes steps) (spreadPoint point steps) := by
  apply inBox_of_getElem (by simp [spreadSizes, spreadPoint, h.length_eq])
  intro d hd hd'
  have hpoint : d < point.length := by
    rw [spreadPoint, List.length_zipWith] at hd
    omega
  have hsizes : d < sizes.length := h.length_eq ▸ hpoint
  have hle := mul_le_mul_right (steps.get ⟨d, hsteps ▸ hsizes⟩)
    (le_sub_one_of_lt (h.getElem_lt hpoint hsizes))
  simp only [spreadPoint, spreadSizes, List.getElem_zipWith, spreadSize]
  exact lt_succ_of_le hle

theorem spreadPoint_injective {point' : List ℕ} (hpos : ∀ d ∈ steps, 0 < d)
    (hpoint : point.length = steps.length) (hpoint' : point'.length = steps.length)
    (heq : spreadPoint point steps = spreadPoint point' steps) : point = point' := by
  apply List.ext_getElem (hpoint.trans hpoint'.symm)
  intro d hd hd'
  have hstep : d < steps.length := hpoint ▸ hd
  have hat := congrArg (·[d]?) heq
  simp only [spreadPoint, List.getElem?_zipWith, List.getElem?_eq_getElem hd,
    List.getElem?_eq_getElem hd', List.getElem?_eq_getElem hstep, Option.some.injEq] at hat
  exact eq_of_mul_eq_mul_right (hpos _ (List.getElem_mem hstep)) hat

/-- Pulling the points of a box apart spreads their positions. -/
theorem spread_rowMajor (hsteps : steps.length = sizes.length) (h : InBox sizes point) :
    spread (digitsOf sizes steps) (rowMajor sizes point) =
      rowMajor (spreadSizes sizes steps) (spreadPoint point steps) := by
  induction sizes using List.reverseRecOn generalizing steps point with
  | nil =>
    rfl
  | append_singleton sizes size ih =>
    obtain ⟨front, i, rfl, hfront, hi⟩ := inBox_concat.mp h
    rcases List.eq_nil_or_concat steps with rfl | ⟨steps, step, rfl⟩
    · simp at hsteps
    · rw [List.concat_eq_append] at hsteps ⊢
      have hlength : steps.length = sizes.length := by simpa using hsteps
      have hdigits : digitsOf (sizes ++ [size]) (steps ++ [step]) =
          (size, step) :: digitsOf sizes steps := by
        rw [digitsOf, List.zip_append hlength.symm, List.reverse_append]
        rfl
      have hpos : rowMajor (sizes ++ [size]) (front ++ [i]) = i + size * rowMajor sizes front := by
        rw [rowMajor_append hfront.length_eq]
        simp [rowMajor, add_comm, mul_comm]
      have hsizes : spreadSizes (sizes ++ [size]) (steps ++ [step]) =
          spreadSizes sizes steps ++ [spreadSize size step] := by
        rw [spreadSizes, List.zipWith_append hlength.symm]
        rfl
      have hpoint : spreadPoint (front ++ [i]) (steps ++ [step]) =
          spreadPoint front steps ++ [i * step] := by
        rw [spreadPoint, List.zipWith_append (hfront.length_eq.trans hlength.symm)]
        rfl
      have hpos' : (spreadPoint front steps).length = (spreadSizes sizes steps).length := by
        simp [spreadPoint, spreadSizes, hfront.length_eq]
      rw [hdigits, spread, hpos, add_mul_mod_self_left, mod_eq_of_lt hi,
        add_mul_div_left _ _ (zero_lt_of_lt hi), div_eq_of_lt hi, Nat.zero_add,
        ih hlength hfront, hsizes, hpoint, rowMajor_append hpos']
      simp [rowMajor, add_comm, mul_comm]

theorem spread_eq_rowMajor (hsteps : steps.length = sizes.length) {n : ℕ} (hn : n < sizes.prod) :
    spread (digitsOf sizes steps) n =
      rowMajor (spreadSizes sizes steps) (spreadPoint (pointAt sizes n) steps) := by
  rw [← spread_rowMajor hsteps (inBox_pointAt (zero_lt_of_lt hn) n), rowMajor_pointAt hn]

end Points

end Vpux.Data
