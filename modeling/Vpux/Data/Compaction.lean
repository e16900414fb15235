import Mathlib.Algebra.BigOperators.Group.List.Basic
import Mathlib.Algebra.Ring.Nat
import Mathlib.Data.List.TakeWhile
import Vpux.Data.Blocks

/-! Taking ranges out of a line of time. What lies apart from the ranges moves closer together
and keeps its order. -/
namespace Vpux.Data

section Compaction

/-- Ranges that are not empty, each after the ones before it. -/
structure Ascending (ranges : List (ℕ × ℕ)) : Prop where
  nonempty : ∀ r ∈ ranges, r.1 < r.2
  sorted : ranges.Pairwise fun r s => r.2 ≤ s.1

/-- The length of the ranges at the front that begin before `x`. -/
def removedBefore (ranges : List (ℕ × ℕ)) (x : ℕ) : ℕ :=
  ((ranges.takeWhile fun r => r.1 < x).map fun r => r.2 - r.1).sum

variable {ranges : List (ℕ × ℕ)} {r : ℕ × ℕ} {p e q : ℕ}

theorem removedBefore_cons_of_lt (h : r.1 < q) :
    removedBefore (r :: ranges) q = r.2 - r.1 + removedBefore ranges q := by
  simp [removedBefore, h]

theorem removedBefore_cons_of_le (h : q ≤ r.1) : removedBefore (r :: ranges) q = 0 := by
  simp [removedBefore, not_lt.mpr h]

namespace Ascending

theorem nil : Ascending [] := ⟨by simp, .nil⟩

theorem tail (h : Ascending (r :: ranges)) : Ascending ranges where
  nonempty s hs := h.nonempty s (List.mem_cons_of_mem r hs)
  sorted := (List.pairwise_cons.mp h.sorted).2

variable (h : Ascending ranges)
include h

theorem concat (hr : r.1 < r.2) (hlast : ∀ s ∈ ranges, s.2 ≤ r.1) :
    Ascending (ranges ++ [r]) where
  nonempty s hs := by
    rcases List.mem_append.mp hs with hs | hs
    · exact h.nonempty s hs
    · rw [List.mem_singleton.mp hs]
      exact hr
  sorted := by
    refine List.pairwise_append.mpr ⟨h.sorted, List.pairwise_singleton _ _, fun s hs t ht => ?_⟩
    rw [List.mem_singleton.mp ht]
    exact hlast s hs

theorem removedBefore_le_sub (he : ∀ r ∈ ranges, e ≤ r.1) (hq : ∀ r ∈ ranges, r.1 < q → r.2 ≤ q) :
    removedBefore ranges q ≤ q - e := by
  induction ranges generalizing e with
  | nil => exact Nat.zero_le _
  | cons r ranges ih =>
    by_cases hr : r.1 < q
    · have hrest := ih h.tail (List.pairwise_cons.mp h.sorted).1 fun s hs => hq s (by simp [hs])
      have hend := hq r (by simp) hr
      have hlt := h.nonempty r (by simp)
      have hstart := he r (by simp)
      rw [removedBefore_cons_of_lt hr]
      omega
    · rw [removedBefore_cons_of_le (not_lt.mp hr)]
      exact Nat.zero_le _

theorem removedBefore_le (hpe : p ≤ e) (heq : e ≤ q) (hp : ∀ r ∈ ranges, r.1 < p ∨ e ≤ r.1)
    (hq : ∀ r ∈ ranges, r.1 < q → r.2 ≤ q) :
    removedBefore ranges q ≤ removedBefore ranges p + (q - e) := by
  induction ranges with
  | nil => exact Nat.zero_le _
  | cons r ranges ih =>
    rcases hp r (by simp) with hr | hr
    · have hrest := ih h.tail (fun s hs => hp s (by simp [hs])) fun s hs => hq s (by simp [hs])
      rw [removedBefore_cons_of_lt hr, removedBefore_cons_of_lt (by omega)]
      omega
    · have hafter : ∀ s ∈ r :: ranges, e ≤ s.1 := by
        intro s hs
        rcases List.mem_cons.mp hs with rfl | hs
        · exact hr
        · have hsorted := (List.pairwise_cons.mp h.sorted).1 s hs
          have hlt := h.nonempty r (by simp)
          omega
      exact (h.removedBefore_le_sub hafter hq).trans (Nat.le_add_left _ _)

theorem removedBefore_le_self (hq : ∀ r ∈ ranges, r.1 < q → r.2 ≤ q) :
    removedBefore ranges q ≤ q :=
  h.removedBefore_le_sub (fun _ _ => Nat.zero_le _) hq

end Ascending

end Compaction

variable {α : Type} {p : α → Bool} {xs : List α}

theorem getElem?_filter_countP {k : ℕ} {x : α} (hx : xs[k]? = some x) (hp : p x = true) :
    (xs.filter p)[(xs.take k).countP p]? = some x := by
  induction xs generalizing k with
  | nil => simp at hx
  | cons y xs ih =>
    cases k with
    | zero =>
      obtain rfl : y = x := by simpa using hx
      simp [hp]
    | succ k =>
      have hrest := ih (by simpa using hx)
      rw [List.take_succ_cons, List.countP_cons]
      by_cases hy : p y = true
      · rw [List.filter_cons_of_pos hy, if_pos hy, List.getElem?_cons_succ]
        exact hrest
      · rw [List.filter_cons_of_neg hy, if_neg hy]
        exact hrest

theorem take_drop_rows {rows : List (List α)} {i pos n : ℕ} {row : List α}
    (hrow : rows[i]? = some row) (hpos : pos + n ≤ row.length) :
    (rows.flatten.drop (((rows.take i).map List.length).sum + pos)).take n =
      (row.drop pos).take n := by
  induction rows generalizing i with
  | nil => simp at hrow
  | cons first rows ih =>
    rw [List.flatten_cons]
    cases i with
    | zero =>
      obtain rfl : first = row := by simpa using hrow
      rw [List.take_zero, List.map_nil, List.sum_nil, Nat.zero_add, List.drop_append,
        List.take_append]
      have hnone : n - (List.drop pos first).length = 0 := by
        rw [List.length_drop]
        omega
      rw [hnone, List.take_zero, List.append_nil]
    | succ i =>
      rw [List.take_succ_cons, List.map_cons, List.sum_cons, Nat.add_assoc, ← List.drop_drop,
        List.drop_left' rfl]
      exact ih (by simpa using hrow)

theorem foldl_count (l : List α) (n : ℕ) :
    l.foldl (fun n x => if p x then n else n + 1) n = n + l.countP (fun x => !p x) := by
  induction l generalizing n with
  | nil => rfl
  | cons x l ih =>
    rw [List.foldl_cons, ih, List.countP_cons]
    by_cases hx : p x = true
    · simp [hx]
    · simp [hx]
      omega

end Vpux.Data
