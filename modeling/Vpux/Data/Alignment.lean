import Mathlib.Tactic.Linarith
import Mathlib.Tactic.Ring

/-! The padding that takes a number to the next multiple of an alignment. -/
namespace Vpux.Data

def padding (align n : ℤ) : ℤ := if n % align = 0 then 0 else align - n % align

variable {a s n m : ℤ}

theorem padding_nonneg (ha : 0 < a) : 0 ≤ padding a n := by
  have hlt := Int.emod_lt_of_pos n ha
  unfold padding
  split <;> omega

theorem padding_lt (ha : 0 < a) : padding a n < a := by
  have hnonneg := Int.emod_nonneg n ha.ne'
  unfold padding
  split <;> omega

theorem dvd_add_padding : a ∣ n + padding a n := by
  unfold padding
  split
  · next h =>
    rw [add_zero]
    exact Int.dvd_of_emod_eq_zero h
  · have h := Int.emod_add_mul_ediv n a
    exact ⟨n / a + 1, by linarith⟩

theorem padding_eq {p : ℤ} (hnonneg : 0 ≤ p) (hlt : p < a) (hdvd : a ∣ n + p) :
    padding a n = p := by
  have ha : 0 < a := by omega
  have hdiff : a ∣ padding a n - p := by
    have h := Int.dvd_sub (dvd_add_padding (a := a) (n := n)) hdvd
    rwa [add_sub_add_left_eq_sub] at h
  have hpad := padding_nonneg (n := n) ha
  have hpad' := padding_lt (n := n) ha
  have hzero : padding a n - p = 0 := by
    apply Int.eq_zero_of_abs_lt_dvd hdiff
    rw [abs_lt]
    omega
  omega

theorem padding_emod (hs : 0 < s) (h : s ∣ a) : padding a n % s = padding s n := by
  symm
  apply padding_eq (Int.emod_nonneg _ hs.ne') (Int.emod_lt_of_pos _ hs)
  have hsum : s ∣ n + padding a n := h.trans dvd_add_padding
  have hdiv := Int.emod_add_mul_ediv (padding a n) s
  have hshift : n + padding a n % s = n + padding a n - s * (padding a n / s) := by omega
  rw [hshift]
  exact Int.dvd_sub hsum ⟨_, rfl⟩

theorem padding_add_of_dvd (ha : 0 < a) (h : a ∣ m) : padding a (m + n) = padding a n := by
  apply padding_eq (padding_nonneg ha) (padding_lt ha)
  rw [add_assoc]
  exact Int.dvd_add h dvd_add_padding

theorem padding_add_padding (ha : 0 < a) (hs : 0 < s) (h : s ∣ a) :
    padding a (n + padding s n) = padding a n - padding s n := by
  have hdiv := Int.emod_add_mul_ediv (padding a n) s
  have hquot := mul_nonneg hs.le (Int.ediv_nonneg (padding_nonneg (n := n) ha) hs.le)
  rw [padding_emod hs h] at hdiv
  have hnonneg := padding_nonneg (n := n) hs
  have hlt := padding_lt (n := n) ha
  apply padding_eq (by omega) (by omega)
  rw [add_assoc, add_sub_cancel]
  exact dvd_add_padding

theorem padding_sub_padding (hs : 0 < s) (h : s ∣ a) :
    padding a n - padding s n = s * (padding a n / s) := by
  have hdiv := Int.emod_add_mul_ediv (padding a n) s
  rw [padding_emod hs h] at hdiv
  omega

end Vpux.Data
