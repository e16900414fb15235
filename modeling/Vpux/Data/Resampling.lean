import Mathlib.Algebra.Order.Floor.Ring
import Mathlib.Data.Rat.Floor
import Mathlib.Tactic.Linarith
import Mathlib.Data.Int.ConditionallyCompleteOrder

/-! Rounding a coordinate to a pixel, clamping it to an image and to a part of the image. -/
namespace Vpux.Data

def truncate (q : ℚ) : ℤ := if 0 ≤ q then ⌊q⌋ else ⌈q⌉

def roundHalfAway (q : ℚ) : ℤ := if 0 ≤ q then ⌊q + 1 / 2⌋ else ⌈q - 1 / 2⌉

/-- A monotone rounding that commutes with shifts to the right of zero. -/
structure Rounding (g : ℚ → ℤ) : Prop where
  mono : Monotone g
  zero : g 0 = 0
  shift : ∀ q, 0 ≤ q → ∀ k : ℤ, 0 ≤ k → g (q + k) = g q + k

namespace Rounding

variable {g : ℚ → ℤ}

theorem intCast (hg : Rounding g) {k : ℤ} (hk : 0 ≤ k) : g k = k := by
  have h := hg.shift 0 le_rfl k hk
  rwa [zero_add, hg.zero, zero_add] at h

theorem floor : Rounding (fun q => ⌊q⌋) where
  mono := Int.floor_mono
  zero := Int.floor_zero
  shift := fun q _ k _ => Int.floor_add_intCast q k

theorem ceil : Rounding (fun q => ⌈q⌉) where
  mono := Int.ceil_mono
  zero := Int.ceil_zero
  shift := fun q _ k _ => Int.ceil_add_intCast q k

theorem truncate : Rounding truncate where
  mono := by
    intro a b hab
    unfold Data.truncate
    split_ifs with ha hb hb
    · exact Int.floor_mono hab
    · exact absurd (ha.trans hab) hb
    · have hle : ⌈a⌉ ≤ 0 := Int.ceil_le.mpr (by push_cast; linarith)
      exact hle.trans (Int.floor_nonneg.mpr hb)
    · exact Int.ceil_mono hab
  zero := by simp [Data.truncate]
  shift := by
    intro q hq k hk
    have hk' : (0 : ℚ) ≤ k := by exact_mod_cast hk
    rw [Data.truncate, Data.truncate, if_pos hq, if_pos (add_nonneg hq hk'), Int.floor_add_intCast]

theorem roundHalfAway : Rounding roundHalfAway where
  mono := by
    intro a b hab
    unfold Data.roundHalfAway
    split_ifs with ha hb hb
    · exact Int.floor_mono (by linarith)
    · exact absurd (ha.trans hab) hb
    · have hle : ⌈a - 1 / 2⌉ ≤ 0 := Int.ceil_le.mpr (by push_cast; linarith)
      exact hle.trans (Int.floor_nonneg.mpr (by linarith))
    · exact Int.ceil_mono (by linarith)
  zero := by
    rw [Data.roundHalfAway, if_pos le_rfl, Int.floor_eq_zero_iff]
    norm_num
  shift := by
    intro q hq k hk
    have hk' : (0 : ℚ) ≤ k := by exact_mod_cast hk
    rw [Data.roundHalfAway, Data.roundHalfAway, if_pos hq, if_pos (add_nonneg hq hk'),
      add_right_comm, Int.floor_add_intCast]

theorem roundHalfAway_eq {q : ℚ} (h : q ≠ ⌊q⌋ + 1 / 2) :
    Data.roundHalfAway q = if q < ⌊q⌋ + 1 / 2 then ⌊q⌋ else ⌊q⌋ + 1 := by
  have hlo := Int.floor_le q
  have hhi := Int.lt_floor_add_one q
  unfold Data.roundHalfAway
  split_ifs with hq hlt hlt
  · rw [Int.floor_eq_iff]
    constructor <;> linarith
  · rw [Int.floor_eq_iff]
    push_cast
    constructor <;> linarith
  · rw [Int.ceil_eq_iff]
    constructor <;> linarith
  · have hgt := lt_of_le_of_ne (not_lt.mp hlt) h.symm
    rw [Int.ceil_eq_iff]
    push_cast
    constructor <;> linarith

theorem preferFloor {tolerance : ℚ} (hnonneg : 0 ≤ tolerance) :
    Rounding fun q => if |q - (⌊q⌋ + 1 / 2)| ≤ tolerance then ⌊q⌋ else Data.roundHalfAway q := by
  have heq : ∀ q : ℚ, (if |q - (⌊q⌋ + 1 / 2)| ≤ tolerance then ⌊q⌋ else Data.roundHalfAway q) =
      if q ≤ ⌊q⌋ + 1 / 2 + tolerance then ⌊q⌋ else ⌊q⌋ + 1 := by
    intro q
    split_ifs with htie hle hle
    · rfl
    · linarith [(abs_le.mp htie).2]
    · have hne : q ≠ ⌊q⌋ + 1 / 2 := by
        intro htie'
        rw [← htie', sub_self, abs_zero] at htie
        exact htie hnonneg
      rw [roundHalfAway_eq hne, if_pos]
      by_contra hge
      exact htie (abs_le.mpr ⟨by linarith, by linarith⟩)
    · have hne : q ≠ ⌊q⌋ + 1 / 2 := by
        intro htie'
        linarith
      rw [roundHalfAway_eq hne, if_neg]
      linarith
  simp only [heq]
  exact {
    mono := by
      intro a b hab
      have hfloor := Int.floor_mono hab
      dsimp only
      rcases hfloor.lt_or_eq with hlt | hsame
      · split_ifs <;> omega
      · rw [hsame]
        split_ifs with ha hb hb
        · exact le_rfl
        · omega
        · linarith
        · exact le_rfl
    zero := by
      rw [Int.floor_zero, if_pos]
      linarith
    shift := by
      intro q hq k hk
      rw [Int.floor_add_intCast]
      push_cast
      split_ifs with h h' h'
      · rfl
      · linarith
      · linarith
      · ring }

theorem shifted (hg : Rounding g) (q : ℚ) {a : ℤ} (ha : 0 ≤ a) :
    g (q - a) + a = g q ∨ (g (q - a) + a ≤ a ∧ g q ≤ a) := by
  rcases le_or_gt 0 (q - a) with hpos | hneg
  · have h := hg.shift (q - a) hpos a ha
    rw [sub_add_cancel] at h
    exact .inl h.symm
  · have hshifted : g (q - a) ≤ 0 := hg.zero ▸ hg.mono hneg.le
    have hhere : g q ≤ a := hg.intCast ha ▸ hg.mono (by linarith)
    exact .inr ⟨by omega, hhere⟩

end Rounding

/-- The pixel of an image of the given size that is closest to the coordinate. -/
def clampPixel (size y : ℤ) : ℤ := max 0 (min y (size - 1))

section Clamp

variable {size : ℤ} {f : ℤ → ℤ}

theorem clampPixel_nonneg (size y : ℤ) : 0 ≤ clampPixel size y := le_max_left _ _

theorem clampPixel_lt (hsize : 0 < size) (y : ℤ) : clampPixel size y < size := by
  unfold clampPixel
  omega

theorem clampPixel_mono (size : ℤ) : Monotone (clampPixel size) := by
  intro y y' h
  unfold clampPixel
  omega

theorem clampPixel_part (hsize : 0 < size) (hf : Monotone f) {first last x y : ℤ}
    (hfirst : first ≤ x) (hlast : x ≤ last)
    (hy : y = f x ∨ (y ≤ clampPixel size (f first) ∧ f x ≤ clampPixel size (f first)) ∨
      (f x ≤ y ∧ f x = f last)) :
    clampPixel (clampPixel size (f last) - clampPixel size (f first) + 1)
        (y - clampPixel size (f first)) + clampPixel size (f first) = clampPixel size (f x) := by
  have hbelow := hf hfirst
  have habove := hf hlast
  unfold clampPixel at *
  omega

end Clamp

section Shift

variable {α : Type*} [PartialOrder α] {f : ℤ → α} {a n r : ℤ}

theorem eq_of_between (hf : Monotone f) {x y z : ℤ} (hxy : x ≤ y) (hyz : y ≤ z) (h : f x = f z) :
    f y = f x :=
  le_antisymm (h ▸ hf hyz) (hf hxy)

theorem shift_iff_of_pos (hf : Monotone f) (hn : 0 < n) (hr : 0 < r) :
    (∀ x, 0 ≤ x → x < n → f (a + x) = f (r + (a + x))) ↔ f a = f (a + n - 1 + r) := by
  constructor
  · intro hshift
    have hreach : ∀ k : ℕ, (k : ℤ) < n → f a = f (r + (a + k)) := by
      intro k
      induction k using Nat.strong_induction_on with
      | _ k ih =>
        intro hk
        rw [← hshift k (by omega) hk]
        rcases Int.lt_or_le k r with hbefore | hbehind
        · -- the values up to the first shifted one are all the same
          have hfirst := hshift 0 le_rfl hn
          rw [add_zero] at hfirst
          exact (eq_of_between hf (by omega) (by omega) hfirst).symm
        · have hprev := ih (k - r).toNat (by omega) (by omega)
          rwa [show r + (a + ((k - r).toNat : ℤ)) = a + k by omega] at hprev
    have hlast := hreach (n - 1).toNat (by omega)
    rwa [show r + (a + ((n - 1).toNat : ℤ)) = a + n - 1 + r by omega] at hlast
  · intro hends x hx hxn
    rw [eq_of_between hf (by omega : a ≤ a + x) (by omega) hends,
      eq_of_between hf (by omega : a ≤ r + (a + x)) (by omega) hends]

theorem shift_iff (hf : Monotone f) (hn : 0 < n) :
    (∀ x, 0 ≤ x → x < n → f (a + x) = f (r + (a + x))) ↔
      r = 0 ∨ f (a + min 0 r) = f (a + n - 1 + max 0 r) := by
  rcases lt_trichotomy r 0 with hneg | rfl | hpos
  · have hback := shift_iff_of_pos (a := a + r) hf hn (show 0 < -r by omega)
    rw [or_iff_right hneg.ne, min_eq_right hneg.le, max_eq_left hneg.le, add_zero]
    rw [show a + r + n - 1 + -r = a + n - 1 by omega] at hback
    rw [← hback]
    constructor
    · intro h x hx hxn
      rw [show a + r + x = r + (a + x) by omega, ← h x hx hxn,
        show -r + (r + (a + x)) = a + x by omega]
    · intro h x hx hxn
      have hat := h x hx hxn
      rw [show a + r + x = r + (a + x) by omega,
        show -r + (r + (a + x)) = a + x by omega] at hat
      exact hat.symm
  · simp
  · rw [shift_iff_of_pos hf hn hpos, or_iff_right hpos.ne', min_eq_left hpos.le,
      max_eq_right hpos.le, add_zero]

end Shift

end Vpux.Data
