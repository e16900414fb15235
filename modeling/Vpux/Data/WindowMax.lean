import Mathlib.Algebra.Order.Group.Nat
import Mathlib.Data.Finset.Lattice.Prod
import Mathlib.Data.Finset.Lattice.Union
import Mathlib.Data.Finset.Prod
import Mathlib.Tactic.Common

/-! Windows that move over a padded range, and the largest values below them. -/
namespace Vpux.Data
open Finset

section Window

variable {size pad kernel start : ℕ}

/-- The places of the range that a window of `kernel` places reads, `pad` places being before the
range. -/
def window (size pad kernel start : ℕ) : Finset ℕ :=
  (range size).filter fun i => start ≤ i + pad ∧ i + pad < start + kernel

@[simp] theorem mem_window {i : ℕ} :
    i ∈ window size pad kernel start ↔ i < size ∧ start ≤ i + pad ∧ i + pad < start + kernel := by
  simp [window]

theorem window_add_eq_biUnion {pad' kernel' end' end₂ size' count : ℕ} (hkernel : 0 < kernel)
    (hsize' : 0 < size') (hsize : size' + kernel = size + pad + end' + 1)
    (hcount : count + kernel' = size' + pad' + end₂ + 1) (hpad : pad' < kernel')
    (hend : end₂ < kernel' ∨ kernel ≤ end' + 1) (hstart : start < count) :
    window size (pad + pad') (kernel + kernel' - 1) start =
      (window size' pad' kernel' start).biUnion (window size pad kernel) := by
  ext i
  simp only [mem_window, mem_biUnion]
  constructor
  · rintro ⟨hi, hlow, hhigh⟩
    -- the first of the windows that read the place
    refine ⟨max (start - pad') (i + pad + 1 - kernel), ?_⟩
    omega
  · rintro ⟨j, ⟨hj, hj_low, hj_high⟩, hi, hlow, hhigh⟩
    omega

end Window

section Plane

variable {size pad kernel start : ℕ × ℕ}

def windowPlane (size pad kernel start : ℕ × ℕ) : Finset (ℕ × ℕ) :=
  window size.1 pad.1 kernel.1 start.1 ×ˢ window size.2 pad.2 kernel.2 start.2

@[simp] theorem mem_windowPlane {i : ℕ × ℕ} : i ∈ windowPlane size pad kernel start ↔
    i.1 ∈ window size.1 pad.1 kernel.1 start.1 ∧ i.2 ∈ window size.2 pad.2 kernel.2 start.2 :=
  mem_product

theorem windowPlane_eq_biUnion {pad' kernel' size₂ pad₂ kernel₂ : ℕ × ℕ}
    (h : window size.1 pad'.1 kernel'.1 start.1 =
      (window size₂.1 pad₂.1 kernel₂.1 start.1).biUnion (window size.1 pad.1 kernel.1))
    (h' : window size.2 pad'.2 kernel'.2 start.2 =
      (window size₂.2 pad₂.2 kernel₂.2 start.2).biUnion (window size.2 pad.2 kernel.2)) :
    windowPlane size pad' kernel' start =
      (windowPlane size₂ pad₂ kernel₂ start).biUnion (windowPlane size pad kernel) := by
  rw [windowPlane, h, h']
  ext i
  simp only [mem_product, mem_biUnion, mem_windowPlane]
  constructor
  · rintro ⟨⟨j, hj, hi⟩, j', hj', hi'⟩
    exact ⟨(j, j'), ⟨hj, hj'⟩, hi, hi'⟩
  · rintro ⟨j, ⟨hj, hj'⟩, hi, hi'⟩
    exact ⟨⟨j.1, hj, hi⟩, j.2, hj', hi'⟩

end Plane

section Settles

variable {α ι κ : Type} [SemilatticeSup α] {f : α → α}

/-- The function may be applied to parts of a maximum before it is applied to the maximum. -/
def Settles (f : α → α) : Prop := ∀ a b, f (f a ⊔ f b) = f (a ⊔ b)

theorem Settles.id : Settles (id : α → α) := fun _ _ => rfl

theorem Settles.apply_sup_left (h : Settles f) (a b : α) : f (f a ⊔ b) = f (a ⊔ b) := by
  have htwice : f (f a) = f a := by
    have hself := h a a
    rwa [sup_idem, sup_idem] at hself
  calc f (f a ⊔ b) = f (f (f a) ⊔ f b) := (h _ _).symm
    _ = f (f a ⊔ f b) := by rw [htwice]
    _ = f (a ⊔ b) := h a b

variable [OrderBot α]

theorem Settles.sup (h : Settles f) (s : Finset ι) (g : ι → α) :
    f (s.sup fun i => f (g i)) = f (s.sup g) := by
  classical
  induction s using Finset.induction_on with
  | empty => rfl
  | insert i s _ ih =>
    rw [sup_insert, sup_insert, h.apply_sup_left, sup_comm, ← h.apply_sup_left, ih,
      h.apply_sup_left, sup_comm]

theorem Settles.sup_biUnion [DecidableEq κ] (h : Settles f) (s : Finset ι) (t : ι → Finset κ)
    (g : κ → α) : f (s.sup fun i => f ((t i).sup g)) = f ((s.biUnion t).sup g) := by
  rw [h.sup, Finset.sup_biUnion]

theorem sup_eq_of_two {s : Finset ι} {g : ι → α} {a b : α} (h : ∀ i ∈ s, g i = a ∨ g i = b)
    (ha : ∃ i ∈ s, g i = a) (hb : ∃ i ∈ s, g i = b) : s.sup g = a ⊔ b := by
  apply le_antisymm
  · apply Finset.sup_le
    intro i hi
    rcases h i hi with hg | hg <;> simp [hg]
  · obtain ⟨i, hi, rfl⟩ := ha
    obtain ⟨j, hj, rfl⟩ := hb
    exact sup_le (le_sup hi) (le_sup hj)

theorem sup_ite_eq [DecidableEq ι] {s : Finset ι} (hs : s.Nonempty) {a b : α} (hab : a ≤ b)
    (p : ι) :
    (s.sup fun i => if i = p then b else a) = if p ∈ s then b else a := by
  split_ifs with hp
  · apply le_antisymm
    · apply Finset.sup_le
      intro i _
      split_ifs
      · exact le_rfl
      · exact hab
    · exact le_sup_of_le hp (by rw [if_pos rfl])
  · have hconst : ∀ i ∈ s, (if i = p then b else a) = a :=
      fun i hi => if_neg fun he : i = p => hp (he ▸ hi)
    rw [sup_congr rfl hconst, Finset.sup_const hs]

end Settles

end Vpux.Data
