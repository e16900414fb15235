import Mathlib.Algebra.BigOperators.Group.Finset.Piecewise
import Mathlib.Algebra.Group.Prod
import Mathlib.Algebra.Group.Embedding
import Vpux.Data.WindowMax

/-! Windows over a range that has been extended by places where its padding was. -/
namespace Vpux.Data
open Finset

variable {size before after pad kernel start : ℕ × ℕ}

/-- The place was in the range before it was extended. -/
def Within (before size i : ℕ × ℕ) : Prop :=
  (before.1 ≤ i.1 ∧ i.1 < before.1 + size.1) ∧ before.2 ≤ i.2 ∧ i.2 < before.2 + size.2

instance (before size i : ℕ × ℕ) : Decidable (Within before size i) :=
  inferInstanceAs (Decidable (_ ∧ _))

/-- The places that a window reads in the extension. -/
def addedPlaces (size before after pad kernel start : ℕ × ℕ) : Finset (ℕ × ℕ) :=
  (windowPlane (before + size + after) pad kernel start).filter fun i => ¬Within before size i

theorem filter_within_windowPlane :
    (windowPlane (before + size + after) pad kernel start).filter (Within before size) =
      (windowPlane size (pad + before) kernel start).map (addLeftEmbedding before) := by
  ext i
  simp only [mem_filter, mem_map, mem_windowPlane, mem_window, Within, addLeftEmbedding_apply,
    Prod.fst_add, Prod.snd_add]
  constructor
  · intro h
    refine ⟨(i.1 - before.1, i.2 - before.2), by simp only; omega, Prod.ext ?_ ?_⟩
    · simp only [Prod.fst_add]
      omega
    · simp only [Prod.snd_add]
      omega
  · rintro ⟨j, h, rfl⟩
    simp only [Prod.fst_add, Prod.snd_add]
    omega

theorem add_sub_cancel_place (i : ℕ × ℕ) : before + i - before = i :=
  Prod.ext (Nat.add_sub_cancel_left before.1 i.1) (Nat.add_sub_cancel_left before.2 i.2)

theorem sum_windowPlane_extended {M : Type} [AddCommMonoid M] (f : ℕ × ℕ → M) :
    (∑ i ∈ windowPlane (before + size + after) pad kernel start,
        if Within before size i then f (i - before) else 0) =
      ∑ i ∈ windowPlane size (pad + before) kernel start, f i := by
  rw [← sum_filter, filter_within_windowPlane, sum_map]
  apply sum_congr rfl
  intro i _
  rw [addLeftEmbedding_apply, add_sub_cancel_place]

theorem card_windowPlane_extended :
    (windowPlane (before + size + after) pad kernel start).card =
      (windowPlane size (pad + before) kernel start).card +
        (addedPlaces size before after pad kernel start).card := by
  rw [← card_filter_add_card_filter_not (Within before size), filter_within_windowPlane, card_map]
  rfl

theorem sup_windowPlane_extended {α : Type} [SemilatticeSup α] [OrderBot α] [Zero α]
    (f : ℕ × ℕ → α) :
    ((windowPlane (before + size + after) pad kernel start).sup fun i =>
        if Within before size i then f (i - before) else 0) =
      (windowPlane size (pad + before) kernel start).sup f ⊔
        if (addedPlaces size before after pad kernel start).Nonempty then 0 else ⊥ := by
  rw [sup_ite, filter_within_windowPlane, sup_map]
  congr 1
  · apply sup_congr rfl
    intro i _
    rw [Function.comp_apply, addLeftEmbedding_apply, add_sub_cancel_place]
  · change (addedPlaces size before after pad kernel start).sup (fun _ => (0 : α)) = _
    split_ifs with h
    · exact sup_const h 0
    · rw [not_nonempty_iff_eq_empty.mp h, sup_empty]

end Vpux.Data
