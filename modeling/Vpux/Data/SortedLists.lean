import Mathlib.Data.List.Basic
import Mathlib.Data.List.Forall2
import Mathlib.Data.List.Perm.Basic

/-! Members of several classes in one list, each class in the order in which its members came. -/
namespace Vpux.Data

variable {α κ : Type} {key : α → κ}

theorem pairwise_insert_iff {R : α → α → Prop} {x : α} {front back : List α} :
    (front ++ x :: back).Pairwise R ↔
      (front ++ back).Pairwise R ∧ (∀ a ∈ front, R a x) ∧ ∀ b ∈ back, R x b := by
  simp only [List.pairwise_append, List.pairwise_cons, List.mem_cons, forall_eq_or_imp]
  constructor
  · rintro ⟨hfront, ⟨hx, hback⟩, hcross⟩
    exact ⟨⟨hfront, hback, fun a ha => (hcross a ha).2⟩, fun a ha => (hcross a ha).1, hx⟩
  · rintro ⟨⟨hfront, hback, hcross⟩, hbefore, hafter⟩
    exact ⟨hfront, ⟨hafter, hback⟩, fun a ha => ⟨hbefore a ha, hcross a ha⟩⟩

section Arranges

variable [DecidableEq κ]

/-- The list has what was added, each once, and every class of it in the order of addition. -/
structure Arranges (key : α → κ) (added xs : List α) : Prop where
  perm : xs.Perm added
  stable : ∀ k, xs.filter (key · = k) = added.filter (key · = k)

namespace Arranges

theorem nil : Arranges key [] [] := by
  constructor
  · exact List.Perm.nil
  · intro k
    rfl

theorem insert {added front back : List α} {x : α} (h : Arranges key added (front ++ back))
    (hback : ∀ b ∈ back, key b ≠ key x) : Arranges key (added ++ [x]) (front ++ x :: back) := by
  constructor
  · have hfirst : (front ++ x :: back).Perm (x :: added) :=
      List.perm_middle.trans (h.perm.cons x)
    exact hfirst.trans (List.perm_append_singleton x added).symm
  · intro k
    rw [List.filter_append added, ← h.stable k, List.filter_append, List.filter_append]
    by_cases hk : key x = k
    · have hnone : back.filter (key · = k) = [] := by
        rw [List.filter_eq_nil_iff]
        intro b hb
        simpa [← hk] using hback b hb
      rw [List.filter_cons_of_pos (by simpa using hk), hnone, List.append_nil,
        List.filter_cons_of_pos (by simpa using hk), List.filter_nil]
    · rw [List.filter_cons_of_neg (by simpa using hk),
        List.filter_cons_of_neg (by simpa using hk), List.filter_nil, List.append_nil]

end Arranges

end Arranges

section Related

variable {β : Type} {R : α → β → Prop} {f : α → κ} {g : β → κ}

theorem map_eq_of_forall₂ (hkeep : ∀ a b, R a b → g b = f a) {xs : List α} {ys : List β}
    (h : List.Forall₂ R xs ys) : ys.map g = xs.map f := by
  induction h with
  | nil => rfl
  | cons hhead _ ih => rw [List.map_cons, List.map_cons, ih, hkeep _ _ hhead]

theorem forall₂_trans {R : α → α → Prop} (htrans : ∀ a b c, R a b → R b c → R a c)
    {xs ys zs : List α} (h : List.Forall₂ R xs ys) (h' : List.Forall₂ R ys zs) :
    List.Forall₂ R xs zs := by
  induction h generalizing zs with
  | nil => exact h'
  | cons hhead _ ih =>
    cases h' with
    | cons hhead' htail' => exact List.Forall₂.cons (htrans _ _ _ hhead hhead') (ih htail')

end Related

end Vpux.Data
