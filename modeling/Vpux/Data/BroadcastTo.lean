import Vpux.Data.DimGroups
import Vpux.Data.Folds

/-! An operand that is broadcast to the shape of another one, and merging their dimensions. -/
namespace Vpux.Data

/-- Dimension by dimension the size is that of the other shape, or one. -/
def BroadcastsTo (t s : List ℕ) : Prop := List.Forall₂ (fun b a => b = 1 ∨ b = a) t s

instance (t s : List ℕ) : Decidable (BroadcastsTo t s) :=
    inferInstanceAs (Decidable (List.Forall₂ _ t s))

namespace BroadcastsTo

variable {s t : List ℕ} {groups : List (List ℕ)}

section

variable (h : BroadcastsTo t s)
include h

theorem length_eq : s.length = t.length := (List.Forall₂.length_eq h).symm

theorem broadcasts : Broadcasts s t :=
  List.Forall₂.flip (h.imp fun _ _ hba => hba.elim (fun h => Or.inr (Or.inr h)) fun h =>
    Or.inl h.symm)

theorem getD (d : ℕ) : t.getD d 0 = 1 ∨ t.getD d 0 = s.getD d 0 := by
  have hlength := h.length_eq
  by_cases hlt : d < t.length
  · rw [List.getD_eq_getElem _ _ hlt, List.getD_eq_getElem _ _ (hlength ▸ hlt)]
    exact (List.forall₂_iff_get.mp h).2 d hlt (hlength ▸ hlt)
  · rw [List.getD_eq_default _ _ (by omega), List.getD_eq_default _ _ (by omega)]
    exact Or.inr rfl

theorem pos (hs : ∀ a ∈ s, 0 < a) : ∀ b ∈ t, 0 < b := by
  intro b hb
  obtain ⟨a, ha, hba⟩ := exists_rel_of_mem h hb
  have := hs a ha
  omega

theorem matters_iff (d : ℕ) : Matters s t d ↔ 1 < s.getD d 0 := by
  have := h.getD d
  rw [Matters]
  omega

theorem broadcast_eq (hs : ∀ a ∈ s, 0 < a) : broadcast s t = s := by
  have hlength := h.length_eq
  apply List.ext_getElem
  · simp [broadcast, hlength]
  · intro d hd hd'
    have hrange := h.getD d
    have hpos := hs _ (List.getElem_mem hd')
    rw [List.getD_eq_getElem _ _ hd', List.getD_eq_getElem _ _ (hlength ▸ hd')] at hrange
    simp only [broadcast, List.getElem_zipWith]
    omega

theorem oneKind_of_core {core dims : List ℕ} (hcore : OneKind s t core)
    (hdims : ∀ d ∈ dims, d ∈ core ∨ s.getD d 0 = 1) : OneKind s t dims := by
  have hone : ∀ d, s.getD d 0 = 1 → t.getD d 0 = 1 := by
    intro d hd
    have := h.getD d
    omega
  obtain hsame | hall | hall := hcore
  · exact Or.inl fun d hd => (hdims d hd).elim (hsame d) fun hd => hd.trans (hone d hd).symm
  · exact Or.inr (Or.inl fun d hd => (hdims d hd).elim (hall d) id)
  · exact Or.inr (Or.inr fun d hd => (hdims d hd).elim (hall d) (hone d))

theorem groupShape (hone : ∀ dims ∈ groups, OneKind s t dims) (k : ℕ) :
    BroadcastsTo (List.replicate k 1 ++ groupShape t groups)
      (List.replicate k 1 ++ Data.groupShape s groups) := by
  apply List.rel_append
  · exact List.forall₂_same.mpr fun _ _ => Or.inr rfl
  · rw [Data.groupShape, Data.groupShape, List.forall₂_map_left_iff, List.forall₂_map_right_iff,
      List.forall₂_same]
    intro dims hdims
    obtain hsame | hall | hall := hone dims hdims
    · exact Or.inr (congrArg List.prod (List.map_congr_left fun d hd => (hsame d hd).symm))
    · refine Or.inl (prod_select_eq_one fun d hd => ?_)
      have := h.getD d
      have := hall d hd
      omega
    · exact Or.inl (prod_select_eq_one hall)

theorem prod_lt_or_eq (hs : ∀ a ∈ s, 0 < a) : t.prod < s.prod ∨ t = s := by
  have hlength := h.length_eq
  have hle : ∀ d ∈ List.range s.length, t.getD d 0 ≤ s.getD d 0 := by
    intro d hd
    have := h.getD d
    have := getD_pos hs (List.mem_range.mp hd)
    omega
  have hpos : ∀ d ∈ List.range s.length, 0 < t.getD d 0 :=
    fun d hd => getD_pos (h.pos hs) (hlength ▸ List.mem_range.mp hd)
  have hall : ∀ u : List ℕ, u.length = s.length → (List.range s.length).map (u.getD · 0) = u :=
    fun u hu => hu ▸ select_range u
  rcases Nat.lt_or_ge t.prod s.prod with hlt | hge
  · exact Or.inl hlt
  · right
    have hprod : ((List.range s.length).map (t.getD · 0)).prod =
        ((List.range s.length).map (s.getD · 0)).prod := by
      apply Nat.le_antisymm
      · exact List.prod_map_le_prod_map₀ _ _ (fun d _ => Nat.zero_le _) hle
      · rwa [hall t hlength.symm, hall s rfl]
    rw [← hall t hlength.symm, ← hall s rfl, List.length_map, List.length_range]
    exact List.map_congr_left (eq_of_prod_eq hpos hle hprod)

end

theorem clip_eq {point : List ℕ} (hpoint : point ∈ grid (s.map List.range)) :
    clip s point = point := by
  rw [mem_grid, List.forall₂_map_right_iff] at hpoint
  induction hpoint with
  | nil => rfl
  | @cons i a point s hi _ ih =>
    have hi := List.mem_range.mp hi
    rw [clip, List.zipWith_cons_cons, ← clip, ih]
    congr 1
    split_ifs <;> omega

theorem elementwise_eq {α β γ : Type} (h : BroadcastsTo t s) (hs : ∀ a ∈ s, 0 < a) (f : α → β → γ)
    (x : ℕ → α) (y : ℕ → β) : elementwise f s t x y = (grid (s.map List.range)).map fun point =>
      f (x (rowMajor s point)) (y (rowMajor t (clip t point))) := by
  rw [elementwise, h.broadcast_eq hs]
  apply List.map_congr_left
  intro point hpoint
  rw [clip_eq hpoint]

end BroadcastsTo
end Vpux.Data
