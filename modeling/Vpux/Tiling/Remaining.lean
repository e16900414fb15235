import Vpux.Tiling.Partition

/-! A loop that takes a step of at most `max` from what remains of a length. -/
namespace Vpux.Tiling

/-- The sizes of the steps, each with its offset. -/
def remainingSteps (max : ℤ) : (left : ℕ) → (idx remained : ℤ) → List (ℤ × ℤ)
  | 0, _, _ => []
  | left + 1, idx, remained =>
    let step := if remained > max then max else remained
    (step, idx * max) :: remainingSteps max left (idx + 1) (remained - step)

/-- The steps are as many as the rest needs. -/
structure Suffices (max : ℤ) (left : ℕ) (remained : ℤ) : Prop where
  nonneg : 0 ≤ remained
  needed : ((left : ℤ) - 1) * max < remained
  enough : remained ≤ left * max

section Steps

variable {max remained : ℤ} {left : ℕ}

theorem Suffices.step_pos (h : Suffices max (left + 1) remained) (hmax : 0 < max) :
    0 < if remained > max then max else remained := by
  have hneeded := h.needed
  have hproduct : 0 ≤ (left : ℤ) * max := mul_nonneg left.cast_nonneg hmax.le
  push_cast at hneeded
  rw [add_sub_cancel_right] at hneeded
  split_ifs <;> omega

theorem Suffices.step (h : Suffices max (left + 1) remained) (hmax : 0 < max) :
    Suffices max left (remained - if remained > max then max else remained) := by
  obtain ⟨hnonneg, hneeded, henough⟩ := h
  push_cast at hneeded henough
  split_ifs with hmore
  · constructor <;> linarith
  · -- the last step takes what remains
    have hlast : left = 0 := by
      by_contra hleft
      have hone : (1 : ℤ) ≤ left := by omega
      have := mul_le_mul_of_nonneg_right hone hmax.le
      linarith
    subst hlast
    constructor <;> simp [hmax]

theorem Suffices.done (h : Suffices max 0 remained) : remained = 0 := by
  have := h.nonneg
  have := h.enough
  omega

section

variable (hmax : 0 < max)
include hmax

section

variable (h : Suffices max left remained)
include h

theorem remainingSteps_pos (idx : ℤ) :
    ∀ q ∈ remainingSteps max left idx remained, 0 < q.1 := by
  induction left generalizing idx remained with
  | zero => simp [remainingSteps]
  | succ left ih =>
    intro q hq
    rcases List.mem_cons.mp hq with rfl | hq
    · exact h.step_pos hmax
    · exact ih (h.step hmax) (idx + 1) q hq

theorem exists_inside_remainingSteps (idx x : ℤ) :
    (∃ q ∈ remainingSteps max left idx remained, Inside q x) ↔
      idx * max ≤ x ∧ x < idx * max + remained := by
  induction left generalizing idx remained with
  | zero =>
    rw [h.done]
    simp only [remainingSteps, List.not_mem_nil, false_and, exists_false, false_iff]
    omega
  | succ left ih =>
    have hrest := h.step hmax
    simp only [remainingSteps, List.mem_cons, exists_eq_or_imp]
    rw [ih hrest, add_one_mul]
    unfold Inside
    split_ifs at * with hmore
    · omega
    · omega

theorem pairwise_remainingSteps (idx : ℤ) :
    (remainingSteps max left idx remained).Pairwise Before := by
  induction left generalizing idx remained with
  | zero => simp [remainingSteps]
  | succ left ih =>
    have hrest := h.step hmax
    apply List.Pairwise.cons
    · intro q hq
      -- a later step holds its own offset
      have hinside : Inside q q.2 := by
        have := remainingSteps_pos hmax hrest (idx + 1) q hq
        unfold Inside
        omega
      have := ((exists_inside_remainingSteps hmax hrest (idx + 1) q.2).mp ⟨q, hq, hinside⟩).1
      rw [add_one_mul] at this
      unfold Before
      split_ifs <;> omega
    · exact ih hrest (idx + 1)

end

theorem remainingSteps_equal (h : remained = left * max) (idx : ℤ) :
    ∀ q ∈ remainingSteps max left idx remained, q.1 = max := by
  induction left generalizing idx remained with
  | zero => simp [remainingSteps]
  | succ left ih =>
    push_cast at h
    rw [add_one_mul] at h
    have hproduct : 0 ≤ (left : ℤ) * max := mul_nonneg left.cast_nonneg hmax.le
    have hstep : (if remained > max then max else remained) = max := by
      split_ifs <;> omega
    intro q hq
    simp only [remainingSteps, hstep] at hq
    rcases List.mem_cons.mp hq with rfl | hq
    · rfl
    · exact ih (by omega) (idx + 1) q hq

theorem divUp_mul_self {count : ℤ} (hcount : 0 ≤ count) : divUp (count * max) max = count := by
  have hproduct : 0 ≤ count * max := mul_nonneg hcount hmax.le
  rw [divUp, Int.tdiv_eq_ediv_of_nonneg (by omega), add_sub_assoc, add_comm,
    Int.add_mul_ediv_right _ _ hmax.ne', Int.ediv_eq_zero_of_lt (by omega) (by omega), zero_add]

theorem suffices_divUp (hremained : 0 < remained) :
    Suffices max (divUp remained max).toNat remained := by
  have hsum := Int.mul_tdiv_add_tmod (remained + max - 1) max
  have hlt := Int.tmod_lt_of_pos (remained + max - 1) hmax
  have hnonneg := Int.tmod_nonneg max (show 0 ≤ remained + max - 1 by omega)
  have hcount : ((divUp remained max).toNat : ℤ) = divUp remained max :=
    Int.toNat_of_nonneg (divUp_nonneg hremained.le hmax)
  unfold divUp at hcount ⊢
  constructor
  · exact hremained.le
  · rw [hcount, sub_one_mul, mul_comm]
    omega
  · rw [hcount, mul_comm]
    omega

theorem remainingSteps_pieces (hremained : 0 < remained) :
    let steps := remainingSteps max (divUp remained max).toNat 0 remained
    steps.Pairwise Before ∧ (∀ q ∈ steps, 0 < q.1) ∧
      ∀ x, (∃ q ∈ steps, Inside q x) ↔ 0 ≤ x ∧ x < remained := by
  have hsuffices := suffices_divUp hmax hremained
  refine ⟨pairwise_remainingSteps hmax hsuffices 0, remainingSteps_pos hmax hsuffices 0, ?_⟩
  intro x
  simpa using exists_inside_remainingSteps hmax hsuffices 0 x

end

end Steps

section Boxes

variable {tiles tiles' : List TileInfo} {shape : Shape}

def TileInfo.box (tile : TileInfo) : Shape × Shape := (tile.shape, tile.offsets)

theorem Partitions.of_boxes (h : Partitions tiles shape)
    (hboxes : tiles'.map TileInfo.box = tiles.map TileInfo.box) : Partitions tiles' shape := by
  have hmem : ∀ tile ∈ tiles', ∃ t ∈ tiles, t.shape = tile.shape ∧ t.offsets = tile.offsets := by
    intro tile htile
    have hbox := List.mem_map_of_mem (f := TileInfo.box) htile
    rw [hboxes] at hbox
    obtain ⟨t, ht, heq⟩ := List.mem_map.mp hbox
    exact ⟨t, ht, congrArg Prod.fst heq, congrArg Prod.snd heq⟩
  have hmem' : ∀ t ∈ tiles, ∃ tile ∈ tiles', tile.shape = t.shape ∧ tile.offsets = t.offsets := by
    intro t ht
    have hbox := List.mem_map_of_mem (f := TileInfo.box) ht
    rw [← hboxes] at hbox
    obtain ⟨tile, htile, heq⟩ := List.mem_map.mp hbox
    exact ⟨tile, htile, congrArg Prod.fst heq, congrArg Prod.snd heq⟩
  constructor
  · intro tile htile
    obtain ⟨t, ht, hshape, hoffsets⟩ := hmem tile htile
    rw [← hshape, ← hoffsets]
    exact h.rank t ht
  · intro tile htile
    obtain ⟨t, ht, hshape, -⟩ := hmem tile htile
    rw [← hshape]
    exact h.positive t ht
  · have hdisjoint : (tiles.map TileInfo.box).Pairwise fun a b => ∀ place,
        ¬ (List.Forall₂ Inside (a.1.zip a.2) place ∧ List.Forall₂ Inside (b.1.zip b.2) place) :=
      List.pairwise_map.mpr h.disjoint
    rw [← hboxes] at hdisjoint
    exact List.pairwise_map.mp hdisjoint
  · intro place
    rw [← h.covers place]
    unfold TileInfo.Holds
    constructor
    · rintro ⟨tile, htile, hholds⟩
      obtain ⟨t, ht, hshape, hoffsets⟩ := hmem tile htile
      exact ⟨t, ht, by rwa [hshape, hoffsets]⟩
    · rintro ⟨t, ht, hholds⟩
      obtain ⟨tile, htile, hshape, hoffsets⟩ := hmem' t ht
      exact ⟨tile, htile, by rwa [hshape, hoffsets]⟩

end Boxes

end Vpux.Tiling
