import Vpux.Data.DimPositions

/-! Numbers as places among their sorted values, and boxes whose dimensions are taken in groups. -/
namespace Vpux.Data

section Ranks

def sorted (l : List ℕ) : List ℕ := l.insertionSort fun a b => a ≤ b

def ranks (l : List ℕ) : List ℕ := l.map fun v => (sorted l).idxOf v

variable {l : List ℕ}

theorem sorted_perm (l : List ℕ) : (sorted l).Perm l := List.perm_insertionSort _ l

theorem insertionSort_eq {α : Type} (key : α → ℕ) {xs ys : List α} (hperm : xs.Perm ys)
    (hys : ys.Pairwise fun a b => key a < key b) :
    (xs.insertionSort fun a b => key a ≤ key b) = ys := by
  have hnodup : (ys.map key).Nodup := List.pairwise_map.mpr (hys.imp Nat.ne_of_lt)
  have hperm' := (List.perm_insertionSort (fun a b => key a ≤ key b) xs).trans hperm
  refine hperm'.eq_of_pairwise (fun a b ha hb hab hba => ?_)
    (List.pairwise_insertionSort (fun a b => key a ≤ key b) xs) (hys.imp Nat.le_of_lt)
  exact List.inj_on_of_nodup_map hnodup (hperm'.subset ha) hb (Nat.le_antisymm hab hba)

theorem sorted_eq {s : List ℕ} (hperm : l.Perm s) (hs : s.Pairwise (· < ·)) : sorted l = s :=
  insertionSort_eq id hperm hs

theorem ranks_perm (h : l.Nodup) : (ranks l).Perm (List.range (ranks l).length) := by
  have hidx : (sorted l).map (fun v => (sorted l).idxOf v) = List.range (sorted l).length := by
    apply List.ext_getElem (by simp)
    intro i hi hi'
    rw [List.getElem_map, List.getElem_range]
    exact ((sorted_perm l).nodup_iff.mpr h).idxOf_getElem i (by simpa using hi)
  have hperm := (sorted_perm l).symm.map fun v => (sorted l).idxOf v
  rw [hidx, (sorted_perm l).length_eq] at hperm
  rwa [ranks, List.length_map]

theorem map_getD_ranks (l : List ℕ) : (ranks l).map ((sorted l).getD · 0) = l := by
  rw [ranks, List.map_map]
  refine (List.map_congr_left fun v hv => ?_).trans (List.map_id l)
  have hmem : v ∈ sorted l := (sorted_perm l).mem_iff.mpr hv
  rw [Function.comp_apply, List.getD_eq_getElem _ _ (List.idxOf_lt_length_of_mem hmem),
    List.getElem_idxOf, id]

theorem getD_idxOf_map {α : Type} {xs : List α} {f : α → ℕ} (h : (xs.map f).Nodup) {x : α}
    (hx : x ∈ xs) (d : α) : xs.getD ((xs.map f).idxOf (f x)) d = x := by
  obtain ⟨i, hi, rfl⟩ := List.getElem_of_mem hx
  have hi' : i < (xs.map f).length := by rwa [List.length_map]
  have hidx := h.idxOf_getElem i hi'
  rw [List.getElem_map] at hidx
  rw [hidx, List.getD_eq_getElem _ _ hi]

theorem map_getD_ranks_map {α : Type} {xs ys : List α} {f : α → ℕ} (hperm : ys.Perm xs)
    (hys : (ys.map f).Pairwise (· < ·)) (d : α) : (ranks (xs.map f)).map (ys.getD · d) = xs := by
  have hsorted : sorted (xs.map f) = ys.map f := sorted_eq (hperm.symm.map f) hys
  rw [ranks, hsorted, List.map_map, List.map_map]
  refine (List.map_congr_left fun x hx => ?_).trans (List.map_id xs)
  exact getD_idxOf_map (hys.imp Nat.ne_of_lt) (hperm.mem_iff.mpr hx) d

theorem exists_sorted_runs {p : List ℕ} {n : ℕ} (hp : p.Perm (List.range n)) :
    ∃ xs : List (List ℕ), xs.Perm (runs p) ∧ xs.flatten = List.range n ∧
      (xs.map (·.headD 0)).Pairwise (· < ·) := by
  have hnodup : p.Nodup := hp.nodup_iff.mpr List.nodup_range
  have hlength : (runs p).length = (runStarts p).length := by simp [runStarts]
  have hsorted := map_sortIndex_sorted ((runStarts_sublist p).nodup hnodup)
  refine ⟨_, map_sortIndex_perm (runStarts p) (runs p) [] hlength, flatten_map_sortIndex hp, ?_⟩
  rw [List.map_map]
  rw [List.pairwise_map] at hsorted ⊢
  refine hsorted.imp fun {i j} h => ?_
  have hmap : ∀ k, (runStarts p).getD k 0 = ((runs p).getD k []).headD 0 :=
    fun k => List.getD_map (runs p) [] (fun r : List ℕ => r.headD 0)
  rwa [hmap, hmap] at h

end Ranks

section Groups

variable {memShape point : List ℕ}

theorem prod_extent (groups : List (List ℕ)) :
    (groups.map (extent memShape)).prod = extent memShape groups.flatten := by
  induction groups with
  | nil => rfl
  | cons group groups ih => rw [List.map_cons, List.prod_cons, ih, List.flatten_cons, extent_append]

theorem rowMajor_groups (groups : List (List ℕ)) :
    rowMajor (groups.map (extent memShape)) (groups.map (flat memShape point)) =
      flat memShape point groups.flatten := by
  induction groups with
  | nil => rfl
  | cons group groups ih =>
    rw [List.map_cons, List.map_cons, rowMajor, ih, prod_extent, List.flatten_cons, flat_append]

theorem inBox_groups {groups : List (List ℕ)}
    (h : ∀ group ∈ groups, ∀ d ∈ group, point.getD d 0 < memShape.getD d 0) :
    InBox (groups.map (extent memShape)) (groups.map (flat memShape point)) := by
  rw [InBox, List.forall₂_map_left_iff, List.forall₂_map_right_iff, List.forall₂_same]
  exact fun group hgroup => flat_lt (h group hgroup)

end Groups

end Vpux.Data
