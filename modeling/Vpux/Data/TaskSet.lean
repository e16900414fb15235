import Mathlib.Data.List.Sort
import Mathlib.Data.List.Nodup
import Mathlib.Data.List.Perm.Basic
import Mathlib.Data.List.MinMax

/-! Sets of task and barrier indices. The container is foreign code, so the
passes are generic in it: only its set laws are used, and its iteration order is
left open. `SmallSet` is the instance with the order of the real container. -/
namespace Vpux.Data

/-- A finite set of indices with some iteration order and no repetition. -/
class TaskSet (S : Type) where
  toList : S → List ℕ
  empty : S
  insert : S → ℕ → S
  erase : S → ℕ → S
  nodup_toList : ∀ s, (toList s).Nodup
  toList_empty : toList empty = []
  mem_insert : ∀ s x y, y ∈ toList (insert s x) ↔ y = x ∨ y ∈ toList s
  mem_erase : ∀ s x y, y ∈ toList (erase s x) ↔ y ≠ x ∧ y ∈ toList s

namespace TaskSet

attribute [simp] toList_empty mem_insert mem_erase

theorem mem_foldl_insertIf {σ : Type} {R : σ → ℕ → Prop} {ins : σ → ℕ → σ}
    (hins : ∀ s x y, R (ins s x) y ↔ y = x ∨ R s y) (p : ℕ → Prop) [DecidablePred p] (t : ℕ)
    (l : List ℕ) (s : σ) :
    R (l.foldl (fun s x => if p x then ins s x else s) s) t ↔ (t ∈ l ∧ p t) ∨ R s t := by
  induction l generalizing s with
  | nil => simp
  | cons x l ih =>
    rw [List.foldl_cons, ih, List.mem_cons, or_and_right]
    by_cases hx : p x
    · have hxt : t = x ∧ p t ↔ t = x := and_iff_left_of_imp fun h => h ▸ hx
      rw [if_pos hx, hins, hxt, or_left_comm, or_assoc]
    · have hxt : ¬(t = x ∧ p t) := fun h => hx (h.1 ▸ h.2)
      rw [if_neg hx]
      simp only [hxt, false_or]

variable {S : Type} [TaskSet S]

def isEmpty (s : S) : Bool := (toList s).isEmpty

def size (s : S) : ℕ := (toList s).length

/-- `operator==`: same size, and every element of the left is in the right. -/
def equal (s t : S) : Bool := size s == size t && (toList s).all (· ∈ toList t)

def setUnion (s t : S) : S := (toList t).foldl insert s

def setSubtract (s t : S) : S := (toList t).foldl erase s

def setDifference (s t : S) : S :=
  (toList s).foldl (fun acc x => if x ∈ toList t then acc else insert acc x) empty

theorem mem_foldl_insert (l : List ℕ) (s : S) (y : ℕ) :
    y ∈ toList (l.foldl insert s) ↔ y ∈ l ∨ y ∈ toList s := by
  induction l generalizing s with
  | nil => simp
  | cons x l ih => simp only [List.foldl_cons, ih, mem_insert, List.mem_cons]; tauto

theorem mem_foldl_erase (l : List ℕ) (s : S) (y : ℕ) :
    y ∈ toList (l.foldl erase s) ↔ y ∉ l ∧ y ∈ toList s := by
  induction l generalizing s with
  | nil => simp
  | cons x l ih => simp only [List.foldl_cons, ih, mem_erase, List.mem_cons]; tauto

@[simp] theorem mem_setUnion (s t : S) (y : ℕ) :
    y ∈ toList (setUnion s t) ↔ y ∈ toList t ∨ y ∈ toList s :=
  mem_foldl_insert _ s y

@[simp] theorem mem_setSubtract (s t : S) (y : ℕ) :
    y ∈ toList (setSubtract s t) ↔ y ∉ toList t ∧ y ∈ toList s :=
  mem_foldl_erase _ s y

private theorem mem_foldl_difference (l : List ℕ) (s t : S) (y : ℕ) :
    y ∈ toList (l.foldl (fun acc x => if x ∈ toList t then acc else insert acc x) s) ↔
      (y ∈ l ∧ y ∉ toList t) ∨ y ∈ toList s := by
  induction l generalizing s with
  | nil => simp
  | cons x l ih =>
    rw [List.foldl_cons, ih]
    by_cases hx : x ∈ toList t
    · rw [if_pos hx, List.mem_cons]
      constructor
      · rintro (⟨h, hn⟩ | h)
        · exact Or.inl ⟨Or.inr h, hn⟩
        · exact Or.inr h
      · rintro (⟨rfl | h, hn⟩ | h)
        · exact absurd hx hn
        · exact Or.inl ⟨h, hn⟩
        · exact Or.inr h
    · rw [if_neg hx, mem_insert, List.mem_cons]
      constructor
      · rintro (⟨h, hn⟩ | rfl | h)
        · exact Or.inl ⟨Or.inr h, hn⟩
        · exact Or.inl ⟨Or.inl rfl, hx⟩
        · exact Or.inr h
      · rintro (⟨rfl | h, hn⟩ | h)
        · exact Or.inr (Or.inl rfl)
        · exact Or.inl ⟨h, hn⟩
        · exact Or.inr (Or.inr h)

@[simp] theorem mem_setDifference (s t : S) (y : ℕ) :
    y ∈ toList (setDifference s t) ↔ y ∈ toList s ∧ y ∉ toList t := by
  simp [setDifference, mem_foldl_difference]

@[simp] theorem isEmpty_iff (s : S) : isEmpty s = true ↔ toList s = [] := by
  simp [isEmpty]

theorem equal_iff (s t : S) : equal s t = true ↔ ∀ y, y ∈ toList s ↔ y ∈ toList t := by
  simp only [equal, size, Bool.and_eq_true, beq_iff_eq, List.all_eq_true, decide_eq_true_eq]
  constructor
  · rintro ⟨hl, hs⟩ y
    have hp : (toList s).Perm (toList t) :=
      (List.subperm_of_subset (nodup_toList s) hs).perm_of_length_le hl.ge
    exact hp.mem_iff
  · intro h
    have hp : (toList s).Perm (toList t) :=
      (List.perm_ext_iff_of_nodup (nodup_toList s) (nodup_toList t)).mpr h
    exact ⟨hp.length_eq, fun y hy => (h y).mp hy⟩

end TaskSet

/-- Insertion order while at most `N` elements are stored, ascending order after
that, and back to insertion order once emptied. -/
structure SmallSet (N : ℕ) where
  elems : List ℕ
  isSmall : Bool
  nodup : elems.Nodup

namespace SmallSet

variable {N : ℕ}

theorem nodup_snoc {l : List ℕ} {x : ℕ} (hl : l.Nodup) (hx : x ∉ l) : (l ++ [x]).Nodup := by
  simp only [List.nodup_append, List.nodup_singleton, List.mem_singleton, hl, true_and]
  rintro a ha b rfl rfl
  exact hx ha

def insert (s : SmallSet N) (x : ℕ) : SmallSet N :=
  if h : x ∈ s.elems then s
  else if s.isSmall then
    if s.elems.length < N then ⟨s.elems ++ [x], true, nodup_snoc s.nodup h⟩
    else ⟨(s.elems ++ [x]).insertionSort (· ≤ ·), false,
      (List.perm_insertionSort _ _).nodup_iff.mpr (nodup_snoc s.nodup h)⟩
  else ⟨s.elems.orderedInsert (· ≤ ·) x, false,
    (List.perm_orderedInsert _ _ _).nodup_iff.mpr (List.nodup_cons.mpr ⟨h, s.nodup⟩)⟩

def erase (s : SmallSet N) (x : ℕ) : SmallSet N :=
  ⟨s.elems.erase x, s.isSmall || (s.elems.erase x).isEmpty, s.nodup.erase x⟩

theorem mem_insert (s : SmallSet N) (x y : ℕ) :
    y ∈ (s.insert x).elems ↔ y = x ∨ y ∈ s.elems := by
  unfold insert
  split_ifs with h hs hN
  · constructor
    · exact Or.inr
    · rintro (rfl | hy)
      · exact h
      · exact hy
  · simp [or_comm]
  · simp [or_comm]
  · simp

instance : TaskSet (SmallSet N) where
  toList := elems
  empty := ⟨[], true, List.nodup_nil⟩
  insert := insert
  erase := erase
  nodup_toList := nodup
  toList_empty := rfl
  mem_insert := mem_insert
  mem_erase s _ _ := s.nodup.mem_erase_iff

end SmallSet
end Vpux.Data
