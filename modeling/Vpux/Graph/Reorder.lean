import Mathlib.Data.List.Nodup
import Mathlib.Data.List.Perm.Basic
import Mathlib.Data.Set.Basic
import Mathlib.Logic.Relation

/-! Operations on a memory in different orders. Orders that keep every two conflicting operations
as they are leave the same memory. -/
namespace Vpux.Graph
open Relation

variable {ι α V : Type*}

/-- An operation leaves the memory outside of `writes` alone, and what it writes there depends on
`reads` only. -/
structure Operation (α V : Type*) where
  reads : Set α
  writes : Set α
  effect : (α → V) → α → V
  frame : ∀ m, ∀ x ∉ writes, effect m x = m x
  determined : ∀ m m', (∀ x ∈ reads, m x = m' x) → ∀ x ∈ writes, effect m x = effect m' x

namespace Operation

variable {p q : Operation α V}

/-- One of the two writes what the other one uses. -/
def Conflicts (p q : Operation α V) : Prop :=
  ∃ x, (x ∈ p.writes ∧ (x ∈ q.reads ∨ x ∈ q.writes)) ∨ (x ∈ q.writes ∧ x ∈ p.reads)

theorem Conflicts.symm (h : p.Conflicts q) : q.Conflicts p := by
  obtain ⟨x, ⟨hp, hq | hq⟩ | ⟨hq, hp⟩⟩ := h
  · exact ⟨x, Or.inr ⟨hp, hq⟩⟩
  · exact ⟨x, Or.inl ⟨hq, Or.inr hp⟩⟩
  · exact ⟨x, Or.inl ⟨hq, Or.inl hp⟩⟩

/-- What the first operation leaves behind the second one, where the second one does not write. -/
theorem effect_of_notMem (h : ¬ p.Conflicts q) (m : α → V) {x : α} (hx : x ∉ q.writes) :
    p.effect (q.effect m) x = q.effect (p.effect m) x := by
  rw [q.frame (p.effect m) x hx]
  by_cases hp : x ∈ p.writes
  · exact p.determined _ _ (fun y hy => q.frame m y fun hq => h ⟨y, Or.inr ⟨hq, hy⟩⟩) x hp
  · rw [p.frame _ x hp, p.frame _ x hp, q.frame m x hx]

theorem effect_comm (h : ¬ p.Conflicts q) (m : α → V) :
    p.effect (q.effect m) = q.effect (p.effect m) := by
  funext x
  by_cases hq : x ∈ q.writes
  · have hp : x ∉ p.writes := fun hp => h ⟨x, Or.inl ⟨hp, Or.inr hq⟩⟩
    exact (effect_of_notMem (fun hc => h hc.symm) m hp).symm
  · exact effect_of_notMem h m hq

end Operation

/-- The memory after the operations of an order. -/
def execute (op : ι → Operation α V) (order : List ι) (m : α → V) : α → V :=
  order.foldl (fun m i => (op i).effect m) m

variable {op : ι → Operation α V} {order order' : List ι} {r s : ι → ι → Prop}

theorem execute_front {i : ι} (h : ∀ j ∈ order, ¬ (op i).Conflicts (op j)) (m : α → V) :
    execute op order ((op i).effect m) = (op i).effect (execute op order m) := by
  induction order generalizing m with
  | nil => rfl
  | cons j order ih =>
    have hcomm := Operation.effect_comm (h j List.mem_cons_self) m
    unfold execute at ih ⊢
    rw [List.foldl_cons, List.foldl_cons, ← hcomm]
    exact ih (fun k hk => h k (List.mem_cons_of_mem j hk)) _

theorem execute_append (order order' : List ι) (m : α → V) :
    execute op (order ++ order') m = execute op order' (execute op order m) :=
  List.foldl_append

/-- The one order relates its conflicting operations by `s`, the other one turns no pair of `s`
around. The head of the first one can be brought to the front of the second one. -/
theorem execute_eq_of_pairwise (hperm : order.Perm order')
    (h : order.Pairwise fun i j => (op i).Conflicts (op j) → s i j)
    (h' : order'.Pairwise fun i j => ¬ s j i) (m : α → V) :
    execute op order' m = execute op order m := by
  induction order generalizing order' m with
  | nil => rw [List.nil_perm.mp hperm]
  | cons i order ih =>
    obtain ⟨front, back, rfl⟩ := List.append_of_mem (hperm.mem_iff.mp List.mem_cons_self)
    have hrest : order.Perm (front ++ back) :=
      (hperm.trans List.perm_middle).cons_inv
    obtain ⟨hhead, htail⟩ := List.pairwise_cons.mp h
    obtain ⟨hfront, hback, hcross⟩ := List.pairwise_append.mp h'
    have hfree : ∀ j ∈ front, ¬ (op i).Conflicts (op j) := fun j hj hc =>
      hcross j hj i List.mem_cons_self
        (hhead j (hrest.mem_iff.mpr (List.mem_append_left back hj)) hc)
    have hkept : (front ++ back).Pairwise fun i j => ¬ s j i :=
      h'.sublist ((List.sublist_cons_self i back).append_left front)
    have hih := ih hrest htail hkept ((op i).effect m)
    rw [execute_append, execute_front hfree] at hih
    rw [execute_append]
    exact hih

section Dependencies

variable [DecidableEq ι]

/-- Every operation comes after those that it depends on. -/
def Respects (r : ι → ι → Prop) (order : List ι) : Prop :=
  ∀ i j, r i j → j ∈ order → order.idxOf i < order.idxOf j

theorem Respects.lt_of_transGen (h : Respects r order) {i j : ι} (hij : TransGen r i j)
    (hj : j ∈ order) : order.idxOf i < order.idxOf j := by
  induction hij with
  | single hr => exact h _ _ hr hj
  | @tail k j _ hr ih =>
    have hlt := h k j hr hj
    exact (ih (List.idxOf_lt_length_iff.mp (hlt.trans_le List.idxOf_le_length))).trans hlt

theorem Respects.pairwise (h : Respects r order) (hnodup : order.Nodup) :
    order.Pairwise fun i j => ¬ TransGen r j i := by
  rw [List.pairwise_iff_getElem]
  intro a b ha hb hab hr
  have hlt := h.lt_of_transGen hr (List.getElem_mem ha)
  rw [hnodup.idxOf_getElem b hb, hnodup.idxOf_getElem a ha] at hlt
  omega

/-- An operation may go behind those that it depends on. -/
theorem Respects.snoc (h : Respects r order) {x : ι} (hx : x ∉ order)
    (hbefore : ∀ i, r i x → i ∈ order) : Respects r (order ++ [x]) := by
  intro i j hij hj
  rcases List.mem_append.mp hj with hj | hj
  · have hlt := h i j hij hj
    have hi : i ∈ order := List.idxOf_lt_length_iff.mp (hlt.trans_le List.idxOf_le_length)
    rwa [List.idxOf_append_of_mem hi, List.idxOf_append_of_mem hj]
  · obtain rfl := List.mem_singleton.mp hj
    have hi := hbefore i hij
    rw [List.idxOf_append_of_mem hi, List.idxOf_append_of_notMem hx]
    exact (List.idxOf_lt_length_iff.mpr hi).trans_le (Nat.le_add_right ..)

/-- An order that respects the dependencies may take the place of one whose conflicts they
cover. -/
theorem Respects.execute_eq (h' : Respects r order') (hperm : order.Perm order')
    (hnodup : order.Nodup)
    (h : order.Pairwise fun i j => (op i).Conflicts (op j) → TransGen r i j) (m : α → V) :
    execute op order' m = execute op order m :=
  execute_eq_of_pairwise hperm h (h'.pairwise (hperm.nodup hnodup)) m

theorem Respects.execute_unique (h : Respects r order) (h' : Respects r order')
    (hperm : order.Perm order') (hnodup : order.Nodup)
    (hcover : ∀ i ∈ order, ∀ j ∈ order, i ≠ j → (op i).Conflicts (op j) →
      TransGen r i j ∨ TransGen r j i) (m : α → V) :
    execute op order' m = execute op order m := by
  apply h'.execute_eq hperm hnodup
  have hpairs := (h.pairwise hnodup).and hnodup
  exact hpairs.imp_of_mem fun hi hj hij hc =>
    (hcover _ hi _ hj hij.2 hc).resolve_right hij.1

end Dependencies

end Vpux.Graph
