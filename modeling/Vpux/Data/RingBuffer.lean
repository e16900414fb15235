import Mathlib.Data.List.Basic
import Mathlib.Data.Nat.ModEq

/-! A ring buffer over a storage of fixed capacity, and the list of its elements. -/
namespace Vpux.Data

structure RingBuffer (α : Type) where
  storage : List α
  putInd : ℕ
  getInd : ℕ
  size : ℕ

namespace RingBuffer

variable {α : Type}

def capacity (b : RingBuffer α) : ℕ := b.storage.length

/-- The index after `i`, back to the start at the end of the storage. -/
def wrap (b : RingBuffer α) (i : ℕ) : ℕ := if i + 1 ≥ b.capacity then 0 else i + 1

def push (b : RingBuffer α) (val : α) : RingBuffer α :=
  { b with
    size := b.size + 1
    putInd := b.wrap b.putInd
    storage := b.storage.set (b.wrap b.putInd) val }

def pop (b : RingBuffer α) : RingBuffer α :=
  { b with size := b.size - 1, getInd := b.wrap b.getInd }

def clear (b : RingBuffer α) : RingBuffer α :=
  { b with putInd := b.capacity, getInd := 0, size := 0 }

def reset [Inhabited α] (b : RingBuffer α) (capacity : ℕ) : RingBuffer α :=
  clear { b with storage := b.storage.take capacity ++
    List.replicate (capacity - b.storage.length) default }

def front [Inhabited α] (b : RingBuffer α) : α := b.storage.getD b.getInd default

def empty (b : RingBuffer α) : Bool := b.size = 0

def full (b : RingBuffer α) : Bool := b.size = b.capacity

/-- A buffer as `RingBuffer()` builds it -/
def new : RingBuffer α := ⟨[], 0, 0, 0⟩

/-- The buffer holds the elements of `l`, the front first. -/
structure Holds (b : RingBuffer α) (l : List α) : Prop where
  size : b.size = l.length
  le : l.length ≤ b.capacity
  getInd : 0 < b.capacity → b.getInd < b.capacity
  putInd : 0 < b.capacity → b.wrap b.putInd = (b.getInd + b.size) % b.capacity
  get : ∀ k, k < l.length → b.storage[(b.getInd + k) % b.capacity]? = l[k]?

variable {b : RingBuffer α} {l : List α} {x : α}

theorem wrap_eq {i : ℕ} (h : i < b.capacity) : b.wrap i = (i + 1) % b.capacity := by
  unfold wrap
  split_ifs with hlast
  · have hend : i + 1 = b.capacity := by omega
    rw [hend, Nat.mod_self]
  · rw [Nat.mod_eq_of_lt (by omega)]

theorem slot_ne {g i j c : ℕ} (hij : i < j) (hj : j < c) : (g + i) % c ≠ (g + j) % c := by
  intro h
  have hmod : i ≡ j [MOD c] := Nat.ModEq.add_left_cancel' g h
  have heq : i = j := Nat.ModEq.eq_of_lt_of_lt hmod (by omega) hj
  omega

theorem capacity_push : (b.push x).capacity = b.capacity := List.length_set

theorem Holds.clear (b : RingBuffer α) : b.clear.Holds [] where
  size := rfl
  le := Nat.zero_le _
  getInd h := h
  putInd _ := by
    exact if_pos (Nat.le_succ b.capacity)
  get k hk := absurd hk (Nat.not_lt_zero k)

theorem Holds.reset [Inhabited α] (b : RingBuffer α) (n : ℕ) : (b.reset n).Holds [] := Holds.clear _

theorem capacity_reset [Inhabited α] (b : RingBuffer α) (n : ℕ) : (b.reset n).capacity = n := by
  show (b.storage.take n ++ List.replicate (n - b.storage.length) default).length = n
  rw [List.length_append, List.length_take, List.length_replicate]
  omega

theorem Holds.push (h : b.Holds l) (hroom : l.length < b.capacity) :
    (b.push x).Holds (l ++ [x]) := by
  have hpos : 0 < b.capacity := by omega
  have hput : b.wrap b.putInd = (b.getInd + l.length) % b.capacity := by
    rw [h.putInd hpos, h.size]
  have hlt : b.wrap b.putInd < b.capacity := by
    rw [hput]
    exact Nat.mod_lt _ hpos
  refine ⟨?_, ?_, ?_, ?_, ?_⟩
  · show b.size + 1 = (l ++ [x]).length
    rw [h.size, List.length_append, List.length_singleton]
  · rw [capacity_push, List.length_append, List.length_singleton]
    exact hroom
  · rw [capacity_push]
    exact h.getInd
  · intro _
    have hwrap : (b.push x).wrap (b.wrap b.putInd) = (b.wrap b.putInd + 1) % b.capacity := by
      rw [wrap_eq (by rw [capacity_push]; exact hlt), capacity_push]
    show (b.push x).wrap (b.wrap b.putInd) = (b.getInd + (b.size + 1)) % (b.push x).capacity
    rw [hwrap, capacity_push, hput, Nat.mod_add_mod, h.size, Nat.add_assoc]
  · intro k hk
    rw [List.length_append, List.length_singleton] at hk
    show (b.storage.set (b.wrap b.putInd) x)[(b.getInd + k) % (b.push x).capacity]? = _
    rw [capacity_push]
    by_cases hlast : k = l.length
    · subst hlast
      rw [← hput, List.getElem?_set_self hlt, List.getElem?_append_right le_rfl]
      simp
    · have hold : k < l.length := by omega
      have hne : b.wrap b.putInd ≠ (b.getInd + k) % b.capacity := by
        rw [hput]
        exact (slot_ne hold hroom).symm
      rw [List.getElem?_set_ne hne, h.get k hold, List.getElem?_append_left hold]

theorem Holds.front [Inhabited α] (h : b.Holds (x :: l)) : b.front = x := by
  have hpos : 0 < b.capacity := by
    have := h.le
    rw [List.length_cons] at this
    omega
  have hget := h.get 0 (Nat.succ_pos _)
  rw [Nat.add_zero, Nat.mod_eq_of_lt (h.getInd hpos)] at hget
  unfold RingBuffer.front
  rw [List.getD_eq_getElem?_getD, hget]
  rfl

theorem Holds.pop (h : b.Holds (x :: l)) : b.pop.Holds l := by
  have hle := h.le
  have hsize := h.size
  rw [List.length_cons] at hle hsize
  have hpos : 0 < b.capacity := by omega
  have hget : b.wrap b.getInd = (b.getInd + 1) % b.capacity := wrap_eq (h.getInd hpos)
  refine ⟨?_, Nat.le_of_succ_le hle, ?_, ?_, ?_⟩
  · show b.size - 1 = l.length
    omega
  · intro _
    show b.wrap b.getInd < b.capacity
    rw [hget]
    exact Nat.mod_lt _ hpos
  · intro _
    show b.wrap b.putInd = (b.wrap b.getInd + (b.size - 1)) % b.capacity
    rw [h.putInd hpos, hget, Nat.mod_add_mod]
    congr 1
    omega
  · intro k hk
    show b.storage[(b.wrap b.getInd + k) % b.capacity]? = l[k]?
    rw [hget, Nat.mod_add_mod, Nat.add_assoc, Nat.add_comm 1 k,
      h.get (k + 1) (by rw [List.length_cons]; omega), List.getElem?_cons_succ]

theorem Holds.empty_iff (h : b.Holds l) : b.empty = true ↔ l = [] := by
  unfold RingBuffer.empty
  rw [decide_eq_true_eq, h.size, List.length_eq_zero_iff]

theorem Holds.full_iff (h : b.Holds l) : b.full = true ↔ l.length = b.capacity := by
  unfold RingBuffer.full
  rw [decide_eq_true_eq, h.size]

end RingBuffer
end Vpux.Data
