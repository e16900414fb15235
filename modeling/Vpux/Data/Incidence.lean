import Vpux.Data.TaskSet
import Mathlib.Logic.Function.Basic

/-! A relation between barriers and tasks stored from both sides. Every operation
updates the two sides together, so agreement is a field and not a side condition. -/
namespace Vpux.Data
open TaskSet

variable {S : Type} [TaskSet S]

def eraseAt (m : ℕ → S) (keys : List ℕ) (x : ℕ) : ℕ → S :=
  keys.foldl (fun m k => Function.update m k (erase (m k) x)) m

def insertAt (m : ℕ → S) (keys : List ℕ) (x : ℕ) : ℕ → S :=
  keys.foldl (fun m k => Function.update m k (insert (m k) x)) m

theorem mem_update_insert (m : ℕ → S) (k x j y : ℕ) :
    y ∈ toList (Function.update m k (insert (m k) x) j) ↔ (j = k ∧ y = x) ∨ y ∈ toList (m j) := by
  by_cases h : j = k
  · subst h; simp
  · simp [h]

theorem mem_update_erase (m : ℕ → S) (k x j y : ℕ) :
    y ∈ toList (Function.update m k (erase (m k) x) j) ↔ ¬(j = k ∧ y = x) ∧ y ∈ toList (m j) := by
  by_cases h : j = k
  · subst h; simp
  · simp [h]

theorem mem_eraseAt (m : ℕ → S) (keys : List ℕ) (x j y : ℕ) :
    y ∈ toList (eraseAt m keys x j) ↔ ¬(j ∈ keys ∧ y = x) ∧ y ∈ toList (m j) := by
  induction keys generalizing m with
  | nil => simp [eraseAt]
  | cons k keys ih =>
    have hstep : eraseAt m (k :: keys) x = eraseAt (Function.update m k (erase (m k) x)) keys x :=
      rfl
    rw [hstep, ih, mem_update_erase, List.mem_cons]
    tauto

theorem mem_insertAt (m : ℕ → S) (keys : List ℕ) (x j y : ℕ) :
    y ∈ toList (insertAt m keys x j) ↔ (j ∈ keys ∧ y = x) ∨ y ∈ toList (m j) := by
  induction keys generalizing m with
  | nil => simp [insertAt]
  | cons k keys ih =>
    have hstep : insertAt m (k :: keys) x = insertAt (Function.update m k (insert (m k) x)) keys
        x := rfl
    rw [hstep, ih, mem_update_insert, List.mem_cons]
    tauto

/-- The two views of one relation between barriers and tasks. -/
structure Incidence (S : Type) [TaskSet S] where
  byBarrier : ℕ → S
  byTask : ℕ → S
  agree : ∀ b t, t ∈ toList (byBarrier b) ↔ b ∈ toList (byTask t)

namespace Incidence

def Rel (i : Incidence S) (t b : ℕ) : Prop := b ∈ toList (i.byTask t)

instance (i : Incidence S) (t b : ℕ) : Decidable (i.Rel t b) :=
  inferInstanceAs (Decidable (b ∈ toList (i.byTask t)))

theorem mem_byBarrier (i : Incidence S) (b t : ℕ) : t ∈ toList (i.byBarrier b) ↔ i.Rel t b :=
  i.agree b t

theorem mem_byTask (i : Incidence S) (t b : ℕ) : b ∈ toList (i.byTask t) ↔ i.Rel t b := Iff.rfl

def nothing : Incidence S where
  byBarrier _ := empty
  byTask _ := empty
  agree := by simp

def link (i : Incidence S) (b t : ℕ) : Incidence S where
  byBarrier := Function.update i.byBarrier b (insert (i.byBarrier b) t)
  byTask := Function.update i.byTask t (insert (i.byTask t) b)
  agree b' t' := by rw [mem_update_insert, mem_update_insert, i.agree, and_comm]

def unlink (i : Incidence S) (b t : ℕ) : Incidence S where
  byBarrier := Function.update i.byBarrier b (erase (i.byBarrier b) t)
  byTask := Function.update i.byTask t (erase (i.byTask t) b)
  agree b' t' := by rw [mem_update_erase, mem_update_erase, i.agree, and_comm (a := b' = b)]

def setTask (i : Incidence S) (t : ℕ) (bs : S) : Incidence S where
  byBarrier := insertAt (eraseAt i.byBarrier (toList (i.byTask t)) t) (toList bs) t
  byTask := Function.update i.byTask t bs
  agree b' t' := by
    rw [mem_insertAt, mem_eraseAt, i.agree]
    by_cases h : t' = t
    · subst h; simp
    · simp [h]

def clear (i : Incidence S) (b : ℕ) : Incidence S where
  byBarrier := Function.update i.byBarrier b empty
  byTask := eraseAt i.byTask (toList (i.byBarrier b)) b
  agree b' t' := by
    rw [mem_eraseAt, i.agree]
    by_cases h : b' = b
    · subst h; simp
    · simp [h, i.agree]

@[simp] theorem rel_nothing (t b : ℕ) : ¬ (nothing : Incidence S).Rel t b := by
  simp [nothing, Rel]

variable (i : Incidence S)
include i

@[simp] theorem rel_link (b t t' b' : ℕ) :
    (i.link b t).Rel t' b' ↔ (t' = t ∧ b' = b) ∨ i.Rel t' b' :=
  mem_update_insert i.byTask t b t' b'

@[simp] theorem rel_unlink (b t t' b' : ℕ) :
    (i.unlink b t).Rel t' b' ↔ ¬(t' = t ∧ b' = b) ∧ i.Rel t' b' :=
  mem_update_erase i.byTask t b t' b'

@[simp] theorem rel_setTask (t : ℕ) (bs : S) (t' b' : ℕ) :
    (i.setTask t bs).Rel t' b' ↔ if t' = t then b' ∈ toList bs else i.Rel t' b' := by
  by_cases h : t' = t
  · subst h; simp [Rel, setTask]
  · simp [Rel, setTask, h]

@[simp] theorem rel_clear (b t' b' : ℕ) :
    (i.clear b).Rel t' b' ↔ b' ≠ b ∧ i.Rel t' b' := by
  rw [← mem_byBarrier, ← mem_byBarrier]
  by_cases h : b' = b
  · subst h; simp [clear]
  · simp [clear, h]

theorem byTask_link_of_ne (b : ℕ) {t t' : ℕ} (h : t' ≠ t) :
    (i.link b t).byTask t' = i.byTask t' := Function.update_of_ne h _ _

theorem byTask_unlink_of_ne (b : ℕ) {t t' : ℕ} (h : t' ≠ t) :
    (i.unlink b t).byTask t' = i.byTask t' := Function.update_of_ne h _ _

theorem byBarrier_link_of_ne (t : ℕ) {b b' : ℕ} (h : b' ≠ b) :
    (i.link b t).byBarrier b' = i.byBarrier b' := Function.update_of_ne h _ _

theorem byBarrier_unlink_of_ne (t : ℕ) {b b' : ℕ} (h : b' ≠ b) :
    (i.unlink b t).byBarrier b' = i.byBarrier b' := Function.update_of_ne h _ _

theorem byBarrier_clear_of_ne {b b' : ℕ} (h : b' ≠ b) :
    (i.clear b).byBarrier b' = i.byBarrier b' := Function.update_of_ne h _ _

theorem byTask_clear_of_not_rel (b : ℕ) {t : ℕ} (h : ¬ i.Rel t b) :
    (i.clear b).byTask t = i.byTask t := by
  have hk : t ∉ toList (i.byBarrier b) := fun hm => h ((i.mem_byBarrier b t).mp hm)
  have hframe : ∀ (keys : List ℕ) (m : ℕ → S), t ∉ keys → eraseAt m keys b t = m t := by
    intro keys
    induction keys with
    | nil => intro m _; rfl
    | cons k keys ih =>
      intro m hn
      rw [List.mem_cons, not_or] at hn
      have hstep : eraseAt m (k :: keys) b = eraseAt (Function.update m k (erase (m k) b)) keys b :=
        rfl
      rw [hstep, ih _ hn.2, Function.update_of_ne hn.1]
  exact hframe _ _ hk

end Incidence
end Vpux.Data
