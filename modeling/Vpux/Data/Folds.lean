import Mathlib.Data.BitVec
import Mathlib.Data.List.Basic

/-! Rules for loops over a list. -/
namespace Vpux.Data

variable {α β : Type}

variable {f : β → α → Option β} {b b' : β}

open List

theorem foldlM_rest {P : β → List α → Prop}
    (hstep : ∀ b a rest b', P b (a :: rest) → f b a = some b' → P b' rest) {l : List α} (hb : P b l)
    (h : l.foldlM f b = some b') : P b' [] := by
  induction l generalizing b with
  | nil =>
    obtain rfl : b = b' := by simpa using h
    exact hb
  | cons a l ih =>
    rw [foldlM_cons, Option.bind_eq_bind, Option.bind_eq_some_iff] at h
    obtain ⟨mid, hmid, hrest⟩ := h
    exact ih (hstep b a l mid hb hmid) hrest

variable {γ : Type}

theorem mapM_eq_map {g : α → Option γ} {k : α → γ} {l : List α} (h : ∀ a ∈ l, g a = some (k a)) :
    l.mapM g = some (l.map k) := by
  induction l with
  | nil => rfl
  | cons a l ih =>
    have hrest : l.mapM g = some (l.map k) := ih fun b hb => h b (mem_cons_of_mem a hb)
    rw [mapM_cons, h a (by simp), Option.bind_eq_bind, Option.bind_some, hrest]
    rfl

theorem mapM_guard_eq_some {bad : α → Prop} [DecidablePred bad] {k : α → γ} {l : List α}
    {r : List γ} : (l.mapM fun a => if bad a then none else some (k a)) = some r ↔
      (∀ a ∈ l, ¬ bad a) ∧ l.map k = r := by
  induction l generalizing r with
  | nil => simp
  | cons a l ih =>
    rw [mapM_cons]
    by_cases ha : bad a
    · simp [ha]
    · simp only [ha, if_false, Option.bind_eq_bind, Option.bind_some, Option.bind_eq_some_iff, ih,
        Option.pure_def, Option.some.injEq, forall_mem_cons, not_false_eq_true, true_and,
        map_cons]
      constructor
      · rintro ⟨rest, ⟨hall, rfl⟩, rfl⟩
        exact ⟨hall, rfl⟩
      · rintro ⟨hall, rfl⟩
        exact ⟨_, ⟨hall, rfl⟩, rfl⟩

theorem mapM_ok {ε γ : Type} {g : α → Except ε γ} {k : α → γ} {l : List α}
    (h : ∀ a ∈ l, g a = .ok (k a)) : l.mapM g = .ok (l.map k) := by
  induction l with
  | nil => rfl
  | cons a l ih =>
    have hrest : l.mapM g = .ok (l.map k) := ih fun b hb => h b (mem_cons_of_mem a hb)
    rw [mapM_cons, h a (by simp), hrest]
    rfl

theorem exists_rel_of_mem {ι κ : Type*} {C : ι → κ → Prop} {l : List ι} {l' : List κ}
    (hC : List.Forall₂ C l l') {x : ι} (hx : x ∈ l) : ∃ y ∈ l', C x y := by
  induction hC with
  | nil => simp at hx
  | @cons a b _ _ hab _ ih =>
    rcases mem_cons.mp hx with rfl | hx
    · exact ⟨b, mem_cons_self, hab⟩
    · obtain ⟨y, hy, hxy⟩ := ih hx
      exact ⟨y, mem_cons_of_mem b hy, hxy⟩

section Except

variable {ε γ : Type}

theorem bind_eq_ok {x : Except ε α} {g : α → Except ε γ} {c : γ} :
    (x >>= g) = .ok c ↔ ∃ a, x = .ok a ∧ g a = .ok c := by
  cases x with
  | error e =>
    constructor
    · intro h
      cases h
    · rintro ⟨a, h, -⟩
      cases h
  | ok a =>
    constructor
    · intro h
      exact ⟨a, rfl, h⟩
    · rintro ⟨a, h, hg⟩
      cases h
      exact hg

theorem foldlM_congr {g g' : β → α → Except ε β} {l : List α}
    (h : ∀ b, ∀ a ∈ l, g b a = g' b a) (b : β) : l.foldlM g b = l.foldlM g' b := by
  induction l generalizing b with
  | nil => rfl
  | cons a l ih =>
    rw [foldlM_cons, foldlM_cons, h b a (by simp)]
    exact bind_congr fun c => ih (fun d x hx => h d x (mem_cons_of_mem a hx)) c

theorem foldlM_isOk {g : β → α → Except ε β} (h : ∀ b a, ∃ b', g b a = .ok b') (l : List α)
    (b : β) : ∃ b', l.foldlM g b = .ok b' := by
  induction l generalizing b with
  | nil => exact ⟨b, rfl⟩
  | cons a l ih =>
    obtain ⟨middle, hmiddle⟩ := h b a
    obtain ⟨b', hb'⟩ := ih middle
    exact ⟨b', by rw [foldlM_cons, hmiddle]; exact hb'⟩

theorem foldlM_runs {g : β → α → Except ε β} {l : List α} (h : l.foldlM g b = .ok b') :
    ∀ a ∈ l, ∃ d d', g d a = .ok d' := by
  induction l generalizing b with
  | nil => simp
  | cons a l ih =>
    rw [foldlM_cons, bind_eq_ok] at h
    obtain ⟨d, hd, hrest⟩ := h
    intro x hx
    rcases mem_cons.mp hx with rfl | hx
    · exact ⟨b, d, hd⟩
    · exact ih hrest x hx

theorem foldlM_ok_keeps {P : β → Prop} {g : β → α → Except ε β} {l : List α}
    (hstep : ∀ b b', ∀ a ∈ l, P b → g b a = .ok b' → P b') (hb : P b) (h : l.foldlM g b = .ok b') :
    P b' := by
  induction l generalizing b with
  | nil =>
    cases h
    exact hb
  | cons a l ih =>
    rw [foldlM_cons, bind_eq_ok] at h
    obtain ⟨d, hd, hrest⟩ := h
    exact ih (fun c c' x hx => hstep c c' x (mem_cons_of_mem a hx))
      (hstep b d a (by simp) hb hd) hrest

theorem foldlM_ok_runs {P : β → Prop} {g : β → α → Except ε β} {l : List α}
    (hstep : ∀ b b', ∀ a ∈ l, P b → g b a = .ok b' → P b') (hb : P b) (h : l.foldlM g b = .ok b') :
    ∀ a ∈ l, ∃ d d', P d ∧ g d a = .ok d' := by
  induction l generalizing b with
  | nil => simp
  | cons a l ih =>
    rw [foldlM_cons, bind_eq_ok] at h
    obtain ⟨d, hd, hrest⟩ := h
    intro x hx
    rcases mem_cons.mp hx with rfl | hx
    · exact ⟨b, d, hb, hd⟩
    · exact ih (fun c c' y hy => hstep c c' y (mem_cons_of_mem a hy))
        (hstep b d a (by simp) hb hd) hrest x hx

theorem mapM_ok_map {δ : Type} {g : α → Except ε γ} {g' : α → Except ε δ} {k : γ → δ} {l : List α}
    {r : List γ} (hstep : ∀ a ∈ l, ∀ b, g a = .ok b → g' a = .ok (k b)) (h : l.mapM g = .ok r) :
    l.mapM g' = .ok (r.map k) := by
  induction l generalizing r with
  | nil =>
    obtain rfl : [] = r := by simpa [pure, Except.pure] using h
    rfl
  | cons a l ih =>
    rw [mapM_cons, bind_eq_ok] at h
    obtain ⟨b, hb, hrest⟩ := h
    obtain ⟨r', hr', hcons⟩ := bind_eq_ok.mp hrest
    obtain rfl : b :: r' = r := Except.ok.inj hcons
    rw [mapM_cons, hstep a (by simp) b hb,
      ih (fun x hx => hstep x (mem_cons_of_mem a hx)) hr']
    rfl

theorem exists_mapM_ok {g : α → Except ε γ} {R : α → γ → Prop} {l : List α}
    (h : ∀ a ∈ l, ∃ b, g a = .ok b ∧ R a b) : ∃ r, l.mapM g = .ok r ∧ List.Forall₂ R l r := by
  induction l with
  | nil => exact ⟨[], rfl, .nil⟩
  | cons a l ih =>
    obtain ⟨b, hb, hR⟩ := h a (by simp)
    obtain ⟨r, hr, hrest⟩ := ih fun x hx => h x (mem_cons_of_mem a hx)
    refine ⟨b :: r, ?_, .cons hR hrest⟩
    rw [mapM_cons, hb, hr]
    rfl

theorem mapM_runs {g : α → Except ε γ} {l : List α} {r : List γ} (h : l.mapM g = .ok r) :
    ∀ a ∈ l, ∃ b, g a = .ok b := by
  induction l generalizing r with
  | nil => simp
  | cons a l ih =>
    rw [mapM_cons, bind_eq_ok] at h
    obtain ⟨b, hb, hrest⟩ := h
    obtain ⟨r', hr', -⟩ := bind_eq_ok.mp hrest
    intro x hx
    rcases mem_cons.mp hx with rfl | hx
    · exact ⟨b, hb⟩
    · exact ih hr' x hx

theorem forall₂_of_mapM {g : α → Except ε γ} {l : List α} {r : List γ} (h : l.mapM g = .ok r) :
    List.Forall₂ (fun a b => g a = .ok b) l r := by
  induction l generalizing r with
  | nil =>
    cases h
    exact .nil
  | cons a l ih =>
    rw [mapM_cons, bind_eq_ok] at h
    obtain ⟨b, hb, hrest⟩ := h
    obtain ⟨r', hr', hcons⟩ := bind_eq_ok.mp hrest
    cases hcons
    exact .cons hb (ih hr')

end Except

section Counter

variable {σ : Type} {m : Type → Type} [Monad m] [LawfulMonad m]

/-- A state of its own that a loop updates from the number of the pass alone. -/
def counterAt (next : ℕ → σ → σ) (start : σ) : ℕ → σ
  | 0 => start
  | n + 1 => next n (counterAt next start n)

theorem foldlM_counter (next : ℕ → σ → σ) (start : σ) (body : σ → ℕ → β → m β) (b : β) (n : ℕ) :
    (List.range n).foldlM (fun (state : σ × β) i => do
        let b ← body (next i state.1) i state.2
        pure (next i state.1, b)) (start, b) = (do
      let b ← (List.range n).foldlM (fun b i => body (counterAt next start (i + 1)) i b) b
      pure (counterAt next start n, b)) := by
  induction n with
  | zero => simp [counterAt]
  | succ n ih =>
    rw [range_succ, foldlM_append, ih, foldlM_append]
    simp [counterAt]

end Counter

theorem getElem?_flatMap_range {g : ℕ → List γ} {n k i j : ℕ} (hlength : ∀ m < n, (g m).length = k)
    (hi : i < n) (hj : j < k) :
    ((List.range n).flatMap g)[i * k + j]? = (g i)[j]? := by
  induction n with
  | zero => simp at hi
  | succ n ih =>
    have hbefore : ((List.range n).flatMap g).length = n * k := by
      rw [length_flatMap, map_congr_left fun m hm =>
        hlength m (Nat.lt_succ_of_lt (mem_range.mp hm)), map_const', length_range,
        sum_replicate_nat]
    rw [range_succ, flatMap_append, getElem?_append, hbefore]
    split_ifs with hlt
    · have hi' : i < n := by
        by_contra hge
        have := Nat.mul_le_mul_right k (Nat.le_of_not_lt hge)
        omega
      exact ih (fun m hm => hlength m (Nat.lt_succ_of_lt hm)) hi'
    · have hin : i = n := by
        by_contra hne
        have := Nat.mul_le_mul_right k (show i + 1 ≤ n by omega)
        rw [Nat.succ_mul] at this
        omega
      subst hin
      simp

section Sums

theorem toNat_sum {w : ℕ} (l : List (BitVec w)) :
    l.sum.toNat = (l.map BitVec.toNat).sum % 2 ^ w := by
  induction l with
  | nil => simp
  | cons a l ih =>
    rw [sum_cons, BitVec.toNat_add, ih, map_cons, sum_cons, Nat.add_mod_mod]

end Sums

end Vpux.Data
