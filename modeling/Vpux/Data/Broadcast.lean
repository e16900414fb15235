import Vpux.Data.Grid

/-! Element-wise operations on two shapes that are broadcast against each other, and what they
compute when neighbouring dimensions are taken together. -/
namespace Vpux.Data

/-- Dimension by dimension the sizes agree, or one of them is one. -/
def Broadcasts (s t : List ℕ) : Prop := List.Forall₂ (fun a b => a = b ∨ a = 1 ∨ b = 1) s t

instance (s t : List ℕ) : Decidable (Broadcasts s t) :=
  inferInstanceAs (Decidable (List.Forall₂ _ s t))

def broadcast (s t : List ℕ) : List ℕ := List.zipWith max s t

/-- The point of an operand for a point of the result. -/
def clip (s point : List ℕ) : List ℕ := List.zipWith (fun size i => if size = 1 then 0 else i) s
    point

/-- The values of the result in row-major order, for operands given by their values in that
order. -/
def elementwise {α β γ : Type} (f : α → β → γ) (s t : List ℕ) (x : ℕ → α) (y : ℕ → β) : List γ :=
  (grid ((broadcast s t).map List.range)).map fun point =>
    f (x (rowMajor s (clip s point))) (y (rowMajor t (clip t point)))

/-- The positions an operand is read at, for the sizes of its dimensions and of the result's. -/
def reads (sizes : List (ℕ × ℕ)) : List ℕ :=
  (grid (sizes.map fun p => List.range p.2)).map fun point =>
    rowMajor (sizes.map Prod.fst) (clip (sizes.map Prod.fst) point)

open List

theorem reads_cons (p : ℕ × ℕ) (sizes : List (ℕ × ℕ)) : reads (p :: sizes) =
    (List.range p.2).flatMap fun i =>
      (reads sizes).map ((if p.1 = 1 then 0 else i) * (sizes.map Prod.fst).prod + ·) := by
  simp only [reads, map_cons, grid, map_flatMap, map_map]
  rfl

theorem elementwise_eq {α β γ : Type} (f : α → β → γ) {s t : List ℕ} (h : s.length = t.length)
    (x : ℕ → α) (y : ℕ → β) : elementwise f s t x y =
      List.zipWith (fun p q => f (x p) (y q)) (reads (s.zip (broadcast s t)))
        (reads (t.zip (broadcast s t))) := by
  have hlength : s.length = (broadcast s t).length ∧ t.length = (broadcast s t).length := by
    rw [broadcast, length_zipWith]
    omega
  have hfst : ∀ l : List ℕ, l.length = (broadcast s t).length →
      (l.zip (broadcast s t)).map Prod.fst = l :=
    fun l hl => map_fst_zip hl.le
  have hsnd : ∀ l : List ℕ, l.length = (broadcast s t).length →
      ((l.zip (broadcast s t)).map fun p => List.range p.2) = (broadcast s t).map List.range := by
    intro l hl
    rw [show (fun p : ℕ × ℕ => List.range p.2) = List.range ∘ Prod.snd from rfl, ← map_map,
      map_snd_zip hl.ge]
  rw [elementwise, reads, reads, hfst s hlength.1, hfst t hlength.2, hsnd s hlength.1,
    hsnd t hlength.2, zipWith_map, zipWith_self]

section Trivial

theorem reads_one (sizes : List (ℕ × ℕ)) : reads ((1, 1) :: sizes) = reads sizes := by
  simp [reads_cons]

theorem reads_replicate_one (k : ℕ) (sizes : List (ℕ × ℕ)) :
    reads (List.replicate k (1, 1) ++ sizes) = reads sizes := by
  induction k with
  | zero => rfl
  | succ k ih => rw [replicate_succ, cons_append, reads_one, ih]

theorem prod_filter_ne_one {ι : Type*} (g h : ι → ℕ) (l : List ι)
    (hl : ∀ i ∈ l, h i = 1 → g i = 1) :
    ((l.filter fun i => h i ≠ 1).map g).prod = (l.map g).prod := by
  induction l with
  | nil => rfl
  | cons i l ih =>
    have hrest := ih fun j hj => hl j (mem_cons_of_mem i hj)
    by_cases hone : h i = 1
    · rw [filter_cons_of_neg (by simpa using hone), hrest, map_cons, prod_cons,
        hl i mem_cons_self hone, Nat.one_mul]
    · rw [filter_cons_of_pos (by simpa using hone), map_cons, prod_cons, hrest,
        map_cons, prod_cons]

theorem reads_filter (sizes : List (ℕ × ℕ)) (h : ∀ p ∈ sizes, p.2 = 1 → p.1 = 1) :
    reads (sizes.filter fun p => p.2 ≠ 1) = reads sizes := by
  induction sizes with
  | nil => rfl
  | cons p sizes ih =>
    have hrest : ∀ q ∈ sizes, q.2 = 1 → q.1 = 1 := fun q hq => h q (mem_cons_of_mem p hq)
    by_cases hone : p.2 = 1
    · obtain rfl : p = (1, 1) := Prod.ext (h p mem_cons_self hone) hone
      rw [filter_cons_of_neg (by simp), ih hrest, reads_one]
    · rw [filter_cons_of_pos (by simpa using hone), reads_cons, reads_cons, ih hrest,
        prod_filter_ne_one Prod.fst Prod.snd sizes hrest]

end Trivial

section Groups

def groupSizes (g : List (ℕ × ℕ)) : ℕ × ℕ := ((g.map Prod.fst).prod, (g.map Prod.snd).prod)

/-- The operand has all values of the group or the same value throughout. -/
def Uniform (g : List (ℕ × ℕ)) : Prop := (∀ p ∈ g, p.1 = p.2) ∨ ∀ p ∈ g, p.1 = 1

theorem flatMap_range_mul {β : Type*} (m n : ℕ) (f : ℕ → List β) :
    (List.range (m * n)).flatMap f =
      (List.range m).flatMap fun i => (List.range n).flatMap fun j => f (i * n + j) := by
  induction m with
  | zero => simp
  | succ m ih =>
    rw [Nat.succ_mul, range_add, flatMap_append, ih, range_succ,
      flatMap_append, flatMap_singleton, flatMap_map]

variable {g : List (ℕ × ℕ)}

theorem reads_append_of_eq (h : ∀ p ∈ g, p.1 = p.2) (sizes : List (ℕ × ℕ)) :
    reads (g ++ sizes) = (List.range (g.map Prod.snd).prod).flatMap fun i =>
      (reads sizes).map (i * (sizes.map Prod.fst).prod + ·) := by
  induction g with
  | nil => simp
  | cons p g ih =>
    have hp : p.1 = p.2 := h p mem_cons_self
    have hrest : ∀ q ∈ g, q.1 = q.2 := fun q hq => h q (mem_cons_of_mem p hq)
    have hprod : (g.map Prod.fst).prod = (g.map Prod.snd).prod := by
      rw [map_congr_left hrest]
    rw [cons_append, reads_cons, ih hrest, map_cons, prod_cons, flatMap_range_mul]
    apply flatMap_congr
    intro i hi
    have hplace : (if p.1 = 1 then 0 else i) = i := by
      split_ifs with hone
      · rw [mem_range] at hi
        omega
      · rfl
    rw [hplace, map_flatMap, map_append, prod_append, hprod]
    apply flatMap_congr
    intro j _
    rw [map_map]
    apply map_congr_left
    intro k _
    simp only [Function.comp_apply]
    ring

theorem reads_append_of_one (h : ∀ p ∈ g, p.1 = 1) (sizes : List (ℕ × ℕ)) :
    reads (g ++ sizes) = (List.range (g.map Prod.snd).prod).flatMap fun _ => reads sizes := by
  induction g with
  | nil => simp
  | cons p g ih =>
    rw [cons_append, reads_cons, ih fun q hq => h q (mem_cons_of_mem p hq),
      map_cons, prod_cons, flatMap_range_mul]
    simp [h p mem_cons_self]

theorem reads_groupSizes (h : Uniform g) (sizes : List (ℕ × ℕ)) :
    reads (groupSizes g :: sizes) = reads (g ++ sizes) := by
  rw [reads_cons, groupSizes]
  obtain hsame | hone := h
  · rw [reads_append_of_eq hsame]
    apply flatMap_congr
    intro i hi
    have hprod : (g.map Prod.fst).prod = (g.map Prod.snd).prod := by rw [map_congr_left hsame]
    have hplace : (if (g.map Prod.fst).prod = 1 then 0 else i) = i := by
      split_ifs with hprodOne
      · rw [mem_range, ← hprod, hprodOne] at hi
        omega
      · rfl
    rw [hplace]
  · have hprod : (g.map Prod.fst).prod = 1 := by
      rw [map_congr_left hone, map_const', prod_replicate, one_pow]
    simp only [reads_append_of_one hone, hprod, if_pos, Nat.zero_mul, Nat.zero_add, map_id']

theorem prod_map_groupSizes (f : ℕ × ℕ → ℕ) (gs : List (List (ℕ × ℕ)))
    (h : ∀ g, f (groupSizes g) = (g.map f).prod) :
    ((gs.map groupSizes).map f).prod = (gs.flatten.map f).prod := by
  rw [map_flatten, prod_flatten, map_map, map_map]
  congr 1
  exact map_congr_left fun g _ => h g

theorem reads_append_congr {sizes sizes' : List (ℕ × ℕ)} (h : reads sizes = reads sizes')
    (hprod : (sizes.map Prod.fst).prod = (sizes'.map Prod.fst).prod) (g : List (ℕ × ℕ)) :
    reads (g ++ sizes) = reads (g ++ sizes') := by
  induction g with
  | nil => exact h
  | cons p g ih =>
    rw [cons_append, cons_append, reads_cons, reads_cons, ih, map_append,
      map_append, prod_append, prod_append, hprod]

theorem reads_map_groupSizes {gs : List (List (ℕ × ℕ))} (h : ∀ g ∈ gs, Uniform g) :
    reads (gs.map groupSizes) = reads gs.flatten := by
  induction gs with
  | nil => rfl
  | cons g gs ih =>
    have hrest := ih fun g' hg' => h g' (mem_cons_of_mem g hg')
    rw [map_cons, reads_groupSizes (h g mem_cons_self), flatten_cons]
    exact reads_append_congr hrest (prod_map_groupSizes Prod.fst gs fun _ => rfl) g

end Groups

end Vpux.Data
