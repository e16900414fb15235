import Mathlib.Data.Int.Init
import Mathlib.Data.List.GetD
import Mathlib.Data.List.Nodup
import Mathlib.Data.List.Range
import Vpux.Data.RowMajor

/-! The points of a grid, one choice from every axis, and loops that append to a list. -/
namespace Vpux.Data

/-- Every way to take one element from each list, the last list running fastest. -/
def grid {α : Type} : List (List α) → List (List α)
  | [] => [[]]
  | axis :: axes => axis.flatMap fun a => (grid axes).map (a :: ·)

theorem mem_grid {α : Type} {axes : List (List α)} {point : List α} :
    point ∈ grid axes ↔ List.Forall₂ (· ∈ ·) point axes := by
  induction axes generalizing point with
  | nil => simp [grid]
  | cons axis axes ih =>
    cases point with
    | nil => simp [grid]
    | cons a point => simp [grid, ih]

open List

theorem length_grid {α : Type} (axes : List (List α)) :
    (grid axes).length = (axes.map List.length).prod := by
  induction axes with
  | nil => rfl
  | cons axis axes ih => simp [grid, length_flatMap, ih]

theorem pairwise_grid {α : Type} {r : α → α → Prop} {axes : List (List α)}
    (h : ∀ axis ∈ axes, axis.Pairwise r) :
    (grid axes).Pairwise fun p q => ¬ List.Forall₂ (fun a b => ¬ r a b) p q := by
  induction axes with
  | nil => simp [grid]
  | cons axis axes ih =>
    have hrest := ih fun a ha => h a (by simp [ha])
    apply pairwise_flatMap.mpr
    constructor
    · intro a _
      apply pairwise_map.mpr
      apply hrest.imp
      intro p q hpq hcons
      exact hpq (forall₂_cons.mp hcons).2
    · apply (h axis (by simp)).imp
      intro a b hab p hp q hq hcons
      obtain ⟨p', -, rfl⟩ := mem_map.mp hp
      obtain ⟨q', -, rfl⟩ := mem_map.mp hq
      exact (forall₂_cons.mp hcons).1 hab

theorem exists_mem_grid_forall₂ {α β : Type} {inside : α → β → Prop} {axes : List (List α)}
    {place : List β} :
    (∃ point ∈ grid axes, List.Forall₂ inside point place) ↔
      List.Forall₂ (fun axis x => ∃ a ∈ axis, inside a x) axes place := by
  induction axes generalizing place with
  | nil => simp [grid]
  | cons axis axes ih =>
    cases place with
    | nil => simp [grid]
    | cons x place =>
      rw [forall₂_cons, ← ih]
      simp only [grid, mem_flatMap, mem_map]
      constructor
      · rintro ⟨_, ⟨a, ha, point, hpoint, rfl⟩, hinside⟩
        obtain ⟨hx, hplace⟩ := forall₂_cons.mp hinside
        exact ⟨⟨a, ha, hx⟩, point, hpoint, hplace⟩
      · rintro ⟨⟨a, ha, hx⟩, point, hpoint, hplace⟩
        exact ⟨a :: point, ⟨a, ha, point, hpoint, rfl⟩, .cons hx hplace⟩

theorem foldlM_append {α τ σ : Type} {f : List τ × σ → α → Option (List τ × σ)}
    {g : α → List τ} {R : σ → Prop} {l : List α}
    (hf : ∀ a ∈ l, ∀ acc s, R s → ∃ s', f (acc, s) a = some (acc ++ g a, s') ∧ R s')
    (acc : List τ) {s : σ} (hs : R s) :
    ∃ s', l.foldlM f (acc, s) = some (acc ++ l.flatMap g, s') ∧ R s' := by
  induction l generalizing acc s with
  | nil => exact ⟨s, by simp, hs⟩
  | cons a l ih =>
    obtain ⟨s₁, hstep, hs₁⟩ := hf a (by simp) acc s hs
    obtain ⟨s₂, hrest, hs₂⟩ := ih (fun b hb => hf b (by simp [hb])) (acc ++ g a) hs₁
    refine ⟨s₂, ?_, hs₂⟩
    simpa [foldlM_cons, hstep] using hrest

theorem foldl_append {α τ σ : Type} {f : List τ × σ → α → List τ × σ} {g : α → List τ}
    {R : σ → Prop} {l : List α}
    (hf : ∀ a ∈ l, ∀ acc s, R s → ∃ s', f (acc, s) a = (acc ++ g a, s') ∧ R s')
    (acc : List τ) {s : σ} (hs : R s) :
    ∃ s', l.foldl f (acc, s) = (acc ++ l.flatMap g, s') ∧ R s' := by
  have hsome : ∀ a ∈ l, ∀ acc s, R s → ∃ s', some (f (acc, s) a) = some (acc ++ g a, s') ∧
      R s' := by
    simpa only [Option.some.injEq] using hf
  obtain ⟨s', heq, hs'⟩ := foldlM_append (f := fun s a => some (f s a)) hsome acc hs
  exact ⟨s', Option.some.inj (foldlM_pure.symm.trans heq), hs'⟩

-- Two shapes that split into blocks of dimensions with the same numbers of elements.

def select (values dims : List ℕ) : List ℕ := dims.map fun d => values.getD d 0

@[simp] theorem length_select (values dims : List ℕ) :
    (select values dims).length = dims.length := length_map _

theorem select_flatMap {α : Type*} (values : List ℕ) (blocks : List α) (dims : α → List ℕ) :
    select values (blocks.flatMap dims) = blocks.flatMap fun b => select values (dims b) :=
  map_flatMap

theorem select_range (values : List ℕ) : select values (List.range values.length) = values := by
  apply ext_getElem (by simp)
  intro d hd hd'
  simp [select, hd']

theorem inBox_select {sizes point dims : List ℕ} (h : InBox sizes point)
    (hdims : ∀ d ∈ dims, d < sizes.length) :
    InBox (select sizes dims) (select point dims) := by
  apply inBox_of_getElem (by simp)
  intro i hi hi'
  have hin : i < dims.length := by simpa using hi
  have hlt : dims[i] < sizes.length := hdims _ (getElem_mem hin)
  have hlt' : dims[i] < point.length := h.length_eq ▸ hlt
  simp only [select, getElem_map, getD_eq_getElem _ _ hlt,
    getD_eq_getElem _ _ hlt']
  exact h.getElem_lt hlt' hlt

section Disjoint

variable {α β : Type*} {l : List α} {f : α → List β}

theorem eq_of_mem_flatMap (h : (l.flatMap f).Nodup) {x y : α} (hx : x ∈ l) (hy : y ∈ l) {d : β}
    (hdx : d ∈ f x) (hdy : d ∈ f y) : x = y := by
  by_contra hne
  have : Std.Symm (Function.onFun List.Disjoint f) := ⟨fun _ _ hab => disjoint_symm hab⟩
  have hdisjoint : List.Disjoint (f x) (f y) := (nodup_flatMap.mp h).2.forall hx hy hne
  exact hdisjoint hdx hdy

theorem nodup_of_nodup_flatMap (h : (l.flatMap f).Nodup) (hne : ∀ x ∈ l, f x ≠ []) : l.Nodup := by
  induction l with
  | nil => exact nodup_nil
  | cons x l ih =>
    rw [flatMap_cons, nodup_append] at h
    refine nodup_cons.mpr ⟨fun hx => ?_, ih h.2.1 fun y hy => hne y (mem_cons_of_mem x hy)⟩
    obtain ⟨d, hd⟩ := exists_mem_of_ne_nil _ (hne x mem_cons_self)
    exact h.2.2 d hd d (mem_flatMap.mpr ⟨x, hx, hd⟩) rfl

end Disjoint

theorem prod_flatMap {α : Type*} (blocks : List α) (sizes : α → List ℕ) :
    (blocks.flatMap sizes).prod = (blocks.map fun b => (sizes b).prod).prod := by
  rw [flatMap_def, prod_flatten, map_map]
  rfl

theorem rowMajor_flatMap {α : Type*} (blocks : List α) (sizes point : α → List ℕ)
    (h : ∀ b ∈ blocks, (point b).length = (sizes b).length) :
    rowMajor (blocks.flatMap sizes) (blocks.flatMap point) =
      rowMajor (blocks.map fun b => (sizes b).prod)
        (blocks.map fun b => rowMajor (sizes b) (point b)) := by
  induction blocks with
  | nil => rfl
  | cons b blocks ih =>
    rw [flatMap_cons, flatMap_cons, rowMajor_append (h b mem_cons_self),
      ih fun b hb => h b (mem_cons_of_mem _ hb), prod_flatMap, map_cons, map_cons,
      rowMajor]

/-- The blocks name the dimensions of both shapes in order, and the dimensions of a block have
as many elements in the one shape as in the other. -/
structure Splits (sizes sizes' : List ℕ) (blocks : List (List ℕ × List ℕ)) : Prop where
  left : blocks.flatMap Prod.fst = List.range sizes.length
  right : blocks.flatMap Prod.snd = List.range sizes'.length
  prod_eq : ∀ b ∈ blocks, (select sizes b.1).prod = (select sizes' b.2).prod

namespace Splits

variable {sizes sizes' : List ℕ} {blocks : List (List ℕ × List ℕ)}

variable (h : Splits sizes sizes' blocks)
include h

variable {b : List ℕ × List ℕ}

theorem left_lt (hb : b ∈ blocks) : ∀ d ∈ b.1, d < sizes.length := by
  intro d hd
  rw [← mem_range, ← h.left]
  exact mem_flatMap.mpr ⟨b, hb, hd⟩

theorem right_lt (hb : b ∈ blocks) : ∀ d ∈ b.2, d < sizes'.length := by
  intro d hd
  rw [← mem_range, ← h.right]
  exact mem_flatMap.mpr ⟨b, hb, hd⟩

theorem prod_sizes : sizes.prod = sizes'.prod := by
  calc sizes.prod
      = (blocks.map fun b => (select sizes b.1).prod).prod := by
        rw [← prod_flatMap, ← select_flatMap, h.left, select_range]
    _ = (blocks.map fun b => (select sizes' b.2).prod).prod := by
        rw [map_congr_left h.prod_eq]
    _ = sizes'.prod := by
        rw [← prod_flatMap, ← select_flatMap, h.right, select_range]

theorem rowMajor_select {i : ℕ} (hi : i < sizes.prod) (hb : b ∈ blocks) :
    rowMajor (select sizes b.1) (select (pointAt sizes i) b.1) =
      rowMajor (select sizes' b.2) (select (pointAt sizes' i) b.2) := by
  have hi' : i < sizes'.prod := h.prod_sizes ▸ hi
  have hbox := inBox_pointAt (Nat.zero_lt_of_lt hi) i
  have hbox' := inBox_pointAt (Nat.zero_lt_of_lt hi') i
  have hleft := rowMajor_flatMap blocks (fun b => select sizes b.1)
    (fun b => select (pointAt sizes i) b.1) (by simp)
  have hright := rowMajor_flatMap blocks (fun b => select sizes' b.2)
    (fun b => select (pointAt sizes' i) b.2) (by simp)
  rw [← select_flatMap, ← select_flatMap, h.left, select_range, ← hbox.length_eq, select_range,
    rowMajor_pointAt hi] at hleft
  rw [← select_flatMap, ← select_flatMap, h.right, select_range, ← hbox'.length_eq,
    select_range, rowMajor_pointAt hi', ← map_congr_left h.prod_eq] at hright
  have hvalues := rowMajor_injective
    (forall₂_map_left_iff.mpr (forall₂_map_right_iff.mpr
      (forall₂_same.mpr fun b hb => rowMajor_lt (inBox_select hbox (h.left_lt hb)))))
    (forall₂_map_left_iff.mpr (forall₂_map_right_iff.mpr
      (forall₂_same.mpr fun b hb => by
        rw [h.prod_eq b hb]
        exact rowMajor_lt (inBox_select hbox' (h.right_lt hb)))))
    (hleft.symm.trans hright)
  exact map_inj_left.mp hvalues b hb

variable {order : List (List ℕ × List ℕ)}

theorem rowMajor_perm (horder : order.Perm blocks) {i : ℕ} (hi : i < sizes.prod) :
    rowMajor (select sizes (order.flatMap Prod.fst))
        (select (pointAt sizes i) (order.flatMap Prod.fst)) =
      rowMajor (select sizes' (order.flatMap Prod.snd))
        (select (pointAt sizes' i) (order.flatMap Prod.snd)) := by
  have hprod : (order.map fun b => (select sizes b.1).prod) =
      order.map fun b => (select sizes' b.2).prod :=
    map_congr_left fun b hb => h.prod_eq b (horder.subset hb)
  have hvalue : (order.map fun b => rowMajor (select sizes b.1) (select (pointAt sizes i) b.1)) =
      order.map fun b => rowMajor (select sizes' b.2) (select (pointAt sizes' i) b.2) :=
    map_congr_left fun b hb => h.rowMajor_select hi (horder.subset hb)
  simp only [select_flatMap]
  rw [rowMajor_flatMap order _ _ (by simp), rowMajor_flatMap order _ _ (by simp), hprod, hvalue]

theorem right_perm (horder : order.Perm blocks) :
    (order.flatMap Prod.snd).Perm (List.range sizes'.length) := by
  rw [← h.right]
  exact horder.flatMap_right _

end Splits

end Vpux.Data
