import Mathlib.Algebra.Order.BigOperators.Group.List
import Mathlib.Algebra.Order.Group.Int
import Mathlib.Data.List.Chain
import Vpux.Data.Folds

/-! Greedy packing of a list into consecutive groups. Items are never reordered,
so what is known about the order of the items carries over to the groups. -/
namespace Vpux.Data

section Packing

variable {ι : Type*} (fits : List ι → Bool)

/-- The open group `cur` takes the next item when the two fit together. -/
def pack : List ι → List ι → List (List ι)
  | cur, [] => [cur]
  | cur, x :: xs => if fits (cur ++ [x]) then pack (cur ++ [x]) xs else cur :: pack [x] xs

theorem flatten_pack (cur xs : List ι) : (pack fits cur xs).flatten = cur ++ xs := by
  induction xs generalizing cur with
  | nil => simp [pack]
  | cons x xs ih =>
    unfold pack
    split_ifs
    · rw [ih, List.append_assoc, List.singleton_append]
    · rw [List.flatten_cons, ih, List.singleton_append]

theorem pack_ne_nil (cur xs : List ι) : pack fits cur xs ≠ [] := by
  induction xs generalizing cur with
  | nil => simp [pack]
  | cons x xs ih =>
    unfold pack
    split_ifs
    · exact ih _
    · simp

theorem ne_nil_of_mem_pack {cur xs g : List ι} (hcur : cur ≠ []) (hg : g ∈ pack fits cur xs) :
    g ≠ [] := by
  induction xs generalizing cur with
  | nil =>
    rw [pack, List.mem_singleton] at hg
    exact hg ▸ hcur
  | cons x xs ih =>
    unfold pack at hg
    split_ifs at hg
    · exact ih (by simp) hg
    · rcases List.mem_cons.mp hg with rfl | hg
      · exact hcur
      · exact ih (by simp) hg

theorem pack_nil_cons (x : ι) (xs : List ι) :
    pack fits [] (x :: xs) = if fits [x] then pack fits [x] xs else [] :: pack fits [x] xs := rfl

theorem ne_nil_of_mem_tail_pack {xs g : List ι} (hg : g ∈ (pack fits [] xs).tail) : g ≠ [] := by
  cases xs with
  | nil => simp [pack] at hg
  | cons x xs =>
    rw [pack_nil_cons] at hg
    split_ifs at hg
    · exact ne_nil_of_mem_pack fits (by simp) (List.mem_of_mem_tail hg)
    · exact ne_nil_of_mem_pack fits (by simp) hg

/-- `first` is the first group of `first ++ rest`: one item at least, and no more fit. -/
structure IsFirst (first rest : List ι) : Prop where
  ne_nil : first ≠ []
  legal : first.length = 1 ∨ fits first = true
  full : ∀ x ∈ rest.head?, fits (first ++ [x]) = false

theorem isFirst_pack (cur xs : List ι) (hcur : cur ≠ []) (hfit : cur.length = 1 ∨ fits cur = true) :
    ∃ first groups, pack fits cur xs = first :: groups ∧ IsFirst fits first groups.flatten := by
  induction xs generalizing cur with
  | nil => exact ⟨cur, [], rfl, hcur, hfit, by simp⟩
  | cons x xs ih =>
    unfold pack
    split_ifs with h
    · exact ih _ (by simp) (Or.inr h)
    · refine ⟨cur, pack fits [x] xs, rfl, hcur, hfit, ?_⟩
      rw [flatten_pack]
      simpa using h

theorem IsFirst.unique (hmono : ∀ l l', fits (l ++ l') = true → fits l = true)
    {first rest first' rest' : List ι} (h : IsFirst fits first rest)
    (h' : IsFirst fits first' rest') (heq : first ++ rest = first' ++ rest') :
    first = first' ∧ rest = rest' := by
  have short : ∀ {f r f' r' : List ι}, IsFirst fits f r → IsFirst fits f' r' →
      f ++ r = f' ++ r' → f'.length ≤ f.length := by
    intro f r f' r' hf hf' he
    by_contra hlt
    obtain ⟨mid, rfl⟩ : f <+: f' := by
      apply List.prefix_of_prefix_length_le (List.prefix_append f r)
      · exact he ▸ List.prefix_append f' r'
      · omega
    cases mid with
    | nil => simp at hlt
    | cons x mid =>
      have hr : r = x :: (mid ++ r') := by simpa using he
      have hpos := List.length_pos_iff.mpr hf.ne_nil
      have hfit : fits ((f ++ [x]) ++ mid) = true := by
        rcases hf'.legal with h1 | h1
        · omega
        · simpa using h1
      have hno := hf.full x (by simp [hr])
      rw [hmono _ _ hfit] at hno
      contradiction
  have hlen : first.length = first'.length :=
    Nat.le_antisymm (short h' h heq.symm) (short h h' heq)
  exact List.append_inj heq hlen

end Packing

section Chains

variable {ι : Type*} {R : ι → ι → Prop} {P : ι → Prop}

theorem pairwise_of_isChain (htrans : ∀ x y z, P y → R x y → R y z → R x z) {l : List ι}
    (hP : ∀ x ∈ l, P x) (hl : l.IsChain R) : l.Pairwise R := by
  induction l with
  | nil => exact .nil
  | cons x l ih =>
    have hpw := ih (fun y hy => hP y (List.mem_cons_of_mem x hy)) (List.isChain_of_isChain_cons hl)
    refine List.pairwise_cons.mpr ⟨?_, hpw⟩
    cases l with
    | nil => simp
    | cons y l =>
      have hxy : R x y := List.isChain_cons_cons.mp hl |>.1
      intro z hz
      rcases List.mem_cons.mp hz with rfl | hz
      · exact hxy
      · exact htrans x y z (hP y (by simp)) hxy ((List.pairwise_cons.mp hpw).1 z hz)

theorem isChain_congr {κ : Type*} {R' : κ → κ → Prop} {C : ι → κ → Prop}
    (hR : ∀ x y u v, C x u → C y v → (R x y ↔ R' u v)) {l : List ι} {l' : List κ}
    (hC : List.Forall₂ C l l') : l.IsChain R ↔ l'.IsChain R' := by
  induction hC with
  | nil => simp
  | cons hx htail ih =>
    cases htail with
    | nil => simp
    | cons hy _ => rw [List.isChain_cons_cons, List.isChain_cons_cons, ih, hR _ _ _ _ hx hy]

end Chains

section Correspondence

variable {ι κ : Type*} {C : ι → κ → Prop} {l : List ι} {l' : List κ}

theorem exists_mem_iff_of_forall₂ {p : ι → Prop} {q : κ → Prop}
    (hpq : ∀ x y, C x y → (p x ↔ q y)) (hC : List.Forall₂ C l l') :
    (∃ x ∈ l, p x) ↔ ∃ y ∈ l', q y := by
  induction hC with
  | nil => simp
  | cons hhead _ ih => simp only [List.mem_cons, exists_eq_or_imp, ih, hpq _ _ hhead]

theorem getElem?_iff_of_forall₂ {p : ι → Prop} {q : κ → Prop}
    (hpq : ∀ x y, C x y → (p x ↔ q y)) (hC : List.Forall₂ C l l') (i : ℕ) :
    (∃ x, l[i]? = some x ∧ p x) ↔ ∃ y, l'[i]? = some y ∧ q y := by
  induction hC generalizing i with
  | nil => simp
  | cons hhead _ ih =>
    cases i with
    | zero => simpa using hpq _ _ hhead
    | succ i => simpa using ih i

end Correspondence

-- Ranges, each an offset and a size, that follow one another.

/-- The first range begins at `start`, each other one where the one before it ends, and the last
one ends at `stop`. -/
def Consecutive : ℤ → List (ℤ × ℤ) → ℤ → Prop
  | start, [], stop => start = stop
  | start, r :: rs, stop => r.1 = start ∧ Consecutive (start + r.2) rs stop

/-- Consecutive ranges are disjoint and inside their span. -/
structure Tiles (start : ℤ) (ranges : List (ℤ × ℤ)) (stop : ℤ) : Prop where
  consecutive : Consecutive start ranges stop
  inside : ∀ r ∈ ranges, start ≤ r.1 ∧ r.1 + r.2 ≤ stop
  disjoint : ranges.Pairwise fun r r' => r.1 + r.2 ≤ r'.1

section Consecutive

variable {start mid stop : ℤ} {ranges ranges' : List (ℤ × ℤ)}

theorem Consecutive.append (h : Consecutive start ranges mid) (h' : Consecutive mid ranges' stop) :
    Consecutive start (ranges ++ ranges') stop := by
  induction ranges generalizing start with
  | nil =>
    cases h
    exact h'
  | cons r rs ih => exact ⟨h.1, ih h.2⟩

variable (h : Consecutive start ranges stop)
include h

theorem Consecutive.snoc {size : ℤ} : Consecutive start (ranges ++ [(stop, size)]) (stop + size) :=
  h.append ⟨rfl, rfl⟩

theorem Consecutive.inside (hsize : ∀ r ∈ ranges, 0 ≤ r.2) :
    start ≤ stop ∧ ∀ r ∈ ranges, start ≤ r.1 ∧ r.1 + r.2 ≤ stop := by
  induction ranges generalizing start with
  | nil => exact ⟨le_of_eq h, by simp⟩
  | cons r rs ih =>
    obtain ⟨hr, hrs⟩ := h
    have hnonneg : 0 ≤ r.2 := hsize r List.mem_cons_self
    obtain ⟨hle, hin⟩ := ih hrs fun r' hr' => hsize r' (List.mem_cons_of_mem r hr')
    refine ⟨by omega, List.forall_mem_cons.mpr ⟨⟨by omega, by omega⟩, ?_⟩⟩
    intro r' hr'
    have := hin r' hr'
    omega

theorem Consecutive.tiles (hsize : ∀ r ∈ ranges, 0 ≤ r.2) : Tiles start ranges stop := by
  refine ⟨h, (h.inside hsize).2, ?_⟩
  induction ranges generalizing start with
  | nil => exact .nil
  | cons r rs ih =>
    obtain ⟨hr, hrs⟩ := h
    have hsizes : ∀ r' ∈ rs, 0 ≤ r'.2 := fun r' hr' => hsize r' (List.mem_cons_of_mem r hr')
    refine List.pairwise_cons.mpr ⟨fun r' hr' => ?_, ih hrs hsizes⟩
    rw [hr]
    exact ((hrs.inside hsizes).2 r' hr').1

end Consecutive

end Vpux.Data
