import Mathlib.Algebra.BigOperators.Group.List.Basic
import Mathlib.Algebra.Order.BigOperators.Group.List
import Mathlib.Data.Finset.Card
import Mathlib.Data.Finset.Lattice.Fold
import Mathlib.Data.List.Nodup
import Mathlib.Data.List.Perm.Basic
import Mathlib.Tactic.Abel

/-! A map that is assigned key by key holds the last entry of each key. -/
namespace Vpux.Data
open List

section LastAssigned

variable {α κ : Type} [DecidableEq κ] (key : α → κ)

/-- The entries of a map after one more assignment, by when they were last assigned. -/
def assign (entries : List α) (a : α) : List α := entries.filter (key · ≠ key a) ++ [a]

def lastAssigned : List α → List α
  | [] => []
  | a :: rest => if key a ∈ rest.map key then lastAssigned rest else a :: lastAssigned rest

def overwritten : List α → List α
  | [] => []
  | a :: rest => if key a ∈ rest.map key then a :: overwritten rest else overwritten rest

variable {key} {a : α} {l l' : List α}

theorem foldl_assign (l entries : List α) : l.foldl (assign key) entries =
    entries.filter (key · ∉ l.map key) ++ lastAssigned key l := by
  induction l generalizing entries with
  | nil => simp [lastAssigned]
  | cons a l ih =>
    rw [foldl_cons, ih, assign, filter_append, filter_filter, append_assoc]
    congr 1
    · apply filter_congr
      intro b _
      simp only [← Bool.decide_and, map_cons, mem_cons, not_or, and_comm]
    · by_cases h : key a ∈ l.map key
      · rw [lastAssigned, if_pos h, filter_eq_nil_iff.mpr (by simpa using h), nil_append]
      · rw [lastAssigned, if_neg h, filter_eq_self.mpr (by simpa using h)]
        rfl

theorem lastAssigned_sublist (l : List α) : (lastAssigned key l).Sublist l := by
  induction l with
  | nil => exact List.Sublist.slnil
  | cons a l ih =>
    unfold lastAssigned
    split
    · exact ih.cons a
    · exact ih.cons_cons a

theorem mem_lastAssigned_append :
    a ∈ lastAssigned key (l ++ l') → a ∈ l ∨ a ∈ lastAssigned key l' := by
  intro h
  induction l with
  | nil => exact .inr h
  | cons b l ih =>
    rw [cons_append, lastAssigned] at h
    split at h
    · exact (ih h).imp_left (mem_cons_of_mem b)
    · rcases mem_cons.mp h with rfl | h
      · exact .inl mem_cons_self
      · exact (ih h).imp_left (mem_cons_of_mem b)

theorem lastAssigned_append_subset (l : List α) {b : α} (h : b ∈ lastAssigned key l') :
    b ∈ lastAssigned key (l ++ l') := by
  induction l with
  | nil => exact h
  | cons c l ih =>
    rw [cons_append, lastAssigned]
    split
    · exact ih
    · exact mem_cons_of_mem c ih

theorem sum_overwritten {M : Type} [AddCommMonoid M] (f : α → M) (l : List α) :
    (l.map f).sum = ((lastAssigned key l).map f).sum + ((overwritten key l).map f).sum := by
  induction l with
  | nil => simp [lastAssigned, overwritten]
  | cons a l ih =>
    unfold lastAssigned overwritten
    split
    · rw [map_cons, sum_cons, map_cons, sum_cons, ih]
      abel
    · rw [map_cons, sum_cons, map_cons, sum_cons, ih, add_assoc]

section Disjoint

variable {β : Type} [DecidableEq β]

theorem sum_card_le {part : α → Finset β} {whole : Finset β}
    (hdisjoint : l.Pairwise fun a b => Disjoint (part a) (part b))
    (hsub : ∀ a ∈ l, part a ⊆ whole) : (l.map fun a => (part a).card).sum ≤ whole.card := by
  induction l generalizing whole with
  | nil => simp
  | cons a l ih =>
    obtain ⟨hfirst, hrest⟩ := pairwise_cons.mp hdisjoint
    have hleft : ∀ b ∈ l, part b ⊆ whole \ part a := by
      intro b hb
      rw [Finset.subset_sdiff]
      exact ⟨hsub b (mem_cons_of_mem a hb), (hfirst b hb).symm⟩
    have hle := ih hrest hleft
    have hcard := Finset.card_sdiff_add_card_eq_card (hsub a mem_cons_self)
    rw [map_cons, sum_cons]
    omega

end Disjoint

end LastAssigned

-- Elements collected into one entry for each key, in the order in which the keys come up.
variable {α β κ : Type} [DecidableEq κ]

/-- The first entry with the key takes up the element, or there is a new entry. -/
def collect (key : β → κ) (k : κ) (create : β) (update : β → β) : List β → List β
  | [] => [create]
  | b :: rest => if k = key b then update b :: rest else b :: collect key k create update rest

section Collect

variable {key : β → κ} {k : κ} {create : β} {update : β → β} {entries : List β}
  (hcreate : key create = k) (hupdate : ∀ b, key (update b) = key b)
include hcreate hupdate

theorem map_collect : (collect key k create update entries).map key =
    if k ∈ entries.map key then entries.map key else entries.map key ++ [k] := by
  induction entries with
  | nil => simp [collect, hcreate]
  | cons b rest ih =>
    unfold collect
    by_cases h : k = key b
    · simp [h, hupdate]
    · rw [if_neg h, map_cons, ih, map_cons]
      by_cases hrest : k ∈ rest.map key
      · rw [if_pos hrest, if_pos (mem_cons_of_mem _ hrest)]
      · rw [if_neg hrest, if_neg (not_mem_cons_of_ne_of_not_mem h hrest), cons_append]

theorem nodup_collect (h : (entries.map key).Nodup) :
    ((collect key k create update entries).map key).Nodup := by
  rw [map_collect hcreate hupdate]
  split
  · exact h
  · next hnew =>
    rw [nodup_append]
    exact ⟨h, nodup_singleton k, fun a ha b hb => by
      rw [mem_singleton.mp hb]
      exact fun heq => hnew (heq ▸ ha)⟩

omit hcreate hupdate in
theorem mem_collect {b : β} (hnodup : (entries.map key).Nodup)
    (h : b ∈ collect key k create update entries) :
    (b ∈ entries ∧ key b ≠ k) ∨ (∃ c ∈ entries, key c = k ∧ b = update c) ∨
      (b = create ∧ k ∉ entries.map key) := by
  induction entries with
  | nil => exact .inr (.inr ⟨by simpa [collect] using h, by simp⟩)
  | cons c rest ih =>
    rw [map_cons, nodup_cons] at hnodup
    unfold collect at h
    split at h
    · next hk =>
      rcases mem_cons.mp h with rfl | h
      · exact .inr (.inl ⟨c, mem_cons_self, hk.symm, rfl⟩)
      · refine .inl ⟨mem_cons_of_mem c h, fun hb => hnodup.1 ?_⟩
        rw [← hk, ← hb]
        exact mem_map_of_mem h
    · next hk =>
      rcases mem_cons.mp h with rfl | h
      · exact .inl ⟨mem_cons_self, fun hb => hk hb.symm⟩
      · rcases ih hnodup.2 h with ⟨hmem, hne⟩ | ⟨d, hd, hdk, rfl⟩ | ⟨rfl, hnew⟩
        · exact .inl ⟨mem_cons_of_mem c hmem, hne⟩
        · exact .inr (.inl ⟨d, mem_cons_of_mem c hd, hdk, rfl⟩)
        · refine .inr (.inr ⟨rfl, ?_⟩)
          rw [map_cons, mem_cons, not_or]
          exact ⟨hk, hnew⟩

end Collect

/-- What is collected of a list: one entry for each key, which stands for the elements of it. -/
structure Grouped (key : β → κ) (keyOf : α → κ) (R : β → List α → Prop) (l : List α)
    (entries : List β) : Prop where
  nodup : (entries.map key).Nodup
  mem_iff : ∀ k, k ∈ entries.map key ↔ ∃ a ∈ l, keyOf a = k
  stands : ∀ b ∈ entries, R b (l.filter fun a => keyOf a = key b)

section Loop

variable {key : β → κ} {keyOf : α → κ} {R : β → List α → Prop} {l : List α} {entries : List β}

theorem Grouped.nil : Grouped key keyOf R ([] : List α) [] where
  nodup := nodup_nil
  mem_iff := by simp
  stands := by simp

theorem Grouped.collect {a : α} {create : β} {update : β → β} (h : Grouped key keyOf R l entries)
    (hcreate : key create = keyOf a) (hupdate : ∀ b, key (update b) = key b)
    (hfirst : R create [a]) (hnext : ∀ b own, R b own → R (update b) (own ++ [a])) :
    Grouped key keyOf R (l ++ [a]) (collect key (keyOf a) create update entries) where
  nodup := nodup_collect hcreate hupdate h.nodup
  mem_iff k := by
    rw [map_collect hcreate hupdate]
    have hmem := h.mem_iff k
    have hnew := h.mem_iff (keyOf a)
    split
    · next hold =>
      rw [hmem]
      constructor
      · rintro ⟨b, hb, rfl⟩
        exact ⟨b, by simp [hb], rfl⟩
      · rintro ⟨b, hb, rfl⟩
        rcases mem_append.mp hb with hb | hb
        · exact ⟨b, hb, rfl⟩
        · rw [mem_singleton.mp hb]
          exact hnew.mp hold
    · rw [mem_append, hmem, mem_singleton]
      constructor
      · rintro (⟨b, hb, rfl⟩ | rfl)
        · exact ⟨b, by simp [hb], rfl⟩
        · exact ⟨a, by simp, rfl⟩
      · rintro ⟨b, hb, rfl⟩
        rcases mem_append.mp hb with hb | hb
        · exact .inl ⟨b, hb, rfl⟩
        · exact .inr (congrArg keyOf (mem_singleton.mp hb))
  stands b hb := by
    rw [filter_append]
    rcases mem_collect h.nodup hb with ⟨hmem, hne⟩ | ⟨c, hc, hck, rfl⟩ | ⟨rfl, hnew⟩
    · have hnone : [a].filter (fun a => decide (keyOf a = key b)) = [] := by simp [hne.symm]
      rw [hnone, append_nil]
      exact h.stands b hmem
    · have hone : [a].filter (fun a => decide (keyOf a = key (update c))) = [a] := by
        simp [hupdate, hck]
      rw [hone, hupdate]
      exact hnext c _ (h.stands c hc)
    · have hone : [a].filter (fun a => decide (keyOf a = key b)) = [a] := by simp [hcreate]
      have hempty : l.filter (fun a => decide (keyOf a = key b)) = [] := by
        rw [filter_eq_nil_iff]
        intro c hc hck
        exact hnew ((h.mem_iff _).mpr ⟨c, hc, (of_decide_eq_true hck).trans hcreate⟩)
      rw [hone, hempty, nil_append]
      exact hfirst

variable {l' : List α} {entries' : List β}

/-- The entries of a list in another order are the same ones, when an entry stands for its
elements in any order. -/
theorem Grouped.perm {γ : Type} {f : β → γ} (h : Grouped key keyOf R l entries)
    (h' : Grouped key keyOf R l' entries') (hperm : l.Perm l')
    (hf : ∀ b b' own own', R b own → R b' own' → own.Perm own' → key b = key b' → f b = f b') :
    (entries.map f).Perm (entries'.map f) := by
  have hkeys : (entries.map key).Perm (entries'.map key) := by
    rw [perm_ext_iff_of_nodup h.nodup h'.nodup]
    intro k
    rw [h.mem_iff, h'.mem_iff]
    simp only [hperm.mem_iff]
  -- both lists are read off their keys in the same way
  have hread : ∀ {l₀ : List α} {entries₀ : List β}, Grouped key keyOf R l₀ entries₀ →
      l₀.Perm l' → entries₀.map (some ∘ f) = (entries₀.map key).map fun k =>
        (entries'.find? fun b => key b = k).map f := by
    intro l₀ entries₀ h₀ hperm₀
    rw [map_map]
    apply map_congr_left
    intro b hb
    obtain ⟨a, ha, hkey⟩ := (h₀.mem_iff (key b)).mp (mem_map_of_mem hb)
    have hfound : ∃ b', entries'.find? (fun c => decide (key c = key b)) = some b' := by
      obtain ⟨c, hc, hck⟩ :=
        mem_map.mp ((h'.mem_iff (key b)).mpr ⟨a, hperm₀.mem_iff.mp ha, hkey⟩)
      exact Option.isSome_iff_exists.mp (find?_isSome.mpr ⟨c, hc, by simpa using hck⟩)
    obtain ⟨b', hb'⟩ := hfound
    have hsame : key b' = key b := by simpa using find?_some hb'
    rw [Function.comp_apply, Function.comp_apply, hb', Option.map_some]
    apply congrArg some
    apply hf b b' _ _ (h₀.stands b hb) (h'.stands b' (mem_of_find?_eq_some hb')) _ hsame.symm
    rw [hsame]
    exact hperm₀.filter _
  have hsome : (entries.map (some ∘ f)).Perm (entries'.map (some ∘ f)) := by
    rw [hread h hperm, hread h' (List.Perm.refl _)]
    exact hkeys.map _
  have hstrip := hsome.filterMap id
  simpa only [filterMap_map, Function.comp_def, id_eq, filterMap_eq_map'] using hstrip

end Loop

end Vpux.Data
