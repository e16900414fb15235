import Mathlib.Algebra.BigOperators.Group.List.Lemmas
import Mathlib.Algebra.BigOperators.Ring.List
import Mathlib.Algebra.Order.BigOperators.GroupWithZero.List
import Mathlib.Algebra.Order.Ring.Nat
import Vpux.Data.Broadcast

/-! When groups of dimensions of two shapes can each become one dimension. -/
namespace Vpux.Data

def groupShape (s : List ℕ) (groups : List (List ℕ)) : List ℕ :=
  groups.map fun dims => (select s dims).prod

/-- The dimension has more than one element in one of the shapes. -/
def Matters (s t : List ℕ) (d : ℕ) : Prop := 1 < s.getD d 0 ∨ 1 < t.getD d 0

instance (s t : List ℕ) (d : ℕ) : Decidable (Matters s t d) := inferInstanceAs (Decidable (_ ∨ _))

/-- The dimensions have equal sizes throughout, or one of the shapes has one element in all. -/
def OneKind (s t dims : List ℕ) : Prop :=
  (∀ d ∈ dims, s.getD d 0 = t.getD d 0) ∨ (∀ d ∈ dims, s.getD d 0 = 1) ∨ ∀ d ∈ dims, t.getD d 0 = 1

instance (s t dims : List ℕ) : Decidable (OneKind s t dims) :=
  inferInstanceAs (Decidable (_ ∨ _ ∨ _))

/-- Element-wise operations on the shapes can be made on the other two instead. -/
structure Folds (s t : List ℕ) (groups : List (List ℕ)) (s' t' : List ℕ) : Prop where
  inside : ∀ dims ∈ groups, ∀ d ∈ dims, d < s.length
  dims : groups.flatten.filter (Matters s t ·) = (List.range s.length).filter (Matters s t ·)
  sizes : s'.prod = s.prod ∧ t'.prod = t.prod
  broadcasts : Broadcasts s' t'
  result : ∀ (α β γ : Type) (f : α → β → γ) (x : ℕ → α) (y : ℕ → β),
    elementwise f s' t' x y = elementwise f s t x y

theorem OneKind.subset {s t dims dims' : List ℕ} (h : OneKind s t dims) (hsub : dims' ⊆ dims) :
    OneKind s t dims' :=
  h.imp (fun h d hd => h d (hsub hd))
    (Or.imp (fun h d hd => h d (hsub hd)) fun h d hd => h d (hsub hd))

theorem OneKind.symm {s t dims : List ℕ} (h : OneKind s t dims) : OneKind t s dims :=
  h.imp (fun h d hd => (h d hd).symm) Or.symm

theorem Broadcasts.symm {s t : List ℕ} (h : Broadcasts s t) : Broadcasts t s :=
  List.Forall₂.flip (h.imp fun _ _ hab => hab.imp Eq.symm Or.symm)

theorem Broadcasts.length_eq {s t : List ℕ} (h : Broadcasts s t) : s.length = t.length :=
  List.Forall₂.length_eq h

theorem matters_comm (s t : List ℕ) (d : ℕ) : Matters s t d ↔ Matters t s d := or_comm

variable {dims : List ℕ}

open List

section Operand

/-- The sizes of a dimension in an operand and in the result. -/
def operand (s t : List ℕ) (d : ℕ) : ℕ × ℕ := (s.getD d 0, max (s.getD d 0) (t.getD d 0))

variable {s t : List ℕ}

theorem zip_broadcast (h : s.length = t.length) :
    s.zip (broadcast s t) = (List.range s.length).map (operand s t) := by
  apply ext_getElem
  · simp [broadcast, h]
  · intro d hd hd'
    have hs : d < s.length := by simpa using hd'
    have ht : d < t.length := h ▸ hs
    simp [broadcast, operand, hs, ht]

theorem broadcast_comm (s t : List ℕ) : broadcast s t = broadcast t s :=
  zipWith_comm_of_comm max_comm

variable (hs : ∀ a ∈ s, 0 < a)
include hs

theorem operand_snd_ne_one {d : ℕ} (hd : d < s.length) :
    (operand s t d).2 ≠ 1 ↔ Matters s t d := by
  have hpos : 0 < s.getD d 0 := by
    rw [getD_eq_getElem _ _ hd]
    exact hs _ (getElem_mem hd)
  simp only [operand, Matters]
  omega

theorem filter_operand (hdims : ∀ d ∈ dims, d < s.length) :
    (dims.map (operand s t)).filter (fun p => p.2 ≠ 1) =
      (dims.filter (Matters s t ·)).map (operand s t) := by
  rw [filter_map]
  congr 1
  apply filter_congr
  intro d hd
  simp only [Function.comp_apply, decide_eq_decide]
  exact operand_snd_ne_one hs (hdims d hd)

theorem reads_operand (hdims : ∀ d ∈ dims, d < s.length) :
    reads (dims.map (operand s t)) = reads ((dims.filter (Matters s t ·)).map (operand s t)) := by
  rw [← filter_operand hs hdims, reads_filter]
  intro p hp hone
  obtain ⟨d, hd, rfl⟩ := mem_map.mp hp
  have hpos : 0 < s.getD d 0 := by
    rw [getD_eq_getElem _ _ (hdims d hd)]
    exact hs _ (getElem_mem _)
  simp only [operand] at hone ⊢
  omega

end Operand

section Groups

variable {s t : List ℕ} {groups : List (List ℕ)}

theorem prod_select_of_filter (hs : ∀ a ∈ s, 0 < a) (hdims : ∀ d ∈ dims, d < s.length) :
    ((dims.filter (Matters s t ·)).map (s.getD · 0)).prod = (select s dims).prod := by
  have hone := prod_filter_ne_one (s.getD · 0) (fun d => (operand s t d).2) dims (by
    intro d hd hone
    have hpos : 0 < s.getD d 0 := by
      rw [getD_eq_getElem _ _ (hdims d hd)]
      exact hs _ (getElem_mem _)
    simp only [operand] at hone ⊢
    omega)
  rw [select, ← hone]
  congr 2
  apply filter_congr
  intro d hd
  simp only [decide_eq_decide]
  exact (operand_snd_ne_one hs (hdims d hd)).symm

theorem getD_pos (hs : ∀ a ∈ s, 0 < a) {d : ℕ} (hd : d < s.length) : 0 < s.getD d 0 := by
  rw [getD_eq_getElem _ _ hd]
  exact hs _ (getElem_mem hd)

theorem prod_pos_of_mem {ι : Type*} {f : ι → ℕ} {l : List ι} (h : ∀ i ∈ l, 0 < f i) :
    0 < (l.map f).prod := by
  apply Nat.pos_of_ne_zero
  intro hzero
  obtain ⟨i, hi, hfi⟩ := mem_map.mp (prod_eq_zero_iff.mp hzero)
  exact (h i hi).ne' hfi

theorem prod_select_eq_one (h : ∀ d ∈ dims, s.getD d 0 = 1) : (select s dims).prod = 1 := by
  rw [select, map_congr_left h, map_const', prod_replicate, one_pow]

theorem max_prod_select (h : OneKind s t dims) (hs : ∀ d ∈ dims, 0 < s.getD d 0)
    (ht : ∀ d ∈ dims, 0 < t.getD d 0) :
    max (select s dims).prod (select t dims).prod =
      (dims.map fun d => max (s.getD d 0) (t.getD d 0)).prod := by
  have hpos : ∀ u : List ℕ, (∀ d ∈ dims, 0 < u.getD d 0) → 0 < (select u dims).prod :=
    fun u hu => prod_pos_of_mem hu
  obtain hsame | hone | hone := h
  · have hselect : select t dims = select s dims := map_congr_left fun d hd => (hsame d hd).symm
    rw [hselect, max_self, select]
    congr 1
    exact map_congr_left fun d hd => by rw [← hsame d hd, max_self]
  · rw [prod_select_eq_one hone, max_eq_right (hpos t ht), select]
    congr 1
    exact map_congr_left fun d hd => by rw [hone d hd, max_eq_right (ht d hd)]
  · rw [prod_select_eq_one hone, max_eq_left (hpos s hs), select]
    congr 1
    exact map_congr_left fun d hd => by rw [hone d hd, max_eq_left (hs d hd)]

theorem uniform_operand (h : OneKind s t dims) (hs : ∀ d ∈ dims, 0 < s.getD d 0) :
    Uniform (dims.map (operand s t)) := by
  obtain hsame | hone | hone := h
  · left
    intro p hp
    obtain ⟨d, hd, rfl⟩ := mem_map.mp hp
    exact (max_eq_left (hsame d hd).ge).symm
  · right
    intro p hp
    obtain ⟨d, hd, rfl⟩ := mem_map.mp hp
    exact hone d hd
  · left
    intro p hp
    obtain ⟨d, hd, rfl⟩ := mem_map.mp hp
    exact (max_eq_left ((hone d hd).le.trans (hs d hd))).symm

theorem zip_groupShape (hone : ∀ dims ∈ groups, OneKind s t dims)
    (hs : ∀ dims ∈ groups, ∀ d ∈ dims, 0 < s.getD d 0)
    (ht : ∀ dims ∈ groups, ∀ d ∈ dims, 0 < t.getD d 0) (k : ℕ) :
    (List.replicate k 1 ++ groupShape s groups).zip (broadcast
      (List.replicate k 1 ++ groupShape s groups) (List.replicate k 1 ++ groupShape t groups)) =
      List.replicate k (1, 1) ++ (groups.map fun dims => dims.map (operand s t)).map
        groupSizes := by
  have hbroadcast : broadcast (List.replicate k 1 ++ groupShape s groups)
      (List.replicate k 1 ++ groupShape t groups) = List.replicate k 1 ++
        groups.map fun dims => (dims.map fun d => max (s.getD d 0) (t.getD d 0)).prod := by
    rw [broadcast, zipWith_append (by simp), zipWith_replicate', groupShape, groupShape,
      zipWith_map, zipWith_self]
    congr 1
    exact map_congr_left fun dims hdims =>
      max_prod_select (hone dims hdims) (hs dims hdims) (ht dims hdims)
  rw [hbroadcast, zip_append (by simp), zip_replicate', groupShape, zip_map',
    map_map]
  congr 1
  apply map_congr_left
  intro dims _
  simp only [groupSizes, Function.comp_apply, map_map, select]
  rfl

theorem filter_matters_comm (s t dims : List ℕ) :
    dims.filter (Matters s t ·) = dims.filter (Matters t s ·) := by
  apply filter_congr
  intro d _
  simp only [decide_eq_decide]
  exact matters_comm s t d

/-- The groups hold what matters, each dimension once and in order. -/
structure Cover (s t : List ℕ) (groups : List (List ℕ)) : Prop where
  inside : ∀ d ∈ groups.flatten, d < s.length
  dims : groups.flatten.filter (Matters s t ·) = (List.range s.length).filter (Matters s t ·)

theorem Cover.symm (h : Cover s t groups) (hlength : s.length = t.length) : Cover t s groups := by
  constructor
  · rw [← hlength]
    exact h.inside
  · rw [filter_matters_comm t s, filter_matters_comm t s, ← hlength]
    exact h.dims

theorem Cover.prod (h : Cover s t groups) (hs : ∀ a ∈ s, 0 < a) (k : ℕ) :
    (List.replicate k 1 ++ groupShape s groups).prod = s.prod := by
  have hflatten : (groupShape s groups).prod = (select s groups.flatten).prod := by
    rw [select, map_flatten, prod_flatten, map_map]
    rfl
  rw [prod_append, prod_replicate, one_pow, Nat.one_mul, hflatten,
    ← prod_select_of_filter hs h.inside, h.dims,
    prod_select_of_filter hs fun d hd => mem_range.mp hd, select_range]

theorem Cover.reads_eq (h : Cover s t groups) (hs : ∀ a ∈ s, 0 < a) (ht : ∀ a ∈ t, 0 < a)
    (hlength : s.length = t.length) (hone : ∀ dims ∈ groups, OneKind s t dims) (k : ℕ) :
    reads ((List.replicate k 1 ++ groupShape s groups).zip (broadcast
      (List.replicate k 1 ++ groupShape s groups) (List.replicate k 1 ++ groupShape t groups))) =
      reads (s.zip (broadcast s t)) := by
  have hpos : ∀ dims ∈ groups, ∀ d ∈ dims, 0 < s.getD d 0 ∧ 0 < t.getD d 0 := by
    intro dims hg d hd
    have hlt := h.inside d (mem_flatten_of_mem hg hd)
    exact ⟨getD_pos hs hlt, getD_pos ht (hlength ▸ hlt)⟩
  have huniform : ∀ g ∈ groups.map fun dims => dims.map (operand s t), Uniform g := by
    intro g hg
    obtain ⟨dims, hdims, rfl⟩ := mem_map.mp hg
    exact uniform_operand (hone dims hdims) fun d hd => (hpos dims hdims d hd).1
  rw [zip_groupShape hone (fun dims hg d hd => (hpos dims hg d hd).1)
      (fun dims hg d hd => (hpos dims hg d hd).2), reads_replicate_one,
    reads_map_groupSizes huniform, ← map_flatten, reads_operand hs h.inside, h.dims,
    ← reads_operand hs fun d hd => mem_range.mp hd, zip_broadcast hlength]

theorem broadcasts_groupShape (hone : ∀ dims ∈ groups, OneKind s t dims) (k : ℕ) :
    Broadcasts (List.replicate k 1 ++ groupShape s groups)
      (List.replicate k 1 ++ groupShape t groups) := by
  apply rel_append
  · exact forall₂_same.mpr fun _ _ => Or.inl rfl
  · rw [groupShape, groupShape, forall₂_map_left_iff, forall₂_map_right_iff,
      forall₂_same]
    intro dims hdims
    obtain hsame | hall | hall := hone dims hdims
    · exact Or.inl (congrArg List.prod (map_congr_left hsame))
    · exact Or.inr (Or.inl (prod_select_eq_one hall))
    · exact Or.inr (Or.inr (prod_select_eq_one hall))

theorem Cover.folds (h : Cover s t groups) (hs : ∀ a ∈ s, 0 < a) (ht : ∀ a ∈ t, 0 < a)
    (hlength : s.length = t.length) (hone : ∀ dims ∈ groups, OneKind s t dims) (k : ℕ) :
    Folds s t groups (List.replicate k 1 ++ groupShape s groups)
      (List.replicate k 1 ++ groupShape t groups) := by
  have hshapes : (List.replicate k 1 ++ groupShape s groups).length =
      (List.replicate k 1 ++ groupShape t groups).length := by simp [groupShape]
  constructor
  · exact fun dims hg d hd => h.inside d (mem_flatten_of_mem hg hd)
  · exact h.dims
  · exact ⟨h.prod hs k, (h.symm hlength).prod ht k⟩
  · exact broadcasts_groupShape hone k
  · intro α β γ f x y
    rw [elementwise_eq f hshapes, elementwise_eq f hlength, h.reads_eq hs ht hlength hone,
      broadcast_comm (List.replicate k 1 ++ groupShape s groups), broadcast_comm s t,
      (h.symm hlength).reads_eq ht hs hlength.symm (fun dims hg => (hone dims hg).symm)]

theorem eq_of_prod_eq {ι : Type*} {f g : ι → ℕ} {l : List ι} (hf : ∀ i ∈ l, 0 < f i)
    (hle : ∀ i ∈ l, f i ≤ g i) (h : (l.map f).prod = (l.map g).prod) : ∀ i ∈ l, f i = g i := by
  induction l with
  | nil => simp
  | cons i l ih =>
    have hprod : (l.map f).prod ≤ (l.map g).prod := prod_map_le_prod_map₀ f g
      (fun j _ => Nat.zero_le (f j)) fun j hj => hle j (mem_cons_of_mem i hj)
    have hpos : 0 < (l.map f).prod := prod_pos_of_mem fun j hj => hf j (mem_cons_of_mem i hj)
    have hhead : f i ≤ g i := hle i mem_cons_self
    have hfi : 0 < f i := hf i mem_cons_self
    rw [map_cons, map_cons, prod_cons, prod_cons] at h
    have heq : f i = g i := by
      by_contra hne
      have hlt : f i * (l.map f).prod < g i * (l.map g).prod :=
        Nat.mul_lt_mul_of_lt_of_le (Nat.lt_of_le_of_ne hhead hne) hprod
          (hpos.trans_le hprod)
      exact hlt.ne h
    rw [heq] at h hfi
    have hrest := ih (fun j hj => hf j (mem_cons_of_mem i hj))
      (fun j hj => hle j (mem_cons_of_mem i hj)) (Nat.eq_of_mul_eq_mul_left hfi h)
    intro j hj
    obtain rfl | hj := mem_cons.mp hj
    · exact heq
    · exact hrest j hj

theorem length_elementwise {α β γ : Type} (f : α → β → γ) (s t : List ℕ) (x : ℕ → α) (y : ℕ → β) :
    (elementwise f s t x y).length = (broadcast s t).prod := by
  rw [elementwise, length_map, length_grid, map_map]
  rw [map_congr_left fun a _ => show (List.length ∘ List.range) a = id a from
    length_range, map_id]

theorem broadcast_eq_map (h : s.length = t.length) :
    broadcast s t = (List.range s.length).map fun d => (operand s t d).2 := by
  have hzip := congrArg (List.map Prod.snd) (zip_broadcast h)
  rw [map_snd_zip (by simp [broadcast, h]), map_map] at hzip
  exact hzip

theorem prod_operand_filter (hs : ∀ a ∈ s, 0 < a) (hdims : ∀ d ∈ dims, d < s.length) :
    ((dims.filter (Matters s t ·)).map fun d => (operand s t d).2).prod =
      (dims.map fun d => (operand s t d).2).prod := by
  rw [← prod_filter_ne_one (fun d => (operand s t d).2) (fun d => (operand s t d).2) dims
    fun _ _ h => h]
  congr 2
  apply filter_congr
  intro d hd
  simp only [decide_eq_decide]
  exact (operand_snd_ne_one hs (hdims d hd)).symm

/-- Groups that fold are of one kind. -/
theorem Folds.oneKind (hs : ∀ a ∈ s, 0 < a) (ht : ∀ a ∈ t, 0 < a) (hlength : s.length = t.length)
    {k : ℕ} (h : Folds s t groups (List.replicate k 1 ++ groupShape s groups)
      (List.replicate k 1 ++ groupShape t groups)) : ∀ dims ∈ groups, OneKind s t dims := by
  have hpos : ∀ dims ∈ groups, ∀ d ∈ dims, 0 < s.getD d 0 ∧ 0 < t.getD d 0 := by
    intro dims hg d hd
    have hlt := h.inside dims hg d hd
    exact ⟨getD_pos hs hlt, getD_pos ht (hlength ▸ hlt)⟩
  have hprod : (groups.map fun dims => max (select s dims).prod (select t dims).prod).prod =
      (groups.map fun dims => (dims.map fun d => (operand s t d).2).prod).prod := by
    have hresult := congrArg List.length
      (h.result Unit Unit Unit (fun _ _ => ()) (fun _ => ()) fun _ => ())
    rw [length_elementwise, length_elementwise, broadcast, zipWith_append (by simp),
      zipWith_replicate', prod_append, prod_replicate, max_self, one_pow,
      Nat.one_mul, groupShape, groupShape, zipWith_map, zipWith_self,
      broadcast_eq_map hlength, ← prod_operand_filter hs fun d hd => mem_range.mp hd,
      ← h.dims, prod_operand_filter hs fun d hd => by
        obtain ⟨dims, hg, hd⟩ := mem_flatten.mp hd
        exact h.inside dims hg d hd, map_flatten, prod_flatten, map_map] at hresult
    exact hresult
  have hle : ∀ u : List ℕ, u = s ∨ u = t → ∀ dims : List ℕ,
      (select u dims).prod ≤ (dims.map fun d => (operand s t d).2).prod := by
    intro u hu dims
    apply prod_map_le_prod_map₀
    · exact fun d _ => Nat.zero_le _
    · intro d _
      obtain rfl | rfl := hu
      · exact le_max_left _ _
      · exact le_max_right _ _
  have hgroup := eq_of_prod_eq (fun dims hg => lt_max_of_lt_left
    (prod_pos_of_mem fun d hd => (hpos dims hg d hd).1))
    (fun dims hg => max_le (hle s (Or.inl rfl) dims) (hle t (Or.inr rfl) dims)) hprod
  have hbroadcasts : ∀ dims ∈ groups, (select s dims).prod = (select t dims).prod ∨
      (select s dims).prod = 1 ∨ (select t dims).prod = 1 := by
    have hall := forall₂_drop k h.broadcasts
    rw [drop_left' (by simp), drop_left' (by simp), groupShape, groupShape,
      forall₂_map_left_iff, forall₂_map_right_iff, forall₂_same] at hall
    exact hall
  have hones : ∀ u dims : List ℕ, (select u dims).prod = 1 → ∀ d ∈ dims, u.getD d 0 = 1 := by
    intro u dims hone d hd
    exact Nat.dvd_one.mp (hone ▸ dvd_prod (mem_map_of_mem hd))
  intro dims hg
  obtain hsame | hone | hone := hbroadcasts dims hg
  · left
    have hmax : max (select s dims).prod (select t dims).prod =
        (dims.map fun d => (operand s t d).2).prod := hgroup dims hg
    have hS : (select s dims).prod = (dims.map fun d => (operand s t d).2).prod := by
      rw [← hmax, ← hsame, max_self]
    have hT : (select t dims).prod = (dims.map fun d => (operand s t d).2).prod := by
      rw [← hmax, hsame, max_self]
    have hs' := eq_of_prod_eq (fun d hd => (hpos dims hg d hd).1) (fun d _ => le_max_left _ _) hS
    have ht' := eq_of_prod_eq (fun d hd => (hpos dims hg d hd).2) (fun d _ => le_max_right _ _) hT
    exact fun d hd => (hs' d hd).trans (ht' d hd).symm
  · exact Or.inr (Or.inl (hones s dims hone))
  · exact Or.inr (Or.inr (hones t dims hone))

end Groups

end Vpux.Data
