import Vpux.Data.Incidence
import Vpux.Graph.Relations
import Mathlib.Data.List.Range

/-! Closing and pruning label sets along an acyclic relation. The labels of a
vertex are its sets in `own`; its neighbours are the vertices `other` attaches
to the same labels. Both sweeps visit the vertices once, in place. -/
namespace Vpux.Data
open TaskSet Relation

variable {S : Type} [TaskSet S]

def Next (own other : Incidence S) (t u : ℕ) : Prop := ∃ b, own.Rel t b ∧ other.Rel u b

/-- The visits of a sweep to one vertex: combine `copy t` with every neighbour's set. -/
def sweep (combine : S → S → S) (own other : ℕ → S) (copy : ℕ → S) (t : ℕ) : ℕ → S :=
  (toList (own t)).foldl (fun copy b =>
    (toList (other b)).foldl (fun copy u =>
      Function.update copy t (combine (copy t) (copy u))) copy) copy

/-- Accumulate in every set the labels of all vertices reachable from it. -/
def closeSets (own other : Incidence S) (order : List ℕ) : ℕ → S :=
  order.foldl (sweep setUnion own.byTask other.byBarrier) own.byTask

/-- Subtract the neighbours' sets, then store what is left as the vertex's labels. -/
def pruneSet (other : Incidence S) (st : Incidence S × (ℕ → S)) (t : ℕ) : Incidence S × (ℕ → S) :=
  let copy := sweep setSubtract st.1.byTask other.byBarrier st.2 t
  (st.1.setTask t (copy t), copy)

def closeAndPrune (own other : Incidence S) (closeOrder pruneOrder : List ℕ) : Incidence S :=
  (pruneOrder.foldl (pruneSet other) (own, closeSets own other closeOrder)).1

def neighbours (own other : ℕ → S) (t : ℕ) : List ℕ :=
  (toList (own t)).flatMap fun b => toList (other b)

open List

theorem mem_neighbours (own other : Incidence S) (t u : ℕ) :
    u ∈ neighbours own.byTask other.byBarrier t ↔ Next own other t u := by
  simp only [neighbours, mem_flatMap, Incidence.mem_byBarrier, Incidence.mem_byTask, Next]

theorem sweep_eq (combine : S → S → S) (own other copy : ℕ → S) (t : ℕ)
    (ht : t ∉ neighbours own other t) :
    sweep combine own other copy t = Function.update copy t
      ((neighbours own other t).foldl (fun s u => combine s (copy u)) (copy t)) := by
  have hflat : ∀ (ns : List ℕ) (copy : ℕ → S), t ∉ ns →
      ns.foldl (fun copy u => Function.update copy t (combine (copy t) (copy u))) copy =
        Function.update copy t (ns.foldl (fun s u => combine s (copy u)) (copy t)) := by
    intro ns
    induction ns with
    | nil => intro copy _; simp
    | cons u ns ih =>
      intro copy hn
      rw [mem_cons, not_or] at hn
      rw [foldl_cons, ih _ hn.2, Function.update_idem, Function.update_self, foldl_cons]
      congr 1
      refine foldl_ext _ _ _ fun s v hv => ?_
      rw [Function.update_of_ne (ne_of_mem_of_not_mem hv hn.2)]
  rw [← hflat _ _ ht, neighbours, foldl_flatMap]
  rfl

theorem mem_foldl_setUnion (ns : List ℕ) (copy : ℕ → S) (s : S) (x : ℕ) :
    x ∈ toList (ns.foldl (fun s u => setUnion s (copy u)) s) ↔
      x ∈ toList s ∨ ∃ u ∈ ns, x ∈ toList (copy u) := by
  induction ns generalizing s with
  | nil => simp
  | cons u ns ih =>
    rw [foldl_cons, ih, mem_setUnion]
    simp only [mem_cons, exists_eq_or_imp, or_assoc]
    exact or_left_comm

theorem mem_foldl_setSubtract (ns : List ℕ) (copy : ℕ → S) (s : S) (x : ℕ) :
    x ∈ toList (ns.foldl (fun s u => setSubtract s (copy u)) s) ↔
      x ∈ toList s ∧ ¬∃ u ∈ ns, x ∈ toList (copy u) := by
  induction ns generalizing s with
  | nil => simp
  | cons u ns ih =>
    rw [foldl_cons, ih, mem_setSubtract]
    simp only [mem_cons, exists_eq_or_imp, not_or, and_assoc, and_left_comm]

/-- Every vertex comes after its neighbours. `seen` lists the vertices already visited. -/
def AfterNext (next : ℕ → ℕ → Prop) : List ℕ → List ℕ → Prop
  | _, [] => True
  | seen, t :: order => t ∉ seen ∧ (∀ u, next t u → u ∈ seen) ∧ AfterNext next (t :: seen) order

def BeforeNext (next : ℕ → ℕ → Prop) : List ℕ → List ℕ → Prop
  | _, [] => True
  | seen, t :: order =>
    t ∉ seen ∧ (∀ u, next t u → u ∉ seen ∧ u ≠ t) ∧ BeforeNext next (t :: seen) order

theorem not_mem_of_beforeNext {next : ℕ → ℕ → Prop} {seen order : List ℕ}
    (h : BeforeNext next seen order) {t : ℕ} (ht : t ∈ order) : t ∉ seen := by
  induction order generalizing seen with
  | nil => simp at ht
  | cons k order ih =>
    rcases mem_cons.mp ht with rfl | ht
    · exact h.1
    · exact fun hs => ih h.2.2 ht (mem_cons_of_mem k hs)

section Closure

variable (own other : Incidence S)

/-- Label `x` is held by a vertex reachable from `t`, `t` included. -/
def Reaches (t x : ℕ) : Prop := ∃ d, ReflTransGen (Next own other) t d ∧ own.Rel d x

theorem reaches_iff (t x : ℕ) :
    Reaches own other t x ↔ own.Rel t x ∨ ∃ u, Next own other t u ∧ Reaches own other u x := by
  constructor
  · rintro ⟨d, hd, hx⟩
    rcases ReflTransGen.cases_head_iff.mp hd with rfl | ⟨u, htu, hud⟩
    · exact Or.inl hx
    · exact Or.inr ⟨u, htu, d, hud, hx⟩
  · rintro (hx | ⟨u, htu, d, hud, hx⟩)
    · exact ⟨t, .refl, hx⟩
    · exact ⟨d, .head htu hud, hx⟩

/-- Visited vertices hold their closure, the others still their own labels. -/
theorem closeSets_invariant (order seen : List ℕ) (copy : ℕ → S)
    (hord : AfterNext (Next own other) seen order)
    (hseen : ∀ j ∈ seen, ∀ x, x ∈ toList (copy j) ↔ Reaches own other j x)
    (hrest : ∀ j, j ∉ seen → copy j = own.byTask j) (j : ℕ) (hj : j ∈ seen ∨ j ∈ order) (x : ℕ) :
    x ∈ toList (order.foldl (sweep setUnion own.byTask other.byBarrier) copy j) ↔
      Reaches own other j x := by
  induction order generalizing seen copy with
  | nil => exact hseen j (by simpa using hj) x
  | cons t order ih =>
    obtain ⟨ht, hnext, hord⟩ := hord
    have hself : t ∉ neighbours own.byTask other.byBarrier t :=
      fun h => ht (hnext t ((mem_neighbours own other t t).mp h))
    have hstep := sweep_eq setUnion own.byTask other.byBarrier copy t hself
    rw [foldl_cons, hstep]
    refine ih (t :: seen) _ hord ?_ ?_ ?_
    · intro k hk y
      by_cases hkt : k = t
      · subst hkt
        rw [Function.update_self, mem_foldl_setUnion, hrest k ht, Incidence.mem_byTask, reaches_iff]
        refine or_congr_right (exists_congr fun u => ?_)
        rw [mem_neighbours]
        exact and_congr_right fun hu => hseen u (hnext u hu) y
      · rw [Function.update_of_ne hkt]
        exact hseen k ((mem_cons.mp hk).resolve_left hkt) y
    · intro k hk
      rw [mem_cons, not_or] at hk
      rw [Function.update_of_ne hk.1]
      exact hrest k hk.2
    · rcases hj with h | h
      · exact Or.inl (mem_cons_of_mem t h)
      · rcases mem_cons.mp h with rfl | h
        · exact Or.inl mem_cons_self
        · exact Or.inr h

theorem mem_closeSets {order : List ℕ} (hord : AfterNext (Next own other) [] order) {j : ℕ}
    (hj : j ∈ order) (x : ℕ) :
    x ∈ toList (closeSets own other order j) ↔ Reaches own other j x :=
  closeSets_invariant own other order [] own.byTask hord (by simp) (fun _ _ => rfl) j
    (Or.inr hj) x

/-- Label `x` of `t` is kept: no vertex strictly beyond `t` holds it. -/
def Kept (t x : ℕ) : Prop := own.Rel t x ∧ ¬∃ u, Next own other t u ∧ Reaches own other u x

theorem kept_iff (t x : ℕ) :
    Kept own other t x ↔ Reaches own other t x ∧ ¬∃ u, Next own other t u ∧
      Reaches own other u x := by
  rw [Kept, reaches_iff own other t x, or_and_right, and_not_self_iff, or_false]

/-- Visited vertices hold what they keep, and so does the stored relation. -/
theorem pruneSet_invariant (order seen : List ℕ) (st : Incidence S × (ℕ → S))
    (hord : BeforeNext (Next own other) seen order)
    (hin : ∀ t ∈ order, ∀ u, Next own other t u → u ∈ seen ∨ u ∈ order)
    (hcopy : ∀ j ∈ order, ∀ x, x ∈ toList (st.2 j) ↔ Reaches own other j x)
    (hkept : ∀ j ∈ seen, ∀ x, st.1.Rel j x ↔ Kept own other j x)
    (hrest : ∀ j, j ∉ seen → st.1.byTask j = own.byTask j)
    (j : ℕ) (hj : j ∈ seen ∨ j ∈ order) (x : ℕ) :
    (order.foldl (pruneSet other) st).1.Rel j x ↔ Kept own other j x := by
  induction order generalizing seen st with
  | nil => exact hkept j (by simpa using hj) x
  | cons t order ih =>
    obtain ⟨ht, hnext, hord⟩ := hord
    have hns : ∀ u, u ∈ neighbours st.1.byTask other.byBarrier t ↔ Next own other t u := by
      intro u
      rw [← mem_neighbours, neighbours, neighbours, hrest t ht]
    have hstep := sweep_eq setSubtract st.1.byTask other.byBarrier st.2 t
      (fun h => (hnext t ((hns t).mp h)).2 rfl)
    have hnew : ∀ y, y ∈ toList (sweep setSubtract st.1.byTask other.byBarrier st.2 t t) ↔
        Kept own other t y := by
      intro y
      rw [hstep, Function.update_self, mem_foldl_setSubtract, kept_iff,
        hcopy t mem_cons_self y]
      refine and_congr_right fun _ => not_congr (exists_congr fun u => ?_)
      rw [hns]
      refine and_congr_right fun hu => hcopy u ?_ y
      exact (hin t mem_cons_self u hu).resolve_left (hnext u hu).1
    refine ih (t :: seen) _ hord ?_ ?_ ?_ ?_ ?_
    · intro k hk u hu
      rcases hin k (mem_cons_of_mem t hk) u hu with h | h
      · exact Or.inl (mem_cons_of_mem t h)
      · rcases mem_cons.mp h with rfl | h
        · exact Or.inl mem_cons_self
        · exact Or.inr h
    · intro k hk y
      have hkt : k ≠ t := fun h => not_mem_of_beforeNext hord (h ▸ hk) mem_cons_self
      change y ∈ toList (sweep setSubtract st.1.byTask other.byBarrier st.2 t k) ↔ _
      rw [hstep, Function.update_of_ne hkt]
      exact hcopy k (mem_cons_of_mem t hk) y
    · intro k hk y
      change (st.1.setTask t (sweep setSubtract st.1.byTask other.byBarrier st.2 t t)).Rel k y ↔ _
      rw [Incidence.rel_setTask]
      split_ifs with hkt
      · subst hkt
        exact hnew y
      · exact hkept k ((mem_cons.mp hk).resolve_left hkt) y
    · intro k hk
      rw [mem_cons, not_or] at hk
      exact (Function.update_of_ne hk.1 _ _).trans (hrest k hk.2)
    · rcases hj with h | h
      · exact Or.inl (mem_cons_of_mem t h)
      · rcases mem_cons.mp h with rfl | h
        · exact Or.inl mem_cons_self
        · exact Or.inr h

variable {closeOrder pruneOrder : List ℕ}

theorem rel_closeAndPrune (hclose : AfterNext (Next own other) [] closeOrder)
    (hprune : BeforeNext (Next own other) [] pruneOrder)
    (hsame : ∀ t, t ∈ pruneOrder ↔ t ∈ closeOrder) (hall : ∀ t b, own.Rel t b → t ∈ closeOrder)
    (hother : ∀ t b, other.Rel t b → t ∈ closeOrder) (t x : ℕ) :
    (closeAndPrune own other closeOrder pruneOrder).Rel t x ↔ Kept own other t x := by
  by_cases ht : t ∈ pruneOrder
  · refine pruneSet_invariant own other pruneOrder [] _ hprune ?_ ?_ (by simp) (fun _ _ => rfl) t
      (Or.inr ht) x
    · rintro k _ u ⟨b, _, hb⟩
      exact Or.inr ((hsame u).mpr (hother u b hb))
    · exact fun j hj x => mem_closeSets own other hclose ((hsame j).mp hj) x
  · have hframe : ∀ (order : List ℕ) (st : Incidence S × (ℕ → S)), t ∉ order →
        (order.foldl (pruneSet other) st).1.byTask t = st.1.byTask t := by
      intro order
      induction order with
      | nil => intro st _; rfl
      | cons k order ih =>
        intro st hk
        rw [mem_cons, not_or] at hk
        exact (ih _ hk.2).trans (Function.update_of_ne hk.1 _ _)
    have hnot : ¬ own.Rel t x := fun h => ht ((hsame t).mpr (hall t x h))
    rw [closeAndPrune, Incidence.Rel, hframe _ _ ht]
    exact iff_of_false hnot fun h => hnot h.1

theorem transGen_closeAndPrune {rank : ℕ → ℕ} (hrank : Graph.Ranked rank (Next own other))
    (hclose : AfterNext (Next own other) [] closeOrder)
    (hprune : BeforeNext (Next own other) [] pruneOrder)
    (hsame : ∀ t, t ∈ pruneOrder ↔ t ∈ closeOrder) (hall : ∀ t b, own.Rel t b → t ∈ closeOrder)
    (hother : ∀ t b, other.Rel t b → t ∈ closeOrder) {a c : ℕ} :
    TransGen (Next (closeAndPrune own other closeOrder pruneOrder) other) a c ↔
      TransGen (Next own other) a c := by
  have hrel := rel_closeAndPrune own other hclose hprune hsame hall hother
  apply Graph.transGen_iff_of_covered hrank
  · rintro x y ⟨b, hx, hy⟩
    exact ⟨b, ((hrel x b).mp hx).1, hy⟩
  · rintro x y ⟨b, hx, hy⟩
    by_cases hk : Kept own other x b
    · exact Or.inl (.single ⟨b, (hrel x b).mpr hk, hy⟩)
    · have hbeyond : ∃ u, Next own other x u ∧ Reaches own other u b := by
        by_contra hn
        exact hk ⟨hx, hn⟩
      obtain ⟨u, hxu, d, hud, hd⟩ := hbeyond
      exact Or.inr ⟨d, TransGen.head' hxu hud, .single ⟨b, hd, hy⟩⟩

end Closure

section Orders

variable {next : ℕ → ℕ → Prop} {seen order : List ℕ}

theorem afterNext_of_pairwise (hnd : order.Nodup) (hpw : order.Pairwise fun x y => ¬ next x y)
    (hirr : ∀ t, ¬ next t t) (hdisj : ∀ t ∈ order, t ∉ seen)
    (hin : ∀ t ∈ order, ∀ u, next t u → u ∈ seen ∨ u ∈ order) : AfterNext next seen order := by
  induction order generalizing seen with
  | nil => trivial
  | cons t order ih =>
    obtain ⟨ht, hnd⟩ := nodup_cons.mp hnd
    obtain ⟨hfirst, hpw⟩ := pairwise_cons.mp hpw
    refine ⟨hdisj t mem_cons_self, ?_, ih hnd hpw ?_ ?_⟩
    · intro u hu
      rcases hin t mem_cons_self u hu with h | h
      · exact h
      · rcases mem_cons.mp h with rfl | h
        · exact absurd hu (hirr u)
        · exact absurd hu (hfirst u h)
    · intro k hk
      rw [mem_cons, not_or]
      exact ⟨ne_of_mem_of_not_mem hk ht, hdisj k (mem_cons_of_mem t hk)⟩
    · intro k hk u hu
      rcases hin k (mem_cons_of_mem t hk) u hu with h | h
      · exact Or.inl (mem_cons_of_mem t h)
      · rcases mem_cons.mp h with rfl | h
        · exact Or.inl mem_cons_self
        · exact Or.inr h

theorem beforeNext_of_pairwise (hnd : order.Nodup) (hpw : order.Pairwise fun x y => ¬ next y x)
    (hirr : ∀ t, ¬ next t t) (hdisj : ∀ t ∈ order, t ∉ seen)
    (hseen : ∀ t ∈ order, ∀ u ∈ seen, ¬ next t u) : BeforeNext next seen order := by
  induction order generalizing seen with
  | nil => trivial
  | cons t order ih =>
    obtain ⟨ht, hnd⟩ := nodup_cons.mp hnd
    obtain ⟨hfirst, hpw⟩ := pairwise_cons.mp hpw
    refine ⟨hdisj t mem_cons_self, ?_, ih hnd hpw ?_ ?_⟩
    · intro u hu
      refine ⟨fun hs => hseen t mem_cons_self u hs hu, ?_⟩
      rintro rfl
      exact hirr u hu
    · intro k hk
      rw [mem_cons, not_or]
      exact ⟨ne_of_mem_of_not_mem hk ht, hdisj k (mem_cons_of_mem t hk)⟩
    · intro k hk u hu
      rcases mem_cons.mp hu with rfl | hu
      · exact hfirst k hk
      · exact hseen k (mem_cons_of_mem t hk) u hu

variable {n : ℕ}

theorem afterNext_reverse_range (h : ∀ t u, next t u → t < u ∧ u < n) :
    AfterNext next [] (List.range n).reverse := by
  apply afterNext_of_pairwise
  · exact nodup_reverse.mpr nodup_range
  · rw [pairwise_reverse]
    exact pairwise_lt_range.imp fun hlt hn => by have := (h _ _ hn).1; omega
  · exact fun t ht => (h t t ht).1.false
  · simp
  · intro t _ u hu
    exact Or.inr (by simpa using (h t u hu).2)

theorem beforeNext_range (h : ∀ t u, next t u → t < u ∧ u < n) :
    BeforeNext next [] (List.range n) := by
  apply beforeNext_of_pairwise nodup_range
  · exact pairwise_lt_range.imp fun hlt hn => by have := (h _ _ hn).1; omega
  · exact fun t ht => (h t t ht).1.false
  · simp
  · simp

theorem afterNext_range (h : ∀ t u, next t u → u < t ∧ t < n) :
    AfterNext next [] (List.range n) := by
  apply afterNext_of_pairwise nodup_range
  · exact pairwise_lt_range.imp fun hlt hn => by have := (h _ _ hn).1; omega
  · exact fun t ht => (h t t ht).1.false
  · simp
  · intro t ht u hu
    exact Or.inr (mem_range.mpr ((h t u hu).1.trans (h t u hu).2))

theorem beforeNext_reverse_range (h : ∀ t u, next t u → u < t ∧ t < n) :
    BeforeNext next [] (List.range n).reverse := by
  apply beforeNext_of_pairwise
  · exact nodup_reverse.mpr nodup_range
  · rw [pairwise_reverse]
    exact pairwise_lt_range.imp fun hlt hn => by have := (h _ _ hn).1; omega
  · exact fun t ht => (h t t ht).1.false
  · simp
  · simp

end Orders
end Vpux.Data
