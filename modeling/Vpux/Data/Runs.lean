import Mathlib.Data.List.GetD
import Mathlib.Data.List.Sort
import Mathlib.Data.List.SplitBy

/-! Lists of numbers as runs of consecutive ones, and the positions of a list sorted by value. -/
namespace Vpux.Data

def runs (l : List ℕ) : List (List ℕ) := l.splitBy fun a b => a + 1 == b

def runStarts (l : List ℕ) : List ℕ := (runs l).map (·.headD 0)

open List

section Runs

@[simp] theorem runs_nil : runs [] = [] := rfl

theorem flatten_runs (l : List ℕ) : (runs l).flatten = l := flatten_splitBy _ l

theorem exists_run (a : ℕ) (l : List ℕ) :
    ∃ n m, a :: l = List.range' a (n + 1) ++ m ∧ m.head? ≠ some (a + n + 1) := by
  induction l generalizing a with
  | nil => exact ⟨0, [], by simp, by simp⟩
  | cons b l ih =>
    by_cases hb : a + 1 = b
    · obtain ⟨n, m, hl, hm⟩ := ih b
      refine ⟨n + 1, m, ?_, ?_⟩
      · rw [hl, range'_succ (s := a), ← hb, cons_append]
      · rwa [← hb, show a + 1 + n + 1 = a + (n + 1) + 1 by omega] at hm
    · refine ⟨0, b :: l, by simp, ?_⟩
      rw [head?_cons, ne_eq, Option.some_inj]
      omega

theorem run_induction {P : List ℕ → Prop} (nil : P [])
    (run : ∀ a n m, m.head? ≠ some (a + n + 1) → P m → P (List.range' a (n + 1) ++ m))
    (l : List ℕ) : P l := by
  induction hlength : l.length using Nat.strong_induction_on generalizing l with
  | _ length ih =>
    cases l with
    | nil => exact nil
    | cons a l =>
      obtain ⟨n, m, hl, hm⟩ := exists_run a l
      have hlt : m.length < length := by
        have := congrArg List.length hl
        rw [length_append, length_range', hlength] at this
        omega
      rw [hl]
      exact run a n m hm (ih m.length hlt m rfl)

theorem runs_append {a n : ℕ} {m : List ℕ} (h : m.head? ≠ some (a + n + 1)) :
    runs (List.range' a (n + 1) ++ m) = List.range' a (n + 1) :: runs m := by
  have hchain : (List.range' a (n + 1)).IsChain fun x y => (x + 1 == y) = true := by
    refine (isChain_range' a (n + 1) 1).imp fun x y hxy => ?_
    simp [hxy]
  have hcut : ∀ x ∈ (List.range' a (n + 1)).getLast?, ∀ y ∈ m.head?, (x + 1 == y) = false := by
    intro x hx y hy
    rw [getLast?_range', if_neg (by omega), Option.mem_def, Option.some_inj] at hx
    rw [beq_eq_false_iff_ne]
    rintro rfl
    apply h
    rw [hy, ← hx]
    congr 1
  unfold runs
  rw [splitBy_append hcut, splitBy_of_isChain (by simp) hchain, singleton_append]

theorem exists_range'_of_mem_runs {l r : List ℕ} (h : r ∈ runs l) :
    ∃ a n, r = List.range' a (n + 1) := by
  induction l using run_induction with
  | nil => simp at h
  | run a n m hm ih =>
    rw [runs_append hm, mem_cons] at h
    rcases h with rfl | h
    · exact ⟨a, n, rfl⟩
    · exact ih h

theorem runStarts_append {a n : ℕ} {m : List ℕ} (h : m.head? ≠ some (a + n + 1)) :
    runStarts (List.range' a (n + 1) ++ m) = a :: runStarts m := by
  rw [runStarts, runs_append h, map_cons, range'_succ, headD_cons, runStarts]

theorem runStarts_sublist (l : List ℕ) : (runStarts l).Sublist l := by
  induction l using run_induction with
  | nil => simp [runStarts]
  | run a n m hm ih =>
    rw [runStarts_append hm, range'_succ, cons_append]
    exact (ih.trans (sublist_append_right _ _)).cons_cons a

/-- A number right behind its predecessor does not start a run. -/
theorem notMem_runStarts {l l₁ l₂ : List ℕ} {i : ℕ} (hl : l = l₁ ++ i :: (i + 1) :: l₂)
    (hnodup : l.Nodup) : i + 1 ∉ runStarts l := by
  induction l using run_induction generalizing l₁ with
  | nil => simp at hl
  | run a n m hm ih =>
    obtain ⟨-, hnodup', hdisjoint⟩ := nodup_append'.mp hnodup
    rw [runStarts_append hm, mem_cons, not_or]
    have hcases : i + 1 ∈ m ∧ i + 1 ∉ runStarts m ∨ i + 1 ∉ m ∧ a < i + 1 := by
      rcases append_eq_append_iff.mp hl with ⟨t, rfl, ht⟩ | ⟨t, ht, ht'⟩
      · exact .inl ⟨by simp [ht], ih ht hnodup'⟩
      match t with
      | [] =>
        rw [nil_append] at ht'
        exact .inl ⟨by simp [← ht'], ih (ht'.symm.trans (nil_append _).symm) hnodup'⟩
      | [j] =>
        -- the run would have gone on
        have hlast := congrArg List.getLast? ht
        simp only [getLast?_range', getLast?_append, getLast?_singleton] at hlast
        obtain ⟨rfl, rfl⟩ := ht'
        have hi : i = a + n := by simpa using hlast.symm
        exact absurd (by rw [head?_cons, hi]) hm
      | j :: k :: t =>
        obtain ⟨rfl, rfl, -⟩ := ht'
        have hmem : i ∈ List.range' a (n + 1) ∧ i + 1 ∈ List.range' a (n + 1) := by simp [ht]
        have hle := (mem_range'_1.mp hmem.1).1
        exact .inr ⟨fun h => hdisjoint hmem.2 h, by omega⟩
    rcases hcases with ⟨hmem, hstart⟩ | ⟨hmem, hlt⟩
    · refine ⟨?_, hstart⟩
      rintro rfl
      exact hdisjoint (by simp) hmem
    · exact ⟨by omega, fun h => hmem ((runStarts_sublist m).subset h)⟩

/-- A list cut in two ways: when no piece of the one has a piece of the other start inside it,
it has at least as many pieces, and with as many they are the same. -/
theorem length_le_of_refines {α : Type} {xs rs : List (List α)} (hflat : xs.flatten = rs.flatten)
    (hxs : ∀ x ∈ xs, x ≠ []) (hrs : ∀ r ∈ rs, r ≠ [])
    (hstart : ∀ x ∈ xs.tail, ∀ r ∈ rs, ∀ a ∈ x.head?, a ∉ r.tail) :
    xs.length ≤ rs.length ∧ (xs.length = rs.length → xs = rs) := by
  induction rs generalizing xs with
  | nil =>
    have hnil : xs = [] := by
      cases xs with
      | nil => rfl
      | cons x xs => simp_all
    simp [hnil]
  | cons r rs ih =>
    have hrs' : ∀ r ∈ rs, r ≠ [] := fun r hr => hrs r (mem_cons_of_mem _ hr)
    cases xs with
    | nil => simp_all
    | cons x xs =>
      have hx : x ≠ [] := hxs x mem_cons_self
      have hxs' : ∀ x ∈ xs, x ≠ [] := fun x hx => hxs x (mem_cons_of_mem _ hx)
      have hstart' : ∀ x ∈ xs, ∀ r ∈ rs, ∀ a ∈ x.head?, a ∉ r.tail :=
        fun x hx r hr => hstart x hx r (mem_cons_of_mem _ hr)
      rcases append_eq_append_iff.mp hflat with ⟨t, hr, ht⟩ | ⟨t, hx', ht⟩
      · -- what is left of `r` would start with the piece behind `x`
        have htnil : t = [] := by
          match t, xs with
          | [], _ => rfl
          | a :: t, [] => simp at ht
          | a :: t, y :: xs =>
            have hy : y ≠ [] := hxs' y mem_cons_self
            have hhead : a ∈ y.head? := by
              have := congrArg List.head? ht
              rwa [flatten_cons, head?_append_of_ne_nil _ hy, cons_append,
                head?_cons] at this
            refine absurd ?_ (hstart y mem_cons_self r mem_cons_self a hhead)
            rw [hr, tail_append_of_ne_nil hx]
            simp
        rw [htnil, append_nil] at hr
        rw [htnil, nil_append] at ht
        obtain ⟨hle, heq⟩ := ih ht hxs' hrs' fun x hx => hstart' x (mem_of_mem_tail hx)
        simp only [length_cons, Nat.add_le_add_iff_right, Nat.add_right_cancel_iff, hr,
          List.cons.injEq, true_and]
        exact ⟨hle, heq⟩
      · cases t with
        | nil =>
          rw [append_nil] at hx'
          obtain ⟨hle, heq⟩ := ih ht.symm hxs' hrs' fun x hx => hstart' x (mem_of_mem_tail hx)
          simp only [length_cons, Nat.add_le_add_iff_right, Nat.add_right_cancel_iff, hx',
            List.cons.injEq, true_and]
          exact ⟨hle, heq⟩
        | cons a t =>
          -- `x` goes on behind `r`
          have hle := (ih (show ((a :: t) :: xs).flatten = rs.flatten from ht.symm)
            (by simpa using hxs') hrs' hstart').1
          simp only [length_cons] at hle ⊢
          exact ⟨by omega, by omega⟩

end Runs

section SortIndex

/-- The positions of a list in the order of the values there. -/
def sortIndex (l : List ℕ) : List ℕ :=
  (List.range l.length).insertionSort fun a b => l.getD a 0 ≤ l.getD b 0

theorem sortIndex_perm (l : List ℕ) : (sortIndex l).Perm (List.range l.length) :=
  perm_insertionSort _ _

@[simp] theorem length_sortIndex (l : List ℕ) : (sortIndex l).length = l.length := by
  rw [(sortIndex_perm l).length_eq, length_range]

theorem map_getD_range {α : Type} (l : List α) (d : α) :
    (List.range l.length).map (l.getD · d) = l := by
  apply ext_getElem (by simp)
  intro i hi hi'
  rw [getElem_map, getElem_range, getD_eq_getElem _ _ hi']

theorem map_sortIndex_perm {α : Type} (l : List ℕ) (l' : List α) (d : α)
    (h : l'.length = l.length) : ((sortIndex l).map (l'.getD · d)).Perm l' := by
  have hperm := (sortIndex_perm l).map (l'.getD · d)
  rwa [← h, map_getD_range] at hperm

theorem map_sortIndex_sorted {l : List ℕ} (h : l.Nodup) :
    ((sortIndex l).map (l.getD · 0)).Pairwise (· < ·) := by
  have hle : ((sortIndex l).map (l.getD · 0)).Pairwise (· ≤ ·) := by
    rw [pairwise_map]
    exact pairwise_insertionSort (fun a b => l.getD a 0 ≤ l.getD b 0) _
  have hne : ((sortIndex l).map (l.getD · 0)).Pairwise (· ≠ ·) :=
    (map_sortIndex_perm l l 0 rfl).nodup_iff.mpr h
  exact (hle.and hne).imp fun h => lt_of_le_of_ne h.1 h.2

theorem lt_of_head_lt {a b : List ℕ} (ha : ∃ s n, a = List.range' s (n + 1))
    (hb : ∃ s n, b = List.range' s (n + 1)) (hdisjoint : List.Disjoint a b)
    (hlt : a.headD 0 < b.headD 0) : ∀ x ∈ a, ∀ y ∈ b, x < y := by
  obtain ⟨s, n, rfl⟩ := ha
  obtain ⟨t, k, rfl⟩ := hb
  have hmem : t ∉ List.range' s (n + 1) := fun h => hdisjoint h (by simp)
  rw [range'_succ, range'_succ, headD_cons, headD_cons] at hlt
  rw [mem_range'_1] at hmem
  intro x hx y hy
  rw [mem_range'_1] at hx hy
  omega

theorem flatten_map_sortIndex {p : List ℕ} {n : ℕ} (hp : p.Perm (List.range n)) :
    ((sortIndex (runStarts p)).map ((runs p).getD · [])).flatten = List.range n := by
  have hnodup : p.Nodup := hp.nodup_iff.mpr nodup_range
  have hlength : (runs p).length = (runStarts p).length := by simp [runStarts]
  have hruns := map_sortIndex_perm (runStarts p) (runs p) [] hlength
  have hflat : ((sortIndex (runStarts p)).map ((runs p).getD · [])).flatten.Perm p :=
    hruns.flatten.trans (List.Perm.of_eq (flatten_runs p))
  apply List.Perm.eq_of_pairwise' _ pairwise_lt_range (hflat.trans hp)
  have hrange : ∀ r ∈ (sortIndex (runStarts p)).map ((runs p).getD · []),
      ∃ a n, r = List.range' a (n + 1) :=
    fun r hr => exists_range'_of_mem_runs (hruns.mem_iff.mp hr)
  have hsorted := map_sortIndex_sorted ((runStarts_sublist p).nodup hnodup)
  have hheads : ((sortIndex (runStarts p)).map ((runs p).getD · [])).Pairwise
      fun a b => a.headD 0 < b.headD 0 := by
    rw [pairwise_map] at hsorted ⊢
    refine hsorted.imp fun {i j} h => ?_
    have hmap : ∀ k, (runStarts p).getD k 0 = ((runs p).getD k []).headD 0 :=
      fun k => getD_map (runs p) [] (fun r : List ℕ => r.headD 0)
    rwa [hmap, hmap] at h
  have hdisjoint := (nodup_flatten.mp (hflat.nodup_iff.mpr hnodup)).2
  apply pairwise_flatten.mpr
  constructor
  · intro r hr
    obtain ⟨a, k, rfl⟩ := hrange r hr
    exact pairwise_lt_range'
  · refine (hheads.and hdisjoint).imp_of_mem fun {a b} ha hb h => ?_
    exact lt_of_head_lt (hrange a ha) (hrange b hb) h.2 h.1

theorem sortIndex_runStarts_ne {p : List ℕ} {n : ℕ} (hp : p.Perm (List.range n)) :
    sortIndex (runStarts p) ≠ [0, 1] := by
  intro h
  have hlength : (runs p).length = 2 := by
    have := congrArg List.length h
    simpa [runStarts] using this
  have hflat := flatten_map_sortIndex hp
  have hruns : [0, 1].map ((runs p).getD · []) = runs p := by
    rw [← map_getD_range (runs p) [], hlength]
    rfl
  rw [h, hruns, flatten_runs] at hflat
  rw [hflat] at hlength
  cases n with
  | zero => simp at hlength
  | succ n =>
    have hone := runs_append (a := 0) (n := n) (m := []) (by simp)
    rw [append_nil, ← range_eq_range', runs_nil] at hone
    simp [hone] at hlength

theorem getD_injective {l : List ℕ} (hnodup : l.Nodup) {i j : ℕ} (hi : i < l.length)
    (hj : j < l.length) (h : l.getD i 0 = l.getD j 0) : i = j := by
  rw [getD_eq_getElem _ _ hi, getD_eq_getElem _ _ hj] at h
  exact hnodup.getElem_inj_iff.mp h

theorem ne_of_adjacent {l u z w v : List ℕ} {x a h : ℕ} (hnodup : l.Nodup)
    (hl : l = u ++ x :: a :: z) (hsorted : (sortIndex l).map (l.getD · 0) = w ++ x :: a :: v)
    (hh : h ∈ runStarts (sortIndex l)) : l.getD h 0 ≠ a := by
  have hlt : ∀ {i}, i ∈ sortIndex l → i < l.length :=
    fun hi => mem_range.mp ((sortIndex_perm l).subset hi)
  have hlength : u.length + 1 < l.length := by
    rw [hl]
    simp
  have hx : l.getD u.length 0 = x := by rw [hl]; simp
  have ha : l.getD (u.length + 1) 0 = a := by rw [hl]; simp
  obtain ⟨w', _, hp, -, hrest⟩ := map_eq_append_iff.mp hsorted
  obtain ⟨i, _, rfl, hi, hrest⟩ := map_eq_cons_iff.mp hrest
  obtain ⟨j, v', rfl, hj, -⟩ := map_eq_cons_iff.mp hrest
  obtain rfl : i = u.length :=
    getD_injective hnodup (hlt (by simp [hp])) (by omega) (hi.trans hx.symm)
  obtain rfl : j = u.length + 1 :=
    getD_injective hnodup (hlt (by simp [hp])) hlength (hj.trans ha.symm)
  intro heq
  obtain rfl : h = u.length + 1 := getD_injective hnodup
    (hlt ((runStarts_sublist _).subset hh)) hlength (heq.trans ha.symm)
  exact notMem_runStarts hp ((sortIndex_perm l).nodup_iff.mpr nodup_range) hh

end SortIndex

-- Maximal runs of positions, and groups made of the runs of two kinds in the order of their first
-- positions.

/-- All positions from `first` to `last` have the property, and neither neighbour has it. -/
def IsRun (p : ℕ → Prop) (n first last : ℕ) : Prop :=
  first < last ∧ last < n ∧ (∀ i < last + 1, first ≤ i → p i) ∧ (first = 0 ∨ ¬p (first - 1)) ∧
    (last + 1 = n ∨ ¬p (last + 1))

instance (p : ℕ → Prop) [DecidablePred p] (n first last : ℕ) : Decidable (IsRun p n first last) :=
  inferInstanceAs (Decidable (_ ∧ _ ∧ _ ∧ _ ∧ _))

@[ext]
structure Run where
  kind : Bool
  first : ℕ
  last : ℕ
  deriving DecidableEq, Repr

namespace IsRun

variable {p : ℕ → Prop} {n first last first' last' : ℕ}

variable (h : IsRun p n first last)
include h

theorem holds {i : ℕ} (hi : first ≤ i) (hi' : i ≤ last) : p i :=
  h.2.2.1 i (by omega) hi

theorem last_lt (h' : IsRun p n first' last') (hlt : first < first') : last < first' := by
  by_contra hle
  obtain hzero | hbefore := h'.2.2.2.1
  · omega
  · exact hbefore (h.holds (by omega) (by omega))

theorem last_unique (h' : IsRun p n first last') : last = last' := by
  have hle : ∀ {a b : ℕ}, IsRun p n first a → IsRun p n first b → a ≤ b := by
    intro a b ha hb
    by_contra hlt
    have hn := ha.2.1
    have hpos := hb.1
    obtain hend | hbehind := hb.2.2.2.2
    · omega
    · exact hbehind (ha.holds (by omega) (by omega))
  exact Nat.le_antisymm (hle h h') (hle h' h)

theorem last_eq_of_holds (hall : ∀ i, last < i → i < n → p i) : last + 1 = n := by
  obtain hend | hbehind := h.2.2.2.2
  · exact hend
  · by_contra hne
    have hn := h.2.1
    exact hbehind (hall (last + 1) (by omega) (by omega))

end IsRun

theorem exists_isRun {p : ℕ → Prop} {n i : ℕ} (hi : i + 1 < n) (hall : ∀ j, i ≤ j → j < n → p j) :
    ∃ first ≤ i, IsRun p n first (n - 1) := by
  have hstart : ∀ i, (∀ j, i ≤ j → j < n → p j) → ∃ first ≤ i, (∀ j, first ≤ j → j < n → p j) ∧
      (first = 0 ∨ ¬p (first - 1)) := by
    intro i
    induction i with
    | zero => exact fun hall => ⟨0, le_rfl, hall, Or.inl rfl⟩
    | succ i ih =>
      intro hall
      by_cases hp : p i
      · obtain ⟨first, hle, hrest⟩ := ih (fun j hj hn => by
          obtain rfl | hlt := Nat.eq_or_lt_of_le hj
          · exact hp
          · exact hall j hlt hn)
        exact ⟨first, by omega, hrest⟩
      · exact ⟨i + 1, le_rfl, hall, Or.inr hp⟩
  obtain ⟨first, hle, hholds, hbefore⟩ := hstart i hall
  refine ⟨first, hle, by omega, by omega, ?_, hbefore, Or.inl (by omega)⟩
  exact fun j hj hfirst => hholds j hfirst (by omega)

section RunsOf

variable (kind : Bool) (p : ℕ → Prop) [DecidablePred p] (n : ℕ)

def runsOf : List Run :=
  (List.range n).flatMap fun first =>
    ((List.range n).filter (IsRun p n first ·)).map fun last => ⟨kind, first, last⟩

variable {kind p n}

theorem mem_runsOf {r : Run} :
    r ∈ runsOf kind p n ↔ r.kind = kind ∧ IsRun p n r.first r.last := by
  constructor
  · intro h
    obtain ⟨first, -, h⟩ := mem_flatMap.mp h
    obtain ⟨last, hlast, rfl⟩ := mem_map.mp h
    exact ⟨rfl, of_decide_eq_true (mem_filter.mp hlast).2⟩
  · rintro ⟨rfl, h⟩
    have hfirst := h.1
    have hlast := h.2.1
    refine mem_flatMap.mpr ⟨r.first, mem_range.mpr (by omega), ?_⟩
    exact mem_map.mpr ⟨r.last, mem_filter.mpr ⟨mem_range.mpr hlast,
      decide_eq_true h⟩, rfl⟩

theorem pairwise_runsOf : (runsOf kind p n).Pairwise fun x z => x.last < z.first := by
  rw [runsOf, pairwise_flatMap]
  constructor
  · intro first _
    rw [pairwise_map, pairwise_filter]
    apply pairwise_lt_range.imp
    intro a b hlt ha hb
    have hsame := (of_decide_eq_true ha).last_unique (of_decide_eq_true hb)
    omega
  · apply pairwise_lt_range.imp
    intro a b hlt x hx z hz
    obtain ⟨last, hlast, rfl⟩ := mem_map.mp hx
    obtain ⟨last', hlast', rfl⟩ := mem_map.mp hz
    exact (of_decide_eq_true (mem_filter.mp hlast).2).last_lt
      (of_decide_eq_true (mem_filter.mp hlast').2) hlt

theorem eq_runsOf {l : List Run} (hsorted : l.Pairwise fun x z => x.last < z.first)
    (hmem : ∀ r, r ∈ l ↔ r.kind = kind ∧ IsRun p n r.first r.last) : l = runsOf kind p n := by
  have hruns : ∀ r ∈ runsOf kind p n, r.first < r.last := fun r hr => (mem_runsOf.mp hr).2.1
  have hirrefl : ∀ {l : List Run}, (l.Pairwise fun x z => x.last < z.first) →
      (∀ r ∈ l, r.first < r.last) → l.Pairwise fun x z => x.first < z.first := by
    intro l hl hlt
    apply List.Pairwise.imp_of_mem _ hl
    intro x z hx _ hxz
    exact (hlt x hx).trans hxz
  apply List.Pairwise.eq_of_mem_iff (hirrefl hsorted fun r hr => ((hmem r).mp hr).2.1)
    (hirrefl pairwise_runsOf hruns)
  intro r
  rw [hmem, mem_runsOf]

end RunsOf

section Merged

variable (P : Bool → ℕ → Prop) [∀ kind, DecidablePred (P kind)] (n : ℕ)

/-- The runs of both kinds in the order of their first positions. -/
def mergedRuns : List Run :=
  List.merge (runsOf true (P true) n) (runsOf false (P false) n) fun x z => x.first ≤ z.first

/-- The one run begins first, and runs of one kind are apart. -/
def Run.Before (x z : Run) : Prop := x.first ≤ z.first ∧ (x.kind = z.kind → x.last < z.first)

variable {P n}

theorem mem_mergedRuns {r : Run} : r ∈ mergedRuns P n ↔ IsRun (P r.kind) n r.first r.last := by
  rw [mergedRuns, mem_merge, mem_runsOf, mem_runsOf]
  cases h : r.kind <;> simp

theorem pairwise_merge_before {l l' : List Run} (hl : l.Pairwise Run.Before)
    (hl' : l'.Pairwise Run.Before) (hkind : ∀ x ∈ l, ∀ z ∈ l', x.kind ≠ z.kind) :
    (List.merge l l' fun x z => x.first ≤ z.first).Pairwise Run.Before := by
  induction l generalizing l' with
  | nil => simpa using hl'
  | cons x l ih =>
    induction l' with
    | nil => simpa using hl
    | cons z l' ih' =>
      obtain ⟨hx, hrest⟩ := pairwise_cons.mp hl
      obtain ⟨hz, hrest'⟩ := pairwise_cons.mp hl'
      by_cases hle : x.first ≤ z.first
      · rw [cons_merge_cons_pos _ _ _ (by simpa using hle), pairwise_cons]
        refine ⟨fun r hr => ?_, ih hrest hl' fun y hy => hkind y (mem_cons_of_mem x hy)⟩
        obtain hr | hr := mem_merge.mp hr
        · exact hx r hr
        · refine ⟨?_, fun heq => absurd heq (hkind x mem_cons_self r hr)⟩
          obtain rfl | hr := mem_cons.mp hr
          · exact hle
          · exact hle.trans (hz r hr).1
      · rw [cons_merge_cons_neg _ _ _ (by simpa using hle), pairwise_cons]
        refine ⟨fun r hr => ?_, ih' hrest' fun y hy w hw =>
          hkind y hy w (mem_cons_of_mem z hw)⟩
        obtain hr | hr := mem_merge.mp hr
        · refine ⟨?_, fun heq => absurd heq.symm (hkind r hr z mem_cons_self)⟩
          obtain rfl | hr := mem_cons.mp hr
          · omega
          · have := (hx r hr).1
            omega
        · exact hz r hr

theorem pairwise_mergedRuns : (mergedRuns P n).Pairwise Run.Before := by
  have hone : ∀ kind, (runsOf kind (P kind) n).Pairwise Run.Before := by
    intro kind
    apply List.Pairwise.imp_of_mem _ pairwise_runsOf
    intro x z hx _ hlt
    have := (mem_runsOf.mp hx).2.1
    exact ⟨by omega, fun _ => hlt⟩
  apply pairwise_merge_before (hone true) (hone false)
  intro x hx z hz heq
  rw [(mem_runsOf.mp hx).1, (mem_runsOf.mp hz).1] at heq
  exact Bool.noConfusion heq

end Merged

section Groups

/-- Each run ends behind the one in front of it, unless that one reaches the last position. -/
def Advancing (n : ℕ) (l : List Run) : Prop :=
  l.IsChain fun x z => x.last + 1 < n → x.last < z.last

/-- All positions behind the first run are passed over, each because of one run that ends before. -/
def PassedOver (n : ℕ) : List Run → Prop
  | [] => False
  | r :: rest => r.first = 0 ∧ ∀ j < n, r.last + 1 + j < n → ∃ x ∈ rest[j]?, x.last < r.last + 1 + j

/-- Groups of positions from `i` on: the next run from `i` on, or `i` alone before the next run;
nothing when that run is over. -/
def groupsFrom (n i : ℕ) (l : List Run) : List (List ℕ) :=
  if i < n then
    match l with
    | [] => [i] :: groupsFrom n (i + 1) []
    | r :: rest =>
      if i < r.first then [i] :: groupsFrom n (i + 1) (r :: rest)
      else if r.last < i then groupsFrom n (i + 1) rest
      else List.range' i (r.last + 1 - i) :: groupsFrom n (r.last + 1) rest
  else []
termination_by n - i

variable {n i : ℕ} {l : List Run}

theorem groupsFrom_of_le (h : n ≤ i) : groupsFrom n i l = [] := by
  rw [groupsFrom.eq_def, if_neg (by omega)]

theorem flatten_groupsFrom (hl : ∀ r ∈ l, r.first ≤ r.last ∧ r.last < n)
    (hadvancing : Advancing n l) (hhead : ∀ r ∈ l.head?, i < n → i ≤ r.last) :
    (groupsFrom n i l).flatten = List.range' i (n - i) := by
  fun_induction groupsFrom n i l with
  | case1 i hi ih =>
    rw [flatten_cons, ih (by simp) .nil (by simp), show n - i = n - (i + 1) + 1 by omega,
      range'_succ]
    rfl
  | case2 i hi r rest hlt ih =>
    have hlast := (hl r mem_cons_self).1
    rw [flatten_cons, ih hl hadvancing fun x hx _ => by
      obtain rfl : r = x := by simpa using hx
      omega, show n - i = n - (i + 1) + 1 by omega, range'_succ]
    rfl
  | case3 i hi r rest _ hover ih => exact absurd (hhead r rfl hi) (by omega)
  | case4 i hi r rest hfirst hreach ih =>
    have hr := (hl r mem_cons_self).2
    have hrest := ih (fun x hx => hl x (mem_cons_of_mem r hx)) hadvancing.of_cons fun x hx hn => by
      cases rest with
      | nil => simp at hx
      | cons z rest =>
        obtain rfl : z = x := by simpa using hx
        exact (isChain_cons_cons.mp hadvancing).1 hn
    obtain ⟨k, hk⟩ : ∃ k, r.last + 1 = i + k := ⟨r.last + 1 - i, by omega⟩
    rw [flatten_cons, hrest, hk, Nat.add_sub_cancel_left, range'_append_1]
    congr 1
    omega
  | case5 i l hi => rw [Nat.sub_eq_zero_of_le (by omega)]; rfl

variable {g : List ℕ}

theorem mem_groupsFrom (hg : g ∈ groupsFrom n i l) :
    (∃ d, g = [d]) ∨ ∃ r ∈ l, ∀ d ∈ g, r.first ≤ d ∧ d ≤ r.last := by
  fun_induction groupsFrom n i l with
  | case1 i hi ih =>
    obtain rfl | hg := mem_cons.mp hg
    · exact Or.inl ⟨i, rfl⟩
    · exact ih hg
  | case2 i hi r rest hlt ih =>
    obtain rfl | hg := mem_cons.mp hg
    · exact Or.inl ⟨i, rfl⟩
    · exact ih hg
  | case3 i hi r rest _ hover ih =>
    exact (ih hg).imp_right fun ⟨x, hx, hbounds⟩ => ⟨x, mem_cons_of_mem r hx, hbounds⟩
  | case4 i hi r rest hfirst hreach ih =>
    obtain rfl | hg := mem_cons.mp hg
    · refine Or.inr ⟨r, mem_cons_self, fun d hd => ?_⟩
      rw [mem_range'_1] at hd
      omega
    · exact (ih hg).imp_right fun ⟨x, hx, hbounds⟩ => ⟨x, mem_cons_of_mem r hx, hbounds⟩
  | case5 i l hi => cases hg

theorem le_of_mem_groupsFrom {d : ℕ} (hd : d ∈ (groupsFrom n i l).flatten) : i ≤ d := by
  fun_induction groupsFrom n i l with
  | case1 i hi ih =>
    obtain hd | hd := mem_append.mp hd
    · exact (mem_singleton.mp hd).ge
    · exact Nat.le_of_succ_le (ih hd)
  | case2 i hi r rest hlt ih =>
    obtain hd | hd := mem_append.mp hd
    · exact (mem_singleton.mp hd).ge
    · exact Nat.le_of_succ_le (ih hd)
  | case3 i hi r rest _ hover ih => exact Nat.le_of_succ_le (ih hd)
  | case4 i hi r rest hfirst hreach ih =>
    obtain hd | hd := mem_append.mp hd
    · exact (mem_range'_1.mp hd).1
    · have := ih hd
      omega
  | case5 i l hi => cases hd

theorem advancing_of_reaches {r : Run} {rest : List Run}
    (hl : ∀ x ∈ r :: rest, x.first ≤ x.last ∧ x.last < n)
    (hbefore : (r :: rest).Pairwise Run.Before) (hend : r.last + 1 = n) : Advancing n rest := by
  obtain ⟨hr, hrest⟩ := pairwise_cons.mp hbefore
  have hkind : ∀ x ∈ rest, x.kind = !r.kind := by
    intro x hx
    have hlt := hl x (mem_cons_of_mem r hx)
    by_contra hne
    have hsame : r.kind = x.kind := by
      cases hk : r.kind <;> cases hk' : x.kind <;> simp_all
    have := (hr x hx).2 hsame
    omega
  apply List.Pairwise.isChain
  apply List.Pairwise.imp_of_mem _ hrest
  intro x z hx hz hxz _
  have hlt := hxz.2 ((hkind x hx).trans (hkind z hz).symm)
  have := (hl z (mem_cons_of_mem r hz)).1
  omega

/-- Otherwise the position behind some run is in no group. -/
theorem exists_notMem_groupsFrom (hl : ∀ r ∈ l, r.first ≤ r.last ∧ r.last < n)
    (hbefore : l.Pairwise Run.Before) (hi : i < n) (hhead : ∀ r ∈ l.head?, i ≤ r.last)
    (hadvancing : ¬Advancing n l) :
    ∃ r ∈ l, i ≤ r.last ∧ r.last + 1 < n ∧ r.last + 1 ∉ (groupsFrom n i l).flatten := by
  fun_induction groupsFrom n i l with
  | case1 i hi ih => exact absurd .nil hadvancing
  | case2 i hi r rest hlt ih =>
    have hlast := hl r mem_cons_self
    obtain ⟨x, hx, hle, hn, hnot⟩ := ih hl hbefore (by omega) (fun x hx => by
      obtain rfl : r = x := by simpa using hx
      omega) hadvancing
    refine ⟨x, hx, by omega, hn, fun hmem => ?_⟩
    obtain hmem | hmem := mem_append.mp hmem
    · have := mem_singleton.mp hmem
      omega
    · exact hnot hmem
  | case3 i hi r rest _ hover ih => exact absurd (hhead r rfl) (by omega)
  | case4 i hi r rest hfirst hreach ih =>
    cases rest with
    | nil => exact absurd (.singleton r) hadvancing
    | cons z rest =>
      have hrest : ∀ x ∈ z :: rest, x.first ≤ x.last ∧ x.last < n :=
        fun x hx => hl x (mem_cons_of_mem r hx)
      by_cases hend : r.last + 1 = n
      · have htail := advancing_of_reaches hl hbefore hend
        exact absurd (isChain_cons_cons.mpr ⟨fun hlt => by omega, htail⟩) hadvancing
      · have hr := (hl r mem_cons_self).2
        by_cases hstep : r.last < z.last
        · obtain ⟨x, hx, hle, hn, hnot⟩ := ih hrest (pairwise_cons.mp hbefore).2 (by omega)
            (fun x hx => by
              obtain rfl : z = x := by simpa using hx
              omega) fun htail =>
              hadvancing (isChain_cons_cons.mpr ⟨fun _ => hstep, htail⟩)
          refine ⟨x, mem_cons_of_mem r hx, by omega, hn, fun hmem => ?_⟩
          obtain hmem | hmem := mem_append.mp hmem
          · have := (mem_range'_1.mp hmem).2
            omega
          · exact hnot hmem
        · refine ⟨r, mem_cons_self, by omega, by omega, fun hmem => ?_⟩
          obtain hmem | hmem := mem_append.mp hmem
          · have := (mem_range'_1.mp hmem).2
            omega
          · -- the next run is over: the position behind this one is passed over
            have hz := (hrest z mem_cons_self).1
            rw [groupsFrom.eq_def, if_pos (by omega)] at hmem
            simp only at hmem
            rw [if_neg (by omega), if_pos (by omega)] at hmem
            have := le_of_mem_groupsFrom hmem
            omega
  | case5 i l hle => exact absurd hi hle

theorem groupsFrom_eq_nil_iff (hl : ∀ r ∈ l, r.first ≤ r.last) :
    groupsFrom n i l = [] ↔ ∀ j, i + j < n → ∃ r ∈ l[j]?, r.last < i + j := by
  fun_induction groupsFrom n i l with
  | case1 i hi ih =>
    refine ⟨fun h => (by cases h), fun h => ?_⟩
    obtain ⟨r, hr, -⟩ := h 0 hi
    simp at hr
  | case2 i hi r rest hlt ih =>
    refine ⟨fun h => (by cases h), fun h => ?_⟩
    obtain ⟨x, hx, hover⟩ := h 0 hi
    obtain rfl : r = x := by simpa using hx
    have := hl r mem_cons_self
    omega
  | case3 i hi r rest _ hover ih =>
    rw [ih fun x hx => hl x (mem_cons_of_mem r hx)]
    constructor
    · intro h j hj
      cases j with
      | zero => exact ⟨r, rfl, hover⟩
      | succ j =>
        obtain ⟨x, hx, hlt⟩ := h j (by omega)
        exact ⟨x, hx, by omega⟩
    · intro h j hj
      obtain ⟨x, hx, hlt⟩ := h (j + 1) (by omega)
      exact ⟨x, hx, by omega⟩
  | case4 i hi r rest hfirst hreach ih =>
    refine ⟨fun h => (by cases h), fun h => ?_⟩
    obtain ⟨x, hx, hover⟩ := h 0 hi
    obtain rfl : r = x := by simpa using hx
    omega
  | case5 i l hle => exact ⟨fun _ j hj => absurd hj (by omega), fun _ => rfl⟩

theorem ne_nil_of_mem_groupsFrom (hg : g ∈ groupsFrom n i l) : g ≠ [] := by
  fun_induction groupsFrom n i l with
  | case1 i hi ih =>
    obtain rfl | hg := mem_cons.mp hg
    · exact cons_ne_nil i []
    · exact ih hg
  | case2 i hi r rest hlt ih =>
    obtain rfl | hg := mem_cons.mp hg
    · exact cons_ne_nil i []
    · exact ih hg
  | case3 i hi r rest _ hover ih => exact ih hg
  | case4 i hi r rest hfirst hreach ih =>
    obtain rfl | hg := mem_cons.mp hg
    · simp only [ne_eq, range'_eq_nil_iff]
      omega
    · exact ih hg
  | case5 i l hi => cases hg

theorem length_groupsFrom_eq_one_iff (hn : 1 < n) (hl : ∀ r ∈ l, r.first < r.last ∧ r.last < n) :
    (groupsFrom n 0 l).length = 1 ↔ PassedOver n l := by
  have hone : ∀ (g : List ℕ) (gs : List (List ℕ)), (g :: gs).length = 1 ↔ gs = [] := by simp
  rw [groupsFrom.eq_def, if_pos (by omega)]
  cases l with
  | nil =>
    simp only [PassedOver, iff_false]
    rw [hone, groupsFrom_eq_nil_iff (by simp)]
    intro h
    obtain ⟨r, hr, -⟩ := h 0 hn
    simp at hr
  | cons r rest =>
    have hr := hl r mem_cons_self
    have hle : ∀ x ∈ r :: rest, x.first ≤ x.last := fun x hx => (hl x hx).1.le
    simp only [PassedOver]
    by_cases hfirst : 0 < r.first
    · rw [if_pos hfirst, hone, groupsFrom_eq_nil_iff hle]
      constructor
      · intro h
        obtain ⟨x, hx, hover⟩ := h 0 (by omega)
        obtain rfl : r = x := by simpa using hx
        omega
      · intro h
        omega
    · rw [if_neg hfirst, if_neg (by omega), hone,
        groupsFrom_eq_nil_iff fun x hx => hle x (mem_cons_of_mem r hx)]
      constructor
      · exact fun h => ⟨by omega, fun j _ hj => h j hj⟩
      · exact fun h j hj => h.2 j (by omega) hj

section Both

variable {P : Bool → ℕ → Prop}

theorem last_mem_of_mem_groupsFrom (hl : ∀ r ∈ l, IsRun (P r.kind) n r.first r.last)
    (hbefore : l.Pairwise Run.Before)
    (hremaining : ∀ r, IsRun (P r.kind) n r.first r.last → r.last + 1 = n → i < n → r ∈ l)
    (hg : g ∈ groupsFrom n i l) {d : ℕ} (hd : d ∈ g) (hdn : d + 1 < n)
    (hboth : ∀ j, d ≤ j → j < n → ∀ kind, P kind j) : n - 1 ∈ g := by
  obtain ⟨first, hle, hrun⟩ := exists_isRun hdn fun j hj hn => hboth j hj hn true
  have hin : i < n → ⟨true, first, n - 1⟩ ∈ l :=
    hremaining ⟨true, first, n - 1⟩ hrun (by simp; omega)
  fun_induction groupsFrom n i l with
  | case1 i hi ih => exact absurd (hin hi) not_mem_nil
  | case2 i hi r rest hlt ih =>
    obtain rfl | hg := mem_cons.mp hg
    · obtain rfl := mem_singleton.mp hd
      obtain rfl | hmem := mem_cons.mp (hin hi)
      · exact absurd hlt (by simp; omega)
      · have := ((pairwise_cons.mp hbefore).1 _ hmem).1
        simp only at this
        omega
    · exact ih hl hbefore (fun r hr hend hn => hremaining r hr hend hi) hg fun hn => hin hi
  | case3 i hi r rest _ hover ih =>
    have hrest : ∀ x, IsRun (P x.kind) n x.first x.last → x.last + 1 = n → i + 1 < n →
        x ∈ rest := by
      intro x hx hend hn
      obtain rfl | hmem := mem_cons.mp (hremaining x hx hend hi)
      · omega
      · exact hmem
    exact ih (fun x hx => hl x (mem_cons_of_mem r hx)) (pairwise_cons.mp hbefore).2 hrest
      hg (hrest ⟨true, first, n - 1⟩ hrun (by simp; omega))
  | case4 i hi r rest hfirst hreach ih =>
    have hr := hl r mem_cons_self
    obtain rfl | hg := mem_cons.mp hg
    · have hd := mem_range'_1.mp hd
      have hend : r.last + 1 = n :=
        hr.last_eq_of_holds fun j hj hn => hboth j (by omega) hn r.kind
      rw [mem_range'_1]
      omega
    · have hrest : ∀ x, IsRun (P x.kind) n x.first x.last → x.last + 1 = n → r.last + 1 < n →
          x ∈ rest := by
        intro x hx hend hn
        obtain rfl | hmem := mem_cons.mp (hremaining x hx hend hi)
        · omega
        · exact hmem
      exact ih (fun x hx => hl x (mem_cons_of_mem r hx)) (pairwise_cons.mp hbefore).2 hrest
        hg (hrest ⟨true, first, n - 1⟩ hrun (by simp; omega))
  | case5 i l hi => cases hg

end Both

end Groups

end Vpux.Data
