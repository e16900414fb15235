import Mathlib.Data.List.Pairwise
import Mathlib.Data.List.Basic

/-! Disjoint intervals kept as a tree of end points. The tree is an ordered map, modelled
as a sorted list; a map iterator is the key it points at, `none` past the end. -/
namespace Vpux.Data

inductive OrientType
  | LEFT_END | RIGHT_END
  deriving DecidableEq

structure EndPointType where
  x : ℕ
  orient : OrientType
  deriving DecidableEq

namespace EndPointType

/-- `operator<`; the left end of an interval comes before a right end at the same place. -/
def lt (p o : EndPointType) : Bool :=
  if p.x ≠ o.x then p.x < o.x else p.orient = .LEFT_END ∧ o.orient = .RIGHT_END

def isLeftEnd (p : EndPointType) : Bool := p.orient = .LEFT_END

def isRightEnd (p : EndPointType) : Bool := p.orient = .RIGHT_END

variable (a b : ℕ)

@[simp] theorem lt_left_left : lt ⟨a, .LEFT_END⟩ ⟨b, .LEFT_END⟩ = decide (a < b) := by
  unfold lt
  split_ifs with h
  · rfl
  · simp_all

@[simp] theorem lt_right_right : lt ⟨a, .RIGHT_END⟩ ⟨b, .RIGHT_END⟩ = decide (a < b) := by
  unfold lt
  split_ifs with h
  · rfl
  · simp_all

@[simp] theorem lt_right_left : lt ⟨a, .RIGHT_END⟩ ⟨b, .LEFT_END⟩ = decide (a < b) := by
  unfold lt
  split_ifs with h
  · rfl
  · simp_all

@[simp] theorem lt_left_right : lt ⟨a, .LEFT_END⟩ ⟨b, .RIGHT_END⟩ = decide (a ≤ b) := by
  unfold lt
  split_ifs with h
  · simp only [decide_eq_decide]
    dsimp only at h
    omega
  · simp_all

end EndPointType

abbrev EndPointTree (V : Type) := List (EndPointType × V)

namespace EndPointTree

variable {V : Type}

/-- `std::map::lower_bound` -/
def lowerBound (tree : EndPointTree V) (key : EndPointType) : Option EndPointType :=
  (tree.find? fun e => !e.1.lt key).map Prod.fst

/-- `++` of an iterator at `key` -/
def after (tree : EndPointTree V) (key : EndPointType) : Option EndPointType :=
  (tree.find? fun e => key.lt e.1).map Prod.fst

/-- `--` of an iterator at `key` -/
def before (tree : EndPointTree V) (key : EndPointType) : Option EndPointType :=
  (tree.filter fun e => e.1.lt key).getLast?.map Prod.fst

def value (tree : EndPointTree V) (key : EndPointType) : Option V :=
  (tree.find? fun e => e.1 = key).map Prod.snd

/-- `std::map::insert`: a key that is present keeps its value. -/
def mapInsert : EndPointTree V → EndPointType → V → EndPointTree V
  | [], key, v => [(key, v)]
  | e :: tree, key, v =>
    if key.lt e.1 then (key, v) :: e :: tree
    else if e.1.lt key then e :: mapInsert tree key v
    else e :: tree

def mapErase (tree : EndPointTree V) (key : EndPointType) : EndPointTree V :=
  tree.filter fun e => e.1 ≠ key

def isIntervalDisjoint (lkey rkey : EndPointType) : Option EndPointType → Bool
  | none => true
  | some lkeyLb => lkeyLb.isLeftEnd && lkey.x < lkeyLb.x && rkey.x < lkeyLb.x

def insert (tree : EndPointTree V) (ibeg iend : ℕ) (v : V) : EndPointTree V × Bool :=
  let lkey : EndPointType := ⟨ibeg, .LEFT_END⟩
  let rkey : EndPointType := ⟨iend, .RIGHT_END⟩
  if !isIntervalDisjoint lkey rkey (tree.lowerBound lkey) then (tree, false)
  else ((tree.mapInsert lkey v).mapInsert rkey v, true)

def erase (tree : EndPointTree V) (ibeg iend : ℕ) : EndPointTree V × Bool :=
  let lkey : EndPointType := ⟨ibeg, .LEFT_END⟩
  let rkey : EndPointType := ⟨iend, .RIGHT_END⟩
  if (tree.value lkey).isNone || (tree.value rkey).isNone then (tree, false)
  else ((tree.mapErase lkey).mapErase rkey, true)

/-- The two iterators of an `IntervalIteratorType`. -/
structure IntervalIterator where
  itrBegin : Option EndPointType
  itrEnd : Option EndPointType

def query (tree : EndPointTree V) (ibeg iend : ℕ) : IntervalIterator :=
  let litr := tree.lowerBound ⟨ibeg, .LEFT_END⟩
  let ritr := tree.lowerBound ⟨iend, .RIGHT_END⟩
  { itrBegin := litr.bind fun l => if l.isRightEnd then tree.before l else some l
    itrEnd := ritr.bind fun r => if r.isRightEnd then tree.after r else some r }

/-- The comparison with `end()`, which looks at the iterator's own end only. -/
def IntervalIterator.isEnd (it : IntervalIterator) : Bool := it.itrBegin = it.itrEnd

def next (tree : EndPointTree V) (it : IntervalIterator) : IntervalIterator :=
  { it with itrBegin := (it.itrBegin.bind tree.after).bind tree.after }

/-- `intervalBegin()`, `intervalEnd()` and `getProdCons()`; `none` past the end. -/
def current (tree : EndPointTree V) (it : IntervalIterator) : Option (ℕ × ℕ × V) := do
  let left ← it.itrBegin
  let right ← tree.after left
  let v ← tree.value left
  return (left.x, right.x, v)

end EndPointTree

structure Interval (V : Type) where
  lo : ℕ
  hi : ℕ
  val : V

def endPoints {V : Type} (l : List (Interval V)) : EndPointTree V :=
  l.flatMap fun i => [(⟨i.lo, .LEFT_END⟩, i.val), (⟨i.hi, .RIGHT_END⟩, i.val)]

/-- Intervals in order, none of them empty and no two of them with a common address. -/
structure Apart {V : Type} (l : List (Interval V)) : Prop where
  le : ∀ i ∈ l, i.lo ≤ i.hi
  lt : l.Pairwise fun i j => i.hi < j.lo

/-- The iterator to the first interval of a list. -/
def firstKey {V : Type} (l : List (Interval V)) : Option EndPointType :=
  l.head?.map fun i => ⟨i.lo, .LEFT_END⟩

section Intervals

variable {V : Type} {pre qs post rest : List (Interval V)} {q : Interval V}

@[simp] theorem endPoints_nil : endPoints ([] : List (Interval V)) = [] := rfl

@[simp] theorem endPoints_cons (i : Interval V) (l : List (Interval V)) :
    endPoints (i :: l) =
      (⟨i.lo, .LEFT_END⟩, i.val) :: (⟨i.hi, .RIGHT_END⟩, i.val) :: endPoints l := rfl

open List

@[simp] theorem endPoints_append (l l' : List (Interval V)) :
    endPoints (l ++ l') = endPoints l ++ endPoints l' := flatMap_append

theorem length_endPoints (l : List (Interval V)) : (endPoints l).length = 2 * l.length := by
  induction l with
  | nil => rfl
  | cons i l ih =>
    rw [endPoints_cons, length_cons, length_cons, length_cons, ih]
    omega

theorem forall_mem_endPoints {p : EndPointType × V → Prop} :
    (∀ e ∈ endPoints pre, p e) ↔
      ∀ i ∈ pre, p (⟨i.lo, .LEFT_END⟩, i.val) ∧ p (⟨i.hi, .RIGHT_END⟩, i.val) := by
  constructor
  · intro h i hi
    exact ⟨h _ (mem_flatMap.mpr ⟨i, hi, by simp⟩), h _ (mem_flatMap.mpr ⟨i, hi, by simp⟩)⟩
  · intro h e he
    obtain ⟨i, hi, hmem⟩ := mem_flatMap.mp he
    rcases mem_pair.mp hmem with rfl | rfl
    · exact (h i hi).1
    · exact (h i hi).2

theorem find?_endPoints_append {p : EndPointType × V → Bool} {t : EndPointTree V}
    (h : ∀ i ∈ pre, p (⟨i.lo, .LEFT_END⟩, i.val) = false ∧ p (⟨i.hi, .RIGHT_END⟩, i.val) = false) :
    (endPoints pre ++ t).find? p = t.find? p := by
  have hnone : (endPoints pre).find? p = none := by
    rw [find?_eq_none, forall_mem_endPoints]
    simpa using h
  rw [find?_append, hnone, Option.none_or]

open EndPointType

theorem lowerBound_left_append {lo : ℕ} {t : EndPointTree V}
    (h : ∀ i ∈ pre, i.lo ≤ i.hi ∧ i.hi < lo) :
    (endPoints pre ++ t).lowerBound ⟨lo, .LEFT_END⟩ = t.lowerBound ⟨lo, .LEFT_END⟩ := by
  rw [EndPointTree.lowerBound, find?_endPoints_append]
  · rfl
  · intro i hi
    have := h i hi
    simp only [lt_left_left, lt_right_left, Bool.not_eq_false',
      decide_eq_true_eq]
    omega

namespace Apart

theorem mid (h : Apart (pre ++ q :: rest)) :
    (∀ i ∈ pre, i.lo ≤ i.hi ∧ i.hi < q.lo) ∧ q.lo ≤ q.hi ∧ ∀ j ∈ rest, q.hi < j.lo ∧ j.lo ≤
      j.hi := by
  obtain ⟨-, hq, hcross⟩ := pairwise_append.mp h.lt
  refine ⟨fun i hi => ⟨h.le i (by simp [hi]), hcross i hi q mem_cons_self⟩, h.le q (by simp),
    fun j hj => ⟨(pairwise_cons.mp hq).1 j hj, h.le j (by simp [hj])⟩⟩

theorem sublist {l l' : List (Interval V)} (h : Apart l') (hs : l.Sublist l') : Apart l :=
  ⟨fun i hi => h.le i (hs.subset hi), h.lt.sublist hs⟩

theorem left (h : Apart (pre ++ post)) : Apart pre := h.sublist (sublist_append_left _ _)

theorem right (h : Apart (pre ++ post)) : Apart post := h.sublist (sublist_append_right _ _)

theorem append {l l' : List (Interval V)} (h : Apart l) (h' : Apart l')
    (hcross : ∀ i ∈ l, ∀ j ∈ l', i.hi < j.lo) : Apart (l ++ l') where
  le i hi := (mem_append.mp hi).elim (h.le i) (h'.le i)
  lt := pairwise_append.mpr ⟨h.lt, h'.lt, hcross⟩

theorem singleton {i : Interval V} (h : i.lo ≤ i.hi) : Apart [i] :=
  ⟨by simpa using h, pairwise_singleton _ _⟩

section

variable (h : Apart (pre ++ q :: rest))
include h

theorem after_left :
    (endPoints (pre ++ q :: rest)).after ⟨q.lo, .LEFT_END⟩ = some ⟨q.hi, .RIGHT_END⟩ := by
  obtain ⟨hpre, hq, -⟩ := h.mid
  rw [EndPointTree.after, endPoints_append, find?_endPoints_append]
  · simp [hq]
  · intro i hi
    have := hpre i hi
    simp only [lt_left_left, lt_left_right, decide_eq_false_iff_not]
    omega

theorem after_right : (endPoints (pre ++ q :: rest)).after ⟨q.hi, .RIGHT_END⟩ = firstKey rest := by
  obtain ⟨hpre, hq, hrest⟩ := h.mid
  rw [EndPointTree.after, endPoints_append, find?_endPoints_append]
  · have hback : ¬ q.hi < q.lo := by omega
    cases rest with
    | nil => simp [hback, firstKey]
    | cons r rest => simp [hback, firstKey, (hrest r mem_cons_self).1]
  · intro i hi
    have := hpre i hi
    simp only [lt_right_left, lt_right_right, decide_eq_false_iff_not]
    omega

theorem before_right :
    (endPoints (pre ++ q :: rest)).before ⟨q.hi, .RIGHT_END⟩ = some ⟨q.lo, .LEFT_END⟩ := by
  obtain ⟨hpre, hq, hrest⟩ := h.mid
  have hbelow : (endPoints pre).filter (fun e => e.1.lt ⟨q.hi, .RIGHT_END⟩) = endPoints pre := by
    rw [filter_eq_self, forall_mem_endPoints]
    intro i hi
    have := hpre i hi
    simp only [lt_left_right, lt_right_right, decide_eq_true_eq]
    omega
  have habove : (endPoints rest).filter (fun e => e.1.lt ⟨q.hi, .RIGHT_END⟩) = [] := by
    rw [filter_eq_nil_iff, forall_mem_endPoints]
    intro j hj
    have := hrest j hj
    simp only [lt_left_right, lt_right_right, decide_eq_true_eq]
    omega
  rw [EndPointTree.before, endPoints_append, filter_append, hbelow, endPoints_cons]
  simp [hq, habove]

theorem value_left : (endPoints (pre ++ q :: rest)).value ⟨q.lo, .LEFT_END⟩ = some q.val := by
  obtain ⟨hpre, -, -⟩ := h.mid
  rw [EndPointTree.value, endPoints_append, find?_endPoints_append]
  · simp
  · intro i hi
    have := hpre i hi
    simp only [mk.injEq, and_true, decide_eq_false_iff_not, reduceCtorEq, and_false,
      not_false_eq_true]
    omega

theorem value_right : (endPoints (pre ++ q :: rest)).value ⟨q.hi, .RIGHT_END⟩ = some q.val := by
  obtain ⟨hpre, hq, -⟩ := h.mid
  rw [EndPointTree.value, endPoints_append, find?_endPoints_append]
  · simp
  · intro i hi
    have := hpre i hi
    simp only [mk.injEq, and_true, decide_eq_false_iff_not, reduceCtorEq, and_false,
      not_false_eq_true, true_and]
    omega

theorem current_eq (e : Option EndPointType) :
    (endPoints (pre ++ q :: rest)).current ⟨firstKey (q :: rest), e⟩ =
      some (q.lo, q.hi, q.val) := by
  simp only [EndPointTree.current, firstKey, head?_cons, Option.map_some, Option.bind_eq_bind,
    Option.bind_some, h.after_left, h.value_left]
  rfl

theorem next_eq (e : Option EndPointType) :
    (endPoints (pre ++ q :: rest)).next ⟨firstKey (q :: rest), e⟩ = ⟨firstKey rest, e⟩ := by
  simp only [EndPointTree.next, firstKey, head?_cons, Option.map_some, Option.bind_some,
    h.after_left, h.after_right]

end

theorem isEnd_cons (h : Apart (pre ++ q :: (qs ++ post))) :
    EndPointTree.IntervalIterator.isEnd ⟨firstKey (q :: (qs ++ post)), firstKey post⟩ = false := by
  unfold EndPointTree.IntervalIterator.isEnd
  rw [decide_eq_false_iff_not]
  cases post with
  | nil => simp [firstKey]
  | cons j post =>
    obtain ⟨-, hq, hafter⟩ := h.mid
    have hj := (hafter j (by simp)).1
    simp only [firstKey, head?_cons, Option.map_some, Option.some.injEq,
      mk.injEq, and_true]
    omega

theorem erase_eq (h : Apart (pre ++ q :: rest)) :
    ((endPoints (pre ++ q :: rest)).erase q.lo q.hi).1 = endPoints (pre ++ rest) := by
  obtain ⟨hpre, hq, hrest⟩ := h.mid
  have hkeep : ∀ (l : List (Interval V)) (p : EndPointType), (∀ i ∈ l, (⟨i.lo, .LEFT_END⟩ ≠ p) ∧
      (⟨i.hi, .RIGHT_END⟩ : EndPointType) ≠ p) → (endPoints l).mapErase p = endPoints l := by
    intro l p hl
    rw [EndPointTree.mapErase, filter_eq_self, forall_mem_endPoints]
    simpa using hl
  have hpl := hkeep pre ⟨q.lo, .LEFT_END⟩ fun i hi => by
    have := hpre i hi
    simp only [ne_eq, mk.injEq, and_true, reduceCtorEq, and_false, not_false_eq_true]
    omega
  have hpr := hkeep pre ⟨q.hi, .RIGHT_END⟩ fun i hi => by
    have := hpre i hi
    simp only [ne_eq, mk.injEq, and_true, reduceCtorEq, and_false, not_false_eq_true,
      true_and]
    omega
  have hrl := hkeep rest ⟨q.lo, .LEFT_END⟩ fun i hi => by
    have := hrest i hi
    simp only [ne_eq, mk.injEq, and_true, reduceCtorEq, and_false, not_false_eq_true]
    omega
  have hrr := hkeep rest ⟨q.hi, .RIGHT_END⟩ fun i hi => by
    have := hrest i hi
    simp only [ne_eq, mk.injEq, and_true, reduceCtorEq, and_false, not_false_eq_true,
      true_and]
    omega
  unfold EndPointTree.erase
  dsimp only
  rw [h.value_left, h.value_right]
  simp only [Option.isNone_some, Bool.or_self, Bool.false_eq_true, if_false]
  unfold EndPointTree.mapErase at hpl hpr hrl hrr ⊢
  rw [endPoints_append, endPoints_append, endPoints_cons, filter_append, filter_cons,
    filter_cons, hpl, hrl, if_neg (by simp), if_pos (by simp), filter_append, hpr,
    filter_cons, if_neg (by simp), hrr]

end Apart

theorem mapInsert_append {t t' : EndPointTree V} {key : EndPointType} {v : V}
    (h : ∀ e ∈ t, e.1.lt key = true ∧ key.lt e.1 = false) :
    (t ++ t').mapInsert key v = t ++ t'.mapInsert key v := by
  induction t with
  | nil => rfl
  | cons e t ih =>
    obtain ⟨h1, h2⟩ := h e mem_cons_self
    rw [cons_append, EndPointTree.mapInsert, h1, h2]
    simp only [Bool.false_eq_true, if_false, if_true]
    rw [ih fun e he => h e (mem_cons_of_mem _ he), cons_append]

theorem mapInsert_endPoints {lo : ℕ} {key : EndPointType} {v : V} (hkey : key.x < lo)
    (hpost : ∀ j ∈ post, lo ≤ j.lo) :
    (endPoints post).mapInsert key v = (key, v) :: endPoints post := by
  cases post with
  | nil => rfl
  | cons j post =>
    have hj := hpost j mem_cons_self
    have hlt : key.lt ⟨j.lo, .LEFT_END⟩ = true := by
      obtain ⟨x, o⟩ := key
      dsimp only at hkey
      cases o <;> simp <;> omega
    rw [endPoints_cons, EndPointTree.mapInsert, if_pos hlt]

theorem insert_eq {lo hi : ℕ} {v : V} (hle : lo ≤ hi) (hpre : ∀ i ∈ pre, i.lo ≤ i.hi ∧ i.hi < lo)
    (hpost : ∀ j ∈ post, hi < j.lo) :
    (endPoints (pre ++ post)).insert lo hi v = (endPoints (pre ++ ⟨lo, hi, v⟩ :: post), true) := by
  have hdisjoint : EndPointTree.isIntervalDisjoint ⟨lo, .LEFT_END⟩ ⟨hi, .RIGHT_END⟩
      ((endPoints (pre ++ post)).lowerBound ⟨lo, .LEFT_END⟩) = true := by
    rw [endPoints_append, lowerBound_left_append hpre]
    cases post with
    | nil => rfl
    | cons j post =>
      have hj := hpost j mem_cons_self
      have hnot : ¬ j.lo < lo := by omega
      have hlt : lo < j.lo := by omega
      simp [EndPointTree.lowerBound, EndPointTree.isIntervalDisjoint, isLeftEnd, hnot,
        hj, hlt]
  have hl : ∀ e ∈ endPoints pre, e.1.lt ⟨lo, .LEFT_END⟩ = true ∧
      lt ⟨lo, .LEFT_END⟩ e.1 = false := by
    rw [forall_mem_endPoints]
    intro i hi'
    have := hpre i hi'
    simp only [lt_left_left, lt_right_left, lt_left_right,
      decide_eq_true_eq, decide_eq_false_iff_not]
    omega
  have hr : ∀ e ∈ endPoints pre, e.1.lt ⟨hi, .RIGHT_END⟩ = true ∧
      lt ⟨hi, .RIGHT_END⟩ e.1 = false := by
    rw [forall_mem_endPoints]
    intro i hi'
    have := hpre i hi'
    simp only [lt_right_right, lt_right_left, lt_left_right,
      decide_eq_true_eq, decide_eq_false_iff_not]
    omega
  unfold EndPointTree.insert
  dsimp only
  rw [hdisjoint]
  simp only [Bool.not_true, Bool.false_eq_true, if_false]
  rw [endPoints_append, mapInsert_append hl, @mapInsert_endPoints _ _ (lo + 1) _ _
    (Nat.lt_succ_self lo)
    (fun j hj => by have := hpost j hj; omega), mapInsert_append hr, EndPointTree.mapInsert]
  have hback : ¬ hi < lo := by omega
  simp only [lt_right_left, lt_left_right, hback, hle, decide_false,
    decide_true, Bool.false_eq_true, if_false, if_true]
  rw [@mapInsert_endPoints _ _ (hi + 1) _ _ (Nat.lt_succ_self hi)
    (fun j hj => by have := hpost j hj; omega), endPoints_append, endPoints_cons]

theorem query_eq {lo hi : ℕ} (h : Apart (pre ++ qs ++ post)) (hle : lo ≤ hi)
    (hpre : ∀ i ∈ pre, i.hi < lo) (hqs : ∀ q ∈ qs, lo ≤ q.hi ∧ q.lo ≤ hi)
    (hpost : ∀ j ∈ post, hi < j.lo) :
    (endPoints (pre ++ qs ++ post)).query lo hi = ⟨firstKey (qs ++ post), firstKey post⟩ := by
  have hprele : ∀ i ∈ pre, i.lo ≤ i.hi := fun i hi => h.le i (by simp [hi])
  have hpostle : ∀ j ∈ post, j.lo ≤ j.hi := fun j hj => h.le j (by simp [hj])
  have hbegin : ((endPoints (pre ++ (qs ++ post))).lowerBound ⟨lo, .LEFT_END⟩).bind
      (fun l => if l.isRightEnd then (endPoints (pre ++ (qs ++ post))).before l else some l) =
        firstKey (qs ++ post) := by
    have hskip : (endPoints (pre ++ (qs ++ post))).lowerBound ⟨lo, .LEFT_END⟩ =
        (endPoints (qs ++ post)).lowerBound ⟨lo, .LEFT_END⟩ := by
      rw [endPoints_append, lowerBound_left_append fun i hi' => ⟨hprele i hi', hpre i hi'⟩]
    rw [hskip]
    cases hl : qs ++ post with
    | nil => rfl
    | cons q rest =>
      have hq : lo ≤ q.hi := by
        have hmem : q ∈ qs ++ post := hl ▸ mem_cons_self
        rcases mem_append.mp hmem with hm | hm
        · exact (hqs q hm).1
        · have := hpost q hm
          have := hpostle q hm
          omega
      have hnot : ¬ q.hi < lo := by omega
      have hap : Apart (pre ++ q :: rest) := by rw [← hl, ← append_assoc]; exact h
      by_cases hlt : q.lo < lo
      · have hlb : (endPoints (q :: rest)).lowerBound ⟨lo, .LEFT_END⟩ =
          some ⟨q.hi, .RIGHT_END⟩ := by
          simp [EndPointTree.lowerBound, hlt, hnot]
        rw [hlb, Option.bind_some, isRightEnd, if_pos (by simp), hap.before_right]
        rfl
      · have hlb : (endPoints (q :: rest)).lowerBound ⟨lo, .LEFT_END⟩ = some ⟨q.lo, .LEFT_END⟩ := by
          simp [EndPointTree.lowerBound, hlt]
        rw [hlb, Option.bind_some, isRightEnd, if_neg (by simp)]
        rfl
  have hend : ((endPoints (pre ++ qs ++ post)).lowerBound ⟨hi, .RIGHT_END⟩).bind
      (fun r => if r.isRightEnd then (endPoints (pre ++ qs ++ post)).after r else some r) =
        firstKey post := by
    have hskip : ∀ (l : List (Interval V)) (t : EndPointTree V),
        (∀ i ∈ l, i.lo ≤ i.hi ∧ i.hi < hi) → (endPoints l ++ t).lowerBound ⟨hi, .RIGHT_END⟩ =
          t.lowerBound ⟨hi, .RIGHT_END⟩ := by
      intro l t hl
      rw [EndPointTree.lowerBound, find?_endPoints_append]
      · rfl
      · intro i hi'
        have := hl i hi'
        simp only [lt_left_right, lt_right_right, Bool.not_eq_false',
          decide_eq_true_eq]
        omega
    have hbeyond : ((endPoints post).lowerBound ⟨hi, .RIGHT_END⟩) = firstKey post := by
      cases post with
      | nil => rfl
      | cons j post =>
        have hj : ¬ j.lo ≤ hi := by
          have := hpost j mem_cons_self
          omega
        simp [EndPointTree.lowerBound, firstKey, hj]
    have hfirst : (firstKey post).bind (fun r => if r.isRightEnd then
        (endPoints (pre ++ qs ++ post)).after r else some r) = firstKey post := by
      cases post with
      | nil => rfl
      | cons j post => simp [firstKey, isRightEnd]
    have hprelt : ∀ i ∈ pre, i.lo ≤ i.hi ∧ i.hi < hi := by
      intro i hi'
      have := hpre i hi'
      exact ⟨hprele i hi', by omega⟩
    rcases eq_nil_or_concat qs with rfl | ⟨qs', q, rfl⟩
    · rw [append_nil] at h hfirst ⊢
      rw [endPoints_append, hskip pre _ hprelt, hbeyond, ← endPoints_append]
      exact hfirst
    · rw [concat_eq_append] at h hqs hfirst ⊢
      have hap : Apart ((pre ++ qs') ++ q :: post) := by
        simpa only [append_assoc, singleton_append] using h
      have hassoc : pre ++ (qs' ++ [q]) ++ post = (pre ++ qs') ++ q :: post := by simp
      obtain ⟨hbefore, hq, hafter⟩ := hap.mid
      have hqhi := (hqs q (by simp)).2
      have hlast : ∀ i ∈ pre ++ qs', i.lo ≤ i.hi ∧ i.hi < hi := by
        intro i hi'
        have := hbefore i hi'
        exact ⟨this.1, by omega⟩
      rw [hassoc] at hfirst ⊢
      by_cases hlt : q.hi < hi
      · have hall : ∀ i ∈ (pre ++ qs') ++ [q], i.lo ≤ i.hi ∧ i.hi < hi := by
          intro i hi'
          rcases mem_append.mp hi' with hm | hm
          · exact hlast i hm
          · obtain rfl := mem_singleton.mp hm
            exact ⟨hq, hlt⟩
        have hsplit : endPoints ((pre ++ qs') ++ q :: post) =
            endPoints ((pre ++ qs') ++ [q]) ++ endPoints post := by simp
        have hlb : (endPoints ((pre ++ qs') ++ q :: post)).lowerBound ⟨hi, .RIGHT_END⟩ =
            firstKey post := by
          rw [hsplit, hskip _ _ hall, hbeyond]
        rw [hlb]
        exact hfirst
      · have hlb : (endPoints ((pre ++ qs') ++ q :: post)).lowerBound ⟨hi, .RIGHT_END⟩ =
            some ⟨q.hi, .RIGHT_END⟩ := by
          rw [endPoints_append, hskip _ _ hlast]
          simp [EndPointTree.lowerBound, hqhi, hlt]
        rw [hlb, Option.bind_some, isRightEnd, if_pos (by simp), hap.after_right]
  unfold EndPointTree.query
  dsimp only
  rw [hend, append_assoc, hbegin]

/-- The element that an address belongs to. -/
def valueAt (l : List (Interval V)) (x : ℕ) : Option V :=
  (l.find? fun i => i.lo ≤ x ∧ x ≤ i.hi).map Interval.val

variable {l l' : List (Interval V)} {x : ℕ}

@[simp] theorem valueAt_nil : valueAt ([] : List (Interval V)) x = none := rfl

theorem valueAt_cons (i : Interval V) :
    valueAt (i :: l) x = if i.lo ≤ x ∧ x ≤ i.hi then some i.val else valueAt l x := by
  unfold valueAt
  split_ifs with h
  · simp [h]
  · simp [h]

theorem valueAt_append : valueAt (l ++ l') x = (valueAt l x).or (valueAt l' x) := by
  unfold valueAt
  rw [find?_append, Option.map_or]

theorem valueAt_eq_none (h : ∀ i ∈ l, x < i.lo ∨ i.hi < x) : valueAt l x = none := by
  unfold valueAt
  rw [Option.map_eq_none_iff, find?_eq_none]
  intro i hi hx
  have := h i hi
  rw [decide_eq_true_eq] at hx
  omega

theorem exists_of_valueAt {v : V} (h : valueAt l x = some v) :
    ∃ i ∈ l, (i.lo ≤ x ∧ x ≤ i.hi) ∧ i.val = v := by
  obtain ⟨i, hi, hv⟩ := Option.map_eq_some_iff.mp h
  have hmem := find?_some hi
  exact ⟨i, mem_of_find?_eq_some hi, by simpa using hmem, hv⟩

theorem Apart.valueAt_of_mem (h : Apart l) {i : Interval V} (hi : i ∈ l) (hlo : i.lo ≤ x)
    (hhi : x ≤ i.hi) : valueAt l x = some i.val := by
  obtain ⟨pre, rest, rfl⟩ := append_of_mem hi
  have hpre : valueAt pre x = none := valueAt_eq_none fun j hj => by
    have := (h.mid.1 j hj).2
    omega
  rw [valueAt_append, hpre, Option.none_or, valueAt_cons, if_pos ⟨hlo, hhi⟩]

theorem Apart.split (h : Apart l) (lo hi : ℕ) :
    ∃ pre qs post, l = pre ++ qs ++ post ∧ (∀ i ∈ pre, i.hi < lo) ∧
      (∀ q ∈ qs, lo ≤ q.hi ∧ q.lo ≤ hi) ∧ ∀ j ∈ post, hi < j.lo := by
  induction l with
  | nil => exact ⟨[], [], [], rfl, by simp, by simp, by simp⟩
  | cons i l ih =>
    have happ : ∀ j ∈ l, i.hi < j.lo := (pairwise_cons.mp h.lt).1
    have hi' := h.le i mem_cons_self
    obtain ⟨pre, qs, post, rfl, hpre, hqs, hpost⟩ := ih (h.sublist (sublist_cons_self i l))
    by_cases hbelow : i.hi < lo
    · exact ⟨i :: pre, qs, post, rfl, by simpa [hbelow] using hpre, hqs, hpost⟩
    · have hnone : pre = [] := by
        cases pre with
        | nil => rfl
        | cons j pre =>
          have := happ j (by simp)
          have := hpre j mem_cons_self
          have := h.le j (by simp)
          omega
      subst hnone
      by_cases habove : hi < i.lo
      · have hnoqs : qs = [] := by
          cases qs with
          | nil => rfl
          | cons j qs =>
            have := happ j (by simp)
            have := (hqs j mem_cons_self).2
            omega
        subst hnoqs
        exact ⟨[], [], i :: post, rfl, by simp, by simp, by simpa [habove] using hpost⟩
      · have hmeet : lo ≤ i.hi ∧ i.lo ≤ hi := by omega
        exact ⟨[], i :: qs, post, rfl, by simp, by simpa [hmeet] using hqs, hpost⟩

end Intervals
end Vpux.Data
