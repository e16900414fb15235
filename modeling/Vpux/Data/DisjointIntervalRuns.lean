import Vpux.Data.DisjointIntervalSet

/-! Runs of the calls that change a set of disjoint intervals. -/
namespace Vpux.Data

variable {V : Type}

/-- A call that changes the set; `insert` asserts that the interval is not empty. -/
inductive Call (V : Type) where
  | insert (ibeg iend : ℕ) (v : V) (hle : ibeg ≤ iend)
  | erase (ibeg iend : ℕ)

def Call.apply (tree : EndPointTree V) : Call V → EndPointTree V × Bool
  | insert ibeg iend v _ => tree.insert ibeg iend v
  | erase ibeg iend => tree.erase ibeg iend

def stateAfter (calls : List (Call V)) (n : ℕ) : EndPointTree V :=
  (calls.take n).foldl (fun tree call => (call.apply tree).1) []

/-- The intervals of a tree: a left end, and the right end that follows it. -/
def stored : EndPointTree V → List (Interval V)
  | l :: r :: tree => ⟨l.1.x, r.1.x, l.2⟩ :: stored tree
  | _ => []

/-- The ends alternate, each pair with one element, and no two intervals meet. -/
def Represents (tree : EndPointTree V) : Prop :=
  tree = endPoints (stored tree) ∧ Apart (stored tree)

/-- Touching at one address counts. -/
def Interval.Meets (i : Interval V) (ibeg iend : ℕ) : Prop := ibeg ≤ i.hi ∧ i.lo ≤ iend

instance (i : Interval V) (ibeg iend : ℕ) : Decidable (i.Meets ibeg iend) :=
  inferInstanceAs (Decidable (_ ∧ _))

def Call.Succeeds (l : List (Interval V)) : Call V → Prop
  | insert ibeg iend _ _ => ∀ i ∈ l, ¬ i.Meets ibeg iend
  | erase ibeg iend => ∃ i ∈ l, i.lo = ibeg ∧ i.hi = iend

/-- The ends named by `erase` are not ends of two different intervals. -/
def Call.EndsTogether (l : List (Interval V)) : Call V → Prop
  | insert _ _ _ _ => True
  | erase ibeg iend => ∀ i ∈ l, ∀ j ∈ l, i.lo = ibeg → j.hi = iend → i.hi = iend

/-- `for (auto itr = set.query(..); itr != set.end(); ++itr)`, with a bound on its rounds. -/
def queryLoop (tree : EndPointTree V) :
    ℕ → EndPointTree.IntervalIterator → Option (List (ℕ × ℕ × V))
  | 0, _ => none
  | fuel + 1, itr =>
    if itr.isEnd then some []
    else do
      let i ← tree.current itr
      let is ← queryLoop tree fuel (tree.next itr)
      return i :: is

/-- A query comes by the intervals that meet its range, in order. -/
def QueriesMeeting (tree : EndPointTree V) : Prop :=
  ∀ ibeg iend, ibeg ≤ iend → ∀ fuel > (stored tree).length,
    queryLoop tree fuel (tree.query ibeg iend) =
      some (((stored tree).filter fun i => i.Meets ibeg iend).map fun i => (i.lo, i.hi, i.val))

structure Keeps (calls : List (Call V)) : Prop where
  represents : ∀ n, Represents (stateAfter calls n)
  queries : ∀ n, QueriesMeeting (stateAfter calls n)
  succeeds : ∀ n, ∀ call : Call V, calls[n]? = some call →
    ((call.apply (stateAfter calls n)).2 = true ↔ call.Succeeds (stored (stateAfter calls n)))

section Represents

variable {tree : EndPointTree V} {l : List (Interval V)}

@[simp] theorem stored_endPoints (l : List (Interval V)) : stored (endPoints l) = l := by
  induction l with
  | nil => rfl
  | cons i l ih => rw [endPoints_cons, stored, ih]

theorem represents_endPoints (h : Apart l) : Represents (endPoints l) := by
  rw [Represents, stored_endPoints]
  exact ⟨rfl, h⟩

open EndPointTree

theorem value_isNone {key : EndPointType} :
    (tree.value key).isNone ↔ ∀ e ∈ tree, e.1 ≠ key := by
  simp [value, List.find?_eq_none]

variable {ibeg iend : ℕ}

theorem erase_succeeds : ((endPoints l).erase ibeg iend).2 = true ↔
    (∃ i ∈ l, i.lo = ibeg) ∧ ∃ j ∈ l, j.hi = iend := by
  have hleft : ((endPoints l).value ⟨ibeg, .LEFT_END⟩).isNone ↔ ¬ ∃ i ∈ l, i.lo = ibeg := by
    rw [value_isNone, forall_mem_endPoints]
    simp
  have hright : ((endPoints l).value ⟨iend, .RIGHT_END⟩).isNone ↔ ¬ ∃ j ∈ l, j.hi = iend := by
    rw [value_isNone, forall_mem_endPoints]
    simp
  rw [EndPointTree.erase, apply_ite Prod.snd]
  simp only [Bool.or_eq_true, hleft, hright, Bool.if_false_left, Bool.and_true]
  rw [Bool.not_eq_true', decide_eq_false_iff_not, not_or, not_not, not_not]

theorem erase_fails (h : (tree.erase ibeg iend).2 = false) : (tree.erase ibeg iend).1 = tree := by
  rw [EndPointTree.erase] at h ⊢
  split_ifs at h ⊢
  rfl

theorem insert_meeting {v : V} (h : Apart l) {i : Interval V} (hi : i ∈ l)
    (hmeets : i.Meets ibeg iend) : (endPoints l).insert ibeg iend v = (endPoints l, false) := by
  obtain ⟨pre, qs, post, rfl, hpre, hqs, hpost⟩ := h.split ibeg iend
  cases qs with
  | nil =>
    rcases List.mem_append.mp hi with hi | hi
    · exact absurd hmeets.1 (Nat.not_le.mpr (hpre i (by simpa using hi)))
    · exact absurd hmeets.2 (Nat.not_le.mpr (hpost i hi))
  | cons q qs =>
    obtain ⟨hq, hq'⟩ := hqs q List.mem_cons_self
    have hskip : (endPoints (pre ++ q :: qs ++ post)).lowerBound ⟨ibeg, .LEFT_END⟩ =
        (endPoints (q :: (qs ++ post))).lowerBound ⟨ibeg, .LEFT_END⟩ := by
      rw [List.append_assoc, endPoints_append, List.cons_append]
      exact lowerBound_left_append fun i hi => ⟨h.le i (by simp [hi]), hpre i hi⟩
    have hmet : isIntervalDisjoint ⟨ibeg, .LEFT_END⟩ ⟨iend, .RIGHT_END⟩
        ((endPoints (q :: (qs ++ post))).lowerBound ⟨ibeg, .LEFT_END⟩) = false := by
      have hnot : ¬ q.hi < ibeg := by omega
      by_cases hlt : q.lo < ibeg
      · simp [lowerBound, isIntervalDisjoint, EndPointType.isLeftEnd,
          hlt, hnot]
      · simp [lowerBound, isIntervalDisjoint, hlt, hq']
    rw [EndPointTree.insert, hskip, hmet]
    rfl

theorem insert_succeeds {v : V} (h : Apart l) (hle : ibeg ≤ iend) :
    (∃ l', (endPoints l).insert ibeg iend v = (endPoints l', true) ∧ Apart l' ∧
      ∀ i ∈ l, ¬ i.Meets ibeg iend) ∨
    ((endPoints l).insert ibeg iend v = (endPoints l, false) ∧ ∃ i ∈ l, i.Meets ibeg iend) := by
  by_cases hmeets : ∃ i ∈ l, i.Meets ibeg iend
  · obtain ⟨i, hi, him⟩ := hmeets
    exact .inr ⟨insert_meeting h hi him, i, hi, him⟩
  · obtain ⟨pre, qs, post, rfl, hpre, hqs, hpost⟩ := h.split ibeg iend
    cases qs with
    | cons q qs => exact absurd ⟨q, by simp, hqs q List.mem_cons_self⟩ hmeets
    | nil =>
      rw [List.append_nil] at h hmeets ⊢
      have hnew : Apart ([⟨ibeg, iend, v⟩] ++ post) :=
        (Apart.singleton hle).append h.right fun i hi j hj => by
          obtain rfl := List.mem_singleton.mp hi
          exact hpost j hj
      refine .inl ⟨_, insert_eq hle (fun i hi => ⟨h.left.le i hi, hpre i hi⟩) hpost,
        h.left.append hnew fun i hi j hj => ?_, fun i hi him => hmeets ⟨i, hi, him⟩⟩
      have := hpre i hi
      rcases List.mem_cons.mp hj with rfl | hj
      · exact this
      · have := hpost j hj
        omega

theorem Apart.hi_eq (h : Apart l) {i k : Interval V} (hi : i ∈ l) (hk : k ∈ l)
    (hlo : i.lo = k.lo) : i.hi = k.hi := by
  obtain ⟨pre, rest, rfl⟩ := List.append_of_mem hi
  obtain ⟨hpre, hile, hrest⟩ := h.mid
  rcases List.mem_append.mp hk with hk | hk
  · have := hpre k hk
    omega
  · rcases List.mem_cons.mp hk with rfl | hk
    · rfl
    · have := hrest k hk
      omega

theorem queryLoop_eq {post : List (Interval V)} (qs : List (Interval V)) :
    ∀ (pre : List (Interval V)) (fuel : ℕ), qs.length < fuel → Apart (pre ++ (qs ++ post)) →
      queryLoop (endPoints (pre ++ (qs ++ post))) fuel ⟨firstKey (qs ++ post), firstKey post⟩ =
        some (qs.map fun i => (i.lo, i.hi, i.val)) := by
  induction qs with
  | nil =>
    intro pre fuel hfuel _
    obtain ⟨fuel, rfl⟩ := Nat.exists_eq_add_one_of_ne_zero (Nat.ne_of_gt hfuel)
    simp [queryLoop, EndPointTree.IntervalIterator.isEnd]
  | cons q qs ih =>
    intro pre fuel hfuel h
    obtain ⟨fuel, rfl⟩ := Nat.exists_eq_add_one_of_ne_zero (Nat.ne_of_gt (Nat.zero_lt_of_lt hfuel))
    have hsplit : pre ++ (q :: qs ++ post) = pre ++ [q] ++ (qs ++ post) := by simp
    have hrest := ih (pre ++ [q]) fuel (by simpa using hfuel) (hsplit ▸ h)
    rw [List.cons_append] at h hsplit ⊢
    rw [queryLoop, h.isEnd_cons, h.current_eq, h.next_eq, hsplit, hrest]
    rfl

theorem queriesMeeting (h : Apart l) : QueriesMeeting (endPoints l) := by
  intro ibeg iend hle fuel hfuel
  rw [stored_endPoints] at hfuel ⊢
  obtain ⟨pre, qs, post, rfl, hpre, hqs, hpost⟩ := h.split ibeg iend
  have hfilter : (pre ++ qs ++ post).filter (fun i => i.Meets ibeg iend) = qs := by
    rw [List.filter_append, List.filter_append, List.filter_eq_nil_iff.mpr,
      List.filter_eq_self.mpr, List.filter_eq_nil_iff.mpr, List.nil_append, List.append_nil]
    · intro j hj hm
      exact absurd (of_decide_eq_true hm).2 (Nat.not_le.mpr (hpost j hj))
    · intro q hq
      exact decide_eq_true (hqs q hq)
    · intro i hi hm
      exact absurd (of_decide_eq_true hm).1 (Nat.not_le.mpr (hpre i hi))
  simp only [List.length_append] at hfuel
  rw [query_eq h hle hpre hqs hpost, hfilter]
  rw [List.append_assoc] at h ⊢
  exact queryLoop_eq qs pre fuel (by omega) h

theorem apply_represents {call : Call V} (h : Represents tree)
    (htogether : call.EndsTogether (stored tree)) : Represents (call.apply tree).1 ∧
      ((call.apply tree).2 = true ↔ call.Succeeds (stored tree)) := by
  obtain ⟨htree, hapart⟩ := h
  generalize stored tree = l at htree hapart htogether
  subst htree
  cases call with
  | insert ibeg iend v hle =>
    rcases @insert_succeeds _ l _ _ v hapart hle with ⟨l', heq, hl', hnone⟩ | ⟨heq, i, hi, him⟩
    · rw [Call.apply, heq]
      exact ⟨represents_endPoints hl', iff_of_true rfl hnone⟩
    · rw [Call.apply, heq]
      exact ⟨represents_endPoints hapart, iff_of_false Bool.false_ne_true fun h => h i hi him⟩
  | erase ibeg iend =>
    have hsucceeds : (Call.erase ibeg iend).Succeeds l ↔
        ((endPoints l).erase ibeg iend).2 = true := by
      rw [erase_succeeds]
      constructor
      · rintro ⟨i, hi, hlo, hhi⟩
        exact ⟨⟨i, hi, hlo⟩, i, hi, hhi⟩
      · rintro ⟨⟨i, hi, hlo⟩, j, hj, hhi⟩
        exact ⟨i, hi, hlo, htogether i hi j hj hlo hhi⟩
    refine ⟨?_, hsucceeds.symm⟩
    rw [Call.apply]
    cases hres : ((endPoints l).erase ibeg iend).2 with
    | false =>
      rw [erase_fails hres]
      exact represents_endPoints hapart
    | true =>
      obtain ⟨i, hi, rfl, rfl⟩ := hsucceeds.mpr hres
      obtain ⟨pre, rest, rfl⟩ := List.append_of_mem hi
      rw [hapart.erase_eq]
      exact represents_endPoints (hapart.sublist
        ((List.sublist_cons_self i rest).append_left pre))

end Represents

section Runs

variable {calls : List (Call V)} {n : ℕ}

theorem stateAfter_succ {call : Call V} (h : calls[n]? = some call) :
    stateAfter calls (n + 1) = (call.apply (stateAfter calls n)).1 := by
  rw [stateAfter, List.take_add_one, h, Option.toList_some, List.foldl_append]
  rfl

theorem stateAfter_of_none (h : calls[n]? = none) : stateAfter calls (n + 1) =
    stateAfter calls n := by
  rw [stateAfter, List.take_add_one, h, Option.toList_none, List.append_nil, stateAfter]

theorem represents_stateAfter (h : ∀ n, ∀ call : Call V, calls[n]? = some call →
    call.EndsTogether (stored (stateAfter calls n))) (n : ℕ) : Represents (stateAfter calls n) := by
  induction n with
  | zero => exact represents_endPoints (l := []) ⟨by simp, List.Pairwise.nil⟩
  | succ n ih =>
    cases hcall : calls[n]? with
    | none => rwa [stateAfter_of_none hcall]
    | some call =>
      rw [stateAfter_succ hcall]
      exact (apply_represents ih (h n call hcall)).1

/-- A run keeps the set exactly when no call to erase names the ends of two intervals. -/
theorem keeps_iff (calls : List (Call V)) : Keeps calls ↔
    ∀ n, ∀ call : Call V, calls[n]? = some call →
      call.EndsTogether (stored (stateAfter calls n)) := by
  constructor
  · intro h n call hcall
    cases call with
    | insert => trivial
    | erase ibeg iend =>
      obtain ⟨htree, hapart⟩ := h.represents n
      intro i hi j hj hlo hhi
      have hsucceeds := h.succeeds n _ hcall
      rw [Call.apply, htree, stored_endPoints, erase_succeeds] at hsucceeds
      obtain ⟨k, hk, hklo, hkhi⟩ := hsucceeds.mp ⟨⟨i, hi, hlo⟩, j, hj, hhi⟩
      rw [← hkhi]
      exact hapart.hi_eq hi hk (hlo.trans hklo.symm)
  · intro h
    refine ⟨represents_stateAfter h, fun n => ?_, fun n call hcall => ?_⟩
    · obtain ⟨htree, hapart⟩ := represents_stateAfter h n
      rw [htree]
      exact queriesMeeting hapart
    · exact (apply_represents (represents_stateAfter h n) (h n call hcall)).2

/-- The ends of two intervals are erased as if they were one. -/
theorem not_keeps_erase : ¬ Keeps [.insert 1 2 0 (by decide), .insert 5 6 0 (by decide),
    .erase 1 6] := by
  intro h
  obtain ⟨i, hi, hlo, hhi⟩ := (h.succeeds 2 (.erase 1 6) rfl).mp (by decide)
  have hmem : i = ⟨1, 2, 0⟩ ∨ i = ⟨5, 6, 0⟩ := by
    change i ∈ [⟨1, 2, 0⟩, ⟨5, 6, 0⟩] at hi
    simpa using hi
  rcases hmem with rfl | rfl
  · exact absurd hhi (by decide)
  · exact absurd hlo (by decide)

end Runs

end Vpux.Data
