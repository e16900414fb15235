import Vpux.Memory.ControlEdgeGenerator
import Mathlib.Data.List.Induction

/-! Every hazard on an address is ordered by the control edges. The tree is read as a list of
disjoint intervals, and those as the owner of each address. -/
namespace Vpux.Memory
open Relation Data ControlEdgeGenerator

theorem intervalXor_eq {abeg aend bbeg bend : ℕ} (ha : aend < 2 ^ 64) (hb : bend < 2 ^ 64)
    (hle : abeg ≤ aend) (hle' : bbeg ≤ bend) (hab : abeg ≤ bend) (hba : bbeg ≤ aend) :
    intervalXor abeg aend bbeg bend =
      (if abeg ≠ bbeg then [(min abeg bbeg, max abeg bbeg - 1)] else []) ++
        (if aend ≠ bend then [(min aend bend + 1, max aend bend)] else []) := by
  have hmeet : intersects abeg aend bbeg bend = true := by
    unfold intersects
    rw [decide_eq_true_eq]
    omega
  unfold intervalXor
  rw [hmeet]
  simp only [Bool.not_true, Bool.false_eq_true, if_false]
  congr 1
  · by_cases hzero : max abeg bbeg = 0
    · rw [if_neg (by omega), if_neg (by omega)]
    · have hpred : (max abeg bbeg + (2 ^ 64 - 1)) % 2 ^ 64 = max abeg bbeg - 1 := by omega
      rw [hpred]
      by_cases hne : abeg = bbeg
      · rw [if_neg (by omega), if_neg (by omega)]
      · rw [if_pos (by omega), if_pos hne]
  · by_cases hlast : min aend bend + 1 = 2 ^ 64
    · rw [if_neg (by omega), if_neg (by omega)]
    · have hsucc : (min aend bend + 1) % 2 ^ 64 = min aend bend + 1 := by omega
      rw [hsucc]
      by_cases hne : aend = bend
      · rw [if_neg (by omega), if_neg (by omega)]
      · rw [if_pos (by omega), if_pos hne]

theorem isSubset_iff {abeg aend bbeg bend : ℕ} (ha : abeg ≤ aend) :
    isSubset abeg aend bbeg bend = decide (bbeg ≤ abeg ∧ aend ≤ bend) := by
  unfold isSubset
  split_ifs with h
  · symm
    rw [decide_eq_false_iff_not]
    omega
  · rw [← Bool.decide_and, decide_eq_decide]
    omega

open List

section Pieces

variable (curr : ScheduledOpOneResource) (rb re : ℕ) (q : Interval ProdConsType)

/-- The part below the overlap, of the old interval or of the current one. -/
def pieceBelow : List (Interval ProdConsType) :=
  if q.lo < rb then [⟨q.lo, rb - 1, q.val⟩]
  else if rb < q.lo then [⟨rb, q.lo - 1, ⟨curr, []⟩⟩]
  else []

/-- The part of the old interval above the overlap. -/
def pieceAbove : List (Interval ProdConsType) :=
  if re < q.hi then [⟨re + 1, q.hi, q.val⟩] else []

/-- What becomes of an interval that meets the remainder of the current one. -/
def pieces : List (Interval ProdConsType) :=
  pieceBelow curr rb q ++ ⟨max rb q.lo, min re q.hi, newProdCons curr q.val⟩ :: pieceAbove re q

/-- The remainder behind the interval. -/
def remainder : ℕ × ℕ := if q.hi < re then (q.hi + 1, re) else (2 ^ 64 - 1, 0)

variable {curr rb re q}

section

variable (hq : q.lo ≤ q.hi) (hrb : rb ≤ q.hi) (hre : q.lo ≤ re) (hle : rb ≤ re)
include hq hrb hre hle

theorem mem_pieces : ∀ i ∈ pieces curr rb re q, min rb q.lo ≤ i.lo ∧ i.lo ≤ i.hi ∧ i.hi ≤ q.hi := by
  intro i hi
  unfold pieces pieceBelow pieceAbove at hi
  rcases mem_append.mp hi with hi | hi
  · split_ifs at hi with h1 h2
    · obtain rfl := mem_singleton.mp hi
      dsimp only
      omega
    · obtain rfl := mem_singleton.mp hi
      dsimp only
      omega
    · cases hi
  · rcases mem_cons.mp hi with rfl | hi
    · dsimp only
      omega
    · split_ifs at hi with h1
      · obtain rfl := mem_singleton.mp hi
        dsimp only
        omega
      · cases hi

theorem apart_pieces :
    Apart (pieces curr rb re q) where
  le i hi := (mem_pieces hq hrb hre hle i hi).2.1
  lt := by
    unfold pieces pieceBelow pieceAbove
    split_ifs <;> simp <;> omega

theorem valueAt_pieces (x : ℕ) : valueAt (pieces curr rb re q) x =
      if q.lo ≤ x ∧ x ≤ q.hi then
        some (if rb ≤ x ∧ x ≤ re then newProdCons curr q.val else q.val)
      else if rb ≤ x ∧ x < q.lo then some ⟨curr, []⟩ else none := by
  have hap := @apart_pieces curr rb re q hq hrb hre hle
  have hmid : (⟨max rb q.lo, min re q.hi, newProdCons curr q.val⟩ : Interval ProdConsType) ∈
      pieces curr rb re q := by simp [pieces]
  split_ifs with hin hcur hbelow
  · exact hap.valueAt_of_mem hmid (by dsimp only; omega) (by dsimp only; omega)
  · by_cases hlow : x < rb
    · have hmem : (⟨q.lo, rb - 1, q.val⟩ : Interval ProdConsType) ∈ pieces curr rb re q := by
        rw [pieces, pieceBelow, if_pos (by omega)]
        simp
      have hval := hap.valueAt_of_mem (x := x) hmem (by dsimp only; omega) (by dsimp only; omega)
      exact hval
    · have hmem : (⟨re + 1, q.hi, q.val⟩ : Interval ProdConsType) ∈ pieces curr rb re q := by
        rw [pieces, pieceAbove, if_pos (by omega)]
        simp
      have hval := hap.valueAt_of_mem (x := x) hmem (by dsimp only; omega) (by dsimp only; omega)
      exact hval
  · have hmem : (⟨rb, q.lo - 1, ⟨curr, []⟩⟩ : Interval ProdConsType) ∈ pieces curr rb re q := by
      rw [pieces, pieceBelow, if_neg (by omega), if_pos (by omega)]
      simp
    exact hap.valueAt_of_mem hmem (by dsimp only; omega) (by dsimp only; omega)
  · apply valueAt_eq_none
    intro i hi
    have hbounds := mem_pieces hq hrb hre hle i hi
    by_cases hlow : q.lo ≤ rb
    · omega
    · omega

end

section Insert

variable {done rest : List (Interval ProdConsType)} {above : List (ℕ × ℕ)}

theorem insertBelow_eq (hq : q.lo ≤ q.hi) (hrb : rb ≤ q.hi) (hre : q.lo ≤ re) (hle : rb ≤ re)
    (hdone : ∀ i ∈ done, i.lo ≤ i.hi ∧ i.hi < rb ∧ i.hi < q.lo) (hrest : ∀ j ∈ rest, q.hi < j.lo)
    (habove : ∀ r ∈ above, max rb q.lo ≤ r.2) :
    insertBelow curr rb re q.val (endPoints (done ++ rest)) (max rb q.lo)
        ((if q.lo ≠ rb then [(min q.lo rb, max q.lo rb - 1)] else []) ++ above) =
      (endPoints (done ++ (pieceBelow curr rb q ++ rest)), above) := by
  unfold pieceBelow
  rcases Nat.lt_trichotomy q.lo rb with hlt | heq | hgt
  · rw [if_pos (by omega), if_pos hlt, singleton_append, insertBelow, if_pos (by dsimp only; omega)]
    have hold : resultVal curr rb re q.val (min q.lo rb, max q.lo rb - 1) = q.val := by
      rw [resultVal, isSubset_iff (by dsimp only; omega), if_neg (by simp; omega)]
    have hlo : min q.lo rb = q.lo := by omega
    have hhi : max q.lo rb = rb := by omega
    rw [hold, hlo, hhi, insert_eq (by omega) (fun i hi => by have := hdone i hi; omega)
      fun j hj => by have := hrest j hj; omega]
    rfl
  · rw [if_neg (by omega), if_neg (by omega), if_neg (by omega)]
    cases above with
    | nil => rfl
    | cons r rs =>
      have hr := habove r mem_cons_self
      rw [nil_append, insertBelow, if_neg (by omega)]
      rfl
  · rw [if_pos (by omega), if_neg (by omega), if_pos hgt, singleton_append, insertBelow,
      if_pos (by dsimp only; omega)]
    have hnew : resultVal curr rb re q.val (min q.lo rb, max q.lo rb - 1) = ⟨curr, []⟩ := by
      rw [resultVal, isSubset_iff (by dsimp only; omega), if_pos (by simp; omega)]
    have hlo : min q.lo rb = rb := by omega
    have hhi : max q.lo rb = q.lo := by omega
    rw [hnew, hlo, hhi, insert_eq (by omega) (fun i hi => by have := hdone i hi; omega)
      fun j hj => by have := hrest j hj; omega]
    rfl

theorem insertAbove_eq (hrb : rb ≤ q.hi)
    (hdone : ∀ i ∈ done, i.lo ≤ i.hi ∧ i.hi ≤ min re q.hi) (hrest : ∀ j ∈ rest, q.hi < j.lo) :
    insertAbove curr rb re q.val (endPoints (done ++ rest))
        (if q.hi ≠ re then [(min q.hi re + 1, max q.hi re)] else []) =
      (endPoints (done ++ (pieceAbove re q ++ rest)), remainder re q) := by
  unfold pieceAbove remainder
  rcases Nat.lt_trichotomy q.hi re with hlt | heq | hgt
  · rw [if_pos (by omega), if_neg (by omega), if_pos hlt, insertAbove,
      isSubset_iff (by dsimp only; omega), if_neg (by simp; omega)]
    have hlo : min q.hi re = q.hi := by omega
    have hhi : max q.hi re = re := by omega
    rw [hlo, hhi]
    rfl
  · rw [if_neg (by omega), if_neg (by omega), if_neg (by omega)]
    rfl
  · rw [if_pos (by omega), if_pos hgt, if_neg (by omega), insertAbove,
      isSubset_iff (by dsimp only; omega), if_pos (by simp; omega)]
    have hold : resultVal curr rb re q.val (min q.hi re + 1, max q.hi re) = q.val := by
      rw [resultVal, isSubset_iff (by dsimp only; omega), if_neg (by simp; omega)]
    have hlo : min q.hi re = re := by omega
    have hhi : max q.hi re = q.hi := by omega
    rw [hold, hlo, hhi, insert_eq (by omega) (fun i hi => by have := hdone i hi; omega)
      fun j hj => by have := hrest j hj; omega]
    rfl

/-- The pieces below, at and above the overlap, as the code inserts them one after another. -/
theorem insertPieces_eq (hq : q.lo ≤ q.hi) (hrb : rb ≤ q.hi) (hre : q.lo ≤ re) (hle : rb ≤ re)
    (hre64 : re < 2 ^ 64) (hq64 : q.hi < 2 ^ 64)
    (hdone : ∀ i ∈ done, i.lo ≤ i.hi ∧ i.hi < rb ∧ i.hi < q.lo) (hrest : ∀ j ∈ rest, q.hi < j.lo) :
    insertPieces curr rb re q.val (endPoints (done ++ rest)) (max rb q.lo) (min re q.hi)
        (intervalXor q.lo q.hi rb re) =
      (endPoints (done ++ (pieces curr rb re q ++ rest)), remainder re q) := by
  have hunfold : ∀ (t : IntervalTree) (results : List (ℕ × ℕ)),
      insertPieces curr rb re q.val t (max rb q.lo) (min re q.hi) results =
        insertAbove curr rb re q.val
          ((insertBelow curr rb re q.val t (max rb q.lo) results).1.insert
          (max rb q.lo) (min re q.hi) (newProdCons curr q.val)).1
          (insertBelow curr rb re q.val t (max rb q.lo) results).2 := by
    intro t results
    cases results with
    | nil => rfl
    | cons r rs => rfl
  have hhigh : ∀ r ∈ (if q.hi ≠ re then [(min q.hi re + 1, max q.hi re)] else []),
      max rb q.lo ≤ r.2 := by
    intro r hr
    split_ifs at hr
    · obtain rfl := mem_singleton.mp hr
      omega
    · cases hr
  have hlow : ∀ i ∈ pieceBelow curr rb q, i.lo ≤ i.hi ∧ i.hi < max rb q.lo := by
    intro i hi
    unfold pieceBelow at hi
    split_ifs at hi
    · obtain rfl := mem_singleton.mp hi
      dsimp only
      omega
    · obtain rfl := mem_singleton.mp hi
      dsimp only
      omega
    · cases hi
  have hbefore : ∀ i ∈ done ++ pieceBelow curr rb q, i.lo ≤ i.hi ∧ i.hi < max rb q.lo := by
    intro i hi
    rcases mem_append.mp hi with hi | hi
    · have := hdone i hi
      omega
    · exact hlow i hi
  rw [intervalXor_eq hq64 hre64 hq hle hre hrb, hunfold,
    insertBelow_eq hq hrb hre hle hdone hrest hhigh]
  rw [← append_assoc, insert_eq (by omega) hbefore fun j hj => by have := hrest j hj; omega,
    append_cons, insertAbove_eq hrb _ hrest]
  · simp [pieces]
  · intro i hi
    rcases mem_append.mp hi with hi | hi
    · have := hbefore i hi
      omega
    · obtain rfl := mem_singleton.mp hi
      dsimp only
      omega

theorem processOverlap_eq {s : Overlap} {e : Option EndPointType} (h : Apart (done ++ q :: rest))
    (htree : s.intervalTree = endPoints (done ++ q :: rest))
    (hitr : s.qitr = ⟨firstKey (q :: rest), e⟩) (hrb : s.currRemBeg ≤ q.hi)
    (hre : q.lo ≤ s.currRemEnd) (hle : s.currRemBeg ≤ s.currRemEnd) (hre64 : s.currRemEnd < 2 ^ 64)
    (hq64 : q.hi < 2 ^ 64) (hdone : ∀ i ∈ done, i.hi < s.currRemBeg) :
    processOverlap curr s q.lo q.hi q.val =
      { intervalTree :=
          endPoints (done ++ (pieces curr s.currRemBeg s.currRemEnd q ++ rest))
        qitr := ⟨firstKey rest, e⟩
        currRemBeg := (remainder s.currRemEnd q).1
        currRemEnd := (remainder s.currRemEnd q).2
        edges := s.edges ++ outputDependency curr q.val } := by
  obtain ⟨hbefore, hq, hafter⟩ := h.mid
  have hpieces := @insertPieces_eq curr _ _ q done rest hq hrb hre hle hre64 hq64
    (fun i hi => ⟨(hbefore i hi).1, hdone i hi, (hbefore i hi).2⟩) fun j hj => (hafter j hj).1
  unfold processOverlap
  dsimp only
  rw [htree, hitr, h.next_eq, h.erase_eq, hpieces]

end Insert
end Pieces

/-- The owners of an address of the current interval, after the intervals `q` that it overlaps. -/
def ownersAfter (curr : ScheduledOpOneResource) : Option ProdConsType → ProdConsType
  | none => ⟨curr, []⟩
  | some p => newProdCons curr p

open EndPointTree.IntervalIterator

theorem overlapLoop_spec (curr : ScheduledOpOneResource) {post : List (Interval ProdConsType)}
    (hpost : ∀ j ∈ post, curr.addressEnd < j.lo) (qs : List (Interval ProdConsType)) :
    ∀ (done : List (Interval ProdConsType)) (rb : ℕ) (edges : List ControlEdge) (fuel : ℕ),
      qs.length < fuel → Apart (done ++ (qs ++ post)) →
      (∀ i ∈ qs, i.hi < 2 ^ 64) → (∀ i ∈ done, i.hi < rb) → rb ≤ curr.addressEnd →
      (∀ q ∈ qs, rb ≤ q.hi ∧ q.lo ≤ curr.addressEnd) →
      ∃ s l, overlapLoop curr fuel ⟨endPoints (done ++ (qs ++ post)),
          ⟨firstKey (qs ++ post), firstKey post⟩, rb, curr.addressEnd, edges⟩ = some s ∧
        insertTrailing curr s = endPoints (done ++ (l ++ post)) ∧ Apart (done ++ (l ++ post)) ∧
        (∀ i ∈ l, i.hi < 2 ^ 64) ∧
        s.edges = edges ++ qs.flatMap (fun q => outputDependency curr q.val) ∧
        ∀ x, valueAt l x = if rb ≤ x ∧ x ≤ curr.addressEnd then
          some (ownersAfter curr (valueAt qs x)) else valueAt qs x := by
  induction qs with
  | nil =>
    intro done rb edges fuel hfuel hap _ hdone hrb _
    obtain ⟨fuel, rfl⟩ : ∃ f, fuel = f + 1 := ⟨fuel - 1, by omega⟩
    have hnew : Apart ([(⟨rb, curr.addressEnd, ⟨curr, []⟩⟩ : Interval ProdConsType)] ++ post) :=
      (Apart.singleton hrb).append hap.right fun i hi j hj => by
        obtain rfl := mem_singleton.mp hi
        exact hpost j hj
    refine ⟨_, [⟨rb, curr.addressEnd, ⟨curr, []⟩⟩], if_pos ?_, ?_, hap.left.append hnew ?_, ?_, ?_,
      ?_⟩
    · simp [isEnd]
    · unfold insertTrailing
      dsimp only
      rw [if_pos hrb, nil_append, insert_eq hrb
        (fun i hi => ⟨hap.left.le i hi, hdone i hi⟩) hpost]
      rfl
    · intro i hi j hj
      have := hdone i hi
      rcases mem_append.mp hj with hj | hj
      · obtain rfl := mem_singleton.mp hj
        exact this
      · have := hpost j hj
        omega
    · simpa using curr.addressEnd_lt
    · simp
    · intro x
      simp [valueAt_cons, ownersAfter]
  | cons q qs ih =>
    intro done rb edges fuel hfuel hap hbound hdone hrb hqs
    obtain ⟨fuel, rfl⟩ : ∃ f, fuel = f + 1 := ⟨fuel - 1, by omega⟩
    rw [length_cons] at hfuel
    rw [cons_append] at hap
    obtain ⟨hbefore, hq, hafter⟩ := hap.mid
    obtain ⟨hrbq, hqre⟩ := hqs q mem_cons_self
    have hq64 := hbound q mem_cons_self
    have hre64 := curr.addressEnd_lt
    have hnotEnd := hap.isEnd_cons
    have hmeet : intersects q.lo q.hi rb curr.addressEnd = true := by
      unfold intersects
      rw [decide_eq_true_eq]
      omega
    have hround := @processOverlap_eq curr q done _ ⟨endPoints (done ++ q :: (qs ++ post)),
      ⟨firstKey (q :: (qs ++ post)), firstKey post⟩, rb, curr.addressEnd, edges⟩ _ hap rfl rfl
      hrbq hqre hrb hre64 hq64 hdone
    have hloop : overlapLoop curr (fuel + 1) ⟨endPoints (done ++ (q :: qs ++ post)),
        ⟨firstKey (q :: qs ++ post), firstKey post⟩, rb, curr.addressEnd, edges⟩ =
        overlapLoop curr fuel
          { intervalTree := endPoints (done ++ (pieces curr rb curr.addressEnd q ++ (qs ++ post)))
            qitr := ⟨firstKey (qs ++ post), firstKey post⟩
            currRemBeg := (remainder curr.addressEnd q).1
            currRemEnd := (remainder curr.addressEnd q).2
            edges := edges ++ outputDependency curr q.val } := by
      rw [← hround]
      simp only [cons_append, overlapLoop, hnotEnd, hap.current_eq, hmeet,
        Option.bind_eq_bind, Option.bind_some]
      rfl
    rw [hloop]
    have hpieces := @mem_pieces curr _ _ q hq hrbq hqre hrb
    have hapPieces := @apart_pieces curr _ _ q hq hrbq hqre hrb
    have hvalue := @valueAt_pieces curr _ _ q hq hrbq hqre hrb
    have hqsAbove : ∀ x, x ≤ q.hi → valueAt qs x = none := fun x hx =>
        valueAt_eq_none fun j hj => by
      have := (hafter j (mem_append_left _ hj)).1
      omega
    have hbeforePieces : ∀ i ∈ done, ∀ j ∈ pieces curr rb curr.addressEnd q, i.hi < j.lo := by
      intro i hi j hj
      have := hdone i hi
      have := (hbefore i hi).2
      have := hpieces j hj
      omega
    have hafterPieces : ∀ i ∈ pieces curr rb curr.addressEnd q, ∀ j ∈ qs ++ post, i.hi < j.lo := by
      intro i hi j hj
      have := hpieces i hi
      have := (hafter j hj).1
      omega
    have hapDone : Apart (done ++ pieces curr rb curr.addressEnd q) :=
      hap.left.append hapPieces hbeforePieces
    have hbound' : ∀ i ∈ pieces curr rb curr.addressEnd q, i.hi < 2 ^ 64 := by
      intro i hi
      have := hpieces i hi
      omega
    by_cases hmore : q.hi < curr.addressEnd
    · -- the rest of the current interval goes on behind `q`
      have hrem : remainder curr.addressEnd q = (q.hi + 1, curr.addressEnd) := if_pos hmore
      have hap' : Apart (done ++ pieces curr rb curr.addressEnd q ++ (qs ++ post)) :=
        hapDone.append (hap.right.sublist (sublist_cons_self q _)) fun i hi j hj =>
          (mem_append.mp hi).elim
            (fun hi => by
              have := (hbefore i hi).2
              have := (hafter j hj).1
              omega)
            fun hi => hafterPieces i hi j hj
      have hdone' : ∀ i ∈ done ++ pieces curr rb curr.addressEnd q, i.hi < q.hi + 1 := by
        intro i hi
        rcases mem_append.mp hi with hi | hi
        · have := (hbefore i hi).2
          omega
        · have := hpieces i hi
          omega
      obtain ⟨s, l, hs, htree, hapl, hl64, hedges, hval⟩ := ih _ (q.hi + 1)
        (edges ++ outputDependency curr q.val) fuel (by omega) hap'
        (fun i hi => hbound i (mem_cons_of_mem q hi)) hdone' hmore
        fun j hj => ⟨by
          have := hafter j (mem_append_left _ hj)
          omega, (hqs j (mem_cons_of_mem q hj)).2⟩
      rw [append_assoc] at hs htree hapl
      refine ⟨s, pieces curr rb curr.addressEnd q ++ l, by rw [hrem]; exact hs, ?_, ?_, ?_, ?_, ?_⟩
      · rw [htree, append_assoc]
      · rw [append_assoc]
        exact hapl
      · intro i hi
        exact (mem_append.mp hi).elim (hbound' i) (hl64 i)
      · rw [hedges, flatMap_cons, append_assoc]
      · intro x
        rw [valueAt_append, hvalue x, hval x, valueAt_cons]
        by_cases hin : q.lo ≤ x ∧ x ≤ q.hi
        · split_ifs <;> rfl
        · rw [if_neg hin, if_neg hin]
          by_cases hfresh : rb ≤ x ∧ x < q.lo
          · have hcurr : rb ≤ x ∧ x ≤ curr.addressEnd := by omega
            rw [if_pos hfresh, hqsAbove x (by omega), if_pos hcurr]
            rfl
          · rw [if_neg hfresh, Option.none_or]
            have hsame : (q.hi + 1 ≤ x ∧ x ≤ curr.addressEnd) ↔ (rb ≤ x ∧ x ≤ curr.addressEnd) := by
              omega
            simp only [hsame]
    · -- `q` reaches the end of the current interval, and is the last one that does
      have hrem : remainder curr.addressEnd q = (2 ^ 64 - 1, 0) := if_neg hmore
      have hnil : qs = [] := by
        cases qs with
        | nil => rfl
        | cons j qs =>
          have := (hafter j (by simp)).1
          have := (hqs j (by simp)).2
          omega
      subst hnil
      obtain ⟨fuel, rfl⟩ : ∃ f, fuel = f + 1 := ⟨fuel - 1, by omega⟩
      refine ⟨_, pieces curr rb curr.addressEnd q, if_pos ?_, ?_, ?_, hbound', ?_, ?_⟩
      · simp [isEnd]
      · rw [hrem]
        exact if_neg (by dsimp only; omega)
      · rw [← append_assoc]
        exact hapDone.append (hap.right.sublist (sublist_cons_self q _)) fun i hi j hj =>
          (mem_append.mp hi).elim
            (fun hi => by
              have := (hbefore i hi).2
              have := (hafter j hj).1
              omega)
            fun hi => hafterPieces i hi j hj
      · simp
      · intro x
        rw [hvalue x, valueAt_cons, valueAt_nil]
        by_cases hin : q.lo ≤ x ∧ x ≤ q.hi
        · split_ifs <;> rfl
        · rw [if_neg hin, if_neg hin]
          have hsame : (rb ≤ x ∧ x < q.lo) ↔ (rb ≤ x ∧ x ≤ curr.addressEnd) := by omega
          simp only [hsame]
          rfl

variable {l : List (Interval ProdConsType)}

open ProdConsType

section Merge

variable {curr : ScheduledOpOneResource}

theorem ProdConsType.owner_eq {q : ProdConsType} (h : q.eq ⟨curr, []⟩ = true) :
    q.owner = (⟨curr, []⟩ : ProdConsType).owner := by
  obtain ⟨prod, cons⟩ := q
  unfold eq ScheduledOpOneResource.eq at h
  simp only [Bool.and_eq_true, decide_eq_true_eq, length_nil, length_eq_zero_iff] at h
  obtain ⟨⟨hop, -, -⟩, rfl, -⟩ := h
  unfold owner
  simp [hop]

theorem abuttingLoop_spec {post : List (Interval ProdConsType)} (qs : List (Interval ProdConsType))
    {done : List (Interval ProdConsType)} :
    ∀ (p fuel : ℕ), qs.length < fuel → Apart (done ++ (qs ++ post)) → p < 2 ^ 64 →
      (∀ i ∈ qs, i.hi < 2 ^ 64) → (∀ j ∈ qs ++ post, p < j.lo) →
      ∃ gone kept p', qs = gone ++ kept ∧
        abuttingLoop curr fuel (endPoints (done ++ (qs ++ post)))
          ⟨firstKey (qs ++ post), firstKey post⟩ p = some (endPoints (done ++ (kept ++ post)), p') ∧
        (p ≤ p' ∧ p' < 2 ^ 64) ∧ (∀ i ∈ gone, i.val.eq ⟨curr, []⟩ = true ∧ i.hi ≤ p') ∧
        (∀ x, p < x → x ≤ p' → ∃ i ∈ gone, i.lo ≤ x ∧ x ≤ i.hi) ∧ ∀ j ∈ kept ++ post, p' <
          j.lo := by
  induction qs with
  | nil =>
    intro p fuel hfuel hap hp _ habove
    obtain ⟨fuel, rfl⟩ : ∃ f, fuel = f + 1 := ⟨fuel - 1, by omega⟩
    refine ⟨[], [], p, rfl, if_pos ?_, ⟨le_rfl, hp⟩, by simp, ?_, habove⟩
    · simp [isEnd]
    · intro x hx hx'
      omega
  | cons q qs ih =>
    intro p fuel hfuel hap hp hbound habove
    obtain ⟨fuel, rfl⟩ : ∃ f, fuel = f + 1 := ⟨fuel - 1, by omega⟩
    rw [length_cons] at hfuel
    rw [cons_append] at hap
    obtain ⟨hbefore, hq, hafter⟩ := hap.mid
    have hpq := habove q (by simp)
    have hq64 := hbound q mem_cons_self
    have hnotEnd := hap.isEnd_cons
    by_cases hjoin : q.val.eq ⟨curr, []⟩ = true ∧ (p + 1) % 2 ^ 64 = q.lo
    · have hap' : Apart (done ++ (qs ++ post)) :=
        hap.sublist (sublist_cons_self q _ |>.append_left done)
      obtain ⟨gone, kept, p', rfl, hloop, hp', hgone, hcover, hkept⟩ := ih q.hi fuel (by omega) hap'
        hq64 (fun i hi => hbound i (mem_cons_of_mem q hi)) fun j hj => (hafter j hj).1
      refine ⟨q :: gone, kept, p', rfl, ?_, ⟨by omega, hp'.2⟩, ?_, ?_, hkept⟩
      · simp only [cons_append, abuttingLoop, hnotEnd, hap.current_eq, hap.next_eq,
          hap.erase_eq, if_pos hjoin, Option.bind_eq_bind, Option.bind_some]
        exact hloop
      · intro i hi
        rcases mem_cons.mp hi with rfl | hi
        · exact ⟨hjoin.1, hp'.1⟩
        · exact hgone i hi
      · intro x hx hx'
        by_cases hxq : x ≤ q.hi
        · exact ⟨q, mem_cons_self, by omega, hxq⟩
        · obtain ⟨i, hi, hxi⟩ := hcover x (by omega) hx'
          exact ⟨i, mem_cons_of_mem q hi, hxi⟩
    · refine ⟨[], q :: qs, p, rfl, ?_, ⟨le_rfl, hp⟩, by simp, ?_, habove⟩
      · simp only [cons_append, abuttingLoop, hnotEnd, hap.current_eq, if_neg hjoin,
          Option.bind_eq_bind, Option.bind_some]
        rfl
      · intro x hx hx'
        omega

theorem mergeAbuttingIntervals_spec (hprod : curr.isIntervalProducer = true)
    (hle : curr.addressStart ≤ curr.addressEnd) (hap : Apart l) (hbound : ∀ i ∈ l, i.hi < 2 ^ 64) :
    ∃ l', mergeAbuttingIntervals curr (endPoints l) = some (endPoints l') ∧ Apart l' ∧
      (∀ i ∈ l', i.hi < 2 ^ 64) ∧
      ∀ x, (valueAt l' x).map owner = (valueAt l x).map owner := by
  obtain ⟨pre, qs, post, rfl, hpre, hqs, hpost⟩ := hap.split curr.addressStart curr.addressEnd
  have hquery := query_eq hap hle hpre hqs hpost
  cases qs with
  | nil =>
    refine ⟨pre ++ [] ++ post, ?_, hap, hbound, fun x => rfl⟩
    simp only [mergeAbuttingIntervals, hprod, hquery, Bool.not_true, Bool.false_eq_true, if_false,
      nil_append, isEnd, decide_true, if_true]
  | cons q qs =>
    have hassoc : pre ++ q :: qs ++ post = pre ++ q :: (qs ++ post) := by simp
    rw [hassoc] at hap hbound hquery
    rw [hassoc]
    obtain ⟨hbefore, hq, hafter⟩ := hap.mid
    have hnotEnd := hap.isEnd_cons
    rw [cons_append] at hquery
    by_cases hcurr : q.val.eq ⟨curr, []⟩ = true
    · have hsplit : ∀ rest, pre ++ q :: rest = pre ++ [q] ++ rest := by simp
      have hfuel : qs.length < (endPoints (pre ++ q :: (qs ++ post))).length + 1 := by
        rw [length_endPoints]
        simp only [length_append, length_cons]
        omega
      obtain ⟨gone, kept, p', rfl, hloop, hp', hgone, hcover, hkept⟩ := @abuttingLoop_spec
        curr post qs (pre ++ [q]) q.hi _ hfuel (by rw [← hsplit]; exact hap)
        (hbound q (by simp)) (fun i hi => hbound i (by simp [hi])) fun j hj => (hafter j hj).1
      rw [← hsplit, ← hsplit] at hloop
      have hsub : (kept ++ post).Sublist (gone ++ kept ++ post) := by
        rw [append_assoc]
        exact sublist_append_right gone _
      have hapKept : Apart (pre ++ q :: (kept ++ post)) :=
        hap.sublist ((hsub.cons_cons q).append_left pre)
      have hcurrent : (endPoints (pre ++ q :: (kept ++ post))).current
          ⟨firstKey (q :: (gone ++ kept ++ post)), firstKey post⟩ = some (q.lo, q.hi, q.val) :=
        hapKept.current_eq (firstKey post)
      have hrun : mergeAbuttingIntervals curr (endPoints (pre ++ q :: (gone ++ kept ++ post))) =
          if p' > q.hi then some
            (((endPoints (pre ++ q :: (kept ++ post))).erase q.lo q.hi).1.insert
            q.lo p' ⟨curr, []⟩).1
          else some (endPoints (pre ++ q :: (kept ++ post))) := by
        simp only [mergeAbuttingIntervals, hprod, hquery, hnotEnd, hap.current_eq, hcurr,
          hap.next_eq,
          hloop, hcurrent, Bool.not_true, Bool.false_eq_true, if_false, Option.bind_eq_bind,
          Option.bind_some]
      rw [hrun]
      by_cases hgrew : p' > q.hi
      · rw [if_pos hgrew, hapKept.erase_eq, insert_eq (by omega) hbefore hkept]
        have hnew : Apart ([(⟨q.lo, p', ⟨curr, []⟩⟩ : Interval ProdConsType)] ++ (kept ++ post)) :=
          (Apart.singleton (by dsimp only; omega)).append (hapKept.right.sublist
            (sublist_cons_self q _)) fun i hi j hj => by
              obtain rfl := mem_singleton.mp hi
              exact hkept j hj
        have hbelow : ∀ i ∈ pre, ∀ j ∈ [(⟨q.lo, p', ⟨curr, []⟩⟩ : Interval ProdConsType)] ++
            (kept ++ post), i.hi < j.lo := by
          intro i hi j hj
          have := hbefore i hi
          rcases mem_append.mp hj with hj | hj
          · obtain rfl := mem_singleton.mp hj
            exact this.2
          · have := hkept j hj
            omega
        refine ⟨_, rfl, hap.left.append hnew hbelow, ?_, ?_⟩
        · intro i hi
          rcases mem_append.mp hi with hi | hi
          · exact hbound i (mem_append_left _ hi)
          · rcases mem_cons.mp hi with rfl | hi
            · exact hp'.2
            · exact hbound i (mem_append_right _ (mem_cons_of_mem q (hsub.subset hi)))
        · intro x
          by_cases hin : q.lo ≤ x ∧ x ≤ p'
          · have hown := (hap.left.append hnew hbelow).valueAt_of_mem (x := x)
              (mem_append_right pre mem_cons_self) hin.1 hin.2
            rw [singleton_append] at hown
            rw [hown]
            by_cases hxq : x ≤ q.hi
            · rw [hap.valueAt_of_mem (mem_append_right pre mem_cons_self) hin.1 hxq,
                Option.map_some, Option.map_some, owner_eq hcurr]
            · obtain ⟨i, hi, hlo, hhi⟩ := hcover x (by omega) hin.2
              rw [hap.valueAt_of_mem (i := i) (by simp [hi]) hlo hhi, Option.map_some,
                Option.map_some, owner_eq (hgone i hi).1]
          · have hgoneNone : valueAt gone x = none := valueAt_eq_none fun i hi => by
              have := (hgone i hi).2
              have := (hafter i (by simp [hi])).1
              omega
            have hout : ¬ (q.lo ≤ x ∧ x ≤ q.hi) := by omega
            rw [valueAt_append, valueAt_append, valueAt_cons, valueAt_cons, if_neg hin, if_neg hout,
              append_assoc, valueAt_append (l := gone), hgoneNone, Option.none_or]
      · have hnone : gone = [] := by
          cases gone with
          | nil => rfl
          | cons i gone =>
            have := hafter i (by simp)
            have := (hgone i mem_cons_self).2
            omega
        subst hnone
        rw [if_neg hgrew]
        exact ⟨_, rfl, hap, hbound, fun x => rfl⟩
    · refine ⟨_, ?_, hap, hbound, fun x => rfl⟩
      simp only [mergeAbuttingIntervals, hprod, hquery, hnotEnd, hap.current_eq, hcurr,
        Bool.not_true, Bool.false_eq_true, if_false, Bool.not_false, if_true, Option.bind_eq_bind,
        Option.bind_some]

end Merge

section Owners

variable {curr : ScheduledOpOneResource}

/-- Who owns an address. -/
def owners (l : List (Interval ProdConsType)) (x : ℕ) : Option (Owner ℕ) :=
  (valueAt l x).map ProdConsType.owner

theorem ScheduledOpOneResource.op_eq {a b : ScheduledOpOneResource} (hab : a.lt b = false)
    (hba : b.lt a = false) : a.op = b.op := by
  unfold ScheduledOpOneResource.lt at hab hba
  split_ifs at hab hba <;> simp only [decide_eq_false_iff_not] at hab hba <;> omega

open ScheduledOpOneResource

theorem ScheduledOpOneResource.mem_setInsert (l : List ScheduledOpOneResource) :
    {c | ∃ a ∈ setInsert l curr, a.op = c} = insert curr.op {c | ∃ a ∈ l, a.op = c} := by
  induction l with
  | nil =>
    ext c
    simp [setInsert, eq_comm]
  | cons b l ih =>
    ext c
    unfold setInsert
    split_ifs with hlt hgt
    · simp [eq_comm]
    · have hc := Set.ext_iff.mp ih c
      simp only [Set.mem_ofPred_eq, Set.mem_insert_iff] at hc
      simp only [Set.mem_ofPred_eq, Set.mem_insert_iff, exists_mem_cons_iff, hc]
      tauto
    · have hop := op_eq (Bool.not_eq_true _ ▸ hlt) (Bool.not_eq_true _ ▸ hgt)
      simp only [Set.mem_ofPred_eq, Set.mem_insert_iff, exists_mem_cons_iff, hop]
      tauto

theorem newProdCons_owner (p : ProdConsType) :
    (newProdCons curr p).owner = p.owner.next curr.access := by
  unfold newProdCons Owner.next access
  by_cases hprod : curr.resRelation = .PRODUCER
  · simp [isIntervalProducer, hprod, newProducer,
      owner, ScheduledOpOneResource.assign]
  · simp [isIntervalProducer, hprod, addConsumer,
      owner, mem_setInsert]

theorem mem_outputDependency {p : ProdConsType} {s : ℕ}
    (h : p.owner.Blocks curr.access.produces s) : ⟨s, curr.op⟩ ∈ outputDependency curr p := by
  unfold outputDependency
  rcases h with ⟨⟨a, ha, rfl⟩, hprod⟩ | ⟨rfl, hempty⟩
  · have hcurr : curr.isIntervalProducer = true :=
      decide_eq_true (p := curr.resRelation = .PRODUCER) hprod
    have hne : p.consumers.isEmpty = false := by
      rw [isEmpty_eq_false_iff]
      exact ne_nil_of_mem ha
    rw [hcurr, hne]
    exact mem_map.mpr ⟨a, ha, rfl⟩
  · split_ifs with hcurr hcons
    · exact mem_singleton.mpr rfl
    · have hnone := hempty (of_decide_eq_true (p := curr.resRelation = .PRODUCER) hcurr)
      obtain ⟨a, ha⟩ := exists_mem_of_ne_nil _ (by simpa using hcons)
      exact absurd hnone (Set.nonempty_iff_ne_empty.mp ⟨a.op, a, ha, rfl⟩)
    · exact mem_singleton.mpr rfl

/-- One scheduled use changes the owners, and gives the edges, as an access should. -/
theorem processNextInterval_spec (hle : curr.addressStart ≤ curr.addressEnd) (hap : Apart l)
    (hbound : ∀ i ∈ l, i.hi < 2 ^ 64) :
    ∃ l' edges, processNextInterval curr (endPoints l) = some (endPoints l', edges) ∧ Apart l' ∧
      (∀ i ∈ l', i.hi < 2 ^ 64) ∧ owners l' = advance (owners l) curr.access ∧
      ∀ s t, EdgesFor (owners l) curr.access s t → ⟨s, t⟩ ∈ edges := by
  obtain ⟨pre, qs, post, rfl, hpre, hqs, hpost⟩ := hap.split curr.addressStart curr.addressEnd
  have hquery := query_eq hap hle hpre hqs hpost
  rw [append_assoc] at hap hbound hquery ⊢
  have hfuel : qs.length < (endPoints (pre ++ (qs ++ post))).length + 1 := by
    rw [length_endPoints]
    simp only [length_append]
    omega
  obtain ⟨s, mid, hloop, htree, hapMid, hmid64, hedges, hval⟩ := overlapLoop_spec curr hpost qs pre
    curr.addressStart [] _ hfuel hap (fun i hi => hbound i (by simp [hi])) hpre hle hqs
  have hmidBound : ∀ i ∈ pre ++ (mid ++ post), i.hi < 2 ^ 64 := by
    intro i hi
    rcases mem_append.mp hi with hi | hi
    · exact hbound i (by simp [hi])
    · rcases mem_append.mp hi with hi | hi
      · exact hmid64 i hi
      · exact hbound i (by simp [hi])
  have howners : owners (pre ++ (mid ++ post)) =
      advance (owners (pre ++ (qs ++ post))) curr.access := by
    funext x
    simp only [advance, owners, valueAt_append, hval x]
    by_cases hx : curr.addressStart ≤ x ∧ x ≤ curr.addressEnd
    · have hpreNone : valueAt pre x = none := valueAt_eq_none fun i hi => by
        have := hpre i hi
        omega
      have hpostNone : valueAt post x = none := valueAt_eq_none fun j hj => by
        have := hpost j hj
        omega
      rw [if_pos hx, if_pos (show x ∈ curr.access.addresses from hx), hpreNone, hpostNone]
      cases valueAt qs x with
      | none => simp [ownersAfter, owner, access]
      | some p => simp [ownersAfter, newProdCons_owner]
    · rw [if_neg hx, if_neg (show x ∉ curr.access.addresses from hx)]
  have hcovers : ∀ s t, EdgesFor (owners (pre ++ (qs ++ post))) curr.access s t →
      ⟨s, t⟩ ∈ qs.flatMap fun q => outputDependency curr q.val := by
    rintro s t ⟨rfl, x, hx, o, ho, hblocks⟩
    obtain ⟨p, hp, rfl⟩ := Option.map_eq_some_iff.mp ho
    obtain ⟨q, hq, hqx, rfl⟩ := exists_of_valueAt hp
    have hqs' : q ∈ qs := by
      have hxlo : curr.addressStart ≤ x := hx.1
      have hxhi : x ≤ curr.addressEnd := hx.2
      rcases mem_append.mp hq with hq | hq
      · have := hpre q hq
        omega
      · rcases mem_append.mp hq with hq | hq
        · exact hq
        · have := hpost q hq
          omega
    exact mem_flatMap.mpr ⟨q, hqs', mem_outputDependency hblocks⟩
  cases hprod : curr.isIntervalProducer with
  | false =>
    refine ⟨_, _, ?_, hapMid, hmidBound, howners, hcovers⟩
    simp only [processNextInterval, hquery, hloop, htree, hprod, hedges, Option.bind_eq_bind,
      Option.bind_some, Bool.false_eq_true, if_false]
    rfl
  | true =>
    obtain ⟨l', hmerge, hapl, hlbound, hsame⟩ :=
      mergeAbuttingIntervals_spec hprod hle hapMid hmidBound
    refine ⟨l', _, ?_, hapl, hlbound, (funext hsame : owners l' = _).trans howners, hcovers⟩
    simp only [processNextInterval, hquery, hloop, htree, hprod, hmerge, hedges,
      Option.bind_eq_bind,
      Option.bind_some, if_true]
    rfl

/-- The state of the generator after the uses of `past`. -/
def Generated (past : List ScheduledOpOneResource) (tree : IntervalTree)
    (edges : List ControlEdge) : Prop :=
  ∃ l, tree = endPoints l ∧ Apart l ∧ (∀ i ∈ l, i.hi < 2 ^ 64) ∧
    Tracked (past.map ScheduledOpOneResource.access) (owners l) fun s t => ⟨s, t⟩ ∈ edges

variable {past : List ScheduledOpOneResource}

theorem Generated.step {tree : IntervalTree} {edges : List ControlEdge}
    (h : Generated past tree edges) (hle : curr.addressStart ≤ curr.addressEnd) :
    ∃ tree' new, processNextInterval curr tree = some (tree', new) ∧
      Generated (past ++ [curr]) tree' (edges ++ new) := by
  obtain ⟨l, rfl, hap, hbound, htracked⟩ := h
  obtain ⟨l', new, hrun, hapl, hlbound, howners, hnew⟩ := processNextInterval_spec hle hap hbound
  refine ⟨_, new, hrun, l', rfl, hapl, hlbound, ?_⟩
  rw [map_append, howners]
  exact htracked.step curr.access (fun s t hst => mem_append_left new hst)
    fun s t hst => mem_append_right edges (hnew s t hst)

theorem Generated.skip {tree : IntervalTree} {edges : List ControlEdge}
    (h : Generated past tree edges) (hgt : curr.addressStart > curr.addressEnd) :
    Generated (past ++ [curr]) tree edges := by
  obtain ⟨l, rfl, hap, hbound, htracked⟩ := h
  have hout : ∀ x, x ∉ curr.access.addresses := by
    intro x hx
    have hlo : curr.addressStart ≤ x := hx.1
    have hhi : x ≤ curr.addressEnd := hx.2
    omega
  have hsame : advance (owners l) curr.access = owners l := by
    funext x
    rw [advance, if_neg (hout x)]
  refine ⟨l, rfl, hap, hbound, ?_⟩
  rw [map_append, ← hsame]
  apply htracked.step curr.access (fun s t hst => hst)
  rintro s t ⟨-, x, hx, -⟩
  exact absurd hx (hout x)

end Owners

/-- Every two uses that share an address and of which one produces are ordered: the edges lead
from the operation of the earlier to that of the later one. -/
theorem generateControlEdges_covers_hazards (uses : List ScheduledOpOneResource) :
    ∃ edges, generateControlEdges uses = some edges ∧
      uses.Pairwise fun i j =>
        (∃ x, (i.addressStart ≤ x ∧ x ≤ i.addressEnd) ∧ j.addressStart ≤ x ∧ x ≤ j.addressEnd) →
        (i.resRelation = .PRODUCER ∨ j.resRelation = .PRODUCER) →
          TransGen (fun s t => ⟨s, t⟩ ∈ edges) i.op j.op := by
  have hrun : ∀ past : List ScheduledOpOneResource, ∃ last,
      past.foldlM (fun (s : IntervalTree × List ControlEdge) currInterval =>
        if currInterval.addressStart > currInterval.addressEnd then some s
        else (processNextInterval currInterval s.1).bind fun next =>
          some (next.1, s.2 ++ next.2)) ([], []) = some last ∧ Generated past last.1 last.2 := by
    intro past
    induction past using List.reverseRecOn with
    | nil =>
      have hnil : Tracked [] (owners []) fun _ _ => False := Tracked.nil
      exact ⟨_, rfl, [], rfl, ⟨by simp, .nil⟩, by simp, by simpa using hnil⟩
    | append_singleton past curr ih =>
      obtain ⟨⟨tree, edges⟩, hpast, hgen⟩ := ih
      rw [List.foldlM_append, hpast]
      by_cases hgt : curr.addressStart > curr.addressEnd
      · exact ⟨_, by simp [hgt], hgen.skip hgt⟩
      · have hle : curr.addressStart ≤ curr.addressEnd := Nat.le_of_not_lt hgt
        obtain ⟨tree', new, hnext, hgen'⟩ := hgen.step hle
        exact ⟨(tree', edges ++ new), by simp [hgt, hnext], hgen'⟩
  obtain ⟨last, hlast, l, -, -, -, htracked⟩ := hrun uses
  refine ⟨last.2, (congrArg (·.bind fun last => some last.2) hlast :), ?_⟩
  have hordered := List.pairwise_map.mp htracked.ordered
  exact hordered.imp fun hconf hshare hprod => hconf ⟨hshare, hprod⟩

/-- The second producer covers part of the range of the first one, after a consumer of it. -/
example : generateControlEdges
    [⟨0, 0, 9, .PRODUCER, by decide, by decide⟩, ⟨1, 0, 3, .CONSUMER, by decide, by decide⟩,
      ⟨2, 2, 5, .PRODUCER, by decide, by decide⟩] = some [⟨0, 1⟩, ⟨1, 2⟩, ⟨0, 2⟩] := by
  decide

end Vpux.Memory
