import Vpux.Const.Broadcast
import Vpux.Const.PadWithZero
import Vpux.Const.SubView
import Vpux.Const.SwizzleConstant
import Vpux.Data.SortedLists
import Mathlib.Logic.Relation

/-! The list of transformations of a constant and the places where new ones are added
(`attributes/content.cpp`). -/
namespace Vpux.Const
open Data

inductive PositionRequirement where
  | NONE
  | PREFERRED_LAST
  | LAST
  deriving DecidableEq, Repr

open List

namespace PositionRequirement

def rank : PositionRequirement → ℕ
  | NONE => 0
  | PREFERRED_LAST => 1
  | LAST => 2

/-- `[NONE]* -> [PREFERRED_LAST]* -> [LAST]`, with at most one `LAST`. -/
def Ordered (reqs : List PositionRequirement) : Prop :=
  ∃ none preferred last : ℕ, last ≤ 1 ∧ reqs = List.replicate none NONE ++
    (List.replicate preferred PREFERRED_LAST ++ List.replicate last LAST)

/-- Nothing without a requirement is the first of its kind behind what prefers to be last. -/
def NoneFirst (reqs : List PositionRequirement) : Prop :=
  ∀ before after, reqs = before ++ NONE :: after → PREFERRED_LAST ∈ before → NONE ∈ before

def LastAtEnd (reqs : List PositionRequirement) : Prop := LAST ∉ reqs.dropLast

variable {reqs : List PositionRequirement}

theorem pairwise_of_ordered (h : Ordered reqs) : reqs.Pairwise (rank · ≤ rank ·) := by
  obtain ⟨none, preferred, last, _, rfl⟩ := h
  simp [pairwise_append, pairwise_replicate, mem_replicate, rank]

theorem ordered_of_pairwise (hcount : reqs.count LAST ≤ 1) (h : reqs.Pairwise (rank · ≤ rank ·)) :
    Ordered reqs := by
  induction reqs with
  | nil => exact ⟨0, 0, 0, Nat.zero_le 1, rfl⟩
  | cons req reqs ih =>
    obtain ⟨hhead, htail⟩ := pairwise_cons.mp h
    have hle : reqs.count LAST ≤ 1 := le_trans count_le_count_cons hcount
    obtain ⟨none, preferred, last, hlast, rfl⟩ := ih hle htail
    cases req with
    | NONE => exact ⟨none + 1, preferred, last, hlast, rfl⟩
    | PREFERRED_LAST =>
      obtain rfl : none = 0 := by
        by_contra hne
        have hmem : NONE ∈ List.replicate none NONE := mem_replicate.mpr ⟨hne, rfl⟩
        exact absurd (hhead NONE (mem_append_left _ hmem)) (by decide)
      exact ⟨0, preferred + 1, last, hlast, rfl⟩
    | LAST =>
      have hnil : ∀ req, req ∈ List.replicate none NONE ++
          (List.replicate preferred PREFERRED_LAST ++ List.replicate last LAST) → req = LAST := by
        intro req hreq
        cases req with
        | NONE => exact absurd (hhead _ hreq) (by decide)
        | PREFERRED_LAST => exact absurd (hhead _ hreq) (by decide)
        | LAST => rfl
      have hempty := eq_replicate_of_mem hnil
      rw [count_cons_self, hempty, count_replicate_self] at hcount
      rw [hempty, Nat.le_zero.mp (Nat.le_of_succ_le_succ hcount)]
      exact ⟨0, 0, 1, Nat.le_refl 1, rfl⟩

theorem LastAtEnd.count_le (h : LastAtEnd reqs) : reqs.count LAST ≤ 1 := by
  rcases eq_nil_or_concat reqs with rfl | ⟨front, req, rfl⟩
  · exact Nat.zero_le 1
  · rw [LastAtEnd, concat_eq_append, dropLast_concat] at h
    rw [concat_eq_append, count_append, count_eq_zero_of_not_mem h, Nat.zero_add]
    exact count_le_length

theorem ordered_iff (h : LastAtEnd reqs) : Ordered reqs ↔ reqs.Pairwise (rank · ≤ rank ·) :=
  ⟨pairwise_of_ordered, ordered_of_pairwise h.count_le⟩

theorem noneFirst_concat_iff {req : PositionRequirement} :
    NoneFirst (reqs ++ [req]) ↔
      NoneFirst reqs ∧ (req = NONE → PREFERRED_LAST ∈ reqs → NONE ∈ reqs) := by
  constructor
  · intro h
    constructor
    · intro before after heq
      exact h before (after ++ [req]) (by rw [heq, append_assoc]; rfl)
    · intro hreq
      exact h reqs [] (by rw [hreq])
  · intro h before after heq hpreferred
    rcases eq_nil_or_concat after with rfl | ⟨after, req', rfl⟩
    · obtain ⟨rfl, hreq⟩ := append_inj' heq rfl
      exact h.2 (singleton_inj.mp hreq) hpreferred
    · rw [concat_eq_append, ← cons_append, ← append_assoc] at heq
      exact h.1 before after (append_inj' heq rfl).1 hpreferred

theorem rank_le_last (req : PositionRequirement) : rank req ≤ rank LAST := by
  cases req <;> decide

theorem rank_le_iff {req : PositionRequirement} (hlast : LAST ∉ reqs)
    (hnone : req = NONE → NONE ∉ reqs) :
    (∀ a ∈ reqs, rank a ≤ rank req) ↔ (req = NONE → PREFERRED_LAST ∉ reqs) := by
  constructor
  · rintro h rfl hpreferred
    exact absurd (h _ hpreferred) (by decide)
  · intro h a ha
    cases a with
    | NONE => exact Nat.zero_le _
    | LAST => exact absurd ha hlast
    | PREFERRED_LAST =>
      cases req with
      | NONE => exact absurd ha (h rfl)
      | PREFERRED_LAST => exact Nat.le_refl _
      | LAST => exact Nat.le_succ _

end PositionRequirement

structure TransformAttrInterface (T : Type) where
  inferOutputType : T → NDType → Except Fault NDType
  getPositionRequirement : T → PositionRequirement
  updateAttributes : T → Content → List T → Except Fault (Option T)
  getPositionRequirement_update : ∀ {t t' : T} {baseContent : Content} {prev : List T},
    updateAttributes t baseContent prev = .ok (some t') →
      getPositionRequirement t' = getPositionRequirement t

structure ContentAttr (T : Type) where
  baseContent : Content
  transformations : List T
  finalType : NDType

def ContentAttr.get {T : Type} (baseContent : Content) : ContentAttr T :=
  ⟨baseContent, [], baseContent.type⟩

namespace TransformAttrInterface

variable {T : Type} (interface : TransformAttrInterface T)

/-- The position behind the last transformation without a requirement before `it`. -/
def afterLastNone (transformations : List T) : ℕ → Option ℕ
  | 0 => none
  | it + 1 =>
    if transformations[it]?.map interface.getPositionRequirement = some .NONE then some (it + 1)
    else afterLastNone transformations it

def getInsertionPosition (transformations : List T) (newTransformation : T) : Except Fault ℕ :=
  match transformations.getLast? with
  | none => .ok transformations.length
  | some lastTransformation => do
    let newTransformationReq := interface.getPositionRequirement newTransformation
    let lastTransformationReq := interface.getPositionRequirement lastTransformation
    throwUnless (¬(newTransformationReq = .LAST ∧ lastTransformationReq = .LAST))
      "Existing transformation with LAST position requirement"
    let position := if newTransformationReq = .NONE then
      interface.afterLastNone transformations transformations.length else none
    match position with
    | some it => .ok it
    | none =>
      if lastTransformationReq = .LAST then .ok (transformations.length - 1)
      else .ok transformations.length

/-- The transformations from the inserted one on are updated one after the other. -/
def updateFrom (baseContent : Content) (prev rest : List T) : Except Fault (List T) :=
  rest.foldlM (fun prev t => do
    let updatedTransformation ← interface.updateAttributes t baseContent prev
    .ok (prev ++ [updatedTransformation.getD t])) prev

def inferTypes (transformations : List T) (type : NDType) : Except Fault NDType :=
  transformations.foldlM (fun newOutputType t => interface.inferOutputType t newOutputType) type

/-- The constant with a list of transformations that is up to date before a position. -/
def rebuild (baseContent : Content) (prev rest : List T) : Except Fault (ContentAttr T) := do
  let transformations ← interface.updateFrom baseContent prev rest
  let newOutputType ← interface.inferTypes transformations baseContent.type
  .ok ⟨baseContent, transformations, newOutputType⟩

def addTransformation (input : ContentAttr T) (newTransformation : T) :
    Except Fault (ContentAttr T) := do
  let transformations := input.transformations
  let position ← interface.getInsertionPosition transformations newTransformation
  interface.rebuild input.baseContent (transformations.take position)
    (newTransformation :: transformations.drop position)

def addTransformations (input : ContentAttr T) (added : List T) : Except Fault (ContentAttr T) :=
  added.foldlM interface.addTransformation input

/-- A transformation whose attributes were updated, any number of times. -/
def UpdatedFrom : T → T → Prop := Relation.ReflTransGen fun t t' =>
  ∃ baseContent prev, interface.updateAttributes t baseContent prev = .ok (some t')

def requirements (transformations : List T) : List PositionRequirement :=
  transformations.map interface.getPositionRequirement

/-- The list is in order and has all transformations that were added, each once and those of equal
requirement in the order of addition; a call only fails when a second `LAST` is added, or when the
transformations cannot be updated or their types not be inferred. -/
structure KeepsOrder (added : List T) (content : ContentAttr T) : Prop where
  ordered : PositionRequirement.Ordered (interface.requirements content.transformations)
  holds : ∃ arranged, Arranges interface.getPositionRequirement added arranged ∧
    List.Forall₂ interface.UpdatedFrom arranged content.transformations
  throws : ∀ newTransformation fault,
    interface.addTransformation content newTransformation = .error fault →
      interface.getPositionRequirement newTransformation = .LAST ∧
          .LAST ∈ interface.requirements added ∨
        ∃ prev rest, prev ++ rest = content.transformations ∧
          interface.rebuild content.baseContent prev (newTransformation :: rest) = .error fault

section Position

open PositionRequirement

variable {interface} {transformations : List T} {newTransformation : T} {position : ℕ}

theorem requirements_append (front back : List T) : interface.requirements (front ++ back) =
    interface.requirements front ++ interface.requirements back := map_append

theorem requirements_cons (t : T) (rest : List T) : interface.requirements (t :: rest) =
    interface.getPositionRequirement t :: interface.requirements rest := rfl

theorem afterLastNone_some {it : ℕ} (hit : it ≤ transformations.length)
    (h : interface.afterLastNone transformations it = some position) :
    ∃ front t back, transformations.take it = front ++ t :: back ∧ position = front.length + 1 ∧
      interface.getPositionRequirement t = .NONE ∧
      ∀ b ∈ back, interface.getPositionRequirement b ≠ .NONE := by
  induction it with
  | zero => cases h
  | succ it ih =>
    have hlt : it < transformations.length := hit
    unfold afterLastNone at h
    rw [getElem?_eq_getElem hlt, Option.map_some] at h
    rw [take_succ_eq_append_getElem hlt]
    by_cases hnone : interface.getPositionRequirement transformations[it] = .NONE
    · rw [hnone, if_pos rfl] at h
      refine ⟨transformations.take it, transformations[it], [], rfl, ?_, hnone, by simp⟩
      rw [length_take_of_le hlt.le]
      exact (Option.some.inj h).symm
    · rw [if_neg fun heq => hnone (Option.some.inj heq)] at h
      obtain ⟨front, t, back, htake, hposition, ht, hback⟩ := ih hlt.le h
      refine ⟨front, t, back ++ [transformations[it]], ?_, hposition, ht, ?_⟩
      · rw [htake, append_assoc, cons_append]
      · intro b hb
        rcases mem_append.mp hb with hb | hb
        · exact hback b hb
        · rw [mem_singleton.mp hb]
          exact hnone

theorem afterLastNone_none {it : ℕ} (hit : it ≤ transformations.length)
    (h : interface.afterLastNone transformations it = none) :
    ∀ t ∈ transformations.take it, interface.getPositionRequirement t ≠ .NONE := by
  induction it with
  | zero => simp
  | succ it ih =>
    have hlt : it < transformations.length := hit
    unfold afterLastNone at h
    rw [getElem?_eq_getElem hlt, Option.map_some] at h
    split_ifs at h with hnone
    intro t ht
    rw [take_succ_eq_append_getElem hlt] at ht
    rcases mem_append.mp ht with ht | ht
    · exact ih hlt.le h t ht
    · rw [mem_singleton.mp ht]
      exact fun heq => hnone (congrArg some heq)

/-- Where a transformation is inserted: behind the last one without a requirement, before what has
to be last, or at the end. -/
inductive InsertsAt (interface : TransformAttrInterface T) (newTransformation : T) :
    List T → List T → Prop
  | afterNone {front back : List T} {t : T}
      (hnew : interface.getPositionRequirement newTransformation = .NONE)
      (ht : interface.getPositionRequirement t = .NONE)
      (hback : ∀ b ∈ back, interface.getPositionRequirement b ≠ .NONE) :
      InsertsAt interface newTransformation (front ++ [t]) back
  | beforeLast {front : List T} {last : T}
      (hnone : interface.getPositionRequirement newTransformation = .NONE →
        ∀ t ∈ front, interface.getPositionRequirement t ≠ .NONE)
      (hlast : interface.getPositionRequirement last = .LAST)
      (hnew : interface.getPositionRequirement newTransformation ≠ .LAST) :
      InsertsAt interface newTransformation front [last]
  | atEnd {front : List T}
      (hnone : interface.getPositionRequirement newTransformation = .NONE →
        ∀ t ∈ front, interface.getPositionRequirement t ≠ .NONE)
      (hlast : ∀ init last, front = init ++ [last] →
        interface.getPositionRequirement last ≠ .LAST) :
      InsertsAt interface newTransformation front []

theorem getInsertionPosition_insertsAt
    (h : interface.getInsertionPosition transformations newTransformation = .ok position) :
    InsertsAt interface newTransformation (transformations.take position)
      (transformations.drop position) := by
  rcases eq_nil_or_concat transformations with rfl | ⟨init, last, hconcat⟩
  · rw [take_nil, drop_nil]
    exact .atEnd (by simp) (by simp)
  rw [concat_eq_append] at hconcat
  unfold getInsertionPosition at h
  rw [hconcat, getLast?_concat, ← hconcat] at h
  obtain ⟨_, hsecond, h⟩ := bind_eq_ok.mp h
  rw [throwUnless_eq_ok, not_and] at hsecond
  have hlength : transformations.length = init.length + 1 := by
    rw [hconcat, length_append, length_singleton]
  have hrest : (interface.getPositionRequirement newTransformation = .NONE →
      ∀ t ∈ transformations, interface.getPositionRequirement t ≠ .NONE) →
      (if interface.getPositionRequirement last = .LAST then
        (.ok (transformations.length - 1) : Except Fault ℕ)
      else .ok transformations.length) = .ok position →
      InsertsAt interface newTransformation (transformations.take position)
        (transformations.drop position) := by
    intro hnone hposition
    split_ifs at hposition with hlast
    · obtain rfl : init.length = position := by
        rw [← Except.ok.inj hposition, hlength, Nat.add_sub_cancel]
      rw [hconcat, take_left, drop_left]
      exact .beforeLast (fun hnew t ht => hnone hnew t (by simp [hconcat, ht])) hlast
        fun hnew => hsecond hnew hlast
    · rw [← Except.ok.inj hposition, take_length, drop_length]
      refine .atEnd hnone fun init' last' heq => ?_
      rw [hconcat] at heq
      rwa [← singleton_inj.mp (append_inj' heq rfl).2]
  by_cases hnew : interface.getPositionRequirement newTransformation = .NONE
  · rw [if_pos hnew] at h
    cases hafter : interface.afterLastNone transformations transformations.length with
    | some it =>
      rw [hafter] at h
      obtain rfl : it = position := Except.ok.inj h
      obtain ⟨front, t, back, htake, rfl, ht, hback⟩ := afterLastNone_some (Nat.le_refl _) hafter
      rw [take_length] at htake
      have hsplit : transformations = (front ++ [t]) ++ back := by
        rw [htake, append_assoc, singleton_append]
      have hfront : front.length + 1 = (front ++ [t]).length := by simp
      rw [hsplit, hfront, take_left, drop_left]
      exact .afterNone hnew ht hback
    | none =>
      rw [hafter] at h
      have hnone := afterLastNone_none (Nat.le_refl _) hafter
      rw [take_length] at hnone
      exact hrest (fun _ => hnone) h
  · rw [if_neg hnew] at h
    exact hrest (fun hnone => absurd hnone hnew) h

theorem getInsertionPosition_error {fault : Fault}
    (h : interface.getInsertionPosition transformations newTransformation = .error fault) :
    interface.getPositionRequirement newTransformation = .LAST ∧
      ∃ t ∈ transformations, interface.getPositionRequirement t = .LAST := by
  unfold getInsertionPosition at h
  split at h
  · cases h
  · rename_i last hlast
    by_cases hsecond : interface.getPositionRequirement newTransformation = .LAST ∧
        interface.getPositionRequirement last = .LAST
    · exact ⟨hsecond.1, last, mem_of_getLast? hlast, hsecond.2⟩
    · dsimp only at h
      rw [throwUnless, if_pos hsecond] at h
      change (match (_ : Option ℕ) with | some it => _ | none => _) = Except.error fault at h
      split at h
      · cases h
      · split_ifs at h

namespace InsertsAt

variable {front back : List T}

theorem notMem_last (hend : LastAtEnd (interface.requirements front))
    (hlast : ∀ init last, front = init ++ [last] → interface.getPositionRequirement last ≠ .LAST) :
    .LAST ∉ interface.requirements front := by
  unfold LastAtEnd requirements at *
  rw [← map_dropLast] at hend
  rcases eq_nil_or_concat front with rfl | ⟨init, last, hconcat⟩
  · simp
  · rw [concat_eq_append] at hconcat
    rw [hconcat, dropLast_concat] at hend
    rw [hconcat, map_append, mem_append]
    rintro (hmem | hmem)
    · exact hend hmem
    · exact hlast init last hconcat (mem_singleton.mp hmem).symm

variable (h : InsertsAt interface newTransformation front back)

include h in
theorem back_ne :
    ∀ b ∈ back, interface.getPositionRequirement b ≠
      interface.getPositionRequirement newTransformation := by
  cases h with
  | afterNone hnew ht hback => exact fun b hb => hnew ▸ hback b hb
  | beforeLast hnone hlast hnew =>
    intro b hb
    rw [List.mem_singleton.mp hb, hlast]
    exact hnew.symm
  | atEnd hnone hlast => simp

include h in
theorem lastAtEnd (hend : LastAtEnd (interface.requirements (front ++ back))) :
    LastAtEnd (interface.requirements (front ++ newTransformation :: back)) := by
  unfold LastAtEnd requirements at *
  rw [← List.map_dropLast] at *
  cases h with
  | @afterNone front _ t hnew ht hback =>
    cases back with
    | nil =>
      rw [List.append_nil, List.dropLast_concat] at hend
      rw [List.dropLast_concat, List.map_append, List.mem_append]
      rintro (hlast | hlast)
      · exact hend hlast
      · simp [ht] at hlast
    | cons b back =>
      rw [List.dropLast_append_of_ne_nil (List.cons_ne_nil _ _)] at hend ⊢
      rw [List.dropLast_cons_of_ne_nil (List.cons_ne_nil _ _)]
      simp only [List.map_append, List.map_cons, List.mem_append, List.mem_cons, hnew] at hend ⊢
      simpa using hend
  | @beforeLast _ last hnone hlast hnew =>
    rw [List.dropLast_concat] at hend
    rw [List.append_cons, List.dropLast_concat, List.map_append, List.mem_append]
    rintro (hlast' | hlast')
    · exact hend hlast'
    · exact hnew (List.mem_singleton.mp hlast').symm
  | atEnd hnone hlast =>
    rw [List.append_nil, List.map_dropLast] at hend
    rw [List.dropLast_concat]
    exact notMem_last hend hlast

/-- Between what does not have to be last and what has to, only the front matters. -/
theorem fits_iff (hnone : interface.getPositionRequirement newTransformation = .NONE →
      ∀ t ∈ front, interface.getPositionRequirement t ≠ .NONE)
    (hfront : .LAST ∉ interface.requirements front)
    (hback : ∀ b ∈ back, interface.getPositionRequirement b = .LAST) :
    ((∀ a ∈ interface.requirements front,
        rank a ≤ rank (interface.getPositionRequirement newTransformation)) ∧
      (∀ b ∈ interface.requirements back,
        rank (interface.getPositionRequirement newTransformation) ≤ rank b)) ↔
      (interface.getPositionRequirement newTransformation = .NONE →
        .PREFERRED_LAST ∈ interface.requirements (front ++ back) →
          .NONE ∈ interface.requirements (front ++ back)) := by
  have hnone' : interface.getPositionRequirement newTransformation = .NONE →
      .NONE ∉ interface.requirements front := by
    intro hnew hmem
    obtain ⟨t, ht, hreq⟩ := mem_map.mp hmem
    exact hnone hnew t ht hreq
  have hlast : ∀ b ∈ interface.requirements back, b = .LAST := by
    intro b hb
    obtain ⟨t, ht, rfl⟩ := mem_map.mp hb
    exact hback t ht
  have hafter : ∀ b ∈ interface.requirements back,
      rank (interface.getPositionRequirement newTransformation) ≤ rank b := by
    intro b hb
    rw [hlast b hb]
    exact rank_le_last _
  have hmem : ∀ req, req ≠ .LAST →
      (req ∈ interface.requirements (front ++ back) ↔ req ∈ interface.requirements front) := by
    intro req hreq
    rw [requirements_append, mem_append, or_iff_left]
    exact fun hb => hreq (hlast req hb)
  rw [rank_le_iff hfront hnone', and_iff_left hafter, hmem _ (by decide), hmem _ (by decide)]
  apply forall_congr'
  intro hnew
  constructor
  · intro h hpreferred
    exact absurd hpreferred h
  · intro h hpreferred
    exact hnone' hnew (h hpreferred)

include h in
/-- An insertion keeps the order unless it puts something without a requirement at the end of what
prefers to be last. -/
theorem ordered_iff (hend : LastAtEnd (interface.requirements (front ++ back))) :
    Ordered (interface.requirements (front ++ newTransformation :: back)) ↔
      Ordered (interface.requirements (front ++ back)) ∧
        (interface.getPositionRequirement newTransformation = .NONE →
          .PREFERRED_LAST ∈ interface.requirements (front ++ back) →
            .NONE ∈ interface.requirements (front ++ back)) := by
  rw [PositionRequirement.ordered_iff hend, PositionRequirement.ordered_iff (h.lastAtEnd hend)]
  rw [requirements_append, requirements_cons, pairwise_insert_iff, ← requirements_append,
    and_congr_right_iff]
  intro hpairwise
  cases h with
  | @afterNone front _ t hnew ht hback =>
    have hmem : PositionRequirement.NONE ∈ interface.requirements (front ++ [t] ++ back) :=
      List.mem_map.mpr ⟨t, by simp, ht⟩
    have hfirst : ∀ req ∈ interface.requirements (front ++ [t]), rank req ≤ rank .NONE := by
      rw [requirements_append, requirements_append, List.append_assoc] at hpairwise
      intro req hreq
      rw [requirements_append, List.mem_append] at hreq
      rcases hreq with hreq | hreq
      · exact (List.pairwise_append.mp hpairwise).2.2 req hreq .NONE (by simp [requirements, ht])
      · rw [List.mem_singleton.mp hreq, ht]
    rw [hnew]
    exact ⟨fun _ _ _ => hmem, fun _ => ⟨hfirst, fun _ _ => Nat.zero_le _⟩⟩
  | @beforeLast _ last hnone hlast hnew =>
    unfold LastAtEnd requirements at hend
    rw [← List.map_dropLast, List.dropLast_concat] at hend
    apply fits_iff hnone hend
    intro b hb
    rw [List.mem_singleton.mp hb, hlast]
  | atEnd hnone hlast =>
    rw [List.append_nil] at hend
    exact fits_iff hnone (notMem_last hend hlast) (by simp)

end InsertsAt

end Position

section Update

variable {interface} {baseContent : Content}

theorem UpdatedFrom.getPositionRequirement_eq {t t' : T} (h : interface.UpdatedFrom t t') :
    interface.getPositionRequirement t' = interface.getPositionRequirement t := by
  induction h with
  | refl => rfl
  | tail _ hstep ih =>
    obtain ⟨baseContent, prev, hupdate⟩ := hstep
    exact (interface.getPositionRequirement_update hupdate).trans ih

theorem requirements_eq {ts ts' : List T} (h : List.Forall₂ interface.UpdatedFrom ts ts') :
    interface.requirements ts' = interface.requirements ts :=
  map_eq_of_forall₂ (fun _ _ hupdated => hupdated.getPositionRequirement_eq) h

theorem updateFrom_ok {prev rest ts : List T}
    (h : interface.updateFrom baseContent prev rest = .ok ts) :
    ∃ rest', ts = prev ++ rest' ∧ List.Forall₂ interface.UpdatedFrom rest rest' := by
  induction rest generalizing prev with
  | nil =>
    obtain rfl : prev = ts := Except.ok.inj h
    exact ⟨[], (append_nil prev).symm, List.Forall₂.nil⟩
  | cons t rest ih =>
    obtain ⟨mid, hmid, hrest⟩ := bind_eq_ok.mp h
    obtain ⟨updated, hupdate, hconcat⟩ := bind_eq_ok.mp hmid
    obtain rfl : prev ++ [updated.getD t] = mid := Except.ok.inj hconcat
    obtain ⟨rest', rfl, hforall⟩ := ih hrest
    refine ⟨updated.getD t :: rest', by simp, List.Forall₂.cons ?_ hforall⟩
    cases updated with
    | none => exact Relation.ReflTransGen.refl
    | some t' => exact Relation.ReflTransGen.single ⟨baseContent, prev, hupdate⟩

theorem rebuild_ok {prev rest : List T} {content : ContentAttr T}
    (h : interface.rebuild baseContent prev rest = .ok content) :
    ∃ rest', content.transformations = prev ++ rest' ∧
      List.Forall₂ interface.UpdatedFrom rest rest' := by
  obtain ⟨ts, hts, h⟩ := bind_eq_ok.mp h
  obtain ⟨newOutputType, _, h⟩ := bind_eq_ok.mp h
  cases h
  exact updateFrom_ok hts

end Update

section Run

open PositionRequirement

variable {interface} {added : List T} {content : ContentAttr T}

/-- What holds of every list of transformations, in order or not. -/
structure Reaches (interface : TransformAttrInterface T) (added : List T)
    (content : ContentAttr T) : Prop where
  lastAtEnd : LastAtEnd (interface.requirements content.transformations)
  holds : ∃ arranged, Arranges interface.getPositionRequirement added arranged ∧
    List.Forall₂ interface.UpdatedFrom arranged content.transformations
  ordered_iff : Ordered (interface.requirements content.transformations) ↔
    NoneFirst (interface.requirements added)

theorem Reaches.mem_iff (h : interface.Reaches added content) (req : PositionRequirement) :
    req ∈ interface.requirements content.transformations ↔ req ∈ interface.requirements added := by
  obtain ⟨arranged, harranges, hforall⟩ := h.holds
  rw [requirements_eq hforall]
  exact (harranges.perm.map _).mem_iff

theorem reaches_get (baseContent : Content) :
    interface.Reaches [] (ContentAttr.get baseContent) := by
  constructor
  · exact not_mem_nil
  · exact ⟨[], Arranges.nil, List.Forall₂.nil⟩
  · constructor
    · intro _ before after heq
      simp [requirements] at heq
    · intro _
      exact ⟨0, 0, 0, Nat.zero_le 1, rfl⟩

theorem Reaches.addTransformation (h : interface.Reaches added content) {t : T}
    {content' : ContentAttr T} (hadd : interface.addTransformation content t = .ok content') :
    interface.Reaches (added ++ [t]) content' := by
  obtain ⟨position, hposition, hrebuild⟩ := bind_eq_ok.mp hadd
  have hinserts := getInsertionPosition_insertsAt hposition
  obtain ⟨rest, hrest, hupdated⟩ := rebuild_ok hrebuild
  obtain ⟨arranged, harranges, hforall⟩ := h.holds
  have hfront := forall₂_take position hforall
  have hback := forall₂_drop position hforall
  have hself : ∀ ts : List T, List.Forall₂ interface.UpdatedFrom ts ts := fun ts =>
    forall₂_same.mpr fun _ _ => Relation.ReflTransGen.refl
  have hinserted : interface.requirements content'.transformations = interface.requirements
      (content.transformations.take position ++ t :: content.transformations.drop position) := by
    rw [hrest]
    exact requirements_eq (rel_append (hself _) hupdated)
  have hend : LastAtEnd (interface.requirements (content.transformations.take position ++
      content.transformations.drop position)) := by
    rw [take_append_drop]
    exact h.lastAtEnd
  constructor
  · rw [hinserted]
    exact hinserts.lastAtEnd hend
  · refine ⟨arranged.take position ++ t :: arranged.drop position, Arranges.insert ?_ ?_, ?_⟩
    · rwa [take_append_drop]
    · intro b hb
      obtain ⟨i, hi, rfl⟩ := getElem_of_mem hb
      have hi' : i < (content.transformations.drop position).length := hback.length_eq ▸ hi
      have heq := (List.Forall₂.get hback hi hi').getPositionRequirement_eq
      rw [get_eq_getElem, get_eq_getElem] at heq
      rw [← heq]
      exact hinserts.back_ne _ (getElem_mem hi')
    · rw [hrest]
      have hnew : List.Forall₂ interface.UpdatedFrom (t :: arranged.drop position) rest := by
        cases hupdated with
        | cons hhead htail =>
          refine List.Forall₂.cons hhead ?_
          exact forall₂_trans (fun _ _ _ => Relation.ReflTransGen.trans) hback htail
      exact rel_append hfront hnew
  · rw [hinserted, hinserts.ordered_iff hend, take_append_drop, h.ordered_iff,
      requirements_append, h.mem_iff, h.mem_iff]
    exact noneFirst_concat_iff.symm

theorem reaches_of_addTransformations {baseContent : Content}
    (h : interface.addTransformations (ContentAttr.get baseContent) added = .ok content) :
    interface.Reaches added content := by
  induction added using List.reverseRecOn generalizing content with
  | nil =>
    obtain rfl : ContentAttr.get baseContent = content := Except.ok.inj h
    exact reaches_get baseContent
  | append_singleton added t ih =>
    unfold addTransformations at h
    rw [List.foldlM_append] at h
    obtain ⟨mid, hmid, hlast⟩ := bind_eq_ok.mp h
    obtain ⟨content', hadd, hnil⟩ := bind_eq_ok.mp hlast
    obtain rfl : content' = content := Except.ok.inj hnil
    exact (ih hmid).addTransformation hadd

theorem Reaches.throws (h : interface.Reaches added content) {t : T} {fault : Fault}
    (herror : interface.addTransformation content t = .error fault) :
    interface.getPositionRequirement t = .LAST ∧ .LAST ∈ interface.requirements added ∨
      ∃ prev rest, prev ++ rest = content.transformations ∧
        interface.rebuild content.baseContent prev (t :: rest) = .error fault := by
  change (interface.getInsertionPosition content.transformations t >>= _) = _ at herror
  cases hposition : interface.getInsertionPosition content.transformations t with
  | error fault' =>
    obtain ⟨hlast, t', ht', hlast'⟩ := getInsertionPosition_error hposition
    exact .inl ⟨hlast, (h.mem_iff .LAST).mp (mem_map.mpr ⟨t', ht', hlast'⟩)⟩
  | ok position =>
    rw [hposition] at herror
    exact .inr ⟨_, _, take_append_drop _ _, herror⟩

/-- The list stays in order exactly when no transformation without a requirement is the first of
its kind behind one that prefers to be last. -/
theorem addTransformation_keepsOrder_iff (interface : TransformAttrInterface T)
    (baseContent : Content) (added : List T) (content : ContentAttr T)
    (h : interface.addTransformations (ContentAttr.get baseContent) added = .ok content) :
    (∀ before after state, before ++ after = added →
      interface.addTransformations (ContentAttr.get baseContent) before = .ok state →
        interface.KeepsOrder before state) ↔ NoneFirst (interface.requirements added) := by
  constructor
  · intro hkeeps
    have hkeep := hkeeps added [] content (List.append_nil added) h
    exact (reaches_of_addTransformations h).ordered_iff.mp hkeep.ordered
  · rintro hfirst before after state rfl hstate
    have hreaches := reaches_of_addTransformations hstate
    have hbefore : NoneFirst (interface.requirements before) := by
      intro front back heq
      apply hfirst front (back ++ interface.requirements after)
      rw [requirements_append, heq, List.append_assoc, List.cons_append]
    constructor
    · exact hreaches.ordered_iff.mpr hbefore
    · exact hreaches.holds
    · intro newTransformation fault herror
      exact hreaches.throws herror

end Run

end TransformAttrInterface

/-- Transformations with their attributes; those of `Sparsify` are filled in when it is added. -/
inductive TransformAttr where
  | broadcast (attr : BroadcastAttr)
  | getSparsityMap
  | padWithZero (attr : PadWithZeroAttr)
  | sparsify (compressOutputType : Bool) (numActualElements : Option (List ℕ))
  | subView (attr : SubViewAttr)
  | swizzleConstant (attr : SwizzleConstantAttr)

namespace TransformAttr

variable (floats : FloatCasts) (fresh : ℕ → Byte)

def inferOutputType : TransformAttr → NDType → Except Fault NDType
  | broadcast attr => attr.inferOutputType
  | getSparsityMap => GetSparsityMapAttr.inferOutputType
  | padWithZero attr => attr.inferOutputType
  | sparsify false _ => fun inputType => .ok inputType
  | sparsify true none => fun _ => .error .overread
  | sparsify true (some numActualElements) => fun inputType =>
    SparsifyAttr.compressType inputType numActualElements
  | subView attr => attr.inferOutputType
  | swizzleConstant attr => attr.inferOutputType

def transform : TransformAttr → Content → Except Fault Content
  | broadcast attr => attr.transform fresh
  | getSparsityMap => GetSparsityMapAttr.transform floats fresh
  | padWithZero attr => attr.transform floats fresh
  | sparsify _ none => fun _ => .error .overread
  | sparsify _ (some numActualElements) => SparsifyAttr.transform floats fresh numActualElements
  | subView attr => attr.transform fresh
  | swizzleConstant attr => attr.transform floats fresh

def getPositionRequirement : TransformAttr → PositionRequirement
  | getSparsityMap => .PREFERRED_LAST
  | sparsify _ _ => .PREFERRED_LAST
  | swizzleConstant _ => .LAST
  | _ => .NONE

def fold (baseContent : Content) (transformations : List TransformAttr) : Except Fault Content :=
  transformations.foldlM (fun res attr => attr.transform floats fresh res) baseContent

/-- `Sparsify` counts the weights that the transformations before it leave. -/
def updateAttributes (attr : TransformAttr) (baseContent : Content)
    (transformations : List TransformAttr) : Except Fault (Option TransformAttr) :=
  match attr with
  | sparsify compressOutputType _ => do
    let outputType ← transformations.foldlM (fun outputType transformation =>
      transformation.inferOutputType outputType) baseContent.type
    let content ← fold floats fresh baseContent transformations
    let numActualElements ← getNumActualElements floats content outputType.elemType
    .ok (some (sparsify compressOutputType (some numActualElements)))
  | _ => .ok none

theorem getPositionRequirement_updateAttributes {attr attr' : TransformAttr}
    {baseContent : Content} {transformations : List TransformAttr}
    (h : attr.updateAttributes floats fresh baseContent transformations = .ok (some attr')) :
    attr'.getPositionRequirement = attr.getPositionRequirement := by
  cases attr with
  | sparsify compressOutputType numActualElements =>
    obtain ⟨outputType, _, h⟩ := bind_eq_ok.mp h
    obtain ⟨content, _, h⟩ := bind_eq_ok.mp h
    obtain ⟨counts, _, h⟩ := bind_eq_ok.mp h
    cases h
    rfl
  | _ => cases h

def interface : TransformAttrInterface TransformAttr where
  inferOutputType := inferOutputType
  getPositionRequirement := getPositionRequirement
  updateAttributes := updateAttributes floats fresh
  getPositionRequirement_update := getPositionRequirement_updateAttributes floats fresh

end TransformAttr

namespace TransformAttrInterface

def zeroChannels : Content :=
  Content.fromRawBuffer ⟨[2, 1, 1, 128], getUInt8Type, DimsOrder.fromNumDims 4,
    SwizzleConstantAttr.numDims_fromNumDims_four, trivial⟩ [0] getUInt8Type true

def firstRow : SubViewAttr := ⟨[0, 0, 0, 0], [1, 1, 1, 128], rfl, by decide⟩

/-- A sparsity map that is added behind a view keeps the order. -/
theorem keepsOrder_view_map :
    ∃ content, (TransformAttr.interface zeroCasts fun _ => 0).addTransformations
        (ContentAttr.get zeroChannels) [.subView firstRow, .getSparsityMap] = .ok content ∧
      (TransformAttr.interface zeroCasts fun _ => 0).KeepsOrder
        [.subView firstRow, .getSparsityMap] content := by
  have hnil : PositionRequirement.NoneFirst [] := by
    intro before after heq
    simp at heq
  have hview : PositionRequirement.NoneFirst ([] ++ [.NONE]) :=
    PositionRequirement.noneFirst_concat_iff.mpr ⟨hnil, by decide⟩
  have hboth : PositionRequirement.NoneFirst ([.NONE] ++ [.PREFERRED_LAST]) :=
    PositionRequirement.noneFirst_concat_iff.mpr ⟨hview, by decide⟩
  obtain ⟨content, hrun⟩ : ∃ content,
      (TransformAttr.interface zeroCasts fun _ => 0).addTransformations
        (ContentAttr.get zeroChannels) [.subView firstRow, .getSparsityMap] = .ok content :=
    ⟨_, rfl⟩
  have hkeeps := (addTransformation_keepsOrder_iff _ _ _ _ hrun).mpr hboth
  exact ⟨content, hrun, hkeeps _ [] _ rfl hrun⟩

/-- A view that is added behind a sparsity map stays behind it. -/
theorem not_keepsOrder :
    ∃ content, (TransformAttr.interface zeroCasts fun _ => 0).addTransformations
        (ContentAttr.get zeroChannels) [.getSparsityMap, .subView firstRow] = .ok content ∧
      content.transformations = [.getSparsityMap, .subView firstRow] ∧
      ¬(TransformAttr.interface zeroCasts fun _ => 0).KeepsOrder
        [.getSparsityMap, .subView firstRow] content := by
  refine ⟨_, rfl, rfl, ?_⟩
  intro h
  exact absurd (PositionRequirement.pairwise_of_ordered h.ordered) (by decide)

end TransformAttrInterface

end Vpux.Const
