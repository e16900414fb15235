import Mathlib.Tactic.Tauto
import Vpux.Data.Folds
import Vpux.Tiling.Divide

/-! Requirements on strides, strides that are built from them and their check
(`core/attributes/stride_reqs.cpp`). -/
namespace Vpux.Core
open Data Tiling

inductive StrideReqKind where
  | Compact
  | Aligned
  | Fixed
  deriving DecidableEq, Repr

/-- A requirement on one memory dimension. Its constructor also asks that an alignment is a power
of two, of which nothing here makes use. -/
structure DimStrideReq where
  memDim : ℕ
  kind : StrideReqKind
  extraValue : ℤ
  verifyAttrs : kind ≠ .Compact → 0 < extraValue
  deriving DecidableEq

namespace DimStrideReq

def compact (memDim : ℕ) : DimStrideReq := ⟨memDim, .Compact, 0, fun h => absurd rfl h⟩

def aligned (memDim : ℕ) (alignment : ℤ) (h : 0 < alignment) : DimStrideReq :=
  ⟨memDim, .Aligned, alignment, fun _ => h⟩

end DimStrideReq

abbrev StrideReqs := List DimStrideReq

namespace StrideReqs

variable {req : DimStrideReq} {memDim : ℕ}

/-- The class asserts that there is no requirement for the dimension yet. -/
def add (reqs : StrideReqs) (req : DimStrideReq) : StrideReqs := reqs ++ [req]

def reqFor (reqs : StrideReqs) (memDim : ℕ) : Option DimStrideReq :=
  reqs.find? fun req => req.memDim = memDim

def compact (numDims : ℕ) : StrideReqs := (List.range numDims).map DimStrideReq.compact

def applyStrideReq (baseStride : ℤ) (req : DimStrideReq) : ℤ :=
  match req.kind with
  | .Compact => baseStride
  | .Aligned => alignValUp baseStride req.extraValue
  | .Fixed => req.extraValue

/-- The strides from dimension `ind` on. -/
def calcStridesFrom (reqs : StrideReqs) (elemSize : ℤ) : ℕ → List ℤ → List ℤ
  | _, [] => []
  | ind, _ :: memShape =>
    let memStrides := calcStridesFrom reqs elemSize (ind + 1) memShape
    let baseStride := innerExtent elemSize memStrides memShape
    (match reqs.reqFor ind with
      | some req => applyStrideReq baseStride req
      | none => baseStride) :: memStrides

def calcStrides (reqs : StrideReqs) (elemSize : ℤ) (memShape : List ℤ) : List ℤ :=
  calcStridesFrom reqs elemSize 0 memShape

def checkStrideReq (strideVal baseStride : ℤ) (req : DimStrideReq) : Bool :=
  match req.kind with
  | .Fixed => strideVal = req.extraValue
  | .Aligned => strideVal % req.extraValue = 0
  | .Compact => strideVal = baseStride

/-- The least stride that the check lets through. -/
def leastStride (elemSize : ℤ) (memStrides memShape : List ℤ) : ℤ :=
  if memShape = [] then elemSize else innerExtent elemSize memStrides memShape - elemSize

/-- The check from dimension `ind` on. There are as many strides as sizes. -/
def checkStridesFrom (reqs : StrideReqs) (elemSize : ℤ) : ℕ → List ℤ → List ℤ → Bool
  | _, [], [] => true
  | ind, strideVal :: memStrides, _ :: memShape =>
    ¬strideVal < leastStride elemSize memStrides memShape &&
      (match reqs.reqFor ind with
        | some req => checkStrideReq strideVal (innerExtent elemSize memStrides memShape) req
        | none => true) &&
      checkStridesFrom reqs elemSize (ind + 1) memStrides memShape
  | _, _, _ => false

def checkStrides (reqs : StrideReqs) (memStrides : List ℤ) (elemSize : ℤ) (memShape : List ℤ) :
    Bool :=
  checkStridesFrom reqs elemSize 0 memStrides memShape

theorem le_alignValUp {val align : ℤ} (halign : 0 < align) : val ≤ alignValUp val align := by
  unfold alignValUp
  split
  · next hval =>
    have hlt := Int.lt_ediv_add_one_mul_self (val + (align - 1)) halign
    rw [one_mul, Int.tdiv_eq_ediv_of_nonneg (by omega)]
    rw [add_mul, one_mul] at hlt
    omega
  · next hval =>
    have hsum := Int.mul_tdiv_add_tmod val align
    have hrest : val.tmod align ≤ 0 := by
      have hneg := Int.tmod_nonneg align (show 0 ≤ -val by omega)
      rw [Int.neg_tmod] at hneg
      omega
    rw [zero_mul, add_zero, mul_comm]
    omega

theorem dvd_alignValUp (val align : ℤ) : align ∣ alignValUp val align :=
  Dvd.intro_left _ rfl

section Generated

variable {reqs : StrideReqs} {elemSize : ℤ}

theorem le_applyStrideReq (hkind : req.kind ≠ .Fixed) (baseStride : ℤ) :
    baseStride ≤ applyStrideReq baseStride req := by
  unfold applyStrideReq
  split
  · exact le_rfl
  · next h => exact le_alignValUp (req.verifyAttrs (by simp [h]))
  · next h => exact absurd h hkind

theorem checkStrideReq_applyStrideReq (baseStride : ℤ) (req : DimStrideReq) :
    checkStrideReq (applyStrideReq baseStride req) baseStride req = true := by
  unfold checkStrideReq applyStrideReq
  cases req.kind with
  | Compact => simp
  | Aligned => simpa using Int.emod_eq_zero_of_dvd (dvd_alignValUp _ _)
  | Fixed => simp

theorem reqFor_mem (h : reqs.reqFor memDim = some req) :
    req ∈ reqs := List.mem_of_find?_eq_some h

theorem nested_calcStridesFrom (hkind : ∀ req ∈ reqs, req.kind ≠ .Fixed) (ind : ℕ)
    (memShape : List ℤ) : Nested elemSize (calcStridesFrom reqs elemSize ind memShape)
      memShape := by
  induction memShape generalizing ind with
  | nil => trivial
  | cons size memShape ih =>
    constructor
    · cases hreq : reqs.reqFor ind with
      | none => exact le_rfl
      | some req => exact le_applyStrideReq (hkind req (reqFor_mem hreq)) _
    · exact ih (ind + 1)

theorem calcStridesFrom_of_compact (hkind : ∀ req ∈ reqs, req.kind = .Compact) (ind : ℕ)
    (memShape : List ℤ) : calcStridesFrom reqs elemSize ind memShape =
      compactStrides elemSize memShape := by
  induction memShape generalizing ind with
  | nil => rfl
  | cons size memShape ih =>
    unfold calcStridesFrom compactStrides
    rw [ih]
    cases hreq : reqs.reqFor ind with
    | none => rfl
    | some req =>
      dsimp only
      rw [applyStrideReq, hkind req (reqFor_mem hreq)]

theorem calcStrides_compact (numDims : ℕ) (memShape : List ℤ) :
    calcStrides (compact numDims) elemSize memShape = compactStrides elemSize memShape := by
  apply calcStridesFrom_of_compact
  intro req hreq
  obtain ⟨memDim, -, rfl⟩ := List.mem_map.mp hreq
  rfl

theorem leastStride_le (helem : 0 ≤ elemSize) (memStrides memShape : List ℤ) :
    leastStride elemSize memStrides memShape ≤ innerExtent elemSize memStrides memShape := by
  unfold leastStride
  split
  · next h =>
    subst h
    cases memStrides with
    | nil => exact le_rfl
    | cons _ _ => exact le_rfl
  · omega

theorem checkStridesFrom_calcStridesFrom (helem : 0 ≤ elemSize) (ind : ℕ) (memShape : List ℤ)
    (hnested : Nested elemSize (calcStridesFrom reqs elemSize ind memShape) memShape) :
    checkStridesFrom reqs elemSize ind (calcStridesFrom reqs elemSize ind memShape) memShape =
      true := by
  induction memShape generalizing ind with
  | nil => rfl
  | cons size memShape ih =>
    unfold calcStridesFrom at hnested ⊢
    obtain ⟨hstride, hrest⟩ := hnested
    have hleast := leastStride_le helem (calcStridesFrom reqs elemSize (ind + 1) memShape) memShape
    unfold checkStridesFrom
    rw [Bool.and_eq_true, Bool.and_eq_true]
    refine ⟨⟨decide_eq_true (by omega), ?_⟩, ih (ind + 1) hrest⟩
    cases reqs.reqFor ind with
    | none => rfl
    | some req => exact checkStrideReq_applyStrideReq _ req

end Generated

/-- Strides that are built for compact and aligned dimensions pass the check, and keep elements
apart. -/
theorem calcStrides_satisfies (reqs : StrideReqs) (hkind : ∀ req ∈ reqs, req.kind ≠ .Fixed)
    (elemSize : ℤ) (helem : 0 < elemSize) (memShape : List ℤ) :
    checkStrides reqs (calcStrides reqs elemSize memShape) elemSize memShape = true ∧
      ∀ coords coords' : List ℤ, InBounds memShape coords → InBounds memShape coords' →
        coords ≠ coords' →
          offset (calcStrides reqs elemSize memShape) coords ≠
            offset (calcStrides reqs elemSize memShape) coords' ∧
          (offset (calcStrides reqs elemSize memShape) coords + elemSize ≤
              offset (calcStrides reqs elemSize memShape) coords' ∨
            offset (calcStrides reqs elemSize memShape) coords' + elemSize ≤
              offset (calcStrides reqs elemSize memShape) coords) := by
  have hnested : Nested elemSize (calcStrides reqs elemSize memShape) memShape :=
    nested_calcStridesFrom hkind 0 memShape
  constructor
  · exact checkStridesFrom_calcStridesFrom helem.le 0 memShape hnested
  · intro coords coords' hin hin' hne
    exact ⟨hnested.offset_ne helem hin hin' hne, hnested.disjoint helem.le hin hin' hne⟩

/-- Rows of three elements at multiples of 64 bits. -/
theorem calcStrides_satisfies_rows :
    checkStrides [.aligned 0 64 (by decide), .compact 1] [64, 8] 8 [2, 3] = true := by
  have h := calcStrides_satisfies [.aligned 0 64 (by decide), .compact 1]
    (by simp [DimStrideReq.aligned, DimStrideReq.compact]) 8 (by decide) [2, 3]
  exact h.1

-- Joining two lists of requirements on strides.
section Join

def mergeReq (merged : StrideReqs) (curReq otherReq : DimStrideReq) : Except String StrideReqs :=
  if curReq.kind = .Fixed ∧ otherReq.kind = .Fixed ∧ curReq.extraValue ≠ otherReq.extraValue then
    .error "StrideReqs::join : got fixed strides with different values"
  else if otherReq.kind = .Fixed then .ok (merged.add otherReq)
  else .ok (merged.add curReq)

/-- One of the two loops. A requirement without a partner is added as it is. -/
def mergePass (reqs partners : StrideReqs)
    (merge : StrideReqs → DimStrideReq → DimStrideReq → Except String StrideReqs)
    (merged : StrideReqs) : Except String StrideReqs :=
  reqs.foldlM (fun merged req =>
    match partners.reqFor req.memDim with
    | some partner => merge merged req partner
    | none => .ok (merged.add req)) merged

/-- Both loops merge a dimension that both operands have a requirement for. -/
def mergeBoth (reqs other : StrideReqs) : Except String StrideReqs := do
  let merged ← mergePass reqs other mergeReq []
  mergePass other reqs (fun merged otherReq curReq => mergeReq merged curReq otherReq) merged

def join (reqs other : StrideReqs) (elemSize : ℤ) (memShape : List ℤ) :
    Except String StrideReqs := do
  let merged ← mergeBoth reqs other
  let mergedStrides := merged.calcStrides elemSize memShape
  if ¬reqs.checkStrides mergedStrides elemSize memShape then
    .error "StrideReqs::join : mergedStrides doesn't satisfy original StrideReqs"
  else if ¬other.checkStrides mergedStrides elemSize memShape then
    .error "StrideReqs::join : mergedStrides doesn't satisfy original StrideReqs"
  else .ok merged

def memDims (reqs : StrideReqs) : List ℕ := reqs.map DimStrideReq.memDim

/-- Strides that satisfy both operands. -/
def Compatible (reqs other : StrideReqs) (elemSize : ℤ) (memShape : List ℤ) : Prop :=
  ∃ memStrides, reqs.checkStrides memStrides elemSize memShape = true ∧
    other.checkStrides memStrides elemSize memShape = true

/-- Joining throws for incompatible requirements, or gives at most one requirement for a
dimension, which ask for what both operands ask for. -/
def JoinsAsConjunction (reqs other : StrideReqs) (elemSize : ℤ) (memShape : List ℤ) : Prop :=
  ((∃ message, join reqs other elemSize memShape = .error message) ∧
      ¬Compatible reqs other elemSize memShape) ∨
    ∃ merged, join reqs other elemSize memShape = .ok merged ∧ (memDims merged).Nodup ∧
      ∀ memStrides, merged.checkStrides memStrides elemSize memShape = true ↔
        reqs.checkStrides memStrides elemSize memShape = true ∧
          other.checkStrides memStrides elemSize memShape = true

variable {reqs other merged : StrideReqs} {elemSize : ℤ} {memShape : List ℤ}

theorem reqFor_memDim (h : reqs.reqFor memDim = some req) : req.memDim = memDim := by
  have hfound := List.find?_some h
  simpa using hfound

theorem reqFor_isSome_iff : (reqs.reqFor memDim).isSome ↔ memDim ∈ memDims reqs := by
  simp [reqFor, memDims]

theorem reqFor_eq_none (h : memDim ∉ memDims reqs) : reqs.reqFor memDim = none := by
  rw [← reqFor_isSome_iff] at h
  simpa using h

theorem memDims_add (req : DimStrideReq) : memDims (merged.add req) =
    memDims merged ++ [req.memDim] := by
  simp [memDims, add]

theorem memDims_mergeReq {curReq otherReq : DimStrideReq} {merged' : StrideReqs}
    (hdim : curReq.memDim = otherReq.memDim) (h : mergeReq merged curReq otherReq = .ok merged') :
    memDims merged' = memDims merged ++ [curReq.memDim] := by
  unfold mergeReq at h
  split at h
  · cases h
  split at h
  · cases h
    rw [memDims_add, hdim]
  · cases h
    rw [memDims_add]

variable {merge : StrideReqs → DimStrideReq → DimStrideReq → Except String StrideReqs}

theorem memDims_mergePass {partners : StrideReqs}
    (hmerge : ∀ merged req partner merged', partner.memDim = req.memDim →
      merge merged req partner = .ok merged' → memDims merged' = memDims merged ++ [req.memDim])
    {merged' : StrideReqs} (h : mergePass reqs partners merge merged = .ok merged') :
    memDims merged' = memDims merged ++ memDims reqs := by
  unfold mergePass at h
  induction reqs generalizing merged with
  | nil =>
    cases h
    simp [memDims]
  | cons req reqs ih =>
    rw [List.foldlM_cons, bind_eq_ok] at h
    obtain ⟨next, hnext, hrest⟩ := h
    have hdims : memDims next = memDims merged ++ [req.memDim] := by
      cases hreq : partners.reqFor req.memDim with
      | none =>
        rw [hreq] at hnext
        cases hnext
        exact memDims_add req
      | some partner =>
        rw [hreq] at hnext
        exact hmerge merged req partner next (reqFor_memDim hreq) hnext
    rw [ih hrest, hdims]
    simp [memDims]

theorem memDims_mergeBoth (h : mergeBoth reqs other = .ok merged) :
    memDims merged = memDims reqs ++ memDims other := by
  obtain ⟨first, hfirst, hsecond⟩ := bind_eq_ok.mp h
  have hdims : memDims first = memDims [] ++ memDims reqs := by
    refine memDims_mergePass ?_ hfirst
    intro merged req partner merged' hdim hmerge
    exact memDims_mergeReq hdim.symm hmerge
  have hdims' : memDims merged = memDims first ++ memDims other := by
    refine memDims_mergePass ?_ hsecond
    intro merged req partner merged' hdim hmerge
    rw [← hdim]
    exact memDims_mergeReq hdim hmerge
  rw [hdims', hdims]
  rfl

theorem mergePass_of_disjoint {partners : StrideReqs}
    (h : List.Disjoint (memDims reqs) (memDims partners)) :
    mergePass reqs partners merge merged = .ok (merged ++ reqs) := by
  unfold mergePass
  induction reqs generalizing merged with
  | nil =>
    rw [List.append_nil]
    rfl
  | cons req reqs ih =>
    have hnone : partners.reqFor req.memDim = none := by
      apply reqFor_eq_none
      exact h (by simp [memDims])
    have hrest : List.Disjoint (memDims reqs) (memDims partners) :=
      List.disjoint_of_disjoint_cons_left h
    rw [List.foldlM_cons, hnone]
    change List.foldlM _ (merged.add req) reqs = _
    rw [ih hrest, add, List.append_assoc]
    rfl

section

variable (h : List.Disjoint (memDims reqs) (memDims other))
include h

theorem mergeBoth_of_disjoint : mergeBoth reqs other = .ok (reqs ++ other) := by
  unfold mergeBoth
  rw [mergePass_of_disjoint h]
  exact mergePass_of_disjoint (List.disjoint_comm.mp h)

theorem checkStridesFrom_append (ind : ℕ) (memStrides memShape : List ℤ) :
    checkStridesFrom (reqs ++ other) elemSize ind memStrides memShape = true ↔
      checkStridesFrom reqs elemSize ind memStrides memShape = true ∧
        checkStridesFrom other elemSize ind memStrides memShape = true := by
  induction memStrides generalizing ind memShape with
  | nil =>
    cases memShape with
    | nil => simp [checkStridesFrom]
    | cons _ _ => simp [checkStridesFrom]
  | cons strideVal memStrides ih =>
    cases memShape with
    | nil => simp [checkStridesFrom]
    | cons size memShape =>
      have hreq : (reqs ++ other).reqFor ind = (reqs.reqFor ind).or (other.reqFor ind) :=
        List.find?_append
      unfold checkStridesFrom
      rw [hreq]
      simp only [Bool.and_eq_true, ih]
      cases hcur : reqs.reqFor ind with
      | none =>
        tauto
      | some req =>
        have hother : other.reqFor ind = none := by
          apply reqFor_eq_none
          apply h
          rw [← reqFor_isSome_iff, hcur]
          rfl
        rw [hother, Option.some_or]
        tauto

theorem checkStrides_append (memStrides : List ℤ) :
    checkStrides (reqs ++ other) memStrides elemSize memShape = true ↔
      checkStrides reqs memStrides elemSize memShape = true ∧
        checkStrides other memStrides elemSize memShape = true :=
  checkStridesFrom_append h 0 memStrides memShape

end

theorem join_eq_ok : join reqs other elemSize memShape = .ok merged ↔
    mergeBoth reqs other = .ok merged ∧
      reqs.checkStrides (merged.calcStrides elemSize memShape) elemSize memShape = true ∧
      other.checkStrides (merged.calcStrides elemSize memShape) elemSize memShape = true := by
  unfold join
  rw [bind_eq_ok]
  constructor
  · rintro ⟨merged', hmerge, h⟩
    dsimp only at h
    split_ifs at h with hreqs hother
    · cases h
      exact ⟨hmerge, hreqs, hother⟩
  · rintro ⟨hmerge, hreqs, hother⟩
    refine ⟨merged, hmerge, ?_⟩
    rw [if_neg (not_not.mpr hreqs), if_neg (not_not.mpr hother)]

/-- Joining is a conjunction only for operands that have no dimension in common, and whose
requirements all hold of the strides that are built for them. -/
theorem joinsAsConjunction_iff (hreqs : (memDims reqs).Nodup) (hother : (memDims other).Nodup) :
    JoinsAsConjunction reqs other elemSize memShape ↔
      ¬Compatible reqs other elemSize memShape ∨
        List.Disjoint (memDims reqs) (memDims other) ∧
          checkStrides (reqs ++ other) (calcStrides (reqs ++ other) elemSize memShape) elemSize
            memShape = true := by
  constructor
  · rintro (⟨-, hincompatible⟩ | ⟨merged, hok, hnodup, -⟩)
    · exact .inl hincompatible
    · obtain ⟨hmerge, hfirst, hsecond⟩ := join_eq_ok.mp hok
      have hdisjoint : List.Disjoint (memDims reqs) (memDims other) := by
        rw [memDims_mergeBoth hmerge] at hnodup
        exact (List.nodup_append'.mp hnodup).2.2
      rw [mergeBoth_of_disjoint hdisjoint] at hmerge
      cases hmerge
      exact .inr ⟨hdisjoint, (checkStrides_append hdisjoint _).mpr ⟨hfirst, hsecond⟩⟩
  · rintro (hincompatible | ⟨hdisjoint, hcheck⟩)
    · refine .inl ⟨?_, hincompatible⟩
      cases hjoin : join reqs other elemSize memShape with
      | error message => exact ⟨message, rfl⟩
      | ok merged =>
        obtain ⟨-, hfirst, hsecond⟩ := join_eq_ok.mp hjoin
        exact absurd ⟨_, hfirst, hsecond⟩ hincompatible
    · refine .inr ⟨reqs ++ other, ?_, ?_, checkStrides_append hdisjoint⟩
      · obtain ⟨hfirst, hsecond⟩ := (checkStrides_append hdisjoint _).mp hcheck
        exact join_eq_ok.mpr ⟨mergeBoth_of_disjoint hdisjoint, hfirst, hsecond⟩
      · have happend : memDims (reqs ++ other) = memDims reqs ++ memDims other :=
          List.map_append
        rw [happend]
        exact List.nodup_append'.mpr ⟨hreqs, hother, hdisjoint⟩

/-- Rows at multiples of 64 bits, joined with a compact inner dimension. -/
theorem joinsAsConjunction_iff_rows :
    JoinsAsConjunction [.aligned 0 64 (by decide)] [.compact 1] 8 [2, 3] :=
  (joinsAsConjunction_iff (by simp [memDims]) (by simp [memDims])).mpr
    (.inr ⟨by simp [memDims, DimStrideReq.aligned, DimStrideReq.compact], by decide⟩)

/-- Two compact requirements for one dimension: the joined list holds both. -/
theorem not_joinsAsConjunction_compact :
    join [.compact 0] [.compact 0] 8 [2] = .ok [.compact 0, .compact 0] ∧
      ¬JoinsAsConjunction [.compact 0] [.compact 0] 8 [2] := by
  have hjoin : join [.compact 0] [.compact 0] 8 [2] = .ok [.compact 0, .compact 0] := by decide
  refine ⟨hjoin, ?_⟩
  rintro (⟨⟨message, herror⟩, -⟩ | ⟨merged, hok, hnodup, -⟩)
  · rw [hjoin] at herror
    cases herror
  · rw [hjoin] at hok
    cases hok
    exact absurd hnodup (by decide)

end Join

end StrideReqs

end Vpux.Core
