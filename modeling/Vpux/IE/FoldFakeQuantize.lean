import Vpux.Data.BroadcastTo
import Vpux.IE.FoldTo4DExact

/-! A FakeQuantize operation on shapes of any rank, made on shapes of rank four. -/
namespace Vpux.IE.ShapeTo4D
open Vpux.Const Data

section Model

/-- The first dimension of more than one element. -/
def getDimIdx (dims : List ℕ) : Except Fault ℕ :=
  match dims.findIdx? (1 < ·) with
  | some firstMoreThanOne => pure firstMoreThanOne
  | none => .error (.exception "The shape size is 1, should not enter this case.")

def generateDimMap (minIndex maxIndex size : ℕ) : MergeMap :=
  (if 0 < minIndex then [irange 0 minIndex] else []) ++ [[minIndex]] ++
    (if minIndex + 1 < maxIndex then [irange (minIndex + 1) maxIndex] else []) ++ [[maxIndex]] ++
    (if maxIndex + 1 < size then [irange (maxIndex + 1) size] else [])

/-- One pass of the loop that closes an item where the new shape has more than one element. -/
def closeItem (input1 : List ℕ) (state : MergeMap × List ℕ) (dims : List ℕ) : MergeMap × List ℕ :=
  let item := state.2 ++ dims
  if 1 < (select input1 dims).prod then (state.1 ++ [item], []) else (state.1, item)

/-- What is left over is added to the last item. -/
def appendToBack (mergeMapRet : MergeMap) (item : List ℕ) : Except Fault MergeMap :=
  if item.isEmpty then pure mergeMapRet
  else match mergeMapRet.getLast? with
    | some back => pure (mergeMapRet.dropLast ++ [back ++ item])
    | none => .error .overwrite

def getDimMergeMapWith3Inputs (input1 inputLow outLow : List ℕ) : Except Fault MergeMap := do
  let inDimIndex ← getDimIdx inputLow
  let outDimIndex ← getDimIdx outLow
  let mergeMapTmp :=
    if inDimIndex < outDimIndex then generateDimMap inDimIndex outDimIndex input1.length
    else generateDimMap outDimIndex inDimIndex input1.length
  let (mergeMapRet, item) := mergeMapTmp.foldl (closeItem input1) ([], [])
  let mergeMapRet ← appendToBack mergeMapRet item
  throwUnless (mergeMapRet.length ≤ 4)
    s!"Can't convert the shape to 4D, the converted shape is {mergeMapRet.length}D"
  pure mergeMapRet

/-- The shapes of a FakeQuantize operation and of its ranges. -/
structure FakeQuantizeOp where
  input : List ℕ
  inputLow : List ℕ
  inputHigh : List ℕ
  outputLow : List ℕ
  outputHigh : List ℕ
  deriving DecidableEq, Repr

def extendInputShapeTo4D (origOp : FakeQuantizeOp) : Except Fault MergeMap := do
  let inputShape := origOp.input
  let ref1ElemShape := List.replicate inputShape.length 1
  let inputLowScaleShape ← alignShapeToReferenceShapeSize inputShape.length origOp.inputLow
  let outputLowScaleShape ← alignShapeToReferenceShapeSize inputShape.length origOp.outputLow
  if inputLowScaleShape = outputLowScaleShape then
    getDimMergeMapWith2Inputs inputShape inputLowScaleShape
  else if ref1ElemShape = inputLowScaleShape then
    getDimMergeMapWith2Inputs inputShape outputLowScaleShape
  else if ref1ElemShape = outputLowScaleShape then
    getDimMergeMapWith2Inputs inputShape inputLowScaleShape
  else getDimMergeMapWith3Inputs inputShape inputLowScaleShape outputLowScaleShape

def reshapeInputWithMergeMap (inShape : List ℕ) (map : MergeMap) : Except Fault (List ℕ) :=
  if inShape.isEmpty then pure inShape else alignShapeTo4D inShape map

namespace FakeQuantizeOp

/-- Each element with the values of its ranges, by any function of the five. -/
def eval {α β : Type} (op : FakeQuantizeOp) (quantize : α → α → α → α → α → β)
    (input inputLow inputHigh outputLow outputHigh : ℕ → α) : List β :=
  (grid (op.input.map List.range)).map fun point =>
    quantize (input (rowMajor op.input point))
      (inputLow (rowMajor op.inputLow (clip op.inputLow point)))
      (inputHigh (rowMajor op.inputHigh (clip op.inputHigh point)))
      (outputLow (rowMajor op.outputLow (clip op.outputLow point)))
      (outputHigh (rowMajor op.outputHigh (clip op.outputHigh point)))

def matchAndRewrite (origOp : FakeQuantizeOp) : Except Fault FakeQuantizeOp := do
  let mergeMap ← extendInputShapeTo4D origOp
  let inputLow ← reshapeInputWithMergeMap origOp.inputLow mergeMap
  let inputHigh ← reshapeInputWithMergeMap origOp.inputHigh mergeMap
  let outputLow ← reshapeInputWithMergeMap origOp.outputLow mergeMap
  let outputHigh ← reshapeInputWithMergeMap origOp.outputHigh mergeMap
  let input ← reshapeInputWithMergeMap origOp.input mergeMap
  pure ⟨input, inputLow, inputHigh, outputLow, outputHigh⟩

/-- Its ranges are broadcast to its input. -/
structure Aligned (op : FakeQuantizeOp) : Prop where
  input : ∀ a ∈ op.input, 0 < a
  inputLow : BroadcastsTo op.inputLow op.input
  outputLow : BroadcastsTo op.outputLow op.input
  inputHigh : op.inputHigh = op.inputLow
  outputHigh : op.outputHigh = op.outputLow

end FakeQuantizeOp

end Model

-- The items that the loop closes: what was merged, with dimensions of one element around it.
variable {dims : List ℕ}

open List

section CloseItem

variable {s : List ℕ} {tmp : MergeMap}

/-- The groups of the first list are made of those of the second one, and of dimensions of one
element. -/
structure Gathers (s : List ℕ) (groups tmp : MergeMap) : Prop where
  flatten : groups.flatten = tmp.flatten
  core : ∀ g ∈ groups, ∃ core ∈ tmp, ∀ d ∈ g, d ∈ core ∨ s.getD d 0 = 1
  subset : ∀ core ∈ tmp, core ≠ [] → ∃ g ∈ groups, core ⊆ g

/-- What the loop has after some of the groups. -/
structure Closed (s : List ℕ) (tmp : MergeMap) (state : MergeMap × List ℕ) : Prop where
  flatten : state.1.flatten ++ state.2 = tmp.flatten
  ones : ∀ d ∈ state.2, s.getD d 0 = 1
  core : ∀ g ∈ state.1, ∃ core ∈ tmp, ∀ d ∈ g, d ∈ core ∨ s.getD d 0 = 1
  subset : ∀ core ∈ tmp, (∃ g ∈ state.1, core ⊆ g) ∨ core ⊆ state.2

theorem ones_of_prod_le_one (hpos : ∀ d ∈ dims, 0 < s.getD d 0) (h : ¬1 < (select s dims).prod) :
    ∀ d ∈ dims, s.getD d 0 = 1 := by
  intro d hd
  have hprod : 0 < (select s dims).prod := prod_pos_of_mem hpos
  have hdvd : s.getD d 0 ∣ (select s dims).prod := dvd_prod (mem_map_of_mem hd)
  have := Nat.le_of_dvd hprod hdvd
  have := hpos d hd
  omega

variable {state : MergeMap × List ℕ}

theorem Closed.closeItem (h : Closed s tmp state) (hpos : ∀ d ∈ dims, 0 < s.getD d 0) :
    Closed s (tmp ++ [dims]) (closeItem s state dims) := by
  have hflatten : (tmp ++ [dims]).flatten = state.1.flatten ++ (state.2 ++ dims) := by
    rw [flatten_append, flatten_singleton, ← h.flatten, append_assoc]
  have hcore : ∀ g ∈ state.1, ∃ core ∈ tmp ++ [dims], ∀ d ∈ g, d ∈ core ∨ s.getD d 0 = 1 := by
    intro g hg
    obtain ⟨core, hmem, hall⟩ := h.core g hg
    exact ⟨core, mem_append_left _ hmem, hall⟩
  rw [ShapeTo4D.closeItem]
  split_ifs with hlarge
  · constructor
    · rw [hflatten, flatten_append, flatten_singleton, append_nil]
    · exact fun d hd => absurd hd (not_mem_nil)
    · intro g hg
      rcases mem_append.mp hg with hg | hg
      · exact hcore g hg
      · obtain rfl := mem_singleton.mp hg
        refine ⟨dims, by simp, fun d hd => ?_⟩
        exact (mem_append.mp hd).symm.imp_right (h.ones d)
    · intro core hmem
      left
      rcases mem_append.mp hmem with hmem | hmem
      · obtain ⟨g, hg, hsub⟩ | hsub := h.subset core hmem
        · exact ⟨g, mem_append_left _ hg, hsub⟩
        · exact ⟨state.2 ++ dims, by simp, List.Subset.trans hsub (subset_append_left _ _)⟩
      · obtain rfl := mem_singleton.mp hmem
        exact ⟨state.2 ++ core, by simp, subset_append_right _ _⟩
  · constructor
    · exact hflatten.symm
    · intro d hd
      exact (mem_append.mp hd).elim (h.ones d) (ones_of_prod_le_one hpos hlarge d)
    · exact hcore
    · intro core hmem
      rcases mem_append.mp hmem with hmem | hmem
      · exact (h.subset core hmem).imp_right fun hsub =>
          List.Subset.trans hsub (subset_append_left _ _)
      · obtain rfl := mem_singleton.mp hmem
        exact Or.inr (subset_append_right _ _)

theorem closed_foldl (hpos : ∀ dims ∈ tmp, ∀ d ∈ dims, 0 < s.getD d 0) :
    Closed s tmp (tmp.foldl (closeItem s) ([], [])) := by
  induction tmp using List.reverseRecOn with
  | nil => exact ⟨rfl, by simp, by simp, by simp⟩
  | append_singleton tmp dims ih =>
    rw [List.foldl_append]
    exact (ih fun g hg => hpos g (mem_append_left _ hg)).closeItem (hpos dims (by simp))

theorem Closed.gathers {groups : MergeMap} (h : Closed s tmp (groups, [])) :
    Gathers s groups tmp := by
  constructor
  · rw [← h.flatten, append_nil]
  · exact h.core
  · intro core hmem hne
    exact (h.subset core hmem).resolve_right fun hsub => hne (subset_nil.mp hsub)

theorem Closed.gathers_append {init : MergeMap} {back item : List ℕ}
    (h : Closed s tmp (init ++ [back], item)) : Gathers s (init ++ [back ++ item]) tmp := by
  constructor
  · rw [← h.flatten, flatten_append, flatten_append, flatten_singleton,
      flatten_singleton, append_assoc]
  · intro g hg
    rcases mem_append.mp hg with hg | hg
    · exact h.core g (mem_append_left _ hg)
    · obtain rfl := mem_singleton.mp hg
      obtain ⟨core, hmem, hall⟩ := h.core back (by simp)
      exact ⟨core, hmem, fun d hd => (mem_append.mp hd).elim (hall d) fun hd =>
        Or.inr (h.ones d hd)⟩
  · intro core hmem _
    obtain ⟨g, hg, hsub⟩ | hsub := h.subset core hmem
    · rcases mem_append.mp hg with hg | hg
      · exact ⟨g, mem_append_left _ hg, hsub⟩
      · obtain rfl := mem_singleton.mp hg
        exact ⟨g ++ item, by simp, List.Subset.trans hsub (subset_append_left _ _)⟩
    · exact ⟨back ++ item, by simp, List.Subset.trans hsub (subset_append_right _ _)⟩

theorem Closed.appendToBack {groups : MergeMap} (h : Closed s tmp state)
    (hok : appendToBack state.1 state.2 = .ok groups) : Gathers s groups tmp := by
  obtain ⟨ret, item⟩ := state
  rw [ShapeTo4D.appendToBack] at hok
  split_ifs at hok with hempty
  · obtain rfl := Except.ok.inj hok
    obtain rfl := List.isEmpty_iff.mp hempty
    exact h.gathers
  · cases hlast : ret.getLast? with
    | none => simp [hlast] at hok
    | some back =>
      rw [hlast] at hok
      obtain rfl := Except.ok.inj hok
      obtain ⟨init, rfl⟩ := getLast?_eq_some_iff.mp hlast
      rw [dropLast_concat]
      exact h.gathers_append

end CloseItem

section ThreeInputs

variable {s a b : List ℕ} {groups : MergeMap}

theorem mem_irange {first last d : ℕ} : d ∈ irange first last ↔ first ≤ d ∧ d < last := by
  rw [irange, mem_range'_1]
  omega

theorem irange_append {i j k : ℕ} (hij : i ≤ j) (hjk : j ≤ k) :
    irange i j ++ irange j k = irange i k := by
  have happend := range'_append_1 (s := i) (m := j - i) (n := k - j)
  rw [Nat.add_sub_cancel' hij, show j - i + (k - j) = k - i by omega] at happend
  exact happend

theorem irange_succ (i : ℕ) : irange i (i + 1) = [i] := by
  rw [irange, Nat.add_sub_cancel_left]
  rfl

theorem flatten_generateDimMap (m M n : ℕ) : (generateDimMap m M n).flatten =
    irange 0 m ++ ([m] ++ (irange (m + 1) M ++ ([M] ++ irange (M + 1) n))) := by
  have hif : ∀ i j, (if i < j then [irange i j] else []).flatten = irange i j := by
    intro i j
    split_ifs with hlt
    · exact flatten_singleton
    · rw [irange, Nat.sub_eq_zero_of_le (Nat.le_of_not_lt hlt)]
      rfl
  simp only [generateDimMap, flatten_append, hif, flatten_singleton, append_assoc]

theorem flatten_generateDimMap_of_lt {m M n : ℕ} (hlt : m < M) (hn : M < n) :
    (generateDimMap m M n).flatten = List.range n := by
  rw [flatten_generateDimMap, ← irange_succ M, irange_append (Nat.le_succ M) hn,
    irange_append hlt (Nat.le_of_lt hn), ← irange_succ m, irange_append (Nat.le_succ m) (by omega),
    irange_append (Nat.zero_le m) (by omega), irange, range_eq_range', Nat.sub_zero]

theorem mem_generateDimMap {m M n : ℕ} (h : dims ∈ generateDimMap m M n) :
    dims = irange 0 m ∨ dims = [m] ∨ dims = irange (m + 1) M ∨ dims = [M] ∨
      dims = irange (M + 1) n := by
  simp only [generateDimMap, mem_append, mem_singleton] at h
  split_ifs at h <;> simp at h <;> tauto

theorem mem_of_separate {m M n : ℕ} (h : dims ∈ [irange (m + 1) M, irange (M + 1) n])
    (hne : dims ≠ []) :
    dims ∈ generateDimMap m M n := by
  have hlt : ∀ i j, irange i j ≠ [] → i < j := by
    intro i j hij
    by_contra hge
    rw [irange, Nat.sub_eq_zero_of_le (Nat.le_of_not_lt hge)] at hij
    exact hij rfl
  simp only [mem_cons, not_mem_nil, or_false] at h
  obtain rfl | rfl := h
  · simp [generateDimMap, hlt _ _ hne]
  · simp [generateDimMap, hlt _ _ hne]

/-- Ranges on the first dimension of each, and besides, each with equal dimensions throughout or
with one element, over what is between these dimensions and over what is behind them. -/
def Separated (s a b : List ℕ) : Prop :=
  let i := a.findIdx (1 < ·)
  let j := b.findIdx (1 < ·)
  i ≠ j ∧ ∀ dims ∈ [irange (min i j + 1) (max i j), irange (max i j + 1) s.length],
    OneKind s a dims ∧ OneKind s b dims

instance (s a b : List ℕ) : Decidable (Separated s a b) := inferInstanceAs (Decidable (_ ∧ _))

theorem getDimIdx_eq_ok {i : ℕ} (h : getDimIdx dims = .ok i) :
    i = dims.findIdx (1 < ·) ∧ i < dims.length ∧ 1 < dims.getD i 0 := by
  rw [getDimIdx] at h
  cases hfind : dims.findIdx? (1 < ·) with
  | none => simp [hfind] at h
  | some first =>
    rw [hfind] at h
    obtain rfl := Except.ok.inj h
    obtain ⟨hlt, hlarge, -⟩ := findIdx?_eq_some_iff_getElem.mp hfind
    refine ⟨?_, hlt, ?_⟩
    · rw [findIdx?_eq_some_iff_findIdx_eq] at hfind
      exact hfind.2.symm
    · rw [getD_eq_getElem _ _ hlt]
      exact of_decide_eq_true hlarge

theorem getDimMergeMapWith3Inputs_spec (hs : ∀ x ∈ s, 0 < x) (ha : a.length = s.length)
    (hb : b.length = s.length) (h : getDimMergeMapWith3Inputs s a b = .ok groups) :
    groups.length ≤ 4 ∧ 1 < a.getD (a.findIdx (1 < ·)) 0 ∧ 1 < b.getD (b.findIdx (1 < ·)) 0 ∧
      Gathers s groups (generateDimMap (min (a.findIdx (1 < ·)) (b.findIdx (1 < ·)))
        (max (a.findIdx (1 < ·)) (b.findIdx (1 < ·))) s.length) := by
  obtain ⟨i, hi, h⟩ := bind_eq_ok.mp h
  obtain ⟨j, hj, h⟩ := bind_eq_ok.mp h
  obtain ⟨rfl, hilt, hi⟩ := getDimIdx_eq_ok hi
  obtain ⟨rfl, hjlt, hj⟩ := getDimIdx_eq_ok hj
  generalize a.findIdx (1 < ·) = i at *
  generalize b.findIdx (1 < ·) = j at *
  have htmp : (if i < j then generateDimMap i j s.length else generateDimMap j i s.length) =
      generateDimMap (min i j) (max i j) s.length := by
    split_ifs with hlt
    · rw [min_eq_left hlt.le, max_eq_right hlt.le]
    · rw [min_eq_right (Nat.le_of_not_lt hlt), max_eq_left (Nat.le_of_not_lt hlt)]
  have hpos : ∀ dims ∈ generateDimMap (min i j) (max i j) s.length, ∀ d ∈ dims, 0 < s.getD d 0 := by
    intro dims hdims d hd
    refine getD_pos hs ?_
    obtain rfl | rfl | rfl | rfl | rfl := mem_generateDimMap hdims <;>
      simp only [mem_irange, mem_singleton] at hd <;> omega
  have hclosed := closed_foldl hpos
  simp only [htmp] at h
  obtain ⟨ret, hret, h⟩ := bind_eq_ok.mp h
  obtain ⟨u, hle, h⟩ := bind_eq_ok.mp h
  obtain rfl := Except.ok.inj h
  exact ⟨throwUnless_eq_ok.mp hle, hi, hj, hclosed.appendToBack hret⟩

/-- The groups hold the dimensions of more than one element, each once and in order. -/
structure Covers (s : List ℕ) (groups : MergeMap) : Prop where
  inside : ∀ d ∈ groups.flatten, d < s.length
  dims : groups.flatten.filter (1 < s.getD · 0) = (List.range s.length).filter (1 < s.getD · 0)

theorem covers_iff {t : List ℕ} (h : BroadcastsTo t s) : Covers s groups ↔ Cover s t groups := by
  have hfilter : (fun d => decide (Matters s t d)) = fun d => decide (1 < s.getD d 0) := by
    funext d
    exact decide_eq_decide.mpr (h.matters_iff d)
  constructor
  · rintro ⟨hinside, hdims⟩
    exact ⟨hinside, by rwa [hfilter]⟩
  · rintro ⟨hinside, hdims⟩
    exact ⟨hinside, by rwa [hfilter] at hdims⟩

theorem oneKind_before {t : List ℕ} (h : BroadcastsTo t s) (hs : ∀ x ∈ s, 0 < x) {k : ℕ}
    (hk : k ≤ t.findIdx (1 < ·)) : OneKind s t (irange 0 k) := by
  right
  right
  intro d hd
  obtain ⟨-, hd⟩ := mem_irange.mp hd
  have hlt : d < t.length := hd.trans_le (hk.trans findIdx_le_length)
  have hnot := not_of_lt_findIdx (hd.trans_le hk)
  have hpos := h.pos hs _ (getElem_mem hlt)
  rw [getD_eq_getElem _ _ hlt]
  simp only [decide_eq_false_iff_not] at hnot
  omega

theorem covers_and_oneKind_iff (hs : ∀ x ∈ s, 0 < x) (ha : BroadcastsTo a s) (hb : BroadcastsTo b s)
    (h : getDimMergeMapWith3Inputs s a b = .ok groups) :
    (Covers s groups ∧ ∀ dims ∈ groups, OneKind s a dims ∧ OneKind s b dims) ↔ Separated s a b := by
  obtain ⟨-, hi, hj, hgathers⟩ := getDimMergeMapWith3Inputs_spec hs ha.length_eq.symm
      hb.length_eq.symm h
  have hia := ha.getD (a.findIdx (1 < ·))
  have hjb := hb.getD (b.findIdx (1 < ·))
  have hlt : ∀ d, 1 < s.getD d 0 → d < s.length := by
    intro d hd
    by_contra hge
    rw [getD_eq_default _ _ (Nat.le_of_not_lt hge)] at hd
    omega
  have hilt := hlt (a.findIdx (1 < ·)) (by omega)
  have hjlt := hlt (b.findIdx (1 < ·)) (by omega)
  constructor
  · rintro ⟨hcovers, hone⟩
    constructor
    · intro heq
      -- the same dimension makes two groups
      have hnodup : (groups.flatten.filter (1 < s.getD · 0)).Nodup := by
        rw [hcovers.dims]
        exact nodup_range.filter _
      have hcount := nodup_iff_count_le_one.mp hnodup (a.findIdx (1 < ·))
      rw [count_filter (p := fun d => decide (1 < s.getD d 0)) (decide_eq_true (by omega)),
        hgathers.flatten, ← heq, min_self, max_self,
        flatten_generateDimMap] at hcount
      simp only [count_append, count_singleton_self] at hcount
      omega
    · intro dims hdims
      by_cases hempty : dims = []
      · subst hempty
        exact ⟨Or.inl (by simp), Or.inl (by simp)⟩
      · obtain ⟨g, hg, hsub⟩ := hgathers.subset dims (mem_of_separate hdims hempty) hempty
        exact ⟨(hone g hg).1.subset hsub, (hone g hg).2.subset hsub⟩
  · rintro ⟨hne, hkinds⟩
    simp only [forall_mem_cons, not_mem_nil, false_implies, implies_true, and_true] at hkinds
    have hflatten := hgathers.flatten.trans
      (flatten_generateDimMap_of_lt (min_lt_max.mpr hne) (max_lt hilt hjlt))
    refine ⟨⟨fun d hd => ?_, by rw [hflatten]⟩, fun g hg => ?_⟩
    · rw [hflatten] at hd
      exact mem_range.mp hd
    · obtain ⟨core, hcore, hall⟩ := hgathers.core g hg
      have hkind : OneKind s a core ∧ OneKind s b core := by
        obtain rfl | rfl | rfl | rfl | rfl := mem_generateDimMap hcore
        · exact ⟨oneKind_before ha hs (min_le_left _ _), oneKind_before hb hs (min_le_right _ _)⟩
        · exact ⟨oneKind_singleton ha.broadcasts _, oneKind_singleton hb.broadcasts _⟩
        · exact hkinds.1
        · exact ⟨oneKind_singleton ha.broadcasts _, oneKind_singleton hb.broadcasts _⟩
        · exact hkinds.2
      exact ⟨ha.oneKind_of_core hkind.1 hall, hb.oneKind_of_core hkind.2 hall⟩

end ThreeInputs

section Ranges

variable {s t : List ℕ} {groups : MergeMap}

theorem getDimMergeMapWith2Inputs_spec (hs : ∀ x ∈ s, 0 < x) (ht : BroadcastsTo t s) (hne : s ≠ [])
    (h : getDimMergeMapWith2Inputs s t = .ok groups) : groups.length ≤ 4 ∧
      ((Covers s groups ∧ ∀ dims ∈ groups, OneKind s t dims) ↔ Mergeable s t) := by
  have hshapes : maxShape s t = s ∧ planeShape s t = t := by
    obtain hlt | rfl := ht.prod_lt_or_eq hs
    · exact ⟨if_pos hlt, if_pos hlt⟩
    · exact ⟨ite_self _, ite_self _⟩
  have hsettles := settles_of_ok (by rwa [hshapes.1]) h
  rw [hshapes.1, hshapes.2] at hsettles
  have hle : t.prod ≤ s.prod := (ht.prod_lt_or_eq hs).elim Nat.le_of_lt fun heq => by rw [heq]
  refine ⟨hsettles.length_le, ?_⟩
  rw [covers_iff ht]
  constructor
  · rintro ⟨hcover, hone⟩
    exact mergeable_of_dims ht.broadcasts hs (ht.pos hs) hne hsettles hcover.dims hone
  · intro hmergeable
    have hfoldable := foldable_of_mergeable ht.broadcasts hs (ht.pos hs) hle hsettles hmergeable
    exact ⟨hfoldable.cover, hfoldable.oneKind⟩

theorem oneKind_ones (s : List ℕ) {n : ℕ} (h : ∀ d ∈ dims, d < n) :
    OneKind s (List.replicate n 1) dims := by
  right
  right
  intro d hd
  rw [getD_eq_getElem _ _ (by rw [length_replicate]; exact h d hd), getElem_replicate]

/-- When the merged dimensions keep both ranges: one pair of shapes decides, or the three do. -/
def FoldsRanges (op : FakeQuantizeOp) : Prop :=
  let ref1ElemShape := List.replicate op.input.length 1
  if op.inputLow = op.outputLow then Mergeable op.input op.inputLow
  else if ref1ElemShape = op.inputLow then Mergeable op.input op.outputLow
  else if ref1ElemShape = op.outputLow then Mergeable op.input op.inputLow
  else Separated op.input op.inputLow op.outputLow

theorem extendInputShapeTo4D_spec {op : FakeQuantizeOp} (h : op.Aligned) (hne : op.input ≠ [])
    (hmap : extendInputShapeTo4D op = .ok groups) : groups.length ≤ 4 ∧
      ((Covers op.input groups ∧
        ∀ dims ∈ groups, OneKind op.input op.inputLow dims ∧ OneKind op.input op.outputLow dims) ↔
        FoldsRanges op) := by
  have halign : ∀ {t : List ℕ}, BroadcastsTo t op.input →
      alignShapeToReferenceShapeSize op.input.length t = .ok t := by
    intro t ht
    rw [alignShapeToReferenceShapeSize, ht.length_eq, throwUnless, if_pos le_rfl, Nat.sub_self]
    rfl
  rw [extendInputShapeTo4D, halign h.inputLow, halign h.outputLow] at hmap
  simp only [bind, Except.bind] at hmap
  rw [FoldsRanges]
  have hinside : Covers op.input groups → ∀ dims ∈ groups, ∀ d ∈ dims, d < op.input.length :=
    fun hcovers dims hdims d hd => hcovers.inside d (mem_flatten_of_mem hdims hd)
  split_ifs at hmap ⊢ with hsame hin hout
  · rw [← hsame]
    simp only [and_self]
    exact getDimMergeMapWith2Inputs_spec h.input h.inputLow hne hmap
  · obtain ⟨hle, hiff⟩ := getDimMergeMapWith2Inputs_spec h.input h.outputLow hne hmap
    refine ⟨hle, hiff.symm.trans ?_ |>.symm⟩
    rw [← hin]
    exact and_congr_right fun hcovers => forall₂_congr fun dims hdims =>
      (and_iff_right (oneKind_ones op.input (hinside hcovers dims hdims))).symm
  · obtain ⟨hle, hiff⟩ := getDimMergeMapWith2Inputs_spec h.input h.inputLow hne hmap
    refine ⟨hle, hiff.symm.trans ?_ |>.symm⟩
    rw [← hout]
    exact and_congr_right fun hcovers => forall₂_congr fun dims hdims =>
      (and_iff_left (oneKind_ones op.input (hinside hcovers dims hdims))).symm
  · have hspec := getDimMergeMapWith3Inputs_spec h.input h.inputLow.length_eq.symm
      h.outputLow.length_eq.symm hmap
    exact ⟨hspec.1, covers_and_oneKind_iff h.input h.inputLow h.outputLow hmap⟩

end Ranges

section Convert

variable {s t : List ℕ} {groups : MergeMap}

/-- The converted operation is the original one on shapes of rank four: the map holds what matters,
and each element meets the same values of its ranges. -/
structure Preserves (op op' : FakeQuantizeOp) (map : MergeMap) : Prop where
  covers : Covers op.input map
  input : op'.input.prod = op.input.prod
  inputLow : op'.inputLow.prod = op.inputLow.prod ∧ BroadcastsTo op'.inputLow op'.input
  inputHigh : op'.inputHigh.prod = op.inputHigh.prod ∧ BroadcastsTo op'.inputHigh op'.input
  outputLow : op'.outputLow.prod = op.outputLow.prod ∧ BroadcastsTo op'.outputLow op'.input
  outputHigh : op'.outputHigh.prod = op.outputHigh.prod ∧ BroadcastsTo op'.outputHigh op'.input
  values : ∀ (α β : Type) (quantize : α → α → α → α → α → β) (x il ih ol oh : ℕ → α),
    op'.eval quantize x il ih ol oh = op.eval quantize x il ih ol oh

/-- The positions of the elements, each with the position of its value in a range. -/
def met (s t : List ℕ) : List (ℕ × ℕ) :=
  (grid (s.map List.range)).map fun point => (rowMajor s point, rowMajor t (clip t point))

theorem elementwise_eq_met {α β γ : Type} (h : BroadcastsTo t s) (hs : ∀ a ∈ s, 0 < a)
    (f : α → β → γ) (x : ℕ → α) (y : ℕ → β) :
    elementwise f s t x y = (met s t).map fun p => f (x p.1) (y p.2) := by
  rw [h.elementwise_eq hs, met, map_map]
  rfl

theorem eval_eq_met {α β : Type} {op : FakeQuantizeOp} (hin : op.inputHigh = op.inputLow)
    (hout : op.outputHigh = op.outputLow) (quantize : α → α → α → α → α → β)
    (x il ih ol oh : ℕ → α) : op.eval quantize x il ih ol oh =
      List.zipWith (fun p q => quantize (x p.1) (il p.2) (ih p.2) (ol q.2) (oh q.2))
        (met op.input op.inputLow) (met op.input op.outputLow) := by
  rw [FakeQuantizeOp.eval, hin, hout, met, met, zipWith_map, zipWith_self]

/-- The operation on the shapes with one dimension for each group. -/
def FakeQuantizeOp.folded (op : FakeQuantizeOp) (map : MergeMap) : FakeQuantizeOp where
  input := aligned op.input map
  inputLow := aligned op.inputLow map
  inputHigh := aligned op.inputHigh map
  outputLow := aligned op.outputLow map
  outputHigh := aligned op.outputHigh map

theorem matchAndRewrite_eq {op : FakeQuantizeOp} (h : op.Aligned) (hne : op.input ≠ [])
    (hmap : extendInputShapeTo4D op = .ok groups) (hle : groups.length ≤ 4) :
    op.matchAndRewrite = .ok (op.folded groups) := by
  have hreshape : ∀ {u : List ℕ}, op.input.length = u.length →
      reshapeInputWithMergeMap u groups = .ok (aligned u groups) := by
    intro u hu
    rw [reshapeInputWithMergeMap, if_neg, alignShapeTo4D_eq u hle]
    rw [List.isEmpty_iff]
    rintro rfl
    exact hne (length_eq_zero_iff.mp hu)
  simp only [FakeQuantizeOp.matchAndRewrite, hmap, h.inputHigh, h.outputHigh, hreshape rfl,
    hreshape h.inputLow.length_eq, hreshape h.outputLow.length_eq, bind, Except.bind, pure,
    Except.pure, FakeQuantizeOp.folded]

theorem aligned_pos (hs : ∀ a ∈ s, 0 < a) (h : Covers s groups) : ∀ a ∈ aligned s groups, 0 <
    a := by
  intro a ha
  rcases mem_append.mp ha with ha | ha
  · rw [eq_of_mem_replicate ha]
    exact Nat.one_pos
  · obtain ⟨dims, hdims, rfl⟩ := mem_map.mp ha
    exact prod_pos_of_mem fun d hd => getD_pos hs (h.inside d (mem_flatten_of_mem hdims hd))

theorem oneKind_iff_met (hs : ∀ a ∈ s, 0 < a) (ht : BroadcastsTo t s) (h : Covers s groups) :
    (∀ dims ∈ groups, OneKind s t dims) ↔ (aligned s groups).prod = s.prod ∧
      (aligned t groups).prod = t.prod ∧ BroadcastsTo (aligned t groups) (aligned s groups) ∧
      met (aligned s groups) (aligned t groups) = met s t := by
  have hcover := (covers_iff ht).mp h
  have hpos := aligned_pos hs h
  constructor
  · intro hone
    have hfolds := hcover.folds hs (ht.pos hs) ht.length_eq hone (4 - groups.length)
    have hrange : BroadcastsTo (aligned t groups) (aligned s groups) := ht.groupShape hone _
    refine ⟨hfolds.sizes.1, hfolds.sizes.2, hrange, ?_⟩
    have hresult := hfolds.result ℕ ℕ (ℕ × ℕ) Prod.mk id id
    rw [ht.elementwise_eq hs] at hresult
    exact (hrange.elementwise_eq hpos Prod.mk id id).symm.trans hresult
  · rintro ⟨hsize, hsize', hrange, hmet⟩
    apply Folds.oneKind hs (ht.pos hs) ht.length_eq (k := 4 - groups.length)
    refine ⟨fun dims hdims d hd => hcover.inside d (mem_flatten_of_mem hdims hd), hcover.dims,
      ⟨hsize, hsize'⟩, hrange.broadcasts, ?_⟩
    intro α β γ f x y
    rw [elementwise_eq_met ht hs, ← hmet]
    exact elementwise_eq_met hrange hpos f x y

theorem preserves_folded_iff {op : FakeQuantizeOp} (h : op.Aligned) :
    Preserves op (op.folded groups) groups ↔ Covers op.input groups ∧
      ∀ dims ∈ groups, OneKind op.input op.inputLow dims ∧ OneKind op.input op.outputLow dims := by
  have hin : (op.folded groups).inputHigh = (op.folded groups).inputLow :=
    congrArg (aligned · groups) h.inputHigh
  have hout : (op.folded groups).outputHigh = (op.folded groups).outputLow :=
    congrArg (aligned · groups) h.outputHigh
  constructor
  · intro hp
    have hmet := hp.values ℕ (ℕ × ℕ) (fun x il _ _ _ => (x, il)) id id id id id
    have hmet' := hp.values ℕ (ℕ × ℕ) (fun x _ _ ol _ => (x, ol)) id id id id id
    have hlow := (oneKind_iff_met h.input h.inputLow hp.covers).mpr
      ⟨hp.input, hp.inputLow.1, hp.inputLow.2, hmet⟩
    have hlow' := (oneKind_iff_met h.input h.outputLow hp.covers).mpr
      ⟨hp.input, hp.outputLow.1, hp.outputLow.2, hmet'⟩
    exact ⟨hp.covers, fun dims hdims => ⟨hlow dims hdims, hlow' dims hdims⟩⟩
  · rintro ⟨hcovers, hone⟩
    obtain ⟨hsize, hlow, hrange, hmet⟩ :=
      (oneKind_iff_met h.input h.inputLow hcovers).mp fun dims hdims => (hone dims hdims).1
    obtain ⟨-, hlow', hrange', hmet'⟩ :=
      (oneKind_iff_met h.input h.outputLow hcovers).mp fun dims hdims => (hone dims hdims).2
    refine ⟨hcovers, hsize, ⟨hlow, hrange⟩, ?_, ⟨hlow', hrange'⟩, ?_, ?_⟩
    · rw [hin, h.inputHigh]
      exact ⟨hlow, hrange⟩
    · rw [hout, h.outputHigh]
      exact ⟨hlow', hrange'⟩
    · intro α β quantize x il ih ol oh
      rw [eval_eq_met hin hout, eval_eq_met h.inputHigh h.outputHigh, ← hmet, ← hmet']
      rfl

/-- The fold keeps the ranges exactly when the merged dimensions do: the search for a map of three
shapes looks at the first dimension of each range only. -/
theorem FakeQuantizeOp.foldPreserves_iff {op : FakeQuantizeOp} (h : op.Aligned)
    (hmap : extendInputShapeTo4D op = .ok groups) :
    (∃ op', op.matchAndRewrite = .ok op' ∧ Preserves op op' groups) ↔ FoldsRanges op := by
  by_cases hne : op.input = []
  · obtain ⟨input, inputLow, inputHigh, outputLow, outputHigh⟩ := op
    obtain ⟨-, hlow, hlow', hhigh, hhigh'⟩ := h
    simp only at hne hlow hlow' hhigh hhigh'
    subst hne hhigh hhigh'
    obtain rfl := List.forall₂_nil_right_iff.mp hlow
    obtain rfl := List.forall₂_nil_right_iff.mp hlow'
    obtain rfl := Except.ok.inj hmap
    have hrange : BroadcastsTo [] [] := .nil
    refine iff_of_true ⟨⟨[], [], [], [], []⟩, rfl, ⟨by decide, by decide⟩, rfl, ⟨rfl, hrange⟩,
      ⟨rfl, hrange⟩, ⟨rfl, hrange⟩, ⟨rfl, hrange⟩, fun _ _ _ _ _ _ _ _ => rfl⟩ ?_
    rw [FoldsRanges, if_pos rfl]
    exact Or.inl rfl
  · obtain ⟨hle, hiff⟩ := extendInputShapeTo4D_spec h hne hmap
    rw [← hiff, ← preserves_folded_iff h, matchAndRewrite_eq h hne hmap hle]
    constructor
    · rintro ⟨op', hop', hp⟩
      obtain rfl := Except.ok.inj hop'
      exact hp
    · exact fun hp => ⟨_, rfl, hp⟩

/-- The ranges of the source's example. -/
theorem FakeQuantizeOp.preserves_example :
    let op : FakeQuantizeOp :=
      ⟨[2, 3, 4, 5, 6], [1, 3, 1, 1, 1], [1, 3, 1, 1, 1], [1, 1, 4, 1, 1], [1, 1, 4, 1, 1]⟩
    ∃ op', op.matchAndRewrite = .ok op' ∧ Preserves op op' [[0], [1], [2], [3, 4]] := by
  intro op
  have haligned : op.Aligned := ⟨by decide, by decide, by decide, rfl, rfl⟩
  have hseparated : FoldsRanges op := by
    rw [FoldsRanges, if_neg (by decide), if_neg (by decide), if_neg (by decide)]
    decide
  exact (FakeQuantizeOp.foldPreserves_iff haligned rfl).mpr hseparated

/-- Both ranges begin at the second dimension, which the map then holds twice. -/
theorem FakeQuantizeOp.not_preserves_sameFirst :
    let op : FakeQuantizeOp :=
      ⟨[2, 3, 4, 5, 6], [1, 3, 1, 1, 1], [1, 3, 1, 1, 1], [1, 3, 4, 1, 1], [1, 3, 4, 1, 1]⟩
    op.Aligned ∧ extendInputShapeTo4D op = .ok [[0], [1], [1], [2, 3, 4]] ∧
      ¬∃ op', op.matchAndRewrite = .ok op' ∧ Preserves op op' [[0], [1], [1], [2, 3, 4]] := by
  intro op
  refine ⟨⟨by decide, by decide, by decide, rfl, rfl⟩, rfl, ?_⟩
  rintro ⟨op', -, hp⟩
  exact absurd hp.covers.dims (by decide)

end Convert

end Vpux.IE.ShapeTo4D
