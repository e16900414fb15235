import Mathlib.Data.List.Sort
import Vpux.IE.ReassociationMap

/-! The layouts of the results of operations that only change the shape. -/
namespace Vpux.VPU
open Data Vpux.Const IE

def fromPermutation (perm : List ℕ) : Except Stop DimsOrder :=
  (DimsOrder.fromPermutation perm).mapError .fault

/-- The output dims pushed so far and the last input dim visited. -/
structure Walk where
  perm : List ℕ
  prev : Option ℕ

def pushOutDim (p : ℕ) (s : Walk) (outDim : ℕ) : Except Stop Walk :=
  if s.perm.getLast? = some outDim then
    match s.prev with
    | none => .error (.fault .overread)
    | some prev => if prev > p then .error .failure else .ok s
  else .ok { s with perm := s.perm ++ [outDim] }

def visitInDim (dimMapping : List (List ℕ)) (s : Walk) (p : ℕ) : Except Stop Walk :=
  match dimMapping[p]? with
  | none => .error (.fault .overread)
  | some outputDims => do
    let s ← outputDims.foldlM (pushOutDim p) s
    .ok { s with prev := some p }

def inferAffineReshapeOutputLayout (inPerm : DimsOrder) (dimMapping : List (List ℕ)) :
    Except Stop DimsOrder := do
  let s ← inPerm.toPermutation.foldlM (visitInDim dimMapping) ⟨[], none⟩
  -- The duplicates are found by sorting a copy.
  if s.perm.Nodup then fromPermutation s.perm else .error .failure

def squeezedAxes (axesVec inShape : List ℕ) : List ℕ :=
  if axesVec = [] then (List.range inShape.length).filter fun d => inShape.getD d 0 = 1
  else axesVec

/-- A dimension without the squeezed axes before it. -/
def squeezeDim (axes : List ℕ) (p : ℕ) : ℕ :=
  axes.foldl (fun dim squeezeAxis => if squeezeAxis < p then dim - 1 else dim) p

def inferSqueezeOutputLayout (inPerm : DimsOrder) (axesVec inShape : List ℕ) :
    Except Stop DimsOrder :=
  let axes := squeezedAxes axesVec inShape
  fromPermutation ((inPerm.toPermutation.filter (· ∉ axes)).map (squeezeDim axes))

/-- The axes that come right before an input dim, and the dim itself. -/
def unsqueezeDim : List ℕ → ℕ → List ℕ
  | [], dim => [dim]
  | unsqueezedAxis :: axes, dim =>
    if unsqueezedAxis < dim then unsqueezeDim axes (dim + 1)
    else if dim = unsqueezedAxis then dim :: unsqueezeDim axes (dim + 1)
    else unsqueezeDim axes dim

def unsqueezedAxes (axesVec inShape : List ℕ) : List ℕ :=
  if axesVec = [] then (List.range inShape.length).filter fun d => inShape.getD d 0 ≠ 1
  else axesVec

def inferUnsqueezeOutputLayout (inPerm : DimsOrder) (axesVec inShape : List ℕ) :
    Except Stop DimsOrder :=
  let axes := unsqueezedAxes axesVec inShape
  let perm := inPerm.toPermutation.flatMap (unsqueezeDim axes)
  fromPermutation (perm ++ axes.filter (perm.length ≤ ·))

/-- The shape of a `SqueezeOp`, by the input dims and the axes that are still to come. -/
def squeezeLoop : ℕ → List ℕ → List ℕ → Except Stop (List ℕ)
  | _, [], _ => .ok []
  | inInd, dim :: inShape, [] => do
    let outShape ← squeezeLoop (inInd + 1) inShape []
    .ok (dim :: outShape)
  | inInd, dim :: inShape, nextAxisInd :: axes =>
    if nextAxisInd < inInd then .error .failure
    else if nextAxisInd = inInd then
      if dim ≠ 1 then .error .failure else squeezeLoop (inInd + 1) inShape axes
    else do
      let outShape ← squeezeLoop (inInd + 1) inShape (nextAxisInd :: axes)
      .ok (dim :: outShape)

def squeezeShape (inShape axes : List ℕ) : Except Stop (List ℕ) :=
  if axes = [] then .ok (inShape.filter (· ≠ 1)) else squeezeLoop 0 inShape axes

/-- The shape of an `UnsqueezeOp`; an output dim that nothing is assigned to stays zero. -/
def unsqueezeLoop : ℕ → ℕ → List ℕ → List ℕ → Except Stop (List ℕ)
  | 0, _, inShape, axes => if inShape = [] ∧ axes = [] then .ok [] else .error .failure
  | count + 1, outInd, inShape, [] => do
    let outShape ← unsqueezeLoop count (outInd + 1) inShape.tail []
    .ok (inShape.headD 0 :: outShape)
  | count + 1, outInd, inShape, nextAxisInd :: axes =>
    if nextAxisInd < outInd then .error .failure
    else if nextAxisInd = outInd then do
      let outShape ← unsqueezeLoop count (outInd + 1) inShape axes
      .ok (1 :: outShape)
    else do
      let outShape ← unsqueezeLoop count (outInd + 1) inShape.tail (nextAxisInd :: axes)
      .ok (inShape.headD 0 :: outShape)

def unsqueezeShape (inShape axes : List ℕ) : Except Stop (List ℕ) :=
  unsqueezeLoop (inShape.length + axes.length) 0 inShape axes

-- The layout that is inferred through a map between dimensions keeps every element in its place.

/-- The position in memory of the element with a row-major index. -/
def linearOffset (order : DimsOrder) (shape : List ℕ) (i : ℕ) : ℕ :=
  rowMajor (order.memoryOrder shape) (order.memoryOrder (pointAt shape i))

/-- The second order is one for the second shape, and no element changes its place. -/
structure MovesNoData (inOrder : DimsOrder) (inShape : List ℕ) (outOrder : DimsOrder)
    (outShape : List ℕ) : Prop where
  numDims_eq : outOrder.numDims = outShape.length
  offset_eq : ∀ i < inShape.prod, linearOffset outOrder outShape i = linearOffset inOrder inShape i

open List

section Blocks

variable {inShape outShape : List ℕ} {blocks order : List (List ℕ × List ℕ)}
  {inOrder outOrder : DimsOrder}

theorem movesNoData_of_perm (h : Splits inShape outShape blocks) (horder : order.Perm blocks)
    (hin : inOrder.toPermutation = order.flatMap Prod.fst)
    (hout : outOrder.toPermutation = order.flatMap Prod.snd) :
    MovesNoData inOrder inShape outOrder outShape where
  numDims_eq := by
    rw [DimsOrder.numDims, hout, (h.right_perm horder).length_eq, length_range]
  offset_eq := by
    intro i hi
    have hoffset := h.rowMajor_perm horder hi
    rw [← hin, ← hout] at hoffset
    exact hoffset.symm

theorem fromPermutation_ok {perm : List ℕ} {n : ℕ} (h : perm.Perm (List.range n)) :
    ∃ order, fromPermutation perm = .ok order ∧ order.toPermutation = perm := by
  have hlength : perm.length = n := by rw [h.length_eq, length_range]
  have hperm : perm.Perm (List.range perm.length) := hlength.symm ▸ h
  refine ⟨⟨perm, hperm⟩, ?_, rfl⟩
  rw [fromPermutation, DimsOrder.fromPermutation, dif_pos hperm]
  rfl

theorem toPermutation_of_fromPermutation {perm : List ℕ} {order : DimsOrder}
    (h : fromPermutation perm = .ok order) : order.toPermutation = perm := by
  unfold fromPermutation DimsOrder.fromPermutation at h
  split_ifs at h
  · cases h
    rfl
  · cases h

end Blocks

section Walk

variable {p : ℕ} {dims : List ℕ}

theorem foldlM_pushOutDim (hdims : dims.Nodup) (s : Walk)
    (hnew : ∀ o, dims.head? = some o → s.perm.getLast? ≠ some o) :
    dims.foldlM (pushOutDim p) s = .ok { s with perm := s.perm ++ dims } := by
  induction dims generalizing s with
  | nil => simp; rfl
  | cons o dims ih =>
    obtain ⟨ho, hdims⟩ := nodup_cons.mp hdims
    have hpush : pushOutDim p s o = .ok { s with perm := s.perm ++ [o] } :=
      if_neg (hnew o rfl)
    rw [foldlM_cons, hpush]
    change dims.foldlM (pushOutDim p) { s with perm := s.perm ++ [o] } = _
    rw [ih hdims]
    · simp
    · intro o' ho' hlast
      rw [getLast?_concat] at hlast
      obtain rfl := Option.some.inj hlast
      exact ho (mem_of_mem_head? ho')

variable {inShape outShape : List ℕ} {map : List (List ℕ)} {blocks : List (List ℕ × List ℕ)}

/-- A block and those of its input dimensions that were visited. -/
abbrev Run := (List ℕ × List ℕ) × List ℕ

/-- The visited dimensions fall into runs of ascending dimensions of one block. -/
structure Visited (blocks : List (List ℕ × List ℕ)) (dims : List ℕ) (s : Walk)
    (runs : List Run) : Prop where
  dims_eq : dims = runs.flatMap fun r => r.2
  perm_eq : s.perm = runs.flatMap fun r => r.1.2
  prev_eq : s.prev = dims.getLast?
  block : ∀ r ∈ runs, r.1 ∈ blocks
  ne_nil : ∀ r ∈ runs, r.2 ≠ []
  sorted : ∀ r ∈ runs, r.2.Pairwise (· < ·)
  subset : ∀ r ∈ runs, r.2 ⊆ r.1.1

variable {b : List ℕ × List ℕ}

section

variable (h : Reassociates inShape outShape map blocks)
include h

theorem left_nodup :
    (blocks.flatMap Prod.fst).Nodup := h.left ▸ nodup_range

theorem right_nodup :
    (blocks.flatMap Prod.snd).Nodup := h.right ▸ nodup_range

theorem getElem?_map (hb : b ∈ blocks) {d : ℕ} (hd : d ∈ b.1) : map[d]? = some b.2 := by
  have hpairs : (blocks.flatMap fun b => b.1.map fun d => (d, b.2)).map Prod.fst =
      List.range inShape.length := by
    rw [map_flatMap, ← h.left]
    simp [map_map, Function.comp_def]
  have hmap : (blocks.flatMap fun b => b.1.map fun d => (d, b.2)).map Prod.snd = map := by
    rw [map_flatMap, h.map_eq]
    simp [map_map, Function.comp_def]
  have hmem : (d, b.2) ∈ blocks.flatMap fun b => b.1.map fun d => (d, b.2) :=
    mem_flatMap.mpr ⟨b, hb, mem_map.mpr ⟨d, hd, rfl⟩⟩
  obtain ⟨i, hi, heq⟩ := getElem_of_mem hmem
  have hat : some d = (List.range inShape.length)[i]? := by
    rw [← hpairs, List.getElem?_map, List.getElem?_eq_getElem hi, heq]
    rfl
  obtain ⟨hlt, hid⟩ := List.getElem?_eq_some_iff.mp hat.symm
  rw [getElem_range] at hid
  subst hid
  rw [← hmap, List.getElem?_map, List.getElem?_eq_getElem hi, heq]
  rfl

end

variable {s : Walk} {runs : List Run}

theorem Visited.open (hruns : Visited blocks dims s runs) (hb : b ∈ blocks) (hp : p ∈ b.1) :
    Visited blocks (dims ++ [p]) ⟨s.perm ++ b.2, some p⟩ (runs ++ [(b, [p])]) where
  dims_eq := by simp [hruns.dims_eq]
  perm_eq := by simp [hruns.perm_eq]
  prev_eq := by simp
  block := forall_mem_append.mpr ⟨hruns.block, by simpa using hb⟩
  ne_nil := forall_mem_append.mpr ⟨hruns.ne_nil, by simp⟩
  sorted := forall_mem_append.mpr ⟨hruns.sorted, by simp⟩
  subset := forall_mem_append.mpr ⟨hruns.subset, by simpa using hp⟩

theorem Visited.extend {run : List ℕ} (hruns : Visited blocks dims s (runs ++ [(b, run)]))
    (hp : p ∈ b.1) (hlt : ∀ d ∈ run, d < p) :
    Visited blocks (dims ++ [p]) ⟨s.perm, some p⟩ (runs ++ [(b, run ++ [p])]) := by
  obtain ⟨hdims, hperm, -, hblock, hne, hsorted, hsubset⟩ := hruns
  rw [forall_mem_append] at hblock hne hsorted hsubset
  constructor
  · simp [hdims]
  · simpa using hperm
  · simp
  · exact forall_mem_append.mpr ⟨hblock.1, by simpa using hblock.2⟩
  · exact forall_mem_append.mpr ⟨hne.1, by simp⟩
  · refine forall_mem_append.mpr ⟨hsorted.1, ?_⟩
    have hrun : run.Pairwise (· < ·) := by simpa using hsorted.2
    simpa [pairwise_append, hrun] using hlt
  · refine forall_mem_append.mpr ⟨hsubset.1, ?_⟩
    simpa [hp] using hsubset.2

variable (h : Reassociates inShape outShape map blocks)
include h

theorem visitInDim_eq (hb : b ∈ blocks) (hp : p ∈ b.1) :
    visitInDim map s p = (do
      let s ← b.2.foldlM (pushOutDim p) s
      .ok { s with prev := some p }) := by
  rw [visitInDim, getElem?_map h hb hp]

theorem Visited.step {s s' : Walk} (hruns : Visited blocks dims s runs) (hp : p < inShape.length)
    (hnew : p ∉ dims) (hstep : visitInDim map s p = .ok s') :
    ∃ runs', Visited blocks (dims ++ [p]) s' runs' := by
  obtain ⟨b, hb, hpb⟩ : ∃ b ∈ blocks, p ∈ b.1 := by
    rw [← mem_flatMap, h.left, mem_range]
    exact hp
  have hdims : b.2.Nodup := (nodup_flatMap.mp (right_nodup h)).1 b hb
  rw [visitInDim_eq h hb hpb] at hstep
  -- Where the outputs pushed last are not those of this block, all its outputs are pushed.
  have hopen : (∀ o, b.2.head? = some o → s.perm.getLast? ≠ some o) →
      ∃ runs', Visited blocks (dims ++ [p]) s' runs' := by
    intro hhead
    rw [foldlM_pushOutDim hdims s hhead] at hstep
    cases hstep
    exact ⟨_, hruns.open hb hpb⟩
  obtain rfl | ⟨front, ⟨b', run⟩, rfl⟩ := runs.eq_nil_or_concat'
  · apply hopen
    simp [hruns.perm_eq]
  · have hb' : b' ∈ blocks := hruns.block (b', run) (by simp)
    have hlast : s.perm.getLast? = b'.2.getLast? := by
      have hne := (h.isBlock b' hb').right_ne_nil
      rw [hruns.perm_eq, flatMap_append, flatMap_singleton,
        getLast?_append_of_ne_nil _ hne]
    by_cases hsame : b' = b
    · subst hsame
      have hsub : run ⊆ b'.1 := hruns.subset (b', run) (by simp)
      have hsorted : run.Pairwise (· < ·) := hruns.sorted (b', run) (by simp)
      have hne : run ≠ [] := hruns.ne_nil (b', run) (by simp)
      have hdimsEq : dims = front.flatMap (fun r => r.2) ++ run := by
        simpa using hruns.dims_eq
      have hprun : p ∉ run := fun hmem => hnew (by simp [hdimsEq, hmem])
      obtain ⟨first, last, rfl⟩ := eq_nil_or_concat' run |>.resolve_left hne
      have hprev : s.prev = some last := by
        rw [hruns.prev_eq, hdimsEq, ← append_assoc, getLast?_concat]
      -- Two input dimensions have one output dimension, and it was pushed.
      obtain ⟨⟨d, hd⟩, -⟩ | ⟨-, o, ho⟩ := h.isBlock b' hb
      · rw [hd] at hpb hsub
        obtain rfl := mem_singleton.mp hpb
        exact absurd (mem_singleton.mp (hsub (by simp : last ∈ first ++ [last])))
          fun heq => hprun (by simp [heq])
      · rw [ho] at hstep
        rw [ho, getLast?_singleton] at hlast
        have hpush : pushOutDim p s o = if last > p then .error .failure else .ok s := by
          rw [pushOutDim, if_pos hlast, hprev]
        rw [foldlM_cons, hpush] at hstep
        have hle : ¬last > p := by
          intro hgt
          rw [if_pos hgt] at hstep
          cases hstep
        rw [if_neg hle] at hstep
        cases hstep
        refine ⟨_, hruns.extend hpb ?_⟩
        intro q hq
        have hne' : q ≠ p := fun heq => hprun (heq ▸ hq)
        obtain hq | hq := mem_append.mp hq
        · have := (pairwise_append.mp hsorted).2.2 q hq last (by simp)
          omega
        · have := mem_singleton.mp hq
          omega
    · apply hopen
      intro o hhead heq
      rw [hlast] at heq
      exact hsame (eq_of_mem_flatMap (right_nodup h) hb' hb (mem_of_getLast? heq)
        (mem_of_mem_head? hhead))

theorem Visited.run {dims rest : List ℕ} {s s' : Walk} (hruns : Visited blocks dims s runs)
    (hlt : ∀ p ∈ rest, p < inShape.length) (hnodup : (dims ++ rest).Nodup)
    (hrun : rest.foldlM (visitInDim map) s = .ok s') :
    ∃ runs', Visited blocks (dims ++ rest) s' runs' := by
  induction rest generalizing dims s runs with
  | nil =>
    cases hrun
    exact ⟨runs, by simpa using hruns⟩
  | cons p rest ih =>
    rw [foldlM_cons, bind_eq_ok] at hrun
    obtain ⟨mid, hstep, hrun⟩ := hrun
    have hnew : p ∉ dims := fun hmem =>
      (nodup_append.mp hnodup).2.2 p hmem p mem_cons_self rfl
    obtain ⟨runs', hmid⟩ := hruns.step h (hlt p mem_cons_self) hnew hstep
    have happend : dims ++ p :: rest = dims ++ [p] ++ rest := by simp
    rw [happend] at hnodup ⊢
    exact ih hmid (fun q hq => hlt q (mem_cons_of_mem p hq)) hnodup hrun

/-- When no block is visited twice, every run is a block. -/
theorem Visited.complete (hruns : Visited blocks dims s runs)
    (hdims : dims.Perm (List.range inShape.length)) (hnodup : s.perm.Nodup) :
    (runs.map Prod.fst).Perm blocks ∧ ∀ r ∈ runs, r.2 = r.1.1 := by
  have hleft := left_nodup h
  have hmem : ∀ r ∈ runs, ∀ d ∈ r.2, d ∈ r.1.1 := fun r hr d hd => hruns.subset r hr hd
  have hdistinct : (runs.map Prod.fst).Nodup := by
    apply nodup_of_nodup_flatMap (f := Prod.snd)
    · rwa [flatMap_map, ← hruns.perm_eq]
    · intro b hb
      obtain ⟨r, hr, rfl⟩ := mem_map.mp hb
      exact (h.isBlock _ (hruns.block r hr)).right_ne_nil
  have hcover : ∀ b ∈ blocks, ∀ d ∈ b.1, ∃ r ∈ runs, r.1 = b ∧ d ∈ r.2 := by
    intro b hb d hd
    have hdmem : d ∈ dims := by
      rw [hdims.mem_iff, mem_range]
      exact h.left_lt hb d hd
    rw [hruns.dims_eq] at hdmem
    obtain ⟨r, hr, hdr⟩ := mem_flatMap.mp hdmem
    exact ⟨r, hr, eq_of_mem_flatMap hleft (hruns.block r hr) hb (hmem r hr d hdr) hd, hdr⟩
  constructor
  · apply (perm_ext_iff_of_nodup hdistinct
      (nodup_of_nodup_flatMap hleft fun b hb => (h.isBlock b hb).left_ne_nil)).mpr
    intro b
    constructor
    · intro hb
      obtain ⟨r, hr, rfl⟩ := mem_map.mp hb
      exact hruns.block r hr
    · intro hb
      obtain ⟨d, hd⟩ := exists_mem_of_ne_nil _ (h.isBlock b hb).left_ne_nil
      obtain ⟨r, hr, hrb, -⟩ := hcover b hb d hd
      exact mem_map.mpr ⟨r, hr, hrb⟩
  · intro r hr
    have hsorted : r.1.1.Pairwise (· < ·) := by
      have hrange : (blocks.flatMap Prod.fst).Pairwise (· < ·) := h.left ▸ pairwise_lt_range
      exact (pairwise_flatMap.mp hrange).1 r.1 (hruns.block r hr)
    apply (hruns.sorted r hr).eq_of_mem_iff hsorted
    intro d
    constructor
    · exact hmem r hr d
    · intro hd
      obtain ⟨r', hr', heq, hdr'⟩ := hcover r.1 (hruns.block r hr) d hd
      rwa [← inj_on_of_nodup_map hdistinct hr' hr heq]

end Walk

theorem inferAffineReshapeOutputLayout_movesNoData {inShape outShape : List ℕ}
    {map : List (List ℕ)} {blocks : List (List ℕ × List ℕ)}
    (h : Reassociates inShape outShape map blocks) {inOrder outOrder : DimsOrder}
    (hnum : inOrder.numDims = inShape.length)
    (hinfer : inferAffineReshapeOutputLayout inOrder map = .ok outOrder) :
    MovesNoData inOrder inShape outOrder outShape := by
  have hperm : inOrder.toPermutation.Perm (List.range inShape.length) := by
    rw [← hnum]
    exact inOrder.isPermutation
  obtain ⟨s, hrun, hinfer⟩ := bind_eq_ok.mp hinfer
  split_ifs at hinfer with hnodup
  have hstart : Visited blocks [] ⟨[], none⟩ [] := by
    constructor <;> simp
  have hlt : ∀ p ∈ inOrder.toPermutation, p < inShape.length := fun p hp =>
    mem_range.mp (hperm.subset hp)
  have hdistinct : ([] ++ inOrder.toPermutation).Nodup := inOrder.nodup_toPermutation
  obtain ⟨runs, hruns⟩ := hstart.run h hlt hdistinct hrun
  rw [nil_append] at hruns
  obtain ⟨hblocks, hwhole⟩ := hruns.complete h hperm hnodup
  apply movesNoData_of_perm h.toSplits hblocks
  · rw [hruns.dims_eq, flatMap_map]
    exact flatMap_congr hwhole
  · rw [toPermutation_of_fromPermutation hinfer, hruns.perm_eq, flatMap_map]

end Vpux.VPU
