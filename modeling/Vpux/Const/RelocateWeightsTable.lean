import Vpux.Const.SparsityMap
import Vpux.Data.Folds
import Vpux.Data.Compaction

/-! The pointers of a weights table that is loaded to several clusters
(`attributes/relocate_weights_table.cpp`). -/
namespace Vpux.Const
open Data

def WEIGHT_TABLE_NUM_ELEMENTS_PER_OC : ℕ := 4

def SPARSITY_PTR_WHEN_NO_SPARSITY : ℤ := 0xFFFFFF

def int32 : Number := .integer true 4

/-- `static_cast<int32_t>`, and the differences of two entries. -/
def toInt32 (value : ℤ) : ℤ := Int.bmod value (2 ^ 32)

/-- `checked_cast<int32_t>`, as the bytes that are stored. -/
def castInt32 (value : ℤ) : Except Fault Buffer :=
  if Number.lowest true 4 ≤ value ∧ value ≤ Number.max true 4 then .ok (encode 4 value)
  else .error (.exception "Can not safely cast")

structure RelocateWeightsTableAttr where
  weightsPtr : List ℤ
  sparsityPtr : ℤ
  offsets : List ℕ
  weightsElemByteSize : Option ℕ
  weightsCompression : Option CompressionSchemeAttr
  deriving DecidableEq, Repr

namespace RelocateWeightsTableAttr

/-- The three loops over the channels go on by at most one cluster a channel. -/
def nextCluster (offsets : List ℕ) (oc clusterIdx : ℕ) : ℕ :=
  if clusterIdx + 1 < offsets.length ∧ offsets.getD (clusterIdx + 1) 0 ≤ oc then clusterIdx + 1
  else clusterIdx

def weightSetSize (numElems : List ℕ) (weightsElemByteSize alignment oc : ℕ) : ℕ :=
  alignValUp (numElems.getD oc 0 * weightsElemByteSize) alignment

def compressedPtrSteps (offsets numElems : List ℕ) (weightsElemByteSize alignment OC : ℕ) :
    Except Fault (List ℤ) := do
  let (_, _, weightsPtrSteps) ← (List.range OC).foldlM
    (fun (clusterIdx, weightsPtrOffset, weightsPtrSteps) oc => do
      let nextIdx := nextCluster offsets oc clusterIdx
      let weightsPtrOffset := if nextIdx = clusterIdx then weightsPtrOffset else 0
      throwUnless (alignment ≠ 0) "Zero-alignment is not supported"
      .ok (nextIdx, weightsPtrOffset + weightSetSize numElems weightsElemByteSize alignment oc,
        weightsPtrSteps ++ [(weightsPtrOffset : ℤ)]))
    (0, 0, [])
  .ok weightsPtrSteps

def densePtrSteps (offsets : List ℕ) (weightPtrStep : ℤ) (OC : ℕ) : List ℤ :=
  ((List.range OC).foldl (fun (state : ℕ × List ℤ) oc =>
    let clusterIdx := nextCluster offsets oc state.1
    (clusterIdx, state.2 ++ [weightPtrStep * (oc - offsets.getD clusterIdx 0)])) (0, [])).2

def weightsPtrSteps (attr : RelocateWeightsTableAttr) (weightPtrStep : ℤ) (OC : ℕ) :
    Except Fault (List ℤ) :=
  match attr.weightsCompression with
  | some scheme => do
    throwUnless (scheme.numElems.length = OC) "Invalid weights compression"
    match attr.weightsElemByteSize with
    | none => .error (.exception "Missing weights element type attribute")
    | some weightsElemByteSize =>
      compressedPtrSteps attr.offsets scheme.numElems weightsElemByteSize
        (scheme.alignment.getD VPU_WEIGHT_SET_BYTE_ALIGNMENT) OC
  | none => .ok (densePtrSteps attr.offsets weightPtrStep OC)

/-- An entry of the table. -/
def getValue (floats : FloatCasts) (content : Content) (i : ℕ) : Except Fault ℤ := do
  let bytes ← content.getItem floats int32 i
  .ok (decode true bytes)

/-- The sparsity pointer of a channel, unless it has none. -/
def relocateSparsity (attr : RelocateWeightsTableAttr) (sparsity sparsityPtrStep : ℤ)
    (clusterIdx oc : ℕ) : Except Fault Buffer :=
  if sparsity ≠ SPARSITY_PTR_WHEN_NO_SPARSITY then
    castInt32 (toInt32 attr.sparsityPtr +
      (oc - attr.offsets.getD clusterIdx 0) * sparsityPtrStep)
  else .ok (encode 4 sparsity)

/-- The four entries of a channel. -/
def relocateChannel (attr : RelocateWeightsTableAttr) (value : ℕ → Except Fault ℤ)
    (weightsPtrSteps : List ℤ) (sparsityPtrStep : ℤ) (clusterIdx oc : ℕ) : Write := fun buf => do
  let wtInd := oc * WEIGHT_TABLE_NUM_ELEMENTS_PER_OC
  let weights ← castInt32 (attr.weightsPtr.getD clusterIdx 0 + weightsPtrSteps.getD oc 0)
  let sparsity ← value (wtInd + 1)
  let sparsity ← attr.relocateSparsity sparsity sparsityPtrStep clusterIdx oc
  let scale ← value (wtInd + 2)
  let bias ← value (wtInd + 3)
  store (weights ++ sparsity ++ encode 4 scale ++ encode 4 bias) (wtInd * int32.size) buf

/-- The distances between the pointers of the first two channels. -/
def ptrSteps (value : ℕ → Except Fault ℤ) (numValues : ℕ) : Except Fault (ℤ × ℤ) :=
  if WEIGHT_TABLE_NUM_ELEMENTS_PER_OC * 2 ≤ numValues then do
    let weights1 ← value WEIGHT_TABLE_NUM_ELEMENTS_PER_OC
    let weights0 ← value 0
    let sparsity1 ← value (WEIGHT_TABLE_NUM_ELEMENTS_PER_OC + 1)
    let sparsity0 ← value 1
    .ok (toInt32 (weights1 - weights0), toInt32 (sparsity1 - sparsity0))
  else .ok (0, 0)

def transform (floats : FloatCasts) (fresh : ℕ → Byte) (attr : RelocateWeightsTableAttr)
    (input : Content) : Except Fault Content := do
  let output := Content.allocTempBuffer fresh input.type (.integer 32 .Signed) false
  let numValues := input.type.getNumElements
  let value := getValue floats input
  let steps ← ptrSteps value numValues
  let OC := numValues / WEIGHT_TABLE_NUM_ELEMENTS_PER_OC
  let weightsPtrSteps ← attr.weightsPtrSteps steps.1 OC
  let state ← (List.range OC).foldlM (fun state oc => do
    let clusterIdx := nextCluster attr.offsets oc state.1
    let buf ← attr.relocateChannel value weightsPtrSteps steps.2 clusterIdx oc state.2
    .ok (clusterIdx, buf)) (0, output.data)
  .ok { output with data := state.2 }

section Clusters

variable {offsets : List ℕ} {OC oc : ℕ}

/-- The cluster that the loops are at when they come to a channel. -/
def clusterAt (offsets : List ℕ) (oc : ℕ) : ℕ := counterAt (nextCluster offsets) 0 (oc + 1)

/-- The channels of a cluster go from its offset to the next one; those of the last have no end. -/
structure IsClusterOf (offsets : List ℕ) (oc c : ℕ) : Prop where
  lt : c < offsets.length
  start : offsets.getD c 0 ≤ oc
  stop : c + 1 < offsets.length → oc < offsets.getD (c + 1) 0

/-- No two clusters behind the first start at the same channel of the table. -/
def StartApart (offsets : List ℕ) (OC : ℕ) : Prop :=
  ∀ i, 0 < i → i + 1 < offsets.length → offsets.getD (i + 1) 0 < OC →
    offsets.getD i 0 < offsets.getD (i + 1) 0

theorem getD_le_getD (hsorted : offsets.Pairwise (· ≤ ·)) {i j : ℕ} (hij : i ≤ j)
    (hj : j < offsets.length) : offsets.getD i 0 ≤ offsets.getD j 0 := by
  rw [List.getD_eq_getElem _ _ hj, List.getD_eq_getElem _ _ (hij.trans_lt hj)]
  rcases hij.eq_or_lt with rfl | hlt
  · exact Nat.le_refl _
  · exact List.pairwise_iff_getElem.mp hsorted i j _ hj hlt

theorem IsClusterOf.unique (hsorted : offsets.Pairwise (· ≤ ·)) {c c' : ℕ}
    (h : IsClusterOf offsets oc c) (h' : IsClusterOf offsets oc c') : c = c' := by
  have hnot : ∀ {c c'}, IsClusterOf offsets oc c → IsClusterOf offsets oc c' → ¬c < c' := by
    intro c c' h h' hlt
    have hstop := h.stop (Nat.lt_of_le_of_lt hlt h'.lt)
    have hmono := getD_le_getD hsorted hlt h'.lt
    exact absurd h'.start (Nat.not_le_of_lt (hstop.trans_le hmono))
  exact Nat.le_antisymm (Nat.le_of_not_lt (hnot h' h)) (Nat.le_of_not_lt (hnot h h'))

theorem nextCluster_le (offsets : List ℕ) (oc clusterIdx : ℕ) :
    nextCluster offsets oc clusterIdx ≤ clusterIdx + 1 := by
  unfold nextCluster
  split_ifs
  · exact Nat.le_refl _
  · exact Nat.le_succ _

theorem clusterAt_zero (offsets : List ℕ) : clusterAt offsets 0 = nextCluster offsets 0 0 := rfl

theorem clusterAt_succ (offsets : List ℕ) (oc : ℕ) :
    clusterAt offsets (oc + 1) = nextCluster offsets (oc + 1) (clusterAt offsets oc) := rfl

theorem isClusterOf_nextCluster {clusterIdx : ℕ} (hlt : clusterIdx < offsets.length)
    (hstart : offsets.getD clusterIdx 0 ≤ oc)
    (hnext : clusterIdx + 1 + 1 < offsets.length → offsets.getD (clusterIdx + 1) 0 ≤ oc →
      oc < offsets.getD (clusterIdx + 1 + 1) 0) :
    IsClusterOf offsets oc (nextCluster offsets oc clusterIdx) := by
  unfold nextCluster
  split_ifs with hstep
  · exact ⟨hstep.1, hstep.2, fun hlt' => hnext hlt' hstep.2⟩
  · exact ⟨hlt, hstart, fun hlt' => Nat.lt_of_not_le fun hle => hstep ⟨hlt', hle⟩⟩

theorem isClusterOf_clusterAt (hne : offsets ≠ []) (hzero : offsets.getD 0 0 = 0)
    (hapart : StartApart offsets OC) (hoc : oc < OC) :
    IsClusterOf offsets oc (clusterAt offsets oc) := by
  induction oc with
  | zero =>
    apply isClusterOf_nextCluster (List.length_pos_of_ne_nil hne) hzero.le
    intro hlt _
    by_contra hle
    have hlater := hapart (0 + 1) Nat.one_pos hlt (by omega)
    omega
  | succ oc ih =>
    have hprev := ih (Nat.lt_of_succ_lt hoc)
    apply isClusterOf_nextCluster hprev.lt (hprev.start.trans (Nat.le_succ oc))
    intro hlt hle
    have hstop := hprev.stop (Nat.lt_of_succ_lt hlt)
    by_contra hge
    have hlater := hapart (clusterAt offsets oc + 1) (Nat.succ_pos _) hlt (by omega)
    omega

theorem startApart_of_isClusterOf (hsorted : offsets.Pairwise (· ≤ ·))
    (h : ∀ oc < OC, IsClusterOf offsets oc (clusterAt offsets oc)) : StartApart offsets OC := by
  intro i hi hlt hOC
  generalize hstart : offsets.getD (i + 1) 0 = start at *
  have hat := h start hOC
  -- the loop would have to be behind both clusters, but was in front of both
  have hbehind : i + 1 ≤ clusterAt offsets start := by
    by_contra hlow
    have hstop := hat.stop (by omega)
    have hmono := getD_le_getD hsorted (show clusterAt offsets start + 1 ≤ i + 1 by omega) hlt
    omega
  cases start with
  | zero =>
    have hle := nextCluster_le offsets 0 0
    rw [← clusterAt_zero] at hle
    omega
  | succ before =>
    have hle := nextCluster_le offsets (before + 1) (clusterAt offsets before)
    rw [← clusterAt_succ] at hle
    have hprev := h before (Nat.lt_of_succ_lt hOC)
    have hmono := getD_le_getD hsorted (show i ≤ clusterAt offsets before by omega) hprev.lt
    have hbefore := hprev.start
    omega

end Clusters

section Steps

variable {offsets numElems : List ℕ} {weightsElemByteSize alignment OC : ℕ}

/-- The bytes of the weight sets of a cluster before a channel. -/
def weightSetsBefore (offsets numElems : List ℕ) (weightsElemByteSize alignment c oc : ℕ) : ℕ :=
  ((List.range' (offsets.getD c 0) (oc - offsets.getD c 0)).map
    (weightSetSize numElems weightsElemByteSize alignment)).sum

theorem weightSetsBefore_succ {c oc : ℕ} (h : offsets.getD c 0 ≤ oc) :
    weightSetsBefore offsets numElems weightsElemByteSize alignment c (oc + 1) =
      weightSetsBefore offsets numElems weightsElemByteSize alignment c oc +
        weightSetSize numElems weightsElemByteSize alignment oc := by
  unfold weightSetsBefore
  rw [Nat.succ_sub h, List.range'_1_concat, List.map_append, List.sum_append,
    Nat.add_sub_of_le h, List.map_singleton, List.sum_singleton]

theorem getD_nextCluster {n : ℕ} (hprev : ∀ oc < n, IsClusterOf offsets oc (clusterAt offsets oc))
    (hnext : nextCluster offsets n (counterAt (nextCluster offsets) 0 n) ≠
      counterAt (nextCluster offsets) 0 n) :
    offsets.getD (nextCluster offsets n (counterAt (nextCluster offsets) 0 n)) 0 = n := by
  unfold nextCluster at hnext ⊢
  split_ifs at hnext ⊢ with hstep
  · apply Nat.le_antisymm hstep.2
    cases n with
    | zero => exact Nat.zero_le _
    | succ n => exact (hprev n (Nat.lt_succ_self n)).stop hstep.1
  · exact absurd rfl hnext

theorem compressedPtrSteps_run (numElems : List ℕ) (weightsElemByteSize : ℕ)
    (halign : alignment ≠ 0) (n : ℕ)
    (hclusters : ∀ oc < n, IsClusterOf offsets oc (clusterAt offsets oc)) :
    (List.range n).foldlM (fun (state : ℕ × ℕ × List ℤ) oc => (do
        throwUnless (alignment ≠ 0) "Zero-alignment is not supported"
        .ok (nextCluster offsets oc state.1,
          (if nextCluster offsets oc state.1 = state.1 then state.2.1 else 0) +
            weightSetSize numElems weightsElemByteSize alignment oc,
          state.2.2 ++ [((if nextCluster offsets oc state.1 = state.1 then state.2.1
            else 0 : ℕ) : ℤ)]) : Except Fault (ℕ × ℕ × List ℤ))) (0, 0, []) =
      .ok (counterAt (nextCluster offsets) 0 n,
        weightSetsBefore offsets numElems weightsElemByteSize alignment
          (counterAt (nextCluster offsets) 0 n) n,
        (List.range n).map fun oc => (weightSetsBefore offsets numElems weightsElemByteSize
          alignment (clusterAt offsets oc) oc : ℤ)) := by
  induction n with
  | zero =>
    rw [weightSetsBefore, Nat.zero_sub]
    rfl
  | succ n ih =>
    have hprev : ∀ oc < n, IsClusterOf offsets oc (clusterAt offsets oc) := fun oc hoc =>
      hclusters oc (Nat.lt_succ_of_lt hoc)
    have hstart := (hclusters n (Nat.lt_succ_self n)).start
    have hoffset : (if nextCluster offsets n (counterAt (nextCluster offsets) 0 n) =
          counterAt (nextCluster offsets) 0 n then
        weightSetsBefore offsets numElems weightsElemByteSize alignment
          (counterAt (nextCluster offsets) 0 n) n else 0) =
        weightSetsBefore offsets numElems weightsElemByteSize alignment (clusterAt offsets n)
          n := by
      split_ifs with hsame
      · rw [clusterAt, counterAt, hsame]
      · have hself : offsets.getD (clusterAt offsets n) 0 = n := getD_nextCluster hprev hsame
        rw [weightSetsBefore, hself, Nat.sub_self]
        rfl
    rw [List.range_succ, List.foldlM_append, ih hprev]
    refine bind_eq_ok.mpr ⟨_, rfl, ?_⟩
    rw [List.foldlM_cons, throwUnless, if_pos halign]
    refine bind_eq_ok.mpr ⟨_, rfl, ?_⟩
    rw [hoffset, ← weightSetsBefore_succ hstart, List.map_append]
    rfl

theorem compressedPtrSteps_eq (numElems : List ℕ) (weightsElemByteSize : ℕ) (halign : alignment ≠ 0)
    (hclusters : ∀ oc < OC, IsClusterOf offsets oc (clusterAt offsets oc)) :
    compressedPtrSteps offsets numElems weightsElemByteSize alignment OC =
      .ok ((List.range OC).map fun oc => (weightSetsBefore offsets numElems weightsElemByteSize
        alignment (clusterAt offsets oc) oc : ℤ)) := by
  have hrun := compressedPtrSteps_run numElems weightsElemByteSize halign OC hclusters
  exact bind_eq_ok.mpr ⟨_, hrun, rfl⟩

theorem densePtrSteps_eq (weightPtrStep : ℤ) :
    densePtrSteps offsets weightPtrStep OC = (List.range OC).map fun oc : ℕ =>
      weightPtrStep * ((oc : ℤ) - offsets.getD (clusterAt offsets oc) 0) := by
  have hrun : (List.range OC).foldl (fun (state : ℕ × List ℤ) oc =>
      let clusterIdx := nextCluster offsets oc state.1
      (clusterIdx, state.2 ++ [weightPtrStep * ((oc : ℤ) - offsets.getD clusterIdx 0)])) (0, []) =
      (counterAt (nextCluster offsets) 0 OC, (List.range OC).map fun oc : ℕ =>
        weightPtrStep * ((oc : ℤ) - offsets.getD (clusterAt offsets oc) 0)) := by
    induction OC with
    | zero => rfl
    | succ n ih =>
      rw [List.range_succ, List.foldl_append, ih, List.map_append]
      rfl
  unfold densePtrSteps
  rw [hrun]

end Steps

section Table

variable {floats : FloatCasts} {attr : RelocateWeightsTableAttr} {content : Content}
  {table : List ℤ} {OC oc c : ℕ}

/-- A number that can be stored in 32 bits. -/
def Fits (value : ℤ) : Prop := Number.lowest true 4 ≤ value ∧ value ≤ Number.max true 4

instance (value : ℤ) : Decidable (Fits value) := inferInstanceAs (Decidable (_ ∧ _))

theorem castInt32_eq_ok {value : ℤ} {bytes : Buffer} :
    castInt32 value = .ok bytes ↔ Fits value ∧ encode 4 value = bytes := by
  unfold castInt32
  split_ifs with h
  · exact ⟨fun heq => ⟨h, Except.ok.inj heq⟩, fun heq => congrArg Except.ok heq.2⟩
  · constructor
    · intro heq
      cases heq
    · exact fun heq => absurd heq.1 h

theorem decode_of_fits {value : ℤ} (h : Fits value) : decode true (encode 4 value) = value :=
  decode_encode (by decide) h.1 h.2

/-- A constant whose values are the entries of a table, four for each channel. -/
structure IsWeightsTable (floats : FloatCasts) (content : Content) (table : List ℤ) (OC : ℕ) :
    Prop where
  length : table.length = OC * WEIGHT_TABLE_NUM_ELEMENTS_PER_OC
  numElements : content.type.getNumElements = table.length
  reads : ∀ i < table.length, content.getItem floats int32 i = .ok (encode 4 (table.getD i 0))
  fits : ∀ i, Fits (table.getD i 0)

/-- The distances between the pointers of the first two channels. -/
def tableSteps (table : List ℤ) : ℤ × ℤ :=
  if WEIGHT_TABLE_NUM_ELEMENTS_PER_OC * 2 ≤ table.length then
    (toInt32 (table.getD 4 0 - table.getD 0 0), toInt32 (table.getD 5 0 - table.getD 1 0))
  else (0, 0)

/-- The distance of the weights of a channel from the first ones of its cluster. -/
def weightsDistance (attr : RelocateWeightsTableAttr) (table : List ℤ) (c oc : ℕ) : ℤ :=
  match attr.weightsCompression with
  | some scheme => weightSetsBefore attr.offsets scheme.numElems
      (attr.weightsElemByteSize.getD 0) (scheme.alignment.getD VPU_WEIGHT_SET_BYTE_ALIGNMENT) c oc
  | none => (tableSteps table).1 * ((oc : ℤ) - attr.offsets.getD c 0)

def relocatedWeightsPtr (attr : RelocateWeightsTableAttr) (table : List ℤ) (c oc : ℕ) : ℤ :=
  attr.weightsPtr.getD c 0 + attr.weightsDistance table c oc

def relocatedSparsityPtr (attr : RelocateWeightsTableAttr) (table : List ℤ) (c oc : ℕ) : ℤ :=
  if table.getD (oc * WEIGHT_TABLE_NUM_ELEMENTS_PER_OC + 1) 0 ≠ SPARSITY_PTR_WHEN_NO_SPARSITY then
    toInt32 attr.sparsityPtr + ((oc : ℤ) - attr.offsets.getD c 0) * (tableSteps table).2
  else SPARSITY_PTR_WHEN_NO_SPARSITY

/-- The clusters of the table: the first starts at channel 0, none before the one in front of it,
and every cluster has a pointer; compressed weights have a size for each channel. -/
structure WellFormed (attr : RelocateWeightsTableAttr) (OC : ℕ) : Prop where
  nonempty : attr.offsets ≠ []
  zero : attr.offsets.getD 0 0 = 0
  sorted : attr.offsets.Pairwise (· ≤ ·)
  pointers : attr.weightsPtr.length = attr.offsets.length
  compression : ∀ scheme, attr.weightsCompression = some scheme →
    scheme.numElems.length = OC ∧ attr.weightsElemByteSize ≠ none ∧
      scheme.alignment.getD VPU_WEIGHT_SET_BYTE_ALIGNMENT ≠ 0

/-- A stored entry of the table. -/
def entry (content : Content) (i : ℕ) : ℤ := decode true (block int32.size i content.data)

/-- A channel is assigned to its cluster and points at its own weights there. -/
structure Relocates (attr : RelocateWeightsTableAttr) (table : List ℤ) (output : Content)
    (oc c : ℕ) : Prop where
  cluster : IsClusterOf attr.offsets oc c
  assigned : clusterAt attr.offsets oc = c
  weights : entry output (oc * WEIGHT_TABLE_NUM_ELEMENTS_PER_OC) =
    attr.relocatedWeightsPtr table c oc
  sparsity : entry output (oc * WEIGHT_TABLE_NUM_ELEMENTS_PER_OC + 1) =
    attr.relocatedSparsityPtr table c oc
  scale : entry output (oc * WEIGHT_TABLE_NUM_ELEMENTS_PER_OC + 2) =
    table.getD (oc * WEIGHT_TABLE_NUM_ELEMENTS_PER_OC + 2) 0
  bias : entry output (oc * WEIGHT_TABLE_NUM_ELEMENTS_PER_OC + 3) =
    table.getD (oc * WEIGHT_TABLE_NUM_ELEMENTS_PER_OC + 3) 0

/-- All relocated pointers are numbers of 32 bits. -/
def PointersFit (attr : RelocateWeightsTableAttr) (table : List ℤ) (OC : ℕ) : Prop :=
  ∀ oc < OC, ∀ c, IsClusterOf attr.offsets oc c →
    Fits (attr.relocatedWeightsPtr table c oc) ∧ Fits (attr.relocatedSparsityPtr table c oc)

theorem IsWeightsTable.getValue_eq (h : IsWeightsTable floats content table OC) {i : ℕ}
    (hi : i < table.length) : getValue floats content i = .ok (table.getD i 0) := by
  refine bind_eq_ok.mpr ⟨_, h.reads i hi, ?_⟩
  rw [decode_of_fits (h.fits i)]

theorem IsWeightsTable.entry_lt (h : IsWeightsTable floats content table OC) (hoc : oc < OC)
    {k : ℕ} (hk : k < WEIGHT_TABLE_NUM_ELEMENTS_PER_OC) :
    oc * WEIGHT_TABLE_NUM_ELEMENTS_PER_OC + k < table.length := by
  rw [h.length]
  exact position_lt hoc hk

/-- The four entries of a channel. -/
def relocatedEntries (attr : RelocateWeightsTableAttr) (table : List ℤ) (c oc : ℕ) : List ℤ :=
  [attr.relocatedWeightsPtr table c oc, attr.relocatedSparsityPtr table c oc,
    table.getD (oc * WEIGHT_TABLE_NUM_ELEMENTS_PER_OC + 2) 0,
    table.getD (oc * WEIGHT_TABLE_NUM_ELEMENTS_PER_OC + 3) 0]

def relocatedRow (attr : RelocateWeightsTableAttr) (table : List ℤ) (c oc : ℕ) : Buffer :=
  ((attr.relocatedEntries table c oc).map (encode 4)).flatten

theorem length_relocatedRow : (attr.relocatedRow table c oc).length = 16 := by
  simp [relocatedRow, relocatedEntries, length_encode]

theorem relocatedRow_eq : attr.relocatedRow table c oc =
    encode 4 (attr.relocatedWeightsPtr table c oc) ++
      encode 4 (attr.relocatedSparsityPtr table c oc) ++
      encode 4 (table.getD (oc * WEIGHT_TABLE_NUM_ELEMENTS_PER_OC + 2) 0) ++
      encode 4 (table.getD (oc * WEIGHT_TABLE_NUM_ELEMENTS_PER_OC + 3) 0) := by
  simp [relocatedRow, relocatedEntries]

theorem relocateSparsity_eq_ok {bytes : Buffer} :
    attr.relocateSparsity (table.getD (oc * WEIGHT_TABLE_NUM_ELEMENTS_PER_OC + 1) 0)
        (tableSteps table).2 c oc = .ok bytes ↔
      Fits (attr.relocatedSparsityPtr table c oc) ∧
        encode 4 (attr.relocatedSparsityPtr table c oc) = bytes := by
  unfold relocateSparsity relocatedSparsityPtr
  split_ifs with hmarker
  · exact castInt32_eq_ok
  · rw [not_not.mp hmarker, Except.ok.injEq, and_iff_right]
    decide

variable {weightsPtrSteps : List ℤ}

theorem relocateChannel_eq_ok (h : IsWeightsTable floats content table OC) (hoc : oc < OC)
    (hstep : weightsPtrSteps.getD oc 0 = attr.weightsDistance table c oc) {buf buf' : Buffer} :
    attr.relocateChannel (getValue floats content) weightsPtrSteps (tableSteps table).2 c oc buf =
      .ok buf' ↔
      (Fits (attr.relocatedWeightsPtr table c oc) ∧ Fits (attr.relocatedSparsityPtr table c oc)) ∧
        store (attr.relocatedRow table c oc) (oc * 16) buf = .ok buf' := by
  have hsparsity := h.getValue_eq (h.entry_lt hoc (show 1 < 4 by decide))
  have hscale := h.getValue_eq (h.entry_lt hoc (show 2 < 4 by decide))
  have hbias := h.getValue_eq (h.entry_lt hoc (show 3 < 4 by decide))
  have hpos : oc * WEIGHT_TABLE_NUM_ELEMENTS_PER_OC * int32.size = oc * 16 := Nat.mul_assoc oc 4 4
  unfold relocateChannel
  dsimp only
  rw [hstep, hpos, relocatedRow_eq]
  constructor
  · intro hrun
    obtain ⟨weights, hweights, hrun⟩ := bind_eq_ok.mp hrun
    obtain ⟨sparsity, hvalue, hrun⟩ := bind_eq_ok.mp hrun
    obtain ⟨bytes, hbytes, hrun⟩ := bind_eq_ok.mp hrun
    obtain ⟨scale, hvalue', hrun⟩ := bind_eq_ok.mp hrun
    obtain ⟨bias, hvalue'', hrun⟩ := bind_eq_ok.mp hrun
    obtain rfl := Except.ok.inj (hsparsity.symm.trans hvalue)
    obtain rfl := Except.ok.inj (hscale.symm.trans hvalue')
    obtain rfl := Except.ok.inj (hbias.symm.trans hvalue'')
    obtain ⟨hfits, rfl⟩ := castInt32_eq_ok.mp hweights
    obtain ⟨hfits', rfl⟩ := relocateSparsity_eq_ok.mp hbytes
    exact ⟨⟨hfits, hfits'⟩, hrun⟩
  · rintro ⟨⟨hfits, hfits'⟩, hstore⟩
    refine bind_eq_ok.mpr ⟨_, castInt32_eq_ok.mpr ⟨hfits, rfl⟩, ?_⟩
    refine bind_eq_ok.mpr ⟨_, hsparsity, ?_⟩
    refine bind_eq_ok.mpr ⟨_, relocateSparsity_eq_ok.mpr ⟨hfits', rfl⟩, ?_⟩
    refine bind_eq_ok.mpr ⟨_, hscale, ?_⟩
    exact bind_eq_ok.mpr ⟨_, hbias, hstore⟩

variable (table) in
theorem weightsPtrSteps_ok (hattr : attr.WellFormed OC)
    (hclusters : ∀ oc < OC, IsClusterOf attr.offsets oc (clusterAt attr.offsets oc)) :
    ∃ weightsPtrSteps, attr.weightsPtrSteps (tableSteps table).1 OC = .ok weightsPtrSteps ∧
      ∀ oc < OC, weightsPtrSteps.getD oc 0 =
        attr.weightsDistance table (clusterAt attr.offsets oc) oc := by
  have hget : ∀ f : ℕ → ℤ, ∀ oc < OC, ((List.range OC).map f).getD oc 0 = f oc := by
    intro f oc hoc
    rw [List.getD_eq_getElem _ _ (by simpa using hoc), List.getElem_map, List.getElem_range]
  unfold weightsPtrSteps weightsDistance
  cases hscheme : attr.weightsCompression with
  | none => exact ⟨_, rfl, by rw [densePtrSteps_eq]; exact hget _⟩
  | some scheme =>
    obtain ⟨hlength, hsize, halign⟩ := hattr.compression scheme hscheme
    obtain ⟨elemByteSize, helem⟩ := Option.ne_none_iff_exists'.mp hsize
    have hsteps := compressedPtrSteps_eq scheme.numElems elemByteSize halign hclusters
    rw [helem]
    refine ⟨_, bind_eq_ok.mpr ⟨(), throwUnless_eq_ok.mpr hlength, hsteps⟩, fun oc hoc => ?_⟩
    exact hget (fun oc => (weightSetsBefore attr.offsets scheme.numElems elemByteSize
      (scheme.alignment.getD VPU_WEIGHT_SET_BYTE_ALIGNMENT) (clusterAt attr.offsets oc) oc : ℤ))
      oc hoc

theorem ptrSteps_eq (h : IsWeightsTable floats content table OC) :
    ptrSteps (getValue floats content) table.length = .ok (tableSteps table) := by
  unfold ptrSteps tableSteps
  split_ifs with hlong
  · have hread : ∀ i < 8, getValue floats content i = .ok (table.getD i 0) := fun i hi =>
      h.getValue_eq (Nat.lt_of_lt_of_le hi hlong)
    rw [hread WEIGHT_TABLE_NUM_ELEMENTS_PER_OC (by decide), hread 0 (by decide),
      hread (WEIGHT_TABLE_NUM_ELEMENTS_PER_OC + 1) (by decide), hread 1 (by decide)]
    rfl
  · rfl

theorem transform_eq (fresh : ℕ → Byte) (htable : IsWeightsTable floats content table OC)
    (hsteps : attr.weightsPtrSteps (tableSteps table).1 OC = .ok weightsPtrSteps) :
    attr.transform floats fresh content = (do
      let data ← (List.range OC).foldlM (fun buf oc => attr.relocateChannel
        (getValue floats content) weightsPtrSteps (tableSteps table).2
        (clusterAt attr.offsets oc) oc buf)
        (Content.allocTempBuffer fresh content.type (.integer 32 .Signed) false).data
      .ok ⟨content.type, .integer 32 .Signed, data, false⟩) := by
  have hOC : table.length / WEIGHT_TABLE_NUM_ELEMENTS_PER_OC = OC := by
    rw [htable.length]
    exact Nat.mul_div_cancel _ (by decide)
  unfold transform
  dsimp only
  rw [htable.numElements, ptrSteps_eq htable, hOC]
  change (attr.weightsPtrSteps (tableSteps table).1 OC >>= _) = _
  rw [hsteps]
  have hcounter := foldlM_counter (nextCluster attr.offsets) 0 (fun clusterIdx oc buf =>
    attr.relocateChannel (getValue floats content) weightsPtrSteps (tableSteps table).2
      clusterIdx oc buf)
  change ((List.range OC).foldlM (fun (state : ℕ × Buffer) oc => (do
    let buf ← attr.relocateChannel (getValue floats content) weightsPtrSteps (tableSteps table).2
      (nextCluster attr.offsets oc state.1) oc state.2
    pure (nextCluster attr.offsets oc state.1, buf) : Except Fault (ℕ × Buffer))) (0, _) >>= _) = _
  rw [hcounter]
  rw [bind_assoc]
  rfl

section

variable (htable : IsWeightsTable floats content table OC)
  (hsteps : ∀ oc < OC, weightsPtrSteps.getD oc 0 =
    attr.weightsDistance table (clusterAt attr.offsets oc) oc)
include htable hsteps

theorem relocateChannels_ok
    (hfits : ∀ oc < OC, Fits (attr.relocatedWeightsPtr table (clusterAt attr.offsets oc) oc) ∧
      Fits (attr.relocatedSparsityPtr table (clusterAt attr.offsets oc) oc))
    {buf : Buffer} (hbuf : buf.length = OC * 16) :
    ∃ data, (List.range OC).foldlM (fun buf oc => attr.relocateChannel (getValue floats content)
        weightsPtrSteps (tableSteps table).2 (clusterAt attr.offsets oc) oc buf) buf = .ok data ∧
      ∀ oc < OC, block 16 oc data = attr.relocatedRow table (clusterAt attr.offsets oc) oc := by
  have hrow : ∀ oc ∈ List.range OC,
      (attr.relocatedRow table (clusterAt attr.offsets oc) oc).length = 16 := fun _ _ =>
    length_relocatedRow
  have hlt : ∀ oc ∈ List.range OC, oc < OC := fun _ hoc => List.mem_range.mp hoc
  have hrun : (List.range OC).foldlM (fun buf oc => attr.relocateChannel (getValue floats content)
      weightsPtrSteps (tableSteps table).2 (clusterAt attr.offsets oc) oc buf) buf =
      .ok (writeBlocks 16 id
        (fun oc => attr.relocatedRow table (clusterAt attr.offsets oc) oc) (List.range OC)
          buf) := by
    refine foldlM_eq_pure (P := fun buf : Buffer => buf.length = OC * 16) ?_ ?_ hbuf
    · intro buf oc hoc hbuf'
      have hlt' := hlt oc hoc
      exact (relocateChannel_eq_ok htable hlt' (hsteps oc hlt')).mpr
        ⟨hfits oc hlt', store_block hbuf' length_relocatedRow hlt'⟩
    · intro buf oc hoc hbuf'
      have hle : (oc + 1) * 16 ≤ OC * 16 := Nat.mul_le_mul_right 16 (hlt oc hoc)
      have hrow' := hrow oc hoc
      refine (length_overwrite ?_).trans hbuf'
      dsimp only [id]
      omega
  refine ⟨_, hrun, fun oc hoc => ?_⟩
  have hsame : ∀ j ∈ List.range OC, ∀ j' ∈ List.range OC, id j = id j' →
      attr.relocatedRow table (clusterAt attr.offsets j) j =
        attr.relocatedRow table (clusterAt attr.offsets j') j' := by
    rintro j _ j' _ rfl
    rfl
  exact block_writeBlocks hbuf hrow hlt hsame (List.mem_range.mpr hoc)

theorem fits_of_relocateChannels {buf data : Buffer}
    (hrun : (List.range OC).foldlM (fun buf oc =>
      attr.relocateChannel (getValue floats content) weightsPtrSteps (tableSteps table).2
        (clusterAt attr.offsets oc) oc buf) buf = .ok data) :
    ∀ oc < OC, Fits (attr.relocatedWeightsPtr table (clusterAt attr.offsets oc) oc) ∧
      Fits (attr.relocatedSparsityPtr table (clusterAt attr.offsets oc) oc) := by
  intro oc hoc
  obtain ⟨before, after, hpass⟩ := foldlM_runs hrun oc (List.mem_range.mpr hoc)
  exact ((relocateChannel_eq_ok htable hoc (hsteps oc hoc)).mp hpass).1

end

theorem entry_eq {output : Content}
    (hblock : block 16 oc output.data = attr.relocatedRow table c oc) {k : ℕ} {v : ℤ}
    (hv : (attr.relocatedEntries table c oc)[k]? = some v) (hfits : Fits v) :
    entry output (oc * WEIGHT_TABLE_NUM_ELEMENTS_PER_OC + k) = v := by
  obtain ⟨hk, _⟩ := List.getElem?_eq_some_iff.mp hv
  have hslice : block 4 k (block (4 * 4) oc output.data) =
      block 4 (oc * 4 + k) output.data := block_block hk
  have hrow : block 4 k (attr.relocatedRow table c oc) = encode 4 v := by
    have hentry : ((attr.relocatedEntries table c oc).map (encode 4))[k]? =
        some (encode 4 v) := by
      rw [List.getElem?_map, hv]
      rfl
    have hwidth : ∀ bytes ∈ (attr.relocatedEntries table c oc).map (encode 4),
        bytes.length = 4 := by
      intro bytes hbytes
      obtain ⟨value, _, rfl⟩ := List.mem_map.mp hbytes
      exact length_encode 4 value
    exact take_drop_flatten hwidth hentry
  rw [entry, show int32.size = 4 from rfl, WEIGHT_TABLE_NUM_ELEMENTS_PER_OC, ← hslice, hblock, hrow,
    decode_of_fits hfits]

theorem transform_relocates (fresh : ℕ → Byte) (htable : IsWeightsTable floats content table OC)
    (hattr : attr.WellFormed OC)
    (hclusters : ∀ oc < OC, IsClusterOf attr.offsets oc (clusterAt attr.offsets oc))
    (hfits : attr.PointersFit table OC) :
    ∃ output, attr.transform floats fresh content = .ok output ∧
      ∀ oc < OC, attr.Relocates table output oc (clusterAt attr.offsets oc) := by
  obtain ⟨steps, hsteps, hdistance⟩ := weightsPtrSteps_ok table hattr hclusters
  have hfits' := fun oc hoc => hfits oc hoc _ (hclusters oc hoc)
  have hbuf : (Content.allocTempBuffer fresh content.type (.integer 32 .Signed) false).data.length =
      OC * 16 := by
    rw [length_allocTempBuffer, storageBytes_of_dvd (by decide), htable.numElements, htable.length,
      Nat.mul_assoc]
    rfl
  obtain ⟨data, hdata, hrows⟩ := relocateChannels_ok htable hdistance hfits' hbuf
  refine ⟨⟨content.type, .integer 32 .Signed, data, false⟩, ?_, fun oc hoc => ?_⟩
  · rw [transform_eq fresh htable hsteps]
    exact bind_eq_ok.mpr ⟨data, hdata, rfl⟩
  · constructor
    · exact hclusters oc hoc
    · rfl
    · exact entry_eq (k := 0) (hrows oc hoc) rfl (hfits' oc hoc).1
    · exact entry_eq (k := 1) (hrows oc hoc) rfl (hfits' oc hoc).2
    · exact entry_eq (k := 2) (hrows oc hoc) rfl (htable.fits _)
    · exact entry_eq (k := 3) (hrows oc hoc) rfl (htable.fits _)

/-- The transformation relocates every channel exactly when no two clusters behind the first start
at the same channel of the table and all relocated pointers are numbers of 32 bits. -/
theorem transform_relocates_iff (floats : FloatCasts) (fresh : ℕ → Byte)
    (attr : RelocateWeightsTableAttr) (content : Content) (table : List ℤ) (OC : ℕ)
    (htable : IsWeightsTable floats content table OC) (hattr : attr.WellFormed OC) :
    (∃ output, attr.transform floats fresh content = .ok output ∧
      ∀ oc < OC, ∃ c, attr.Relocates table output oc c) ↔
      StartApart attr.offsets OC ∧ attr.PointersFit table OC := by
  constructor
  · rintro ⟨output, hrun, hrelocates⟩
    have hclusters : ∀ oc < OC, IsClusterOf attr.offsets oc (clusterAt attr.offsets oc) := by
      intro oc hoc
      obtain ⟨c, hchannel⟩ := hrelocates oc hoc
      rw [hchannel.assigned]
      exact hchannel.cluster
    refine ⟨startApart_of_isClusterOf hattr.sorted hclusters, fun oc hoc c hc => ?_⟩
    obtain ⟨steps, hsteps, hdistance⟩ := weightsPtrSteps_ok table hattr hclusters
    rw [transform_eq fresh htable hsteps] at hrun
    obtain ⟨data, hdata, _⟩ := bind_eq_ok.mp hrun
    rw [hc.unique hattr.sorted (hclusters oc hoc)]
    exact fits_of_relocateChannels htable hdistance hdata oc hoc
  · rintro ⟨hapart, hfits⟩
    have hclusters : ∀ oc < OC, IsClusterOf attr.offsets oc (clusterAt attr.offsets oc) :=
      fun oc hoc => isClusterOf_clusterAt hattr.nonempty hattr.zero hapart hoc
    obtain ⟨output, hrun, hrelocates⟩ := transform_relocates fresh htable hattr hclusters hfits
    exact ⟨output, hrun, fun oc hoc => ⟨_, hrelocates oc hoc⟩⟩

end Table

section Duplicated

/-- A table of three channels, sixteen bytes of weights for each. -/
def threeChannels : List ℤ :=
  [0, SPARSITY_PTR_WHEN_NO_SPARSITY, 1, 2, 16, SPARSITY_PTR_WHEN_NO_SPARSITY, 3, 4,
    32, SPARSITY_PTR_WHEN_NO_SPARSITY, 5, 6]

theorem numDims_threeChannels : (DimsOrder.fromNumDims 4).numDims = [3, 1, 1, 4].length := rfl

def threeChannelsTable : Content where
  type := ⟨[3, 1, 1, 4], .integer 32 .Signed, DimsOrder.fromNumDims 4, numDims_threeChannels,
    trivial⟩
  storageElemType := .integer 32 .Signed
  data := threeChannels.flatMap (encode 4)
  isSplat := false

/-- Compressed weights on clusters that start at the given channels. -/
def compressedOn (offsets : List ℕ) (weightsPtr : List ℤ) : RelocateWeightsTableAttr where
  weightsPtr := weightsPtr
  sparsityPtr := SPARSITY_PTR_WHEN_NO_SPARSITY
  offsets := offsets
  weightsElemByteSize := some 1
  weightsCompression := some ⟨[16, 16, 16], none⟩

theorem isWeightsTable_threeChannels :
    IsWeightsTable zeroCasts threeChannelsTable threeChannels 3 := by
  constructor
  · rfl
  · rfl
  · decide
  · intro i
    rcases Nat.lt_or_ge i 12 with hi | hi
    · revert i
      decide
    · rw [List.getD_eq_default _ _ hi]
      decide

theorem wellFormed_compressedOn {offsets : List ℕ} {weightsPtr : List ℤ} (hne : offsets ≠ [])
    (hzero : offsets.getD 0 0 = 0) (hsorted : offsets.Pairwise (· ≤ ·))
    (hpointers : weightsPtr.length = offsets.length) :
    (compressedOn offsets weightsPtr).WellFormed 3 := by
  constructor
  · exact hne
  · exact hzero
  · exact hsorted
  · exact hpointers
  · rintro scheme ⟨⟩
    exact ⟨rfl, by simp [compressedOn], by decide⟩

/-- Clusters of one and two channels. -/
theorem relocates_segmented :
    ∃ output, (compressedOn [0, 1] [64, 128]).transform zeroCasts (fun _ => 0) threeChannelsTable =
      .ok output ∧
      ∀ oc < 3, ∃ c, (compressedOn [0, 1] [64, 128]).Relocates threeChannels output oc c := by
  have hattr : (compressedOn [0, 1] [64, 128]).WellFormed 3 :=
    wellFormed_compressedOn (by decide) rfl (by decide) rfl
  refine (transform_relocates_iff zeroCasts (fun _ => 0) (compressedOn [0, 1] [64, 128])
    threeChannelsTable threeChannels 3 isWeightsTable_threeChannels hattr).mpr ⟨?_, ?_⟩
  · intro i hi hlt
    simp only [compressedOn, List.length_cons, List.length_nil] at hlt
    omega
  · intro oc hoc c hc
    have hall : ∀ oc < 3, ∀ c < 2,
        Fits ((compressedOn [0, 1] [64, 128]).relocatedWeightsPtr threeChannels c oc) ∧
        Fits ((compressedOn [0, 1] [64, 128]).relocatedSparsityPtr threeChannels c oc) := by decide
    exact hall oc hoc c hc.lt

/-- On three clusters that all start at channel 0 the second channel gets the weights of the
first. -/
theorem not_relocates_duplicated :
    (compressedOn [0, 0, 0] [0, 0, 0]).WellFormed 3 ∧
      (∃ output, (compressedOn [0, 0, 0] [0, 0, 0]).transform zeroCasts (fun _ => 0)
        threeChannelsTable = .ok output ∧ entry output 0 = 0 ∧ entry output 4 = 0) ∧
      ¬∃ output, (compressedOn [0, 0, 0] [0, 0, 0]).transform zeroCasts (fun _ => 0)
        threeChannelsTable = .ok output ∧
        ∀ oc < 3, ∃ c, (compressedOn [0, 0, 0] [0, 0, 0]).Relocates threeChannels output oc c := by
  refine ⟨wellFormed_compressedOn (by decide) rfl (by decide) rfl, ?_, ?_⟩
  · refine ⟨_, rfl, ?_, ?_⟩
    · decide +kernel
    · decide +kernel
  · rintro ⟨output, _, hrelocates⟩
    obtain ⟨c, hchannel⟩ := hrelocates 0 (by decide)
    obtain rfl : 1 = c := hchannel.assigned
    exact absurd (hchannel.cluster.stop (by decide)) (by decide)

end Duplicated

end RelocateWeightsTableAttr

end Vpux.Const
