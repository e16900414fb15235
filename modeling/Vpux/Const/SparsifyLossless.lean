import Vpux.Const.SparsityMap
import Vpux.Data.Folds
import Vpux.Data.Compaction

/-! Weights are given back by their sparsity map and the weights that are kept. -/
namespace Vpux.Const
open Data

variable {floats : FloatCasts} {content : Content} {number : Number} {zero : Buffer}
  {OC IC KY KX : ℕ}

def Content.kept (floats : FloatCasts) (content : Content) (number : Number) (zero : Buffer)
    (workloadSize oc : ℕ) : List Buffer :=
  ((List.range workloadSize).map fun k =>
    content.weight floats number (oc * workloadSize + k)).filter
      fun value => !sameValue number value zero

/-- The set bits of a map among `n` from a position on. -/
def setBits (map : Buffer) (start n : ℕ) : ℕ :=
  (List.range n).countP fun k => bitAt map (start + k)

/-- The offset of a channel among the kept weights, every channel padded to whole chunks. -/
def channelOffset (size : ℕ) (counts : List ℕ) (oc : ℕ) : ℕ :=
  ((counts.take oc).map fun num => alignValUp (num * size) VPU_WEIGHT_SET_BYTE_ALIGNMENT).sum

/-- A weight from the map and the kept weights: the next kept one at a set bit, else zero. -/
def unpacked (size : ℕ) (zero : Buffer) (counts : List ℕ) (rowSize : ℕ) (map data : Buffer)
    (oc k : ℕ) : Buffer :=
  if bitAt map (oc * rowSize + k) then
    (data.drop (channelOffset size counts oc + setBits map (oc * rowSize) k * size)).take size
  else zero

/-- Nothing is read outside the weights, the map marks the weights that are kept, the counts are
those of the marks, and map and kept weights give all weights back. -/
def Lossless (floats : FloatCasts) (fresh : ℕ → Byte) (content : Content) (number : Number)
    (zero : Buffer) (OC workloadSize : ℕ) : Prop :=
  ∃ map counts kept rowSize,
    GetSparsityMapAttr.transform floats fresh content = .ok map ∧
    getNumActualElements floats content content.type.elemType = .ok counts ∧
    SparsifyAttr.transform floats fresh counts content = .ok kept ∧
    map.type.shape = [OC, 1, 1, rowSize] ∧
    IsSparsityMap floats content number zero OC workloadSize rowSize map.data ∧
    counts.length = OC ∧
    ∀ oc < OC, counts.getD oc 0 = setBits map.data (oc * rowSize) rowSize ∧
      ∀ k < workloadSize,
        let weight := content.weight floats number (oc * workloadSize + k)
        let restored := unpacked number.size zero counts rowSize map.data kept.data oc k
        restored = weight ∨ restored = zero ∧ sameValue number weight zero

open Content List

section Counts

theorem foldlM_kept (zero : Buffer) (ks : List ℕ) {oc workloadSize : ℕ}
    (hread : ∀ k ∈ ks, content.getItem floats number (oc * workloadSize + k) =
      .ok (content.weight floats number (oc * workloadSize + k))) (n : ℕ) :
    ks.foldlM (fun elems k => do
      let value ← content.getItem floats number (oc * workloadSize + k)
      .ok (if sameValue number value zero then elems else elems + 1)) n =
      (.ok (n + ((ks.map fun k => content.weight floats number (oc * workloadSize + k)).filter
        fun value => !sameValue number value zero).length) : Except Fault ℕ) := by
  have hpure : ks.foldlM (fun elems k => do
      let value ← content.getItem floats number (oc * workloadSize + k)
      .ok (if sameValue number value zero then elems else elems + 1)) n =
      (.ok (ks.foldl (fun elems k => if sameValue number
        (content.weight floats number (oc * workloadSize + k)) zero then elems else elems + 1) n) :
          Except Fault ℕ) := by
    refine foldlM_eq_pure (P := fun _ => True) ?_ (fun _ _ _ _ => trivial) trivial
    intro elems k hk _
    rw [hread k hk]
    rfl
  rw [hpure, foldl_count, ← countP_eq_length_filter, countP_map]
  rfl

variable (h : IsWeights floats content number zero OC IC KY KX)
include h

theorem IsWeights.getNumActualElements_ok :
    getNumActualElements floats content content.type.elemType =
      .ok ((List.range OC).map fun oc =>
        (content.kept floats number zero (IC * KY * KX) oc).length) := by
  obtain ⟨elemType, zp, hzp, hnumber, hzero⟩ := h.zeroValue
  have hdims : content.type.shape.length = 4 := by
    rw [h.shape]
    rfl
  unfold getNumActualElements
  rw [hzp]
  change (elemType.storageType >>= _ : Except Fault (List ℕ)) = _
  rw [hnumber]
  change (throwUnless _ _ >>= fun _ => castZeroPoint floats number zp >>= _ :
    Except Fault (List ℕ)) = _
  rw [throwUnless, if_pos hdims, h.workload, h.shape, hzero]
  apply mapM_ok
  intro oc hoc
  have hkept := foldlM_kept zero (List.range (IC * KY * KX)) (fun k hk =>
    h.getItem_ok (position_lt (mem_range.mp hoc) (mem_range.mp hk))) 0
  rw [Nat.zero_add] at hkept
  exact hkept

end Counts

section Pack

/-- The kept weights of a channel, padded with zero bytes. -/
def Content.keptRow (floats : FloatCasts) (content : Content) (number : Number) (zero : Buffer)
    (workloadSize oc : ℕ) : Buffer :=
  let kept := content.kept floats number zero workloadSize oc
  kept.flatten ++ List.replicate
    (alignValUp (kept.length * number.size) VPU_WEIGHT_SET_BYTE_ALIGNMENT -
      kept.length * number.size) 0

theorem store_append (pre value : Buffer) {r : ℕ} (hr : value.length ≤ r) :
    store value pre.length (pre ++ List.replicate r 0) =
      .ok (pre ++ value ++ List.replicate (r - value.length) 0) := by
  have hfits : pre.length + value.length ≤ (pre ++ List.replicate r (0 : Byte)).length := by
    simpa using hr
  rw [store, if_pos hfits, overwrite, take_left, ← drop_drop, drop_left,
    drop_replicate]

theorem le_alignValUp (val : ℕ) {align : ℕ} (halign : 0 < align) : val ≤ alignValUp val align := by
  have hdiv := Nat.div_add_mod (val + align - 1) align
  have hmod := Nat.mod_lt (val + align - 1) halign
  rw [alignValUp, Nat.mul_comm]
  omega

theorem alignValUp_add {base align : ℕ} (val : ℕ) (hbase : align ∣ base) (halign : 0 < align) :
    alignValUp (base + val) align = base + alignValUp val align := by
  obtain ⟨n, rfl⟩ := hbase
  have hshift : align * n + val + align - 1 = val + align - 1 + align * n := by omega
  rw [alignValUp, alignValUp, hshift, Nat.add_mul_div_left _ _ halign, Nat.add_mul,
    Nat.mul_comm n, Nat.add_comm]

theorem alignValUp_of_dvd {val align : ℕ} (hdvd : align ∣ val) (halign : 0 < align) :
    alignValUp val align = val := by
  have hadd := alignValUp_add 0 hdvd halign
  have hzero : alignValUp 0 align = 0 := by
    rw [alignValUp, Nat.zero_add, Nat.div_eq_of_lt (by omega), Nat.zero_mul]
  rw [hzero] at hadd
  exact hadd

variable {pre : Buffer}

theorem foldlM_pack (zero : Buffer) (ks : List ℕ) {oc workloadSize : ℕ} {values : ℕ → Buffer}
    (hread : ∀ k ∈ ks, content.getItem floats number (oc * workloadSize + k) = .ok (values k))
    {outputIndex r : ℕ} (hpre : pre.length = outputIndex * number.size)
    (hr : ((ks.map values).filter fun value => !sameValue number value zero).length * number.size
      ≤ r) :
    ks.foldlM (fun (outputIndex, outBuf) k => do
      let value ← content.getItem floats number (oc * workloadSize + k)
      if sameValue number value zero then .ok (outputIndex, outBuf)
      else do
        let outBuf ← store value (outputIndex * number.size) outBuf
        .ok (outputIndex + 1, outBuf)) (outputIndex, pre ++ List.replicate r 0) =
      (.ok (outputIndex + ((ks.map values).filter fun value =>
          !sameValue number value zero).length,
        pre ++ ((ks.map values).filter fun value => !sameValue number value zero).flatten ++
          List.replicate (r - ((ks.map values).filter fun value =>
            !sameValue number value zero).length * number.size) 0) :
              Except Fault (ℕ × Buffer)) := by
  induction ks generalizing outputIndex pre r with
  | nil =>
    simp only [map_nil, filter_nil, flatten_nil, append_nil, length_nil,
      Nat.zero_mul, Nat.sub_zero, Nat.add_zero, foldlM_nil]
    rfl
  | cons k ks ih =>
    have hrest := fun j hj => hread j (mem_cons_of_mem k hj)
    have hk := hread k (by simp)
    have hlength := length_getItem hk
    rw [foldlM_cons, hk]
    by_cases hsame : sameValue number (values k) zero = true
    · rw [map_cons, filter_cons_of_neg (by simpa using hsame)] at hr ⊢
      change ((if sameValue number (values k) zero = true then (.ok (outputIndex,
        pre ++ List.replicate r 0) : Except Fault (ℕ × Buffer)) else _) >>= _) = _
      rw [if_pos hsame]
      exact ih hrest hpre hr
    · rw [map_cons, filter_cons_of_pos (by simpa using hsame)] at hr ⊢
      rw [length_cons, Nat.succ_mul] at hr
      have hpre' : (pre ++ values k).length = (outputIndex + 1) * number.size := by
        rw [length_append, hpre, hlength, Nat.succ_mul]
      have hnext := ih hrest (r := r - number.size) hpre' (by omega)
      have hstore := store_append pre (values k) (r := r) (by omega)
      rw [hpre, hlength] at hstore
      change ((if sameValue number (values k) zero = true then (.ok (outputIndex,
        pre ++ List.replicate r 0) : Except Fault (ℕ × Buffer))
          else store (values k) (outputIndex * number.size) (pre ++ List.replicate r 0) >>=
            fun outBuf => .ok (outputIndex + 1, outBuf)) >>= _) = _
      rw [if_neg hsame, hstore]
      refine hnext.trans ?_
      rw [length_cons, flatten_cons, Nat.succ_mul, Nat.sub_sub, Nat.add_right_comm,
        Nat.add_assoc, Nat.add_comm number.size]
      simp only [append_assoc]

variable (h : IsWeights floats content number zero OC IC KY KX)
include h

theorem IsWeights.size_dvd : number.size ∣ VPU_WEIGHT_SET_BYTE_ALIGNMENT := by
  obtain ⟨elemType, zp, -, hnumber, -⟩ := h.zeroValue
  unfold ElemType.storageType at hnumber
  split at hnumber
  all_goals first
    | exact Except.ok.inj hnumber ▸ by decide
    | cases hnumber

theorem IsWeights.length_kept {oc : ℕ} (hoc : oc < OC) {value : Buffer}
    (hvalue : value ∈ content.kept floats number zero (IC * KY * KX) oc) :
    value.length = number.size := by
  obtain ⟨k, hk, rfl⟩ := mem_map.mp (mem_of_mem_filter hvalue)
  exact h.length_weight (position_lt hoc (mem_range.mp hk))

theorem IsWeights.length_flatten_kept {oc : ℕ} (hoc : oc < OC) :
    (content.kept floats number zero (IC * KY * KX) oc).flatten.length =
      (content.kept floats number zero (IC * KY * KX) oc).length * number.size := by
  rw [List.length_flatten, List.map_congr_left (fun value hvalue => h.length_kept hoc hvalue),
    map_const', sum_replicate_nat]

theorem IsWeights.length_keptRow {oc : ℕ} (hoc : oc < OC) :
    (content.keptRow floats number zero (IC * KY * KX) oc).length =
      alignValUp ((content.kept floats number zero (IC * KY * KX) oc).length * number.size)
        VPU_WEIGHT_SET_BYTE_ALIGNMENT := by
  have hle := le_alignValUp ((content.kept floats number zero (IC * KY * KX) oc).length *
    number.size) (show 0 < VPU_WEIGHT_SET_BYTE_ALIGNMENT by decide)
  unfold keptRow
  rw [length_append, length_replicate, h.length_flatten_kept hoc]
  omega

open SparsifyAttr

/-- A channel starts and ends at a chunk of sixteen bytes. -/
theorem IsWeights.sparsifyChannel_ok {oc outputIndex r : ℕ} (hoc : oc < OC)
    (hpre : pre.length = outputIndex * number.size)
    (haligned : VPU_WEIGHT_SET_BYTE_ALIGNMENT ∣ pre.length)
    (hr : (content.keptRow floats number zero (IC * KY * KX) oc).length ≤ r) :
    ∃ outputIndex', sparsifyChannel floats content number zero (IC * KY * KX) oc
        (outputIndex, pre ++ List.replicate r 0) = .ok (outputIndex',
          pre ++ content.keptRow floats number zero (IC * KY * KX) oc ++ List.replicate
            (r - (content.keptRow floats number zero (IC * KY * KX) oc).length) 0) ∧
      (pre ++ content.keptRow floats number zero (IC * KY * KX) oc).length =
        outputIndex' * number.size := by
  rw [h.length_keptRow hoc] at hr ⊢
  generalize hkept : content.kept floats number zero (IC * KY * KX) oc = kept at *
  have hle := le_alignValUp (kept.length * number.size)
    (show 0 < VPU_WEIGHT_SET_BYTE_ALIGNMENT by decide)
  have hpack := foldlM_pack zero (List.range (IC * KY * KX)) (r := r) (fun k hk =>
    h.getItem_ok (position_lt hoc (mem_range.mp hk))) hpre
      (by
        rw [Content.kept] at hkept
        rw [hkept]
        omega)
  rw [Content.kept] at hkept
  rw [hkept] at hpack
  have hbyte : (outputIndex + kept.length) * number.size =
      pre.length + kept.length * number.size := by rw [Nat.add_mul, hpre]
  have hup : alignValUp ((outputIndex + kept.length) * number.size)
      VPU_WEIGHT_SET_BYTE_ALIGNMENT = pre.length +
        alignValUp (kept.length * number.size) VPU_WEIGHT_SET_BYTE_ALIGNMENT := by
    rw [hbyte, alignValUp_add _ haligned (by decide)]
  have hindex : ∃ outputIndex', (if (outputIndex + kept.length) * number.size %
      VPU_WEIGHT_SET_BYTE_ALIGNMENT ≠ 0 then alignValUp ((outputIndex + kept.length) *
        number.size) VPU_WEIGHT_SET_BYTE_ALIGNMENT / number.size
      else outputIndex + kept.length) = outputIndex' ∧ pre.length +
        alignValUp (kept.length * number.size) VPU_WEIGHT_SET_BYTE_ALIGNMENT =
          outputIndex' * number.size := by
    refine ⟨_, rfl, ?_⟩
    rw [← hup]
    split_ifs with hmod
    · have hdvd : number.size ∣ alignValUp ((outputIndex + kept.length) * number.size)
          VPU_WEIGHT_SET_BYTE_ALIGNMENT := h.size_dvd.trans (Dvd.intro_left _ rfl)
      exact (Nat.div_mul_cancel hdvd).symm
    · exact alignValUp_of_dvd (Nat.dvd_of_mod_eq_zero (not_not.mp hmod)) (by decide)
  obtain ⟨outputIndex', hnext, hlength⟩ := hindex
  have hrow : content.keptRow floats number zero (IC * KY * KX) oc = kept.flatten ++
      List.replicate (alignValUp (kept.length * number.size) VPU_WEIGHT_SET_BYTE_ALIGNMENT -
        kept.length * number.size) 0 := by
    rw [keptRow, Content.kept, hkept]
  refine ⟨outputIndex', ?_, ?_⟩
  · unfold sparsifyChannel
    rw [hpack]
    change (if _ then (.ok (_, _) : Except Fault (ℕ × Buffer)) else .ok (_, _)) = _
    have hzeros : List.replicate (r - kept.length * number.size) (0 : Byte) =
        List.replicate (alignValUp (kept.length * number.size) VPU_WEIGHT_SET_BYTE_ALIGNMENT -
          kept.length * number.size) 0 ++ List.replicate
            (r - alignValUp (kept.length * number.size) VPU_WEIGHT_SET_BYTE_ALIGNMENT) 0 := by
      rw [replicate_append_replicate]
      congr 1
      omega
    rw [← hnext, hrow, hzeros]
    split_ifs <;> simp only [append_assoc]
  · rw [length_append, h.length_keptRow hoc, Content.kept, hkept]
    exact hlength

theorem IsWeights.foldlM_rows (ocs : List ℕ) (hocs : ∀ oc ∈ ocs, oc < OC) {outputIndex : ℕ}
    (hpre : pre.length = outputIndex * number.size)
    (haligned : VPU_WEIGHT_SET_BYTE_ALIGNMENT ∣ pre.length) :
    ∃ outputIndex', ocs.foldlM (fun state oc =>
      sparsifyChannel floats content number zero (IC * KY * KX) oc state)
      (outputIndex, pre ++ List.replicate (ocs.map fun oc =>
        (content.keptRow floats number zero (IC * KY * KX) oc).length).sum 0) =
      .ok (outputIndex', pre ++
        (ocs.map (content.keptRow floats number zero (IC * KY * KX))).flatten) := by
  induction ocs generalizing outputIndex pre with
  | nil =>
    refine ⟨outputIndex, ?_⟩
    rfl
  | cons oc ocs ih =>
    have hoc := hocs oc (by simp)
    rw [map_cons, sum_cons, map_cons, flatten_cons]
    obtain ⟨mid, hstep, hmid⟩ := h.sparsifyChannel_ok hoc hpre haligned
      (Nat.le_add_right _ (ocs.map fun oc =>
        (content.keptRow floats number zero (IC * KY * KX) oc).length).sum)
    have haligned' : VPU_WEIGHT_SET_BYTE_ALIGNMENT ∣
        (pre ++ content.keptRow floats number zero (IC * KY * KX) oc).length := by
      rw [length_append, h.length_keptRow hoc]
      exact Nat.dvd_add haligned (Dvd.intro_left _ rfl)
    obtain ⟨outputIndex', hrest⟩ := ih (fun oc hoc => hocs oc (mem_cons_of_mem _ hoc)) hmid
      haligned'
    refine ⟨outputIndex', ?_⟩
    rw [foldlM_cons, hstep, Nat.add_sub_cancel_left]
    refine hrest.trans ?_
    rw [append_assoc]

theorem IsWeights.compressType_ok (counts : List ℕ) :
    ∃ outputType, compressType content.type counts = .ok outputType ∧
      outputType.shape = [(counts.map fun num =>
        alignValUp (num * number.size) VPU_WEIGHT_SET_BYTE_ALIGNMENT).sum, 1, 1, 1] ∧
      outputType.elemType = .integer 8 .Unsigned := by
  have hbytes : toByte (getElemTypeSize content.type.elemType) = .ok number.size := by
    rw [h.storageType_size]
    unfold toByte
    simp [CHAR_BIT]
  generalize hshape : [(counts.map fun num =>
    alignValUp (num * number.size) VPU_WEIGHT_SET_BYTE_ALIGNMENT).sum, 1, 1, 1] = shape
  have hdims := h.reshapedOrder_numDims (show shape.length = 4 by simp [← hshape])
  obtain ⟨outputType, hok, hout, helem, -⟩ :=
    getTensorType_ok hdims
    (show validateQuantElemType (.integer 8 .Unsigned) shape from trivial)
  refine ⟨outputType, ?_, hout, helem⟩
  unfold compressType
  rw [hbytes]
  change content.type.changeShapeElemType _ _ = _
  rw [hshape]
  unfold NDType.changeShapeElemType
  dsimp only
  rw [throwUnless, if_pos hdims]
  exact hok

/-- The kept weights of all channels, each channel padded to whole chunks. -/
theorem IsWeights.sparsify_ok (fresh : ℕ → Byte) :
    ∃ outputType, transform floats fresh ((List.range OC).map fun oc =>
        (content.kept floats number zero (IC * KY * KX) oc).length) content =
      .ok ⟨outputType, .integer 8 .Unsigned, ((List.range OC).map
        (content.keptRow floats number zero (IC * KY * KX))).flatten, false⟩ := by
  obtain ⟨outputType, hcompress, hshape, helem⟩ := h.compressType_ok ((List.range OC).map fun oc =>
    (content.kept floats number zero (IC * KY * KX) oc).length)
  obtain ⟨elemType, zp, hzp, hnumber, hzero⟩ := h.zeroValue
  have htotal : outputType.getNumElements = ((List.range OC).map fun oc =>
      (content.keptRow floats number zero (IC * KY * KX) oc).length).sum := by
    rw [NDType.getNumElements, hshape, map_map, List.map_congr_left fun oc hoc =>
      h.length_keptRow (mem_range.mp hoc)]
    simp [Function.comp_def]
  have hfill : (allocTempBuffer fresh outputType outputType.elemType
      false).fillWithZero floats = .ok ⟨outputType, .integer 8 .Unsigned,
        List.replicate outputType.getNumElements 0, false⟩ := by
    have hlength := length_allocTempBuffer fresh outputType (.integer 8 .Unsigned)
    have hbytes : storageBytes (.integer 8 .Unsigned) outputType.getNumElements =
        outputType.getNumElements := by
      change (8 * outputType.getNumElements + 7) / 8 = _
      omega
    rw [hbytes] at hlength
    rw [helem]
    unfold fillWithZero
    rw [show (allocTempBuffer fresh outputType (.integer 8 .Unsigned)
      false).type.elemType = .integer 8 .Unsigned from helem]
    rw [hlength]
    rfl
  have hdims : content.type.shape.length = 4 := by
    rw [h.shape]
    rfl
  obtain ⟨outputIndex', hrows⟩ := h.foldlM_rows (List.range OC)
    (fun oc hoc => mem_range.mp hoc)
    (show ([] : Buffer).length = 0 * number.size from (Nat.zero_mul _).symm) (Nat.dvd_zero _)
  rw [nil_append, nil_append, ← htotal] at hrows
  refine ⟨outputType, ?_⟩
  unfold transform
  rw [hcompress]
  rw [hzp]
  change (elemType.storageType >>= _ : Except Fault Content) = _
  rw [hnumber]
  change sparsify floats fresh content number zp outputType = _
  unfold sparsify
  rw [hfill]
  rw [throwUnless, if_pos hdims, h.workload, h.shape, hzero]
  change (List.foldlM _ (0, List.replicate outputType.getNumElements 0) (List.range OC) >>= _ :
    Except Fault Content) = _
  rw [hrows]
  rfl

end Pack

section Restore

theorem IsSparsityMap.setBits_eq {map : Buffer} {workloadSize rowSize oc n : ℕ}
    (hmap : IsSparsityMap floats content number zero OC workloadSize rowSize map) (hoc : oc < OC)
    (hn : n ≤ rowSize) :
    setBits map (oc * rowSize) n = (((List.range workloadSize).map fun k =>
      content.weight floats number (oc * workloadSize + k)).take n).countP
        fun value => !sameValue number value zero := by
  have hsplit : List.range n = List.range (min n workloadSize) ++
      (List.range (n - workloadSize)).map fun i => workloadSize + i := by
    rcases Nat.le_total n workloadSize with hle | hle
    · rw [Nat.min_eq_left hle, Nat.sub_eq_zero_of_le hle, range_zero, map_nil,
        append_nil]
    · obtain ⟨d, rfl⟩ := Nat.exists_eq_add_of_le hle
      rw [Nat.min_eq_right hle, Nat.add_sub_cancel_left, range_add]
  have hbits : ∀ k ∈ List.range (min n workloadSize), bitAt map (oc * rowSize + k) = true ↔
      (!sameValue number (content.weight floats number (oc * workloadSize + k)) zero) = true := by
    intro k hk
    have hlt := mem_range.mp hk
    rw [hmap oc hoc k (by omega), decide_eq_true (by omega : k < workloadSize), Bool.true_and]
  have hpadding : ∀ j ∈ (List.range (n - workloadSize)).map fun i => workloadSize + i,
      ¬ bitAt map (oc * rowSize + j) = true := by
    intro j hj
    obtain ⟨i, hi, rfl⟩ := mem_map.mp hj
    have hlt := mem_range.mp hi
    rw [hmap oc hoc _ (by omega), decide_eq_false (by omega : ¬ workloadSize + i < workloadSize)]
    simp
  rw [setBits, hsplit, countP_append, countP_eq_zero.mpr hpadding, Nat.add_zero,
    countP_congr hbits, ← map_take, countP_map, take_range]
  rfl

variable (h : IsWeights floats content number zero OC IC KY KX)
include h

theorem IsWeights.getSparsityMap_ok (hrows : OC = 0 ∨ 8 ∣ IC * KY * KX) (fresh : ℕ → Byte) :
    ∃ map, GetSparsityMapAttr.transform floats fresh content = .ok map ∧
      map.type.shape = [OC, 1, 1, alignValUp (IC * KY * KX) (16 * CHAR_BIT)] ∧
      IsSparsityMap floats content number zero OC (IC * KY * KX)
        (alignValUp (IC * KY * KX) (16 * CHAR_BIT)) map.data := by
  obtain ⟨outputType, hout, hshape, helem⟩ := h.inferOutputType_ok
  obtain ⟨elemType, zp, hzp, hnumber, hzero⟩ := h.zeroValue
  obtain ⟨data, hgenerate, hmap⟩ := h.generateSparsityMap_ok hrows fresh hzero hshape helem
  refine ⟨⟨outputType, sparsityMapElementType, data, false⟩, ?_, hshape, hmap⟩
  unfold GetSparsityMapAttr.transform
  rw [hout]
  rw [hzp]
  change (elemType.storageType >>= _ : Except Fault Content) = _
  rw [hnumber]
  exact hgenerate

/-- The last bits of a map whose rows end within a byte are read from behind the weights. -/
theorem IsWeights.getSparsityMap_error (hOC : OC ≠ 0) (hrows : ¬ 8 ∣ IC * KY * KX)
    (fresh : ℕ → Byte) (map : Content) :
    GetSparsityMapAttr.transform floats fresh content ≠ .ok map := by
  intro htransform
  obtain ⟨outputType, hout, hshape, helem⟩ := h.inferOutputType_ok
  obtain ⟨elemType, zp, hzp, hnumber, hzero⟩ := h.zeroValue
  unfold GetSparsityMapAttr.transform at htransform
  rw [hout, bind_eq_ok] at htransform
  obtain ⟨outputType', heq, htransform⟩ := htransform
  obtain rfl := Except.ok.inj heq
  rw [hzp, bind_eq_ok] at htransform
  obtain ⟨pair, heq, htransform⟩ := htransform
  obtain rfl := Except.ok.inj heq
  change (elemType.storageType >>= fun number =>
    content.generateSparsityMap floats fresh number zp outputType) = _ at htransform
  rw [hnumber] at htransform
  change content.generateSparsityMap floats fresh number zp outputType = _ at htransform
  unfold generateSparsityMap at htransform
  rw [bind_eq_ok] at htransform
  obtain ⟨output, -, htransform⟩ := htransform
  rw [staticCast_eq hzero, hshape, h.workload] at htransform
  change (loop_2d OC _ _ _ >>= _ : Except Fault Content) = _ at htransform
  rw [bind_eq_ok] at htransform
  obtain ⟨data, hloop, -⟩ := htransform
  obtain ⟨group, hgroup⟩ : ∃ group, (IC * KY * KX + CHAR_BIT - 1) / CHAR_BIT = group + 1 ∧
      IC * KY * KX ≤ group * 8 + 7 := by
    unfold CHAR_BIT
    exact ⟨(IC * KY * KX + 8 - 1) / 8 - 1, by omega, by omega⟩
  obtain ⟨oc, rfl⟩ := Nat.exists_eq_succ_of_ne_zero hOC
  have hjob : (oc, group) ∈ List.range (oc + 1) ×ˢ
      List.range ((IC * KY * KX + CHAR_BIT - 1) / CHAR_BIT) := by
    rw [hgroup.1]
    simp
  obtain ⟨before, after, hstep⟩ := foldlM_runs hloop (oc, group) hjob
  rw [bind_eq_ok] at hstep
  obtain ⟨byteValue, hbyte, -⟩ := hstep
  obtain ⟨bits, bits', hbit⟩ := foldlM_runs hbyte 7 (by decide)
  rw [bind_eq_ok] at hbit
  obtain ⟨value, hread, -⟩ := hbit
  refine h.getItem_error ?_ value hread
  change (oc + 1) * (IC * KY * KX) ≤ oc * (IC * KY * KX) + group * 8 + 7
  rw [Nat.succ_mul]
  omega

theorem IsWeights.unpacked_eq {map : Buffer} {rowSize oc k : ℕ}
    (hmap : IsSparsityMap floats content number zero OC (IC * KY * KX) rowSize map)
    (hrow : IC * KY * KX ≤ rowSize) (hoc : oc < OC) (hk : k < IC * KY * KX)
    (hset : bitAt map (oc * rowSize + k) = true) :
    unpacked number.size zero ((List.range OC).map fun oc =>
        (content.kept floats number zero (IC * KY * KX) oc).length) rowSize map
      ((List.range OC).map (content.keptRow floats number zero (IC * KY * KX))).flatten oc k =
        content.weight floats number (oc * (IC * KY * KX) + k) := by
  have hnonzero : (!sameValue number
      (content.weight floats number (oc * (IC * KY * KX) + k)) zero) = true := by
    rw [hmap oc hoc k (by omega)] at hset
    simpa [hk] using hset
  generalize hrank : setBits map (oc * rowSize) k = rank
  have hkept : (content.kept floats number zero (IC * KY * KX) oc)[rank]? =
      some (content.weight floats number (oc * (IC * KY * KX) + k)) := by
    rw [← hrank, hmap.setBits_eq hoc (by omega)]
    apply getElem?_filter_countP
    · simp [hk]
    · exact hnonzero
  have hlengths : ∀ value ∈ content.kept floats number zero (IC * KY * KX) oc,
      value.length = number.size := fun value hvalue => h.length_kept hoc hvalue
  have hfits : rank * number.size + number.size ≤
      (content.kept floats number zero (IC * KY * KX) oc).flatten.length := by
    obtain ⟨hlt, -⟩ := List.getElem?_eq_some_iff.mp hkept
    have hle := Nat.mul_le_mul_right number.size (Nat.succ_le_of_lt hlt)
    rw [Nat.succ_mul] at hle
    rw [h.length_flatten_kept hoc]
    exact hle
  have hchannel : ((List.range OC).map (content.keptRow floats number zero (IC * KY * KX)))[oc]? =
      some (content.keptRow floats number zero (IC * KY * KX) oc) := by simp [hoc]
  have hoffset : channelOffset number.size ((List.range OC).map fun oc =>
      (content.kept floats number zero (IC * KY * KX) oc).length) oc =
      ((((List.range OC).map (content.keptRow floats number zero (IC * KY * KX))).take oc).map
        List.length).sum := by
    rw [channelOffset, ← map_take, ← map_take, take_range, map_map,
      map_map]
    congr 1
    apply List.map_congr_left
    intro i hi
    have hlt := mem_range.mp hi
    exact (h.length_keptRow (by omega)).symm
  have hrowFits : rank * number.size + number.size ≤
      (content.keptRow floats number zero (IC * KY * KX) oc).length := by
    unfold keptRow
    rw [length_append]
    omega
  rw [unpacked, if_pos hset, hrank, hoffset, take_drop_rows hchannel hrowFits, keptRow,
    drop_append_of_le_length (by omega), take_append_of_le_length (by
      rw [length_drop]
      omega)]
  exact take_drop_flatten hlengths hkept

end Restore

/-- The map marks exactly the weights that are kept, as long as the rows of weights are whole
bytes of it. -/
theorem lossless_iff (fresh : ℕ → Byte)
    (h : IsWeights floats content number zero OC IC KY KX) :
    Lossless floats fresh content number zero OC (IC * KY * KX) ↔
      OC = 0 ∨ 8 ∣ IC * KY * KX := by
  constructor
  · rintro ⟨map, counts, kept, rowSize, hmap, -⟩
    by_contra hrows
    obtain ⟨hOC, hpartial⟩ := not_or.mp hrows
    exact h.getSparsityMap_error hOC hpartial fresh map hmap
  · intro hrows
    obtain ⟨map, htransform, hshape, hmap⟩ := h.getSparsityMap_ok hrows fresh
    obtain ⟨outputType, hsparsify⟩ := h.sparsify_ok fresh
    have hrow : IC * KY * KX ≤ alignValUp (IC * KY * KX) (16 * CHAR_BIT) :=
      le_alignValUp _ (by decide)
    refine ⟨map, _, _, _, htransform, h.getNumActualElements_ok, hsparsify, hshape, hmap,
      by simp, ?_⟩
    intro oc hoc
    constructor
    · rw [hmap.setBits_eq hoc le_rfl, List.take_of_length_le (by simpa using hrow),
        List.countP_eq_length_filter]
      simp [hoc, Content.kept]
    · intro k hk
      by_cases hset : bitAt map.data (oc * alignValUp (IC * KY * KX) (16 * CHAR_BIT) + k) = true
      · exact Or.inl (h.unpacked_eq hmap hrow hoc hk hset)
      · refine Or.inr ⟨if_neg hset, ?_⟩
        rw [hmap oc hoc k (by omega)] at hset
        simpa [hk] using hset

section Bytes

theorem numDims_four : (DimsOrder.fromNumDims 4).numDims = 4 := rfl

/-- Bytes of one output channel, one row after the other. -/
def bytesContent (KY KX : ℕ) (data : Buffer) : Content where
  type := ⟨[1, 1, KY, KX], .integer 8 .Unsigned, DimsOrder.fromNumDims 4, numDims_four, trivial⟩
  storageElemType := .integer 8 .Unsigned
  data := data
  isSplat := false

theorem isWeights_bytes {KY KX : ℕ} {data : Buffer} (hdata : data.length = KY * KX)
    (hread : ∀ i < 1 * (1 * KY * KX), ((bytesContent KY KX data).getItem zeroCasts
      (.integer false 1) i).toOption.isSome = true) :
    IsWeights zeroCasts (bytesContent KY KX data) (.integer false 1) [0] 1 1 KY KX where
  shape := rfl
  dense := by
    have hcount : (bytesContent KY KX data).type.getNumElements = KY * KX := by
      simp [NDType.getNumElements, bytesContent]
    refine ⟨rfl, ?_, Or.inr ⟨by simp [bytesContent, getElemTypeSize], Dvd.intro 1 rfl⟩⟩
    rw [hcount]
    change data.length = (8 * (KY * KX) + 7) / 8
    omega
  bytes := by simp [bytesContent, getElemTypeSize]
  perChannel := fun axis haxis => by cases haxis
  zeroValue := ⟨.integer 8 .Unsigned, 0, rfl, rfl, by decide⟩
  readable := by
    intro i hi
    have hsome := hread i hi
    cases hitem : (bytesContent KY KX data).getItem zeroCasts (.integer false 1) i with
    | error fault =>
      rw [hitem] at hsome
      cases hsome
    | ok value => exact ⟨value, rfl⟩

theorem lossless_iff_bytes :
    Lossless zeroCasts (fun _ => 0) (bytesContent 2 4 [0, 1, 0, 2, 3, 0, 0, 4]) (.integer false 1)
      [0] 1 8 :=
  (lossless_iff (fun _ => 0) (isWeights_bytes rfl (by decide))).mpr (Or.inr (by decide))

/-- A kernel of three rows and columns has nine weights, which end within a byte of the map. -/
theorem not_lossless_threeByThree :
    ¬ Lossless zeroCasts (fun _ => 0) (bytesContent 3 3 [0, 1, 0, 2, 3, 0, 0, 4, 5])
      (.integer false 1) [0] 1 9 := by
  rintro ⟨map, _, _, _, hmap, -⟩
  exact (isWeights_bytes rfl (by decide)).getSparsityMap_error (by decide) (by decide) (fun _ => 0)
    map hmap

end Bytes

end Vpux.Const
