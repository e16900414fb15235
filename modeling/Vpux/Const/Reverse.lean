import Mathlib.Algebra.BigOperators.Ring.List
import Mathlib.Tactic.IntervalCases
import Vpux.Const.CopyTo
import Vpux.Data.Mirror

/-! The dimensions of a constant after an axis, backwards (`attributes/reverse.cpp`). -/
namespace Vpux.Const
open Data

structure ReverseAttr where
  axis : ℤ

/-- The values from the first to the last dimension after the axis. -/
def spatialDims (inputShape : List ℕ) (axis : ℤ) : ℕ :=
  ((List.range inputShape.length).reverse.takeWhile fun axisIt : ℕ => axis < axisIt).foldl
    (fun spatialDims axisIt => spatialDims * inputShape.getD axisIt 0) 1

section Impl

variable (floats : FloatCasts) (fresh : ℕ → Byte)

def reverseImpl (number : Number) (input : Content) (outputType : NDType) (axis : ℤ) :
    Except Fault Content := do
  let output := Content.allocTempBuffer fresh outputType outputType.elemType false
  throwUnless (0 ≤ axis ∧ axis < (input.type.getRank : ℤ) - 1)
    "Const::Content::reverse: got unexpected content dimension"
  let spatialDims := spatialDims input.type.shape axis
  let inputValues ← input.getValues floats number
  let inputSize := input.type.getNumElements
  let values ← (List.range inputSize).mapM inputValues
  -- a run begins at every multiple of its length
  let reversedVals := reverseRuns spatialDims ((inputSize + spatialDims - 1) / spatialDims) values
  let data ← copy_n reversedVals.flatten 0 reversedVals.flatten.length 0 output.data
  .ok { output with data := data }

namespace ReverseAttr

def inferOutputType (input : NDType) : NDType := input

/-- The numbers that the elements are reversed as. -/
def storageType (elemType : ElemType) : Except Fault Number :=
  let inputElementType := match elemType with
    | .uniformQuantized isSigned storageWidth _ => ElemType.quantStorageType isSigned storageWidth
    | elemType => elemType
  match inputElementType with
  | .integer 8 .Signed => .ok (.integer true 1)
  | .integer 8 .Unsigned => .ok (.integer false 1)
  | .f16 => .ok (.floating .float16)
  | .bf16 => .ok (.floating .bfloat16)
  | .f32 => .ok (.floating .float)
  | _ => .error (.exception "Unexpected data type")

def transform (attr : ReverseAttr) (input : Content) : Except Fault Content := do
  let outputType := inferOutputType input.type
  let number ← storageType input.type.elemType
  reverseImpl floats fresh number input outputType attr.axis

/-- Every element is the one across from it, along the dimensions after the axis. -/
def Flips (attr : ReverseAttr) (number : Number) (input : Content) : Prop :=
  ∃ data, attr.transform floats fresh input =
      .ok ⟨input.type, input.type.elemType, data, false⟩ ∧
    ∀ x, InBox input.type.shape x → ∃ value,
      input.getItem floats number
        (input.memIndex (mirror input.type.shape attr.axis.toNat x)) = .ok value ∧
      Content.element ⟨input.type, input.type.elemType, data, false⟩ x = .bytes value

end ReverseAttr

/-- All elements are there, and can be read as numbers of a type. -/
structure Readable (storage number : Number) (input : Content) : Prop where
  stored : input.data.length =
    (if input.isSplat then 1 else input.type.getNumElements) * storage.size
  value : ∀ i < input.type.getNumElements, ∃ value, input.getItem floats number i = .ok value

/-- Some stored numbers differ when they are read. -/
def TellsApart (storage number : Number) : Prop :=
  ∃ a b va vb, a.length = storage.size ∧ b.length = storage.size ∧
    checkedCast floats storage number a = .ok va ∧
    checkedCast floats storage number b = .ok vb ∧ va ≠ vb

end Impl

section Run

variable {floats : FloatCasts} {fresh : ℕ → Byte} {attr : ReverseAttr} {storage number : Number}
  {input : Content}

theorem takeWhile_reverse_range (axis n : ℕ) : (List.range n).reverse.takeWhile (axis < ·) =
    ((List.range n).filter (axis < ·)).reverse := by
  induction n with
  | zero => rfl
  | succ n ih =>
    rw [List.range_succ, List.reverse_append, List.filter_append, List.reverse_append,
      List.reverse_singleton, List.singleton_append]
    by_cases hlt : axis < n
    · rw [List.takeWhile_cons_of_pos (by simpa using hlt), ih,
        List.filter_cons_of_pos (by simpa using hlt), List.filter_nil, List.reverse_singleton,
        List.singleton_append]
    · rw [List.takeWhile_cons_of_neg (by simpa using hlt),
        List.filter_cons_of_neg (by simpa using hlt), List.filter_nil, List.reverse_nil,
        List.nil_append, List.filter_eq_nil_iff.mpr, List.reverse_nil]
      intro d hd
      simp only [List.mem_range, decide_eq_true_eq] at hd ⊢
      omega

theorem foldl_mul_eq (f : ℕ → ℕ) (l : List ℕ) (n : ℕ) :
    l.foldl (fun n d => n * f d) n = n * (l.map f).prod := by
  induction l generalizing n with
  | nil => simp
  | cons d l ih => rw [List.foldl_cons, ih, List.map_cons, List.prod_cons, Nat.mul_assoc]

theorem spatialDims_eq (shape : List ℕ) (axis : ℕ) :
    spatialDims shape axis = (shape.drop (axis + 1)).prod := by
  have hfilter : ((List.range shape.length).reverse.takeWhile fun axisIt : ℕ =>
      ((axis : ℕ) : ℤ) < axisIt) = ((List.range shape.length).filter (axis < ·)).reverse := by
    rw [← takeWhile_reverse_range]
    simp only [Nat.cast_lt]
  rw [spatialDims, hfilter, foldl_mul_eq, Nat.one_mul, List.map_reverse, List.prod_reverse,
    ← extent_filter_range, extent]

theorem ReverseAttr.storageType_size {elemType : ElemType}
    (h : storageType elemType = .ok number) :
    getElemTypeSize elemType = CHAR_BIT * number.size := by
  have hsize : ∀ width signedness, storageType (.integer width signedness) = .ok number →
      width = CHAR_BIT * number.size := by
    intro width signedness h
    simp only [storageType] at h
    split at h
    next heq => cases heq; cases h; rfl
    next heq => cases heq; cases h; rfl
    next heq => cases heq
    next heq => cases heq
    next heq => cases heq
    next => cases h
  cases elemType with
  | integer width signedness => exact hsize width signedness h
  | uniformQuantized isSigned storageWidth zp => exact hsize storageWidth _ h
  | uniformQuantizedPerAxis isSigned storageWidth qDim zps => cases h
  | _ =>
    first
      | cases h
        rfl
      | cases h

theorem numRuns_mul {n runs size : ℕ} (h : n = runs * size) :
    (n + size - 1) / size * size = n := by
  rcases Nat.eq_zero_or_pos size with rfl | hsize
  · rw [h, Nat.mul_zero, Nat.mul_zero]
  · have hlast : n + size - 1 = size * runs + (size - 1) := by
      rw [h, Nat.mul_comm]
      omega
    rw [hlast, Nat.mul_add_div hsize, Nat.div_eq_of_lt (by omega), Nat.add_zero, h]

section Values

variable (hread : Readable floats storage number input)
include hread

theorem Readable.getItem_ok {i : ℕ} (hi : i < input.type.getNumElements) :
    input.getItem floats number i = .ok (input.weight floats number i) := by
  obtain ⟨value, hvalue⟩ := hread.value i hi
  rw [Content.weight, hvalue]
  rfl

theorem Readable.length_value {i : ℕ} (hi : i < input.type.getNumElements) :
    (input.weight floats number i).length = number.size :=
  length_getItem (hread.getItem_ok hi)

theorem Readable.getValues_ok (hstorage : dispatchByElemType input.storageElemType = .ok storage) :
    input.getValues floats number = .ok (input.getItem floats number) := by
  have hsplat : input.isSplat = true → input.data.length = storage.size := by
    intro hsplat
    have hstored := hread.stored
    rwa [hsplat, if_pos rfl, Nat.one_mul] at hstored
  unfold Content.getValues
  rw [hstorage]
  dsimp only [bind, Except.bind]
  rw [throwUnless, if_pos hsplat]

variable (fresh) in
/-- The values are written from the last one of their run to the first one. -/
theorem ReverseAttr.transform_runs
    (hstorage : dispatchByElemType input.storageElemType = .ok storage)
    (hnumber : storageType input.type.elemType = .ok number) {axis : ℕ}
    (haxis : attr.axis = axis) (hlt : axis + 1 < input.type.getRank) :
    ∃ data, attr.transform floats fresh input =
        .ok ⟨input.type, input.type.elemType, data, false⟩ ∧
      ∀ i < input.type.getNumElements, block number.size i data =
        input.weight floats number (turned (input.type.shape.drop (axis + 1)).prod i) := by
  have hnum : input.type.getNumElements =
      (input.type.shape.take (axis + 1)).prod * (input.type.shape.drop (axis + 1)).prod := by
    rw [← List.prod_append, List.take_append_drop]
    rfl
  have hruns := numRuns_mul hnum
  generalize hP : (input.type.shape.drop (axis + 1)).prod = P at *
  generalize hN : input.type.getNumElements = N at *
  generalize hR : (N + P - 1) / P = R at *
  have hlength : ((List.range N).map (input.weight floats number)).length = R * P := by
    rw [List.length_map, List.length_range, hruns]
  have hperm := reverseRuns_perm (n := P) R ((List.range N).map (input.weight floats number))
  have hrows : ∀ row ∈ reverseRuns P R ((List.range N).map (input.weight floats number)),
      row.length = number.size := by
    intro row hrow
    obtain ⟨i, hi, rfl⟩ := List.mem_map.mp (hperm.subset hrow)
    exact hread.length_value (hN ▸ List.mem_range.mp hi)
  have hflatten := length_flatten hrows
  rw [hperm.length_eq, hlength, hruns] at hflatten
  generalize hvalues : reverseRuns P R ((List.range N).map (input.weight floats number)) =
    reversed at *
  refine ⟨reversed.flatten, ?_, fun i hi => ?_⟩
  · have hmapM : (List.range N).mapM (input.getItem floats number) =
        .ok ((List.range N).map (input.weight floats number)) :=
      mapM_ok fun i hi => hread.getItem_ok (hN ▸ List.mem_range.mp hi)
    have hsize : (Content.allocTempBuffer fresh input.type input.type.elemType false).data.length =
        N * number.size := by
      rw [length_allocTempBuffer, storageBytes_of_dvd ⟨_, storageType_size hnumber⟩, hN,
        storageType_size hnumber, Nat.mul_div_cancel_left _ (by decide)]
    have hcopy : copy_n reversed.flatten 0 reversed.flatten.length 0
        (Content.allocTempBuffer fresh input.type input.type.elemType false).data =
          .ok reversed.flatten := by
      rw [copy_n, if_pos (by omega), List.drop_zero, List.take_length, store,
        if_pos (by rw [hflatten, hsize, Nat.zero_add]), overwrite, List.take_zero, List.nil_append,
        hflatten, List.drop_eq_nil_of_le (by rw [hsize]; omega), List.append_nil]
    have hrange : 0 ≤ attr.axis ∧ attr.axis < (input.type.getRank : ℤ) - 1 := by omega
    unfold transform inferOutputType
    rw [hnumber]
    change reverseImpl floats fresh number input input.type attr.axis = _
    unfold reverseImpl
    rw [throwUnless, if_pos hrange, hread.getValues_ok hstorage, haxis, spatialDims_eq, hP, hN]
    dsimp only [bind, Except.bind]
    rw [hmapM]
    dsimp only
    rw [hR, hvalues, hcopy]
    rfl
  · have hi' : i < R * P := hruns ▸ hi
    have hget : reversed[i]? = some (input.weight floats number (turned P i)) := by
      rw [← hvalues, getElem?_reverseRuns hlength hi', List.getElem?_map,
        List.getElem?_range (hruns ▸ turned_lt hi')]
      rfl
    exact take_drop_flatten hrows hget

end Values

theorem getItem_dense (hstorage : dispatchByElemType input.storageElemType = .ok storage)
    (hsplat : input.isSplat = false) {n i : ℕ} (hlength : input.data.length = n * storage.size)
    (hi : i < n) : input.getItem floats number i =
      checkedCast floats storage number (block storage.size i input.data) := by
  have hle := Nat.mul_le_mul_right storage.size (Nat.succ_le_of_lt hi)
  rw [Nat.succ_mul] at hle
  have hmem := Content.dispatchByElemType_size_mem hstorage
  have hpos : 0 < storage.size := by
    simp only [List.mem_cons, List.not_mem_nil, or_false] at hmem
    omega
  unfold Content.getItem
  rw [hstorage]
  dsimp only [bind, Except.bind]
  rw [hsplat, if_neg (by decide), throwUnless, if_pos (by omega), if_neg (by omega)]

end Run

theorem NDType.flat_lt {type : NDType} {x : List ℕ} (hx : InBox type.shape x) :
    flat type.shape x type.dimsOrder.toPermutation < type.getNumElements :=
  memIndex_lt hx

theorem NDType.turned_lt (type : NDType) {i : ℕ} (hi : i < type.getNumElements) (n : ℕ) :
    turned (type.shape.drop n).prod i < type.getNumElements := by
  have hnum : type.getNumElements = (type.shape.take n).prod * (type.shape.drop n).prod := by
    rw [← List.prod_append, List.take_append_drop]
    rfl
  rw [hnum] at hi ⊢
  exact Data.turned_lt hi

section Exact

variable {floats : FloatCasts} {storage number : Number} {type : NDType}
  {storageElemType : ElemType}

theorem getItem_marked (hstorage : dispatchByElemType storageElemType = .ok storage)
    {a b va vb : Buffer} (ha : a.length = storage.size) (hb : b.length = storage.size)
    (hva : checkedCast floats storage number a = .ok va)
    (hvb : checkedCast floats storage number b = .ok vb) {k i : ℕ}
    (hk : k < type.getNumElements) (hi : i < type.getNumElements) :
    Content.getItem floats ⟨type, storageElemType,
      markBlock storage.size type.getNumElements k a b, false⟩ number i =
        .ok (if i = k then vb else va) := by
  rw [getItem_dense hstorage rfl (length_markBlock ha hb hk) hi]
  split
  next heq => rw [heq, block_markBlock_self ha hb hk, hvb]
  next hne => rw [block_markBlock_ne ha hb hk hi hne, hva]

theorem ReverseAttr.element_eq {elemType : ElemType} (hnumber : storageType elemType = .ok number)
    (data : Buffer) (x : List ℕ) : Content.element ⟨type, elemType, data, false⟩ x = .bytes
      (block number.size (flat type.shape x type.dimsOrder.toPermutation) data) := by
  have hsize := storageType_size hnumber
  have hbit : getElemTypeSize elemType ≠ 1 := by
    rw [hsize, CHAR_BIT]
    omega
  have hsplat : Content.isSplat ⟨type, elemType, data, false⟩ = false := rfl
  rw [element_of_bytes hsplat hbit, hsize, Nat.mul_div_cancel_left _ (by decide)]
  rfl

/-- Contents of a type are flipped when the dimensions after the axis run fastest in memory, and
only then, as long as the stored elements can differ. -/
theorem ReverseAttr.flips_iff (fresh : ℕ → Byte) (attr : ReverseAttr) (isSplat : Bool)
    (hnumber : storageType type.elemType = .ok number)
    (hstorage : dispatchByElemType storageElemType = .ok storage)
    (hvalues : TellsApart floats storage number)
    (haxis : 0 ≤ attr.axis ∧ attr.axis < (type.getRank : ℤ) - 1) :
    (∀ input : Content, input.type = type → input.storageElemType = storageElemType →
      input.isSplat = isSplat → Readable floats storage number input →
      attr.Flips floats fresh number input) ↔
      isSplat = true ∨ 0 ∈ type.shape ∨
        Innermost type.shape attr.axis.toNat type.dimsOrder.toPermutation := by
  obtain ⟨axis, heq⟩ := Int.eq_ofNat_of_zero_le haxis.1
  have hlt : axis + 1 < type.getRank := by omega
  have hdims : type.dimsOrder.toPermutation.Perm (List.range type.shape.length) := by
    rw [← type.numDims_eq]
    exact type.dimsOrder.isPermutation
  rw [heq, Int.toNat_natCast]
  constructor
  · intro h
    cases isSplat with
    | true => exact .inl rfl
    | false =>
      refine .inr (or_iff_not_imp_left.mpr fun hzero => ?_)
      have hpos : ∀ size ∈ type.shape, 0 < size := fun size hsize =>
        Nat.pos_of_ne_zero fun hnone => hzero (hnone ▸ hsize)
      refine (flat_mirror_iff hdims hpos).mp fun x hx => ?_
      obtain ⟨a, b, va, vb, ha, hb, hva, hvb, hne⟩ := hvalues
      have hat := NDType.flat_lt hx
      have hmirror := NDType.flat_lt (inBox_mirror axis hx)
      have hturned := type.turned_lt hat (axis + 1)
      -- only the element that the code reads for `x` is marked
      generalize hk : turned (type.shape.drop (axis + 1)).prod
        (flat type.shape x type.dimsOrder.toPermutation) = k at *
      have hget : ∀ i < type.getNumElements, Content.getItem floats ⟨type, storageElemType,
          markBlock storage.size type.getNumElements k a b, false⟩ number i =
            .ok (if i = k then vb else va) :=
        fun i hi => getItem_marked hstorage ha hb hva hvb hturned hi
      have hread : Readable floats storage number ⟨type, storageElemType,
          markBlock storage.size type.getNumElements k a b, false⟩ :=
        ⟨length_markBlock ha hb hturned, fun i hi => ⟨_, hget i hi⟩⟩
      obtain ⟨data, hrun, hdata⟩ := h _ rfl rfl rfl hread
      obtain ⟨data', hrun', hdata'⟩ := transform_runs fresh hread hstorage hnumber heq hlt
      obtain rfl : data = data' :=
        congrArg Content.data (Except.ok.inj (hrun.symm.trans hrun'))
      obtain ⟨value, hvalue, helement⟩ := hdata x hx
      have hplaced := hdata' _ hat
      rw [heq, Int.toNat_natCast] at hvalue
      rw [element_eq hnumber, hplaced, hk] at helement
      have hmarked := (hread.getItem_ok hturned).symm.trans (hget k hturned)
      rw [if_pos rfl] at hmarked
      have hacross := Except.ok.inj (hvalue.symm.trans (hget _ hmirror))
      by_contra hother
      apply hne
      rw [← hacross.trans (if_neg hother), ← Element.bytes.inj helement]
      exact Except.ok.inj hmarked
  · rintro h input rfl rfl hsplat hread
    obtain ⟨data, hrun, hdata⟩ := transform_runs fresh hread hstorage hnumber heq hlt
    refine ⟨data, hrun, fun x hx => ?_⟩
    have hat := NDType.flat_lt hx
    have hmirror := NDType.flat_lt (inBox_mirror axis hx)
    refine ⟨_, hread.getItem_ok (by rw [heq, Int.toNat_natCast]; exact hmirror), ?_⟩
    rw [element_eq hnumber, hdata _ hat, heq, Int.toNat_natCast]
    congr 1
    rcases h with rfl | hzero | hinner
    · rw [Content.weight, Content.weight, Content.getItem_of_splat hsplat]
    · exact absurd hx.prod_pos (by rw [List.prod_eq_zero_iff.mpr hzero]; exact lt_irrefl 0)
    · have hpos : ∀ size ∈ input.type.shape, 0 < size := fun size => InBox.pos_of_mem hx
      rw [← (flat_mirror_iff hdims hpos).mpr hinner x hx]
      rfl

end Exact

/-- Two channels of a row with two pixels, in an order of the dimensions. -/
def rowContent (order : DimsOrder) (h : order.numDims = 4) : Content where
  type := ⟨[1, 2, 1, 2], .integer 8 .Unsigned, order, h, trivial⟩
  storageElemType := .integer 8 .Unsigned
  data := [10, 11, 12, 13]
  isSplat := false

theorem getItem_rowContent {order : DimsOrder} (h : order.numDims = 4) : ∀ i < 4,
    (rowContent order h).getItem zeroCasts (.integer false 1) i =
      .ok [(rowContent order h).data.getD i 0] := by
  intro i hi
  interval_cases i <;> rfl

theorem not_flips_channelsLast : ¬ReverseAttr.Flips zeroCasts (fun _ => 0) ⟨1⟩
    (.integer false 1) (rowContent DimsOrder.NHWC rfl) := by
  intro h
  obtain ⟨data, hrun, hdata⟩ := h
  have hvalues : (ReverseAttr.mk 1).transform zeroCasts (fun _ => 0)
      (rowContent DimsOrder.NHWC rfl) = .ok ⟨(rowContent DimsOrder.NHWC rfl).type,
        .integer 8 .Unsigned, [11, 10, 13, 12], false⟩ := by decide
  obtain rfl : data = [11, 10, 13, 12] :=
    congrArg Content.data (Except.ok.inj (hrun.symm.trans hvalues))
  have horigin : InBox [1, 2, 1, 2] [0, 0, 0, 0] := by simp
  obtain ⟨value, hvalue, helement⟩ := hdata [0, 0, 0, 0] horigin
  have hacross := hvalue.symm.trans (getItem_rowContent rfl 2 (by decide))
  have hfirst : Element.bytes [11] = .bytes value := helement
  rw [Except.ok.inj hacross] at hfirst
  exact absurd hfirst (by decide)

theorem flips_channelsFirst : ReverseAttr.Flips zeroCasts (fun _ => 0) ⟨1⟩
    (.integer false 1) (rowContent (DimsOrder.fromNumDims 4) rfl) :=
  (ReverseAttr.flips_iff (fun _ => 0) ⟨1⟩ false rfl rfl
    ⟨[0], [1], [0], [1], rfl, rfl, by decide, by decide, by decide⟩ (by decide)).mpr (by decide)
    _ rfl rfl rfl ⟨rfl, fun i hi => ⟨_, getItem_rowContent rfl i hi⟩⟩

end Vpux.Const
