import Vpux.Const.Broadcast
import Vpux.Const.PadWithZero
import Vpux.Const.SubView

/-! What views, padding and broadcasts of a constant hold at every coordinate, in every layout. -/
namespace Vpux.Const
open Data

/-- The rank decides how the elements are copied, and not what is copied. -/
def RankIndependent (floats : FloatCasts) (input : Content) : Prop :=
  let order := input.type.dimsOrder
  let inMemShape := input.type.getMemShape
  let elemSize := getElemTypeSize input.storageElemType / CHAR_BIT
  (∀ attr : SubViewAttr, attr.Legal input.type → getElemTypeSize input.storageElemType ≠ 1 →
    ∀ outBuf : Buffer, outBuf.length = (order.memoryOrder attr.shape).prod * elemSize →
      SubViewAttr.viewElements elemSize input.data (order.memoryOrder attr.offset) inMemShape
          (order.memoryOrder attr.shape) (order.memoryOrder attr.shape).prod outBuf =
        loop_1d (order.memoryOrder attr.shape).prod
          (SubViewAttr.viewElement elemSize input.data (order.memoryOrder attr.offset) inMemShape
            (order.memoryOrder attr.shape)) outBuf) ∧
  ∀ attr : PadWithZeroAttr, attr.Legal floats input.type input.storageElemType →
    let outMemShape :=
      order.memoryOrder (paddedShape input.type.shape attr.padBefore attr.padAfter)
    ∀ outBuf : Buffer, outBuf.length = outMemShape.prod * elemSize →
      PadWithZeroAttr.padElements elemSize input.isSplat input.data
          (order.memoryOrder attr.padBefore) inMemShape outMemShape inMemShape.prod outBuf =
        loop_1d inMemShape.prod
          (PadWithZeroAttr.padElement elemSize input.isSplat input.data
            (order.memoryOrder attr.padBefore) inMemShape outMemShape) outBuf

theorem rankIndependent (floats : FloatCasts) {input : Content} (hdense : input.Dense) :
    RankIndependent floats input := by
  constructor
  · intro attr hlegal hone outBuf hout
    obtain ⟨hbits, hdvd⟩ := hdense.width.resolve_left hone
    refine SubViewAttr.viewElements_eq (elemSize_pos hbits hdvd) (by simp) hlegal.part ?_ hout
    rw [hdense.stored, storageBytes_of_dvd hdvd, NDType.prod_getMemShape]
  · intro attr hlegal outMemShape outBuf hout
    obtain ⟨hbits, hdvd⟩ := hlegal.stored
    have hsrc : ∀ k, InBox input.type.getMemShape k →
        PadWithZeroAttr.srcIndex input.isSplat input.type.getMemShape k <
          input.type.getMemShape.prod := by
      intro k hk
      rw [PadWithZeroAttr.srcIndex, hdense.notSplat]
      exact rowMajor_lt hk
    refine PadWithZeroAttr.padElements_eq (elemSize_pos hbits hdvd) (by simp [NDType.getMemShape])
      hlegal.part hsrc (fun _ => rfl) ?_ hout
    rw [hdense.stored, storageBytes_of_dvd hdvd, NDType.prod_getMemShape]

/-- A view holds the input's element at the coordinate plus the offset, a padded constant the one
at the coordinate minus the padding or the zero value, and a broadcast one the element at the
coordinate modulo the input's size along the axis. -/
theorem transform_elements (floats : FloatCasts) (fresh : ℕ → Byte) {input : Content}
    (hdense : input.Dense) :
    (∀ attr : SubViewAttr, attr.Legal input.type →
      ∃ output, attr.transform fresh input = .ok output ∧ output.type.shape = attr.shape ∧
        output.type.dimsOrder = input.type.dimsOrder ∧ output.Dense ∧
        ∀ x, InBox attr.shape x → output.element x = input.element (shift x attr.offset)) ∧
    (∀ attr : PadWithZeroAttr, attr.Legal floats input.type input.storageElemType →
      ∃ output, attr.transform floats fresh input = .ok output ∧
        output.type.shape = paddedShape input.type.shape attr.padBefore attr.padAfter ∧
        output.type.dimsOrder = input.type.dimsOrder ∧ output.Dense ∧
        (∀ x, InBox input.type.shape x →
          output.element (shift x attr.padBefore) = input.element x) ∧
        ∀ x, InBox output.type.shape x →
          (∀ y, InBox input.type.shape y → shift y attr.padBefore ≠ x) →
            ∃ value, Content.zeroValue floats output.type output.storageElemType x = .ok value ∧
              output.element x = .bytes value) ∧
    (∀ attr : BroadcastAttr, attr.Legal input.type input.storageElemType →
      ∃ output, attr.transform fresh input = .ok output ∧
        output.type.shape = input.type.shape.set attr.axis attr.value ∧
        output.type.dimsOrder = input.type.dimsOrder ∧ output.Dense ∧
        ∀ x, InBox output.type.shape x →
          output.element x = input.element (attr.source input.type.shape x)) ∧
    RankIndependent floats input :=
  ⟨fun _ => SubViewAttr.transform_element fresh hdense,
    fun _ => PadWithZeroAttr.transform_element fresh hdense,
    fun _ => BroadcastAttr.transform_element fresh hdense, rankIndependent floats hdense⟩

section Pair

theorem numDims_pair : (DimsOrder.fromNumDims 1).numDims = [2].length := rfl

/-- Two bytes in a row. -/
def pairContent : Content where
  type := ⟨[2], .integer 8 .Unsigned, DimsOrder.fromNumDims 1, numDims_pair, trivial⟩
  storageElemType := .integer 8 .Unsigned
  data := [7, 9]
  isSplat := false

theorem transform_elements_pair :
    ∃ output, BroadcastAttr.transform (fun _ => 0) ⟨0, 4⟩ pairContent = .ok output ∧
      output.element [2] = .bytes [7] ∧ output.element [3] = .bytes [9] := by
  have hdense : pairContent.Dense := ⟨rfl, by decide, Or.inr (by decide)⟩
  have hlegal : BroadcastAttr.Legal ⟨0, 4⟩ pairContent.type pairContent.storageElemType :=
    ⟨by decide, by decide, by decide, by decide, by decide,
      by simp [Expandable, pairContent, ElemType.quantizedAxis]⟩
  obtain ⟨output, hrun, hshape, _, _, helement⟩ :=
    (transform_elements zeroCasts (fun _ => 0) hdense).2.2.1 ⟨0, 4⟩ hlegal
  refine ⟨output, hrun, ?_, ?_⟩
  · rw [helement [2] (by rw [hshape]; decide)]
    decide
  · rw [helement [3] (by rw [hshape]; decide)]
    decide

/-- The copies of a broadcast repeat the whole axis, not its first element. -/
theorem not_broadcast_first :
    ∃ output, BroadcastAttr.transform (fun _ => 0) ⟨0, 4⟩ pairContent = .ok output ∧
      ¬ ∀ x, InBox output.type.shape x → output.element x = pairContent.element (x.set 0 0) := by
  refine ⟨⟨⟨[4], .integer 8 .Unsigned, DimsOrder.fromNumDims 1, rfl, trivial⟩,
    .integer 8 .Unsigned, [7, 9, 7, 9], false⟩, by decide, ?_⟩
  intro h
  exact absurd (h [1] (by decide)) (by decide)

end Pair

end Vpux.Const
