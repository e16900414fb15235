import Mathlib.Algebra.Order.BigOperators.GroupWithZero.List
import Vpux.Dma.PermuteRun

/-! The transfers of a permutation move every element where it belongs. With expanded channels
they do so only when nothing was merged with the last dimension. -/
namespace Vpux.Dma
open Data Vpux.Const

namespace PermuteDMAOp

/-- The size that the permutation puts last. -/
def lastSize (op : PermuteDMAOp) : ℕ :=
  (op.memPerm.memoryOrder (getMemShape op.input)).getLastD 0

/-- The last dimension is not of size one and merged with none that is not. -/
def LastAlone (op : PermuteDMAOp) : Prop :=
  op.lastSize ≠ 1 ∧ ∀ d ∈ ((runs op.memPerm.toPermutation).getLastD []).dropLast,
    (getMemShape op.input).getD d 0 = 1

/-- The channels are put last, or behind nothing but sizes of one. -/
def ChannelsOutside (op : PermuteDMAOp) : Prop :=
  op.memPerm.toPermutation.getLast? = some op.channelDim ∨
    ∀ d ∈ op.memPerm.toPermutation.takeWhile (· ≠ op.channelDim),
      (getMemShape op.input).getD d 0 = 1

instance (op : PermuteDMAOp) : Decidable op.LastAlone := inferInstanceAs (Decidable (_ ∧ _))

instance (op : PermuteDMAOp) : Decidable op.ChannelsOutside :=
  inferInstanceAs (Decidable (_ ∨ _))

variable {op : PermuteDMAOp} {channels elemTypeSize : ℕ} {x : List ℕ × ℕ} {dmaPortCount : ℕ}

open DimsOrder List

section Target

theorem source_injective {x y : List ℕ × ℕ} (hx : op.IsPoint elemTypeSize x)
    (hy : op.IsPoint elemTypeSize y) (h : op.source elemTypeSize x = op.source elemTypeSize y) :
    x = y := by
  obtain ⟨hrow, hbyte⟩ := digits_injective hx.2 hy.2 (Nat.add_left_cancel h)
  exact Prod.ext (rowMajor_injective hx.1 hy.1 hrow) hbyte

theorem source_lt (hx : op.IsPoint elemTypeSize x) :
    op.source elemTypeSize x < op.srcOffset + (getMemShape op.input).prod * elemTypeSize :=
  Nat.add_lt_add_left (digits_lt (rowMajor_lt hx.1) hx.2) _

variable (hop : op.IsPermute channels elemTypeSize)
include hop

theorem memShape_length : (getMemShape op.input).length = op.memPerm.numDims := by
  rw [getMemShape, length_memoryOrder, op.input.numDims_eq, hop.numDims]

theorem one_lt_numDims : 1 < op.input.dimsOrder.numDims := by
  rw [op.input.numDims_eq]
  exact hop.two_le

theorem output_eq : getMemShape op.output =
    op.memPerm.memoryOrder ((getMemShape op.input).set op.channelDim channels) := by
  rw [hop.output, memoryOrder_set op.input.numDims_eq.symm (one_lt_numDims hop)]
  rfl

theorem getD_channelDim : (getMemShape op.input).getD op.channelDim 0 = op.inputChannels := by
  have hlt : op.channelDim < op.input.dimsOrder.numDims :=
    dimPos_lt (one_lt_numDims hop)
  rw [getMemShape, getD_eq_getElem _ _ (by simpa using hlt), getElem_memoryOrder,
    channelDim, dimAt_dimPos (one_lt_numDims hop)]
  rfl

theorem channelDim_lt : op.channelDim < (getMemShape op.input).length := by
  rw [getMemShape, length_memoryOrder]
  exact dimPos_lt (one_lt_numDims hop)

theorem extent_pos (dims : List ℕ) (hdims : ∀ d ∈ dims, d < (getMemShape op.input).length) :
    0 < extent (getMemShape op.input) dims := by
  apply prod_pos
  intro size hsize
  obtain ⟨d, hd, rfl⟩ := mem_map.mp hsize
  have hlt := hdims d hd
  unfold getMemShape at hlt ⊢
  have hd' : op.input.dimsOrder.dimAt d < op.input.shape.length := by
    rw [← op.input.numDims_eq]
    exact dimAt_lt (by simpa using hlt)
  rw [getD_eq_getElem _ _ hlt, getElem_memoryOrder,
    getD_eq_getElem _ _ hd']
  exact hop.positive _ (getElem_mem hd')

theorem inputChannels_pos : 0 < op.inputChannels := by
  have hpos := extent_pos hop [op.channelDim] (by simp [channelDim_lt hop])
  rwa [extent_cons, extent, map_nil, prod_nil, mul_one, getD_channelDim hop] at hpos

theorem sameSize_iff : op.SameSize ↔ channels = op.inputChannels := by
  have hlength : (op.input.shape.set 1 channels).length = op.input.dimsOrder.numDims := by
    rw [length_set, op.input.numDims_eq]
  have hnum : (op.input.dimsOrder.memoryOrder (op.input.shape.set 1 channels)).length =
      op.memPerm.numDims := by
    rw [length_memoryOrder, op.input.numDims_eq, hop.numDims]
  have houtput : op.output.shape.prod = (op.input.shape.set 1 channels).prod := by
    rw [← prod_memoryOrder op.output.numDims_eq.symm,
      ← prod_memoryOrder hlength, ← prod_memoryOrder hnum]
    exact congrArg List.prod hop.output
  have hpositive := hop.positive
  have htwo := hop.two_le
  rw [SameSize, houtput, inputChannels]
  generalize op.input.shape = shape at *
  match shape with
  | [] => simp at htwo
  | [_] => simp at htwo
  | first :: c :: rest =>
    have hfirst : first ≠ 0 := (hpositive first (by simp)).ne'
    have hrest : rest.prod ≠ 0 := (prod_pos fun size hsize => hpositive size
      (mem_cons_of_mem _ (mem_cons_of_mem _ hsize))).ne'
    simp [hfirst, hrest, eq_comm]

theorem inBox_output (hx : op.IsPoint elemTypeSize x) :
    InBox (getMemShape op.output) (op.memPerm.memoryOrder x.1) := by
  rw [output_eq hop]
  apply inBox_memoryOrder _ (by rw [length_set, memShape_length hop])
  apply inBox_of_getElem (by rw [hx.1.length_eq, length_set])
  intro d hd hd'
  have hlt := hx.1.getElem_lt hd (by simpa using hd')
  rw [getElem_set]
  split
  next hchannel =>
    have hle := hop.channels_le
    have hvalue := getD_channelDim hop
    rw [hchannel, getD_eq_getElem _ _ (by simpa using hd')] at hvalue
    omega
  next => exact hlt

theorem target_injective {x y : List ℕ × ℕ} (hx : op.IsPoint elemTypeSize x)
    (hy : op.IsPoint elemTypeSize y) (h : op.target elemTypeSize x = op.target elemTypeSize y) :
    x = y := by
  obtain ⟨hrow, hbyte⟩ := digits_injective hx.2 hy.2 (Nat.add_left_cancel h)
  have hpoint := rowMajor_injective (inBox_output hop hx) (inBox_output hop hy) hrow
  refine Prod.ext (op.memPerm.memoryOrder_injective ?_ ?_ hpoint) hbyte
  · rw [hx.1.length_eq, memShape_length hop]
  · rw [hy.1.length_eq, memShape_length hop]

theorem target_lt (hx : op.IsPoint elemTypeSize x) :
    op.target elemTypeSize x <
      op.dstOffset + (getMemShape op.output).prod * elemTypeSize :=
  Nat.add_lt_add_left (digits_lt (rowMajor_lt (inBox_output hop hx)) hx.2) _

theorem performs_of_encodes {dmaDescriptor : DMADescriptorAttr} {encode : List ℕ × ℕ → Job}
    (h : Encodes ((op.planeSubs dmaPortCount dmaDescriptor).map SubDMA.copy)
      (op.IsPoint elemTypeSize) (op.source elemTypeSize) (op.target elemTypeSize) encode) :
    op.Performs elemTypeSize (op.planeSubs dmaPortCount dmaDescriptor) := by
  constructor
  · exact h.moves fun x y hx hy => target_injective hop hx hy
  · intro job s d hjob
    obtain ⟨x, hx, rfl⟩ := h.onto job s d hjob
    exact ⟨x, hx, (hjob.unique (h.transfers x hx)).2⟩
  · exact h.writesWithin fun x hx => ⟨Nat.le_add_right _ _, target_lt hop hx⟩
  · intro job s d hjob
    obtain ⟨x, hx, rfl⟩ := h.onto job s d hjob
    rw [(hjob.unique (h.transfers x hx)).1]
    exact ⟨Nat.le_add_right _ _, source_lt hx⟩
  · intro dma hdma
    obtain ⟨k, -, rfl⟩ := mem_map.mp hdma
    exact Nat.min_le_left _ _

theorem exists_split : ∃ before after,
    op.memPerm.toPermutation = before ++ op.channelDim :: after ∧
      op.channelDim ∉ before ∧ op.channelDim ∉ after := by
  have hmem : op.channelDim ∈ op.memPerm.toPermutation := by
    rw [mem_toPermutation, ← memShape_length hop]
    exact channelDim_lt hop
  obtain ⟨before, after, hsplit⟩ := append_of_mem hmem
  have hnodup := op.memPerm.nodup_toPermutation
  rw [hsplit, nodup_append] at hnodup
  obtain ⟨-, hafter, hdisjoint⟩ := hnodup
  exact ⟨before, after, hsplit, fun h => hdisjoint _ h _ mem_cons_self rfl,
    (nodup_cons.mp hafter).1⟩

variable {before after : List ℕ}
  (hsplit : op.memPerm.toPermutation = before ++ op.channelDim :: after)
include hsplit

theorem dims_lt {d : ℕ} (hd : d ∈ before ∨ d ∈ after) : d < (getMemShape op.input).length := by
  rw [memShape_length hop, ← mem_toPermutation, hsplit, mem_append, mem_cons]
  rcases hd with hd | hd
  · exact .inl hd
  · exact .inr (.inr hd)

theorem exists_row (hbefore : op.channelDim ∉ before) (hafter : op.channelDim ∉ after)
    (hx : op.IsPoint elemTypeSize x) :
    ∃ row rest, rest < op.inputChannels * extent (getMemShape op.input) after ∧
      flat (getMemShape op.input) x.1 (nonUnit (getMemShape op.input) op.memPerm.toPermutation) =
        row * (op.inputChannels * extent (getMemShape op.input) after) + rest ∧
      rowMajor (getMemShape op.output) (op.memPerm.memoryOrder x.1) =
        row * (channels * extent (getMemShape op.input) after) + rest := by
  have hdim : ∀ d, d ∈ before ∨ d ∈ after → x.1.getD d 0 < (getMemShape op.input).getD d 0 :=
    fun d hd => InBox.getD_lt hx.1 (dims_lt hop hsplit hd)
  have hchannel := InBox.getD_lt hx.1 (channelDim_lt hop)
  have hother : ∀ dims : List ℕ, op.channelDim ∉ dims →
      dims.map (fun d => ((getMemShape op.input).set op.channelDim channels).getD d 0) =
        dims.map fun d => (getMemShape op.input).getD d 0 := by
    intro dims hdims
    apply map_congr_left
    intro d hd
    have hne : op.channelDim ≠ d := fun h => hdims (h ▸ hd)
    simp [getElem?_set_ne hne]
  have hset : ((getMemShape op.input).set op.channelDim channels).getD op.channelDim 0 =
      channels := by simp [channelDim_lt hop]
  have hcons : flat (getMemShape op.input) x.1 (op.channelDim :: after) =
      x.1.getD op.channelDim 0 * extent (getMemShape op.input) after +
        flat (getMemShape op.input) x.1 after := rfl
  rw [getD_channelDim hop] at hchannel
  refine ⟨flat (getMemShape op.input) x.1 before, x.1.getD op.channelDim 0 *
    extent (getMemShape op.input) after + flat (getMemShape op.input) x.1 after,
    digits_lt hchannel (flat_lt fun d hd => hdim d (.inr hd)), ?_, ?_⟩
  · rw [flat_nonUnit, hsplit, flat_append, extent_cons, getD_channelDim hop, hcons]
    intro d hd
    apply InBox.getD_lt hx.1
    rwa [memShape_length hop, ← mem_toPermutation]
  · rw [output_eq hop, memoryOrder, memoryOrder, hsplit, map_append,
      map_append, rowMajor_append (by simp), map_cons, map_cons, hset,
      hother _ hbefore, hother _ hafter, prod_cons]
    rfl

end Target

/-- Rows of `A` elements put `X` apart are rows of `K` elements put `Y` apart only when there is
one row of `K`, or the rows are the same. -/
theorem spread_iff {A B F K X Y : ℕ} (hB : 1 < B) (hA : 0 < A) (hKY : K < Y)
    (htotal : B * A = F * K) :
    (∀ b < B, ∀ a < A, ∀ f, ∀ r < K, b * A + a = f * K + r → b * X + a = f * Y + r) ↔
      (F = 1 ∧ X = A) ∨ (F ≠ 1 ∧ A = K ∧ X = Y) := by
  constructor
  · intro h
    have hAB : 2 * A ≤ F * K := htotal ▸ Nat.mul_le_mul_right A hB
    by_cases hF : F = 1
    · rw [hF, one_mul] at hAB
      have hrow := h 1 hB 0 hA 0 A (by omega) (by omega)
      exact .inl ⟨hF, by omega⟩
    · have hF0 : F ≠ 0 := by
        rintro rfl
        omega
      have hF2 : 2 * K ≤ F * K := Nat.mul_le_mul_right K (by omega)
      have hK : 0 < K := by
        by_contra hK
        rw [Nat.eq_zero_of_not_pos hK, Nat.mul_zero] at hAB
        omega
      obtain ⟨b, hb, a, ha, hba⟩ := exists_digits (show K < B * A by omega)
      have hjump := h b hb a ha 1 0 hK (by omega)
      rcases lt_trichotomy A K with hlt | heq | hlt
      · have hrow := h 1 hB 0 hA 0 A hlt (by omega)
        obtain rfl : X = A := by omega
        omega
      · have hrow := h 1 hB 0 hA 1 0 hK (by omega)
        exact .inr ⟨hF, heq, by omega⟩
      · have hdigits : 0 * A + K = b * A + a := by omega
        obtain ⟨rfl, rfl⟩ := digits_injective hlt ha hdigits
        omega
  · rintro (⟨rfl, rfl⟩ | ⟨-, rfl, rfl⟩)
    · intro b hb a ha f r hr heq
      have hlt := digits_lt hb ha
      have hf : f = 0 := by
        by_contra hf
        have hle := Nat.mul_le_mul_right K (Nat.one_le_iff_ne_zero.mpr hf)
        omega
      rw [hf] at heq ⊢
      omega
    · intro b hb a ha f r hr heq
      obtain ⟨rfl, rfl⟩ := digits_injective ha hr heq
      rfl

section Channels

variable {A B : List ℕ}

theorem encodes_twoAxis (elemTypeSize dmaPortCount X : ℕ) (hblocks : A ++ B ++ [] =
      nonUnit (getMemShape op.input) (List.range (getMemShape op.input).length)) :
    ∃ encode, Encodes ((op.planeSubs dmaPortCount (frontDescriptor
        (extent (getMemShape op.input) A) (extent (getMemShape op.input) B)
        (extent (getMemShape op.input) []) X elemTypeSize)).map SubDMA.copy)
      (op.IsPoint elemTypeSize) (op.source elemTypeSize)
      (fun x => op.dstOffset + ((flat (getMemShape op.input) x.1 B * X +
        flat (getMemShape op.input) x.1 A) * elemTypeSize + x.2)) encode := by
  obtain ⟨encode, h⟩ := encodes_front elemTypeSize dmaPortCount hblocks X
  refine ⟨encode, h.congr fun x _ => ?_⟩
  simp [extent, flat, rowMajor]

variable (hop : op.IsPermute channels elemTypeSize)
include hop

theorem target_eq {r : List (List ℕ)}
    (hruns : nonUnitRuns (getMemShape op.input) op.memPerm.toPermutation = r)
    (hsame : channels = op.inputChannels) (hx : op.IsPoint elemTypeSize x) :
    op.target elemTypeSize x =
      op.dstOffset + (flat (getMemShape op.input) x.1 r.flatten * elemTypeSize + x.2) := by
  obtain ⟨before, after, hsplit, hbefore, hafter⟩ := exists_split hop
  obtain ⟨row, rest, -, hflat, hrow⟩ := exists_row hop hsplit hbefore hafter hx
  rw [target, ← hruns, flatten_nonUnitRuns, hflat, hrow, hsame]

theorem performs_of_same {dmas : List SubDMA} (hunrolls : op.Unrolls elemTypeSize dmaPortCount dmas)
    (hsame : channels = op.inputChannels) : op.Performs elemTypeSize dmas := by
  have hsame' := (sameSize_iff hop).mpr hsame
  cases hunrolls with
  | twoAxis A B X hblocks hruns _ hX _ =>
    obtain ⟨encode, h⟩ := encodes_twoAxis elemTypeSize dmaPortCount X hblocks
    refine performs_of_encodes hop (h.congr fun x hx => ?_)
    rw [target_eq hop hruns hsame hx, hX hsame']
    simp [flat_append]
  | swapFront A B C hblocks hruns _ =>
    obtain ⟨encode, h⟩ := encodes_front elemTypeSize dmaPortCount hblocks
      (extent (getMemShape op.input) A)
    refine performs_of_encodes hop (h.congr fun x hx => ?_)
    rw [target_eq hop hruns hsame hx]
    simp only [flatten_cons, flatten_nil, append_nil, flat_append, extent_append]
    ring
  | swapBack A B C hblocks hruns _ =>
    obtain ⟨encode, h⟩ := encodes_back elemTypeSize dmaPortCount hblocks
    refine performs_of_encodes hop (h.congr fun x hx => ?_)
    rw [target_eq hop hruns hsame hx]
    simp only [flatten_cons, flatten_nil, append_nil, flat_append, extent_append]
    ring

theorem one_lt_extents (hblocks : A ++ B ++ [] =
      nonUnit (getMemShape op.input) (List.range (getMemShape op.input).length))
    (hruns : nonUnitRuns (getMemShape op.input) op.memPerm.toPermutation = [B, A]) :
    1 < extent (getMemShape op.input) A ∧ 1 < extent (getMemShape op.input) B := by
  have hone : ∀ r ∈ [B, A], 1 < extent (getMemShape op.input) r := by
    intro r hr
    have hmem : r ∈ nonUnitRuns (getMemShape op.input) op.memPerm.toPermutation := hruns ▸ hr
    have hne := extent_ne_one_of_mem hmem
    have hpos := extent_pos hop r fun d hd => by
      have hmem : d ∈ A ++ B ++ [] := by
        simp only [mem_cons, not_mem_nil, or_false] at hr
        rcases hr with rfl | rfl <;> simp [hd]
      rw [hblocks] at hmem
      exact mem_range.mp (mem_filter.mp hmem).1
    omega
  exact ⟨hone A (by simp), hone B (by simp)⟩

omit hop in
theorem nonUnit_perm_eq
    (hruns : nonUnitRuns (getMemShape op.input) op.memPerm.toPermutation = [B, A]) :
    nonUnit (getMemShape op.input) op.memPerm.toPermutation = B ++ A := by
  rw [← flatten_nonUnitRuns, hruns]
  simp

theorem extent_mul {A B before after : List ℕ}
    (hruns : nonUnitRuns (getMemShape op.input) op.memPerm.toPermutation = [B, A])
    (hsplit : op.memPerm.toPermutation = before ++ op.channelDim :: after) :
    extent (getMemShape op.input) B * extent (getMemShape op.input) A =
      extent (getMemShape op.input) before *
        (op.inputChannels * extent (getMemShape op.input) after) := by
  rw [← extent_append, ← nonUnit_perm_eq hruns, extent_nonUnit, hsplit, extent_append,
    extent_cons, getD_channelDim hop]

/-- Rows of the last merged dimension, `X` apart, are right when they are the whole output, or
rows of the channels and what follows them. -/
theorem performs_twoAxis_iff {dmaPortCount X : ℕ} {A B before after : List ℕ}
    (hblocks : A ++ B ++ [] =
      nonUnit (getMemShape op.input) (List.range (getMemShape op.input).length))
    (hruns : nonUnitRuns (getMemShape op.input) op.memPerm.toPermutation = [B, A])
    (hsplit : op.memPerm.toPermutation = before ++ op.channelDim :: after)
    (hbefore : op.channelDim ∉ before) (hafter : op.channelDim ∉ after)
    (hpositive : 0 < elemTypeSize) (hlt : op.inputChannels < channels) :
    op.Performs elemTypeSize (op.planeSubs dmaPortCount (frontDescriptor
        (extent (getMemShape op.input) A) (extent (getMemShape op.input) B)
        (extent (getMemShape op.input) []) X elemTypeSize)) ↔
      (extent (getMemShape op.input) before = 1 ∧ X = extent (getMemShape op.input) A) ∨
        (extent (getMemShape op.input) before ≠ 1 ∧ extent (getMemShape op.input) A =
          op.inputChannels * extent (getMemShape op.input) after ∧
            X = channels * extent (getMemShape op.input) after) := by
  obtain ⟨encode, h⟩ := encodes_twoAxis elemTypeSize dmaPortCount X hblocks
  have hflat : ∀ point, flat (getMemShape op.input) point
      (nonUnit (getMemShape op.input) op.memPerm.toPermutation) =
        flat (getMemShape op.input) point B * extent (getMemShape op.input) A +
          flat (getMemShape op.input) point A := by
    intro point
    rw [nonUnit_perm_eq hruns, flat_append]
  have hK : op.inputChannels * extent (getMemShape op.input) after <
      channels * extent (getMemShape op.input) after :=
    Nat.mul_lt_mul_of_pos_right hlt (extent_pos hop after fun d hd => dims_lt hop hsplit (.inr hd))
  obtain ⟨hA, hB⟩ := one_lt_extents hop hblocks hruns
  rw [← spread_iff hB (by omega) hK (extent_mul hop hruns hsplit)]
  constructor
  · intro hperforms b hb a ha f r hr hdigits
    obtain ⟨point, hbox, rfl, rfl, -⟩ := exists_point hblocks ha hb zero_lt_one
    obtain ⟨row, rest, hrest, hrow, htarget⟩ := exists_row hop hsplit hbefore hafter
      (x := (point, 0)) ⟨hbox, hpositive⟩
    have hreached := h.eq_of_moves (fun x y hx hy => source_injective hx hy) hperforms.moves
      (x := (point, 0)) ⟨hbox, hpositive⟩
    obtain ⟨rfl, rfl⟩ := digits_injective hr hrest
      (hdigits.symm.trans ((hflat point).symm.trans hrow))
    rw [target, htarget] at hreached
    simpa [hpositive.ne'] using hreached
  · intro hspread
    refine performs_of_encodes hop (h.congr fun x hx => ?_)
    obtain ⟨row, rest, hrest, hrow, htarget⟩ := exists_row hop hsplit hbefore hafter hx
    obtain ⟨hA, hB, -⟩ := flat_blocks_lt hblocks hx.1
    rw [target, htarget,
      hspread _ hB _ hA row rest hrest ((hflat x.1).symm.trans hrow)]

/-- The last merged dimension is the last one when this is not of size one and alone. -/
theorem extent_eq_lastSize_iff
    (hruns : nonUnitRuns (getMemShape op.input) op.memPerm.toPermutation = [B, A]) :
    extent (getMemShape op.input) A = op.lastSize ↔ op.LastAlone := by
  obtain ⟨front, run, hsplit⟩ : ∃ front run,
      runs op.memPerm.toPermutation = front ++ [run] := by
    rcases eq_nil_or_concat (runs op.memPerm.toPermutation) with hnil | hconcat
    · simp [nonUnitRuns, hnil] at hruns
    · simpa only [concat_eq_append] using hconcat
  obtain ⟨first, n, hrange⟩ := exists_range'_of_mem_runs (l := op.memPerm.toPermutation)
    (r := run) (by simp [hsplit])
  obtain ⟨before, d, rfl⟩ : ∃ before d, run = before ++ [d] :=
    ⟨_, _, hrange.trans (range'_concat ..)⟩
  have hsize : op.lastSize = (getMemShape op.input).getD d 0 := by
    rw [lastSize, memoryOrder, ← flatten_runs op.memPerm.toPermutation, hsplit]
    simp
  have hrun : extent (getMemShape op.input) (before ++ [d]) =
      extent (getMemShape op.input) before * op.lastSize := by
    rw [extent_append, hsize]
    simp [extent]
  have hlast : op.lastSize ≠ 1 → A = nonUnit (getMemShape op.input) (before ++ [d]) := by
    intro hne
    have hmem : nonUnit (getMemShape op.input) (before ++ [d]) ≠ [] := by
      rw [hsize] at hne
      apply ne_nil_of_mem (a := d)
      exact mem_filter.mpr ⟨by simp, by simpa using hne⟩
    rw [nonUnitRuns, hsplit, map_append, filter_append, map_singleton,
      filter_cons_of_pos (by simpa using hmem), filter_nil] at hruns
    have := congrArg List.getLast? hruns
    simpa using this.symm
  have halone : op.LastAlone ↔ op.lastSize ≠ 1 ∧ extent (getMemShape op.input) before = 1 := by
    rw [LastAlone, hsplit, extent_eq_one_iff, nonUnit]
    simp
  have hmem : A ∈ nonUnitRuns (getMemShape op.input) op.memPerm.toPermutation := by simp [hruns]
  have hA := extent_ne_one_of_mem hmem
  rw [halone]
  constructor
  · intro hextent
    have hne : op.lastSize ≠ 1 := hextent ▸ hA
    have hpos : 0 < op.lastSize := by
      have hmem : d ∈ op.memPerm.toPermutation := by
        rw [← flatten_runs op.memPerm.toPermutation, hsplit]
        simp
      have := extent_pos hop [d] (by
        simpa [memShape_length hop, mem_toPermutation] using hmem)
      simpa [extent, hsize] using this
    rw [hlast hne, extent_nonUnit, hrun] at hextent
    exact ⟨hne, Nat.eq_of_mul_eq_mul_right hpos (hextent.trans (one_mul _).symm)⟩
  · rintro ⟨hne, hunits⟩
    rw [hlast hne, extent_nonUnit, hrun, hunits, one_mul]

omit hop in
theorem channelsOutside_iff {before after : List ℕ}
    (hsplit : op.memPerm.toPermutation = before ++ op.channelDim :: after)
    (hbefore : op.channelDim ∉ before) (hafter : op.channelDim ∉ after) :
    op.ChannelsOutside ↔ after = [] ∨ extent (getMemShape op.input) before = 1 := by
  have hwhile : op.memPerm.toPermutation.takeWhile (· ≠ op.channelDim) = before := by
    rw [hsplit, takeWhile_append_of_pos, takeWhile_cons_of_neg (by simp),
      append_nil]
    intro d hd
    simpa using fun h : d = op.channelDim => hbefore (h ▸ hd)
  have hlast : op.memPerm.toPermutation.getLast? = some op.channelDim ↔ after = [] := by
    rw [hsplit]
    rcases eq_nil_or_concat after with rfl | ⟨front, d, rfl⟩
    · simp
    · have hne : d ≠ op.channelDim := fun h => hafter (by simp [h])
      rw [concat_eq_append, ← cons_append, ← append_assoc, getLast?_concat]
      simp [hne]
  rw [ChannelsOutside, hwhile, hlast, extent_eq_one_iff, nonUnit]
  simp

theorem lastSize_cases {before after : List ℕ}
    (hsplit : op.memPerm.toPermutation = before ++ op.channelDim :: after)
    (hafter : op.channelDim ∉ after) :
    (after = [] ∧ op.lastSize = op.inputChannels ∧ (getMemShape op.output).getLastD 0 = channels) ∨
      (after ≠ [] ∧ (getMemShape op.output).getLastD 0 = op.lastSize ∧
        op.lastSize ≤ extent (getMemShape op.input) after) := by
  have hlast : ∀ (dims : List ℕ) (d : ℕ) (sizes : List ℕ),
      ((dims ++ [d]).map fun d => sizes.getD d 0).getLastD 0 = sizes.getD d 0 := by simp
  rw [output_eq hop, lastSize, memoryOrder, memoryOrder, hsplit]
  rcases eq_nil_or_concat after with rfl | ⟨front, d, rfl⟩
  · refine .inl ⟨rfl, ?_, ?_⟩
    · rw [hlast, getD_channelDim hop]
    · simp [channelDim_lt hop]
  · have hne : op.channelDim ≠ d := fun h => hafter (by simp [h])
    have hpos := extent_pos hop front fun e he => dims_lt hop hsplit (.inr (by simp [he]))
    have hconcat : before ++ op.channelDim :: front.concat d =
        (before ++ op.channelDim :: front) ++ [d] := by simp
    have hother : ((getMemShape op.input).set op.channelDim channels).getD d 0 =
        (getMemShape op.input).getD d 0 := by simp [getElem?_set_ne hne]
    rw [hconcat, hlast, hlast, hother]
    refine .inr ⟨by simp, rfl, ?_⟩
    simpa [extent] using Nat.le_mul_of_pos_left ((getMemShape op.input).getD d 0) hpos

theorem performs_iff_of_unrolls {dmas : List SubDMA}
    (hunrolls : op.Unrolls elemTypeSize dmaPortCount dmas) :
    op.Performs elemTypeSize dmas ↔
      channels = op.inputChannels ∨ op.LastAlone ∧ op.ChannelsOutside := by
  by_cases hsame : channels = op.inputChannels
  · exact iff_of_true (performs_of_same hop hunrolls hsame) (.inl hsame)
  have hnot : ¬op.SameSize := fun h => hsame ((sameSize_iff hop).mp h)
  have hle := hop.channels_le
  cases hunrolls with
  | twoAxis A B X hblocks hruns hpositive _ hexpanded =>
    obtain ⟨horder, rfl⟩ := hexpanded hnot
    obtain ⟨before, after, hsplit, hbefore, hafter⟩ := exists_split hop
    have hlast : op.output.shape.getD 1 0 = (getMemShape op.output).getLastD 0 := by
      simp [getMemShape, horder, NHWC, memoryOrder]
    obtain ⟨hA, hB⟩ := one_lt_extents hop hblocks hruns
    have htotal := extent_mul hop hruns hsplit
    have hchannels := inputChannels_pos hop
    have hafter' := extent_pos hop after fun d hd => dims_lt hop hsplit (.inr hd)
    rw [performs_twoAxis_iff hop hblocks hruns hsplit hbefore hafter hpositive (by omega), hlast,
      ← extent_eq_lastSize_iff hop hruns, channelsOutside_iff hsplit hbefore hafter]
    generalize extent (getMemShape op.input) A = a at *
    generalize extent (getMemShape op.input) B = b at *
    generalize extent (getMemShape op.input) before = f at *
    rcases lastSize_cases hop hsplit hafter with ⟨rfl, hsize, hout⟩ | ⟨hne, hout, hle'⟩
    · have hone : extent (getMemShape op.input) [] = 1 := rfl
      have hab : 2 * a ≤ b * a := Nat.mul_le_mul_right a hB
      rw [hone, mul_one] at htotal
      rw [hsize, hout, hone, mul_one, mul_one]
      constructor
      · rintro (⟨rfl, hX⟩ | ⟨-, ha, -⟩)
        · omega
        · exact .inr ⟨ha, .inl rfl⟩
      · rintro (h | ⟨ha, -⟩)
        · exact absurd h hsame
        · refine .inr ⟨?_, ha, rfl⟩
          rintro rfl
          omega
    · have hspread : extent (getMemShape op.input) after <
          channels * extent (getMemShape op.input) after :=
        (Nat.lt_mul_iff_one_lt_left hafter').mpr (by omega)
      rw [hout]
      constructor
      · rintro (⟨rfl, hX⟩ | ⟨-, -, hX⟩)
        · exact .inr ⟨hX.symm, .inr rfl⟩
        · omega
      · rintro (h | ⟨ha, hnil | hf⟩)
        · exact absurd h hsame
        · exact absurd hnil hne
        · exact .inl ⟨hf, ha.symm⟩
  | swapFront A B C hblocks hruns hsame => exact absurd hsame hnot
  | swapBack A B C hblocks hruns hsame => exact absurd hsame hnot

/-- The transfers of an unrolled operation permute if and only if no channels were added, or the
last dimension is a merged dimension of its own and the channels are the last or the first. -/
theorem rewritePermuteDMA_performs_iff {dmaPortCount : ℕ} {dmas : List SubDMA}
    (hrun : op.rewritePermuteDMA dmaPortCount = .ok dmas) :
    op.Performs elemTypeSize dmas ↔
      channels = op.inputChannels ∨ op.LastAlone ∧ op.ChannelsOutside :=
  performs_iff_of_unrolls hop (unrolls hop hrun)

end Channels

/-- Three channels of a two by two image, followed by 13 more in the output. -/
def expandChannels : PermuteDMAOp where
  input := ⟨[1, 3, 2, 2], .integer 8 .Unsigned, NCHW, numDims_NCHW, trivial⟩
  output := ⟨[1, 16, 2, 2], .integer 8 .Unsigned, NHWC, numDims_NHWC, trivial⟩
  srcOffset := 0
  dstOffset := 1024
  memPerm := NHWC
  port := 0
  dmaDescriptor := none

theorem expandChannels_isPermute : expandChannels.IsPermute 16 1 where
  numDims := rfl
  two_le := by decide
  positive := by decide
  channels_le := by decide
  output := rfl
  elemType := rfl
  descriptor := rfl

theorem expandChannels_performs :
    ∃ dmas, expandChannels.rewritePermuteDMA 2 = .ok dmas ∧ expandChannels.Performs 1 dmas :=
  ⟨_, rfl, (rewritePermuteDMA_performs_iff expandChannels_isPermute rfl).mpr
    (.inr (by decide))⟩

/-- Two images of three channels each. The images and the channels become the last dimensions, and
16 channels are wanted. -/
def expandMerged : PermuteDMAOp where
  input := ⟨[2, 3, 4, 4], .integer 8 .Unsigned, NCHW, rfl, trivial⟩
  output := ⟨[4, 16, 4, 2], .integer 8 .Unsigned, NHWC, rfl, trivial⟩
  srcOffset := 0
  dstOffset := 1024
  memPerm := ⟨[2, 3, 0, 1], by decide⟩
  port := 0
  dmaDescriptor := none

theorem expandMerged_isPermute : expandMerged.IsPermute 16 1 where
  numDims := rfl
  two_le := by decide
  positive := by decide
  channels_le := by decide
  output := rfl
  elemType := rfl
  descriptor := rfl

/-- The channels of the second image are written right behind those of the first. -/
theorem not_expandMerged_performs :
    ∃ dmas, expandMerged.rewritePermuteDMA 2 = .ok dmas ∧ ¬expandMerged.Performs 1 dmas :=
  ⟨_, rfl, fun h => absurd
    ((performs_iff_of_unrolls expandMerged_isPermute (unrolls expandMerged_isPermute rfl)).mp h)
    (by decide)⟩

end PermuteDMAOp

end Vpux.Dma
