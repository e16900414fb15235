import Vpux.Const.Loops
import Vpux.Data.Dilation
import Vpux.Data.Folds

/-! Weights with zeros between the elements of a dilated kernel (`attributes/expand_dilated.cpp`,
`utils/dilated_utils.cpp`). -/
namespace Vpux.Const
open Data

/-- What `ExpandDilatedAttr::verify` accepts. -/
structure ExpandDilatedAttr where
  dilations : List ℕ
  dilations_pos : ∀ d ∈ dilations, 0 < d

def getDilatedType (type : NDType) (dilations : List ℕ) : Except Fault NDType := do
  throwUnless (type.getRank = 4) "Got invalid tensor rank"
  let OC := type.shape.getD 0 0
  let IC := type.shape.getD 1 0
  let KY := type.shape.getD 2 0
  let KX := type.shape.getD 3 0
  let dKY := KY + (KY - 1) * (dilations.getD 0 0 - 1)
  let dKX := KX + (KX - 1) * (dilations.getD 1 0 - 1)
  type.changeShape [OC, IC, dKY, dKX]

namespace ExpandDilatedAttr

def inferOutputType (attr : ExpandDilatedAttr) (input : NDType) : Except Fault NDType :=
  getDilatedType input attr.dilations

def transform (floats : FloatCasts) (fresh : ℕ → Byte) (attr : ExpandDilatedAttr)
    (input : Content) : Except Fault Content := do
  let outputType ← attr.inferOutputType input.type
  let output ← (Content.allocTempBuffer fresh outputType input.storageElemType false).fillWithZero
    floats
  let elemSize ← toByte (getElemTypeSize input.storageElemType)
  let OC := input.type.shape.getD 0 0
  let IC := input.type.shape.getD 1 0
  let KY := input.type.shape.getD 2 0
  let KX := input.type.shape.getD 3 0
  let dKY := output.type.shape.getD 2 0
  let dKX := output.type.shape.getD 3 0
  let data ← loop_4d OC IC KY KX (fun oc ic ky kx =>
    let dky := ky + (attr.dilations.getD 0 0 - 1) * ky
    let dkx := kx + (attr.dilations.getD 1 0 - 1) * kx
    let outRawInd := dkx + dky * dKX + ic * dKX * dKY + oc * dKX * dKY * IC
    let inRawInd := kx + ky * KX + ic * KX * KY + oc * KX * KY * IC
    copy_n input.data (inRawInd * elemSize) elemSize (outRawInd * elemSize)) output.data
  .ok { output with data := data }

/-- How far apart the elements come to be along each dimension. -/
def steps (attr : ExpandDilatedAttr) : List ℕ :=
  [1, 1, attr.dilations.getD 0 0, attr.dilations.getD 1 0]

/-- A kernel whose zero value can be stored, and a dilation for both of its axes. -/
structure Legal (floats : FloatCasts) (attr : ExpandDilatedAttr) (type : NDType)
    (storageElemType : ElemType) : Prop where
  rank : type.shape.length = 4
  sizes : ∀ d ∈ type.shape, 0 < d
  dilations : attr.dilations.length = 2
  stored : getElemTypeSize storageElemType = 1 ∨
    0 < getElemTypeSize storageElemType ∧ CHAR_BIT ∣ getElemTypeSize storageElemType
  fillable : Content.ZeroFillable floats type storageElemType

/-- The elements of the kernel at their dilated coordinates, and the zero value at all others. -/
def Dilates (floats : FloatCasts) (fresh : ℕ → Byte) (attr : ExpandDilatedAttr)
    (content : Content) : Prop :=
  ∃ output, attr.transform floats fresh content = .ok output ∧
    output.type.shape = spreadSizes content.type.shape attr.steps ∧
    output.type.dimsOrder = content.type.dimsOrder ∧
    (∀ x, InBox content.type.shape x →
      output.element (spreadPoint x attr.steps) = content.element x) ∧
    ∀ x, InBox output.type.shape x →
      (∀ y, InBox content.type.shape y → spreadPoint y attr.steps ≠ x) →
        ∃ value, Content.zeroValue floats output.type output.storageElemType x = .ok value ∧
          output.element x = .bytes value

open NDType

section Types

variable {floats : FloatCasts} {attr : ExpandDilatedAttr} {type : NDType}
  {storageElemType : ElemType}

theorem reshape_of_findIdx {elemType : ElemType} {shape newShape : List ℕ}
    (h : newShape.findIdx (· ≠ 1) = shape.findIdx (· ≠ 1)) :
    elemType.reshape shape newShape = elemType := by
  cases elemType with
  | uniformQuantizedPerAxis isSigned storageWidth qDim zps =>
    unfold ElemType.reshape
    dsimp only
    cases haxis : getQuantizedAxis qDim shape newShape with
    | none => rfl
    | some axis =>
      have hsame : axis = qDim := by
        unfold getQuantizedAxis at haxis
        dsimp only at haxis
        split_ifs at haxis
        · exact (Option.some.inj haxis).symm
        · have hvalue := Option.some.inj haxis
          omega
      rw [hsame]
  | _ => rfl

theorem Legal.kernel (hlegal : attr.Legal floats type storageElemType) :
    ∃ OC IC KY KX dy dx, type.shape = [OC, IC, KY, KX] ∧ attr.dilations = [dy, dx] ∧
      0 < OC ∧ 0 < IC ∧ 0 < KY ∧ 0 < KX ∧ 0 < dy ∧ 0 < dx := by
  obtain ⟨OC, IC, KY, KX, hshape⟩ := List.length_eq_four.mp hlegal.rank
  obtain ⟨dy, dx, hdilations⟩ := List.length_eq_two.mp hlegal.dilations
  have hsizes := hlegal.sizes
  have hpos := attr.dilations_pos
  rw [hshape] at hsizes
  rw [hdilations] at hpos
  exact ⟨OC, IC, KY, KX, dy, dx, hshape, hdilations, hsizes OC (by simp), hsizes IC (by simp),
    hsizes KY (by simp), hsizes KX (by simp), hpos dy (by simp), hpos dx (by simp)⟩

theorem spreadSize_eq {size step : ℕ} (hsize : 0 < size) (hstep : 0 < step) :
    size + (size - 1) * (step - 1) = spreadSize size step := by
  obtain ⟨m, rfl⟩ : ∃ m, size = m + 1 := ⟨size - 1, by omega⟩
  obtain ⟨d, rfl⟩ : ∃ d, step = d + 1 := ⟨step - 1, by omega⟩
  rw [spreadSize, Nat.add_sub_cancel, Nat.add_sub_cancel]
  ring

theorem spreadSize_ne_one_iff {size step : ℕ} (hsize : 0 < size) (hstep : 0 < step) :
    spreadSize size step ≠ 1 ↔ size ≠ 1 := by
  have hzero : (size - 1) * step = 0 ↔ size - 1 = 0 := by
    rw [Nat.mul_eq_zero]
    omega
  unfold spreadSize
  omega

theorem inferOutputType_ok (hlegal : attr.Legal floats type storageElemType) :
    ∃ outputType, attr.inferOutputType type = .ok outputType ∧
      outputType.shape = spreadSizes type.shape attr.steps ∧
      outputType.dimsOrder = type.dimsOrder ∧
      Content.ZeroFillable floats outputType storageElemType := by
  obtain ⟨OC, IC, KY, KX, dy, dx, hshape, hdilations, hOC, hIC, hKY, hKX, hdy, hdx⟩ :=
    hlegal.kernel
  have hspread : spreadSizes type.shape attr.steps =
      [OC, IC, spreadSize KY dy, spreadSize KX dx] := by
    rw [hshape, steps, hdilations]
    simp [spreadSizes, spreadSize_one, hOC, hIC]
  have hnum : type.dimsOrder.numDims = 4 := type.numDims_eq.trans hlegal.rank
  have horder : type.reshapedOrder [OC, IC, spreadSize KY dy, spreadSize KX dx] =
      type.dimsOrder := reshapedOrder_eq hnum
  have helem : type.elemType.reshape type.shape [OC, IC, spreadSize KY dy, spreadSize KX dx] =
      type.elemType := by
    apply reshape_of_findIdx
    rw [hshape]
    simp only [List.findIdx_cons, List.findIdx_nil, spreadSize_ne_one_iff hKY hdy,
      spreadSize_ne_one_iff hKX hdx]
  have hvalid : validateQuantElemType type.elemType
      [OC, IC, spreadSize KY dy, spreadSize KX dx] := by
    have hinput := type.validQuant
    cases hquant : type.elemType with
    | uniformQuantizedPerAxis isSigned storageWidth qDim zps =>
      obtain ⟨_, rfl, _⟩ := hlegal.fillable.perChannel qDim (by rw [hquant]; rfl)
      rw [hquant, hshape] at hinput
      exact hinput
    | _ => trivial
  refine ⟨⟨[OC, IC, spreadSize KY dy, spreadSize KX dx], type.elemType, type.dimsOrder, hnum,
    hvalid⟩, ?_, hspread.symm, rfl, ?_, hlegal.fillable.casts⟩
  · have hchange : type.changeShape [OC, IC, spreadSize KY dy, spreadSize KX dx] =
        .ok ⟨[OC, IC, spreadSize KY dy, spreadSize KX dx], type.elemType, type.dimsOrder, hnum,
          hvalid⟩ := by
      unfold changeShape
      dsimp only
      rw [horder, helem, throwUnless, if_pos (by exact hnum)]
      change getTensorType _ _ _ = _
      rw [getTensorType, dif_pos (by exact hnum), dif_pos hvalid]
    rw [← hchange, ← spreadSize_eq hKY hdy, ← spreadSize_eq hKX hdx]
    unfold inferOutputType getDilatedType
    rw [getRank, throwUnless, if_pos hlegal.rank, hshape, hdilations]
    rfl
  · intro axis hquant
    obtain ⟨_, hzero, hne⟩ := hlegal.fillable.perChannel axis hquant
    exact ⟨rfl, hzero, hne⟩

end Types

section Transform

variable {floats : FloatCasts} {attr : ExpandDilatedAttr} {type : NDType}
  {storageElemType : ElemType}

/-- The blocks of a buffer at the places that a radix spreads them to, over another buffer. -/
structure Spreads (w : ℕ) (digits : List (ℕ × ℕ)) (size : ℕ) (inBuf outBuf data : Buffer) :
    Prop where
  length_eq : data.length = size * w
  placed : ∀ n < numbers digits, block w (spread digits n) data = block w n inBuf
  kept : ∀ m < size, (∀ n < numbers digits, spread digits n ≠ m) →
    block w m data = block w m outBuf

variable {w : ℕ} {sizes steps : List ℕ} {inBuf outBuf data : Buffer}

theorem Spreads.of_places (hsteps : steps.length = sizes.length)
    (h : Places w sizes (spreadSizes sizes steps) (fun k => spreadPoint k steps)
      (fun k => block w (rowMajor sizes k) inBuf) outBuf data) :
    Spreads w (digitsOf sizes steps) (spreadSizes sizes steps).prod inBuf outBuf data := by
  refine ⟨h.length_eq, fun n hn => ?_, fun m hm hfree => ?_⟩
  · rw [numbers_digitsOf hsteps] at hn
    rw [spread_eq_rowMajor hsteps hn, h.placed _ (inBox_pointAt (Nat.zero_lt_of_lt hn) n),
      rowMajor_pointAt hn]
  · have hkept := h.kept _ (inBox_pointAt (Nat.zero_lt_of_lt hm) m) (fun k hk heq => by
      refine hfree (rowMajor sizes k) (numbers_digitsOf hsteps ▸ rowMajor_lt hk) ?_
      rw [spread_rowMajor hsteps hk, heq, rowMajor_pointAt hm])
    rwa [rowMajor_pointAt hm] at hkept

theorem loop_spreads {OC IC KY KX dy dx : ℕ} (hOC : 0 < OC) (hIC : 0 < IC) (hdy : 0 < dy)
    (hdx : 0 < dx) (hin : inBuf.length = [OC, IC, KY, KX].prod * w)
    (hout : outBuf.length = (spreadSizes [OC, IC, KY, KX] [1, 1, dy, dx]).prod * w) :
    ∃ data, loop_4d OC IC KY KX (fun oc ic ky kx =>
        copy_n inBuf ((kx + ky * KX + ic * KX * KY + oc * KX * KY * IC) * w) w
          ((kx + (dx - 1) * kx + (ky + (dy - 1) * ky) * spreadSize KX dx +
            ic * spreadSize KX dx * spreadSize KY dy +
            oc * spreadSize KX dx * spreadSize KY dy * IC) * w)) outBuf = .ok data ∧
      Spreads w (digitsOf [OC, IC, KY, KX] [1, 1, dy, dx])
        (spreadSizes [OC, IC, KY, KX] [1, 1, dy, dx]).prod inBuf outBuf data := by
  have hstep : ∀ {d : ℕ}, 0 < d → ∀ k, k + (d - 1) * k = k * d := by
    intro d hd k
    obtain ⟨e, rfl⟩ : ∃ e, d = e + 1 := ⟨d - 1, by omega⟩
    rw [Nat.add_sub_cancel]
    ring
  have hsteps : ∀ d ∈ [1, 1, dy, dx], 0 < d := by simp [hdy, hdx]
  suffices h : ∃ data, loop_4d OC IC KY KX _ outBuf = .ok data ∧
      Places w [OC, IC, KY, KX] (spreadSizes [OC, IC, KY, KX] [1, 1, dy, dx])
        (fun k => spreadPoint k [1, 1, dy, dx])
        (fun k => block w (rowMajor [OC, IC, KY, KX] k) inBuf) outBuf data by
    obtain ⟨data, hrun, hplaces⟩ := h
    exact ⟨data, hrun, Spreads.of_places rfl hplaces⟩
  refine Places.of_loop (enumerates_four OC IC KY KX) hout
    (fun k hk => length_block_of_lt hin (rowMajor_lt hk))
    (fun k hk => inBox_spreadPoint rfl hk)
    (fun k k' hk hk' heq => spreadPoint_injective hsteps hk.length_eq hk'.length_eq heq) ?_
  intro j hj buf _
  have hbox := (enumerates_four OC IC KY KX _).mpr ⟨j, hj, rfl⟩
  have hsrc : j.2.2.2 + j.2.2.1 * KX + j.2.1 * KX * KY + j.1 * KX * KY * IC =
      rowMajor [OC, IC, KY, KX] [j.1, j.2.1, j.2.2.1, j.2.2.2] := by
    simp only [rowMajor, List.prod_cons, List.prod_nil]
    ring
  have hdst : j.2.2.2 + (dx - 1) * j.2.2.2 + (j.2.2.1 + (dy - 1) * j.2.2.1) * spreadSize KX dx +
      j.2.1 * spreadSize KX dx * spreadSize KY dy +
      j.1 * spreadSize KX dx * spreadSize KY dy * IC =
      rowMajor (spreadSizes [OC, IC, KY, KX] [1, 1, dy, dx])
        (spreadPoint [j.1, j.2.1, j.2.2.1, j.2.2.2] [1, 1, dy, dx]) := by
    simp only [spreadSizes, spreadPoint, List.zipWith_cons_cons, List.zipWith_nil_right,
      rowMajor, List.prod_cons, List.prod_nil, spreadSize_one _ hOC, spreadSize_one _ hIC,
      hstep hdy, hstep hdx]
    ring
  rw [← hsrc, ← hdst, ← copy_n_block hin (hsrc ▸ rowMajor_lt hbox)]

theorem transform_spreads (fresh : ℕ → Byte)
    (hlegal : attr.Legal floats type storageElemType)
    (hdvd : CHAR_BIT ∣ getElemTypeSize storageElemType) :
    ∃ outputType zeros, outputType.shape = spreadSizes type.shape attr.steps ∧
      outputType.dimsOrder = type.dimsOrder ∧
      zeros.length = outputType.getNumElements * (getElemTypeSize storageElemType / CHAR_BIT) ∧
      (∀ x, InBox outputType.shape x → Content.zeroValue floats outputType storageElemType x =
        .ok (block (getElemTypeSize storageElemType / CHAR_BIT)
          (rowMajor outputType.getMemShape (outputType.dimsOrder.memoryOrder x)) zeros)) ∧
      ∀ input : Content, input.type = type → input.storageElemType = storageElemType →
        input.Dense → ∃ data,
          attr.transform floats fresh input = .ok ⟨outputType, storageElemType, data, false⟩ ∧
            Spreads (getElemTypeSize storageElemType / CHAR_BIT) (digitsOf type.shape attr.steps)
              outputType.getNumElements input.data zeros data := by
  have hbits : 0 < getElemTypeSize storageElemType := by
    rcases hlegal.stored with hone | ⟨hbits, _⟩
    · rw [hone]
      exact Nat.one_pos
    · exact hbits
  obtain ⟨outputType, htype, hshape, horder, hfill⟩ := inferOutputType_ok hlegal
  obtain ⟨zeros, hfilled, hlength, hvalue⟩ :=
    Content.fillWithZero_alloc fresh hfill hbits hdvd
  refine ⟨outputType, zeros, hshape, horder, hlength, hvalue, ?_⟩
  rintro input rfl rfl hdense
  obtain ⟨OC, IC, KY, KX, dy, dx, hsizes, hdilations, hOC, hIC, _, _, hdy, hdx⟩ := hlegal.kernel
  have hsteps : attr.steps = [1, 1, dy, dx] := by
    rw [steps, hdilations]
    rfl
  have hin := hdense.stored
  rw [storageBytes_of_dvd hdvd, getNumElements, hsizes] at hin
  rw [getNumElements, hshape, hsizes, hsteps] at hlength
  obtain ⟨data, hdata, hspreads⟩ := loop_spreads hOC hIC hdy hdx hin hlength
  refine ⟨data, ?_, ?_⟩
  · have houtShape : outputType.shape = [OC, IC, spreadSize KY dy, spreadSize KX dx] := by
      rw [hshape, hsizes, hsteps]
      simp [spreadSizes, spreadSize_one, hOC, hIC]
    simp only [transform, htype, hfilled, toByte_of_dvd hdvd, bind, Except.bind, hsizes,
      hdilations, houtShape, List.getD_cons_zero, List.getD_cons_succ, hdata]
  · rw [getNumElements, hshape, hsizes, hsteps]
    exact hspreads

/-- The digits of the positions in memory. -/
def memDigits (attr : ExpandDilatedAttr) (type : NDType) : List (ℕ × ℕ) :=
  digitsOf type.getMemShape (type.dimsOrder.memoryOrder attr.steps)

theorem numbers_memDigits (attr : ExpandDilatedAttr) (type : NDType) :
    numbers (attr.memDigits type) = type.getNumElements := by
  rw [memDigits, numbers_digitsOf (by simp [getMemShape]), type.prod_getMemShape]

theorem memIndex_spreadPoint (hlegal : attr.Legal floats type storageElemType)
    {outputType : NDType} (hshape : outputType.shape = spreadSizes type.shape attr.steps)
    (horder : outputType.dimsOrder = type.dimsOrder) {x : List ℕ} (hx : InBox type.shape x) :
    rowMajor outputType.getMemShape
        (outputType.dimsOrder.memoryOrder (spreadPoint x attr.steps)) =
      spread (attr.memDigits type)
        (rowMajor type.getMemShape (type.dimsOrder.memoryOrder x)) := by
  have hnum := type.numDims_eq
  have hsteps : attr.steps.length = type.dimsOrder.numDims := hnum.symm ▸ hlegal.rank.symm
  unfold getMemShape memDigits
  rw [hshape, horder, spreadSizes, spreadPoint,
    DimsOrder.memoryOrder_zipWith _ hnum.symm hsteps,
    DimsOrder.memoryOrder_zipWith _ (hx.length_eq.trans hnum.symm) hsteps]
  exact (spread_rowMajor (by simp)
    (DimsOrder.inBox_memoryOrder hx hnum.symm)).symm

/-- What the memory of the output has to hold. -/
theorem dilates_iff {fresh : ℕ → Byte} {content : Content} {outputType : NDType}
    (hlegal : attr.Legal floats content.type content.storageElemType)
    (hwidth : getElemTypeSize content.storageElemType ≠ 1) (hdense : content.Dense)
    (hshape : outputType.shape = spreadSizes content.type.shape attr.steps)
    (horder : outputType.dimsOrder = content.type.dimsOrder)
    (hvalue : ∀ x, InBox outputType.shape x →
      Content.zeroValue floats outputType content.storageElemType x =
        .ok (block (getElemTypeSize content.storageElemType / CHAR_BIT)
          (rowMajor outputType.getMemShape (outputType.dimsOrder.memoryOrder x)) outBuf))
    (hlength : data.length =
      outputType.getNumElements * (getElemTypeSize content.storageElemType / CHAR_BIT))
    (hrun : attr.transform floats fresh content =
      .ok ⟨outputType, content.storageElemType, data, false⟩) :
    attr.Dilates floats fresh content ↔
      Spreads (getElemTypeSize content.storageElemType / CHAR_BIT) (attr.memDigits content.type)
        outputType.getNumElements content.data outBuf data := by
  have hinput : ∀ x, content.element x =
      .bytes (block (getElemTypeSize content.storageElemType / CHAR_BIT) (rowMajor
        content.type.getMemShape (content.type.dimsOrder.memoryOrder x)) content.data) :=
    element_of_bytes hdense.notSplat hwidth
  have helement : ∀ x, (⟨outputType, content.storageElemType, data, false⟩ : Content).element x =
      .bytes (block (getElemTypeSize content.storageElemType / CHAR_BIT) (rowMajor
        outputType.getMemShape (outputType.dimsOrder.memoryOrder x)) data) := by
    have hsplat : (⟨outputType, content.storageElemType, data, false⟩ : Content).isSplat =
      false := rfl
    exact element_of_bytes hsplat hwidth
  constructor
  · rintro ⟨output, hrun', _, _, hmoved, hzero⟩
    obtain rfl := Except.ok.inj (hrun.symm.trans hrun')
    refine ⟨hlength, fun n hn => ?_, fun m hm hfree => ?_⟩
    · obtain ⟨x, hx, rfl⟩ := exists_memIndex content.type (numbers_memDigits attr _ ▸ hn)
      have hat := hmoved x hx
      rw [helement, hinput, memIndex_spreadPoint hlegal hshape horder hx] at hat
      exact Element.bytes.inj hat
    · obtain ⟨x, hx, rfl⟩ := exists_memIndex outputType hm
      obtain ⟨value, hzeroValue, hat⟩ := hzero x hx (by
        rintro y hy rfl
        refine hfree _ (numbers_memDigits attr _ ▸ memIndex_lt hy) ?_
        rw [memIndex_spreadPoint hlegal hshape horder hy])
      rw [hvalue x hx] at hzeroValue
      rw [helement] at hat
      rw [Element.bytes.inj hat, Except.ok.inj hzeroValue]
  · intro hspreads
    refine ⟨_, hrun, hshape, horder, fun x hx => ?_, fun x hx hfree => ⟨_, hvalue x hx, ?_⟩⟩
    · rw [helement, hinput, memIndex_spreadPoint hlegal hshape horder hx,
        hspreads.placed _ (numbers_memDigits attr _ ▸ memIndex_lt hx)]
    · rw [helement, hspreads.kept _ (memIndex_lt hx)]
      intro n hn heq
      obtain ⟨y, hy, rfl⟩ := exists_memIndex content.type (numbers_memDigits attr _ ▸ hn)
      have hy' : InBox outputType.shape (spreadPoint y attr.steps) :=
        hshape ▸ inBox_spreadPoint hlegal.rank.symm hy
      rw [← memIndex_spreadPoint hlegal hshape horder hy] at heq
      exact hfree y hy (memIndex_injective hy' hx heq)

theorem Spreads.congr {digits digits' : List (ℕ × ℕ)} {size : ℕ}
    (h : Spreads w digits size inBuf outBuf data) (hnumbers : numbers digits = numbers digits')
    (hsame : ∀ n < numbers digits, spread digits n = spread digits' n) :
    Spreads w digits' size inBuf outBuf data := by
  refine ⟨h.length_eq, fun n hn => ?_, fun m hm hfree => ?_⟩
  · rw [← hnumbers] at hn
    rw [← hsame n hn, h.placed n hn]
  · exact h.kept m hm fun n hn heq => hfree n (hnumbers ▸ hn) (hsame n hn ▸ heq)

/-- A kernel whose elements have one value, but for one of them. -/
def marked (w count j : ℕ) (value : Buffer) : Buffer :=
  overwrite (List.replicate count value).flatten (j * w) (value.map (· + 1))

section Marked

variable {count j n : ℕ} {value : Buffer}

theorem length_marked (hvalue : value.length = w) (hj : j < count) :
    (marked w count j value).length = count * w :=
  length_markBlock hvalue ((List.length_map _).trans hvalue) hj

theorem block_marked (hvalue : value.length = w) (hj : j < count) (hn : n < count)
    (hne : n ≠ j) : block w n (marked w count j value) = value :=
  block_markBlock_ne hvalue ((List.length_map _).trans hvalue) hj hn hne

theorem block_marked_self (hw : 0 < w) (hvalue : value.length = w) (hj : j < count) :
    block w j (marked w count j value) ≠ value := by
  have hself := block_markBlock_self hvalue ((List.length_map (· + 1)).trans hvalue) hj
  intro heq
  obtain ⟨first, rest, rfl⟩ := List.exists_cons_of_length_pos (hvalue ▸ hw)
  have hfirst := (List.cons.inj (hself.symm.trans heq)).1
  bv_omega

end Marked

theorem Spreads.spread_eq {digits : List (ℕ × ℕ)} {size j place : ℕ} (hw : 0 < w)
    (hj : j < numbers digits) (hplace : place < size)
    (hvalue : (block w place outBuf).length = w)
    (h : Spreads w digits size (marked w (numbers digits) j (block w place outBuf)) outBuf data)
    (hplaced : block w place data =
      block w j (marked w (numbers digits) j (block w place outBuf))) :
    spread digits j = place := by
  by_contra hne
  refine block_marked_self hw hvalue hj (hplaced.symm.trans ?_)
  by_cases hother : ∃ n, n < numbers digits ∧ spread digits n = place
  · obtain ⟨n, hn, heq⟩ := hother
    have hat := h.placed n hn
    rwa [heq, block_marked hvalue hj hn fun hsame => hne (hsame ▸ heq)] at hat
  · exact h.kept place hplace fun n hn heq => hother ⟨n, hn, heq⟩

theorem Legal.steps_pos (hlegal : attr.Legal floats type storageElemType) :
    ∀ d ∈ attr.steps, 0 < d := by
  obtain ⟨_, _, _, _, dy, dx, _, hdilations, _, _, _, _, hdy, hdx⟩ := hlegal.kernel
  rw [steps, hdilations]
  simp [hdy, hdx]

theorem Legal.isRadix (hlegal : attr.Legal floats type storageElemType) :
    IsRadix (digitsOf type.shape attr.steps) ∧ IsRadix (attr.memDigits type) := by
  have hsizes : (type.dimsOrder.toMemory type.shape).Perm type.shape :=
    DimsOrder.toMemory_perm type.numDims_eq.symm
  have hsteps : (type.dimsOrder.toMemory attr.steps).Perm attr.steps :=
    DimsOrder.toMemory_perm (type.numDims_eq.symm ▸ hlegal.rank.symm)
  exact ⟨isRadix_digitsOf hlegal.sizes hlegal.steps_pos, isRadix_digitsOf
    (fun n hn => hlegal.sizes n (hsizes.subset hn))
    (fun d hd => hlegal.steps_pos d (hsteps.subset hd))⟩

theorem transform_bits {fresh : ℕ → Byte} {input output : Content}
    (hwidth : getElemTypeSize input.storageElemType = 1) :
    attr.transform floats fresh input ≠ .ok output := by
  intro hrun
  obtain ⟨_, _, hrun⟩ := bind_eq_ok.mp hrun
  obtain ⟨_, _, hrun⟩ := bind_eq_ok.mp hrun
  obtain ⟨_, hbyte, _⟩ := bind_eq_ok.mp hrun
  rw [hwidth] at hbyte
  cases hbyte

theorem elemSize_ne_one (hdvd : CHAR_BIT ∣ getElemTypeSize storageElemType) :
    getElemTypeSize storageElemType ≠ 1 := by
  intro hone
  rw [hone] at hdvd
  exact absurd hdvd (by decide)

section

variable (hlegal : attr.Legal floats type storageElemType)
  (hdvd : CHAR_BIT ∣ getElemTypeSize storageElemType)
include hlegal hdvd

theorem Legal.elemSize_pos : 0 < getElemTypeSize storageElemType / CHAR_BIT :=
  Const.elemSize_pos (hlegal.stored.resolve_left (elemSize_ne_one hdvd)).1 hdvd

/-- Where an element of a constant that is dilated goes is seen when all others have the value
that the output has there. -/
theorem spread_eq_of_dilates {fresh : ℕ → Byte}
    (hall : ∀ content : Content, content.type = type →
      content.storageElemType = storageElemType → content.Dense →
        attr.Dilates floats fresh content)
    {n : ℕ} (hn : n < type.getNumElements) :
    spread (digitsOf type.shape attr.steps) n = spread (attr.memDigits type) n := by
  have hwidth := elemSize_ne_one hdvd
  have hw := hlegal.elemSize_pos hdvd
  have hnumbers : numbers (digitsOf type.shape attr.steps) = type.getNumElements :=
    numbers_digitsOf hlegal.rank.symm
  obtain ⟨outputType, zeros, hshape, horder, hlength, hvalue, hrun⟩ :=
    transform_spreads fresh hlegal hdvd
  have hplace : spread (attr.memDigits type) n < outputType.getNumElements := by
    obtain ⟨x, hx, rfl⟩ := exists_memIndex type hn
    rw [← memIndex_spreadPoint hlegal hshape horder hx]
    exact memIndex_lt (hshape ▸ inBox_spreadPoint hlegal.rank.symm hx)
  have hblock := length_block_of_lt hlength hplace
  let content : Content := ⟨type, storageElemType, marked
    (getElemTypeSize storageElemType / CHAR_BIT) (numbers (digitsOf type.shape attr.steps)) n
    (block (getElemTypeSize storageElemType / CHAR_BIT) (spread (attr.memDigits type) n) zeros),
    false⟩
  have hdense : content.Dense := by
    refine ⟨rfl, ?_, Or.inr ⟨(hlegal.stored.resolve_left hwidth).1, hdvd⟩⟩
    exact (length_marked hblock (hnumbers ▸ hn)).trans
      (by rw [hnumbers, storageBytes_of_dvd hdvd])
  obtain ⟨data, hdata, hspreads⟩ := hrun content rfl rfl hdense
  have hrequired := (dilates_iff hlegal hwidth hdense hshape horder hvalue hspreads.length_eq
    hdata).mp (hall content rfl rfl hdense)
  exact hspreads.spread_eq hw (hnumbers ▸ hn) hplace hblock
    (hrequired.placed n (numbers_memDigits attr type ▸ hn))

end

/-- The constants of a type are dilated exactly when they have whole bytes and the order of the
dimensions in memory pulls the elements apart like their own order does. -/
theorem transform_dilates_iff (fresh : ℕ → Byte)
    (hlegal : attr.Legal floats type storageElemType) :
    (∀ content : Content, content.type = type → content.storageElemType = storageElemType →
      content.Dense → attr.Dilates floats fresh content) ↔
      CHAR_BIT ∣ getElemTypeSize storageElemType ∧
        mergeDigits (attr.memDigits type) = mergeDigits (digitsOf type.shape attr.steps) := by
  have hnumbers : numbers (digitsOf type.shape attr.steps) = type.getNumElements :=
    numbers_digitsOf hlegal.rank.symm
  have hboth : numbers (digitsOf type.shape attr.steps) = numbers (attr.memDigits type) :=
    hnumbers.trans (numbers_memDigits attr type).symm
  have hsame := spread_eq_iff hlegal.isRadix.1 hlegal.isRadix.2 hboth
  constructor
  · intro hall
    have hdvd : CHAR_BIT ∣ getElemTypeSize storageElemType := by
      rcases hlegal.stored with hone | ⟨_, hdvd⟩
      · obtain ⟨output, hrun, _⟩ := hall ⟨type, storageElemType,
          List.replicate (Content.storageBytes storageElemType type.getNumElements) 0, false⟩
          rfl rfl ⟨rfl, List.length_replicate, Or.inl hone⟩
        exact absurd hrun (transform_bits hone)
      · exact hdvd
    refine ⟨hdvd, (hsame.mp fun n hn => ?_).symm⟩
    exact spread_eq_of_dilates hlegal hdvd hall (hnumbers ▸ hn)
  · rintro ⟨hdvd, hmerge⟩ content rfl rfl hdense
    obtain ⟨outputType, zeros, hshape, horder, _, hvalue, hrun⟩ :=
      transform_spreads fresh hlegal hdvd
    obtain ⟨data, hdata, hspreads⟩ := hrun content rfl rfl hdense
    rw [dilates_iff hlegal (elemSize_ne_one hdvd) hdense hshape horder hvalue
      hspreads.length_eq hdata]
    exact hspreads.congr hboth (hsame.mpr hmerge.symm)

end Transform

section Kernel

theorem dilations_two_pos : ∀ d ∈ [2, 2], 0 < d := by decide

/-- A dilation of two along both axes. -/
def byTwo : ExpandDilatedAttr where
  dilations := [2, 2]
  dilations_pos := dilations_two_pos

/-- Two channels of a kernel with two rows and columns, in bytes. -/
def kernelType (order : DimsOrder) (h : order.numDims = 4) : NDType :=
  ⟨[1, 2, 2, 2], .integer 8 .Unsigned, order, h, trivial⟩

theorem legal_kernelType (order : DimsOrder) (h : order.numDims = 4) :
    byTwo.Legal zeroCasts (kernelType order h) (.integer 8 .Unsigned) := by
  have hzps : (kernelType order h).elemType.zeroPoints = [] := rfl
  refine ⟨rfl, by simp [kernelType], rfl, Or.inr (by decide), fun axis haxis => ?_, fun hne => ?_⟩
  · cases haxis
  · exact absurd hzps hne

theorem numDims_default : (DimsOrder.fromNumDims 4).numDims = 4 := List.length_range

/-- The rows of a channel after each other. -/
def channelsFirst : Content where
  type := kernelType (DimsOrder.fromNumDims 4) numDims_default
  storageElemType := .integer 8 .Unsigned
  data := [1, 2, 3, 4, 5, 6, 7, 8]
  isSplat := false

theorem dilates_channelsFirst : byTwo.Dilates zeroCasts (fun _ => 0) channelsFirst :=
  (transform_dilates_iff _ (legal_kernelType _ _)).mpr ⟨by decide, by decide⟩ channelsFirst rfl rfl
    ⟨rfl, by decide, Or.inr (by decide)⟩

theorem perm_channelsLast : [0, 2, 3, 1].Perm (List.range [0, 2, 3, 1].length) := by decide

theorem numDims_channelsLast : (DimsOrder.mk [0, 2, 3, 1] perm_channelsLast).numDims = 4 := rfl

/-- The channels are the innermost dimension. -/
def channelsLast : Content where
  type := kernelType ⟨[0, 2, 3, 1], perm_channelsLast⟩ numDims_channelsLast
  storageElemType := .integer 8 .Unsigned
  data := [1, 2, 3, 4, 5, 6, 7, 8]
  isSplat := false

/-- The second column of the first channel is not found two columns from the first. -/
theorem not_dilates_channelsLast :
    channelsLast.Dense ∧ ¬ byTwo.Dilates zeroCasts (fun _ => 0) channelsLast := by
  refine ⟨⟨rfl, by decide, Or.inr (by decide)⟩, ?_⟩
  rintro ⟨output, hrun, _, _, hmoved, -⟩
  have hat := hmoved [0, 0, 0, 1] (by decide)
  have hvalue : (byTwo.transform zeroCasts (fun _ => 0) channelsLast).map
      (fun output => output.element [0, 0, 0, 2]) = .ok (.bytes [0]) := by rfl
  rw [hrun] at hvalue
  have hplace : output.element (spreadPoint [0, 0, 0, 1] byTwo.steps) = .bytes [0] :=
    Except.ok.inj hvalue
  rw [hplace] at hat
  cases hat

end Kernel

end ExpandDilatedAttr

end Vpux.Const
