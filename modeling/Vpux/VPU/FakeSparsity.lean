import Vpux.Const.SubView
import Vpux.Data.Folds

/-! The activation windows of depthwise and channel-major operations (`nce_sparsity.cpp`). -/
namespace Vpux.VPU.NCESparsity
open Vpux.Const Data

inductive Mode where
  | CM_CONV
  | DW_CONV
  | POOL
  deriving DecidableEq, Repr

/-- The height and the width of a kernel are its dimensions 0 and 1. -/
def kernelY (kernelSize : List ℕ) : ℕ := kernelSize.getD 0 0

def kernelX (kernelSize : List ℕ) : ℕ := kernelSize.getD 1 0

def getBaseStorageType : ElemType → ElemType
  | .uniformQuantized _ storageWidth _ => .integer storageWidth .Signless
  | .uniformQuantizedPerAxis _ storageWidth _ _ => .integer storageWidth .Signless
  | elemType => elemType

def isInteger (width : ℕ) : ElemType → Prop
  | .integer width' _ => width' = width
  | _ => False

instance (width : ℕ) (elemType : ElemType) : Decidable (isInteger width elemType) := by
  unfold isInteger
  split <;> infer_instance

/-- The values of `mpeNum`, which doubles until it passes the limit. -/
def mpeNums (mpeNumLimit : ℕ) : List ℕ := [1, 2, 4, 8, 16].takeWhile (· ≤ mpeNumLimit)

def mpeWindowSize (KX SX mpeNum : ℕ) : ℕ :=
  if SX ≤ KX then KX + SX * (mpeNum - 1) else KX * mpeNum

/-- The largest window that the hardware takes. -/
def getWindowSize (KX SX : ℕ) (elemType : ElemType) : Except Fault ℕ := do
  throwUnless (KX ≤ 11) "Unsupported kernel size. Supported size up to 11"
  let actualType := getBaseStorageType elemType
  throwUnless (isInteger CHAR_BIT actualType ∨ actualType = .f16 ∨ actualType = .bf16)
    "Supported only U8/I8 and FP16/BF16 types"
  let mpeNumLimit := if actualType = .f16 then 4 else 16
  let maxWindowSize := 32 / (getElemTypeSize actualType / 8)
  .ok ((mpeNums mpeNumLimit).foldl (fun maxMpeWindowSize mpeNum =>
    let windowSize := mpeWindowSize KX SX mpeNum
    if windowSize ≤ maxWindowSize then windowSize else maxMpeWindowSize) 64)

def numOfRepeat (mode : Mode) (kernelSize : List ℕ) (IC : ℕ) : ℕ :=
  if mode = .CM_CONV then kernelY kernelSize * IC else kernelY kernelSize

def getBitPattern (mode : Mode) (kernelSize : List ℕ) (windowSize IC : ℕ) :
    Except Fault Buffer := do
  let KX := kernelX kernelSize
  throwUnless (KX ≤ windowSize) "windowsSize must be greater than or equal to KX"
  let window : Buffer := List.replicate KX 1 ++ List.replicate (windowSize - KX) 0
  .ok ((List.range (numOfRepeat mode kernelSize IC)).flatMap fun _ => window)

def getBitPatternSize (mode : Mode) (kernelSize : List ℕ) (SX : ℕ) (elemType : ElemType)
    (IC : ℕ) : Except Fault ℕ := do
  throwUnless (kernelSize.length = 2) "Unsupported kernel size"
  let KX := kernelX kernelSize
  let windowSize ← getWindowSize KX SX (getBaseStorageType elemType)
  throwUnless (KX ≤ windowSize) "windowsSize must be greater than or equal to KX"
  .ok (numOfRepeat mode kernelSize IC * windowSize)

/-- The bytes of the rows of a channel-major window, in whole chunks of sixteen. -/
def rowsSparsityBytes (KX IC windowSize : ℕ) : ℕ :=
  let windowSparsitySize := (windowSize + 7) / 8
  let numberOfRowsSparsityBytes := (KX * IC * windowSparsitySize + 15) / 16
  numberOfRowsSparsityBytes * 16

/-- The bytes of a bit pattern, in whole chunks of 128 bits. -/
def patternSparsityBytes (bitPatternSize : ℕ) : ℕ := (bitPatternSize + 127) / 128 * 16

def getActivationWindowSize (mode : Mode) (kernelSize : List ℕ) (SX : ℕ) (elemType : ElemType)
    (IC : ℕ) : Except Fault ℕ :=
  match mode with
  | .CM_CONV => do
    throwUnless (kernelSize.length = 2) "Unsupported kernel size"
    let KX := kernelX kernelSize
    let windowSize ← getWindowSize KX SX (getBaseStorageType elemType)
    .ok (rowsSparsityBytes KX IC windowSize)
  | .DW_CONV | .POOL => do
    let bitPatternSize ← getBitPatternSize mode kernelSize SX elemType IC
    .ok (patternSparsityBytes bitPatternSize)

/-- Every byte of the pattern becomes a bit. -/
def packBit (bitPattern : Buffer) (perChannelSparsity : Buffer) (i : ℕ) : Except Fault Buffer := do
  let dstInd := i / 128 * 16 + i % 128 / 8
  throwUnless (dstInd < perChannelSparsity.length)
    "Attempt to access index of perChannelSparsity, which is out of range"
  .ok (overwrite perChannelSparsity dstInd
    [perChannelSparsity.getD dstInd 0 ||| bitPattern.getD i 0 <<< (i % 8)])

def getFakeSparsity (mode : Mode) (kernelSize : List ℕ) (SX : ℕ) (elemType : ElemType)
    (IC : ℕ) : Except Fault Buffer := do
  let windowSize ← getWindowSize (kernelX kernelSize) SX (getBaseStorageType elemType)
  let bitPattern ← getBitPattern mode kernelSize windowSize IC
  let perChannelSparsitySize :=
    match mode with
    | .CM_CONV => rowsSparsityBytes (kernelX kernelSize) IC windowSize
    | .DW_CONV | .POOL => patternSparsityBytes bitPattern.length
  (List.range bitPattern.length).foldlM (packBit bitPattern)
    (List.replicate perChannelSparsitySize 0)

section Window

variable {KX SX windowSize : ℕ} {elemType : ElemType}

theorem le_mpeWindowSize {mpeNum : ℕ} (h : 0 < mpeNum) : KX ≤ mpeWindowSize KX SX mpeNum := by
  unfold mpeWindowSize
  split_ifs
  · exact Nat.le_add_right _ _
  · exact Nat.le_mul_of_pos_right KX h

theorem le_foldl_windows {limit window : ℕ} (hwindow : KX ≤ window) {nums : List ℕ}
    (hnums : ∀ mpeNum ∈ nums, 0 < mpeNum) :
    KX ≤ nums.foldl (fun maxMpeWindowSize mpeNum =>
      if mpeWindowSize KX SX mpeNum ≤ limit then mpeWindowSize KX SX mpeNum
      else maxMpeWindowSize) window := by
  induction nums generalizing window with
  | nil => exact hwindow
  | cons mpeNum nums ih =>
    rw [List.foldl_cons]
    refine ih ?_ fun n hn => hnums n (List.mem_cons_of_mem _ hn)
    split_ifs
    · exact le_mpeWindowSize (hnums mpeNum List.mem_cons_self)
    · exact hwindow

theorem le_of_getWindowSize (h : getWindowSize KX SX elemType = .ok windowSize) :
    KX ≤ windowSize := by
  obtain ⟨_, hsize, h⟩ := bind_eq_ok.mp h
  obtain ⟨_, _, h⟩ := bind_eq_ok.mp h
  rw [throwUnless_eq_ok] at hsize
  rw [← Except.ok.inj h]
  refine le_foldl_windows (hsize.trans (by decide)) fun mpeNum hmem => ?_
  have hall : mpeNum ∈ [1, 2, 4, 8, 16] := List.takeWhile_subset _ hmem
  simp only [List.mem_cons, List.not_mem_nil, or_false] at hall
  omega

end Window

section Pattern

variable {mode : Mode} {kernelSize : List ℕ} {windowSize IC : ℕ} {bitPattern : Buffer}

variable (mode IC) in
theorem getBitPattern_ok (h : kernelX kernelSize ≤ windowSize) :
    ∃ bitPattern, getBitPattern mode kernelSize windowSize IC = .ok bitPattern ∧
      bitPattern.length = numOfRepeat mode kernelSize IC * windowSize ∧
      ∀ k < bitPattern.length,
        bitPattern[k]? = some (if k % windowSize < kernelX kernelSize then 1 else 0) := by
  have hlength : (List.replicate (kernelX kernelSize) (1 : Byte) ++
      List.replicate (windowSize - kernelX kernelSize) 0).length = windowSize := by
    rw [List.length_append, List.length_replicate, List.length_replicate]
    omega
  have hpattern : ((List.range (numOfRepeat mode kernelSize IC)).flatMap fun _ =>
      List.replicate (kernelX kernelSize) (1 : Byte) ++
        List.replicate (windowSize - kernelX kernelSize) 0).length =
      numOfRepeat mode kernelSize IC * windowSize := by
    rw [List.length_flatMap, List.map_congr_left fun _ _ => hlength, List.map_const',
      List.length_range, List.sum_replicate_nat]
  refine ⟨_, ?_, hpattern, ?_⟩
  · rw [getBitPattern, throwUnless, if_pos h]
    rfl
  · intro k hk
    rw [hpattern] at hk
    have hpos : 0 < windowSize := Nat.pos_of_mul_pos_left (Nat.zero_lt_of_lt hk)
    have hmod := Nat.mod_lt k hpos
    have hentry := getElem?_flatMap_range (fun _ _ => hlength)
      ((Nat.div_lt_iff_lt_mul hpos).mpr hk) hmod
    rw [Nat.div_add_mod'] at hentry
    rw [hentry, List.getElem?_append, List.length_replicate]
    split_ifs with hset
    · rw [List.getElem?_replicate, if_pos hset]
    · rw [List.getElem?_replicate, if_pos (by omega)]

theorem getBitPatternSize_ok {SX : ℕ} {elemType : ElemType} (hkernel : kernelSize.length = 2)
    (h : getWindowSize (kernelX kernelSize) SX (getBaseStorageType elemType) = .ok windowSize) :
    getBitPatternSize mode kernelSize SX elemType IC =
      .ok (numOfRepeat mode kernelSize IC * windowSize) := by
  have hle := le_of_getWindowSize h
  unfold getBitPatternSize
  rw [throwUnless, if_pos hkernel]
  dsimp only
  rw [h]
  change (throwUnless (kernelX kernelSize ≤ windowSize) _ >>= _) = _
  rw [throwUnless, if_pos hle]
  rfl

end Pattern

section Packing

variable {bitPattern buf : Buffer} {i : ℕ}

theorem packBit_index (i : ℕ) : i / 128 * 16 + i % 128 / 8 = i / CHAR_BIT := by
  unfold CHAR_BIT
  omega

/-- The pattern is made of ones and zeros. -/
def IsPattern (bitPattern : Buffer) (set : ℕ → Prop) [DecidablePred set] : Prop :=
  ∀ k < bitPattern.length, bitPattern[k]? = some (if set k then 1 else 0)

variable {set : ℕ → Prop} [DecidablePred set]

section

variable (h : IsPattern bitPattern set)
include h

theorem bitAt_pattern (hi : i < bitPattern.length) :
    bitAt bitPattern (i * CHAR_BIT) = decide (set i) := by
  have hpos : 0 < CHAR_BIT := by decide
  rw [bitAt, Nat.mul_div_cancel _ hpos, Nat.mul_mod_left, List.getD_eq_getElem?_getD, h i hi]
  by_cases hset : set i
  · simp [hset]
  · simp [hset]

theorem packBit_eq (hi : i < bitPattern.length) (hroom : i / CHAR_BIT < buf.length) :
    packBit bitPattern buf i =
      .ok (SubViewAttr.setViewBit bitPattern (· * CHAR_BIT) buf i) := by
  unfold packBit SubViewAttr.setViewBit
  dsimp only
  rw [packBit_index, throwUnless, if_pos hroom, bitAt_pattern h hi,
    List.getD_eq_getElem?_getD, List.getD_eq_getElem?_getD, h i hi]
  by_cases hset : set i
  · rw [if_pos hset, decide_eq_true hset, if_pos rfl]
    rfl
  · rw [if_neg hset, decide_eq_false hset, if_neg Bool.false_ne_true]
    have hbyte : buf[i / CHAR_BIT]?.getD 0 ||| (0 : Byte) <<< (i % 8) = buf[i / CHAR_BIT] := by
      rw [List.getElem?_eq_getElem hroom]
      change buf[i / CHAR_BIT] ||| 0#8 <<< (i % 8) = _
      rw [BitVec.zero_shiftLeft, BitVec.or_zero]
    change Except.ok (overwrite buf (i / CHAR_BIT)
      [buf[i / CHAR_BIT]?.getD 0 ||| (0 : Byte) <<< (i % 8)]) = _
    rw [hbyte, overwrite, List.append_assoc, List.singleton_append, List.length_singleton,
      List.getElem_cons_drop, List.take_append_drop]

theorem packBits_ok {size : ℕ} (hroom : bitPattern.length ≤ CHAR_BIT * size) :
    ∃ data, (List.range bitPattern.length).foldlM (packBit bitPattern)
        (List.replicate size 0) = .ok data ∧ data.length = size ∧
      ∀ k, bitAt data k = true ↔ k < bitPattern.length ∧ set k := by
  have hindex : ∀ i < bitPattern.length, i / CHAR_BIT < size := by
    intro i hi
    rw [Nat.div_lt_iff_lt_mul (by decide), Nat.mul_comm]
    omega
  have hrun : (List.range bitPattern.length).foldlM (packBit bitPattern)
      (List.replicate size 0) = .ok ((List.range bitPattern.length).foldl
        (SubViewAttr.setViewBit bitPattern (· * CHAR_BIT)) (List.replicate size 0)) := by
    refine foldlM_eq_pure (P := fun buf : Buffer => buf.length = size) ?_ ?_
      List.length_replicate
    · intro buf i hi hbuf
      have hlt := List.mem_range.mp hi
      exact packBit_eq h hlt (hbuf ▸ hindex i hlt)
    · intro buf i hi hbuf
      rw [SubViewAttr.length_setViewBit (hbuf ▸ hindex i (List.mem_range.mp hi)), hbuf]
  have hfold := SubViewAttr.bitAt_foldl_setViewBit bitPattern (· * CHAR_BIT) hindex
  refine ⟨_, hrun, (hfold 0).1, ?_⟩
  intro k
  rw [(hfold k).2, Bool.and_eq_true, decide_eq_true_iff]
  apply and_congr_right
  intro hk
  rw [bitAt_pattern h hk, decide_eq_true_iff]

end

theorem packBits_room {size : ℕ} {data : Buffer}
    (h : (List.range bitPattern.length).foldlM (packBit bitPattern) (List.replicate size 0) =
      .ok data) : bitPattern.length ≤ CHAR_BIT * size := by
  have hstep : ∀ buf buf' : Buffer, ∀ i ∈ List.range bitPattern.length, buf.length = size →
      packBit bitPattern buf i = .ok buf' → buf'.length = size := by
    intro buf buf' i _ hbuf hpack
    obtain ⟨_, hroom, hpack⟩ := bind_eq_ok.mp hpack
    rw [throwUnless_eq_ok] at hroom
    rw [← Except.ok.inj hpack, length_overwrite hroom, hbuf]
  have hruns := foldlM_ok_runs (P := fun buf : Buffer => buf.length = size) hstep
    List.length_replicate h
  by_contra hlong
  obtain ⟨buf, buf', hbuf, hpack⟩ := hruns (CHAR_BIT * size) (List.mem_range.mpr (by omega))
  obtain ⟨_, hroom, _⟩ := bind_eq_ok.mp hpack
  rw [throwUnless_eq_ok, packBit_index, hbuf, Nat.mul_div_cancel_left _ (by decide)] at hroom
  exact Nat.lt_irrefl _ hroom

end Packing

section Sizes

variable {mode : Mode} {kernelSize : List ℕ} {SX IC size windowSize : ℕ} {elemType : ElemType}

variable (h : getActivationWindowSize mode kernelSize SX elemType IC = .ok size)

include h in
theorem getActivationWindowSize_ok :
    kernelSize.length = 2 ∧ ∃ windowSize,
      getWindowSize (kernelX kernelSize) SX (getBaseStorageType elemType) = .ok windowSize ∧
      size = if mode = .CM_CONV then rowsSparsityBytes (kernelX kernelSize) IC windowSize
        else patternSparsityBytes (numOfRepeat mode kernelSize IC * windowSize) := by
  have hrest : ∀ mode', (do
      let bitPatternSize ← getBitPatternSize mode' kernelSize SX elemType IC
      .ok (patternSparsityBytes bitPatternSize) : Except Fault ℕ) = .ok size →
      kernelSize.length = 2 ∧ ∃ windowSize,
        getWindowSize (kernelX kernelSize) SX (getBaseStorageType elemType) = .ok windowSize ∧
        size = patternSparsityBytes (numOfRepeat mode' kernelSize IC * windowSize) := by
    intro mode' h
    obtain ⟨bitPatternSize, hpattern, h⟩ := bind_eq_ok.mp h
    obtain ⟨_, hkernel, hpattern⟩ := bind_eq_ok.mp hpattern
    obtain ⟨windowSize, hwindow, hpattern⟩ := bind_eq_ok.mp hpattern
    obtain ⟨_, _, hpattern⟩ := bind_eq_ok.mp hpattern
    rw [throwUnless_eq_ok] at hkernel
    refine ⟨hkernel, windowSize, hwindow, ?_⟩
    rw [← Except.ok.inj h, ← Except.ok.inj hpattern]
  cases mode with
  | CM_CONV =>
    obtain ⟨_, hkernel, h⟩ := bind_eq_ok.mp h
    obtain ⟨windowSize, hwindow, h⟩ := bind_eq_ok.mp h
    rw [throwUnless_eq_ok] at hkernel
    exact ⟨hkernel, windowSize, hwindow, (Except.ok.inj h).symm⟩
  | DW_CONV => exact hrest .DW_CONV h
  | POOL => exact hrest .POOL h

theorem getWindowSize_base (KX SX : ℕ) (elemType : ElemType) :
    getWindowSize KX SX (getBaseStorageType elemType) = getWindowSize KX SX elemType := by
  cases elemType <;> rfl

include h in
theorem getFakeSparsity_eq
    (hwindow : getWindowSize (kernelX kernelSize) SX elemType = .ok windowSize)
    {bitPattern : Buffer} (hpattern : getBitPattern mode kernelSize windowSize IC = .ok bitPattern)
    (hlength : bitPattern.length = numOfRepeat mode kernelSize IC * windowSize) :
    getFakeSparsity mode kernelSize SX elemType IC =
      (List.range bitPattern.length).foldlM (packBit bitPattern) (List.replicate size 0) := by
  obtain ⟨_, windowSize', hwindow', rfl⟩ := getActivationWindowSize_ok h
  rw [getWindowSize_base, hwindow] at hwindow'
  obtain rfl : windowSize = windowSize' := Except.ok.inj hwindow'
  unfold getFakeSparsity
  rw [getWindowSize_base, hwindow]
  change (getBitPattern mode kernelSize windowSize IC >>= _) = _
  rw [hpattern]
  cases mode with
  | CM_CONV => rfl
  | DW_CONV =>
    rw [← hlength]
    rfl
  | POOL =>
    rw [← hlength]
    rfl

theorem le_patternSparsityBytes (n : ℕ) : n ≤ CHAR_BIT * patternSparsityBytes n := by
  unfold patternSparsityBytes CHAR_BIT
  omega

/-- The fake sparsity fills its window: a bit is set for every element of a row of the kernel, and
none behind the pattern. -/
def FillsWindow (mode : Mode) (kernelSize : List ℕ) (SX : ℕ) (elemType : ElemType)
    (IC size : ℕ) : Prop :=
  ∃ fakeSparsity windowSize bitPatternSize,
    getFakeSparsity mode kernelSize SX elemType IC = .ok fakeSparsity ∧
    getWindowSize (kernelX kernelSize) SX elemType = .ok windowSize ∧
    getBitPatternSize mode kernelSize SX elemType IC = .ok bitPatternSize ∧
    fakeSparsity.length = size ∧
    (∀ k < bitPatternSize,
      bitAt fakeSparsity k = true ↔ k % windowSize < kernelX kernelSize) ∧
    ∀ k, bitPatternSize ≤ k → bitAt fakeSparsity k = false

/-- A channel-major pattern, with a window for every row and channel, has room in the bytes that
are counted with the width of the kernel in place of its height. -/
def RowsFit (mode : Mode) (kernelSize : List ℕ) (IC windowSize : ℕ) : Prop :=
  mode = .CM_CONV → kernelY kernelSize * IC * windowSize ≤
    CHAR_BIT * rowsSparsityBytes (kernelX kernelSize) IC windowSize

theorem rowsFit_of_le (h : kernelY kernelSize ≤ kernelX kernelSize) :
    RowsFit mode kernelSize IC windowSize := by
  intro _
  have hrow : windowSize ≤ CHAR_BIT * ((windowSize + 7) / 8) := by
    unfold CHAR_BIT
    omega
  have hbytes : kernelX kernelSize * IC * ((windowSize + 7) / 8) ≤
      rowsSparsityBytes (kernelX kernelSize) IC windowSize := by
    unfold rowsSparsityBytes
    dsimp only
    omega
  calc kernelY kernelSize * IC * windowSize
      ≤ kernelX kernelSize * IC * (CHAR_BIT * ((windowSize + 7) / 8)) :=
        Nat.mul_le_mul (Nat.mul_le_mul_right IC h) hrow
    _ = CHAR_BIT * (kernelX kernelSize * IC * ((windowSize + 7) / 8)) := by ring
    _ ≤ CHAR_BIT * rowsSparsityBytes (kernelX kernelSize) IC windowSize :=
        Nat.mul_le_mul_left CHAR_BIT hbytes

include h in
theorem rowsFit_of_getFakeSparsity
    (hwindow : getWindowSize (kernelX kernelSize) SX elemType = .ok windowSize)
    {fakeSparsity : Buffer}
    (hfake : getFakeSparsity mode kernelSize SX elemType IC = .ok fakeSparsity) :
    RowsFit mode kernelSize IC windowSize := by
  obtain ⟨bitPattern, hpattern, hlength, _⟩ :=
    getBitPattern_ok mode IC (le_of_getWindowSize hwindow)
  have heq := getFakeSparsity_eq h hwindow hpattern hlength
  have hroom := packBits_room (heq.symm.trans hfake)
  obtain ⟨_, windowSize', hwindow', hsize⟩ := getActivationWindowSize_ok h
  rw [getWindowSize_base, hwindow] at hwindow'
  obtain rfl : windowSize = windowSize' := Except.ok.inj hwindow'
  rintro rfl
  rwa [hlength, hsize, if_pos rfl, numOfRepeat, if_pos rfl] at hroom

/-- The fake sparsity fills its window exactly when the pattern fits in the bytes that are reserved
for it. -/
theorem getFakeSparsity_fillsWindow_iff (mode : Mode) (kernelSize : List ℕ) (SX : ℕ)
    (elemType : ElemType) (IC size : ℕ)
    (h : getActivationWindowSize mode kernelSize SX elemType IC = .ok size) :
    FillsWindow mode kernelSize SX elemType IC size ↔
      ∀ windowSize, getWindowSize (kernelX kernelSize) SX elemType = .ok windowSize →
        RowsFit mode kernelSize IC windowSize := by
  obtain ⟨hkernel, windowSize, hwindow, hsize⟩ := getActivationWindowSize_ok h
  have hbits : getBitPatternSize mode kernelSize SX elemType IC =
      .ok (numOfRepeat mode kernelSize IC * windowSize) := getBitPatternSize_ok hkernel hwindow
  rw [getWindowSize_base] at hwindow
  obtain ⟨bitPattern, hpattern, hlength, hentries⟩ :=
    getBitPattern_ok mode IC (le_of_getWindowSize hwindow)
  have heq := getFakeSparsity_eq h hwindow hpattern hlength
  constructor
  · rintro ⟨fakeSparsity, _, _, hfake, _⟩ windowSize' hwindow'
    exact rowsFit_of_getFakeSparsity h hwindow' hfake
  · intro hfit
    have hroom : bitPattern.length ≤ CHAR_BIT * size := by
      rw [hlength, hsize]
      split_ifs with hmode
      · have hrows := hfit windowSize hwindow hmode
        rwa [numOfRepeat, if_pos hmode]
      · exact le_patternSparsityBytes _
    have hones : IsPattern bitPattern fun k => k % windowSize < kernelX kernelSize := hentries
    obtain ⟨fakeSparsity, hrun, hfilled, hset⟩ := packBits_ok hones hroom
    refine ⟨fakeSparsity, windowSize, _, heq.trans hrun, hwindow, hbits, hfilled, ?_, ?_⟩
    · intro k hk
      rw [hset, hlength, and_iff_right hk]
    · intro k hk
      rw [Bool.eq_false_iff, ne_eq, hset, hlength]
      exact fun hboth => absurd hboth.1 (Nat.not_lt_of_le hk)

/-- A kernel of three rows and three columns. -/
theorem fillsWindow_square :
    FillsWindow .CM_CONV [3, 3] 1 (.integer 8 .Unsigned) 3 32 := by
  apply (getFakeSparsity_fillsWindow_iff .CM_CONV [3, 3] 1 (.integer 8 .Unsigned) 3 32 rfl).mpr
  intro windowSize _
  exact rowsFit_of_le (Nat.le_refl 3)

/-- A kernel of three rows and one column needs eighteen bytes of the sixteen. -/
theorem not_fillsWindow_column :
    getActivationWindowSize .CM_CONV [3, 1] 1 (.integer 8 .Unsigned) 3 = .ok 16 ∧
      ¬FillsWindow .CM_CONV [3, 1] 1 (.integer 8 .Unsigned) 3 16 := by
  constructor
  · rfl
  · rintro ⟨fakeSparsity, _, _, hfake, _⟩
    have hfit : RowsFit .CM_CONV [3, 1] 3 16 :=
      rowsFit_of_getFakeSparsity rfl rfl hfake
    exact absurd (hfit rfl) (by decide)

end Sizes

end Vpux.VPU.NCESparsity
