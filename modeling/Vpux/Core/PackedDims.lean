import Mathlib.Data.List.GetD
import Mathlib.Data.List.Perm.Basic
import Mathlib.Data.List.Perm.Subperm
import Mathlib.Data.Nat.Digits.Lemmas
import Vpux.Const.Types
import Vpux.Data.Folds

/-! Orders of dimensions packed into a code of four-bit digits, the lowest for the minor dimension
(`core/attributes/dims_order.cpp`). -/
namespace Vpux.Core.Packed
open Data

abbrev StorageType := BitVec 64

def MAX_NUM_DIMS : ℕ := 15
def BITS_PER_DIM : ℕ := 4
def MAX_DIM_IND : ℕ := 15
def INDEX_MASK : StorageType := 0xF

/-- The digits that the loops of the class walk over: from the lowest on, until one is zero. -/
def usedDigits : (left : ℕ) → (code : StorageType) → List ℕ
  | 0, _ => []
  | left + 1, code =>
    let digit := code &&& INDEX_MASK
    if digit = 0 then [] else digit.toNat :: usedDigits left (code >>> BITS_PER_DIM)

def markDim (message : String) (dimUsed : List Bool) (dimInd : ℕ) : Except String (List Bool) :=
  if dimUsed.getD dimInd false then .error message else .ok (dimUsed.set dimInd true)

def noneUsed : List Bool := List.replicate MAX_NUM_DIMS false

/-- The second loop of `validateCode`, which stops at the first dimension that is not used. -/
def checkRange (dimUsed : List Bool) (numDims : ℕ) : List ℕ → Except String Unit
  | [] => .ok ()
  | dimInd :: dims =>
    if dimUsed.getD dimInd false = false then .ok ()
    else if dimInd < numDims then checkRange dimUsed numDims dims
    else .error "Dimension in DimsOrder code is out of range"

def checkUndefined : (left : ℕ) → (codeCopy : StorageType) → Except String Unit
  | 0, _ => .ok ()
  | left + 1, codeCopy =>
    if codeCopy &&& INDEX_MASK = 0 then checkUndefined left (codeCopy >>> BITS_PER_DIM)
    else .error "DimsOrder code is not contiguous"

def validateCode (code : StorageType) : Except String Unit := do
  let digits := usedDigits MAX_NUM_DIMS code
  let numDims := digits.length
  let dimUsed ← (digits.map (· - 1)).foldlM
    (markDim "Dimension was used twice in DimsOrder code") noneUsed
  checkRange dimUsed numDims (List.range MAX_NUM_DIMS)
  checkUndefined (MAX_NUM_DIMS - numDims) (code >>> (BITS_PER_DIM * numDims))

def appendDigit (code : StorageType) (dimDigit : ℕ) : StorageType :=
  (code <<< BITS_PER_DIM) ||| BitVec.ofNat 64 dimDigit

structure DimsOrder where
  code : StorageType
  invertedCode : StorageType
  deriving DecidableEq, Repr

namespace DimsOrder

def ofCode (code : StorageType) : DimsOrder where
  code := code
  invertedCode := (usedDigits MAX_NUM_DIMS code).foldl appendDigit 0

def fromCode (code : StorageType) : Except String DimsOrder := do
  validateCode code
  .ok (ofCode code)

/-- The dimensions that a `Dim` can hold are below `MAX_NUM_DIMS`. -/
def validatePermutation (perm : List ℕ) : Except String Unit := do
  let _ ← perm.foldlM (fun dimUsed d =>
    if ¬d ≤ MAX_DIM_IND then .error "Dim is too large to be used in DimsOrder permutation"
    else if ¬d < perm.length then .error "Dim is out of DimsOrder permutation range"
    else markDim "Dim was used twice in DimsOrder permutation" dimUsed d) noneUsed
  .ok ()

def getCodeFromPermutation (perm : List ℕ) : Except String StorageType := do
  validatePermutation perm
  .ok (perm.foldl (fun code d => appendDigit code (d + 1)) 0)

def fromPermutation (perm : List ℕ) : Except String DimsOrder := do
  let code ← getCodeFromPermutation perm
  .ok (ofCode code)

def toPermutation (order : DimsOrder) : List ℕ :=
  (usedDigits MAX_NUM_DIMS order.invertedCode).map (· - 1)

def dimPos (order : DimsOrder) (d : ℕ) : Except String ℕ :=
  let digits := usedDigits MAX_NUM_DIMS order.invertedCode
  if d + 1 ∈ digits then .ok (digits.idxOf (d + 1))
  else .error "Dim is not available in layout"

def dimAt (order : DimsOrder) (pos : ℕ) : Except String ℕ :=
  let curDigit := (order.invertedCode >>> (pos * BITS_PER_DIM)) &&& INDEX_MASK
  if curDigit.toNat > 0 then .ok (curDigit.toNat - 1)
  else .error "DimsOrder doesn't have Dim at pos"

end DimsOrder

/-- A four-bit digit of a code. -/
def digitAt (code : StorageType) (i : ℕ) : ℕ := code.toNat / 16 ^ i % 16

/-- The low digits are a permutation of the numbers from one on, and there are no others. -/
def IsPermutationCode (code : StorageType) : Prop :=
  ∃ n ≤ MAX_NUM_DIMS, ((List.range n).map (digitAt code)).Perm (List.range' 1 n) ∧
    ∀ i, n ≤ i → digitAt code i = 0

open List

section Digits

section

variable (code : StorageType)
include code

theorem toNat_digit : (code &&& INDEX_MASK).toNat = code.toNat % 16 := by
  have hmask : INDEX_MASK.toNat = 2 ^ 4 - 1 := by decide
  rw [BitVec.toNat_and, hmask, Nat.and_two_pow_sub_one_eq_mod]

theorem digit_eq_zero_iff : code &&& INDEX_MASK = 0 ↔ digitAt code 0 = 0 := by
  rw [← BitVec.toNat_inj, toNat_digit, digitAt, pow_zero, Nat.div_one]
  rfl

theorem toNat_shift (n : ℕ) : (code >>> (BITS_PER_DIM * n)).toNat = code.toNat / 16 ^ n := by
  rw [BitVec.toNat_ushiftRight, Nat.shiftRight_eq_div_pow, BITS_PER_DIM, Nat.pow_mul]

theorem digitAt_shift (n i : ℕ) :
    digitAt (code >>> (BITS_PER_DIM * n)) i = digitAt code (n + i) := by
  rw [digitAt, digitAt, toNat_shift, Nat.div_div_eq_div_mul, ← Nat.pow_add]

theorem digitAt_next (i : ℕ) : digitAt (code >>> BITS_PER_DIM) i = digitAt code (i + 1) := by
  have h := digitAt_shift code 1 i
  rwa [Nat.mul_one, Nat.add_comm 1] at h

theorem digitAt_eq_zero_of_le {i : ℕ} (hi : 16 ≤ i) : digitAt code i = 0 := by
  have hpow : 2 ^ 64 ≤ 16 ^ i := by
    calc 2 ^ 64 = 16 ^ 16 := by norm_num
      _ ≤ 16 ^ i := Nat.pow_le_pow_right (by decide) hi
  rw [digitAt, Nat.div_eq_of_lt (lt_of_lt_of_le code.isLt hpow)]

end

theorem exists_usedDigits (left : ℕ) (code : StorageType) :
    ∃ n ≤ left, usedDigits left code = (List.range n).map (digitAt code) ∧
      (∀ i < n, digitAt code i ≠ 0) ∧ (n < left → digitAt code n = 0) := by
  induction left generalizing code with
  | zero => exact ⟨0, le_rfl, rfl, by simp, by simp⟩
  | succ left ih =>
    have hdigit : (code &&& INDEX_MASK).toNat = digitAt code 0 := by
      rw [toNat_digit, digitAt, pow_zero, Nat.div_one]
    unfold usedDigits
    by_cases hzero : digitAt code 0 = 0
    · rw [if_pos ((digit_eq_zero_iff code).mpr hzero)]
      exact ⟨0, Nat.zero_le _, rfl, by simp, fun _ => hzero⟩
    · rw [if_neg (mt (digit_eq_zero_iff code).mp hzero), hdigit]
      obtain ⟨n, hn, heq, hused, hend⟩ := ih (code >>> BITS_PER_DIM)
      simp only [digitAt_next] at hused hend
      refine ⟨n + 1, by omega, ?_, ?_, fun h => hend (by omega)⟩
      · rw [heq, range_succ_eq_map, map_cons, map_map]
        congr 1
        exact map_congr_left fun i _ => digitAt_next code i
      · intro i hi
        cases i with
        | zero => exact hzero
        | succ i => exact hused i (by omega)

theorem usedDigits_eq {left n : ℕ} {code : StorageType} (hn : n ≤ left)
    (hused : ∀ i < n, digitAt code i ≠ 0) (hend : n < left → digitAt code n = 0) :
    usedDigits left code = (List.range n).map (digitAt code) := by
  obtain ⟨m, hm, heq, hused', hend'⟩ := exists_usedDigits left code
  have hmn : m = n := by
    rcases lt_trichotomy m n with hlt | heq | hlt
    · exact absurd (hend' (by omega)) (hused m hlt)
    · exact heq
    · exact absurd (hend (by omega)) (hused' n hlt)
  rw [heq, hmn]

theorem checkUndefined_eq_ok (left : ℕ) (code : StorageType) :
    checkUndefined left code = .ok () ↔ ∀ i < left, digitAt code i = 0 := by
  induction left generalizing code with
  | zero => simp [checkUndefined]
  | succ left ih =>
    unfold checkUndefined
    by_cases hzero : digitAt code 0 = 0
    · rw [if_pos ((digit_eq_zero_iff code).mpr hzero), ih]
      simp only [digitAt_next]
      constructor
      · intro h i hi
        cases i with
        | zero => exact hzero
        | succ i => exact h i (by omega)
      · intro h i hi
        exact h (i + 1) (by omega)
    · rw [if_neg (mt (digit_eq_zero_iff code).mp hzero)]
      constructor
      · intro h
        cases h
      · intro h
        exact absurd (h 0 (by omega)) hzero

end Digits

variable {digits : List ℕ}

section Used

variable {dimUsed : List Bool}

theorem getD_set_true {d : ℕ} (hd : d < dimUsed.length) (k : ℕ) :
    (dimUsed.set d true).getD k false = true ↔ dimUsed.getD k false = true ∨ k = d := by
  by_cases hk : d = k
  · subst hk
    simp [hd]
  · simp [hk, Ne.symm hk]

theorem foldlM_markDim {message : String} {dims : List ℕ} {dimUsed marked : List Bool}
    (hlt : ∀ d ∈ dims, d < dimUsed.length)
    (h : dims.foldlM (markDim message) dimUsed = .ok marked) :
    (dims.Nodup ∧ ∀ d ∈ dims, dimUsed.getD d false = false) ∧
      ∀ k, marked.getD k false = true ↔ dimUsed.getD k false = true ∨ k ∈ dims := by
  induction dims generalizing dimUsed with
  | nil =>
    cases h
    simp
  | cons d dims ih =>
    rw [foldlM_cons, bind_eq_ok] at h
    obtain ⟨next, hnext, hrest⟩ := h
    unfold markDim at hnext
    split_ifs at hnext with hfree
    cases hnext
    have hd := hlt d (by simp)
    obtain ⟨⟨hnodup, hrestFree⟩, hmarked⟩ := ih
      (fun x hx => by simpa using hlt x (mem_cons_of_mem d hx)) hrest
    have hnotMem : d ∉ dims := by
      intro hmem
      have hmark := (getD_set_true hd d).mpr (.inr rfl)
      rw [hrestFree d hmem] at hmark
      cases hmark
    refine ⟨⟨nodup_cons.mpr ⟨hnotMem, hnodup⟩, ?_⟩, ?_⟩
    · intro x hx
      rcases mem_cons.mp hx with rfl | hx
      · simpa using hfree
      · have hx' := hrestFree x hx
        by_contra hused
        rw [Bool.not_eq_false] at hused
        rw [(getD_set_true hd x).mpr (.inl hused)] at hx'
        cases hx'
    · intro k
      rw [hmarked, getD_set_true hd, mem_cons, or_assoc]

theorem exists_foldlM_markDim (message : String) {dims : List ℕ}
    (hlt : ∀ d ∈ dims, d < dimUsed.length) (hnodup : dims.Nodup)
    (hfree : ∀ d ∈ dims, dimUsed.getD d false = false) :
    ∃ marked, dims.foldlM (markDim message) dimUsed = .ok marked := by
  induction dims generalizing dimUsed with
  | nil => exact ⟨dimUsed, rfl⟩
  | cons d dims ih =>
    obtain ⟨hnotMem, hnodup⟩ := nodup_cons.mp hnodup
    have hd := hlt d (by simp)
    have hmark : markDim message dimUsed d = .ok (dimUsed.set d true) := by
      unfold markDim
      rw [hfree d (by simp), if_neg (by decide)]
    have hrest : ∀ x ∈ dims, (dimUsed.set d true).getD x false = false := by
      intro x hx
      by_contra hused
      rw [Bool.not_eq_false, getD_set_true hd] at hused
      rcases hused with hused | rfl
      · rw [hfree x (mem_cons_of_mem d hx)] at hused
        cases hused
      · exact hnotMem hx
    obtain ⟨marked, hmarked⟩ := ih
      (fun x hx => by simpa using hlt x (mem_cons_of_mem d hx)) hnodup hrest
    refine ⟨marked, ?_⟩
    rw [foldlM_cons, hmark]
    exact hmarked

theorem checkRange_ok {dims : List ℕ} (hused : ∀ d, dimUsed.getD d false = true → d ∈ dims)
    (first count : ℕ) (hbefore : ∀ d < first, dimUsed.getD d false = true) :
    checkRange dimUsed dims.length (List.range' first count) = .ok () := by
  induction count generalizing first with
  | zero => rfl
  | succ count ih =>
    rw [range'_succ]
    unfold checkRange
    by_cases hfirst : dimUsed.getD first false = false
    · rw [if_pos hfirst]
    · rw [Bool.not_eq_false] at hfirst
      have hall : ∀ d < first + 1, dimUsed.getD d false = true := by
        intro d hd
        rcases Nat.lt_succ_iff_lt_or_eq.mp hd with hd | rfl
        · exact hbefore d hd
        · exact hfirst
      have hsub : List.range (first + 1) ⊆ dims := fun d hd =>
        hused d (hall d (mem_range.mp hd))
      have hle := (nodup_range.subperm hsub).length_le
      rw [length_range] at hle
      rw [if_neg (by rw [hfirst]; decide), if_pos (by omega)]
      exact ih (first + 1) hall

theorem getD_noneUsed (d : ℕ) : noneUsed.getD d false = false := by
  rw [noneUsed, getD_eq_getElem?_getD, getElem?_replicate]
  split <;> rfl

theorem nodup_map_sub_one (hpos : ∀ x ∈ digits, x ≠ 0) :
    (digits.map (· - 1)).Nodup ↔ digits.Nodup := by
  constructor
  · exact List.Nodup.of_map _
  · apply List.Nodup.map_on
    intro x hx y hy heq
    have hx := hpos x hx
    have hy := hpos y hy
    omega

theorem digitAt_lt (code : StorageType) (i : ℕ) : digitAt code i < 16 := Nat.mod_lt _ (by decide)

theorem validateCode_run {code : StorageType} {n : ℕ}
    (heq : usedDigits MAX_NUM_DIMS code = (List.range n).map (digitAt code)) :
    validateCode code = .ok () ↔ (((List.range n).map (digitAt code)).map (· - 1)).Nodup ∧
      ∀ i < MAX_NUM_DIMS - n, digitAt (code >>> (BITS_PER_DIM * n)) i = 0 := by
  have hdims : ∀ d ∈ ((List.range n).map (digitAt code)).map (· - 1), d < noneUsed.length := by
    intro d hd
    simp only [mem_map] at hd
    obtain ⟨_, ⟨i, -, rfl⟩, rfl⟩ := hd
    have hlt := digitAt_lt code i
    simp only [noneUsed, length_replicate, MAX_NUM_DIMS]
    omega
  have hlength : (usedDigits MAX_NUM_DIMS code).length = n := by simp [heq]
  unfold validateCode
  dsimp only
  rw [hlength, heq]
  constructor
  · intro h
    obtain ⟨marked, hmark, h⟩ := bind_eq_ok.mp h
    obtain ⟨_, -, hend⟩ := bind_eq_ok.mp h
    exact ⟨(foldlM_markDim hdims hmark).1.1, (checkUndefined_eq_ok _ _).mp hend⟩
  · rintro ⟨hnodup, hend⟩
    obtain ⟨marked, hmark⟩ := exists_foldlM_markDim
      "Dimension was used twice in DimsOrder code" hdims hnodup fun d _ => getD_noneUsed d
    have hused : ∀ d, marked.getD d false = true →
        d ∈ ((List.range n).map (digitAt code)).map (· - 1) := by
      intro d hd
      rcases ((foldlM_markDim hdims hmark).2 d).mp hd with hd | hd
      · rw [getD_noneUsed] at hd
        cases hd
      · exact hd
    have hrange := checkRange_ok hused 0 MAX_NUM_DIMS (by simp)
    rw [length_map, length_map, length_range, ← range_eq_range'] at hrange
    refine bind_eq_ok.mpr ⟨marked, hmark, bind_eq_ok.mpr ⟨(), hrange, ?_⟩⟩
    exact (checkUndefined_eq_ok _ _).mpr hend

theorem validateCode_eq_ok (code : StorageType) : validateCode code = .ok () ↔
    ∃ n ≤ MAX_NUM_DIMS, (∀ i < n, digitAt code i ≠ 0) ∧
      ((List.range n).map (digitAt code)).Nodup ∧
        ∀ i, n ≤ i → i < MAX_NUM_DIMS → digitAt code i = 0 := by
  have hpos : ∀ n, (∀ i < n, digitAt code i ≠ 0) →
      ∀ x ∈ (List.range n).map (digitAt code), x ≠ 0 := by
    intro n hused x hx
    obtain ⟨i, hi, rfl⟩ := mem_map.mp hx
    exact hused i (mem_range.mp hi)
  constructor
  · intro h
    obtain ⟨n, hn, heq, hused, -⟩ := exists_usedDigits MAX_NUM_DIMS code
    obtain ⟨hnodup, hend⟩ := (validateCode_run heq).mp h
    refine ⟨n, hn, hused, (nodup_map_sub_one (hpos n hused)).mp hnodup, ?_⟩
    intro i hi hlt
    have hzero := hend (i - n) (by omega)
    rwa [digitAt_shift, Nat.add_sub_of_le hi] at hzero
  · rintro ⟨n, hn, hused, hnodup, hend⟩
    have heq := usedDigits_eq hn hused fun hlt => hend n le_rfl hlt
    refine (validateCode_run heq).mpr ⟨(nodup_map_sub_one (hpos n hused)).mpr hnodup, ?_⟩
    intro i hi
    rw [digitAt_shift]
    exact hend (n + i) (by omega) (by omega)

/-- A code that is let through although it is not the one of a permutation: a digit is larger
than the number of digits, or the sixteenth digit, which no loop looks at, is not zero. -/
def Overlooked (code : StorageType) : Prop :=
  ∃ n ≤ MAX_NUM_DIMS, (∀ i < n, digitAt code i ≠ 0) ∧
    ((List.range n).map (digitAt code)).Nodup ∧
      (∀ i, n ≤ i → i < MAX_NUM_DIMS → digitAt code i = 0) ∧
        ((∃ i < n, n < digitAt code i) ∨ digitAt code 15 ≠ 0)

end Used

theorem perm_range'_iff (digits : List ℕ) : digits.Perm (List.range' 1 digits.length) ↔
    digits.Nodup ∧ ∀ x ∈ digits, 0 < x ∧ x ≤ digits.length := by
  constructor
  · intro hperm
    refine ⟨hperm.nodup_iff.mpr (nodup_range' ..), ?_⟩
    intro x hx
    have hmem := mem_range'_1.mp (hperm.subset hx)
    omega
  · rintro ⟨hnodup, hbounds⟩
    have hsub : digits ⊆ List.range' 1 digits.length := by
      intro x hx
      have hx := hbounds x hx
      exact mem_range'_1.mpr (by omega)
    exact (hnodup.subperm hsub).perm_of_length_le (by simp)

open DimsOrder

theorem fromCode_isOk_iff (code : StorageType) :
    (∃ order, fromCode code = .ok order) ↔ validateCode code = .ok () := by
  constructor
  · rintro ⟨order, h⟩
    obtain ⟨_, hvalid, -⟩ := bind_eq_ok.mp h
    exact hvalid
  · intro h
    exact ⟨_, bind_eq_ok.mpr ⟨(), h, rfl⟩⟩

theorem IsPermutationCode.valid {code : StorageType} (h : IsPermutationCode code) :
    validateCode code = .ok () := by
  obtain ⟨n, hn, hperm, hzero⟩ := h
  refine (validateCode_eq_ok code).mpr ⟨n, hn, ?_, ?_, fun i hi _ => hzero i hi⟩
  · intro i hi
    have hmem := hperm.subset (mem_map.mpr ⟨i, mem_range.mpr hi, rfl⟩)
    have hpos := (mem_range'_1.mp hmem).1
    omega
  · exact hperm.nodup_iff.mpr (nodup_range' ..)

/-- The codes that are accepted are those of permutations, the overlooked ones apart. -/
theorem accepts_iff (code : StorageType) :
    ((∃ order, fromCode code = .ok order) ↔ IsPermutationCode code) ↔
      ¬Overlooked code := by
  rw [fromCode_isOk_iff]
  constructor
  · rintro h ⟨n, hn, hused, hnodup, hend, hdefect⟩
    obtain ⟨m, hm, hperm, hzero⟩ := h.mp
      ((validateCode_eq_ok code).mpr ⟨n, hn, hused, hnodup, hend⟩)
    have hbounds : ∀ i < m, 0 < digitAt code i ∧ digitAt code i ≤ m := by
      intro i hi
      have hmem := hperm.subset (mem_map.mpr ⟨i, mem_range.mpr hi, rfl⟩)
      have hrange := mem_range'_1.mp hmem
      omega
    obtain rfl : n = m := by
      rcases lt_trichotomy n m with hlt | heq | hlt
      · have hpos := (hbounds n hlt).1
        rw [hend n le_rfl (by omega)] at hpos
        exact absurd hpos (lt_irrefl 0)
      · exact heq
      · exact absurd (hzero m le_rfl) (hused m hlt)
    rcases hdefect with ⟨i, hi, hlt⟩ | hlast
    · have hle := (hbounds i hi).2
      omega
    · exact hlast (hzero 15 hn)
  · intro hnot
    refine ⟨fun hvalid => ?_, IsPermutationCode.valid⟩
    obtain ⟨n, hn, hused, hnodup, hend⟩ := (validateCode_eq_ok code).mp hvalid
    have hlast : digitAt code 15 = 0 := by
      by_contra hne
      exact hnot ⟨n, hn, hused, hnodup, hend, .inr hne⟩
    have hle : ∀ i < n, digitAt code i ≤ n := by
      intro i hi
      by_contra hgt
      exact hnot ⟨n, hn, hused, hnodup, hend, .inl ⟨i, hi, Nat.lt_of_not_le hgt⟩⟩
    refine ⟨n, hn, ?_, ?_⟩
    · have hperm := perm_range'_iff ((List.range n).map (digitAt code))
      rw [length_map, length_range] at hperm
      refine hperm.mpr ⟨hnodup, ?_⟩
      intro x hx
      obtain ⟨i, hi, rfl⟩ := mem_map.mp hx
      have hi := mem_range.mp hi
      exact ⟨Nat.pos_of_ne_zero (hused i hi), hle i hi⟩
    · intro i hi
      rcases lt_trichotomy i 15 with hlt | rfl | hgt
      · exact hend i hi hlt
      · exact hlast
      · exact digitAt_eq_zero_of_le code hgt

section Packing

theorem toNat_appendDigit {code : StorageType} {d : ℕ} (hcode : code.toNat < 2 ^ 60) (hd : d < 16) :
    (appendDigit code d).toNat = d + 16 * code.toNat := by
  unfold appendDigit BITS_PER_DIM
  rw [BitVec.toNat_or, BitVec.toNat_shiftLeft, BitVec.toNat_ofNat, Nat.shiftLeft_eq,
    Nat.mod_eq_of_lt (show code.toNat * 2 ^ 4 < 2 ^ 64 by omega),
    Nat.mod_eq_of_lt (show d < 2 ^ 64 by omega), ← Nat.shiftLeft_eq,
    ← Nat.shiftLeft_add_eq_or_of_lt (show d < 2 ^ 4 from hd), Nat.shiftLeft_eq]
  omega

theorem toNat_foldl_appendDigit (digits done : List ℕ) {code : StorageType}
    (hcode : code.toNat = Nat.ofDigits 16 done) (hlength : digits.length + done.length ≤ 15)
    (hdigits : ∀ x ∈ digits, x < 16) (hdone : ∀ x ∈ done, x < 16) :
    (digits.foldl appendDigit code).toNat = Nat.ofDigits 16 (digits.reverse ++ done) := by
  induction digits generalizing code done with
  | nil => simpa using hcode
  | cons d digits ih =>
    have hd := hdigits d (by simp)
    rw [length_cons] at hlength
    have hbound : code.toNat < 2 ^ 60 := by
      rw [hcode]
      calc Nat.ofDigits 16 done < 16 ^ done.length :=
            Nat.ofDigits_lt_base_pow_length (by decide) hdone
        _ ≤ 16 ^ 15 := Nat.pow_le_pow_right (by decide) (by omega)
        _ = 2 ^ 60 := by norm_num
    have hnext : (appendDigit code d).toNat = Nat.ofDigits 16 (d :: done) := by
      rw [toNat_appendDigit hbound hd, Nat.ofDigits_cons, hcode]
    rw [foldl_cons, ih (d :: done) hnext (by rw [length_cons]; omega)
      (fun x hx => hdigits x (mem_cons_of_mem d hx)) (by
        intro x hx
        rcases mem_cons.mp hx with rfl | hx
        · exact hd
        · exact hdone x hx)]
    simp

theorem digitAt_of_ofDigits {code : StorageType} (hcode : code.toNat = Nat.ofDigits 16 digits)
    (hdigits : ∀ x ∈ digits, x < 16) (i : ℕ) :
    digitAt code i = digits.getD i 0 := by
  unfold digitAt
  rw [hcode]
  clear hcode
  induction digits generalizing i with
  | nil => simp
  | cons d digits ih =>
    have hd := hdigits d (by simp)
    rw [Nat.ofDigits_cons]
    cases i with
    | zero =>
      rw [pow_zero, Nat.div_one, Nat.add_mul_mod_self_left, Nat.mod_eq_of_lt hd]
      rfl
    | succ i =>
      have hdiv : (d + 16 * Nat.ofDigits 16 digits) / 16 = Nat.ofDigits 16 digits := by omega
      rw [pow_succ', ← Nat.div_div_eq_div_mul, hdiv,
        ih (fun x hx => hdigits x (mem_cons_of_mem d hx))]
      rfl

theorem usedDigits_of_ofDigits {code : StorageType} (hcode : code.toNat = Nat.ofDigits 16 digits)
    (hlength : digits.length ≤ MAX_NUM_DIMS) (hdigits : ∀ x ∈ digits, 0 < x ∧ x < 16) :
    usedDigits MAX_NUM_DIMS code = digits := by
  have hat := digitAt_of_ofDigits hcode fun x hx => (hdigits x hx).2
  have hused : ∀ i < digits.length, digitAt code i ≠ 0 := by
    intro i hi
    rw [hat, getD_eq_getElem _ _ hi]
    exact (hdigits _ (getElem_mem hi)).1.ne'
  rw [usedDigits_eq hlength hused fun _ => by rw [hat, getD_eq_default _ _ le_rfl]]
  apply ext_getElem (by simp)
  intro i hi hi'
  rw [getElem_map, getElem_range, hat, getD_eq_getElem _ _ hi']

end Packing

section Permutations

variable {perm : List ℕ} (hperm : perm.Perm (List.range perm.length))
  (hlength : perm.length ≤ MAX_NUM_DIMS)
include hperm hlength

theorem digits_bounds : ∀ x ∈ perm.map (· + 1), 0 < x ∧ x < 16 := by
  intro x hx
  obtain ⟨d, hd, rfl⟩ := mem_map.mp hx
  have hlt := mem_range.mp (hperm.subset hd)
  unfold MAX_NUM_DIMS at hlength
  omega

theorem validatePermutation_ok : validatePermutation perm = .ok () := by
  have hlt : ∀ d ∈ perm, d < perm.length := fun d hd => mem_range.mp (hperm.subset hd)
  have hroom : ∀ d ∈ perm, d < noneUsed.length := by
    intro d hd
    exact lt_of_lt_of_le (hlt d hd) hlength
  obtain ⟨marked, hmarked⟩ := exists_foldlM_markDim
    "Dim was used twice in DimsOrder permutation" hroom (hperm.nodup_iff.mpr nodup_range)
    fun d _ => getD_noneUsed d
  refine bind_eq_ok.mpr ⟨marked, ?_, rfl⟩
  refine (foldlM_congr ?_ noneUsed).trans hmarked
  intro dimUsed d hd
  have hd := hlt d hd
  unfold MAX_NUM_DIMS at hlength
  unfold MAX_DIM_IND
  rw [if_neg (by omega), if_neg (by omega)]

theorem fromPermutation_spec : ∃ order, fromPermutation perm = .ok order ∧
    order = ofCode order.code ∧
      order.code.toNat = Nat.ofDigits 16 (perm.map (· + 1)).reverse ∧
        order.invertedCode.toNat = Nat.ofDigits 16 (perm.map (· + 1)) := by
  have hbounds := digits_bounds hperm hlength
  have hcode : (perm.foldl (fun code d => appendDigit code (d + 1)) 0).toNat =
      Nat.ofDigits 16 (perm.map (· + 1)).reverse := by
    have h := toNat_foldl_appendDigit (perm.map (· + 1)) []
        (show (0 : StorageType).toNat = _ from rfl)
      (by simpa [MAX_NUM_DIMS] using hlength) (fun x hx => (hbounds x hx).2) (by simp)
    rwa [foldl_map, append_nil] at h
  refine ⟨ofCode (perm.foldl (fun code d => appendDigit code (d + 1)) 0), ?_, rfl,
    hcode, ?_⟩
  · refine bind_eq_ok.mpr ⟨_, ?_, rfl⟩
    exact bind_eq_ok.mpr ⟨(), validatePermutation_ok hperm hlength, rfl⟩
  · have hdigits := usedDigits_of_ofDigits hcode (by simpa using hlength)
      (fun x hx => hbounds x (mem_reverse.mp hx))
    unfold ofCode
    rw [hdigits]
    have h := toNat_foldl_appendDigit (perm.map (· + 1)).reverse []
      (show (0 : StorageType).toNat = _ from rfl) (by simpa [MAX_NUM_DIMS] using hlength)
      (fun x hx => (hbounds x (mem_reverse.mp hx)).2) (by simp)
    rwa [reverse_reverse, append_nil] at h

omit hlength in
theorem nodup_digits : (perm.map (· + 1)).Nodup :=
  (hperm.nodup_iff.mpr nodup_range).map fun _ _ h => Nat.succ.inj h

theorem isPermutationCode_of_digits {code : StorageType}
    (hcode : code.toNat = Nat.ofDigits 16 (perm.map (· + 1)).reverse) :
    IsPermutationCode code := by
  have hat := digitAt_of_ofDigits hcode fun x hx =>
    (digits_bounds hperm hlength x (mem_reverse.mp hx)).2
  have hdigits : (List.range perm.length).map (digitAt code) = (perm.map (· + 1)).reverse := by
    apply ext_getElem (by simp)
    intro i hi hi'
    rw [getElem_map, getElem_range, hat, getD_eq_getElem _ _ hi']
  refine ⟨perm.length, hlength, ?_, ?_⟩
  · have hrange := hperm.map (· + 1)
    have hshift : (List.range perm.length).map (· + 1) = List.range' 1 perm.length := by
      apply ext_getElem (by simp)
      intro i hi hi'
      rw [getElem_map, getElem_range, getElem_range']
      omega
    rw [hshift] at hrange
    rw [hdigits]
    exact (reverse_perm _).trans hrange
  · intro i hi
    rw [hat, getD_eq_default _ _ (by simpa using hi)]

end Permutations

/-- Packing a permutation loses nothing: it is unpacked again, its code is accepted, and the
dimension at a position and the position of a dimension are inverse to each other. -/
def PermutationsRoundTrip : Prop :=
  ∀ perm : List ℕ, perm.Perm (List.range perm.length) → perm.length ≤ MAX_NUM_DIMS →
    ∃ order, DimsOrder.fromPermutation perm = .ok order ∧ order.toPermutation = perm ∧
      DimsOrder.fromCode order.code = .ok order ∧
        (∀ pos < perm.length, ∃ d < perm.length,
          order.dimAt pos = .ok d ∧ order.dimPos d = .ok pos) ∧
        ∀ d < perm.length, ∃ pos < perm.length,
          order.dimPos d = .ok pos ∧ order.dimAt pos = .ok d

section Access

variable {order : DimsOrder} {perm : List ℕ} (hperm : perm.Perm (List.range perm.length))
  (hlength : perm.length ≤ MAX_NUM_DIMS)
  (hinverted : order.invertedCode.toNat = Nat.ofDigits 16 (perm.map (· + 1)))
include hperm hlength hinverted

theorem usedDigits_invertedCode :
    usedDigits MAX_NUM_DIMS order.invertedCode = perm.map (· + 1) :=
  usedDigits_of_ofDigits hinverted (by simpa using hlength) (digits_bounds hperm hlength)

theorem toPermutation_eq : order.toPermutation = perm := by
  unfold toPermutation
  rw [usedDigits_invertedCode hperm hlength hinverted, map_map]
  exact map_id' perm

theorem dimAt_eq {pos : ℕ} (hpos : pos < perm.length) : order.dimAt pos = .ok perm[pos] := by
  have hdigit : ((order.invertedCode >>> (pos * BITS_PER_DIM)) &&& INDEX_MASK).toNat =
      perm[pos] + 1 := by
    have hat := digitAt_of_ofDigits hinverted
      (fun x hx => (digits_bounds hperm hlength x hx).2) pos
    rw [getD_eq_getElem _ _ (by simpa using hpos), getElem_map] at hat
    rw [toNat_digit, Nat.mul_comm, toNat_shift]
    exact hat
  unfold dimAt
  dsimp only
  rw [hdigit, if_pos (Nat.succ_pos _), Nat.add_sub_cancel]

theorem dimPos_eq {pos : ℕ} (hpos : pos < perm.length) :
    order.dimPos perm[pos] = .ok pos := by
  have hpos' : pos < (perm.map (· + 1)).length := by simpa using hpos
  have hvalue : (perm.map (· + 1))[pos] = perm[pos] + 1 := getElem_map _
  have hidx := (nodup_digits hperm).idxOf_getElem pos hpos'
  rw [hvalue] at hidx
  unfold dimPos
  dsimp only
  rw [usedDigits_invertedCode hperm hlength hinverted, hidx, if_pos]
  rw [← hvalue]
  exact getElem_mem hpos'

end Access

theorem permutationsRoundTrip : PermutationsRoundTrip := by
  intro perm hperm hlength
  obtain ⟨order, hok, hcode, hdigits, hinverted⟩ := fromPermutation_spec hperm hlength
  have hvalid := (isPermutationCode_of_digits hperm hlength hdigits).valid
  refine ⟨order, hok, toPermutation_eq hperm hlength hinverted, ?_, ?_, ?_⟩
  · rw [fromCode, hvalid]
    exact congrArg Except.ok hcode.symm
  · intro pos hpos
    exact ⟨perm[pos], mem_range.mp (hperm.subset (getElem_mem hpos)),
      dimAt_eq hperm hlength hinverted hpos, dimPos_eq hperm hlength hinverted hpos⟩
  · intro d hd
    obtain ⟨pos, hpos, rfl⟩ :=
      getElem_of_mem (hperm.symm.subset (mem_range.mpr hd))
    exact ⟨pos, hpos, dimPos_eq hperm hlength hinverted hpos,
      dimAt_eq hperm hlength hinverted hpos⟩

/-- A packed order answers what the unpacked permutation of a constant's order does. -/
theorem fromPermutation_constOrder (order : Const.DimsOrder) (hrank : order.numDims ≤ MAX_NUM_DIMS) :
    ∃ packed, DimsOrder.fromPermutation order.toPermutation = .ok packed ∧
      packed.toPermutation = order.toPermutation ∧
        (∀ pos < order.numDims, packed.dimAt pos = .ok (order.dimAt pos)) ∧
          ∀ d < order.numDims, packed.dimPos d = .ok (order.dimPos d) := by
  have hperm := order.isPermutation
  obtain ⟨packed, hok, -, -, hinverted⟩ := fromPermutation_spec hperm hrank
  refine ⟨packed, hok, toPermutation_eq hperm hrank hinverted, fun pos hpos => ?_, fun d hd => ?_⟩
  · rw [dimAt_eq hperm hrank hinverted hpos, Const.DimsOrder.dimAt, getD_eq_getElem _ _ hpos]
  · have hpos := Const.DimsOrder.dimPos_lt hd
    have hback := dimPos_eq hperm hrank hinverted hpos
    rwa [← getD_eq_getElem _ 0 hpos, ← Const.DimsOrder.dimAt, Const.DimsOrder.dimAt_dimPos hd]
      at hback

/-- Orders and codes belong together, except that overlooked codes are accepted. -/
theorem fromCode_iff (code : StorageType) :
    (((∃ order, DimsOrder.fromCode code = .ok order) ↔ IsPermutationCode code) ∧
      PermutationsRoundTrip) ↔ ¬Overlooked code := by
  rw [and_iff_left permutationsRoundTrip]
  exact accepts_iff code

/-- A single digit two: the check of the range stops at the unused dimension zero. -/
theorem fromCode_two :
    (∃ order, DimsOrder.fromCode 0x2 = .ok order) ∧ ¬IsPermutationCode 0x2 := by
  refine ⟨⟨DimsOrder.ofCode 0x2, by decide⟩, ?_⟩
  rintro ⟨n, -, hperm, hzero⟩
  rcases n with _ | _ | n
  · exact absurd (hzero 0 le_rfl) (by decide)
  · exact absurd (hperm.subset (List.mem_map.mpr ⟨0, by simp, rfl⟩)) (by decide)
  · have hmem := hperm.subset (List.mem_map.mpr ⟨1, by simp, rfl⟩)
    have hpos := (List.mem_range'_1.mp hmem).1
    exact absurd hpos (by decide)

end Vpux.Core.Packed
