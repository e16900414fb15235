import Mathlib.Data.Nat.Bitwise
import Mathlib.Tactic.IntervalCases
import Vpux.VPU.ArchKind

/-! The physical address of a swizzled byte (`utils/swizzle_transform.hpp`). -/
namespace Vpux.Const.BufferTransform
open VPU (ArchKind)

def LOG2_RAM_CUT_DATA_WIDTH : BitVec 32 := 4
def LOG2_RAM_CUT_BYTES : BitVec 32 := LOG2_RAM_CUT_DATA_WIDTH + 5
def RAM_CUT_ADDRESS_MASK : BitVec 32 := ((1 : BitVec 32) <<< LOG2_RAM_CUT_BYTES) - 1
def CUT_ADDRESS_MASK_10b : BitVec 32 := ((1 : BitVec 32) <<< 11) - 1
def MAX_SWIZZLE_KEY : BitVec 32 := 5

structure AddressTransform where
  staggerAddressBits : BitVec 32
  staggerAddressMask : BitVec 32
  shift : BitVec 32
  deriving DecidableEq, Repr

namespace AddressTransform

def setStaggerBits (bits : BitVec 32) (archKind : ArchKind) : Except Fault AddressTransform :=
  let staggerAddressBits := bits % (MAX_SWIZZLE_KEY + 1)
  match archKind with
  | .VPUX37XX => .ok {
      staggerAddressBits := staggerAddressBits
      staggerAddressMask := ((1 : BitVec 32) <<< staggerAddressBits) - 1
      shift := LOG2_RAM_CUT_BYTES - staggerAddressBits }
  | _ => .error (.exception "Unsuported ArchKind")

def addrStagger (t : AddressTransform) (dpuAddr : BitVec 32) : BitVec 32 :=
  ((((dpuAddr >>> LOG2_RAM_CUT_DATA_WIDTH) &&& CUT_ADDRESS_MASK_10b) >>> MAX_SWIZZLE_KEY) &&&
    t.staggerAddressMask) <<< t.shift

def getPhysicalAddress (t : AddressTransform) (dpuAddr : BitVec 32) : BitVec 32 :=
  let phyAddr := (dpuAddr + t.addrStagger dpuAddr) &&& RAM_CUT_ADDRESS_MASK
  phyAddr + (dpuAddr &&& ~~~RAM_CUT_ADDRESS_MASK)

/-- How far the bytes of a line are rotated. -/
def rotation (bits line : ℕ) : ℕ := line % 2 ^ bits * 2 ^ (9 - bits)

theorem rotation_lt {bits : ℕ} (hbits : bits < 6) (line : ℕ) : rotation bits line < 512 := by
  have hmod : line % 2 ^ bits < 2 ^ bits := Nat.mod_lt _ (by positivity)
  have hpow : 2 ^ bits * 2 ^ (9 - bits) = 512 := by
    rw [← Nat.pow_add, Nat.add_sub_of_le (by omega)]
  calc line % 2 ^ bits * 2 ^ (9 - bits) < 2 ^ bits * 2 ^ (9 - bits) :=
        Nat.mul_lt_mul_of_pos_right hmod (by positivity)
    _ = 512 := hpow

theorem dvd_rotation {bits : ℕ} (hbits : bits < 6) (line : ℕ) : 16 ∣ rotation bits line := by
  have hpow : (16 : ℕ) ∣ 2 ^ (9 - bits) := Nat.pow_dvd_pow 2 (show 4 ≤ 9 - bits by omega)
  exact Dvd.dvd.mul_left hpow _

theorem toNat_and_mask (x : BitVec 32) : (x &&& RAM_CUT_ADDRESS_MASK).toNat = x.toNat % 512 := by
  have hmask : RAM_CUT_ADDRESS_MASK.toNat = 2 ^ 9 - 1 := by decide
  rw [BitVec.toNat_and, hmask, Nat.and_two_pow_sub_one_eq_mod]

theorem toNat_and_not_mask (x : BitVec 32) :
    (x &&& ~~~RAM_CUT_ADDRESS_MASK).toNat = x.toNat / 512 * 512 := by
  have hshift : x &&& ~~~RAM_CUT_ADDRESS_MASK = (x >>> 9) <<< 9 := by
    apply BitVec.eq_of_getLsbD_eq
    intro i hi
    have hbit : (~~~RAM_CUT_ADDRESS_MASK).getLsbD i = !decide (i < 9) := by
      interval_cases i <;> decide
    rw [BitVec.getLsbD_and, hbit, BitVec.getLsbD_shiftLeft, BitVec.getLsbD_ushiftRight]
    by_cases h : i < 9
    · simp [h]
    · simp [h, hi, Nat.add_sub_of_le (show 9 ≤ i by omega)]
  rw [hshift, BitVec.toNat_shiftLeft, BitVec.toNat_ushiftRight, Nat.shiftRight_eq_div_pow,
    Nat.shiftLeft_eq]
  omega

theorem toNat_line (dpuAddr : BitVec 32) :
    (((dpuAddr >>> LOG2_RAM_CUT_DATA_WIDTH) &&& CUT_ADDRESS_MASK_10b) >>>
      MAX_SWIZZLE_KEY).toNat = dpuAddr.toNat / 512 % 64 := by
  have hmask : CUT_ADDRESS_MASK_10b.toNat = 2 ^ 11 - 1 := by decide
  have hwidth : LOG2_RAM_CUT_DATA_WIDTH.toNat = 4 := by decide
  have hkey : MAX_SWIZZLE_KEY.toNat = 5 := by decide
  rw [BitVec.ushiftRight_eq', BitVec.toNat_ushiftRight, BitVec.toNat_and, hmask,
    Nat.and_two_pow_sub_one_eq_mod, BitVec.ushiftRight_eq', BitVec.toNat_ushiftRight, hwidth,
    hkey, Nat.shiftRight_eq_div_pow, Nat.shiftRight_eq_div_pow]
  omega

theorem toNat_stagger {k : ℕ} (hk : k < 6) (line : BitVec 32) {m : ℕ}
    (hline : line.toNat = m % 64) :
    ((line &&& (((1 : BitVec 32) <<< BitVec.ofNat 32 k) - 1)) <<<
      (LOG2_RAM_CUT_BYTES - BitVec.ofNat 32 k)).toNat = rotation k m := by
  have hmask : (((1 : BitVec 32) <<< BitVec.ofNat 32 k) - 1).toNat = 2 ^ k - 1 := by
    interval_cases k <;> decide
  have hshift : (LOG2_RAM_CUT_BYTES - BitVec.ofNat 32 k).toNat = 9 - k := by
    interval_cases k <;> decide
  have hdvd : 2 ^ k ∣ 64 := Nat.pow_dvd_pow 2 (show k ≤ 6 by omega)
  have hlt : m % 2 ^ k * 2 ^ (9 - k) < 512 := rotation_lt hk m
  rw [BitVec.shiftLeft_eq', BitVec.toNat_shiftLeft, hshift, BitVec.toNat_and, hmask,
    Nat.and_two_pow_sub_one_eq_mod, hline, Nat.shiftLeft_eq, Nat.mod_mod_of_dvd _ hdvd]
  exact Nat.mod_eq_of_lt (by omega)

variable {t : AddressTransform} {bits : BitVec 32} {archKind : ArchKind}

variable (h : setStaggerBits bits archKind = .ok t)
include h

theorem toNat_addrStagger (dpuAddr : BitVec 32) :
    (t.addrStagger dpuAddr).toNat = rotation (bits.toNat % 6) (dpuAddr.toNat / 512) := by
  cases archKind with
  | UNKNOWN => cases h
  | VPUX30XX => cases h
  | VPUX37XX =>
    have hkey : bits % (MAX_SWIZZLE_KEY + 1) = BitVec.ofNat 32 (bits.toNat % 6) := by
      apply BitVec.eq_of_toNat_eq
      rw [BitVec.toNat_umod, BitVec.toNat_ofNat, Nat.mod_eq_of_lt (b := 2 ^ 32) (by omega)]
      rfl
    unfold setStaggerBits at h
    rw [hkey] at h
    cases h
    exact toNat_stagger (Nat.mod_lt _ (by decide)) _ (toNat_line dpuAddr)

theorem toNat_getPhysicalAddress (dpuAddr : BitVec 32) :
    (t.getPhysicalAddress dpuAddr).toNat = dpuAddr.toNat / 512 * 512 +
      (dpuAddr.toNat % 512 + rotation (bits.toNat % 6) (dpuAddr.toNat / 512)) % 512 := by
  have hstagger := toNat_addrStagger h dpuAddr
  unfold getPhysicalAddress
  rw [BitVec.toNat_add, toNat_and_mask, toNat_and_not_mask, BitVec.toNat_add, hstagger]
  omega

theorem getPhysicalAddress_line (dpuAddr : BitVec 32) :
    (t.getPhysicalAddress dpuAddr).toNat / 512 = dpuAddr.toNat / 512 := by
  rw [toNat_getPhysicalAddress h]
  omega

theorem getPhysicalAddress_mod (dpuAddr : BitVec 32) :
    (t.getPhysicalAddress dpuAddr).toNat % 16 = dpuAddr.toNat % 16 := by
  have hdvd := dvd_rotation (Nat.mod_lt bits.toNat (show 6 > 0 by decide)) (dpuAddr.toNat / 512)
  rw [toNat_getPhysicalAddress h]
  omega

theorem getPhysicalAddress_block (dpuAddr dpuAddr' : BitVec 32) :
    (t.getPhysicalAddress dpuAddr).toNat / 16 = (t.getPhysicalAddress dpuAddr').toNat / 16 ↔
      dpuAddr.toNat / 16 = dpuAddr'.toNat / 16 := by
  have hkey : bits.toNat % 6 < 6 := Nat.mod_lt _ (by decide)
  have hdvd := dvd_rotation hkey (dpuAddr.toNat / 512)
  rw [toNat_getPhysicalAddress h, toNat_getPhysicalAddress h]
  by_cases hline : dpuAddr.toNat / 512 = dpuAddr'.toNat / 512
  · rw [hline] at hdvd ⊢
    omega
  · omega

theorem getPhysicalAddress_bijective : Function.Bijective t.getPhysicalAddress := by
  constructor
  · intro dpuAddr dpuAddr' heq
    have hblock := (getPhysicalAddress_block h dpuAddr dpuAddr').mp (by rw [heq])
    have hmod := getPhysicalAddress_mod h dpuAddr
    have hmod' := getPhysicalAddress_mod h dpuAddr'
    rw [heq] at hmod
    exact BitVec.eq_of_toNat_eq (by omega)
  · intro phyAddr
    have hlt := rotation_lt (Nat.mod_lt bits.toNat (show 6 > 0 by decide))
      (phyAddr.toNat / 512)
    -- the line is rotated back
    let source := phyAddr.toNat / 512 * 512 +
      (phyAddr.toNat % 512 + 512 - rotation (bits.toNat % 6) (phyAddr.toNat / 512)) % 512
    have hsource : (BitVec.ofNat 32 source).toNat = source := by
      exact Nat.mod_eq_of_lt (by omega)
    have hline : source / 512 = phyAddr.toNat / 512 := by omega
    refine ⟨BitVec.ofNat 32 source, BitVec.eq_of_toNat_eq ?_⟩
    rw [toNat_getPhysicalAddress h, hsource, hline]
    omega

end AddressTransform

end Vpux.Const.BufferTransform
