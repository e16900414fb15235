import Vpux.Const.AddressTransform
import Vpux.Const.Content
import Vpux.Data.Folds
import Mathlib.Data.Finset.Card

/-! The copy loops that swizzle a buffer and undo it (`utils/swizzle_transform.hpp`). -/
namespace Vpux.Const.BufferTransform
open Data
open VPU (ArchKind)

def copyDataWidth : ℕ := 16

def iterations (inSize : ℕ) : ℕ :=
  let dataWidthM1 := copyDataWidth - 1
  ((inSize + dataWidthM1) >>> 4 <<< 4) >>> 4

/-- The loop over the addresses of the blocks, with its 32-bit counter. -/
def copyBlocks (iterations : ℕ) (copy : BitVec 32 → Write) : Write := fun buf => do
  let (buf, _) ← (List.range iterations).foldlM (fun (buf, dpuAddr) _ => do
    let buf ← copy dpuAddr buf
    .ok (buf, dpuAddr + BitVec.ofNat 32 copyDataWidth)) (buf, (0 : BitVec 32))
  .ok buf

def swizzle (t : AddressTransform) (inValues : Buffer) : Write :=
  copyBlocks (iterations inValues.length) fun dpuAddr =>
    copy_n inValues dpuAddr.toNat copyDataWidth (t.getPhysicalAddress dpuAddr).toNat

def deswizzle (t : AddressTransform) (inValues : Buffer) : Write :=
  copyBlocks (iterations inValues.length) fun dpuAddr =>
    copy_n inValues (t.getPhysicalAddress dpuAddr).toNat copyDataWidth dpuAddr.toNat

theorem iterations_mul (n : ℕ) : iterations (n * 16) = n := by
  simp only [iterations, copyDataWidth, Nat.shiftRight_eq_div_pow, Nat.shiftLeft_eq]
  omega

theorem copyBlocks_eq (n : ℕ) (copy : BitVec 32 → Write) (buf : Buffer) :
    copyBlocks n copy buf =
      (List.range n).foldlM (fun buf i => copy (BitVec.ofNat 32 (i * 16)) buf) buf := by
  have hloop : (List.range n).foldlM (fun (buf, dpuAddr) _ => do
      let buf ← copy dpuAddr buf
      .ok (buf, dpuAddr + BitVec.ofNat 32 copyDataWidth)) (buf, (0 : BitVec 32)) =
        (List.range n).foldlM (fun buf i => copy (BitVec.ofNat 32 (i * 16)) buf) buf >>=
          fun buf => (.ok (buf, BitVec.ofNat 32 (n * 16)) : Except Fault _) := by
    induction n with
    | zero => rfl
    | succ n ih =>
      have hnext : BitVec.ofNat 32 (n * 16) + BitVec.ofNat 32 copyDataWidth =
          BitVec.ofNat 32 ((n + 1) * 16) := by
        rw [← BitVec.ofNat_add, Nat.succ_mul]
        rfl
      rw [List.range_succ, List.foldlM_append, List.foldlM_append, ih, bind_assoc, bind_assoc]
      apply bind_congr
      intro buf'
      change ((copy _ buf' >>= _) >>= _ : Except Fault _) = (copy _ buf' >>= _) >>= _
      rw [bind_assoc, bind_assoc]
      apply bind_congr
      intro buf''
      change Except.ok (buf'', _) = Except.ok (buf'', _)
      rw [hnext]
  unfold copyBlocks
  rw [hloop, bind_assoc]
  exact bind_pure _

theorem copy_n_block {src buf : Buffer} {n m i j : ℕ} (hsrc : src.length = n * 16)
    (hbuf : buf.length = m * 16) (hi : i < n) (hj : j < m) :
    copy_n src (i * 16) copyDataWidth (j * 16) buf =
      .ok (overwrite buf (j * 16) (block 16 i src)) := by
  have hlength : (block 16 i src).length = 16 := length_block (by omega)
  have hstore : j * 16 + (block 16 i src).length ≤ buf.length := by omega
  unfold copy_n copyDataWidth
  rw [if_pos (by omega)]
  exact if_pos hstore

def AddressTransform.physicalBlock (t : AddressTransform) (i : ℕ) : ℕ :=
  (t.getPhysicalAddress (BitVec.ofNat 32 (i * 16))).toNat / 16

section Blocks

variable {t : AddressTransform} {bits : BitVec 32} {archKind : ArchKind}
  (h : AddressTransform.setStaggerBits bits archKind = .ok t) {n i j : ℕ}

theorem toNat_address (hi : i < 2 ^ 28) : (BitVec.ofNat 32 (i * 16)).toNat = i * 16 := by
  exact Nat.mod_eq_of_lt (by omega)

include h

open AddressTransform

theorem toNat_physicalBlock (hi : i < 2 ^ 28) :
    (t.getPhysicalAddress (BitVec.ofNat 32 (i * 16))).toNat = t.physicalBlock i * 16 := by
  have hmod := getPhysicalAddress_mod h (BitVec.ofNat 32 (i * 16))
  rw [toNat_address hi] at hmod
  unfold physicalBlock
  omega

theorem physicalBlock_line (hi : i < 2 ^ 28) : t.physicalBlock i / 32 = i / 32 := by
  have hline := getPhysicalAddress_line h (BitVec.ofNat 32 (i * 16))
  rw [toNat_address hi, toNat_physicalBlock h hi] at hline
  omega

theorem physicalBlock_lt (hn : n ≤ 2 ^ 28) (hlines : 32 ∣ n) (hi : i < n) :
    t.physicalBlock i < n := by
  have hline := physicalBlock_line h (show i < 2 ^ 28 by omega)
  omega

theorem physicalBlock_inj (hi : i < 2 ^ 28) (hj : j < 2 ^ 28)
    (heq : t.physicalBlock i = t.physicalBlock j) : i = j := by
  have hblock := (getPhysicalAddress_block h _ _).mp heq
  rw [toNat_address hi, toNat_address hj] at hblock
  omega

theorem exists_physicalBlock (hn : n ≤ 2 ^ 28) (hlines : 32 ∣ n) (hj : j < n) :
    ∃ i < n, t.physicalBlock i = j := by
  have hmaps : Set.MapsTo t.physicalBlock (Finset.range n) (Finset.range n) := by
    intro i hi
    simp only [Finset.coe_range, Set.mem_Iio] at hi ⊢
    exact physicalBlock_lt h hn hlines hi
  have hinj : Set.InjOn t.physicalBlock (Finset.range n) := by
    intro i hi k hk heq
    simp only [Finset.coe_range, Set.mem_Iio] at hi hk
    exact physicalBlock_inj h (by omega) (by omega) heq
  have hsurj := Finset.surjOn_of_injOn_of_card_le t.physicalBlock hmaps hinj le_rfl
  obtain ⟨i, hi, heq⟩ := hsurj (Finset.mem_coe.mpr (Finset.mem_range.mpr hj))
  exact ⟨i, by simpa using hi, heq⟩

variable {m : ℕ} {inValues buf : Buffer}

section

variable (hn : n ≤ 2 ^ 28) (hin : inValues.length = n * 16)
include hn hin

theorem swizzle_eq (hbuf : buf.length = m * 16) (hinside : ∀ i < n, t.physicalBlock i < m) :
    swizzle t inValues buf = .ok (writeBlocks 16 t.physicalBlock
      (fun i => block 16 i inValues) (List.range n) buf) := by
  unfold swizzle
  rw [hin, iterations_mul, copyBlocks_eq]
  refine foldlM_eq_pure (P := fun buf => buf.length = m * 16) ?_ ?_ hbuf
  · intro buf i hi hbuf
    have hi := List.mem_range.mp hi
    rw [toNat_address (hi.trans_le hn), toNat_physicalBlock h (hi.trans_le hn)]
    exact copy_n_block hin hbuf hi (hinside i hi)
  · intro buf i hi hbuf
    have hi := List.mem_range.mp hi
    have hlength : (block 16 i inValues).length = 16 := length_block (by omega)
    have hinside := hinside i hi
    change (overwrite buf (t.physicalBlock i * 16) (block 16 i inValues)).length = m * 16
    rw [length_overwrite (by omega), hbuf]

theorem deswizzle_eq (hbuf : buf.length = n * 16) (hinside : ∀ i < n, t.physicalBlock i < n) :
    deswizzle t inValues buf = .ok (writeBlocks 16 id
      (fun i => block 16 (t.physicalBlock i) inValues) (List.range n) buf) := by
  unfold deswizzle
  rw [hin, iterations_mul, copyBlocks_eq]
  refine foldlM_eq_pure (P := fun buf => buf.length = n * 16) ?_ ?_ hbuf
  · intro buf i hi hbuf
    have hi := List.mem_range.mp hi
    rw [toNat_address (hi.trans_le hn), toNat_physicalBlock h (hi.trans_le hn)]
    exact copy_n_block hin hbuf (hinside i hi) hi
  · intro buf i hi hbuf
    have hi := List.mem_range.mp hi
    have hinside := hinside i hi
    have hlength : (block 16 (t.physicalBlock i) inValues).length = 16 :=
      length_block (by omega)
    change (overwrite buf (i * 16) (block 16 (t.physicalBlock i) inValues)).length = n * 16
    rw [length_overwrite (by omega), hbuf]

theorem block_swizzle (hbuf : buf.length = m * 16) (hinside : ∀ i < n, t.physicalBlock i < m)
    (hi : i < n) :
    block 16 (t.physicalBlock i) (writeBlocks 16 t.physicalBlock
      (fun i => block 16 i inValues) (List.range n) buf) = block 16 i inValues := by
  apply block_writeBlocks hbuf
  · intro k hk
    have hk := List.mem_range.mp hk
    exact length_block (by omega)
  · intro k hk
    exact hinside k (List.mem_range.mp hk)
  · intro k hk k' hk' heq
    have hk := List.mem_range.mp hk
    have hk' := List.mem_range.mp hk'
    rw [physicalBlock_inj h (by omega) (by omega) heq]
  · exact List.mem_range.mpr hi

end

omit h in
theorem block_deswizzle (hin : inValues.length = n * 16) (hbuf : buf.length = n * 16)
    (hinside : ∀ i < n, t.physicalBlock i < n) (hi : i < n) :
    block 16 i (writeBlocks 16 id (fun i => block 16 (t.physicalBlock i) inValues)
      (List.range n) buf) = block 16 (t.physicalBlock i) inValues := by
  change block 16 (id i) _ = (fun i => block 16 (t.physicalBlock i) inValues) i
  apply block_writeBlocks hbuf
  · intro k hk
    have hk := hinside k (List.mem_range.mp hk)
    exact length_block (by omega)
  · intro k hk
    exact List.mem_range.mp hk
  · intro k hk k' hk' heq
    rw [show k = k' from heq]
  · exact List.mem_range.mpr hi

end Blocks

/-- The second transformation gives back what the first one took, whatever the buffers held that
the two of them write. -/
def RoundTrips (first second : Buffer → Write) (bytes : Buffer) : Prop :=
  ∀ fresh fresh' : Buffer, fresh.length = bytes.length → fresh'.length = bytes.length →
    ∃ mid, first bytes fresh = .ok mid ∧ second mid fresh' = .ok bytes

theorem length_moved {n : ℕ} {src dst : ℕ → ℕ} {bytes fresh : Buffer}
    (hbytes : bytes.length = n * 16)
    (hfresh : fresh.length = n * 16) (hsrc : ∀ i < n, src i < n) (hdst : ∀ i < n, dst i < n) :
    (writeBlocks 16 dst (fun i => block 16 (src i) bytes) (List.range n) fresh).length =
      n * 16 := by
  apply length_writeBlocks hfresh
  · intro k hk
    have hk := hsrc k (List.mem_range.mp hk)
    exact length_block (by omega)
  · intro k hk
    exact hdst k (List.mem_range.mp hk)

section Lossless

variable {t : AddressTransform} {bits : BitVec 32} {archKind : ArchKind}
  (h : AddressTransform.setStaggerBits bits archKind = .ok t) {n : ℕ} {bytes : Buffer}
include h

theorem roundTrips_swizzle (hn : n ≤ 2 ^ 28) (hinside : ∀ i < n, t.physicalBlock i < n)
    (hbytes : bytes.length = n * 16) : RoundTrips (swizzle t) (deswizzle t) bytes := by
  intro fresh fresh' hfresh hfresh'
  rw [hbytes] at hfresh hfresh'
  have hswizzle := swizzle_eq h hn hbytes hfresh hinside
  refine ⟨_, hswizzle, ?_⟩
  generalize hswizzled : writeBlocks 16 t.physicalBlock (fun i => block 16 i bytes)
    (List.range n) fresh = swizzled
  have hlength : swizzled.length = n * 16 :=
    hswizzled ▸ length_moved hbytes hfresh (fun _ hi => hi) hinside
  rw [deswizzle_eq h hn hlength hfresh' hinside]
  congr 1
  apply eq_of_blocks (w := 16) (n := n) _ hbytes
  · intro i hi
    rw [block_deswizzle hlength hfresh' hinside hi, ← hswizzled,
      block_swizzle h hn hbytes hfresh hinside hi]
  · exact length_moved hlength hfresh' hinside fun _ hi => hi

theorem roundTrips_deswizzle (hn : n ≤ 2 ^ 28) (hlines : 32 ∣ n)
    (hbytes : bytes.length = n * 16) : RoundTrips (deswizzle t) (swizzle t) bytes := by
  intro fresh fresh' hfresh hfresh'
  rw [hbytes] at hfresh hfresh'
  have hinside : ∀ i < n, t.physicalBlock i < n := fun i hi => physicalBlock_lt h hn hlines hi
  have hdeswizzle := deswizzle_eq h hn hbytes hfresh hinside
  refine ⟨_, hdeswizzle, ?_⟩
  generalize hdeswizzled : writeBlocks 16 id (fun i => block 16 (t.physicalBlock i) bytes)
    (List.range n) fresh = deswizzled
  have hlength : deswizzled.length = n * 16 :=
    hdeswizzled ▸ length_moved hbytes hfresh hinside fun _ hi => hi
  rw [swizzle_eq h hn hlength hfresh' hinside]
  congr 1
  apply eq_of_blocks (w := 16) (n := n) _ hbytes
  · intro j hj
    obtain ⟨i, hi, rfl⟩ := exists_physicalBlock h hn hlines hj
    rw [block_swizzle h hn hlength hfresh' hinside hi, ← hdeswizzled,
      block_deswizzle hbytes hfresh hinside hi]
  · exact length_moved hlength hfresh' (fun _ hi => hi) hinside

end Lossless

/-- Blocks move inside their lines, and swizzling and deswizzling undo each other. -/
theorem swizzle_lossless {t : AddressTransform} {bits : BitVec 32} {archKind : ArchKind}
    (h : AddressTransform.setStaggerBits bits archKind = .ok t) :
    Function.Bijective t.getPhysicalAddress ∧
      (∀ dpuAddr dpuAddr' : BitVec 32,
        (t.getPhysicalAddress dpuAddr).toNat / 16 = (t.getPhysicalAddress dpuAddr').toNat / 16 ↔
          dpuAddr.toNat / 16 = dpuAddr'.toNat / 16) ∧
      (∀ dpuAddr : BitVec 32,
        (t.getPhysicalAddress dpuAddr).toNat % 16 = dpuAddr.toNat % 16 ∧
          (t.getPhysicalAddress dpuAddr).toNat / 512 = dpuAddr.toNat / 512) ∧
      ∀ bytes : Buffer, 512 ∣ bytes.length → bytes.length ≤ 2 ^ 32 →
        RoundTrips (swizzle t) (deswizzle t) bytes ∧
          RoundTrips (deswizzle t) (swizzle t) bytes := by
  refine ⟨AddressTransform.getPhysicalAddress_bijective h,
    AddressTransform.getPhysicalAddress_block h, ?_, ?_⟩
  · intro dpuAddr
    exact ⟨AddressTransform.getPhysicalAddress_mod h dpuAddr,
      AddressTransform.getPhysicalAddress_line h dpuAddr⟩
  · rintro bytes ⟨lines, hlines⟩ hsize
    have hbytes : bytes.length = lines * 32 * 16 := by omega
    have hn : lines * 32 ≤ 2 ^ 28 := by omega
    have hdvd : 32 ∣ lines * 32 := Nat.dvd_mul_left 32 lines
    exact ⟨roundTrips_swizzle h hn (fun i hi => physicalBlock_lt h hn hdvd hi) hbytes,
      roundTrips_deswizzle h hn hdvd hbytes⟩

/-- Two lines under the largest key. -/
theorem swizzle_lossless_two_lines :
    ∃ t, AddressTransform.setStaggerBits 5 .VPUX37XX = .ok t ∧
      RoundTrips (swizzle t) (deswizzle t) ((List.range 1024).map (BitVec.ofNat 8)) := by
  have hkey : AddressTransform.setStaggerBits 5 .VPUX37XX = .ok ⟨5, 31, 4⟩ := by decide
  have h := (swizzle_lossless hkey).2.2.2 ((List.range 1024).map (BitVec.ofNat 8)) (by simp)
    (by simp)
  exact ⟨⟨5, 31, 4⟩, hkey, h.1⟩

theorem store_frame {values buf buf' : Buffer} {pos k : ℕ} (h : store values pos buf = .ok buf')
    (hk : pos + values.length ≤ k) : buf'[k]? = buf[k]? := by
  unfold store at h
  split at h
  · cases h
    exact getElem?_overwrite_of_ge hk (by omega)
  · cases h

theorem deswizzle_frame {t : AddressTransform} {inValues buf buf' : Buffer}
    (h : deswizzle t inValues buf = .ok buf') {k : ℕ} (hk : 2 ^ 32 ≤ k) : buf'[k]? = buf[k]? := by
  unfold deswizzle at h
  rw [copyBlocks_eq] at h
  refine foldlM_ok_keeps (P := fun b => b[k]? = buf[k]?) ?_ rfl h
  intro b b' i _ hb hcopy
  have haddr : (BitVec.ofNat 32 (i * 16)).toNat + 16 ≤ 2 ^ 32 := by
    rw [BitVec.toNat_ofNat]
    omega
  unfold copy_n at hcopy
  split at hcopy
  · next hread =>
    rw [← hb]
    apply store_frame hcopy
    rw [List.length_take, List.length_drop]
    unfold copyDataWidth at *
    omega
  · cases hcopy

/-- Past the 32-bit addresses deswizzling leaves the new buffer as it was. -/
theorem not_swizzle_lossless_large :
    ∃ t, AddressTransform.setStaggerBits 1 .VPUX37XX = .ok t ∧
      512 ∣ (List.replicate (2 ^ 32 + 512) (1 : Byte)).length ∧
      ¬RoundTrips (swizzle t) (deswizzle t) (List.replicate (2 ^ 32 + 512) 1) := by
  refine ⟨_, rfl, by rw [List.length_replicate]; decide, ?_⟩
  intro h
  obtain ⟨mid, -, hmid⟩ := h (List.replicate (2 ^ 32 + 512) 0) (List.replicate (2 ^ 32 + 512) 0)
    (by rw [List.length_replicate, List.length_replicate])
    (by rw [List.length_replicate, List.length_replicate])
  have hframe := deswizzle_frame hmid (le_refl (2 ^ 32))
  rw [List.getElem?_replicate, List.getElem?_replicate, if_pos (by norm_num),
    if_pos (by norm_num)] at hframe
  exact absurd hframe (by decide)

end Vpux.Const.BufferTransform
