import Vpux.Const.Swizzle

/-! Swizzled buffers byte by byte, also those whose last line is not full. -/
namespace Vpux.Const.BufferTransform
open Data
open VPU (ArchKind)

theorem length_of_store {values buf buf' : Buffer} {pos : ℕ} (h : store values pos buf = .ok buf') :
    pos + values.length ≤ buf.length ∧ buf'.length = buf.length := by
  unfold store at h
  split at h
  · next hle =>
    cases h
    exact ⟨hle, length_overwrite hle⟩
  · cases h

theorem length_of_copy_n {src buf buf' : Buffer} {srcPos count dstPos : ℕ}
    (h : copy_n src srcPos count dstPos buf = .ok buf') :
    srcPos + count ≤ src.length ∧ dstPos + count ≤ buf.length ∧ buf'.length = buf.length := by
  unfold copy_n at h
  split at h
  · next hle =>
    obtain ⟨hstore, hlength⟩ := length_of_store h
    rw [List.length_take, List.length_drop] at hstore
    exact ⟨hle, by omega, hlength⟩
  · cases h

section Copy

variable {n : ℕ} {src buf buf' : Buffer} {srcPos dstPos : BitVec 32 → ℕ}

variable
  (h : copyBlocks n (fun dpuAddr => copy_n src (srcPos dpuAddr) copyDataWidth (dstPos dpuAddr))
    buf =
    .ok buf')
include h

theorem length_of_copyBlocks : buf'.length = buf.length := by
  rw [copyBlocks_eq] at h
  refine foldlM_ok_keeps (P := fun b => b.length = buf.length) ?_ rfl h
  intro b b' i _ hb hcopy
  rw [(length_of_copy_n hcopy).2.2, hb]

theorem copyBlocks_inside {i : ℕ} (hi : i < n) :
    srcPos (BitVec.ofNat 32 (i * 16)) + 16 ≤ src.length ∧
      dstPos (BitVec.ofNat 32 (i * 16)) + 16 ≤ buf.length := by
  rw [copyBlocks_eq] at h
  have hkeeps : ∀ b b' : Buffer, ∀ i ∈ List.range n, b.length = buf.length →
      copy_n src (srcPos (BitVec.ofNat 32 (i * 16))) copyDataWidth
        (dstPos (BitVec.ofNat 32 (i * 16))) b = .ok b' → b'.length = buf.length := by
    intro b b' i _ hb hcopy
    rw [(length_of_copy_n hcopy).2.2, hb]
  obtain ⟨b, b', hb, hcopy⟩ := foldlM_ok_runs hkeeps rfl h i (List.mem_range.mpr hi)
  obtain ⟨hsrc, hdst, -⟩ := length_of_copy_n hcopy
  exact ⟨hsrc, hb ▸ hdst⟩

end Copy

section Address

variable {t : AddressTransform} {bits : BitVec 32} {archKind : ArchKind}
  (h : AddressTransform.setStaggerBits bits archKind = .ok t) {n : ℕ}

def physicalByte (bits : BitVec 32) (k : ℕ) : ℕ :=
  k / 512 * 512 + (k % 512 + AddressTransform.rotation (bits.toNat % 6) (k / 512)) % 512

/-- The lines of which the last is full, or stays as it is under the key. -/
def LastLineStays (bits : BitVec 32) (size : ℕ) : Prop :=
  512 ∣ size ∨ AddressTransform.rotation (bits.toNat % 6) (size / 512) = 0

instance (bits : BitVec 32) (size : ℕ) : Decidable (LastLineStays bits size) :=
  inferInstanceAs (Decidable (_ ∨ _))

open AddressTransform

theorem rotation_bounds (bits : BitVec 32) (line : ℕ) :
    AddressTransform.rotation (bits.toNat % 6) line < 512 ∧
      16 ∣ AddressTransform.rotation (bits.toNat % 6) line :=
  ⟨rotation_lt (Nat.mod_lt _ (by decide)) line,
    dvd_rotation (Nat.mod_lt _ (by decide)) line⟩

theorem physicalByte_lt {size k : ℕ} (hk : k < size) :
    physicalByte bits k < (size + 511) / 512 * 512 := by
  unfold physicalByte
  omega

theorem physicalByte_lt_of_stays {size k : ℕ} (hlast : LastLineStays bits size) (hk : k < size) :
    physicalByte bits k < size := by
  unfold physicalByte
  rcases hlast with hfull | hstays
  · omega
  · by_cases hline : k / 512 = size / 512
    · rw [hline, hstays]
      omega
    · omega

theorem physicalByte_mod {elemSize : ℕ} (helem : elemSize ∈ [1, 2, 4, 8]) (k : ℕ) :
    physicalByte bits k % elemSize = k % elemSize := by
  obtain ⟨-, hdvd⟩ := rotation_bounds bits (k / 512)
  unfold physicalByte
  simp only [List.mem_cons, List.not_mem_nil, or_false] at helem
  rcases helem with rfl | rfl | rfl | rfl <;> omega

theorem exists_moved {elemSize size : ℕ} (helem : elemSize ∈ [1, 2, 4, 8])
    (hwhole : elemSize ∣ size) (hlast : ¬LastLineStays bits size) {q : ℕ} (hq : q < elemSize) :
    ∃ k < size, k % elemSize = q ∧ size ≤ physicalByte bits k := by
  obtain ⟨hpart, hrotated⟩ := not_or.mp hlast
  obtain ⟨hlt, hdvd⟩ := rotation_bounds bits (size / 512)
  refine ⟨size / 512 * 512 + (size % 512 -
    AddressTransform.rotation (bits.toNat % 6) (size / 512)) + q, ?_⟩
  have hline : (size / 512 * 512 + (size % 512 -
      AddressTransform.rotation (bits.toNat % 6) (size / 512)) + q) / 512 = size / 512 := by
    simp only [List.mem_cons, List.not_mem_nil, or_false] at helem
    rcases helem with rfl | rfl | rfl | rfl <;> omega
  unfold physicalByte
  rw [hline]
  simp only [List.mem_cons, List.not_mem_nil, or_false] at helem
  rcases helem with rfl | rfl | rfl | rfl <;> omega

include h

theorem physicalBlock_eq {i : ℕ} (hi : i < 2 ^ 28) :
    t.physicalBlock i * 16 = physicalByte bits (i * 16) := by
  rw [← toNat_physicalBlock h hi, toNat_getPhysicalAddress h, toNat_address hi]
  rfl

theorem physicalByte_eq {k : ℕ} (hk : k < 2 ^ 32) :
    physicalByte bits k = t.physicalBlock (k / 16) * 16 + k % 16 := by
  rw [physicalBlock_eq h (by omega)]
  unfold physicalByte
  have hline : k / 16 * 16 / 512 = k / 512 := by omega
  rw [hline]
  obtain ⟨-, hdvd⟩ := rotation_bounds bits (k / 512)
  omega

/-- All blocks stay inside exactly when the last line is full, or is not rotated. -/
theorem blocks_inside_iff (hn : n ≤ 2 ^ 28) :
    (∀ i < n, t.physicalBlock i < n) ↔ LastLineStays bits (n * 16) := by
  have hline : n * 16 / 512 = n / 32 := by omega
  obtain ⟨hlt, hdvd⟩ := rotation_bounds bits (n / 32)
  unfold LastLineStays
  rw [hline]
  constructor
  · intro hinside
    by_contra hnot
    -- the first block that the rotation moves out of the last line's part
    have hblock := physicalBlock_eq h
      (i := n / 32 * 32 + (n % 32 -
        AddressTransform.rotation (bits.toNat % 6) (n / 32) / 16)) (by omega)
    have hmoved := hinside (n / 32 * 32 + (n % 32 -
      AddressTransform.rotation (bits.toNat % 6) (n / 32) / 16)) (by omega)
    unfold physicalByte at hblock
    have hsame : (n / 32 * 32 + (n % 32 -
      AddressTransform.rotation (bits.toNat % 6) (n / 32) / 16)) * 16 / 512 = n / 32 := by omega
    rw [hsame] at hblock
    omega
  · rintro (hfull | hstays) i hi
    · exact physicalBlock_lt h hn (by omega) hi
    · have hblock := physicalBlock_eq h (show i < 2 ^ 28 by omega)
      unfold physicalByte at hblock
      by_cases hlast : i * 16 / 512 = n / 32
      · rw [hlast, hstays] at hblock
        omega
      · omega

variable {inValues buf : Buffer}

theorem getElem?_deswizzle (hn : n ≤ 2 ^ 28) (hin : inValues.length = n * 16)
    (hbuf : buf.length = n * 16) (hinside : ∀ i < n, t.physicalBlock i < n) :
    ∃ restored, deswizzle t inValues buf = .ok restored ∧ restored.length = n * 16 ∧
      ∀ k < n * 16, restored[k]? = inValues[physicalByte bits k]? := by
  refine ⟨_, deswizzle_eq h hn hin hbuf hinside, ?_, ?_⟩
  · apply length_writeBlocks hbuf
    · intro i hi
      have hi := hinside i (List.mem_range.mp hi)
      exact length_block (by omega)
    · intro i hi
      exact List.mem_range.mp hi
  · intro k hk
    have hmod : k % 16 < 16 := Nat.mod_lt _ (by decide)
    have hsplit : k / 16 * 16 + k % 16 = k := Nat.div_add_mod' k 16
    rw [physicalByte_eq h (by omega), ← getElem?_block hmod,
      ← block_deswizzle hin hbuf hinside (show k / 16 < n by omega), getElem?_block hmod, hsplit]

theorem lastLineStays_of_inside {size : ℕ} (hsize : size ≤ 2 ^ 32)
    (hrun : ∀ i < iterations size, i < 2 ^ 28 →
      t.physicalBlock i * 16 + 16 ≤ size ∧ i * 16 + 16 ≤ size) :
    16 ∣ size ∧ LastLineStays bits size := by
  have hcount : iterations size = (size + 15) / 16 := by
    simp only [iterations, copyDataWidth, Nat.shiftRight_eq_div_pow, Nat.shiftLeft_eq]
    omega
  have hwhole : 16 ∣ size := by
    by_contra hrest
    have hlast := (hrun (size / 16) (by omega) (by omega)).2
    omega
  obtain ⟨n, rfl⟩ := hwhole
  rw [mul_comm 16 n] at *
  refine ⟨Nat.dvd_mul_left 16 n, (blocks_inside_iff h (by omega)).mp fun i hi => ?_⟩
  have hinside := (hrun i (by omega) (by omega)).1
  omega

variable (hsize : inValues.length ≤ 2 ^ 32)
include hsize

theorem lastLineStays_of_deswizzle (hbuf : buf.length = inValues.length) {restored : Buffer}
    (hok : deswizzle t inValues buf = .ok restored) :
    16 ∣ inValues.length ∧ LastLineStays bits inValues.length := by
  apply lastLineStays_of_inside h hsize
  intro i hi hlt
  obtain ⟨hsrc, hdst⟩ := copyBlocks_inside hok hi
  rw [toNat_physicalBlock h hlt] at hsrc
  rw [toNat_address hlt, hbuf] at hdst
  exact ⟨hsrc, hdst⟩

theorem lastLineStays_of_swizzle (hbuf : buf.length = inValues.length) {swizzled : Buffer}
    (hok : swizzle t inValues buf = .ok swizzled) :
    16 ∣ inValues.length ∧ LastLineStays bits inValues.length := by
  apply lastLineStays_of_inside h hsize
  intro i hi hlt
  obtain ⟨hsrc, hdst⟩ := copyBlocks_inside hok hi
  rw [toNat_physicalBlock h hlt, hbuf] at hdst
  rw [toNat_address hlt] at hsrc
  exact ⟨hdst, hsrc⟩

theorem blocks_inside (hwhole : 16 ∣ inValues.length) (hlast : LastLineStays bits inValues.length) :
    ∃ n ≤ 2 ^ 28, inValues.length = n * 16 ∧ ∀ i < n, t.physicalBlock i < n := by
  obtain ⟨n, hn⟩ := hwhole
  rw [mul_comm] at hn
  rw [hn] at hlast
  exact ⟨n, by omega, hn, (blocks_inside_iff h (by omega)).mpr hlast⟩

end Address

/-- Deswizzling a buffer gives one that starts with the given bytes. -/
def Restores (t : AddressTransform) (swizzled bytes : Buffer) : Prop :=
  ∀ buf : Buffer, buf.length = swizzled.length →
    ∃ restored, deswizzle t swizzled buf = .ok restored ∧ restored.take bytes.length = bytes

section Restore

variable {t : AddressTransform} {bits : BitVec 32} {archKind : ArchKind}
  (h : AddressTransform.setStaggerBits bits archKind = .ok t) {swizzled bytes : Buffer}

theorem length_le_of_restores (hle : bytes.length ≤ swizzled.length)
    (hrestores : Restores t swizzled bytes) : bytes.length ≤ 2 ^ 32 := by
  by_contra hlarge
  obtain ⟨restored, hok, htake⟩ := hrestores
    (List.replicate swizzled.length (bytes.getD (2 ^ 32) 0 + 1)) List.length_replicate
  have hbyte : bytes[2 ^ 32]? = some (bytes.getD (2 ^ 32) 0 + 1) := by
    rw [← htake, List.getElem?_take_of_lt (by omega), deswizzle_frame hok le_rfl,
      List.getElem?_replicate, if_pos (by omega), htake]
  rw [List.getD_eq_getElem _ _ (by omega), List.getElem?_eq_getElem (by omega)] at hbyte
  have hne : ∀ b : Byte, b ≠ b + 1 := by decide
  exact hne _ (Option.some.inj hbyte)

include h

theorem lastLineStays_of_restores (hsize : swizzled.length ≤ 2 ^ 32)
    (hrestores : Restores t swizzled bytes) :
    16 ∣ swizzled.length ∧ LastLineStays bits swizzled.length := by
  obtain ⟨restored, hok, -⟩ := hrestores swizzled rfl
  exact lastLineStays_of_deswizzle h hsize rfl hok

theorem restores_iff (hsize : swizzled.length ≤ 2 ^ 32) (hwhole : 16 ∣ swizzled.length)
    (hlast : LastLineStays bits swizzled.length) (hle : bytes.length ≤ swizzled.length) :
    Restores t swizzled bytes ↔
      ∀ k < bytes.length, swizzled[physicalByte bits k]? = bytes[k]? := by
  obtain ⟨n, hn, hlength, hinside⟩ := blocks_inside h hsize hwhole hlast
  constructor
  · intro hrestores k hk
    obtain ⟨restored, hok, htake⟩ := hrestores swizzled rfl
    obtain ⟨restored', hok', -, hbytes⟩ := getElem?_deswizzle h hn hlength hlength hinside
    obtain rfl : restored = restored' := Except.ok.inj (hok.symm.trans hok')
    rw [← hbytes k (by omega), ← htake, List.getElem?_take_of_lt (by rwa [htake] at *)]
  · intro hsame buf hbuf
    obtain ⟨restored, hok, hrestored, hbytes⟩ :=
      getElem?_deswizzle h hn hlength (hbuf.trans hlength) hinside
    refine ⟨restored, hok, List.ext_getElem? fun k => ?_⟩
    by_cases hk : k < bytes.length
    · rw [List.getElem?_take_of_lt hk, hbytes k (by omega), hsame k hk]
    · rw [List.getElem?_take_eq_none (by omega), List.getElem?_eq_none (by omega)]

theorem restores_of_swizzle {staged fresh : Buffer} (hsize : staged.length ≤ 2 ^ 32)
    (hwhole : 16 ∣ staged.length) (hlast : LastLineStays bits staged.length)
    (hfresh : fresh.length = staged.length) (hbytes : staged.take bytes.length = bytes) :
    ∃ mid, swizzle t staged fresh = .ok mid ∧ Restores t mid bytes := by
  obtain ⟨n, hn, hlength, hinside⟩ := blocks_inside h hsize hwhole hlast
  have htrips := roundTrips_swizzle h hn hinside hlength
  obtain ⟨mid, hmid, -⟩ := htrips fresh fresh hfresh hfresh
  have hmidlength : mid.length = staged.length := (length_of_copyBlocks hmid).trans hfresh
  refine ⟨mid, hmid, fun buf hbuf => ⟨staged, ?_, hbytes⟩⟩
  obtain ⟨mid', hmid', hok⟩ := htrips fresh buf hfresh (hbuf.trans hmidlength)
  obtain rfl : mid = mid' := Except.ok.inj (hmid.symm.trans hmid')
  exact hok

/-- A constant of one repeated element, padded with its first byte to whole lines. -/
theorem restores_splat_iff {elemSize : ℕ} (helem : elemSize ∈ [1, 2, 4, 8])
    (hwhole : elemSize ∣ bytes.length)
    (hrepeat : ∀ k < bytes.length, ∀ k' < bytes.length, k % elemSize = k' % elemSize →
      bytes[k]? = bytes[k']?)
    {size : ℕ} (hsize : size = (bytes.length + 511) / 512 * 512) (hlarge : size ≤ 2 ^ 32) :
    Restores t (bytes ++ List.replicate (size - bytes.length) (bytes.headD 0)) bytes ↔
      (∀ byte ∈ bytes, byte = bytes.headD 0) ∨ LastLineStays bits bytes.length := by
  have hstaged : (bytes ++ List.replicate (size - bytes.length) (bytes.headD 0)).length = size := by
    rw [List.length_append, List.length_replicate]
    omega
  have hlines : 512 ∣ size := ⟨_, hsize.trans (mul_comm _ _)⟩
  rw [restores_iff h (by omega) (by omega) (by rw [hstaged]; exact .inl hlines) (by omega)]
  constructor
  · intro hsame
    by_contra hnot
    obtain ⟨hvaries, hlast⟩ := not_or.mp hnot
    push Not at hvaries
    obtain ⟨byte, hbyte, hne⟩ := hvaries
    obtain ⟨k₀, hk₀, rfl⟩ := List.getElem_of_mem hbyte
    have hpos : 0 < elemSize := by
      simp only [List.mem_cons, List.not_mem_nil, or_false] at helem
      omega
    obtain ⟨k, hk, hmod, hmoved⟩ := exists_moved helem hwhole hlast (Nat.mod_lt k₀ hpos)
    have hpad := hsame k hk
    have hplace : physicalByte bits k < (bytes.length + 511) / 512 * 512 := physicalByte_lt hk
    rw [hrepeat k hk k₀ hk₀ hmod, List.getElem?_append_right hmoved, List.getElem?_replicate,
      if_pos (by omega),
      List.getElem?_eq_getElem hk₀] at hpad
    exact hne (Option.some.inj hpad).symm
  · rintro (hequal | hlast) k hk
    · have hplace : physicalByte bits k < (bytes.length + 511) / 512 * 512 := physicalByte_lt hk
      have hall : ∀ byte ∈ bytes ++ List.replicate (size - bytes.length) (bytes.headD 0),
          byte = bytes.headD 0 := by
        intro byte hbyte
        rcases List.mem_append.mp hbyte with hbyte | hbyte
        · exact hequal byte hbyte
        · exact List.eq_of_mem_replicate hbyte
      rw [List.getElem?_eq_getElem (by omega), List.getElem?_eq_getElem hk,
        hall _ (List.getElem_mem _), hequal _ (List.getElem_mem _)]
    · have hplace := physicalByte_lt_of_stays hlast hk
      rw [List.getElem?_append_left hplace]
      exact hrepeat _ hplace k hk (physicalByte_mod helem k)

end Restore

end Vpux.Const.BufferTransform
