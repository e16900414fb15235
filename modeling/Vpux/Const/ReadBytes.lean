import Vpux.Const.CopyTo

/-! The bytes that come from reading a constant as numbers of another type. -/
namespace Vpux.Const
open Data

section Digits

theorem encode_add_mul (size : ℕ) (value k : ℤ) : encode size (value + k * 256 ^ size) =
    encode size value := by
  induction size generalizing value k with
  | zero => simp [encode]
  | succ size ih =>
    have hdiv : (value + k * 256 ^ (size + 1)) / 256 = value / 256 + k * 256 ^ size := by
      rw [pow_succ, ← mul_assoc, Int.add_mul_ediv_right _ _ (by decide)]
    have hbyte : BitVec.ofInt 8 (value + k * 256 ^ (size + 1)) = BitVec.ofInt 8 value := by
      apply BitVec.eq_of_toNat_eq
      rw [BitVec.toNat_ofInt, BitVec.toNat_ofInt, pow_succ, ← mul_assoc]
      congr 1
      exact Int.add_mul_emod_self_right _ _ _
    rw [encode_succ, encode_succ, hdiv, hbyte, ih]

theorem encode_foldr (bytes : Buffer) : encode bytes.length
    (bytes.foldr (fun (byte : Byte) (value : ℤ) => byte.toNat + 256 * value) 0) = bytes := by
  induction bytes with
  | nil => rfl
  | cons byte bytes ih =>
    rw [List.foldr_cons, List.length_cons, encode_succ]
    have hdiv : ∀ value : ℤ, ((byte.toNat : ℤ) + 256 * value) / 256 = value := by
      intro value
      omega
    have hlow : ∀ value : ℤ, BitVec.ofInt 8 ((byte.toNat : ℤ) + 256 * value) = byte := by
      intro value
      apply BitVec.eq_of_toNat_eq
      rw [BitVec.toNat_ofInt]
      omega
    rw [hdiv, hlow, ih]

theorem encode_decode (isSigned : Bool) (bytes : Buffer) :
    encode bytes.length (decode isSigned bytes) = bytes := by
  have hpow : (2 : ℤ) ^ (CHAR_BIT * bytes.length) = 256 ^ bytes.length := by
    rw [pow_mul]
    rfl
  unfold decode
  dsimp only
  split
  · have hshift := encode_add_mul bytes.length
      (bytes.foldr (fun (byte : Byte) (value : ℤ) => byte.toNat + 256 * value) 0) (-1)
    rw [neg_one_mul, ← sub_eq_add_neg, ← hpow] at hshift
    rw [hshift, encode_foldr]
  · exact encode_foldr bytes

theorem checkedCast_integer {floats : FloatCasts} {isSigned isSigned' : Bool} {size size' : ℕ}
    {bytes bytes' : Buffer}
    (h : checkedCast floats (.integer isSigned size) (.integer isSigned' size') bytes =
      .ok bytes') :
    bytes' = encode size' (decode isSigned bytes) := by
  simp only [checkedCast] at h
  split_ifs at h
  exact (Except.ok.inj h).symm

end Digits

namespace Content

section Values

variable (floats : FloatCasts)

/-- The bytes of all values of a constant, read as numbers of one type. -/
def valueBytes (content : Content) (number : Number) : Except Fault Buffer := do
  let range ← content.getValues floats number
  let values ← (List.range content.type.getNumElements).mapM range
  pure values.flatten

variable {floats} {content : Content} {number number' : Number} {bytes bytes' : Buffer}

theorem getValues_eq {range : ℕ → Except Fault Buffer}
    (h : content.getValues floats number = .ok range) : range = content.getItem floats number := by
  obtain ⟨storage, -, h⟩ := bind_eq_ok.mp h
  obtain ⟨_, -, h⟩ := bind_eq_ok.mp h
  exact (Except.ok.inj h).symm

theorem exists_values (h : content.valueBytes floats number = .ok bytes) :
    ∃ value : ℕ → Buffer, bytes = (List.range content.type.getNumElements).flatMap value ∧
      ∀ i < content.type.getNumElements, content.getItem floats number i = .ok (value i) := by
  obtain ⟨range, hrange, h⟩ := bind_eq_ok.mp h
  obtain rfl := getValues_eq hrange
  obtain ⟨values, hmap, h⟩ := bind_eq_ok.mp h
  have hvalue : ∀ i ∈ List.range content.type.getNumElements,
      content.getItem floats number i =
        .ok ((content.getItem floats number i).toOption.getD []) := by
    intro i hi
    obtain ⟨value, hvalue⟩ := mapM_runs hmap i hi
    rw [hvalue]
    rfl
  rw [mapM_ok hvalue] at hmap
  refine ⟨fun i => (content.getItem floats number i).toOption.getD [], ?_, fun i hi =>
    hvalue i (List.mem_range.mpr hi)⟩
  rw [← Except.ok.inj h, ← Except.ok.inj hmap]
  rfl

theorem getItem_cases {i : ℕ} (h : content.getItem floats number i = .ok bytes) :
    ∃ storage x, dispatchByElemType content.storageElemType = .ok storage ∧
      checkedCast floats storage number x = .ok bytes ∧
      x = if content.isSplat then content.data else block storage.size i content.data := by
  obtain ⟨storage, hstorage, h⟩ := bind_eq_ok.mp h
  split at h
  next hsplat =>
    obtain ⟨_, -, h⟩ := bind_eq_ok.mp h
    exact ⟨storage, content.data, hstorage, h, (if_pos hsplat).symm⟩
  next hdense =>
    obtain ⟨_, -, h⟩ := bind_eq_ok.mp h
    split at h
    · cases h
    · exact ⟨storage, _, hstorage, h, (if_neg hdense).symm⟩

theorem getItem_agree {i : ℕ} (h : content.getItem floats number i = .ok bytes)
    (h' : content.getItem floats number' i = .ok bytes')
    (hagree : ∀ storage x, checkedCast floats storage number x = .ok bytes →
      checkedCast floats storage number' x = .ok bytes' → bytes' = bytes) : bytes' = bytes := by
  obtain ⟨storage, x, hstorage, hcast, hx⟩ := getItem_cases h
  obtain ⟨storage', x', hstorage', hcast', hx'⟩ := getItem_cases h'
  obtain rfl := Except.ok.inj (hstorage.symm.trans hstorage')
  rw [hx', ← hx] at hcast'
  exact hagree storage x hcast hcast'

theorem length_valueBytes (h : content.valueBytes floats number = .ok bytes) :
    bytes.length = content.type.getNumElements * number.size := by
  obtain ⟨value, rfl, hvalue⟩ := exists_values h
  rw [List.length_flatMap, List.map_congr_left fun i hi =>
    length_getItem (hvalue i (List.mem_range.mp hi)), List.map_const', List.length_range,
    List.sum_replicate_nat]

/-- Reading gives the stored bytes, when it keeps elements of the type that is read and agrees with
the conversion to the type of the constant. -/
theorem valueBytes_eq_bytes (hconst : content.IsConstant)
    (hbytes : content.bytes floats = .ok bytes)
    (hdispatch : dispatchByElemType content.type.elemType = .ok number)
    (hread : content.valueBytes floats number' = .ok bytes') (hsize : number'.size = number.size)
    (hself : content.isSplat = false → content.type.elemType = content.storageElemType →
      ∀ i < content.type.getNumElements, ∀ value,
        checkedCast floats number number' (block number.size i content.data) = .ok value →
          value = block number.size i content.data)
    (hagree : ∀ storage x value value', checkedCast floats storage number x = .ok value →
      checkedCast floats storage number' x = .ok value' → value' = value) : bytes' = bytes := by
  obtain ⟨value, hvalues, hvalue⟩ := exists_values hread
  have hlength := length_valueBytes hread
  have hwidth := dispatchByElemType_size hdispatch
  have hmem := dispatchByElemType_size_mem hdispatch
  have hwhole : ¬getElemTypeSize content.type.elemType < CHAR_BIT := by
    rw [hwidth]
    unfold CHAR_BIT
    simp only [List.mem_cons, List.not_mem_nil, or_false] at hmem
    omega
  rcases bytes_cases hbytes with ⟨-, hsmall, -⟩ | ⟨hdense, hstored, rfl⟩ | ⟨-, -, number₂, range,
    value₂, h⟩
  · exact absurd hsmall hwhole
  · have htrivial := hstored.resolve_right hwhole
    have hdata := hconst.stored hdense hstored
    rw [storageBytes_of_dvd (Dvd.intro _ hwidth.symm), hwidth,
      Nat.mul_div_cancel_left _ (by decide)] at hdata
    apply eq_of_blocks (hlength.trans (by rw [hsize])) hdata
    intro i hi
    obtain ⟨storage, x, hstorage, hcast, hx⟩ := getItem_cases (hvalue i hi)
    rw [← htrivial, hdispatch] at hstorage
    obtain rfl := Except.ok.inj hstorage
    rw [hdense, if_neg (by decide)] at hx
    subst hx
    have hitem := hself hdense htrivial i hi _ hcast
    have hfit := length_getItem (hvalue i hi)
    rw [← hitem]
    apply block_ext length_block_le (by omega)
    intro k hk
    rw [getElem?_block hk, hvalues]
    exact getElem?_flatMap_range (fun j hj => (length_getItem (hvalue j hj)).trans hsize) hi hk
  · obtain rfl := Except.ok.inj (hdispatch.symm.trans h.dispatch)
    rw [hvalues, h.bytes_eq]
    apply List.flatMap_congr
    intro i hi
    have hi' := List.mem_range.mp hi
    have hitem := h.range_eq i hi'
    rw [getValues_eq h.values] at hitem
    exact getItem_agree hitem (hvalue i hi') fun storage x => hagree storage x _ _

end Values

end Content

end Vpux.Const
