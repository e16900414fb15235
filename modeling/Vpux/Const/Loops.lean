import Vpux.Const.Content

/-! Every way to run over the elements of a tensor visits the points of its box, and writes an
element for each. -/
namespace Vpux.Const
open Data

section MemIndex

theorem getMemIndexND_eq {memIndex1D : ℕ} {memShape : List ℕ} (h : memIndex1D < memShape.prod) :
    getMemIndexND memIndex1D memShape = .ok (pointAt memShape memIndex1D) := by
  have hfold : memShape.foldr (fun mdSize (state : List ℕ × ℕ) =>
      (state.2 % mdSize :: state.1, (state.2 - state.2 % mdSize) / mdSize)) ([], memIndex1D) =
      (pointAt memShape memIndex1D, memIndex1D / memShape.prod) := by
    clear h
    induction memShape with
    | nil => simp [pointAt]
    | cons mdSize memShape ih =>
      rw [List.foldr_cons, ih, pointAt, List.prod_cons, ← Nat.div_eq_sub_mod_div,
        Nat.div_div_eq_div_mul, mul_comm]
  unfold getMemIndexND
  rw [hfold]
  exact if_pos (Nat.div_eq_of_lt h)

theorem getMemIndex1D_eq {memIndexND memShape : List ℕ} (h : InBox memShape memIndexND) :
    getMemIndex1D memIndexND memShape = .ok (rowMajor memShape memIndexND) := by
  have hfold : (memIndexND.zip memShape).foldrM
      (fun (ind : ℕ × ℕ) (state : ℕ × ℕ) => (do
        throwUnless (ind.1 < ind.2) "Memory index ND is not compatible with memory shape"
        .ok (state.1 + ind.1 * state.2, state.2 * ind.2) : Except Fault (ℕ × ℕ))) (0, 1) =
      .ok (rowMajor memShape memIndexND, memShape.prod) := by
    induction h with
    | nil => rfl
    | @cons mdInd mdSize memIndexND memShape hlt _ ih =>
      rw [List.zip_cons_cons, List.foldrM_cons, ih]
      rw [throwUnless, if_pos hlt, rowMajor, List.prod_cons, Nat.add_comm (mdInd * _),
        Nat.mul_comm mdSize]
      rfl
  unfold getMemIndex1D
  rw [throwUnless, if_pos h.length_eq]
  rw [hfold]
  rfl

end MemIndex

section Points

/-- The jobs of a loop are the points of a box. -/
def Enumerates {ι : Type} (sizes : List ℕ) (jobs : List ι) (point : ι → List ℕ) : Prop :=
  ∀ k, InBox sizes k ↔ ∃ j ∈ jobs, point j = k

theorem enumerates_one (dim0 : ℕ) :
    Enumerates [dim0] (List.range dim0) fun i => [i] := by
  intro k
  constructor
  · intro hk
    match k, hk with
    | [i], hk => exact ⟨i, List.mem_range.mpr (inBox_cons.mp hk).1, rfl⟩
  · rintro ⟨i, hi, rfl⟩
    simpa using hi

theorem Enumerates.cons {ι : Type} {sizes : List ℕ} {jobs : List ι} {point : ι → List ℕ}
    (h : Enumerates sizes jobs point) (dim0 : ℕ) :
    Enumerates (dim0 :: sizes) (List.range dim0 ×ˢ jobs) fun i => i.1 :: point i.2 := by
  intro k
  constructor
  · intro hk
    cases k with
    | nil => cases hk
    | cons i k =>
      obtain ⟨hi, hk⟩ := inBox_cons.mp hk
      obtain ⟨j, hj, rfl⟩ := (h k).mp hk
      exact ⟨(i, j), List.mem_product.mpr ⟨List.mem_range.mpr hi, hj⟩, rfl⟩
  · rintro ⟨⟨i, j⟩, hij, rfl⟩
    obtain ⟨hi, hj⟩ := List.mem_product.mp hij
    exact inBox_cons.mpr ⟨List.mem_range.mp hi, (h _).mpr ⟨j, hj, rfl⟩⟩

theorem enumerates_two (dim0 dim1 : ℕ) :
    Enumerates [dim0, dim1] (List.range dim0 ×ˢ List.range dim1) fun i => [i.1, i.2] :=
  (enumerates_one dim1).cons dim0

theorem enumerates_three (dim0 dim1 dim2 : ℕ) :
    Enumerates [dim0, dim1, dim2] (List.range dim0 ×ˢ List.range dim1 ×ˢ List.range dim2)
      fun i => [i.1, i.2.1, i.2.2] :=
  (enumerates_two dim1 dim2).cons dim0

theorem enumerates_four (dim0 dim1 dim2 dim3 : ℕ) :
    Enumerates [dim0, dim1, dim2, dim3]
      (List.range dim0 ×ˢ List.range dim1 ×ˢ List.range dim2 ×ˢ List.range dim3)
      fun i => [i.1, i.2.1, i.2.2.1, i.2.2.2] :=
  (enumerates_three dim1 dim2 dim3).cons dim0

theorem enumerates_pointAt (sizes : List ℕ) :
    Enumerates sizes (List.range sizes.prod) (pointAt sizes) := by
  intro k
  constructor
  · intro hk
    exact ⟨rowMajor sizes k, List.mem_range.mpr (rowMajor_lt hk), pointAt_rowMajor hk⟩
  · rintro ⟨n, hn, rfl⟩
    exact inBox_pointAt (Nat.zero_lt_of_lt (List.mem_range.mp hn)) n

end Points

section Writes

variable {w : ℕ} {sizes outSizes : List ℕ} {place : List ℕ → List ℕ} {val : List ℕ → Buffer}
  {outBuf : Buffer}

/-- A loop leaves the value of every point at its place, and the rest of the buffer as it was. -/
structure Places (w : ℕ) (sizes outSizes : List ℕ) (place : List ℕ → List ℕ)
    (val : List ℕ → Buffer) (outBuf data : Buffer) : Prop where
  length_eq : data.length = outSizes.prod * w
  placed : ∀ k, InBox sizes k → block w (rowMajor outSizes (place k)) data = val k
  kept : ∀ k, InBox outSizes k → (∀ k', InBox sizes k' → place k' ≠ k) →
    block w (rowMajor outSizes k) data = block w (rowMajor outSizes k) outBuf

theorem store_block {values buf : Buffer} {n dst : ℕ} (hbuf : buf.length = n * w)
    (hvalues : values.length = w) (hdst : dst < n) :
    store values (dst * w) buf = .ok (overwrite buf (dst * w) values) := by
  have hle : (dst + 1) * w ≤ n * w := Nat.mul_le_mul_right w hdst
  rw [Nat.succ_mul] at hle
  exact if_pos (by omega)

theorem copy_n_block {src buf : Buffer} {n s : ℕ} (hsrc : src.length = n * w) (hs : s < n)
    (pos : ℕ) : copy_n src (s * w) w pos buf = store (block w s src) pos buf := by
  have hle : (s + 1) * w ≤ n * w := Nat.mul_le_mul_right w hs
  rw [Nat.succ_mul] at hle
  exact if_pos (by omega)

theorem length_block_of_lt {src : Buffer} {n s : ℕ} (hsrc : src.length = n * w) (hs : s < n) :
    (block w s src).length = w :=
  length_block (hsrc ▸ Nat.mul_le_mul_right w hs)

theorem Places.of_loop {ι : Type} {jobs : List ι} {point : ι → List ℕ} {body : ι → Write}
    (hjobs : Enumerates sizes jobs point) (hbuf : outBuf.length = outSizes.prod * w)
    (hval : ∀ k, InBox sizes k → (val k).length = w)
    (hplace : ∀ k, InBox sizes k → InBox outSizes (place k))
    (hinj : ∀ k k', InBox sizes k → InBox sizes k' → place k = place k' → k = k')
    (hbody : ∀ j ∈ jobs, ∀ buf : Buffer, buf.length = outSizes.prod * w →
      body j buf = store (val (point j)) (rowMajor outSizes (place (point j)) * w) buf) :
    ∃ data, jobs.foldlM (fun buf j => body j buf) outBuf = .ok data ∧
      Places w sizes outSizes place val outBuf data := by
  have hin : ∀ j ∈ jobs, InBox sizes (point j) := fun j hj => (hjobs _).mpr ⟨j, hj, rfl⟩
  have hlt : ∀ j ∈ jobs, rowMajor outSizes (place (point j)) < outSizes.prod := fun j hj =>
    rowMajor_lt (hplace _ (hin j hj))
  have hlength : ∀ j ∈ jobs, (val (point j)).length = w := fun j hj => hval _ (hin j hj)
  have hrun : jobs.foldlM (fun buf j => body j buf) outBuf = .ok (writeBlocks w
      (fun j => rowMajor outSizes (place (point j))) (fun j => val (point j)) jobs outBuf) := by
    refine foldlM_eq_pure (P := fun buf : Buffer => buf.length = outSizes.prod * w) ?_ ?_ hbuf
    · intro buf j hj hbuf'
      rw [hbody j hj buf hbuf', store_block hbuf' (hlength j hj) (hlt j hj)]
      rfl
    · intro buf j hj hbuf'
      have hle : (rowMajor outSizes (place (point j)) + 1) * w ≤ outSizes.prod * w :=
        Nat.mul_le_mul_right w (hlt j hj)
      rw [Nat.succ_mul] at hle
      have hsize := hlength j hj
      refine (length_overwrite ?_).trans hbuf'
      dsimp only
      omega
  refine ⟨_, hrun, ?_, ?_, ?_⟩
  · exact length_writeBlocks hbuf hlength hlt
  · intro k hk
    obtain ⟨j, hj, rfl⟩ := (hjobs k).mp hk
    refine block_writeBlocks hbuf hlength hlt ?_ hj
    intro i hi i' hi' heq
    have hpoint := rowMajor_injective (hplace _ (hin i hi)) (hplace _ (hin i' hi')) heq
    exact congrArg val (hinj _ _ (hin i hi) (hin i' hi') hpoint)
  · intro k hk hfree
    refine block_writeBlocks_of_notMem hbuf hlength hlt ?_
    intro j hj heq
    exact hfree _ (hin j hj) (rowMajor_injective (hplace _ (hin j hj)) hk heq)

theorem Places.unique {data data' : Buffer} (h : Places w sizes outSizes place val outBuf data)
    (h' : Places w sizes outSizes place val outBuf data') : data = data' := by
  refine eq_of_blocks h.length_eq h'.length_eq fun i hi => ?_
  have hk := inBox_pointAt (Nat.zero_lt_of_lt hi) i
  rw [← rowMajor_pointAt hi]
  by_cases hplace : ∃ k, InBox sizes k ∧ place k = pointAt outSizes i
  · obtain ⟨k, hk, heq⟩ := hplace
    rw [← heq, h.placed k hk, h'.placed k hk]
  · have hfree : ∀ k, InBox sizes k → place k ≠ pointAt outSizes i :=
      fun k hk heq => hplace ⟨k, hk, heq⟩
    rw [h.kept _ hk hfree, h'.kept _ hk hfree]

end Writes

section Storage
open Content

theorem storageBytes_of_dvd {storageElemType : ElemType}
    (h : CHAR_BIT ∣ getElemTypeSize storageElemType) (count : ℕ) :
    storageBytes storageElemType count =
      count * (getElemTypeSize storageElemType / CHAR_BIT) := by
  obtain ⟨size, hsize⟩ := h
  have hpos : 0 < CHAR_BIT := by decide
  rw [storageBytes, hsize, Nat.mul_div_cancel_left _ hpos, Nat.mul_assoc,
    Nat.mul_add_div hpos, Nat.div_eq_of_lt (by decide), Nat.add_zero, Nat.mul_comm]

theorem div_lt_storageBytes {storageElemType : ElemType} (h : getElemTypeSize storageElemType = 1)
    {count i : ℕ} (hi : i < count) :
    i / CHAR_BIT < storageBytes storageElemType count := by
  rw [storageBytes, h]
  simp only [CHAR_BIT]
  omega

theorem toByte_of_dvd {bits : ℕ} (h : CHAR_BIT ∣ bits) : toByte bits = .ok (bits / CHAR_BIT) :=
  if_pos (Nat.mod_eq_zero_of_dvd h)

@[simp] theorem length_allocTempBuffer (fresh : ℕ → Byte) (type : NDType)
    (storageElemType : ElemType) : (allocTempBuffer fresh type storageElemType
      false).data.length = storageBytes storageElemType type.getNumElements := by
  simp [allocTempBuffer]

variable {content : Content}

theorem memIndex_eq {shape : List ℕ} {order : DimsOrder} (hshape : content.type.shape = shape)
    (horder : content.type.dimsOrder = order) (x : List ℕ) :
    content.memIndex x = rowMajor (order.memoryOrder shape) (order.memoryOrder x) := by
  rw [memIndex, NDType.getMemShape, hshape, horder]

theorem element_of_bit (hsplat : content.isSplat = false)
    (h : getElemTypeSize content.storageElemType = 1) (x : List ℕ) :
    content.element x = .bit (bitAt content.data (content.memIndex x)) := by
  simp [element, hsplat, h]

theorem element_of_bytes (hsplat : content.isSplat = false)
    (h : getElemTypeSize content.storageElemType ≠ 1) (x : List ℕ) :
    content.element x = .bytes (block (getElemTypeSize content.storageElemType / CHAR_BIT)
      (content.memIndex x) content.data) := by
  simp [element, hsplat, h]

theorem elemSize_pos {bits : ℕ} (hpos : 0 < bits) (h : CHAR_BIT ∣ bits) : 0 < bits / CHAR_BIT :=
  Nat.div_pos (Nat.le_of_dvd hpos h) (by decide)

end Storage

end Vpux.Const

-- A buffer filled with the zero value of its type.
namespace Vpux.Const.Content
open Data

variable (floats : FloatCasts)

/-- The element that stands for zero at a coordinate: the zero point of a quantized type. -/
def zeroValue (type : NDType) (storageElemType : ElemType) (x : List ℕ) : Except Fault Buffer :=
  match type.elemType with
  | .uniformQuantizedPerAxis _ _ _ zeroPoints => do
    let number ← dispatchByElemType storageElemType
    castZeroPoint floats number (zeroPoints.getD (x.getD 0 0) 0)
  | .uniformQuantized _ _ zp => do
    let number ← dispatchByElemType storageElemType
    castZeroPoint floats number zp
  | _ => .ok (List.replicate (getElemTypeSize storageElemType / CHAR_BIT) 0)

/-- Zero points only per output channel of 4D weights, and each a number of the stored type. -/
structure ZeroFillable (type : NDType) (storageElemType : ElemType) : Prop where
  perChannel : ∀ axis, type.elemType.quantizedAxis = some axis →
    type.shape.length = 4 ∧ axis = 0 ∧ type.elemType.zeroPoints ≠ []
  casts : type.elemType.zeroPoints ≠ [] →
    ∃ number, dispatchByElemType storageElemType = .ok number ∧
      ∀ zp ∈ type.elemType.zeroPoints, ∃ value, castZeroPoint floats number zp = .ok value

variable {floats} {content : Content} {w : ℕ} {number : Number}

theorem castZeroPoint_length {zp : ℤ} {value : Buffer}
    (h : castZeroPoint floats number zp = .ok value) : value.length = number.size :=
  length_checkedCast h

theorem fillChannels_eq (zps : List ℤ)
    (hnumber : dispatchByElemType content.storageElemType = .ok number) (outMemShape : List ℕ)
    (OC IC H W : ℕ) (buf : Buffer) :
    loop_1d OC (content.fillChannel floats outMemShape zps IC H W) buf =
      loop_4d OC IC H W (fun i ic h w buf => do
        let inMemIndND ← content.type.dimsOrder.toMemoryOrder [i, ic, h, w]
        let inMemInd1D ← getMemIndex1D inMemIndND outMemShape
        let value ← castZeroPoint floats number (zps.getD i 0)
        store value (inMemInd1D * number.size) buf) buf := by
  rw [loop_1d, loop_4d, foldlM_product]
  congr 1
  funext buf i
  rw [fillChannel, hnumber]
  rfl

theorem fillChannels_places {zps : List ℤ} {OC IC H W : ℕ}
    (hshape : content.type.shape = [OC, IC, H, W]) (hzps : zps.length = OC)
    (hnumber : dispatchByElemType content.storageElemType = .ok number)
    (hcasts : ∀ zp ∈ zps, ∃ value, castZeroPoint floats number zp = .ok value)
    (hbuf : content.data.length = content.type.getMemShape.prod * number.size) :
    ∃ data, loop_1d OC (content.fillChannel floats content.type.getMemShape zps IC H W)
        content.data = .ok data ∧
      Places number.size content.type.shape content.type.getMemShape
        content.type.dimsOrder.memoryOrder
        (fun k => ((castZeroPoint floats number (zps.getD (k.getD 0 0) 0)).toOption).getD [])
        content.data data := by
  have hrank : content.type.shape.length = content.type.dimsOrder.numDims :=
    content.type.numDims_eq.symm
  have hcast : ∀ k, InBox content.type.shape k →
      ∃ value, castZeroPoint floats number (zps.getD (k.getD 0 0) 0) = .ok value := by
    intro k hk
    rw [hshape] at hk
    obtain ⟨i, k, rfl⟩ := List.exists_cons_of_length_eq_add_one hk.length_eq
    have hi : i < zps.length := hzps ▸ (inBox_cons.mp hk).1
    apply hcasts
    rw [List.getD_cons_zero, List.getD_eq_getElem _ _ hi]
    exact List.getElem_mem hi
  have hmem : ∀ k, InBox content.type.shape k →
      InBox content.type.getMemShape (content.type.dimsOrder.memoryOrder k) :=
    fun k hk => DimsOrder.inBox_memoryOrder hk hrank
  have hjobs : Enumerates content.type.shape _ _ := hshape ▸ enumerates_four OC IC H W
  rw [fillChannels_eq zps hnumber]
  refine Places.of_loop hjobs hbuf ?_ hmem ?_ ?_
  · intro k hk
    obtain ⟨value, hvalue⟩ := hcast k hk
    rw [hvalue]
    exact castZeroPoint_length hvalue
  · intro k k' hk hk' heq
    exact DimsOrder.memoryOrder_injective _ (hk.length_eq.trans hrank)
      (hk'.length_eq.trans hrank) heq
  · intro j hj buf _
    have hk := (hjobs _).mpr ⟨j, hj, rfl⟩
    obtain ⟨value, hvalue⟩ := hcast _ hk
    dsimp only
    rw [hvalue, DimsOrder.toMemoryOrder_eq (hk.length_eq.trans hrank)]
    change (getMemIndex1D _ _ >>= _ : Except Fault Buffer) = _
    rw [getMemIndex1D_eq (hmem _ hk)]
    rw [show castZeroPoint floats number (zps.getD j.1 0) = .ok value from hvalue]
    rfl

theorem elemSize_of_dispatch {storageElemType : ElemType}
    (h : dispatchByElemType storageElemType = .ok number) :
    getElemTypeSize storageElemType / CHAR_BIT = number.size := by
  rw [dispatchByElemType_size h, Nat.mul_div_cancel_left _ (by decide)]

theorem fillWithZero_ok (hfill : ZeroFillable floats content.type content.storageElemType)
    (hsize : 0 < getElemTypeSize content.storageElemType / CHAR_BIT)
    (hbuf : content.data.length = content.type.getNumElements *
      (getElemTypeSize content.storageElemType / CHAR_BIT)) :
    ∃ data, content.fillWithZero floats = .ok { content with data := data } ∧
      data.length = content.data.length ∧
      ∀ x, InBox content.type.shape x →
        zeroValue floats content.type content.storageElemType x =
          .ok (block (getElemTypeSize content.storageElemType / CHAR_BIT) (content.memIndex x)
            data) := by
  have hmem : ∀ x, InBox content.type.shape x → content.memIndex x <
      content.type.getNumElements := by
    intro x hx
    rw [← content.type.prod_getMemShape]
    exact rowMajor_lt (DimsOrder.inBox_memoryOrder hx content.type.numDims_eq.symm)
  unfold fillWithZero zeroValue
  cases helem : content.type.elemType with
  | uniformQuantizedPerAxis isSigned storageWidth qDim zps =>
    obtain ⟨hrank, rfl, hne⟩ := hfill.perChannel qDim (by rw [helem]; rfl)
    have hvalid := content.type.validQuant
    rw [helem, validateQuantElemType] at hvalid
    obtain ⟨OC, IC, H, W, hshape⟩ := List.length_eq_four.mp hrank
    have hzps : zps.length = OC := by simpa [hshape] using hvalid.symm
    obtain ⟨number, hnumber, hcasts⟩ := hfill.casts hne
    rw [helem] at hcasts
    have hw := elemSize_of_dispatch hnumber
    rw [hw, ← content.type.prod_getMemShape] at hbuf
    obtain ⟨data, hrun, hplaces⟩ := fillChannels_places hshape hzps hnumber hcasts hbuf
    refine ⟨data, ?_, hplaces.length_eq.trans hbuf.symm, fun x hx => ?_⟩
    · dsimp only
      rw [NDType.toMemoryOrder_shape, throwUnless, if_pos hrank, throwUnless, if_pos rfl, hshape]
      change (loop_1d OC (content.fillChannel floats content.type.getMemShape zps IC H W)
        content.data >>= _ : Except Fault Content) = _
      rw [hrun]
      rfl
    · have hblock := hplaces.placed x hx
      rw [hshape] at hx
      obtain ⟨i, x, rfl⟩ := List.exists_cons_of_length_eq_add_one hx.length_eq
      have hi : i < zps.length := hzps ▸ (inBox_cons.mp hx).1
      obtain ⟨value, hvalue⟩ := hcasts _ (List.getElem_mem hi)
      rw [List.getD_cons_zero, List.getD_eq_getElem _ _ hi, hvalue] at hblock
      dsimp only
      rw [hnumber, hw, List.getD_cons_zero, List.getD_eq_getElem _ _ hi]
      change castZeroPoint floats number zps[i] = _
      rw [hvalue]
      exact congrArg Except.ok hblock.symm
  | uniformQuantized isSigned storageWidth zp =>
    obtain ⟨number, hnumber, hcasts⟩ := hfill.casts (by simp [helem, ElemType.zeroPoints])
    obtain ⟨value, hvalue⟩ := hcasts zp (by simp [helem, ElemType.zeroPoints])
    have hw := elemSize_of_dispatch hnumber
    have hlength := castZeroPoint_length hvalue
    rw [hw] at hbuf hsize ⊢
    have hcount : content.data.length / number.size = content.type.getNumElements := by
      rw [hbuf, Nat.mul_div_cancel _ hsize]
    refine ⟨(List.replicate content.type.getNumElements value).flatten, ?_, ?_, fun x hx => ?_⟩
    · rw [hnumber]
      change (castZeroPoint floats number zp >>= _ : Except Fault Content) = _
      rw [hvalue]
      change Except.ok _ = _
      rw [hcount]
    · simp [hlength, hbuf]
    · rw [hnumber]
      change castZeroPoint floats number zp = _
      rw [hvalue, block_replicate value hlength (hmem x hx)]
  | _ =>
    have hzeros : ∀ x, InBox content.type.shape x →
        List.replicate (getElemTypeSize content.storageElemType / CHAR_BIT) (0 : Byte) =
          block (getElemTypeSize content.storageElemType / CHAR_BIT) (content.memIndex x)
            (List.replicate content.data.length 0) := by
      intro x hx
      have hblock := block_replicate (List.replicate
        (getElemTypeSize content.storageElemType / CHAR_BIT) (0 : Byte)) List.length_replicate
        (hmem x hx)
      rw [List.flatten_replicate_replicate, ← hbuf] at hblock
      exact hblock.symm
    refine ⟨List.replicate content.data.length 0, rfl, List.length_replicate, fun x hx => ?_⟩
    exact congrArg Except.ok (hzeros x hx)

theorem fillWithZero_alloc (fresh : ℕ → Byte) {type : NDType} {storageElemType : ElemType}
    (hfill : ZeroFillable floats type storageElemType)
    (hbits : 0 < getElemTypeSize storageElemType)
    (hdvd : CHAR_BIT ∣ getElemTypeSize storageElemType) :
    ∃ zeros, (allocTempBuffer fresh type storageElemType false).fillWithZero floats =
        .ok ⟨type, storageElemType, zeros, false⟩ ∧
      zeros.length = type.getNumElements * (getElemTypeSize storageElemType / CHAR_BIT) ∧
      ∀ x, InBox type.shape x → zeroValue floats type storageElemType x =
        .ok (block (getElemTypeSize storageElemType / CHAR_BIT)
          (rowMajor type.getMemShape (type.dimsOrder.memoryOrder x)) zeros) := by
  let output := allocTempBuffer fresh type storageElemType false
  have hout : output.data.length = output.type.getNumElements *
      (getElemTypeSize output.storageElemType / CHAR_BIT) := by
    rw [length_allocTempBuffer, storageBytes_of_dvd hdvd]
    rfl
  have hfill' : ZeroFillable floats output.type output.storageElemType := hfill
  obtain ⟨zeros, hzeros, hlength, hvalue⟩ :=
    fillWithZero_ok hfill' (elemSize_pos hbits hdvd) hout
  exact ⟨zeros, hzeros, hlength.trans hout, hvalue⟩

end Vpux.Const.Content
