import Vpux.IE.LargeKernels
import Vpux.IE.MaxPool

/-! A MaxPool with a large kernel as two with half of it, one after the other. -/
namespace Vpux.IE
open Finset Relation Vpux.Const Data

namespace OverlappedMaxPoolRewriter

variable {α : Type}

def hasSupportedKernels (kernelSize : Dims2D) : Prop :=
  kernelSize.Y ≤ MAX_KERNEL_SIZE ∧ kernelSize.X ≤ MAX_KERNEL_SIZE

instance (kernelSize : Dims2D) : Decidable (hasSupportedKernels kernelSize) :=
  inferInstanceAs (Decidable (_ ∧ _))

def isSupportedRelation (kernelVal padVal : ℕ) : Prop := kernelVal = padVal * 2 + 1

instance (kernelVal padVal : ℕ) : Decidable (isSupportedRelation kernelVal padVal) :=
  inferInstanceAs (Decidable (_ = _))

/-- For an input of rank four. The relation for the end pads reads `padsBegin`, too:
`PadsEnd::Right` and `PadsEnd::Bottom` index the same entries as `PadsBegin::Left` and
`PadsBegin::Top`. -/
def isLegalOverlappedMaxPool (origOp : MaxPoolOp α) : Prop :=
  hasSupportedKernels origOp.kernelSize ∨
  (1 < origOp.strides.Y ∨ 1 < origOp.strides.X) ∨
  ((origOp.kernelSize.Y % 2 = 0 ∨ origOp.kernelSize.X % 2 = 0) ∨
    ¬(origOp.padsBegin.Y % 2 = 0 ∧ origOp.padsBegin.X % 2 = 0)) ∨
  ¬(isSupportedRelation origOp.kernelSize.X origOp.padsBegin.X ∧
    isSupportedRelation origOp.kernelSize.X origOp.padsBegin.X ∧
    isSupportedRelation origOp.kernelSize.Y origOp.padsBegin.Y ∧
    isSupportedRelation origOp.kernelSize.Y origOp.padsBegin.Y)

instance (origOp : MaxPoolOp α) : Decidable (isLegalOverlappedMaxPool origOp) :=
  inferInstanceAs (Decidable (_ ∨ _))

/-- What both of the new operations are. -/
def splitOp (origOp : MaxPoolOp α) : MaxPoolOp α where
  kernelSize := ⟨(origOp.kernelSize.Y + 1) / 2, (origOp.kernelSize.X + 1) / 2⟩
  strides := origOp.strides
  padsBegin := ⟨origOp.padsBegin.Y / 2, origOp.padsBegin.X / 2⟩
  padsEnd := ⟨origOp.padsEnd.Y / 2, origOp.padsEnd.X / 2⟩
  roundingType := origOp.roundingType
  postOp := origOp.postOp
  strides_pos := origOp.strides_pos

/-- The second operation works on the output of the first one. -/
def matchAndRewrite (origOp : MaxPoolOp α) : Option (List (MaxPoolOp α)) :=
  if isLegalOverlappedMaxPool origOp then none else some [splitOp origOp, splitOp origOp]

variable {origOp : MaxPoolOp α} {mY mX : ℕ}

/-- What the guard has checked: the kernel is one more than twice the begin pad, which is even. -/
structure Overlapped (origOp : MaxPoolOp α) (mY mX : ℕ) : Prop where
  kernelY : origOp.kernelSize.Y = 4 * mY + 1
  kernelX : origOp.kernelSize.X = 4 * mX + 1
  beginY : origOp.padsBegin.Y = 2 * mY
  beginX : origOp.padsBegin.X = 2 * mX
  strideY : origOp.strides.Y = 1
  strideX : origOp.strides.X = 1
  large : 0 < mY ∨ 0 < mX

theorem overlapped_of_not_legal (h : ¬isLegalOverlappedMaxPool origOp) :
    ∃ mY mX, Overlapped origOp mY mX := by
  have hpos := origOp.strides_pos
  simp only [isLegalOverlappedMaxPool, hasSupportedKernels, isSupportedRelation,
    MAX_KERNEL_SIZE] at h
  refine ⟨origOp.padsBegin.Y / 2, origOp.padsBegin.X / 2, ?_, ?_, ?_, ?_, ?_, ?_, ?_⟩ <;> omega

/-- Half of the windows' sizes and begin pads in both operations. -/
structure Halved (newOp : MaxPoolOp α) (mY mX : ℕ) : Prop where
  kernelY : newOp.kernelSize.Y = 2 * mY + 1
  kernelX : newOp.kernelSize.X = 2 * mX + 1
  beginY : newOp.padsBegin.Y = mY
  beginX : newOp.padsBegin.X = mX
  strideY : newOp.strides.Y = 1
  strideX : newOp.strides.X = 1

variable (h : Overlapped origOp mY mX)

include h in
theorem Overlapped.halved : Halved (splitOp origOp) mY mX := by
  obtain ⟨hkernelY, hkernelX, hbeginY, hbeginX, hstrideY, hstrideX, -⟩ := h
  constructor <;> simp only [splitOp] <;> omega

theorem window_halves {size m end' size' count start : ℕ} (hsize' : 0 < size')
    (hsize : size' + m = size + end') (hcount : count + m = size' + end') (hstart : start < count) :
    window size (2 * m) (4 * m + 1) start =
      (window size' m (2 * m + 1) start).biUnion (window size m (2 * m + 1)) := by
  have hadd : window size (m + m) (2 * m + 1 + (2 * m + 1) - 1) start =
      (window size' m (2 * m + 1) start).biUnion (window size m (2 * m + 1)) :=
    window_add_eq_biUnion (by omega) hsize'
      (show size' + (2 * m + 1) = size + m + end' + 1 by omega)
      (show count + (2 * m + 1) = size' + m + end' + 1 by omega) (by omega) (by omega) hstart
  rwa [← Nat.two_mul, show 2 * m + 1 + (2 * m + 1) - 1 = 4 * m + 1 by omega] at hadd

include h in
theorem Overlapped.places_eq {H W H' W' H₂ W₂ y x : ℕ} (hposH : 0 < H') (hposW : 0 < W')
    (hH' : H' + mY = H + origOp.padsEnd.Y / 2) (hW' : W' + mX = W + origOp.padsEnd.X / 2)
    (hH₂ : H₂ + mY = H' + origOp.padsEnd.Y / 2) (hW₂ : W₂ + mX = W' + origOp.padsEnd.X / 2)
    (hy : y < H₂) (hx : x < W₂) :
    origOp.places H W y x = ((splitOp origOp).places H' W' y x).biUnion
      fun i => (splitOp origOp).places H W i.1 i.2 := by
  obtain ⟨hkernelY, hkernelX, hbeginY, hbeginX, -, -⟩ := h.halved
  simp only [MaxPoolOp.places, hkernelY, hkernelX, hbeginY, hbeginX, h.kernelY, h.kernelX, h.beginY,
    h.beginX]
  exact windowPlane_eq_biUnion (window_halves hposH hH' hH₂ hy) (window_halves hposW hW' hW₂ hx)

theorem padsEnd_iterate (k : ℕ) (op : MaxPoolOp α) :
    (splitOp^[k] op).padsEnd = ⟨op.padsEnd.Y / 2 ^ k, op.padsEnd.X / 2 ^ k⟩ := by
  induction k with
  | zero => simp
  | succ k ih =>
    rw [Function.iterate_succ_apply', splitOp, ih, Nat.pow_succ, ← Nat.div_div_eq_div_mul,
      ← Nat.div_div_eq_div_mul]

theorem postOp_iterate (k : ℕ) (op : MaxPoolOp α) : (splitOp^[k] op).postOp = op.postOp := by
  induction k with
  | zero => rfl
  | succ k ih => rw [Function.iterate_succ_apply', splitOp, ih]

/-- So often, at least, the rewriting applies to the operation and to what it makes of it. -/
def Splits (op : MaxPoolOp α) (k : ℕ) : Prop := ∀ j < k, ¬isLegalOverlappedMaxPool (splitOp^[j] op)

def EndPadsDivide (op : MaxPoolOp α) (k : ℕ) : Prop :=
  2 ^ k ∣ op.padsEnd.Y ∧ 2 ^ k ∣ op.padsEnd.X

/-- So many new operations take as much from a dimension, and pad it as much at its begin. -/
structure Scaled (op newOp : MaxPoolOp α) (n : ℕ) : Prop where
  kernelY : op.kernelSize.Y = n * (newOp.kernelSize.Y - 1) + 1
  kernelX : op.kernelSize.X = n * (newOp.kernelSize.X - 1) + 1
  posY : 0 < newOp.kernelSize.Y
  posX : 0 < newOp.kernelSize.X
  beginY : op.padsBegin.Y = n * newOp.padsBegin.Y
  beginX : op.padsBegin.X = n * newOp.padsBegin.X
  strideY : newOp.strides.Y = 1
  strideX : newOp.strides.X = 1

variable {op : MaxPoolOp α}

theorem scaled_iterate (h : Overlapped op mY mX) {k : ℕ} (hk : Splits op k) :
    Scaled op (splitOp^[k] op) (2 ^ k) := by
  induction k with
  | zero =>
    obtain ⟨hkernelY, hkernelX, hbeginY, hbeginX, hstrideY, hstrideX, -⟩ := h
    constructor <;> simp only [Function.iterate_zero, id_eq, Nat.pow_zero, Nat.one_mul] <;> omega
  | succ k ih =>
    have hbefore := ih fun j hj => hk j (Nat.lt_succ_of_lt hj)
    obtain ⟨nY, nX, hlast⟩ := overlapped_of_not_legal (hk k (Nat.lt_succ_self k))
    have hnew := hlast.halved
    rw [Function.iterate_succ_apply']
    constructor
    · rw [hbefore.kernelY, hlast.kernelY, hnew.kernelY, Nat.pow_succ, Nat.mul_assoc]
      congr 2
      omega
    · rw [hbefore.kernelX, hlast.kernelX, hnew.kernelX, Nat.pow_succ, Nat.mul_assoc]
      congr 2
      omega
    · rw [hnew.kernelY]
      exact Nat.succ_pos _
    · rw [hnew.kernelX]
      exact Nat.succ_pos _
    · rw [hbefore.beginY, hlast.beginY, hnew.beginY, Nat.pow_succ, Nat.mul_assoc]
    · rw [hbefore.beginX, hlast.beginX, hnew.beginX, Nat.pow_succ, Nat.mul_assoc]
    · exact hnew.strideY
    · exact hnew.strideX

def Rewrites (op : MaxPoolOp α) (ops : List (MaxPoolOp α)) : Prop := matchAndRewrite op = some ops

variable {ops : List (MaxPoolOp α)}

theorem rewrites_iff :
    Rewrites op ops ↔ ¬isLegalOverlappedMaxPool op ∧ [splitOp op, splitOp op] = ops := by
  rw [Rewrites, matchAndRewrite]
  split_ifs with hlegal <;> simp [hlegal]

theorem reaches_replicate {k : ℕ} (hk : Splits op k) :
    ReflTransGen (ChainStep Rewrites) [op] (List.replicate (2 ^ k) (splitOp^[k] op)) := by
  induction k with
  | zero => exact .refl
  | succ k ih =>
    have hlast := rewrites_iff.mpr ⟨hk k (Nat.lt_succ_self k), rfl⟩
    have hall := chain_reaches_replicate hlast (2 ^ k)
    rw [show [splitOp (splitOp^[k] op), splitOp (splitOp^[k] op)] =
      List.replicate 2 (splitOp (splitOp^[k] op)) from rfl, List.flatten_replicate_replicate,
      ← Nat.pow_succ, ← Function.iterate_succ_apply' splitOp k op] at hall
    exact (ih fun j hj => hk j (Nat.lt_succ_of_lt hj)).trans hall

variable [LinearOrder α] [OrderBot α] {newOp : MaxPoolOp α} {t : Tensor α}

theorem Halved.eval_pooled (h : Halved newOp mY mX) {H W : ℕ} (hH : H + mY = t.H + newOp.padsEnd.Y)
    (hposH : 0 < H) (hW : W + mX = t.W + newOp.padsEnd.X) (hposW : 0 < W) :
    newOp.eval t = .ok (newOp.pooled t H W) := by
  obtain ⟨hkernelY, hkernelX, hbeginY, hbeginX, hstrideY, hstrideX⟩ := h
  refine (MaxPoolOp.eval_unit hstrideY hstrideX).mpr ⟨H, W, ?_, ?_, rfl⟩ <;> omega

theorem Halved.run_pooled (h : Halved newOp mY mX) {H W H₂ W₂ : ℕ}
    (hH : H + mY = t.H + newOp.padsEnd.Y) (hposH : 0 < H) (hW : W + mX = t.W + newOp.padsEnd.X)
    (hposW : 0 < W) (hH₂ : H₂ + mY = H + newOp.padsEnd.Y) (hposH₂ : 0 < H₂)
    (hW₂ : W₂ + mX = W + newOp.padsEnd.X) (hposW₂ : 0 < W₂) :
    runChain MaxPoolOp.eval [newOp, newOp] t = .ok (newOp.pooled (newOp.pooled t H W) H₂ W₂) := by
  refine runChain_cons_eq_ok.mpr ⟨newOp.pooled t H W, h.eval_pooled hH hposH hW hposW, ?_⟩
  rw [runChain_singleton]
  exact h.eval_pooled (t := newOp.pooled t H W) hH₂ hposH₂ hW₂ hposW₂

include h in
theorem Overlapped.chainKeeps (hend : 2 ∣ origOp.padsEnd.Y ∧ 2 ∣ origOp.padsEnd.X)
    (hpost : Settles (applyPostOp origOp.postOp)) :
    ChainKeeps MaxPoolOp.eval Tensor.Agrees [origOp] [splitOp origOp, splitOp origOp] := by
  refine .of_same (fun _ _ _ => Tensor.Agrees.trans) (MaxPoolOp.chainKeeps_self origOp) ?_
  intro t out hrun
  have hnew := h.halved
  obtain ⟨⟨eY, heY⟩, eX, heX⟩ := hend
  have hdivY : origOp.padsEnd.Y / 2 = eY := by omega
  have hdivX : origOp.padsEnd.X / 2 = eX := by omega
  rw [runChain_singleton, MaxPoolOp.eval_unit h.strideY h.strideX, h.kernelY, h.kernelX, h.beginY,
    h.beginX, heY, heX] at hrun
  obtain ⟨H, W, hH, hW, rfl⟩ := hrun
  -- the first operation leaves at least one value in each dimension
  obtain ⟨H', hposH, hH'⟩ : ∃ H', 0 < H' ∧ H' + mY = t.H + eY := ⟨t.H + eY - mY, by omega⟩
  obtain ⟨W', hposW, hW'⟩ : ∃ W', 0 < W' ∧ W' + mX = t.W + eX := ⟨t.W + eX - mX, by omega⟩
  obtain ⟨hendY, hendX⟩ : (splitOp origOp).padsEnd.Y = eY ∧ (splitOp origOp).padsEnd.X = eX :=
    ⟨hdivY, hdivX⟩
  refine ⟨(splitOp origOp).pooled ((splitOp origOp).pooled t H' W') H W, ?_, rfl, rfl, rfl, rfl, ?_⟩
  · apply hnew.run_pooled <;> omega
  · intro n _ c _ y hy x hx
    have hH₂ : H + mY = H' + origOp.padsEnd.Y / 2 := by omega
    have hW₂ : W + mX = W' + origOp.padsEnd.X / 2 := by omega
    have hplaces := h.places_eq hposH hposW (hdivY ▸ hH') (hdivX ▸ hW') hH₂ hW₂ hy hx
    simp only [MaxPoolOp.pooled, hplaces]
    exact (hpost.sup_biUnion _ _ _).symm

include h in
theorem Overlapped.eval_pooled (hH : t.H = 4 * mY + 1) (hW : t.W = 4 * mX + 1) : origOp.eval t =
      .ok (origOp.pooled t (2 * mY + origOp.padsEnd.Y + 1) (2 * mX + origOp.padsEnd.X + 1)) := by
  obtain ⟨hkernelY, hkernelX, hbeginY, hbeginX, hstrideY, hstrideX, -⟩ := h
  refine (MaxPoolOp.eval_unit hstrideY hstrideX).mpr ⟨_, _, ?_, ?_, rfl⟩ <;> omega

/-- One larger value, at the far corner of the first window. -/
def cornerTensor (mY mX : ℕ) (a b : α) : Tensor α :=
  ⟨1, 1, 4 * mY + 1, 4 * mX + 1, fun _ _ y x => if (y, x) = (2 * mY, 2 * mX) then b else a⟩

include h in
theorem Overlapped.sup_corner {a b : α} (hab : a ≤ b) :
    ((origOp.places (4 * mY + 1) (4 * mX + 1) 0 0).sup fun i =>
      (cornerTensor mY mX a b).get 0 0 i.1 i.2) = a ⊔ b := by
  have hcorner : (2 * mY, 2 * mX) ∈ origOp.places (4 * mY + 1) (4 * mX + 1) 0 0 := by
    simp only [MaxPoolOp.places, h.kernelY, h.kernelX, h.beginY, h.beginX, mem_windowPlane,
      mem_window]
    omega
  rw [sup_eq_right.mpr hab]
  exact (sup_ite_eq ⟨_, hcorner⟩ hab _).trans (if_pos hcorner)

/-- The first window of the second operation reads windows of the first one without the larger value
and with it. -/
theorem Halved.sup_corner (h : Halved newOp mY mX) (hlarge : 0 < mY ∨ 0 < mX) {a b : α}
    (hab : a ≤ b) {H W : ℕ} (hH : mY < H) (hW : mX < W) (f : α → α) :
    ((newOp.places H W 0 0).sup fun j => f ((newOp.places (4 * mY + 1) (4 * mX + 1) j.1 j.2).sup
      fun i => (cornerTensor mY mX a b).get 0 0 i.1 i.2)) = f a ⊔ f b := by
  have hfirst : ∀ {i j : ℕ × ℕ}, i ∈ newOp.places (4 * mY + 1) (4 * mX + 1) j.1 j.2 ↔
      (i.1 < 4 * mY + 1 ∧ j.1 ≤ i.1 + mY ∧ i.1 + mY < j.1 + (2 * mY + 1)) ∧
        i.2 < 4 * mX + 1 ∧ j.2 ≤ i.2 + mX ∧ i.2 + mX < j.2 + (2 * mX + 1) := by
    simp [MaxPoolOp.places, h.kernelY, h.kernelX, h.beginY, h.beginX]
  have hsecond : ∀ {j : ℕ × ℕ}, j ∈ newOp.places H W 0 0 ↔ j.1 ≤ mY ∧ j.2 ≤ mX := by
    intro j
    simp only [MaxPoolOp.places, h.kernelY, h.kernelX, h.beginY, h.beginX, mem_windowPlane,
      mem_window]
    omega
  have hvalue : ∀ j ∈ newOp.places H W 0 0,
      ((newOp.places (4 * mY + 1) (4 * mX + 1) j.1 j.2).sup fun i =>
        (cornerTensor mY mX a b).get 0 0 i.1 i.2) =
      if (2 * mY, 2 * mX) ∈ newOp.places (4 * mY + 1) (4 * mX + 1) j.1 j.2 then b else a := by
    intro j hj
    obtain ⟨hy, hx⟩ := hsecond.mp hj
    exact sup_ite_eq ⟨j, hfirst.mpr (by omega)⟩ hab _
  apply sup_eq_of_two
  · intro j hj
    rw [hvalue j hj]
    split_ifs
    · exact Or.inr rfl
    · exact Or.inl rfl
  · have hj : (0, 0) ∈ newOp.places H W 0 0 := hsecond.mpr ⟨Nat.zero_le _, Nat.zero_le _⟩
    refine ⟨_, hj, ?_⟩
    rw [hvalue _ hj, if_neg]
    rw [hfirst]
    omega
  · have hj : (mY, mX) ∈ newOp.places H W 0 0 := hsecond.mpr ⟨le_rfl, le_rfl⟩
    refine ⟨_, hj, ?_⟩
    rw [hvalue _ hj, if_pos]
    rw [hfirst]
    omega

include h in
theorem Overlapped.settles (hkeeps : ∀ input out, origOp.eval input = .ok out → ∃ out',
      runChain MaxPoolOp.eval [splitOp origOp, splitOp origOp] input = .ok out' ∧ out'.Agrees out) :
    Settles (applyPostOp origOp.postOp) := by
  intro a b
  wlog hab : a ≤ b generalizing a b
  · rw [sup_comm, this b a (le_of_not_ge hab), sup_comm]
  have hnew := h.halved
  obtain ⟨out', hout', hagrees⟩ := hkeeps (cornerTensor mY mX a b) _ (h.eval_pooled rfl rfl)
  obtain ⟨H, hH⟩ : ∃ H, H = 3 * mY + 1 + (splitOp origOp).padsEnd.Y := ⟨_, rfl⟩
  obtain ⟨W, hW⟩ : ∃ W, W = 3 * mX + 1 + (splitOp origOp).padsEnd.X := ⟨_, rfl⟩
  obtain ⟨H₂, hH₂⟩ : ∃ H₂, H₂ + mY = H + (splitOp origOp).padsEnd.Y :=
    ⟨2 * mY + 1 + 2 * (splitOp origOp).padsEnd.Y, by omega⟩
  obtain ⟨W₂, hW₂⟩ : ∃ W₂, W₂ + mX = W + (splitOp origOp).padsEnd.X :=
    ⟨2 * mX + 1 + 2 * (splitOp origOp).padsEnd.X, by omega⟩
  have hrun : runChain MaxPoolOp.eval [splitOp origOp, splitOp origOp] (cornerTensor mY mX a b) =
      .ok ((splitOp origOp).pooled ((splitOp origOp).pooled (cornerTensor mY mX a b) H W) H₂
        W₂) := by
    have hsizeY : (cornerTensor mY mX a b).H = 4 * mY + 1 := rfl
    have hsizeX : (cornerTensor mY mX a b).W = 4 * mX + 1 := rfl
    apply hnew.run_pooled <;> omega
  obtain rfl := Except.ok.inj (hout'.symm.trans hrun)
  calc applyPostOp origOp.postOp (applyPostOp origOp.postOp a ⊔ applyPostOp origOp.postOp b)
      = ((splitOp origOp).pooled ((splitOp origOp).pooled (cornerTensor mY mX a b) H W) H₂
          W₂).get 0 0 0 0 := by
        rw [← hnew.sup_corner h.large hab (H := H) (W := W) (by omega) (by omega)
          (applyPostOp origOp.postOp)]
        rfl
    _ = (origOp.pooled (cornerTensor mY mX a b) (2 * mY + origOp.padsEnd.Y + 1)
          (2 * mX + origOp.padsEnd.X + 1)).get 0 0 0 0 :=
        hagrees.get 0 Nat.one_pos 0 Nat.one_pos 0 (show 0 < H₂ by omega) 0 (show 0 < W₂ by omega)
    _ = applyPostOp origOp.postOp (a ⊔ b) := congrArg (applyPostOp origOp.postOp) (h.sup_corner hab)

theorem sizes_replicate (hY : op.strides.Y = 1) (hX : op.strides.X = 1) {n : ℕ} {t out : Tensor α}
    (h : runChain MaxPoolOp.eval (List.replicate n op) t = .ok out) :
    out.H + n * (op.kernelSize.Y - 1) = t.H + n * op.padsBegin.Y + n * op.padsEnd.Y ∧
      out.W + n * (op.kernelSize.X - 1) = t.W + n * op.padsBegin.X + n * op.padsEnd.X := by
  induction n generalizing t with
  | zero =>
    obtain rfl := Except.ok.inj h
    simp
  | succ n ih =>
    obtain ⟨mid, hmid, hrest⟩ := runChain_cons_eq_ok.mp h
    obtain ⟨H, W, hH, hW, rfl⟩ := (MaxPoolOp.eval_unit hY hX).mp hmid
    have hsizes := ih hrest
    simp only [MaxPoolOp.pooled] at hsizes
    simp only [Nat.succ_mul]
    omega

include h in
theorem Overlapped.endPadsDivide {k : ℕ} (hk : Splits origOp k)
    (hkeeps : ∀ input out, origOp.eval input = .ok out → ∃ out',
      runChain MaxPoolOp.eval (List.replicate (2 ^ k) (splitOp^[k] origOp)) input = .ok out' ∧
        out'.Agrees out) : EndPadsDivide origOp k := by
  let t : Tensor α := Tensor.fill 1 1 (4 * mY + 1) (4 * mX + 1) ⊥
  have horig := h.eval_pooled (t := t) rfl rfl
  obtain ⟨out', hout', hagrees⟩ := hkeeps t _ horig
  have hscaled := scaled_iterate h hk
  have hsizes := sizes_replicate hscaled.strideY hscaled.strideX hout'
  have hkernelY := h.kernelY ▸ hscaled.kernelY
  have hkernelX := h.kernelX ▸ hscaled.kernelX
  have hbeginY := h.beginY ▸ hscaled.beginY
  have hbeginX := h.beginX ▸ hscaled.beginX
  rw [hagrees.H, hagrees.W, ← hbeginY, ← hbeginX] at hsizes
  simp only [MaxPoolOp.pooled, t, Tensor.fill] at hsizes
  exact ⟨⟨(splitOp^[k] origOp).padsEnd.Y, by omega⟩, ⟨(splitOp^[k] origOp).padsEnd.X, by omega⟩⟩

theorem chainKeeps_of_reaches (hend : ∀ k, Splits op k → EndPadsDivide op k)
    (hpost : Settles (applyPostOp op.postOp)) (h : ReflTransGen (ChainStep Rewrites) [op] ops) :
    ChainKeeps MaxPoolOp.eval Tensor.Agrees [op] ops := by
  refine (ChainKeeps.of_reaches (P := fun o => ∃ k, Splits op k ∧ splitOp^[k] op = o)
    Tensor.Agrees.refl (fun _ _ _ => Tensor.Agrees.trans) MaxPoolOp.chainKeeps_self ?_ ?_ h).1
  · rintro _ ops ⟨k, hk, rfl⟩ hrewrites
    obtain ⟨hlegal, rfl⟩ := rewrites_iff.mp hrewrites
    have hsucc : Splits op (k + 1) := by
      intro j hj
      rcases Nat.lt_succ_iff_lt_or_eq.mp hj with hj | rfl
      · exact hk j hj
      · exact hlegal
    obtain ⟨mY, mX, hoverlapped⟩ := overlapped_of_not_legal hlegal
    obtain ⟨hY, hX⟩ := hend (k + 1) hsucc
    constructor
    · apply hoverlapped.chainKeeps
      · rw [padsEnd_iterate]
        exact ⟨Nat.dvd_div_of_mul_dvd (by rwa [← Nat.pow_succ]),
          Nat.dvd_div_of_mul_dvd (by rwa [← Nat.pow_succ])⟩
      · rwa [postOp_iterate]
    · rintro o ho
      have hnew : o = splitOp (splitOp^[k] op) := by simpa using ho
      exact ⟨k + 1, hsucc, by rw [hnew, Function.iterate_succ_apply']⟩
  · rintro o ho
    obtain rfl := List.mem_singleton.mp ho
    exact ⟨0, fun j hj => absurd hj (Nat.not_lt_zero j), rfl⟩

theorem chainKeeps_iff :
    ChainKeeps MaxPoolOp.eval Tensor.Agrees [op] ops ↔ ∀ input out, op.eval input = .ok out →
      ∃ out', runChain MaxPoolOp.eval ops input = .ok out' ∧ out'.Agrees out := by
  constructor
  · intro h input out hout
    obtain ⟨out', hout', hagrees⟩ := h input input out (.refl input) (by rwa [runChain_singleton])
    exact ⟨out', hout', hagrees.symm⟩
  · intro h
    refine .of_same (fun _ _ _ => Tensor.Agrees.trans) (MaxPoolOp.chainKeeps_self op) ?_
    intro input out hout
    rw [runChain_singleton] at hout
    obtain ⟨out', hout', hagrees⟩ := h input out hout
    exact ⟨out', hout', hagrees.symm⟩

/-- One split, and any number of them in any order, keep the sizes and the values of every result
exactly when the end pads can be halved as often and the post operation may be applied to parts of
a maximum: the guard compares the kernel with the begin pads only, and both new operations have the
post operation. -/
theorem preserves_iff {newOps : List (MaxPoolOp α)} (h : matchAndRewrite origOp = some newOps) :
    ((∀ input out, origOp.eval input = .ok out → ∃ out',
      runChain MaxPoolOp.eval newOps input = .ok out' ∧ out'.Agrees out) ↔
      EndPadsDivide origOp 1 ∧ Settles (applyPostOp origOp.postOp)) ∧
    ((∀ ops, ReflTransGen (ChainStep Rewrites) [origOp] ops → ∀ input out,
      origOp.eval input = .ok out → ∃ out',
        runChain MaxPoolOp.eval ops input = .ok out' ∧ out'.Agrees out) ↔
      (∀ k, Splits origOp k → EndPadsDivide origOp k) ∧ Settles (applyPostOp origOp.postOp)) := by
  obtain ⟨hlegal, rfl⟩ := rewrites_iff.mp h
  obtain ⟨mY, mX, hoverlapped⟩ := overlapped_of_not_legal hlegal
  have hone : Splits origOp 1 := by
    rintro j hj
    obtain rfl := Nat.lt_one_iff.mp hj
    exact hlegal
  have hsettles := hoverlapped.settles
  constructor
  · constructor
    · intro hkeeps
      exact ⟨hoverlapped.endPadsDivide hone hkeeps, hsettles hkeeps⟩
    · rintro ⟨hend, hpost⟩
      exact chainKeeps_iff.mp (hoverlapped.chainKeeps hend hpost)
  · constructor
    · intro hkeeps
      exact ⟨fun k hk => hoverlapped.endPadsDivide hk (hkeeps _ (reaches_replicate hk)),
        hsettles (hkeeps _ (reaches_replicate hone))⟩
    · rintro ⟨hend, hpost⟩ ops hops
      exact chainKeeps_iff.mp (chainKeeps_of_reaches hend hpost hops)

def overlappedMaxPool (kernel begin end' : ℕ) : MaxPoolOp (WithBot ℤ) where
  kernelSize := ⟨kernel, kernel⟩
  strides := ⟨1, 1⟩
  padsBegin := ⟨begin, begin⟩
  padsEnd := ⟨begin, end'⟩
  roundingType := .FLOOR
  postOp := none
  strides_pos := unitStrides_pos

/-- A kernel that is split twice. -/
theorem preserves_padsEnd :
    let origOp := overlappedMaxPool 25 12 12
    (∀ input out, origOp.eval input = .ok out → ∃ out',
      runChain MaxPoolOp.eval [splitOp origOp, splitOp origOp] input = .ok out' ∧
        out'.Agrees out) ∧
    ∀ ops, ReflTransGen (ChainStep Rewrites) [origOp] ops → ∀ input out,
      origOp.eval input = .ok out → ∃ out',
        runChain MaxPoolOp.eval ops input = .ok out' ∧ out'.Agrees out := by
  intro origOp
  have hrewrite : matchAndRewrite origOp = some [splitOp origOp, splitOp origOp] :=
    if_neg (by decide)
  have hdivide : ∀ k ≤ 2, EndPadsDivide origOp k := by
    intro k hk
    have htwelve : 2 ^ k ∣ 12 := (Nat.pow_dvd_pow 2 hk).trans (by decide)
    exact ⟨htwelve, htwelve⟩
  have htwice : ∀ k, Splits origOp k → k ≤ 2 := by
    intro k hk
    by_contra hlt
    exact hk 2 (by omega) (by decide)
  exact ⟨(preserves_iff hrewrite).1.mpr ⟨hdivide 1 (by decide), .id⟩,
    (preserves_iff hrewrite).2.mpr ⟨fun k hk => hdivide k (htwice k hk), .id⟩⟩

/-- The kernel of the source's example with one more column of padding. -/
theorem not_preserves_padsEnd :
    let origOp := overlappedMaxPool 13 6 7
    matchAndRewrite origOp = some [splitOp origOp, splitOp origOp] ∧
      ¬∀ out, origOp.eval (Tensor.fill 1 1 13 13 0) = .ok out → ∃ out',
        runChain MaxPoolOp.eval [splitOp origOp, splitOp origOp] (Tensor.fill 1 1 13 13 0) =
          .ok out' ∧ out'.Agrees out := by
  intro origOp
  have hoverlapped : Overlapped origOp 3 3 := ⟨rfl, rfl, rfl, rfl, rfl, rfl, by decide⟩
  refine ⟨if_neg (by decide), fun hkeeps => ?_⟩
  obtain ⟨out', hout', hagrees⟩ := hkeeps _ (hoverlapped.eval_pooled rfl rfl)
  have hsizes := sizes_replicate hoverlapped.halved.strideY hoverlapped.halved.strideX
    (show runChain MaxPoolOp.eval (List.replicate 2 (splitOp origOp)) _ = .ok out' from hout')
  rw [hagrees.W] at hsizes
  exact absurd hsizes.2 (by decide)

end OverlappedMaxPoolRewriter
end Vpux.IE
