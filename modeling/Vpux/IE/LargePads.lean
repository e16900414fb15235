import Vpux.Data.WindowPadding
import Vpux.IE.AvgPool

/-! Pads of more than half the kernel, as zeros that are joined to the input
(`passes/handle_large_pads.cpp`). -/
namespace Vpux.IE
open Finset Vpux.Const Data
open Tensor (Extends)

section Model

variable {α : Type}

/-- An operation as the pass sees it. The clone has the other attributes of the operation: it infers
its type and computes its result from a new input and new pads. -/
structure PaddedLayer (α : Type) where
  input : Tensor α
  elemType : ElemType
  padsBegin : Dims2D
  padsEnd : Dims2D
  kernelShape : Dims2D
  clone : Tensor α → Dims2D → Dims2D → Except Fault (Tensor α)

def PaddedLayer.eval (layer : PaddedLayer α) : Except Fault (Tensor α) :=
  layer.clone layer.input layer.padsBegin layer.padsEnd

/-- Both convolutions. -/
def ConvolutionOp.layer [Semiring α] (op : ConvolutionOp α) (elemType : ElemType) :
    PaddedLayer α where
  input := op.input
  elemType := elemType
  padsBegin := op.padsBegin
  padsEnd := op.padsEnd
  kernelShape := ⟨op.filter.H, op.filter.W⟩
  clone input padsBegin padsEnd :=
    ConvolutionOp.eval { op with input := input, padsBegin := padsBegin, padsEnd := padsEnd }

def MaxPoolOp.layer [LinearOrder α] [OrderBot α] (op : MaxPoolOp α) (input : Tensor α)
    (elemType : ElemType) : PaddedLayer α where
  input := input
  elemType := elemType
  padsBegin := op.padsBegin
  padsEnd := op.padsEnd
  kernelShape := op.kernelSize
  clone input padsBegin padsEnd :=
    MaxPoolOp.eval { op with padsBegin := padsBegin, padsEnd := padsEnd } input

def AvgPoolOp.layer (op : AvgPoolOp) (input : Tensor ℚ) (elemType : ElemType) : PaddedLayer ℚ where
  input := input
  elemType := elemType
  padsBegin := op.padsBegin
  padsEnd := op.padsEnd
  kernelShape := op.kernelSize
  clone input padsBegin padsEnd :=
    AvgPoolOp.eval { op with padsBegin := padsBegin, padsEnd := padsEnd } input

namespace HandleLargePads

def isPaddingSupported (padStart padEnd kernelShape : Dims2D) : Bool :=
  if kernelShape.Y / 2 < padStart.Y ∨ kernelShape.Y / 2 < padEnd.Y ∨
    kernelShape.X / 2 < padStart.X ∨ kernelShape.X / 2 < padEnd.X then false else true

variable [Zero α]

def getZerosConst (elemType : ElemType) (N C H W : ℕ) : Except Fault (Tensor α) :=
  createZeros "input has incompatible data type, only float16 or float32 are supported" elemType
    N C H W

/-- The inputs of a concatenation are joined in the order of the list. -/
def concatAlong (concat : Tensor α → Tensor α → Except Fault (Tensor α)) :
    List (Tensor α) → Except Fault (Tensor α)
  | [] => .error (.exception "Missing inputs for 'IE.Concat'")
  | t :: ts => ts.foldlM concat t

/-- The zeros of one side. -/
def createConst (pad kernel : ℕ) (zeros : ℕ → Except Fault (Tensor α)) :
    Except Fault (List (Tensor α)) :=
  if kernel / 2 < pad then do pure [← zeros (pad - kernel / 2)] else pure []

/-- What is left of the pad of one side. -/
def newPad (pad kernel : ℕ) : ℕ := if kernel / 2 < pad then kernel / 2 else pad

def newPads (pads kernelShape : Dims2D) : Dims2D :=
  ⟨newPad pads.Y kernelShape.Y, newPad pads.X kernelShape.X⟩

/-- Zeros in the columns first; the rows of zeros have the new width. -/
def getInputConcatAndPadding (layer : PaddedLayer α) :
    Except Fault (Tensor α × Dims2D × Dims2D) := do
  let input := layer.input
  let KY := layer.kernelShape.Y
  let KX := layer.kernelShape.X
  let zerosX := getZerosConst layer.elemType input.N input.C input.H
  let left ← createConst layer.padsBegin.X KX zerosX
  let right ← createConst layer.padsEnd.X KX zerosX
  let withColumns ← concatAlong concatW (left ++ [input] ++ right)
  let zerosY := fun H => getZerosConst layer.elemType input.N input.C H withColumns.W
  let top ← createConst layer.padsBegin.Y KY zerosY
  let bottom ← createConst layer.padsEnd.Y KY zerosY
  let inputConcat ← concatAlong concatH (top ++ [withColumns] ++ bottom)
  pure (inputConcat, newPads layer.padsBegin layer.kernelShape,
    newPads layer.padsEnd layer.kernelShape)

def matchAndRewrite (origOp : PaddedLayer α) : Except Fault (PaddedLayer α) := do
  let (inputConcat, newPadStart, newPadEnd) ← getInputConcatAndPadding origOp
  pure { origOp with input := inputConcat, padsBegin := newPadStart, padsEnd := newPadEnd }

/-- The new operation has pads that are supported, and the original result. -/
def Preserves (origOp : PaddedLayer α) (out : Tensor α) : Prop :=
  ∃ newOp, matchAndRewrite origOp = .ok newOp ∧
    isPaddingSupported newOp.padsBegin newOp.padsEnd newOp.kernelShape = true ∧
    ∃ t, newOp.eval = .ok t ∧ t.Agrees out

/-- No zeros are needed, or they can be made. -/
def CanConcat (layer : PaddedLayer α) : Prop :=
  isPaddingSupported layer.padsBegin layer.padsEnd layer.kernelShape = true ∨
    ZerosAllowed layer.elemType

instance (layer : PaddedLayer α) : Decidable (CanConcat layer) :=
  inferInstanceAs (Decidable (_ ∨ _))

/-- How many rows and columns of zeros replace pads. -/
def movedPads (pads kernelShape : Dims2D) : ℕ × ℕ :=
  (pads.Y - kernelShape.Y / 2, pads.X - kernelShape.X / 2)

/-- The places of the joined zeros that the window of an output value reads. -/
def zeroPlaces (layer : PaddedLayer α) (strides : Dims2D) (y x : ℕ) : Finset (ℕ × ℕ) :=
  addedPlaces (layer.input.H, layer.input.W) (movedPads layer.padsBegin layer.kernelShape)
    (movedPads layer.padsEnd layer.kernelShape)
    ((newPads layer.padsBegin layer.kernelShape).Y, (newPads layer.padsBegin layer.kernelShape).X)
    (layer.kernelShape.Y, layer.kernelShape.X) (y * strides.Y, x * strides.X)

/-- Where a window of a maximum reads zeros, they are no larger than its maximum, or the post
operation makes no difference between the two. -/
def ZerosLose {β : Type} [LinearOrder β] [OrderBot β] [Zero β] (op : MaxPoolOp β)
    (input out : Tensor β) (elemType : ElemType) : Prop :=
  ∀ n < out.N, ∀ c < out.C, ∀ y < out.H, ∀ x < out.W,
    (zeroPlaces (op.layer input elemType) op.strides y x).Nonempty →
      0 ≤ op.windowMax input n c y x ∨
        applyPostOp op.postOp (op.windowMax input n c y x) = applyPostOp op.postOp 0

/-- Where a window of an average reads zeros, its sum is zero, or the post operation makes no
difference between the average of the values and the average of the values and the zeros. -/
def ZerosUncounted (op : AvgPoolOp) (input out : Tensor ℚ) (elemType : ElemType) : Prop :=
  ∀ n < out.N, ∀ c < out.C, ∀ y < out.H, ∀ x < out.W,
    let places := op.places input.H input.W y x
    let zeros := zeroPlaces (op.layer input elemType) op.strides y x
    let sum := ∑ i ∈ places, input.get n c i.1 i.2
    zeros.Nonempty → sum = 0 ∨ applyPostOp op.postOp (sum / places.card) =
      applyPostOp op.postOp (sum / (places.card + zeros.card))

end HandleLargePads

end Model

variable {elemType : ElemType}

section Concat

open HandleLargePads

variable {α : Type}

theorem isPaddingSupported_eq_true {padStart padEnd kernelShape : Dims2D} :
    isPaddingSupported padStart padEnd kernelShape = true ↔
      (padStart.Y ≤ kernelShape.Y / 2 ∧ padEnd.Y ≤ kernelShape.Y / 2) ∧
        padStart.X ≤ kernelShape.X / 2 ∧ padEnd.X ≤ kernelShape.X / 2 := by
  simp only [isPaddingSupported]
  split_ifs with h
  · simp only [false_iff]
    omega
  · simp only [true_iff]
    omega

theorem newPad_le (pad kernel : ℕ) : newPad pad kernel ≤ kernel / 2 := by
  unfold newPad
  split_ifs <;> omega

theorem newPad_add (pad kernel : ℕ) : newPad pad kernel + (pad - kernel / 2) = pad := by
  unfold newPad
  split_ifs <;> omega

theorem isPaddingSupported_newPads (padStart padEnd kernelShape : Dims2D) :
    isPaddingSupported (newPads padStart kernelShape) (newPads padEnd kernelShape) kernelShape =
      true :=
  isPaddingSupported_eq_true.mpr ⟨⟨newPad_le _ _, newPad_le _ _⟩, newPad_le _ _, newPad_le _ _⟩

/-- The zeros that a side needs, and can have. -/
def zerosOf (pad kernel : ℕ) (zeros : ℕ → Tensor α) : List (Tensor α) :=
  if kernel / 2 < pad then [zeros (pad - kernel / 2)] else []

theorem createConst_eq_ok {pad kernel : ℕ} {zeros : ℕ → Except Fault (Tensor α)}
    {fill : ℕ → Tensor α} (hzeros : ∀ count t, zeros count = .ok t ↔
      ZerosAllowed elemType ∧ fill count = t) {ts : List (Tensor α)} :
    createConst pad kernel zeros = .ok ts ↔
      (pad ≤ kernel / 2 ∨ ZerosAllowed elemType) ∧ zerosOf pad kernel fill = ts := by
  unfold createConst zerosOf
  split_ifs with h
  · simp only [bind_eq_ok, hzeros, pure, Except.pure, Except.ok.injEq]
    constructor
    · rintro ⟨_, ⟨hallowed, rfl⟩, rfl⟩
      exact ⟨Or.inr hallowed, rfl⟩
    · rintro ⟨hallowed, rfl⟩
      exact ⟨_, ⟨hallowed.resolve_left (by omega), rfl⟩, rfl⟩
  · simp only [pure, Except.pure, Except.ok.injEq]
    constructor
    · exact fun heq => ⟨Or.inl (by omega), heq⟩
    · exact fun heq => heq.2

variable {t : Tensor α}

theorem getZerosConst_eq_ok [Zero α] {N C H W : ℕ} :
    getZerosConst elemType N C H W = .ok t ↔
      ZerosAllowed elemType ∧ Tensor.fill N C H W 0 = t :=
  createZeros_eq_ok

theorem concatAlong_zerosOf {concat : Tensor α → Tensor α → Except Fault (Tensor α)}
    {zeros : ℕ → Tensor α} {P : ℕ → ℕ → Tensor α → Prop} {size : ℕ} (h : P 0 size t)
    (hbefore : ∀ count, ∃ u, concat (zeros count) t = .ok u ∧ P count (count + size) u)
    (hbehind : ∀ before u count, P before (before + size) u →
      ∃ v, concat u (zeros count) = .ok v ∧ P before (before + size + count) v)
    (padStart padEnd kernel : ℕ) :
    ∃ u, concatAlong concat (zerosOf padStart kernel zeros ++ [t] ++ zerosOf padEnd kernel zeros) =
      .ok u ∧
      P (padStart - kernel / 2) (padStart - kernel / 2 + size + (padEnd - kernel / 2)) u := by
  have hstart : ∃ u, P (padStart - kernel / 2) (padStart - kernel / 2 + size) u ∧
      ∀ ts, concatAlong concat (zerosOf padStart kernel zeros ++ [t] ++ ts) =
        ts.foldlM concat u := by
    unfold zerosOf
    split_ifs with hmoved
    · obtain ⟨u, hu, hP⟩ := hbefore (padStart - kernel / 2)
      refine ⟨u, hP, fun ts => ?_⟩
      change concat (zeros (padStart - kernel / 2)) t >>= (fun u => ts.foldlM concat u) = _
      rw [hu]
      rfl
    · have hzero : padStart - kernel / 2 = 0 := by omega
      rw [hzero, Nat.zero_add]
      exact ⟨t, h, fun ts => rfl⟩
  obtain ⟨u, hu, hconcat⟩ := hstart
  rw [hconcat]
  unfold zerosOf
  split_ifs with hmoved
  · obtain ⟨v, hv, hP⟩ := hbehind _ u (padEnd - kernel / 2) hu
    refine ⟨v, ?_, hP⟩
    simp [hv]
  · have hzero : padEnd - kernel / 2 = 0 := by omega
    rw [hzero, Nat.add_zero]
    exact ⟨u, rfl, hu⟩

variable {layer : PaddedLayer α}

theorem canConcat_iff : CanConcat layer ↔
    ((layer.padsBegin.Y ≤ layer.kernelShape.Y / 2 ∨ ZerosAllowed layer.elemType) ∧
      (layer.padsEnd.Y ≤ layer.kernelShape.Y / 2 ∨ ZerosAllowed layer.elemType)) ∧
    (layer.padsBegin.X ≤ layer.kernelShape.X / 2 ∨ ZerosAllowed layer.elemType) ∧
      (layer.padsEnd.X ≤ layer.kernelShape.X / 2 ∨ ZerosAllowed layer.elemType) := by
  rw [CanConcat, isPaddingSupported_eq_true, and_or_right, and_or_right, and_or_right]

variable [Zero α]

/-- The operation on the input that zeros have been joined to. -/
def PaddedLayer.moved (layer : PaddedLayer α) (inputConcat : Tensor α) : PaddedLayer α :=
  { layer with
    input := inputConcat
    padsBegin := newPads layer.padsBegin layer.kernelShape
    padsEnd := newPads layer.padsEnd layer.kernelShape }

/-- The new input is the old one with the part of its padding that has been moved. -/
def PaddedLayer.ExtendsInput (layer : PaddedLayer α) (inputConcat : Tensor α) : Prop :=
  Extends layer.input (movedPads layer.padsBegin layer.kernelShape).1
    (movedPads layer.padsBegin layer.kernelShape).2
    ((movedPads layer.padsBegin layer.kernelShape).1 + layer.input.H +
      (movedPads layer.padsEnd layer.kernelShape).1)
    ((movedPads layer.padsBegin layer.kernelShape).2 + layer.input.W +
      (movedPads layer.padsEnd layer.kernelShape).2) inputConcat

theorem concatAlong_columns (layer : PaddedLayer α) : ∃ u,
    concatAlong concatW
      (zerosOf layer.padsBegin.X layer.kernelShape.X
          (fun W => Tensor.fill layer.input.N layer.input.C layer.input.H W 0) ++ [layer.input] ++
        zerosOf layer.padsEnd.X layer.kernelShape.X
          (fun W => Tensor.fill layer.input.N layer.input.C layer.input.H W 0)) = .ok u ∧
      Extends layer.input 0 (layer.padsBegin.X - layer.kernelShape.X / 2) layer.input.H
        (layer.padsBegin.X - layer.kernelShape.X / 2 + layer.input.W +
          (layer.padsEnd.X - layer.kernelShape.X / 2)) u := by
  apply concatAlong_zerosOf (P := fun left width => Extends layer.input 0 left layer.input.H width)
    (Extends.refl layer.input)
  · intro count
    exact ⟨_, concatW_eq_ok.mpr ⟨⟨rfl, rfl, rfl⟩, rfl⟩, (Extends.refl layer.input).before count⟩
  · intro left u count h
    exact ⟨_, concatW_eq_ok.mpr ⟨⟨h.N, h.C, h.H⟩, rfl⟩, h.behind le_rfl count⟩

theorem concatAlong_rows (layer : PaddedLayer α) {left width : ℕ}
    (h : Extends layer.input 0 left layer.input.H width t) : ∃ u,
    concatAlong concatH
      (zerosOf layer.padsBegin.Y layer.kernelShape.Y
          (fun H => Tensor.fill layer.input.N layer.input.C H t.W 0) ++ [t] ++
        zerosOf layer.padsEnd.Y layer.kernelShape.Y
          (fun H => Tensor.fill layer.input.N layer.input.C H t.W 0)) = .ok u ∧
      Extends layer.input (layer.padsBegin.Y - layer.kernelShape.Y / 2) left
        (layer.padsBegin.Y - layer.kernelShape.Y / 2 + layer.input.H +
          (layer.padsEnd.Y - layer.kernelShape.Y / 2)) width u := by
  rw [h.W]
  apply concatAlong_zerosOf (P := fun top height => Extends layer.input top left height width) h
  · intro count
    exact ⟨_, concatH_eq_ok.mpr ⟨⟨h.N.symm, h.C.symm, h.W.symm⟩, rfl⟩, h.above count⟩
  · intro top u count h'
    exact ⟨_, concatH_eq_ok.mpr ⟨⟨h'.N, h'.C, h'.W⟩, rfl⟩, h'.below le_rfl count⟩

theorem matchAndRewrite_ok (h : CanConcat layer) :
    ∃ u, layer.ExtendsInput u ∧ matchAndRewrite layer = .ok (layer.moved u) := by
  obtain ⟨⟨htop, hbottom⟩, hleft, hright⟩ := canConcat_iff.mp h
  obtain ⟨withColumns, hcolumns, hextends⟩ := concatAlong_columns layer
  obtain ⟨u, hrows, hextends'⟩ := concatAlong_rows layer hextends
  refine ⟨u, hextends', ?_⟩
  have hconst : ∀ {pad kernel : ℕ} (zeros : ℕ → Tensor α) {create : ℕ → Except Fault (Tensor α)},
      (∀ count t, create count = .ok t ↔ ZerosAllowed layer.elemType ∧ zeros count = t) →
      (pad ≤ kernel / 2 ∨ ZerosAllowed layer.elemType) →
      createConst pad kernel create = .ok (zerosOf pad kernel zeros) :=
    fun zeros create hcreate hallowed => (createConst_eq_ok hcreate).mpr ⟨hallowed, rfl⟩
  have hzeros : getInputConcatAndPadding layer = .ok (u, newPads layer.padsBegin layer.kernelShape,
      newPads layer.padsEnd layer.kernelShape) :=
    bind_eq_ok.mpr ⟨_, hconst _ (fun _ _ => getZerosConst_eq_ok) hleft, bind_eq_ok.mpr ⟨_,
      hconst _ (fun _ _ => getZerosConst_eq_ok) hright, bind_eq_ok.mpr ⟨withColumns, hcolumns,
      bind_eq_ok.mpr ⟨_, hconst _ (fun _ _ => getZerosConst_eq_ok) htop, bind_eq_ok.mpr ⟨_,
      hconst _ (fun _ _ => getZerosConst_eq_ok) hbottom, bind_eq_ok.mpr ⟨u, hrows, rfl⟩⟩⟩⟩⟩⟩
  exact bind_eq_ok.mpr ⟨_, hzeros, rfl⟩

theorem canConcat_of_ok {newOp : PaddedLayer α} (h : matchAndRewrite layer = .ok newOp) :
    CanConcat layer := by
  obtain ⟨_, hconcat, -⟩ := bind_eq_ok.mp h
  obtain ⟨left, hleft, hconcat⟩ := bind_eq_ok.mp hconcat
  obtain ⟨right, hright, hconcat⟩ := bind_eq_ok.mp hconcat
  obtain ⟨withColumns, -, hconcat⟩ := bind_eq_ok.mp hconcat
  obtain ⟨top, htop, hconcat⟩ := bind_eq_ok.mp hconcat
  obtain ⟨bottom, hbottom, -⟩ := bind_eq_ok.mp hconcat
  rw [createConst_eq_ok fun _ _ => getZerosConst_eq_ok] at hleft hright htop hbottom
  exact canConcat_iff.mpr ⟨⟨htop.1, hbottom.1⟩, hleft.1, hright.1⟩

theorem HandleLargePads.Preserves.canConcat {out : Tensor α} (h : Preserves layer out) :
    CanConcat layer := by
  obtain ⟨newOp, hnewOp, -⟩ := h
  exact canConcat_of_ok hnewOp

theorem exists_preserves_iff (h : CanConcat layer) : ∃ u, layer.ExtendsInput u ∧
    ∀ out, Preserves layer out ↔ ∃ t, (layer.moved u).eval = .ok t ∧ t.Agrees out := by
  obtain ⟨u, hextends, hu⟩ := matchAndRewrite_ok h
  refine ⟨u, hextends, fun out => ⟨?_, fun hvalues => ?_⟩⟩
  · rintro ⟨newOp, hnewOp, -, hvalues⟩
    obtain rfl : newOp = layer.moved u := Except.ok.inj (hnewOp.symm.trans hu)
    exact hvalues
  · exact ⟨_, hu, isPaddingSupported_newPads _ _ _, hvalues⟩

end Concat

section Results

open HandleLargePads

section Sizes

variable {α : Type} [Zero α] {layer : PaddedLayer α} {u : Tensor α}
  {size begin end' size' begin₂ end₂ : ℕ}

theorem inferDim_congr (h : size + begin + end' = size' + begin₂ + end₂)
    (kernel stride dilation : ℕ) : inferDim size begin end' kernel stride dilation =
      inferDim size' begin₂ end₂ kernel stride dilation := by
  simp only [inferDim, h]

theorem inferPoolDim_congr (h : size + begin + end' = size' + begin₂ + end₂) (kernel stride : ℕ)
    (roundingType : RoundingType) :
    inferPoolDim size begin end' kernel stride roundingType =
      inferPoolDim size' begin₂ end₂ kernel stride roundingType := by
  simp only [inferPoolDim, h]

theorem PaddedLayer.ExtendsInput.sizes (h : layer.ExtendsInput u) :
    u.H + (layer.moved u).padsBegin.Y + (layer.moved u).padsEnd.Y =
        layer.input.H + layer.padsBegin.Y + layer.padsEnd.Y ∧
      u.W + (layer.moved u).padsBegin.X + (layer.moved u).padsEnd.X =
        layer.input.W + layer.padsBegin.X + layer.padsEnd.X := by
  have hH := h.H
  have hW := h.W
  have htop := newPad_add layer.padsBegin.Y layer.kernelShape.Y
  have hbottom := newPad_add layer.padsEnd.Y layer.kernelShape.Y
  have hleft := newPad_add layer.padsBegin.X layer.kernelShape.X
  have hright := newPad_add layer.padsEnd.X layer.kernelShape.X
  simp only [PaddedLayer.moved, newPads, movedPads] at hH hW ⊢
  omega

theorem PaddedLayer.ExtendsInput.padded (h : layer.ExtendsInput u) (n c y x : ℕ) :
    u.padded (layer.moved u).padsBegin.Y (layer.moved u).padsBegin.X n c y x =
      layer.input.padded layer.padsBegin.Y layer.padsBegin.X n c y x := by
  rw [Extends.padded_eq h (Nat.le_add_right _ _) (Nat.le_add_right _ _)]
  simp only [PaddedLayer.moved, newPads, movedPads, newPad_add]

theorem PaddedLayer.ExtendsInput.get_eq (h : layer.ExtendsInput u) (n c : ℕ) {i : ℕ × ℕ}
    (hY : i.1 < u.H) (hX : i.2 < u.W) :
    u.get n c i.1 i.2 =
      if Within (movedPads layer.padsBegin layer.kernelShape) (layer.input.H, layer.input.W) i then
        layer.input.get n c (i - movedPads layer.padsBegin layer.kernelShape).1
          (i - movedPads layer.padsBegin layer.kernelShape).2
      else 0 := by
  rw [Extends.get h n c i.1 (by rwa [← h.H]) i.2 (by rwa [← h.W]), Tensor.padded]
  simp only [Within, and_assoc]
  rfl

theorem newPads_add_movedPads (pads kernelShape : Dims2D) :
    ((newPads pads kernelShape).Y, (newPads pads kernelShape).X) + movedPads pads kernelShape =
      (pads.Y, pads.X) :=
  Prod.ext (newPad_add pads.Y kernelShape.Y) (newPad_add pads.X kernelShape.X)

/-- The places that a window of the operation reads. -/
def PaddedLayer.window (layer : PaddedLayer α) (start : ℕ × ℕ) : Finset (ℕ × ℕ) :=
  windowPlane (layer.input.H, layer.input.W) (layer.padsBegin.Y, layer.padsBegin.X)
    (layer.kernelShape.Y, layer.kernelShape.X) start

variable (h : layer.ExtendsInput u)
include h

theorem PaddedLayer.ExtendsInput.agrees_iff {H W : ℕ} {f g : ℕ → ℕ → ℕ → ℕ → α}
    (heval : (layer.moved u).eval = .ok ⟨u.N, u.C, H, W, g⟩) :
    (∃ t, (layer.moved u).eval = .ok t ∧ t.Agrees ⟨layer.input.N, layer.input.C, H, W, f⟩) ↔
      ∀ n < layer.input.N, ∀ c < layer.input.C, ∀ y < H, ∀ x < W, g n c y x = f n c y x := by
  constructor
  · rintro ⟨t, ht, hagrees⟩ n hn c hc
    obtain rfl := Except.ok.inj (heval.symm.trans ht)
    exact hagrees.get n (h.N ▸ hn) c (h.C ▸ hc)
  · intro hvalues
    exact ⟨_, heval, h.N, h.C, rfl, rfl, fun n hn c hc => hvalues n (h.N ▸ hn) c (h.C ▸ hc)⟩

theorem PaddedLayer.ExtendsInput.window_eq (start : ℕ × ℕ) :
    (layer.moved u).window start =
      windowPlane (movedPads layer.padsBegin layer.kernelShape + (layer.input.H, layer.input.W) +
          movedPads layer.padsEnd layer.kernelShape)
        ((newPads layer.padsBegin layer.kernelShape).Y,
          (newPads layer.padsBegin layer.kernelShape).X)
        (layer.kernelShape.Y, layer.kernelShape.X) start := by
  change windowPlane (u.H, u.W) _ _ start = _
  rw [h.H, h.W]
  rfl

theorem PaddedLayer.ExtendsInput.get_of_mem {start i : ℕ × ℕ}
    (hi : i ∈ (layer.moved u).window start) (n c : ℕ) :
    u.get n c i.1 i.2 =
      if Within (movedPads layer.padsBegin layer.kernelShape) (layer.input.H, layer.input.W) i then
        layer.input.get n c (i - movedPads layer.padsBegin layer.kernelShape).1
          (i - movedPads layer.padsBegin layer.kernelShape).2
      else 0 := by
  obtain ⟨hY, hX⟩ := mem_windowPlane.mp hi
  exact h.get_eq n c (mem_window.mp hY).1 (mem_window.mp hX).1

theorem PaddedLayer.ExtendsInput.card_window (strides : Dims2D) (y x : ℕ) :
    ((layer.moved u).window (y * strides.Y, x * strides.X)).card =
      (layer.window (y * strides.Y, x * strides.X)).card + (zeroPlaces layer strides y x).card := by
  rw [h.window_eq, card_windowPlane_extended, newPads_add_movedPads]
  rfl

end Sizes

theorem PaddedLayer.ExtendsInput.sum_window {α : Type} [AddCommMonoid α] {layer : PaddedLayer α}
    {u : Tensor α} (h : layer.ExtendsInput u) (n c : ℕ) (start : ℕ × ℕ) :
    ∑ i ∈ (layer.moved u).window start, u.get n c i.1 i.2 =
      ∑ i ∈ layer.window start, layer.input.get n c i.1 i.2 := by
  rw [sum_congr rfl fun i hi => h.get_of_mem hi n c, h.window_eq,
    sum_windowPlane_extended fun i => layer.input.get n c i.1 i.2, newPads_add_movedPads]
  rfl

theorem PaddedLayer.ExtendsInput.sup_window {α : Type} [SemilatticeSup α] [OrderBot α] [Zero α]
    {layer : PaddedLayer α} {u : Tensor α} (h : layer.ExtendsInput u) (strides : Dims2D)
      (n c y x : ℕ) :
    (((layer.moved u).window (y * strides.Y, x * strides.X)).sup fun i => u.get n c i.1 i.2) =
      ((layer.window (y * strides.Y, x * strides.X)).sup fun i => layer.input.get n c i.1 i.2) ⊔
        if (zeroPlaces layer strides y x).Nonempty then 0 else ⊥ := by
  rw [sup_congr rfl fun i hi => h.get_of_mem hi n c, h.window_eq,
    sup_windowPlane_extended fun i => layer.input.get n c i.1 i.2, newPads_add_movedPads]
  rfl

theorem convolution_preserves_iff {α : Type} [Semiring α] {op : ConvolutionOp α} {out : Tensor α}
    (hout : (op.layer elemType).eval = .ok out) :
    Preserves (op.layer elemType) out ↔ CanConcat (op.layer elemType) := by
  refine ⟨Preserves.canConcat, fun hcan => ?_⟩
  obtain ⟨u, hextends, hpreserves⟩ := exists_preserves_iff hcan
  rw [hpreserves]
  obtain ⟨hchannels, H, W, hH, hW, rfl⟩ := ConvolutionOp.eval_eq_ok.mp hout
  have hsizes := hextends.sizes
  let newOp : ConvolutionOp α := { op with
    input := u
    padsBegin := newPads op.padsBegin ⟨op.filter.H, op.filter.W⟩
    padsEnd := newPads op.padsEnd ⟨op.filter.H, op.filter.W⟩ }
  have hwindow : ∀ n oc y x, newOp.windowSum n oc y x = op.windowSum n oc y x := by
    intro n oc y x
    apply sum_congr rfl
    intro ic _
    apply sum_congr rfl
    intro ky _
    apply sum_congr rfl
    intro kx _
    exact congrArg (· * op.filter.get oc ic ky kx) (hextends.padded _ _ _ _)
  have hgroup : newOp.groupChannels = newOp.filter.C := by
    rw [← hchannels]
    simp only [ConvolutionOp.groupChannels, newOp]
    rw [hextends.C]
  refine ⟨_, ConvolutionOp.eval_eq_ok.mpr ⟨hgroup, H, W, ?_, ?_, rfl⟩, ?_⟩
  · rw [← hH]
    exact inferDim_congr hsizes.1 _ _ _
  · rw [← hW]
    exact inferDim_congr hsizes.2 _ _ _
  · refine ⟨hextends.N, rfl, rfl, rfl, fun n _ oc _ y _ x _ => ?_⟩
    exact congrArg (fun sum => applyPostOp op.postOp (sum + ConvolutionOp.biasAt op.bias oc))
      (hwindow n oc y x)

section MaxPool

variable {α : Type} [LinearOrder α] [OrderBot α] [Zero α] {op : MaxPoolOp α} {input : Tensor α}
  {elemType : ElemType}

theorem windowMax_moved {u : Tensor α} (h : (op.layer input elemType).ExtendsInput u)
    (n c y x : ℕ) :
    MaxPoolOp.windowMax { op with
        padsBegin := newPads op.padsBegin op.kernelSize
        padsEnd := newPads op.padsEnd op.kernelSize } u n c y x =
      op.windowMax input n c y x ⊔
        if (zeroPlaces (op.layer input elemType) op.strides y x).Nonempty then 0 else ⊥ := by
  rw [MaxPoolOp.windowMax_eq_sup_windowPlane, MaxPoolOp.windowMax_eq_sup_windowPlane]
  exact h.sup_window op.strides n c y x

theorem maxPool_eq_iff {n c y x : ℕ} :
    applyPostOp op.postOp (op.windowMax input n c y x ⊔
        if (zeroPlaces (op.layer input elemType) op.strides y x).Nonempty then 0 else ⊥) =
      applyPostOp op.postOp (op.windowMax input n c y x) ↔
    ((zeroPlaces (op.layer input elemType) op.strides y x).Nonempty →
      0 ≤ op.windowMax input n c y x ∨
        applyPostOp op.postOp (op.windowMax input n c y x) = applyPostOp op.postOp 0) := by
  split_ifs with hzeros
  · simp only [hzeros, true_implies]
    rcases le_total 0 (op.windowMax input n c y x) with hle | hle
    · simp [hle]
    · rw [sup_eq_right.mpr hle]
      constructor
      · exact fun heq => Or.inr heq.symm
      · rintro (hle' | heq)
        · rw [le_antisymm hle hle']
        · exact heq.symm
  · simp [hzeros]

theorem maxPool_preserves_iff {out : Tensor α} (hout : (op.layer input elemType).eval = .ok out) :
    Preserves (op.layer input elemType) out ↔
      CanConcat (op.layer input elemType) ∧ ZerosLose op input out elemType := by
  refine (and_iff_right_of_imp Preserves.canConcat).symm.trans (and_congr_right fun hcan => ?_)
  obtain ⟨u, hextends, hpreserves⟩ := exists_preserves_iff hcan
  rw [hpreserves]
  obtain ⟨H, W, hH, hW, rfl⟩ := MaxPoolOp.eval_eq_ok.mp hout
  have hsizes := hextends.sizes
  have heval : ((op.layer input elemType).moved u).eval = .ok ⟨u.N, u.C, H, W, fun n c y x =>
      applyPostOp op.postOp (op.windowMax input n c y x ⊔
        if (zeroPlaces (op.layer input elemType) op.strides y x).Nonempty then 0 else ⊥)⟩ := by
    refine MaxPoolOp.eval_eq_ok.mpr ⟨H, W, ?_, ?_, ?_⟩
    · rw [← hH]
      exact inferPoolDim_congr hsizes.1 _ _ _
    · rw [← hW]
      exact inferPoolDim_congr hsizes.2 _ _ _
    · congr 1
      funext n c y x
      rw [← windowMax_moved hextends]
      rfl
  rw [hextends.agrees_iff heval]
  exact forall₄_congr fun n _ c _ => forall₄_congr fun y _ x _ => maxPool_eq_iff

theorem zerosLose_iff_of_none {out : Tensor α} (hpost : op.postOp = none) :
    ZerosLose op input out elemType ↔ ∀ n < out.N, ∀ c < out.C, ∀ y < out.H, ∀ x < out.W,
      (zeroPlaces (op.layer input elemType) op.strides y x).Nonempty →
        0 ≤ op.windowMax input n c y x := by
  simp only [ZerosLose, hpost, applyPostOp, Option.getD_none, id_eq]
  have hle : ∀ a : α, 0 ≤ a ∨ a = 0 ↔ 0 ≤ a := fun a => or_iff_left_of_imp Eq.ge
  simp only [hle]

end MaxPool

section AvgPool

variable {op : AvgPoolOp} {input : Tensor ℚ} {elemType : ElemType}

theorem average_moved {u : Tensor ℚ} (h : (op.layer input elemType).ExtendsInput u) (n c y x : ℕ) :
    AvgPoolOp.average { op with
        padsBegin := newPads op.padsBegin op.kernelSize
        padsEnd := newPads op.padsEnd op.kernelSize } u n c y x =
      (∑ i ∈ op.places input.H input.W y x, input.get n c i.1 i.2) /
        (if op.excludePads then (op.places input.H input.W y x).card +
          (zeroPlaces (op.layer input elemType) op.strides y x).card
        else op.kernelSize.Y * op.kernelSize.X : ℕ) := by
  have hplaces : AvgPoolOp.places { op with
      padsBegin := newPads op.padsBegin op.kernelSize
      padsEnd := newPads op.padsEnd op.kernelSize } u.H u.W y x =
        ((op.layer input elemType).moved u).window (y * op.strides.Y, x * op.strides.X) := rfl
  have hplaces' : op.places input.H input.W y x =
      (op.layer input elemType).window (y * op.strides.Y, x * op.strides.X) := rfl
  rw [AvgPoolOp.average]
  rw [hplaces, hplaces', h.sum_window, h.card_window]
  rfl

theorem average_eq_iff {n c y x : ℕ} :
    applyPostOp op.postOp ((∑ i ∈ op.places input.H input.W y x, input.get n c i.1 i.2) /
        (if op.excludePads then (op.places input.H input.W y x).card +
          (zeroPlaces (op.layer input elemType) op.strides y x).card
        else op.kernelSize.Y * op.kernelSize.X : ℕ)) =
      applyPostOp op.postOp (op.average input n c y x) ↔
    (op.excludePads = true → (zeroPlaces (op.layer input elemType) op.strides y x).Nonempty →
      ∑ i ∈ op.places input.H input.W y x, input.get n c i.1 i.2 = 0 ∨
        applyPostOp op.postOp ((∑ i ∈ op.places input.H input.W y x, input.get n c i.1 i.2) /
            (op.places input.H input.W y x).card) =
          applyPostOp op.postOp ((∑ i ∈ op.places input.H input.W y x, input.get n c i.1 i.2) /
            ((op.places input.H input.W y x).card +
              (zeroPlaces (op.layer input elemType) op.strides y x).card))) := by
  rw [AvgPoolOp.average]
  cases op.excludePads
  · simp
  · simp only [if_true, true_implies, Nat.cast_add]
    rcases eq_empty_or_nonempty (zeroPlaces (op.layer input elemType) op.strides y
      x) with hzeros | hzeros
    · simp [hzeros]
    · simp only [hzeros, true_implies]
      constructor
      · exact fun heq => Or.inr heq.symm
      · rintro (hsum | heq)
        · rw [hsum, zero_div, zero_div]
        · exact heq.symm

theorem avgPool_preserves_iff {out : Tensor ℚ} (hout : (op.layer input elemType).eval = .ok out) :
    Preserves (op.layer input elemType) out ↔ CanConcat (op.layer input elemType) ∧
      (op.excludePads = true → ZerosUncounted op input out elemType) := by
  refine (and_iff_right_of_imp Preserves.canConcat).symm.trans (and_congr_right fun hcan => ?_)
  obtain ⟨u, hextends, hpreserves⟩ := exists_preserves_iff hcan
  rw [hpreserves]
  obtain ⟨H, W, hH, hW, rfl⟩ := AvgPoolOp.eval_eq_ok.mp hout
  have hsizes := hextends.sizes
  have heval : ((op.layer input elemType).moved u).eval = .ok ⟨u.N, u.C, H, W, fun n c y x =>
      applyPostOp op.postOp ((∑ i ∈ op.places input.H input.W y x, input.get n c i.1 i.2) /
        (if op.excludePads then (op.places input.H input.W y x).card +
          (zeroPlaces (op.layer input elemType) op.strides y x).card
        else op.kernelSize.Y * op.kernelSize.X : ℕ))⟩ := by
    refine AvgPoolOp.eval_eq_ok.mpr ⟨H, W, ?_, ?_, ?_⟩
    · rw [← hH]
      exact inferPoolDim_congr hsizes.1 _ _ _
    · rw [← hW]
      exact inferPoolDim_congr hsizes.2 _ _ _
    · congr 1
      funext n c y x
      rw [← average_moved hextends]
      rfl
  rw [hextends.agrees_iff heval]
  constructor
  · intro hvalues hexclude n hn c hc y hy x hx
    exact average_eq_iff.mp (hvalues n hn c hc y hy x hx) hexclude
  · intro hzeros n hn c hc y hy x hx
    exact average_eq_iff.mpr fun hexclude => hzeros hexclude n hn c hc y hy x hx

end AvgPool

/-- Convolutions keep their values wherever the zeros can be made; the pools only where zeros win no
maximum and are not counted. -/
theorem handleLargePads_preserves_iff (α β : Type) [Semiring α] [LinearOrder β] [OrderBot β]
    [Zero β] (elemType : ElemType) :
    (∀ (op : ConvolutionOp α) out, (op.layer elemType).eval = .ok out →
      (Preserves (op.layer elemType) out ↔ CanConcat (op.layer elemType))) ∧
    (∀ (op : MaxPoolOp β) input out, (op.layer input elemType).eval = .ok out →
      (Preserves (op.layer input elemType) out ↔
        CanConcat (op.layer input elemType) ∧ ZerosLose op input out elemType)) ∧
    ∀ (op : AvgPoolOp) input out, (op.layer input elemType).eval = .ok out →
      (Preserves (op.layer input elemType) out ↔ CanConcat (op.layer input elemType) ∧
        (op.excludePads = true → ZerosUncounted op input out elemType)) :=
  ⟨fun _ _ => convolution_preserves_iff, fun _ _ _ => maxPool_preserves_iff,
    fun _ _ _ => avgPool_preserves_iff⟩

/-- A convolution whose pads are larger than half its filter. -/
def paddedConvolution : ConvolutionOp ℚ where
  input := Tensor.fill 1 1 4 4 2
  filter := Tensor.fill 1 1 3 3 1
  bias := none
  strides := ⟨1, 1⟩
  padsBegin := ⟨2, 2⟩
  padsEnd := ⟨2, 0⟩
  dilations := ⟨1, 1⟩
  postOp := none
  kind := .Convolution

def paddedMaxPool : MaxPoolOp (WithBot ℤ) where
  kernelSize := ⟨3, 3⟩
  strides := ⟨1, 1⟩
  padsBegin := ⟨2, 2⟩
  padsEnd := ⟨2, 2⟩
  roundingType := .FLOOR
  postOp := none
  strides_pos := unitStrides_pos

def paddedAvgPool : AvgPoolOp where
  kernelSize := ⟨3, 3⟩
  strides := ⟨1, 1⟩
  padsBegin := ⟨2, 2⟩
  padsEnd := ⟨2, 2⟩
  roundingType := .FLOOR
  excludePads := false
  postOp := none

theorem handleLargePads_preserves_iff_examples :
    (∃ out, (paddedConvolution.layer .f16).eval = .ok out ∧
      Preserves (paddedConvolution.layer .f16) out) ∧
    (∃ out, (paddedMaxPool.layer (Tensor.fill 1 1 1 1 5) .f16).eval = .ok out ∧
      Preserves (paddedMaxPool.layer (Tensor.fill 1 1 1 1 5) .f16) out) ∧
    ∃ out, (paddedAvgPool.layer (Tensor.fill 1 1 1 1 (-1)) .f16).eval = .ok out ∧
      Preserves (paddedAvgPool.layer (Tensor.fill 1 1 1 1 (-1)) .f16) out := by
  obtain ⟨hconvolution, hmaxPool, havgPool⟩ := handleLargePads_preserves_iff ℚ (WithBot ℤ) .f16
  refine ⟨⟨_, rfl, (hconvolution _ _ rfl).mpr (by decide)⟩, ⟨_, rfl, (hmaxPool _ _ _ rfl).mpr
    ⟨by decide, ?_⟩⟩, ⟨_, rfl, (havgPool _ _ _ rfl).mpr ⟨by decide, nofun⟩⟩⟩
  have hmax : ∀ y < 3, ∀ x < 3,
      0 ≤ paddedMaxPool.windowMax (Tensor.fill 1 1 1 1 5) 0 0 y x := by decide
  rw [zerosLose_iff_of_none rfl]
  intro n hn c hc y hy x hx _
  obtain rfl := Nat.lt_one_iff.mp hn
  obtain rfl := Nat.lt_one_iff.mp hc
  exact hmax y hy x hx

/-- One negative value with pads of two, below a kernel of three: the corner reads the value and
zeros. -/
theorem not_maxPool_preserves :
    ∃ out, paddedMaxPool.eval (Tensor.fill 1 1 1 1 ((-1 : ℤ) : WithBot ℤ)) = .ok out ∧
      ¬Preserves (paddedMaxPool.layer (Tensor.fill 1 1 1 1 ((-1 : ℤ) : WithBot ℤ)) .f16) out := by
  refine ⟨_, rfl, fun h => ?_⟩
  have hlose := ((maxPool_preserves_iff rfl).mp h).2
  rw [zerosLose_iff_of_none rfl] at hlose
  have hzero := hlose 0 Nat.one_pos 0 Nat.one_pos 0 (by decide) 0 (by decide) (by decide)
  revert hzero
  decide

end Results

end Vpux.IE
