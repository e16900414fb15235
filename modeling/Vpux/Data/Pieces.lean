import Mathlib.Algebra.BigOperators.Group.List.Basic
import Mathlib.Tactic.Ring

/-! Copies of bytes that walk both memories plane by plane and chunk by chunk. -/
namespace Vpux.Data

section Digits

variable {a a' b b' A B : ℕ}

theorem digits_lt (ha : a < A) (hb : b < B) : a * B + b < A * B := by
  have hle := Nat.mul_le_mul_right B (Nat.succ_le_of_lt ha)
  rw [Nat.succ_mul] at hle
  omega

theorem exists_digits {n : ℕ} (h : n < A * B) : ∃ a < A, ∃ b < B, n = a * B + b := by
  have hB : 0 < B := Nat.pos_of_ne_zero fun hzero => by simp [hzero] at h
  refine ⟨n / B, (Nat.div_lt_iff_lt_mul hB).mpr h, n % B, Nat.mod_lt n hB, ?_⟩
  rw [mul_comm, Nat.div_add_mod]

theorem digits_assoc (a A b B c : ℕ) : (a * A + b) * B + c = a * (A * B) + (b * B + c) := by
  ring

theorem digits_div (hb : b < B) : (a * B + b) / B = a := by
  rw [mul_comm, Nat.mul_add_div (Nat.zero_lt_of_lt hb), Nat.div_eq_of_lt hb, add_zero]

theorem digits_mod (hb : b < B) : (a * B + b) % B = b := by
  rw [mul_comm, Nat.mul_add_mod, Nat.mod_eq_of_lt hb]

theorem digits_injective (hb : b < B) (hb' : b' < B) (h : a * B + b = a' * B + b') :
    a = a' ∧ b = b' := by
  constructor
  · rw [← digits_div (a := a) hb, h, digits_div hb']
  · rw [← digits_mod (a := a) hb, h, digits_mod hb']

end Digits

/-- A way through a memory: planes, each cut into chunks of `width` bytes, one every `stride`. -/
structure Walk where
  offset : ℕ
  planeStride : ℕ
  width : ℕ
  stride : ℕ

/-- Where byte `t` of plane `p` is. -/
def Walk.address (w : Walk) (p t : ℕ) : ℕ :=
  w.offset + p * w.planeStride + t / w.width * w.stride + t % w.width

theorem Walk.address_digits (offset planeStride stride p a : ℕ) {b width : ℕ} (hb : b < width) :
    address ⟨offset, planeStride, width, stride⟩ p (a * width + b) =
      offset + p * planeStride + a * stride + b := by
  rw [address, digits_div hb, digits_mod hb]

theorem Walk.address_of_lt (offset planeStride stride p : ℕ) {t width : ℕ} (ht : t < width) :
    address ⟨offset, planeStride, width, stride⟩ p t = offset + p * planeStride + t := by
  simpa using address_digits offset planeStride stride p 0 ht

structure StridedCopy where
  planes : ℕ
  bytes : ℕ
  source : Walk
  target : Walk

/-- Byte `byte` of plane `plane` of the copy at position `copy` of a list. -/
@[ext]
structure Job where
  copy : ℕ
  plane : ℕ
  byte : ℕ

/-- The list of copies has this job, which copies from address `s` to address `d`. -/
def Copies (copies : List StridedCopy) (job : Job) (s d : ℕ) : Prop :=
  ∃ c : StridedCopy, copies[job.copy]? = some c ∧ job.plane < c.planes ∧ job.byte < c.bytes ∧
    s = c.source.address job.plane job.byte ∧ d = c.target.address job.plane job.byte

theorem Copies.unique {copies : List StridedCopy} {job : Job} {s d s' d' : ℕ}
    (h : Copies copies job s d) (h' : Copies copies job s' d') : s = s' ∧ d = d' := by
  obtain ⟨c, hc, -, -, hs, hd⟩ := h
  obtain ⟨c', hc', -, -, hs', hd'⟩ := h'
  obtain rfl : c = c' := Option.some.inj (hc.symm.trans hc')
  exact ⟨hs.trans hs'.symm, hd.trans hd'.symm⟩

section Moves

variable {ι : Type} {copies : List StridedCopy} {points : ι → Prop} {source target : ι → ℕ}

/-- Every point gets its byte exactly once, from where it is wanted. -/
structure Moves (copies : List StridedCopy) (points : ι → Prop) (source target : ι → ℕ) :
    Prop where
  once : ∀ x, points x → ∃! job, ∃ s, Copies copies job s (target x)
  value : ∀ x, points x → ∀ job s, Copies copies job s (target x) → s = source x

def WritesWithin (copies : List StridedCopy) (base size : ℕ) : Prop :=
  ∀ job s d, Copies copies job s d → base ≤ d ∧ d < base + size

/-- Nothing is written but the bytes of the points. -/
def WritesOnly (copies : List StridedCopy) (points : ι → Prop) (target : ι → ℕ) : Prop :=
  ∀ job s d, Copies copies job s d → ∃ x, points x ∧ target x = d

/-- The jobs are the points, each with its two addresses. -/
structure Encodes (copies : List StridedCopy) (points : ι → Prop) (source target : ι → ℕ)
    (encode : ι → Job) : Prop where
  transfers : ∀ x, points x → Copies copies (encode x) (source x) (target x)
  onto : ∀ job s d, Copies copies job s d → ∃ x, points x ∧ encode x = job

variable {encode : ι → Job}

section

variable (h : Encodes copies points source target encode)
include h

theorem Encodes.moves (hinj : ∀ x y, points x → points y → target x = target y → x = y) :
    Moves copies points source target := by
  have hjob : ∀ x, points x → ∀ job s, Copies copies job s (target x) → job = encode x := by
    intro x hx job s hjob
    obtain ⟨y, hy, rfl⟩ := h.onto job s _ hjob
    rw [hinj x y hx hy (hjob.unique (h.transfers y hy)).2]
  constructor
  · intro x hx
    refine ⟨encode x, ⟨source x, h.transfers x hx⟩, ?_⟩
    rintro job ⟨s, hs⟩
    exact hjob x hx job s hs
  · intro x hx job s hs
    rw [hjob x hx job s hs] at hs
    exact (hs.unique (h.transfers x hx)).1

theorem Encodes.writesOnly : WritesOnly copies points target := by
  intro job s d hjob
  obtain ⟨x, hx, rfl⟩ := h.onto job s d hjob
  exact ⟨x, hx, (hjob.unique (h.transfers x hx)).2.symm⟩

theorem Encodes.writesWithin {base size : ℕ}
    (hin : ∀ x, points x → base ≤ target x ∧ target x < base + size) :
    WritesWithin copies base size := by
  intro job s d hjob
  obtain ⟨x, hx, rfl⟩ := h.onto job s d hjob
  rw [(hjob.unique (h.transfers x hx)).2]
  exact hin x hx

end

theorem Encodes.eq_of_moves {reached : ι → ℕ} (h : Encodes copies points source reached encode)
    (hinj : ∀ x y, points x → points y → source x = source y → x = y)
    (hmoves : Moves copies points source target) {x : ι} (hx : points x) :
    reached x = target x := by
  obtain ⟨job, ⟨s, hjob⟩, -⟩ := hmoves.once x hx
  obtain ⟨y, hy, rfl⟩ := h.onto job s _ hjob
  obtain ⟨hs, htarget⟩ := hjob.unique (h.transfers y hy)
  have hsource : source y = source x := hs.symm.trans (hmoves.value x hx _ _ hjob)
  obtain rfl : y = x := hinj y x hy hx hsource
  exact htarget.symm

theorem Encodes.congr {reached : ι → ℕ} (h : Encodes copies points source reached encode)
    (heq : ∀ x, points x → reached x = target x) :
    Encodes copies points source target encode :=
  ⟨fun x hx => heq x hx ▸ h.transfers x hx, h.onto⟩

end Moves

-- Numbers below a sum by the summand they fall into, and copies cut into pieces that follow each
-- other.

/-- The piece that a number falls into, and how far behind the start of the piece it is. -/
def place : List ℕ → ℕ → ℕ × ℕ
  | [], n => (0, n)
  | size :: sizes, n =>
    if n < size then (0, n)
    else ((place sizes (n - size)).1 + 1, (place sizes (n - size)).2)

section Place

variable {sizes : List ℕ} {n k size r : ℕ}

theorem place_spec (h : n < sizes.sum) : ∃ size, sizes[(place sizes n).1]? = some size ∧
    (place sizes n).2 < size ∧
    (sizes.take (place sizes n).1).sum + (place sizes n).2 = n := by
  induction sizes generalizing n with
  | nil => simp at h
  | cons first sizes ih =>
    rw [List.sum_cons] at h
    unfold place
    split_ifs with hfirst
    · exact ⟨first, rfl, hfirst, by simp⟩
    · obtain ⟨size, hsize, hlt, hsum⟩ := ih (show n - first < sizes.sum by omega)
      refine ⟨size, hsize, hlt, ?_⟩
      rw [List.take_succ_cons, List.sum_cons]
      omega

theorem place_add (hk : sizes[k]? = some size) (hr : r < size) :
    place sizes ((sizes.take k).sum + r) = (k, r) := by
  induction sizes generalizing k with
  | nil => simp at hk
  | cons first sizes ih =>
    cases k with
    | zero =>
      obtain rfl : first = size := by simpa using hk
      simp [place, hr]
    | succ k =>
      have hrest := ih (k := k) (by simpa using hk)
      have hsub : first + (sizes.take k).sum + r - first = (sizes.take k).sum + r := by omega
      rw [List.take_succ_cons, List.sum_cons, place, if_neg (by omega), hsub, hrest]

theorem lt_sum_of_place (hk : sizes[k]? = some size) (hr : r < size) :
    (sizes.take k).sum + r < sizes.sum := by
  obtain ⟨hlt, rfl⟩ := List.getElem?_eq_some_iff.mp hk
  have hsplit := List.sum_take_add_sum_drop sizes k
  rw [List.drop_eq_getElem_cons hlt, List.sum_cons] at hsplit
  omega

end Place

/-- The way from a later plane on. -/
def Walk.advance (w : Walk) (n : ℕ) : Walk := { w with offset := w.offset + n * w.planeStride }

theorem Walk.address_advance (w : Walk) (n p t : ℕ) :
    (w.advance n).address p t = w.address (n + p) t := by
  unfold advance address
  ring

def cutPlanes (c : StridedCopy) : List ℕ → List StridedCopy
  | [] => []
  | n :: sizes => { c with planes := n } ::
      cutPlanes { c with source := c.source.advance n, target := c.target.advance n } sizes

section Cut

variable {ι : Type} {c : StridedCopy} {sizes : List ℕ}

theorem copies_cutPlanes {k p t s d : ℕ} : Copies (cutPlanes c sizes) ⟨k, p, t⟩ s d ↔
    ∃ size, sizes[k]? = some size ∧ p < size ∧ t < c.bytes ∧
      s = c.source.address ((sizes.take k).sum + p) t ∧
      d = c.target.address ((sizes.take k).sum + p) t := by
  induction sizes generalizing c k with
  | nil => simp [cutPlanes, Copies]
  | cons n sizes ih =>
    cases k with
    | zero => simp [cutPlanes, Copies]
    | succ k =>
      have hrest := ih (c := { c with source := c.source.advance n, target := c.target.advance n })
        (k := k)
      simp only [Walk.address_advance, ← Nat.add_assoc] at hrest
      exact hrest

variable {points : ι → Prop} {source target : ι → ℕ}

theorem encodes_cutPlanes (plane byte : ι → ℕ) (hsum : sizes.sum = c.planes)
    (hplane : ∀ x, points x → plane x < c.planes ∧ byte x < c.bytes)
    (hsource : ∀ x, points x → source x = c.source.address (plane x) (byte x))
    (htarget : ∀ x, points x → target x = c.target.address (plane x) (byte x))
    (honto : ∀ p < c.planes, ∀ t < c.bytes, ∃ x, points x ∧ plane x = p ∧ byte x = t) :
    Encodes (cutPlanes c sizes) points source target fun x =>
      ⟨(place sizes (plane x)).1, (place sizes (plane x)).2, byte x⟩ := by
  constructor
  · intro x hx
    obtain ⟨size, hsize, hlt, heq⟩ := place_spec (hsum ▸ (hplane x hx).1)
    apply copies_cutPlanes.mpr
    refine ⟨size, hsize, hlt, (hplane x hx).2, ?_, ?_⟩
    · rw [heq, hsource x hx]
    · rw [heq, htarget x hx]
  · rintro ⟨k, p, t⟩ s d hjob
    obtain ⟨size, hsize, hlt, ht, -, -⟩ := copies_cutPlanes.mp hjob
    obtain ⟨x, hx, hp, rfl⟩ := honto _ (hsum ▸ lt_sum_of_place hsize hlt) t ht
    exact ⟨x, hx, by rw [hp, place_add hsize hlt]⟩

end Cut

section Bytes

/-- Copies of a plane each that read on from each other, `P` bytes for each unit of their sizes,
and start `Q` bytes for each unit apart in the target. -/
def cutBytes (P Q : ℕ) (width stride : ℕ → ℕ) : ℕ → ℕ → List ℕ → List StridedCopy
  | _, _, [] => []
  | src, dst, n :: sizes =>
    ⟨1, n * P, ⟨src, 0, n * P, n * P⟩, ⟨dst, 0, width n, stride n⟩⟩ ::
      cutBytes P Q width stride (src + n * P) (dst + n * Q) sizes

/-- Where such copies move a byte to. -/
def movedTo (P Q : ℕ) (width stride : ℕ → ℕ) (sizes : List ℕ) (i : ℕ) : ℕ :=
  let k := (place sizes (i / P)).1
  let t := (place sizes (i / P)).2 * P + i % P
  (sizes.take k).sum * Q + t / width (sizes.getD k 0) * stride (sizes.getD k 0) +
    t % width (sizes.getD k 0)

variable {ι : Type} {P Q src dst : ℕ} {width stride : ℕ → ℕ} {sizes : List ℕ}

theorem copies_cutBytes {k p t s d : ℕ} :
    Copies (cutBytes P Q width stride src dst sizes) ⟨k, p, t⟩ s d ↔
      ∃ n, sizes[k]? = some n ∧ p = 0 ∧ t < n * P ∧ s = src + (sizes.take k).sum * P + t ∧
        d = dst + (sizes.take k).sum * Q + t / width n * stride n + t % width n := by
  induction sizes generalizing src dst k with
  | nil => simp [cutBytes, Copies]
  | cons n sizes ih =>
    cases k with
    | zero =>
      have hsource : t < n * P → Walk.address ⟨src, 0, n * P, n * P⟩ 0 t = src + t := by
        intro ht
        rw [Walk.address_of_lt _ _ _ _ ht, Nat.mul_zero, Nat.add_zero]
      simp only [cutBytes, Copies, List.getElem?_cons_zero, Option.some.injEq, exists_eq_left',
        List.take_zero, List.sum_nil, Nat.zero_mul, Nat.add_zero, Nat.lt_one_iff]
      constructor
      · rintro ⟨rfl, ht, rfl, rfl⟩
        exact ⟨rfl, ht, hsource ht, by simp [Walk.address]⟩
      · rintro ⟨rfl, ht, rfl, rfl⟩
        exact ⟨rfl, ht, (hsource ht).symm, by simp [Walk.address]⟩
    | succ k =>
      have hrest := @ih (src + n * P) (dst + n * Q) k
      simp only [Nat.add_assoc, ← Nat.add_mul] at hrest ⊢
      exact hrest

theorem mem_cutBytes {c : StridedCopy} (h : c ∈ cutBytes P Q width stride src dst sizes) :
    ∃ n ∈ sizes, c.planes * c.bytes = n * P := by
  induction sizes generalizing src dst with
  | nil => simp [cutBytes] at h
  | cons n sizes ih =>
    rcases List.mem_cons.mp h with rfl | h
    · exact ⟨n, List.mem_cons_self, Nat.one_mul _⟩
    · obtain ⟨m, hm, heq⟩ := ih h
      exact ⟨m, List.mem_cons_of_mem n hm, heq⟩

theorem movedTo_piece {k n a b : ℕ} (hn : sizes[k]? = some n) (ha : a < n) (hb : b < P) :
    movedTo P Q width stride sizes (((sizes.take k).sum + a) * P + b) =
      (sizes.take k).sum * Q + (a * P + b) / width n * stride n + (a * P + b) % width n := by
  have hat : sizes.getD k 0 = n := by rw [List.getD_eq_getElem?_getD, hn, Option.getD_some]
  rw [movedTo, digits_div hb, digits_mod hb, place_add hn ha]
  rw [hat]

theorem exists_piece {i : ℕ} (hi : i < sizes.sum * P) : ∃ k n a b, sizes[k]? = some n ∧ a < n ∧
    b < P ∧ i = ((sizes.take k).sum + a) * P + b := by
  obtain ⟨u, hu, b, hb, rfl⟩ := exists_digits hi
  obtain ⟨n, hn, ha, heq⟩ := place_spec hu
  exact ⟨_, n, _, b, hn, ha, hb, by rw [heq]⟩

theorem movedTo_uniform {c w s i : ℕ} (hw : 0 < w) (hP : P = c * w) (hQ : Q = c * s)
    (hwidth : ∀ n, width n = w) (hstride : ∀ n, stride n = s) (hi : i < sizes.sum * P) :
    movedTo P Q width stride sizes i = i / w * s + i % w := by
  obtain ⟨k, n, a, b, hn, ha, hb, rfl⟩ := exists_piece hi
  have hsplit : ((sizes.take k).sum + a) * P + b =
      a * P + b + w * ((sizes.take k).sum * c) := by
    rw [hP]
    ring
  rw [movedTo_piece hn ha hb, hwidth, hstride, hsplit, Nat.add_mul_div_left _ _ hw,
    Nat.add_mul_mod_self_left, hQ]
  ring

theorem movedTo_together {i : ℕ} (hQ : Q = P) (hwidth : ∀ n, width n = n * P)
    (hi : i < sizes.sum * P) : movedTo P Q width stride sizes i = i := by
  obtain ⟨k, n, a, b, hn, ha, hb, rfl⟩ := exists_piece hi
  have hlt : a * P + b < width n := by
    rw [hwidth]
    exact digits_lt ha hb
  rw [movedTo_piece hn ha hb, Nat.div_eq_of_lt hlt, Nat.mod_eq_of_lt hlt, hQ]
  ring

theorem movedTo_first {n i : ℕ} (hi : i < n * P) :
    movedTo P Q width stride (n :: sizes) i = i / width n * stride n + i % width n := by
  obtain ⟨a, ha, b, hb, rfl⟩ := exists_digits hi
  have hat := @movedTo_piece P Q width stride (n :: sizes) 0 n a b rfl ha hb
  simpa using hat

theorem movedTo_second {n m : ℕ} (hm : 0 < m) (hP : 0 < P) :
    movedTo P Q width stride (n :: m :: sizes) (n * P) = n * Q := by
  have hat := @movedTo_piece P Q width stride (n :: m :: sizes) 1 m 0 0 rfl hm hP
  simpa using hat

variable {points : ι → Prop}

theorem encodes_cutBytes (byte : ι → ℕ) (hP : 0 < P)
    (hbyte : ∀ x, points x → byte x < sizes.sum * P)
    (honto : ∀ i < sizes.sum * P, ∃ x, points x ∧ byte x = i) :
    Encodes (cutBytes P Q width stride src dst sizes) points (fun x => src + byte x)
      (fun x => dst + movedTo P Q width stride sizes (byte x)) fun x =>
        ⟨(place sizes (byte x / P)).1, 0, (place sizes (byte x / P)).2 * P + byte x % P⟩ := by
  constructor
  · intro x hx
    obtain ⟨n, hn, hlt, heq⟩ := place_spec ((Nat.div_lt_iff_lt_mul hP).mpr (hbyte x hx))
    apply copies_cutBytes.mpr
    refine ⟨n, hn, rfl, digits_lt hlt (Nat.mod_lt _ hP), ?_, ?_⟩
    · have hsplit := Nat.div_add_mod' (byte x) P
      rw [← heq, Nat.add_mul] at hsplit
      omega
    · have hat : sizes.getD (place sizes (byte x / P)).1 0 = n := by
        rw [List.getD_eq_getElem?_getD, hn, Option.getD_some]
      unfold movedTo
      dsimp only
      rw [hat]
      ring
  · rintro ⟨k, p, t⟩ s d hjob
    obtain ⟨n, hn, rfl, ht, -, -⟩ := copies_cutBytes.mp hjob
    obtain ⟨a, ha, b, hb, rfl⟩ := exists_digits ht
    obtain ⟨x, hx, hi⟩ := honto (((sizes.take k).sum + a) * P + b)
      (digits_lt (lt_sum_of_place hn ha) hb)
    exact ⟨x, hx, by rw [hi, digits_div hb, digits_mod hb, place_add hn ha]⟩

end Bytes

end Vpux.Data
