import Mathlib.Data.List.Induction
import Mathlib.Data.List.ProdSigma
import Mathlib.Tactic.Ring

/-! A buffer seen as blocks of equal width, and loops that overwrite blocks of it. -/
namespace Vpux.Data

variable {α ι : Type}

def block (w i : ℕ) (xs : List α) : List α := (xs.drop (i * w)).take w

/-- The entries from a position on, replaced by others. -/
def overwrite (xs : List α) (pos : ℕ) (ys : List α) : List α :=
  xs.take pos ++ ys ++ xs.drop (pos + ys.length)

open List

section Overwrite

variable {w i k n pos : ℕ} {xs ys : List α}

theorem length_block (h : (i + 1) * w ≤ xs.length) : (block w i xs).length = w := by
  rw [Nat.succ_mul] at h
  simp only [block, length_take, length_drop]
  omega

theorem getElem?_block (hk : k < w) : (block w i xs)[k]? = xs[i * w + k]? := by
  rw [block, getElem?_take_of_lt hk, getElem?_drop]

theorem length_overwrite (h : pos + ys.length ≤ xs.length) :
    (overwrite xs pos ys).length = xs.length := by
  simp only [overwrite, length_append, length_take, length_drop]
  omega

theorem getElem?_overwrite_of_lt (hi : i < pos) (hpos : pos ≤ xs.length) :
    (overwrite xs pos ys)[i]? = xs[i]? := by
  rw [overwrite, append_assoc, getElem?_append_left
    (by rw [length_take]; omega), getElem?_take_of_lt hi]

theorem getElem?_overwrite_add (hi : i < ys.length) (hpos : pos ≤ xs.length) :
    (overwrite xs pos ys)[pos + i]? = ys[i]? := by
  have hlength : (xs.take pos).length = pos := length_take_of_le hpos
  rw [overwrite, append_assoc, getElem?_append_right (by omega), hlength,
    Nat.add_sub_cancel_left, getElem?_append_left hi]

theorem getElem?_overwrite_of_ge (hi : pos + ys.length ≤ i) (hpos : pos ≤ xs.length) :
    (overwrite xs pos ys)[i]? = xs[i]? := by
  have hlength : (xs.take pos ++ ys).length = pos + ys.length := by
    rw [length_append, length_take_of_le hpos]
  rw [overwrite, getElem?_append_right (by omega), hlength, getElem?_drop]
  congr 1
  omega

theorem block_ext {xs ys : List α} (hx : xs.length ≤ w) (hy : ys.length ≤ w)
    (h : ∀ k < w, xs[k]? = ys[k]?) : xs = ys := by
  apply ext_getElem?
  intro k
  by_cases hk : k < w
  · exact h k hk
  · rw [getElem?_eq_none (by omega), getElem?_eq_none (by omega)]

theorem length_block_le : (block w i xs).length ≤ w := by
  rw [block, length_take]
  exact Nat.min_le_left _ _

theorem block_overwrite_of_notMem (hy : ys.length = n * w) (hpos : (k + n) * w ≤ xs.length)
    (hi : i < k ∨ k + n ≤ i) : block w i (overwrite xs (k * w) ys) = block w i xs := by
  rw [Nat.add_mul] at hpos
  apply block_ext length_block_le length_block_le
  intro j hj
  rw [getElem?_block hj, getElem?_block hj]
  rcases hi with hi | hi
  · have hle := Nat.mul_le_mul_right w (Nat.succ_le_of_lt hi)
    rw [Nat.succ_mul] at hle
    exact getElem?_overwrite_of_lt (by omega) (by omega)
  · have hle := Nat.mul_le_mul_right w hi
    rw [Nat.add_mul] at hle
    exact getElem?_overwrite_of_ge (by omega) (by omega)

theorem block_overwrite_add (hy : ys.length = n * w) (hpos : (k + n) * w ≤ xs.length)
    (hi : i < n) : block w (k + i) (overwrite xs (k * w) ys) = block w i ys := by
  rw [Nat.add_mul] at hpos
  apply block_ext length_block_le length_block_le
  intro j hj
  have hle := Nat.mul_le_mul_right w (Nat.succ_le_of_lt hi)
  rw [Nat.succ_mul] at hle
  rw [getElem?_block hj, getElem?_block hj, Nat.add_mul, Nat.add_assoc]
  exact getElem?_overwrite_add (by omega) (by omega)

theorem block_slice (hi : i < n) : block w i ((xs.drop (k * w)).take (n * w)) =
    block w (k + i) xs := by
  apply block_ext length_block_le length_block_le
  intro j hj
  have hle := Nat.mul_le_mul_right w (Nat.succ_le_of_lt hi)
  rw [Nat.succ_mul] at hle
  rw [getElem?_block hj, getElem?_block hj, getElem?_take_of_lt (by omega),
    getElem?_drop, Nat.add_mul, Nat.add_assoc]

theorem block_block {a b m : ℕ} (hb : b < m) :
    block w b (block (m * w) a xs) = block w (a * m + b) xs := by
  have hslice : block w b ((xs.drop (a * m * w)).take (m * w)) = block w (a * m + b) xs :=
    block_slice hb
  rwa [Nat.mul_assoc] at hslice

theorem eq_of_blocks (hx : xs.length = n * w) (hy : ys.length = n * w)
    (h : ∀ i < n, block w i xs = block w i ys) : xs = ys := by
  rcases Nat.eq_zero_or_pos w with rfl | hw
  · rw [eq_nil_of_length_eq_zero hx, eq_nil_of_length_eq_zero hy]
  apply block_ext (w := n * w) hx.le hy.le
  intro k hk
  have hblock := congrArg (·[k % w]?) (h (k / w) ((Nat.div_lt_iff_lt_mul hw).mpr hk))
  have hmod := Nat.mod_lt k hw
  simpa only [getElem?_block hmod, Nat.div_add_mod'] using hblock

end Overwrite

section Loop

theorem foldlM_eq_pure {β : Type} {m : Type → Type} [Monad m] [LawfulMonad m] {P : β → Prop}
    {body : β → ι → m β} {f : β → ι → β} {jobs : List ι}
    (hbody : ∀ b, ∀ j ∈ jobs, P b → body b j = pure (f b j))
    (hkeep : ∀ b, ∀ j ∈ jobs, P b → P (f b j)) {b : β} (hb : P b) :
    jobs.foldlM body b = pure (jobs.foldl f b) := by
  induction jobs generalizing b with
  | nil => rfl
  | cons j jobs ih =>
    rw [foldlM_cons, hbody b j (by simp) hb, pure_bind, foldl_cons]
    exact ih (fun b j hj => hbody b j (mem_cons_of_mem _ hj))
      (fun b j hj => hkeep b j (mem_cons_of_mem _ hj)) (hkeep b j (by simp) hb)

theorem foldlM_product {β κ : Type} {m : Type → Type} [Monad m] [LawfulMonad m]
    {f : β → ι × κ → m β} (l : List ι) (l' : List κ) (b : β) :
    (l ×ˢ l').foldlM f b = l.foldlM (fun b i => l'.foldlM (fun b k => f b (i, k)) b) b := by
  induction l generalizing b with
  | nil => rfl
  | cons i l ih =>
    rw [product_cons, foldlM_append, foldlM_map, foldlM_cons]
    exact bind_congr ih

variable {w n : ℕ} {dst : ι → ℕ} {val : ι → List α} {jobs : List ι} {xs : List α}

def writeBlocks (w : ℕ) (dst : ι → ℕ) (val : ι → List α) (jobs : List ι) (xs : List α) : List α :=
  jobs.foldl (fun xs j => overwrite xs (dst j * w) (val j)) xs

variable (hxs : xs.length = n * w)
include hxs

theorem length_overwrite_block {values : List α} (hvalues : values.length = w) {k : ℕ}
    (hk : k < n) :
    (overwrite xs (k * w) values).length = n * w := by
  have hle := Nat.mul_le_mul_right w (Nat.succ_le_of_lt hk)
  rw [Nat.succ_mul] at hle
  rw [length_overwrite (by omega), hxs]

theorem length_writeBlocks (hval : ∀ j ∈ jobs, (val j).length = w) (hdst : ∀ j ∈ jobs, dst j < n) :
    (writeBlocks w dst val jobs xs).length = n * w := by
  induction jobs generalizing xs with
  | nil => exact hxs
  | cons j jobs ih =>
    exact ih (length_overwrite_block hxs (hval j (by simp)) (hdst j (by simp)))
      (fun j hj => hval j (mem_cons_of_mem _ hj))
      (fun j hj => hdst j (mem_cons_of_mem _ hj))

theorem block_overwrite_self {values : List α} (hvalues : values.length = w) {k : ℕ} (hk : k < n) :
    block w k (overwrite xs (k * w) values) = values := by
  have hle : (k + 1) * w ≤ n * w := Nat.mul_le_mul_right w hk
  have hself : block w (k + 0) (overwrite xs (k * w) values) = block w 0 values :=
    block_overwrite_add (n := 1) (by omega) (by omega) Nat.one_pos
  rw [Nat.add_zero] at hself
  rw [hself, block, Nat.zero_mul, drop_zero, take_of_length_le hvalues.le]

theorem block_overwrite_ne {values : List α} (hvalues : values.length = w) {k : ℕ} (hk : k < n)
    {i : ℕ} (hne : k ≠ i) :
    block w i (overwrite xs (k * w) values) = block w i xs := by
  have hle : (k + 1) * w ≤ n * w := Nat.mul_le_mul_right w hk
  exact block_overwrite_of_notMem (n := 1) (by omega) (by omega) (by omega)

theorem block_writeBlocks_of_notMem (hval : ∀ j ∈ jobs, (val j).length = w)
    (hdst : ∀ j ∈ jobs, dst j < n) {i : ℕ} (hi : ∀ j ∈ jobs, dst j ≠ i) :
    block w i (writeBlocks w dst val jobs xs) = block w i xs := by
  induction jobs generalizing xs with
  | nil => rfl
  | cons j jobs ih =>
    have hlength := length_overwrite_block hxs (hval j (by simp)) (hdst j (by simp))
    rw [writeBlocks, foldl_cons, ← writeBlocks,
      ih hlength (fun j hj => hval j (mem_cons_of_mem _ hj))
        (fun j hj => hdst j (mem_cons_of_mem _ hj))
        (fun j hj => hi j (mem_cons_of_mem _ hj)),
      block_overwrite_ne hxs (hval j (by simp)) (hdst j (by simp)) (hi j (by simp))]

theorem block_writeBlocks (hval : ∀ j ∈ jobs, (val j).length = w) (hdst : ∀ j ∈ jobs, dst j < n)
    (hsame : ∀ j ∈ jobs, ∀ j' ∈ jobs, dst j = dst j' → val j = val j') {j : ι} (hj : j ∈ jobs) :
    block w (dst j) (writeBlocks w dst val jobs xs) = val j := by
  induction jobs using List.reverseRecOn with
  | nil => simp at hj
  | append_singleton jobs last ih =>
    have hbefore : ∀ k ∈ jobs, k ∈ jobs ++ [last] := fun k hk => mem_append_left _ hk
    have hlength : (writeBlocks w dst val jobs xs).length = n * w :=
      length_writeBlocks hxs (fun k hk => hval k (hbefore k hk))
        (fun k hk => hdst k (hbefore k hk))
    have hlast : last ∈ jobs ++ [last] := by simp
    rw [writeBlocks, foldl_append, foldl_cons, foldl_nil, ← writeBlocks]
    by_cases heq : dst last = dst j
    · rw [← heq, block_overwrite_self hlength (hval last hlast) (hdst last hlast)]
      exact hsame last hlast j hj heq
    · rw [block_overwrite_ne hlength (hval last hlast) (hdst last hlast) heq]
      have hj' : j ∈ jobs := by
        rcases mem_append.mp hj with hj | hj
        · exact hj
        · rw [mem_singleton.mp hj] at heq
          exact absurd rfl heq
      exact ih (fun k hk => hval k (hbefore k hk)) (fun k hk => hdst k (hbefore k hk))
        (fun k hk k' hk' => hsame k (hbefore k hk) k' (hbefore k' hk')) hj'

end Loop

/-- Equal blocks, but for one of them. -/
def markBlock (w n k : ℕ) (value mark : List α) : List α :=
  overwrite (List.replicate n value).flatten (k * w) mark

section Marked

variable {w n k i : ℕ} {value mark : List α}

theorem block_replicate (value : List α) {n i : ℕ} (hvalue : value.length = w)
    (hi : i < n) : block w i (List.replicate n value).flatten = value := by
  induction n generalizing i with
  | zero => simp at hi
  | succ n ih =>
    rw [replicate_succ, flatten_cons]
    cases i with
    | zero => rw [block, Nat.zero_mul, drop_zero, take_left' hvalue]
    | succ i =>
      rw [block, Nat.succ_mul, Nat.add_comm, ← drop_drop, drop_left' hvalue]
      exact ih (Nat.lt_of_succ_lt_succ hi)

variable (hvalue : value.length = w) (hmark : mark.length = w) (hk : k < n)
include hvalue

theorem length_plain : (List.replicate n value).flatten.length = n * w := by
  simp [hvalue]

include hmark hk

theorem length_markBlock : (markBlock w n k value mark).length = n * w :=
  length_overwrite_block (length_plain hvalue) hmark hk

theorem block_markBlock_self : block w k (markBlock w n k value mark) = mark :=
  block_overwrite_self (length_plain hvalue) hmark hk

theorem block_markBlock_ne (hi : i < n) (hne : i ≠ k) :
    block w i (markBlock w n k value mark) = value := by
  rw [markBlock, block_overwrite_ne (length_plain hvalue) hmark hk hne.symm,
    block_replicate value hvalue hi]

end Marked

theorem length_flatten {w : ℕ} {rows : List (List α)} (hw : ∀ row ∈ rows, row.length = w) :
    rows.flatten.length = rows.length * w := by
  induction rows with
  | nil => simp
  | cons first rows ih =>
    rw [flatten_cons, length_append, hw first (by simp), ih fun row hrow =>
      hw row (mem_cons_of_mem first hrow), length_cons, Nat.succ_mul, Nat.add_comm]

theorem take_drop_flatten {w i : ℕ} {rows : List (List α)} (hw : ∀ row ∈ rows, row.length = w)
    {row : List α} (hrow : rows[i]? = some row) :
    (rows.flatten.drop (i * w)).take w = row := by
  induction rows generalizing i with
  | nil => simp at hrow
  | cons first rows ih =>
    have hfirst := hw first (by simp)
    rw [flatten_cons]
    cases i with
    | zero =>
      obtain rfl : first = row := by simpa using hrow
      rw [Nat.zero_mul, drop_zero, take_left' hfirst]
    | succ i =>
      rw [Nat.succ_mul, Nat.add_comm, ← drop_drop, drop_left' hfirst]
      exact ih (fun r hr => hw r (mem_cons_of_mem first hr)) (by simpa using hrow)

end Vpux.Data
