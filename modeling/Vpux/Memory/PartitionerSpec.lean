import Vpux.Memory.Partitioner
import Mathlib.Order.Interval.Set.Disjoint

/-! What one call does to the set of free bytes. -/
namespace Vpux.Memory
open Data

theorem add64_eq {a b : ℕ} (h : a + b < wordSize) : add64 a b = a + b :=
  Nat.mod_eq_of_lt h

theorem sub64_eq {a b : ℕ} (hba : b ≤ a) (ha : a < wordSize) : sub64 a b = a - b := by
  unfold sub64
  rw [Nat.mod_eq_of_lt (hba.trans_lt ha)]
  have hsum : a + (wordSize - b) = a - b + wordSize := by omega
  rw [hsum, Nat.add_mod_right, Nat.mod_eq_of_lt (by omega)]

theorem alignValUp_bounds {val align : ℕ} (ha : 0 < align)
    (h : val + (align - 1) < wordSize) :
    val ≤ alignValUp val align ∧ alignValUp val align ≤ val + (align - 1) := by
  unfold alignValUp
  rw [add64_eq h]
  have hle := Nat.div_mul_le_self (val + (align - 1)) align
  have hlt := Nat.lt_div_mul_add (a := val + (align - 1)) ha
  omega

namespace Partitioner

/-- Gaps in order inside a memory with 64-bit addresses. -/
structure Wf (p : Partitioner) : Prop where
  separated : Separated p.gaps
  inside : ∀ g ∈ p.gaps, g.hi ≤ p.totalSize
  word : p.totalSize < wordSize

variable {p p' : Partitioner} {addr size alignment : ℕ} {dir : Direction} {g : Gap}

theorem Wf.hi_lt (h : p.Wf) (hg : g ∈ p.gaps) : g.hi < wordSize := (h.inside g hg).trans_lt h.word

theorem Wf.gap_size (h : p.Wf) (hg : g ∈ p.gaps) : Gap.size g = g.hi - g.lo :=
  sub64_eq (h.separated.nonempty g hg).le (h.hi_lt hg)

variable {gaps : List Gap}

theorem wf_of_cover (h : p.Wf) (hs : Separated gaps) (hc : cover gaps ⊆ Set.Iio p.totalSize) :
    Wf { p with gaps := gaps } where
  separated := hs
  inside g hg := by
    have hlt := hs.nonempty g hg
    have hmem : g.hi - 1 ∈ cover gaps := ⟨g, hg, by simp; omega⟩
    have := hc hmem
    simp only [Set.mem_Iio] at this
    dsimp only
    omega
  word := h.word

theorem Wf.cover_lt (h : p.Wf) : cover p.gaps ⊆ Set.Iio p.totalSize := by
  intro x ⟨g, hg, hx⟩
  exact hx.2.trans_le (h.inside g hg)

structure Takes (p : Partitioner) (addr size : ℕ) (p' : Partitioner) : Prop where
  wf : p'.Wf
  total : p'.totalSize = p.totalSize
  free : Set.Ico addr (addr + size) ⊆ cover p.gaps
  covers : cover p'.gaps = cover p.gaps \ Set.Ico addr (addr + size)

structure Gives (p : Partitioner) (addr size : ℕ) (p' : Partitioner) : Prop where
  wf : p'.Wf
  total : p'.totalSize = p.totalSize
  covers : cover p'.gaps = cover p.gaps ∪ Set.Ico addr (addr + size)

variable {pre post : List Gap}

theorem Takes.of_carve (h : p.Wf) (hgaps : p.gaps = pre ++ g :: post) (hlo : g.lo ≤ addr)
    (hhi : addr + size ≤ g.hi) (hs : 0 < size) :
    Takes p addr size { p with gaps := pre ++ carve g addr (addr + size) ++ post } := by
  have hsep : Separated (pre ++ g :: post) := hgaps ▸ h.separated
  obtain ⟨hsep', hcover⟩ := hsep.carve hlo hhi (by omega)
  rw [← hgaps] at hcover
  have hmem : g ∈ p.gaps := by simp [hgaps]
  refine ⟨wf_of_cover h hsep' ?_, rfl, ?_, hcover⟩
  · rw [hcover]
    exact Set.sdiff_subset.trans h.cover_lt
  · exact (Set.Ico_subset_Ico hlo hhi).trans (points_subset_cover hmem)

section Alloc

/-- The sums the search forms at a gap stay below the word size. -/
def SumsFit (size alignment : ℕ) (g : Gap) : Direction → Prop
  | .Up => g.lo + (alignment - 1) < wordSize ∧ alignValUp g.lo alignment + size < wordSize
  | .Down => g.hi - size + (alignment - 1) < wordSize ∧
      alignValUp (g.hi - size) alignment + size < wordSize ∧
      (g.hi < alignValUp (g.hi - size) alignment + size → g.lo + alignment < wordSize)

/-- No sum wraps at the gaps the search looks into. -/
def AllocFits (p : Partitioner) (size alignment : ℕ) (dir : Direction) : Prop :=
  ∀ i g, p.gaps[i]? = some g → size ≤ Gap.size g →
    (i ∈ preferredGaps dir p.gaps.length ∨
      preferredGap size alignment dir p.gaps = none ∧ i = lastGap dir p.gaps.length) →
    SumsFit size alignment g dir

theorem sumsFit_of_total (hlo : g.lo < g.hi) (ha : 0 < alignment) (hs : size ≤ g.hi - g.lo)
    (hfit : g.hi + alignment ≤ wordSize) : SumsFit size alignment g dir := by
  cases dir with
  | Up =>
    have hsum : g.lo + (alignment - 1) < wordSize := by omega
    have := alignValUp_bounds ha hsum
    exact ⟨hsum, by omega⟩
  | Down =>
    have hsum : g.hi - size + (alignment - 1) < wordSize := by omega
    have := alignValUp_bounds ha hsum
    exact ⟨hsum, by omega, by omega⟩

theorem allocFits_of_total (h : p.Wf) (ha : 0 < alignment)
    (hfit : p.totalSize + alignment ≤ wordSize) : p.AllocFits size alignment dir := by
  intro i g hi hs _
  have hg := List.mem_of_getElem? hi
  have hin := h.inside g hg
  rw [h.gap_size hg] at hs
  exact sumsFit_of_total (h.separated.nonempty g hg) ha hs (by omega)

theorem getAddrFromGap_spec (hlo : g.lo < g.hi) (hhi : g.hi < wordSize) (ha : 0 < alignment)
    (hfit : size ≤ Gap.size g → SumsFit size alignment g dir)
    (hr : getAddrFromGap size alignment dir g ≠ InvalidAddress) :
    g.lo ≤ getAddrFromGap size alignment dir g ∧
      getAddrFromGap size alignment dir g + size ≤ g.hi := by
  have hsize : Gap.size g = g.hi - g.lo := sub64_eq hlo.le hhi
  unfold getAddrFromGap at hr ⊢
  by_cases hlt : Gap.size g < size
  · simp [hlt] at hr
  · have hfits := hfit (not_lt.mp hlt)
    cases dir with
    | Up =>
      obtain ⟨hsum, hend⟩ := hfits
      have hal := alignValUp_bounds ha hsum
      dsimp only at hr ⊢
      rw [add64_eq hend] at hr ⊢
      split_ifs at hr ⊢ with h1
      · simp at hr
      · omega
    | Down =>
      obtain ⟨hsum, hend, hstart⟩ := hfits
      have hal := alignValUp_bounds ha hsum
      dsimp only at hr ⊢
      rw [sub64_eq (by omega : size ≤ g.hi) hhi, add64_eq hend] at hr ⊢
      split_ifs at hr ⊢ with h1 h2 h3
      all_goals try exact absurd rfl hr
      · rw [add64_eq (hstart h1)] at h2
        have hsub : sub64 (alignValUp (g.hi - size) alignment) alignment =
            alignValUp (g.hi - size) alignment - alignment := sub64_eq (by omega) (by omega)
        omega
      · omega

theorem foldl_considerGap {is : List ℕ} {best : Option ℕ × ℕ} {i : ℕ}
    (h : (is.foldl (considerGap size alignment dir gaps) best).1 = some i) :
    best.1 = some i ∨ i ∈ is ∧ ∃ g, gaps[i]? = some g ∧
      getAddrFromGap size alignment dir g ≠ InvalidAddress := by
  induction is generalizing best with
  | nil => exact Or.inl h
  | cons j is ih =>
    rcases ih h with hbest | ⟨hi, hg⟩
    · unfold considerGap at hbest
      split at hbest
      · exact Or.inl hbest
      · next g hj =>
        split_ifs at hbest with hsuit
        · obtain rfl : j = i := by simpa using hbest
          exact Or.inr ⟨by simp, g, hj, hsuit.1⟩
        · exact Or.inl hbest
    · exact Or.inr ⟨by simp [hi], hg⟩

theorem minGapInd_spec {i : ℕ} (h : minGapInd size alignment dir gaps = some i) :
    ∃ g, gaps[i]? = some g ∧ getAddrFromGap size alignment dir g ≠ InvalidAddress ∧
      (i ∈ preferredGaps dir gaps.length ∨
        preferredGap size alignment dir gaps = none ∧ i = lastGap dir gaps.length) := by
  unfold minGapInd at h
  split at h
  · next j hj =>
    obtain rfl : j = i := by simpa using h
    rcases foldl_considerGap hj with hbest | ⟨hi, g, hg, hsuit⟩
    · simp at hbest
    · exact ⟨g, hg, hsuit, Or.inl hi⟩
  · next hnone =>
    split at h
    · simp at h
    · next g hg =>
      split_ifs at h with hsuit
      obtain rfl : lastGap dir gaps.length = i := by simpa using h
      exact ⟨g, hg, hsuit, Or.inr ⟨hnone, rfl⟩⟩

theorem insertIdx_length (pre l : List Gap) : (pre ++ l).insertIdx pre.length g =
    pre ++ g :: l := by
  induction pre with
  | nil => simp
  | cons x pre ih => simp [ih]

theorem useGap_eq (hlo : g.lo ≤ addr) (hhi : addr + size ≤ g.hi) (hw : g.hi < wordSize) :
    useGap (pre ++ g :: post) pre.length addr size =
      some (pre ++ carve g addr (addr + size) ++ post) := by
  have hend : add64 addr size = addr + size := add64_eq (by omega)
  have hleft : sub64 addr g.lo = addr - g.lo := sub64_eq hlo (by omega)
  have hright : sub64 g.hi (addr + size) = g.hi - (addr + size) := sub64_eq hhi hw
  have hl : addr - g.lo = 0 ↔ ¬ g.lo < addr := by omega
  have hr : g.hi - (addr + size) = 0 ↔ ¬ addr + size < g.hi := by omega
  unfold useGap carve
  by_cases h1 : g.lo < addr <;> by_cases h2 : addr + size < g.hi
  · simp [hend, hleft, hright, hlo, hhi, hl, hr, h1, h2, insertIdx_length]
  · simp [hend, hleft, hright, hlo, hhi, hl, hr, h1, h2, insertIdx_length]
  · simp [hend, hleft, hright, hlo, hhi, hl, hr, h1, h2, insertIdx_length]
  · simp [hend, hleft, hright, hlo, hhi, hl, hr, h1, h2, List.eraseIdx_append_of_length_le]

theorem split_at_index {i : ℕ} (h : gaps[i]? = some g) :
    ∃ pre post, gaps = pre ++ g :: post ∧ pre.length = i := by
  obtain ⟨hi, rfl⟩ := List.getElem?_eq_some_iff.mp h
  exact ⟨gaps.take i, gaps.drop (i + 1), by simp, List.length_take_of_le hi.le⟩

theorem alloc_spec (h : p.Wf) (hs : 0 < size) (ha : 0 < alignment)
    (hfit : p.AllocFits size alignment dir) :
    ∃ p' addr, p.alloc size alignment dir = some (p', addr) ∧
      (addr = InvalidAddress ∧ p' = p ∨ addr ≠ InvalidAddress ∧ Takes p addr size p') := by
  unfold alloc chooseMinimalGap
  cases hind : minGapInd size alignment dir p.gaps with
  | none => exact ⟨p, InvalidAddress, by simp [hs, ha], Or.inl ⟨rfl, rfl⟩⟩
  | some i =>
    obtain ⟨g, hi, hsuit, hvisit⟩ := minGapInd_spec hind
    have hg := List.mem_of_getElem? hi
    have haddr := getAddrFromGap_spec (h.separated.nonempty g hg) (h.hi_lt hg) ha
      (fun hsize => hfit i g hi hsize hvisit) hsuit
    obtain ⟨pre, post, hgaps, hlen⟩ := split_at_index hi
    refine ⟨_, _, ?_, Or.inr ⟨hsuit, Takes.of_carve h hgaps haddr.1 haddr.2 hs⟩⟩
    have huse : useGap (pre ++ g :: post) pre.length _ size = _ :=
      useGap_eq haddr.1 haddr.2 (h.hi_lt hg)
    rw [← hgaps, hlen] at huse
    simp [hs, ha, hi, huse]

end Alloc

section AllocFixed

theorem findIdx_gap (h : Separated (pre ++ g :: post)) (hlo : g.lo ≤ addr) (hhi : addr < g.hi) :
    (pre ++ g :: post).findIdx (fun g => addr ≤ g.lo) =
      if g.lo = addr then pre.length else pre.length + 1 := by
  obtain ⟨-, hg, hpg⟩ := Separated.append_iff.mp h
  obtain ⟨-, hpost, -⟩ := Separated.cons_iff.mp hg
  have hpre : pre.findIdx (fun g => addr ≤ g.lo) = pre.length := by
    apply List.findIdx_eq_length_of_false
    intro s hs
    have hlt := hpg s hs g (by simp)
    have hne := h.nonempty s (by simp [hs])
    simp only [decide_eq_false_iff_not]
    omega
  have hnext : post.findIdx (fun g => addr ≤ g.lo) = 0 := by
    cases post with
    | nil => rfl
    | cons t post =>
      have ht := hpost t (by simp)
      simp [List.findIdx_cons, show addr ≤ t.lo by omega]
  rw [List.findIdx_append, hpre, if_neg (lt_irrefl _), List.findIdx_cons, hnext]
  split_ifs with heq
  · simp [heq]
  · simp [show ¬ addr ≤ g.lo by omega, Nat.add_comm]

theorem allocInside_eq (hgaps : p.gaps = pre ++ g :: post) (hlo : g.lo < addr)
    (hhi : addr + size ≤ g.hi) (hw : g.hi < wordSize) :
    p.allocInside (pre.length + 1) addr size =
      some { p with gaps := pre ++ carve g addr (addr + size) ++ post } := by
  have hend : add64 addr size = addr + size := add64_eq (by omega)
  have hins : ∀ x y : Gap, (pre ++ x :: post).insertIdx (pre.length + 1) y =
      pre ++ x :: y :: post := by
    intro x y
    have hpre := insertIdx_length (g := y) (pre ++ [x]) post
    simpa using hpre
  unfold allocInside carve
  by_cases hfull : addr + size < g.hi
  · have htail : sub64 g.hi (addr + size) = g.hi - (addr + size) := sub64_eq hhi hw
    have hback : add64 (addr + size) (g.hi - (addr + size)) = g.hi := by
      rw [add64_eq] <;> omega
    simp [hgaps, hend, hlo, hhi, hfull, htail, hback, hins, show ¬ g.hi = addr + size by omega,
      show 0 < g.hi - (addr + size) by omega]
  · simp [hgaps, hend, hlo, show g.hi = addr + size by omega]

theorem allocFixed_spec (h : p.Wf) (hs : 0 < size) (hg : g ∈ p.gaps) (hlo : g.lo ≤ addr)
    (hhi : addr + size ≤ g.hi) : ∃ p', p.allocFixed addr size = some p' ∧ Takes p addr size p' := by
  obtain ⟨pre, post, hgaps⟩ := List.append_of_mem hg
  refine ⟨_, ?_, Takes.of_carve h hgaps hlo hhi hs⟩
  have hw := h.hi_lt hg
  have hin := h.inside g hg
  have hend : add64 addr size = addr + size := add64_eq (by omega)
  have hvalid : addr ≠ InvalidAddress := by
    unfold InvalidAddress
    omega
  have htotal : addr + size ≤ p.totalSize := by omega
  have hsize := h.gap_size hg
  have hne : p.gaps ≠ [] := List.ne_nil_of_mem hg
  have hidx := findIdx_gap (hgaps ▸ h.separated) hlo (by omega)
  rw [← hgaps] at hidx
  unfold allocFixed
  by_cases heq : g.lo = addr
  · subst heq
    have hget : p.gaps[pre.length]? = some g := by simp [hgaps]
    by_cases hfull : g.lo + size < g.hi
    · have hset : p.gaps.set pre.length ⟨g.lo + size, g.hi⟩ =
        pre ++ ⟨g.lo + size, g.hi⟩ :: post := by
        simp [hgaps]
      simp [hvalid, hs, hend, htotal, hne, hidx, hget, hsize, carve, hfull, hset,
        show size ≤ g.hi - g.lo by omega, show ¬ g.hi - g.lo = size by omega]
    · have herase : p.gaps.eraseIdx pre.length = pre ++ post := by
        simp [hgaps, List.eraseIdx_append_of_length_le]
      simp [hvalid, hs, hend, htotal, hne, hidx, hget, hsize, carve, hfull, herase,
        show g.hi - g.lo = size by omega]
  · rw [if_neg heq] at hidx
    have hinside := allocInside_eq hgaps (by omega) hhi hw
    have hnext : ∀ t, p.gaps[pre.length + 1]? = some t → t.lo ≠ addr := by
      intro t ht
      rw [hgaps, List.getElem?_append_right (by omega)] at ht
      have hmem : t ∈ post := List.mem_of_getElem? (by simpa using ht)
      have hsep : Separated (pre ++ g :: post) := hgaps ▸ h.separated
      have hlt := (Separated.cons_iff.mp (Separated.append_iff.mp hsep).2.1).2.1 t hmem
      omega
    cases hget : p.gaps[pre.length + 1]? with
    | none => simp [hvalid, hs, hend, htotal, hne, hidx, hget, hinside]
    | some t => simp [hvalid, hs, hend, htotal, hne, hidx, hget, hinside, hnext t hget]

end AllocFixed

section Free

/-- The range behind the begin of the first gap: the loop puts it between two gaps or it is
behind the last one. -/
theorem freeBetween_spec (h : Separated (g :: gaps)) (hs : 0 < size)
    (hw : ∀ t ∈ g :: gaps, t.hi < wordSize) (hend : addr + size < wordSize)
    (hd : Disjoint (cover (g :: gaps)) (Set.Ico addr (addr + size))) (hlo : g.hi ≤ addr) :
    ∃ hd tl, (freeBetween addr size (g :: gaps)).getD (freeAtLast addr size (g :: gaps)) =
      hd :: tl ∧
      hd.lo = g.lo ∧ Inserted (g :: gaps) addr (addr + size) (hd :: tl) := by
  have hadd : add64 addr size = addr + size := add64_eq hend
  have hab : addr < addr + size := by omega
  induction gaps generalizing g with
  | nil =>
    have hg := h.nonempty g (by simp)
    simp only [freeBetween, freeAtLast, hadd, Option.getD_none]
    rw [if_neg (by omega), if_neg (by omega)]
    split_ifs with hlast
    · have happ : append g size = ⟨g.lo, addr + size⟩ := by
        unfold append
        rw [← hlast, hadd]
      exact ⟨_, _, rfl, rfl, happ ▸ Inserted.append h hab hlast (by simp)⟩
    · exact ⟨_, _, rfl, rfl, Inserted.last h hab (by omega)⟩
  | cons t gaps ih =>
    obtain ⟨hg, hgt, hsep⟩ := Separated.cons_cons_iff.mp h
    have ht := hsep.nonempty t (by simp)
    have htw := hw t (by simp)
    have hdt : Disjoint (cover (t :: gaps)) (Set.Ico addr (addr + size)) := by
      rw [cover_cons] at hd
      exact hd.mono_left Set.subset_union_right
    simp only [freeBetween, freeAtLast, hadd]
    split_ifs with hbetween htouch htouch' htouch'
    · -- the range fills the space between the two gaps
      have hsize : Gap.size t = t.hi - t.lo := sub64_eq ht.le htw
      have happ : append g (add64 size (Gap.size t)) = ⟨g.lo, t.hi⟩ := by
        unfold append
        rw [hsize, add64_eq (a := size) (by omega), add64_eq (by omega)]
        congr 1
        omega
      exact ⟨_, _, rfl, rfl, happ ▸ Inserted.bridge h hab htouch htouch'⟩
    · have happ : append g size = ⟨g.lo, addr + size⟩ := by
        unfold append
        rw [← htouch, hadd]
      have hbefore : ∀ u ∈ t :: gaps, addr + size < u.lo := by
        intro u hu
        have hle := hsep.head_lo_le u.lo (Separated.lo_mem hsep hu)
        omega
      exact ⟨_, _, rfl, rfl, happ ▸ Inserted.append h hab htouch hbefore⟩
    · have hpre : prepend t size = ⟨addr, t.hi⟩ := by
        unfold prepend
        rw [← htouch', sub64_eq (by omega) (by omega)]
        congr 1
        omega
      exact ⟨_, _, rfl, rfl,
        Inserted.cons h (hpre ▸ Inserted.prepend hsep hab htouch') (by simp [hpre]; omega)⟩
    · exact ⟨_, _, rfl, rfl, Inserted.cons h (Inserted.before hsep hab (by omega))
        (by dsimp; omega)⟩
    · have hnext : t.hi ≤ addr :=
        hi_le_of_disjoint ht hab (hdt.mono_left (points_subset_cover (by simp))) (by omega)
      obtain ⟨hd', tl, heq, hlo', hins⟩ := ih hsep (fun u hu => hw u (by simp [hu])) hdt hnext
      refine ⟨g, hd' :: tl, ?_, rfl, Inserted.cons h hins (by omega)⟩
      rw [← heq]
      cases freeBetween addr size (t :: gaps) <;> rfl

theorem freeGaps_spec (h : Separated gaps) (hs : 0 < size) (hw : ∀ t ∈ gaps, t.hi < wordSize)
    (hend : addr + size < wordSize) (hd : Disjoint (cover gaps) (Set.Ico addr (addr + size))) :
    Inserted gaps addr (addr + size) (freeGaps addr size gaps) := by
  have hadd : add64 addr size = addr + size := add64_eq hend
  have hab : addr < addr + size := by omega
  cases gaps with
  | nil =>
    simp only [freeGaps, hadd]
    exact ⟨Separated.singleton hab, by simp [Span.points]⟩
  | cons g gaps =>
    have hg := h.nonempty g (by simp)
    simp only [freeGaps, hadd]
    split_ifs with htouch hbefore
    · have hpre : prepend g size = ⟨addr, g.hi⟩ := by
        unfold prepend
        rw [← htouch, sub64_eq (by omega) (by omega)]
        congr 1
        omega
      exact hpre ▸ Inserted.prepend h hab htouch
    · exact Inserted.before h hab hbefore
    · have hlo : g.hi ≤ addr :=
        hi_le_of_disjoint hg hab (hd.mono_left (points_subset_cover (by simp))) (by omega)
      obtain ⟨hd', tl, heq, -, hins⟩ := freeBetween_spec h hs hw hend hd hlo
      exact heq ▸ hins

theorem intersects_eq_false {addr2 size2 : ℕ} (hs : 0 < size) (hs2 : 0 < size2)
    (hend : addr + size < wordSize) (hend2 : addr2 + size2 < wordSize) :
    intersects addr size addr2 size2 = some false ↔
      Disjoint (Set.Ico addr (addr + size)) (Set.Ico addr2 (addr2 + size2)) := by
  have hone : ∀ {a : ℕ}, 0 < a → a < wordSize → sub64 a 1 = a - 1 :=
    fun ha haw => sub64_eq ha haw
  unfold intersects
  rw [add64_eq hend, add64_eq hend2]
  dsimp only
  rw [hone (by omega) hend, hone (by omega) hend2, Set.Ico_disjoint_Ico]
  simp only [hs, hs2, guard_true, Option.pure_def, Option.bind_eq_bind, Option.bind_some,
    Option.some.injEq, Bool.or_eq_false_iff, decide_eq_false_iff_not]
  omega

theorem free_spec (h : p.Wf) (hs : 0 < size) (hend : addr + size ≤ p.totalSize)
    (hd : Disjoint (cover p.gaps) (Set.Ico addr (addr + size))) :
    ∃ p', p.free addr size = some p' ∧ Gives p addr size p' := by
  have hword := h.word
  have hvalid : addr ≠ InvalidAddress := by
    unfold InvalidAddress
    omega
  have hnew : ∀ gap ∈ p.gaps, intersects addr size gap.lo (Gap.size gap) = some false := by
    intro g hg
    have hlt := h.separated.nonempty g hg
    have hhi := h.hi_lt hg
    have hsum : g.lo + Gap.size g = g.hi := by
      rw [h.gap_size hg]
      omega
    have hpos : 0 < Gap.size g := by omega
    rw [intersects_eq_false hs hpos (by omega) (by omega), hsum]
    exact (hd.mono_left (points_subset_cover hg)).symm
  have hins := freeGaps_spec h.separated hs (fun t ht => h.hi_lt ht) (by omega) hd
  refine ⟨{ p with gaps := freeGaps addr size p.gaps }, ?_, ?_, rfl, hins.covers⟩
  · simp only [free, guard, if_pos hvalid, if_pos hs, if_pos hnew]
    rfl
  · apply wf_of_cover h hins.separated
    rw [hins.covers]
    refine Set.union_subset h.cover_lt ?_
    intro x hx
    exact hx.2.trans_le hend

end Free

end Partitioner

end Vpux.Memory
