import Vpux.Memory.PartitionerValidated

/-! What the allocation finds: an aligned address whenever a gap has one, as near to the gap's start
or end as alignment allows. -/
namespace Vpux.Memory.Partitioner
open Data

variable {p : Partitioner} {size alignment : ℕ} {dir : Direction} {g : Gap}

/-- An aligned address of the gap with `size` bytes from it to the gap's end. -/
structure Suits (size alignment : ℕ) (g : Gap) (addr : ℕ) : Prop where
  aligned : alignment ∣ addr
  lo : g.lo ≤ addr
  hi : addr + size ≤ g.hi

/-- The suitable address nearest to the gap's start or to its end. -/
structure Nearest (size alignment : ℕ) (dir : Direction) (g : Gap) (addr : ℕ) : Prop where
  suits : Suits size alignment g addr
  nearest : ∀ other, Suits size alignment g other →
    match dir with
    | .Up => addr ≤ other
    | .Down => other ≤ addr

theorem alignValUp_dvd (val align : ℕ) : align ∣ alignValUp val align := Nat.dvd_mul_left _ _

theorem alignValUp_le {val align addr : ℕ} (halign : 0 < align) (h : val + (align - 1) < wordSize)
    (haddr : align ∣ addr) (hval : val ≤ addr) : alignValUp val align ≤ addr := by
  obtain ⟨k, rfl⟩ := haddr
  have hdvd := alignValUp_dvd val align
  obtain ⟨m, hm⟩ := hdvd
  have hbounds := alignValUp_bounds halign h
  rw [hm] at hbounds ⊢
  apply Nat.mul_le_mul_left
  by_contra hlt
  have hstep : align * (k + 1) ≤ align * m := Nat.mul_le_mul_left align (by omega)
  rw [Nat.mul_succ] at hstep
  omega

/-- Nothing in the gap is suitable, or the address is the nearest one. -/
theorem getAddrFromGap_nearest (hlo : g.lo < g.hi) (hinvalid : g.hi < InvalidAddress)
    (ha : 0 < alignment) (hfit : size ≤ Gap.size g → SumsFit size alignment g dir) :
    (getAddrFromGap size alignment dir g = InvalidAddress → ∀ addr, ¬ Suits size alignment g addr) ∧
      (getAddrFromGap size alignment dir g ≠ InvalidAddress →
        Nearest size alignment dir g (getAddrFromGap size alignment dir g)) := by
  have hword : wordSize = InvalidAddress + 1 := rfl
  have hhi : g.hi < wordSize := by omega
  have hsize : Gap.size g = g.hi - g.lo := sub64_eq hlo.le hhi
  unfold getAddrFromGap
  by_cases hlt : Gap.size g < size
  · rw [if_pos hlt]
    constructor
    · intro _ addr hsuits
      have := hsuits.lo
      have := hsuits.hi
      omega
    · intro hne
      exact absurd rfl hne
  · rw [if_neg hlt]
    have hfits := hfit (not_lt.mp hlt)
    cases dir with
    | Up =>
      obtain ⟨hsum, hend⟩ := hfits
      have hbounds := alignValUp_bounds ha hsum
      have hleast : ∀ addr, Suits size alignment g addr → alignValUp g.lo alignment ≤ addr :=
        fun addr hsuits => alignValUp_le ha hsum hsuits.aligned hsuits.lo
      dsimp only
      rw [add64_eq hend]
      by_cases hroom : g.hi < alignValUp g.lo alignment + size
      · rw [if_pos hroom]
        constructor
        · intro _ addr hsuits
          have := hleast addr hsuits
          have := hsuits.hi
          omega
        · intro hne
          exact absurd rfl hne
      · rw [if_neg hroom]
        constructor
        · intro heq
          omega
        · intro _
          exact ⟨⟨alignValUp_dvd _ _, hbounds.1, by omega⟩, hleast⟩
    | Down =>
      obtain ⟨hsum, hend, hstart⟩ := hfits
      have hbounds := alignValUp_bounds ha hsum
      have hdvd := alignValUp_dvd (g.hi - size) alignment
      -- an aligned address that is not below the end minus the size ends the gap exactly
      have hover : ∀ addr, Suits size alignment g addr → g.hi - size ≤ addr →
          addr = g.hi - size ∧ alignValUp (g.hi - size) alignment = addr := by
        intro addr hsuits hge
        have hhi' := hsuits.hi
        have hle := alignValUp_le ha hsum hsuits.aligned hge
        constructor <;> omega
      have hbefore : ∀ addr, Suits size alignment g addr → addr < g.hi - size →
          addr + alignment ≤ alignValUp (g.hi - size) alignment := by
        intro addr hsuits hlt'
        obtain ⟨k, rfl⟩ := hsuits.aligned
        obtain ⟨m, hm⟩ := hdvd
        rw [hm] at hbounds ⊢
        have hkm : k < m := by
          apply Nat.lt_of_mul_lt_mul_left (a := alignment)
          omega
        have hstep : alignment * (k + 1) ≤ alignment * m := Nat.mul_le_mul_left alignment hkm
        rwa [Nat.mul_succ] at hstep
      dsimp only
      rw [sub64_eq (by omega : size ≤ g.hi) hhi, add64_eq hend]
      by_cases hroom : g.hi < alignValUp (g.hi - size) alignment + size
      · rw [if_pos hroom, add64_eq (hstart hroom)]
        have hstep : ∀ addr, Suits size alignment g addr →
            addr + alignment ≤ alignValUp (g.hi - size) alignment := by
          intro addr hsuits
          rcases Nat.lt_or_ge addr (g.hi - size) with hlt' | hge
          · exact hbefore addr hsuits hlt'
          · have := hover addr hsuits hge
            omega
        by_cases hfront : alignValUp (g.hi - size) alignment < g.lo + alignment
        · rw [if_pos hfront]
          constructor
          · intro _ addr hsuits
            have := hstep addr hsuits
            have := hsuits.lo
            omega
          · intro hne
            exact absurd rfl hne
        · rw [if_neg hfront, sub64_eq (by omega) (by omega), add64_eq (by omega),
            if_neg (by omega : ¬ g.hi < alignValUp (g.hi - size) alignment - alignment + size)]
          constructor
          · intro heq
            omega
          · intro _
            refine ⟨⟨Nat.dvd_sub hdvd (dvd_refl _), by omega, by omega⟩, ?_⟩
            intro other hother
            have := hstep other hother
            omega
      · rw [if_neg hroom]
        constructor
        · intro heq
          omega
        · intro _
          refine ⟨⟨hdvd, by omega, by omega⟩, ?_⟩
          intro other hother
          have := hother.hi
          omega

theorem foldl_considerGap_none {gaps : List Gap} {is : List ℕ} {best : Option ℕ × ℕ}
    (hgaps : ∀ g ∈ gaps, Gap.size g < wordSize - 1) (hbest : best.1 = none → best.2 = wordSize - 1)
    (h : (is.foldl (considerGap size alignment dir gaps) best).1 = none) :
    best.1 = none ∧ ∀ i ∈ is, ∀ g, gaps[i]? = some g →
      getAddrFromGap size alignment dir g = InvalidAddress := by
  induction is generalizing best with
  | nil => exact ⟨h, by simp⟩
  | cons j is ih =>
    have hstep : (considerGap size alignment dir gaps best j).1 = none →
        (considerGap size alignment dir gaps best j).2 = wordSize - 1 := by
      unfold considerGap
      split
      · exact hbest
      · split_ifs
        · simp
        · exact hbest
    obtain ⟨hnone, hrest⟩ := ih hstep h
    have hj : best.1 = none ∧ ∀ g, gaps[j]? = some g →
        getAddrFromGap size alignment dir g = InvalidAddress := by
      unfold considerGap at hnone
      split at hnone
      · next hout =>
        exact ⟨hnone, by simp [hout]⟩
      · next g hg =>
        split_ifs at hnone with hsuit
        have hbest2 := hbest hnone
        have hsmall := hgaps g (List.mem_of_getElem? hg)
        refine ⟨hnone, ?_⟩
        intro g' hg'
        obtain rfl : g = g' := by simpa [hg] using hg'
        by_contra hne
        exact hsuit ⟨hne, by omega⟩
    refine ⟨hj.1, ?_⟩
    intro i hi
    rcases List.mem_cons.mp hi with rfl | hi
    · exact hj.2
    · exact hrest i hi

theorem mem_preferredGaps_or {n i : ℕ} (dir : Direction) (hi : i < n) :
    i ∈ preferredGaps dir n ∨ i = lastGap dir n := by
  cases dir with
  | Up =>
    simp only [preferredGaps, lastGap, List.mem_range]
    omega
  | Down =>
    simp only [preferredGaps, lastGap, List.mem_reverse, List.mem_range'_1]
    omega

theorem Validates.size_lt (h : p.Validates) (hg : g ∈ p.gaps) : Gap.size g < wordSize - 1 := by
  obtain ⟨hlo, hhi, hlt⟩ := h.1 g hg
  have hword : wordSize = InvalidAddress + 1 := rfl
  have hsize : Gap.size g = g.hi - g.lo := sub64_eq hlt.le (by omega)
  omega

theorem minGapInd_none (h : p.Validates) (hnone : minGapInd size alignment dir p.gaps = none) :
    preferredGap size alignment dir p.gaps = none ∧
      ∀ g ∈ p.gaps, getAddrFromGap size alignment dir g = InvalidAddress := by
  unfold minGapInd at hnone
  split at hnone
  · simp at hnone
  · next hpreferred =>
    obtain ⟨-, hvisited⟩ := foldl_considerGap_none (fun g hg => h.size_lt hg) (fun _ => rfl)
      hpreferred
    refine ⟨hpreferred, ?_⟩
    intro g hg
    obtain ⟨i, hi, rfl⟩ := List.mem_iff_getElem.mp hg
    rcases mem_preferredGaps_or dir hi with hmem | hlast
    · exact hvisited i hmem _ (List.getElem?_eq_getElem hi)
    · rw [← hlast, List.getElem?_eq_getElem hi] at hnone
      simpa using hnone

theorem Validates.pairwise (h : p.Validates) : p.gaps.Pairwise fun prev g => prev.hi ≤ g.lo := by
  obtain ⟨hlt, hchain⟩ := h
  generalize p.gaps = gaps at hlt hchain ⊢
  induction gaps with
  | nil => exact .nil
  | cons a gaps ih =>
    have htail := ih (fun g hg => hlt g (by simp [hg])) hchain.of_cons
    refine List.Pairwise.cons ?_ htail
    cases gaps with
    | nil => simp
    | cons b gaps =>
      have hab : a.hi ≤ b.lo := (List.isChain_cons_cons.mp hchain).1
      intro g hg
      rcases List.mem_cons.mp hg with rfl | hg
      · exact hab
      · have hb := (hlt b (by simp)).2.2
        have := (List.pairwise_cons.mp htail).1 g hg
        omega

theorem carve_gaps {pre post : List Gap} {lo hi : ℕ} (h : p.Validates)
    (hgaps : p.gaps = pre ++ g :: post) (hlo : g.lo ≤ lo) (hlt : lo < hi) (hhi : hi ≤ g.hi) :
    Validates { p with gaps := pre ++ carve g lo hi ++ post } ∧
      cover (pre ++ carve g lo hi ++ post) = cover p.gaps \ Set.Ico lo hi := by
  have hpair := h.pairwise
  have hword := h.1
  rw [hgaps] at hpair hword
  obtain ⟨hpre, hrest, hcross⟩ := List.pairwise_append.mp hpair
  obtain ⟨hpost, htail⟩ := List.pairwise_cons.mp hrest
  have hg := hword g (by simp)
  have hin : ∀ s ∈ carve g lo hi, g.lo ≤ s.lo ∧ s.hi ≤ g.hi ∧ s.lo < s.hi := by
    intro s hs
    unfold carve at hs
    split_ifs at hs <;> simp at hs <;> grind
  have hcarve : (carve g lo hi).Pairwise fun prev s => prev.hi ≤ s.lo := by
    unfold carve
    split_ifs <;> simp
    omega
  constructor
  · constructor
    · intro s hs
      simp only [List.mem_append] at hs
      rcases hs with (hs | hs) | hs
      · exact hword s (by simp [hs])
      · have := hin s hs
        omega
      · exact hword s (by simp [hs])
    · apply List.Pairwise.isChain
      rw [List.append_assoc]
      apply List.pairwise_append.mpr
      refine ⟨hpre, List.pairwise_append.mpr ⟨hcarve, htail, ?_⟩, ?_⟩
      · intro s hs t ht
        exact (hin s hs).2.1.trans (hpost t ht)
      · intro s hs t ht
        rcases List.mem_append.mp ht with ht | ht
        · exact (hcross s hs g (by simp)).trans (hin t ht).1
        · exact hcross s hs t (by simp [ht])
  · have hcover : cover (carve g lo hi) = g.points \ Set.Ico lo hi := by
      ext x
      unfold carve
      split_ifs <;> simp [cover] <;> omega
    rw [hgaps]
    ext x
    simp only [cover_append, cover_cons, hcover, Set.mem_union, Set.mem_sdiff]
    have hout : x ∈ Set.Ico lo hi → x ∉ cover pre ∧ x ∉ cover post := by
      intro hx
      constructor
      · intro ⟨s, hs, hxs⟩
        have := hcross s hs g (by simp)
        have := hxs.2
        have := hx.1
        omega
      · intro ⟨s, hs, hxs⟩
        have := hpost s hs
        have := hxs.1
        have := hx.2
        omega
    tauto

/-- Complete and tight: no address only if no gap has one; otherwise the nearest one of a gap, and
the range from it leaves that gap. -/
theorem alloc_complete_tight (h : p.Validates) (hs : 0 < size) (ha : 0 < alignment)
    (hfit : p.AllocFits size alignment dir) :
    ∃ p' addr, p.alloc size alignment dir = some (p', addr) ∧
      (addr = InvalidAddress → p' = p ∧ ∀ g ∈ p.gaps, ∀ other, ¬ Suits size alignment g other) ∧
      (addr ≠ InvalidAddress → ∃ pre g post, p.gaps = pre ++ g :: post ∧
        Nearest size alignment dir g addr ∧
        p'.gaps = pre ++ carve g addr (addr + size) ++ post ∧ p'.totalSize = p.totalSize ∧
        p'.Validates ∧ cover p'.gaps = cover p.gaps \ Set.Ico addr (addr + size)) := by
  have hword : wordSize = InvalidAddress + 1 := rfl
  have hnear : ∀ (i : ℕ) (g : Gap), p.gaps[i]? = some g →
      (i ∈ preferredGaps dir p.gaps.length ∨
        preferredGap size alignment dir p.gaps = none ∧ i = lastGap dir p.gaps.length) → _ :=
    fun i g hi hvisit =>
      have hg := h.1 g (List.mem_of_getElem? hi)
      getAddrFromGap_nearest hg.2.2 hg.2.1 ha (fun hsize => hfit i g hi hsize hvisit)
  unfold alloc chooseMinimalGap
  cases hind : minGapInd size alignment dir p.gaps with
  | none =>
    obtain ⟨hpreferred, hinvalid⟩ := minGapInd_none h hind
    refine ⟨p, InvalidAddress, by simp [hs, ha], ?_, fun hne => absurd rfl hne⟩
    intro _
    refine ⟨rfl, ?_⟩
    intro g hg
    obtain ⟨i, hi, rfl⟩ := List.mem_iff_getElem.mp hg
    have hvisit := (mem_preferredGaps_or dir hi).imp_right fun hlast => And.intro hpreferred hlast
    exact (hnear i _ (List.getElem?_eq_getElem hi) hvisit).1 (hinvalid _ hg)
  | some i =>
    obtain ⟨g, hi, hsuit, hvisit⟩ := minGapInd_spec hind
    have hnearest := (hnear i g hi hvisit).2 hsuit
    set addr := getAddrFromGap size alignment dir g with haddr
    obtain ⟨pre, post, hgaps, hlen⟩ := split_at_index hi
    have hg := h.1 g (List.mem_of_getElem? hi)
    have huse : useGap (pre ++ g :: post) pre.length addr size = _ :=
      useGap_eq hnearest.suits.lo hnearest.suits.hi (by omega)
    rw [← hgaps, hlen] at huse
    obtain ⟨hvalid, hcover⟩ := carve_gaps h hgaps hnearest.suits.lo (Nat.lt_add_of_pos_right hs)
      hnearest.suits.hi
    refine ⟨{ p with gaps := pre ++ carve g addr (addr + size) ++ post }, addr, ?_,
      fun heq => absurd heq hsuit, ?_⟩
    · simp [hs, ha, hi, huse, ← haddr]
    · intro _
      exact ⟨pre, g, post, hgaps, hnearest, rfl, rfl, hvalid, hcover⟩

/-- From the end of the smaller gap, although the other one comes first. -/
theorem alloc_complete_tight_sixteen :
    ∃ p' addr, alloc ⟨16, [⟨0, 8⟩, ⟨9, 14⟩]⟩ 2 4 .Down = some (p', addr) ∧
      (addr = InvalidAddress → p' = ⟨16, [⟨0, 8⟩, ⟨9, 14⟩]⟩ ∧
        ∀ g ∈ [(⟨0, 8⟩ : Gap), ⟨9, 14⟩], ∀ other, ¬ Suits 2 4 g other) ∧
      (addr ≠ InvalidAddress → ∃ pre g post, [⟨0, 8⟩, ⟨9, 14⟩] = pre ++ g :: post ∧
        Nearest 2 4 .Down g addr ∧ p'.gaps = pre ++ carve g addr (addr + 2) ++ post ∧
        p'.totalSize = 16 ∧ p'.Validates ∧
        cover p'.gaps = cover [⟨0, 8⟩, ⟨9, 14⟩] \ Set.Ico addr (addr + 2)) := by
  apply alloc_complete_tight (p := ⟨16, [⟨0, 8⟩, ⟨9, 14⟩]⟩) (by decide) (by decide) (by decide)
  intro i g hi _ _
  have hg := List.mem_of_getElem? hi
  simp only [List.mem_cons, List.not_mem_nil, or_false] at hg
  rcases hg with rfl | rfl <;> exact sumsFit_of_total (by decide) (by decide) (by decide)
    (by decide)

end Vpux.Memory.Partitioner
