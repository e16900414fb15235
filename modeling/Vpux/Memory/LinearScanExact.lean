import Vpux.Memory.LinearScanAtomic
import Mathlib.Data.List.Perm.Basic

/-! The ranges of one request. While room is made, candidates are looked at and ranges are
placed, the partitioner's gaps stay the complement of what is allocated. -/
namespace Vpux.Memory.LinearScan
open Data Partitioner
open scoped List

variable {R : Type} [DecidableEq R] {h : Handler R} {order : AllocatedAddrs → AllocatedAddrs}
variable {s s' : Scan R} {al al' : AllocatedAddrs} {ok : Bool} {r : R} {i : ℕ}
variable {allowSpills : Bool} {dir : Direction} {M : Set ℕ} {T : ℕ} {B L L' : List (ℕ × ℕ)}

/-- Address and size of a range. -/
def range (h : Handler R) (s : Scan R) (r : R) : ℕ × ℕ := (s.address r, h.getSize r)

def liveBytes (h : Handler R) (s : Scan R) : List (ℕ × ℕ) := s.liveRanges.map (range h s)

variable {p : Partitioner} {a : ℕ × ℕ}

open List

section Packed

/-- Non-empty disjoint ranges inside the memory. -/
structure Packed (M : Set ℕ) (L : List (ℕ × ℕ)) : Prop where
  nonempty : ∀ a ∈ L, 0 < a.2
  disjoint : L.Pairwise fun a b => Disjoint (bytes a) (bytes b)
  inside : held L ⊆ M

theorem packed_of_exact (he : Exact M ⟨p, L⟩) : Packed M L :=
  ⟨he.nonempty, he.disjoint, he.inside⟩

theorem Packed.perm (hp : Packed M L) (hl : L.Perm L') : Packed M L' where
  nonempty a ha := hp.nonempty a (hl.mem_iff.mpr ha)
  disjoint := (hl.pairwise_iff fun h => h.symm).mp hp.disjoint
  inside := held_perm hl ▸ hp.inside

theorem Packed.tail (hp : Packed M (a :: L)) : Packed M L where
  nonempty b hb := hp.nonempty b (by simp [hb])
  disjoint := (pairwise_cons.mp hp.disjoint).2
  inside := fun _ ⟨b, hb, hx⟩ => hp.inside ⟨b, by simp [hb], hx⟩

theorem Packed.right (hp : Packed M (L ++ L')) : Packed M L' := by
  induction L with
  | nil => exact hp
  | cons a L ih => exact ih hp.tail

theorem Packed.left (hp : Packed M (L ++ L')) : Packed M L :=
  (hp.perm perm_append_comm).right

theorem Packed.head (hp : Packed M (a :: L)) :
    0 < a.2 ∧ bytes a ⊆ M ∧ ∀ b ∈ L, Disjoint (bytes a) (bytes b) :=
  ⟨hp.nonempty a (by simp), fun _ hx => hp.inside ⟨a, by simp, hx⟩,
    (pairwise_cons.mp hp.disjoint).1⟩

theorem packed_cons (hp : Packed M L) (ha : 0 < a.2) (hin : bytes a ⊆ M)
    (hd : ∀ b ∈ L, Disjoint (bytes a) (bytes b)) : Packed M (a :: L) where
  nonempty b hb := by
    rcases mem_cons.mp hb with rfl | hb
    · exact ha
    · exact hp.nonempty b hb
  disjoint := pairwise_cons.mpr ⟨hd, hp.disjoint⟩
  inside := by
    rw [held_cons]
    exact Set.union_subset hin hp.inside

theorem allocFixedValidated_packed (he : Exact M ⟨p, L⟩) (ht : p.totalSize < InvalidAddress)
    (hp : Packed M (a :: L)) :
    ∃ p', p.allocFixedValidated a.1 a.2 = some p' ∧ p'.totalSize = p.totalSize ∧
      Exact M ⟨p', a :: L⟩ := by
  obtain ⟨hs, hin, hd⟩ := hp.head
  have hfree : bytes (a.1, a.2) ⊆ M \ held L := by
    intro x hx
    refine ⟨hin hx, ?_⟩
    intro ⟨b, hb, hxb⟩
    exact Set.disjoint_left.mp (hd b hb) hx hxb
  obtain ⟨g, hg, hlo, hhi⟩ := he.exists_gap hs hfree
  obtain ⟨p', halloc, htakes⟩ := allocFixedValidated_spec ht he.wf hs hg hlo hhi
  exact ⟨p', halloc, htakes.total, he.takes hs htakes⟩

theorem freeValidated_exact (he : Exact M ⟨p, a :: L⟩) (ht : p.totalSize < InvalidAddress) :
    ∃ p', p.freeValidated a.1 a.2 = some p' ∧ p'.totalSize = p.totalSize ∧ Exact M ⟨p', L⟩ := by
  obtain ⟨p', hfree, htotal, he'⟩ := Exact.gives he
  exact ⟨p', freeValidated_eq he.wf ht hfree he'.wf htotal, htotal, he'⟩

end Packed

/-- Exactly the ranges `B` and the live ranges are allocated. -/
structure Holds (T : ℕ) (h : Handler R) (B : List (ℕ × ℕ)) (s : Scan R) : Prop where
  exact : Exact (Set.Iio T) ⟨s.par, B ++ liveBytes h s⟩
  size : s.par.totalSize = T
  word : T < InvalidAddress

omit [DecidableEq R] in
theorem Holds.total (hs : Holds T h B s) : s.par.totalSize < InvalidAddress := hs.size ▸ hs.word

variable {cs : List R}

section Candidates

omit [DecidableEq R] in
theorem removeAt_perm {l : List R} {it : ℕ} {c : R} (hget : l[it]? = some c) :
    l.Perm (c :: removeAt l it) := by
  rcases eq_nil_or_concat' l with rfl | ⟨front, back, rfl⟩
  · simp at hget
  · unfold removeAt
    rw [getLast?_concat]
    obtain ⟨hlt, rfl⟩ := List.getElem?_eq_some_iff.mp hget
    rw [length_append, length_singleton] at hlt
    by_cases hfront : it < front.length
    · have hset : (front ++ [back]).set it back = front.set it back ++ [back] :=
        set_append_left it back hfront
      simp only [hset, dropLast_concat, getElem_append_left hfront]
      have hfront' := getElem_cons_eraseIdx_perm hfront
      have hswap := set_perm_cons_eraseIdx hfront back
      calc front ++ [back] ~ back :: front := perm_append_singleton _ _
        _ ~ back :: front[it] :: front.eraseIdx it := hfront'.symm.cons _
        _ ~ front[it] :: back :: front.eraseIdx it := .swap _ _ _
        _ ~ front[it] :: front.set it back := hswap.symm.cons _
    · obtain rfl : it = front.length := by omega
      simp [perm_append_singleton]

omit [DecidableEq R] in
theorem getSpillCandidate_holds (hs : Holds T h B s) (hne : s.liveRanges ≠ []) :
    ∃ c s', getSpillCandidate h s = some (some c, s') ∧ Holds T h B s' ∧
      s'.address = s.address ∧ s'.par.totalSize = s.par.totalSize ∧
      s.liveRanges.Perm (c :: s'.liveRanges) := by
  have hlt := minElement_lt (h := h) hne
  have hget := getElem?_eq_getElem hlt
  have hperm := removeAt_perm hget
  have hbytes : (B ++ liveBytes h s).Perm (range h s s.liveRanges[minElement h s.liveRanges] ::
      (B ++ (removeAt s.liveRanges (minElement h s.liveRanges)).map (range h s))) :=
    ((hperm.map (range h s)).append_left B).trans perm_middle
  obtain ⟨p, hfree, htotal, he⟩ := freeValidated_exact (hs.exact.perm hbytes) hs.total
  refine ⟨_, { s with par := p, liveRanges := removeAt s.liveRanges (minElement h s.liveRanges) },
    ?_, ⟨he, htotal.trans hs.size, hs.word⟩, rfl, htotal, hperm⟩
  unfold range at hfree
  simp only [getSpillCandidate, hget, hfree, Option.bind_eq_bind, Option.bind_some]
  rfl

omit [DecidableEq R] in
theorem getSpillCandidate_nil (hne : s.liveRanges = []) : getSpillCandidate h s =
    some (none, s) := by
  simp [getSpillCandidate, hne]

/-- The candidates still fit where they were. -/
def Spare (T : ℕ) (h : Handler R) (B : List (ℕ × ℕ)) (s : Scan R) (cs : List R) : Prop :=
  Packed (Set.Iio T) (cs.map (range h s) ++ (B ++ liveBytes h s))

omit [DecidableEq R] in
theorem Spare.push {c : R} (hsp : Spare T h B s cs) (haddr : s'.address = s.address)
    (hperm : s.liveRanges.Perm (c :: s'.liveRanges)) : Spare T h B s' (cs ++ [c]) := by
  unfold Spare at *
  have hrange : range h s' = range h s := by
    funext r
    simp [range, haddr]
  rw [liveBytes, hrange]
  refine hsp.perm ?_
  have hlive := hperm.map (range h s)
  rw [map_append, append_assoc]
  refine List.Perm.append_left _ ?_
  calc B ++ liveBytes h s ~ B ++ (range h s c :: s'.liveRanges.map (range h s)) :=
    hlive.append_left B
    _ ~ range h s c :: (B ++ s'.liveRanges.map (range h s)) := perm_middle

omit [DecidableEq R] in
theorem makeRoom_holds (allowSpills : Bool) {A : Type}
    {place : Scan R → Option (Option (Scan R × A))} {Q : Scan R → List R → A → Prop} {n : ℕ}
    (a₀ : R → ℕ) (ls : List R)
    (hplace : ∀ {s cs}, Holds T h B s → Spare T h B s cs → s.address = a₀ →
      (∀ r ∈ s.liveRanges ++ cs, r ∈ ls) →
      ∃ o, place s = some o ∧ ∀ s' a, o = some (s', a) → Q s' cs a) (hs : Holds T h B s)
    (hsp : Spare T h B s cs) (haddr : s.address = a₀) (hls : ∀ r ∈ s.liveRanges ++ cs, r ∈ ls)
    (hn : s.liveRanges.length < n) :
    ∃ res s' cs', makeRoom h place allowSpills n s cs = some (res, s', cs') ∧
      (∀ a, res = some a → Q s' cs' a) ∧ (allowSpills = false → cs' = cs) ∧
      (res = none → Holds T h B s' ∧ s'.address = a₀ ∧ ∀ r ∈ s'.liveRanges, r ∈ ls) := by
  induction n generalizing s cs with
  | zero => omega
  | succ n ih =>
    have hlive : ∀ r ∈ s.liveRanges, r ∈ ls := fun r hr => hls r (by simp [hr])
    obtain ⟨o, ho, hq⟩ := hplace hs hsp haddr hls
    cases o with
    | some sa =>
      obtain ⟨s₁, a⟩ := sa
      refine ⟨some a, s₁, cs, by simp [makeRoom, ho], ?_, fun _ => rfl, by simp⟩
      intro b hb
      exact Option.some.inj hb ▸ hq s₁ a rfl
    | none =>
      cases allowSpills with
      | false =>
        exact ⟨none, s, cs, by simp [makeRoom, ho], by simp, fun _ => rfl, fun _ =>
          ⟨hs, haddr, hlive⟩⟩
      | true =>
        by_cases hne : s.liveRanges = []
        · refine ⟨none, s, cs, ?_, by simp, by simp, fun _ => ⟨hs, haddr, hlive⟩⟩
          simp [makeRoom, ho, getSpillCandidate_nil hne]
        · obtain ⟨c, s₁, hcand, hs₁, haddr₁, -, hperm⟩ := getSpillCandidate_holds hs hne
          have hlen := hperm.length_eq
          rw [length_cons] at hlen
          have hls₁ : ∀ r ∈ s₁.liveRanges ++ (cs ++ [c]), r ∈ ls := by
            intro r hr
            apply hls r
            simp only [mem_append, hperm.mem_iff, mem_cons, not_mem_nil,
              or_false] at hr ⊢
            tauto
          obtain ⟨res, s', cs', hroom, hq', -, hnone⟩ := ih hs₁ (hsp.push haddr₁ hperm)
            (haddr₁.trans haddr) hls₁ (by omega)
          refine ⟨res, s', cs', ?_, hq', by simp, hnone⟩
          simp [makeRoom, ho, hcand, hroom]

end Candidates

variable {N : ℕ × ℕ}

section Spill

omit [DecidableEq R] in
theorem range_lt (hs : Holds T h B s) (ha : a ∈ B ++ liveBytes h s) :
    0 < a.2 ∧ a.1 + a.2 < wordSize := by
  have hvalid := exact_valid hs.exact ha
  have hword := hs.exact.wf.word
  dsimp only at hword
  exact ⟨hs.exact.nonempty a ha, by omega⟩

omit [DecidableEq R] in
theorem canAllocFixed_spec {addr size : ℕ} {rs : List R} (hsize : 0 < size)
    (hend : addr + size < wordSize)
    (hrs : ∀ r ∈ rs, 0 < (range h s r).2 ∧ (range h s r).1 + (range h s r).2 < wordSize) :
    ∃ b, canAllocFixed h addr size s rs = some b ∧
      (b = true ↔ ∀ r ∈ rs, Disjoint (bytes (addr, size)) (bytes (range h s r))) := by
  induction rs with
  | nil => exact ⟨true, rfl, by simp⟩
  | cons r rs ih =>
    obtain ⟨hpos, hlt⟩ := hrs r (by simp)
    obtain ⟨b, hb, hiff⟩ := ih fun q hq => hrs q (by simp [hq])
    have htest := intersects_eq_false hsize hpos hend hlt
    unfold range at htest
    cases hcase : Partitioner.intersects addr size (s.address r) (h.getSize r) with
    | none =>
      have hne : h.getSize r ≠ 0 := Nat.pos_iff_ne_zero.mp hpos
      simp [Partitioner.intersects, hsize, hne] at hcase
    | some hit =>
      cases hit with
      | true =>
        refine ⟨false, by simp [canAllocFixed, hcase], ?_⟩
        simp only [Bool.false_eq_true, false_iff, not_forall]
        refine ⟨r, by simp, fun hd => ?_⟩
        rw [htest.mpr hd] at hcase
        simp at hcase
      | false =>
        refine ⟨b, by simp [canAllocFixed, hcase, hb], ?_⟩
        rw [hiff, forall_mem_cons]
        exact ⟨fun hall => ⟨htest.mp hcase, hall⟩, fun hall => hall.2⟩

/-- What is known while the candidates are looked at: `N` is the new range, `Y` is `N` when it is
allocated already. -/
structure Spilling (T : ℕ) (h : Handler R) (B Y : List (ℕ × ℕ)) (N : ℕ × ℕ) (s : Scan R)
    (cs : List R) : Prop where
  exact : Exact (Set.Iio T) ⟨s.par, Y ++ (B ++ liveBytes h s)⟩
  size : s.par.totalSize = T
  word : T < InvalidAddress
  spare : Spare T h B s cs
  new : ∀ y ∈ Y, y = N
  apart : ∀ b ∈ B ++ liveBytes h s, Disjoint (bytes N) (bytes b)

variable {Y : List (ℕ × ℕ)}

theorem Spilling.refix {c : R} (hs : Spilling T h B Y N s (c :: cs))
    (hd : Disjoint (bytes (range h s c)) (bytes N)) :
    ∃ p, s.par.allocFixedValidated (s.address c) (h.getSize c) = some p ∧
      Spilling T h B Y N { allocated { s with par := p } c (s.address c) with
        liveRanges := s.liveRanges ++ [c] } cs := by
  have hspare : Packed (Set.Iio T) (range h s c :: (cs.map (range h s) ++ (B ++ liveBytes h s))) :=
    hs.spare
  obtain ⟨hpos, hin, hapart⟩ := hspare.head
  have hpacked : Packed (Set.Iio T) (range h s c :: (Y ++ (B ++ liveBytes h s))) := by
    refine packed_cons (packed_of_exact hs.exact) hpos hin ?_
    intro b hb
    rcases mem_append.mp hb with hb | hb
    · exact hs.new b hb ▸ hd
    · exact hapart b (by simp [mem_append.mp hb])
  obtain ⟨p, halloc, htotal, he⟩ := allocFixedValidated_packed hs.exact (hs.size ▸ hs.word) hpacked
  refine ⟨p, halloc, ?_⟩
  have hrange : range h { allocated { s with par := p } c (s.address c) with
      liveRanges := s.liveRanges ++ [c] } = range h s := by
    funext r
    simp [range, allocated]
  have hlive : liveBytes h { allocated { s with par := p } c (s.address c) with
      liveRanges := s.liveRanges ++ [c] } = liveBytes h s ++ [range h s c] := by
    rw [liveBytes, hrange]
    simp [liveBytes]
  have hmove : ∀ X : List (ℕ × ℕ), range h s c :: (X ++ (B ++ liveBytes h s)) ~
      X ++ (B ++ (liveBytes h s ++ [range h s c])) := by
    intro X
    simp only [← append_assoc]
    exact (perm_append_singleton _ _).symm
  refine ⟨?_, htotal.trans hs.size, hs.word, ?_, hs.new, ?_⟩
  · rw [hlive]
    exact he.perm (hmove Y)
  · unfold Spare
    rw [hrange, hlive]
    exact hspare.perm (hmove _)
  · rw [hlive]
    intro b hb
    rw [← append_assoc] at hb
    rcases mem_append.mp hb with hb | hb
    · exact hs.apart b hb
    · exact mem_singleton.mp hb ▸ hd.symm

omit [DecidableEq R] in
theorem Spilling.drop {c : R} (hs : Spilling T h B Y N s (c :: cs)) (hpar : s'.par = s.par)
    (hlive : s'.liveRanges = s.liveRanges) (haddr : s'.address = s.address) :
    Spilling T h B Y N s' cs := by
  have hrange : range h s' = range h s := by
    funext r
    simp [range, haddr]
  have hbytes : liveBytes h s' = liveBytes h s := by rw [liveBytes, hrange, hlive, liveBytes]
  have hspare : Packed (Set.Iio T) (range h s c :: (cs.map (range h s) ++ (B ++ liveBytes h s))) :=
    hs.spare
  refine ⟨?_, hpar ▸ hs.size, hs.word, ?_, hs.new, ?_⟩
  · rw [hpar, hbytes]
    exact hs.exact
  · unfold Spare
    rw [hrange, hbytes]
    exact hspare.tail
  · rw [hbytes]
    exact hs.apart

theorem performActualSpill_spec {cs ls : List R} (hN : 0 < N.2) (hNlt : N.1 + N.2 < wordSize)
    (hs : Spilling T h B Y N s cs) (hls : ∀ r ∈ s.liveRanges ++ cs, r ∈ ls) :
    ∃ ok s', performActualSpill h N.1 N.2 cs s = some (ok, s') ∧ Spilling T h B Y N s' [] ∧
      s'.address = s.address ∧ (∀ r ∈ s'.liveRanges, r ∈ ls) ∧
      ((∀ told r, h.spilled told r = true) → ok = true) := by
  induction cs generalizing s with
  | nil => exact ⟨true, s, rfl, hs, rfl, fun r hr => hls r (by simp [hr]), fun _ => rfl⟩
  | cons c cs ih =>
    have hspare :
        Packed (Set.Iio T) (range h s c :: (cs.map (range h s) ++ (B ++ liveBytes h s))) := hs.spare
    obtain ⟨hpos, hin, -⟩ := hspare.head
    have hclt : s.address c + h.getSize c < wordSize := by
      have hlast : s.address c + h.getSize c - 1 < T := by
        apply hin
        simp only [range, bytes, Set.mem_Ico]
        dsimp only [range] at hpos
        omega
      have hword := hs.word
      have hle : InvalidAddress < wordSize := by decide
      omega
    have htest := intersects_eq_false (hpos : 0 < h.getSize c) hN hclt hNlt
    cases hcase : Partitioner.intersects (s.address c) (h.getSize c) N.1 N.2 with
    | none =>
      have hne : h.getSize c ≠ 0 := Nat.pos_iff_ne_zero.mp hpos
      have hne' : N.2 ≠ 0 := Nat.pos_iff_ne_zero.mp hN
      simp [Partitioner.intersects, hne, hne'] at hcase
    | some hit =>
      cases hit with
      | true =>
        cases hspilled : h.spilled s.told c with
        | false =>
          refine ⟨false, (spilled h s c).2, ?_, ?_, rfl, fun r hr =>
            hls r (by simp_all [spilled]), ?_⟩
          · simp [performActualSpill, hcase, spilled, hspilled]
          · have hdrop : Spilling T h B Y N (spilled h s c).2 cs := hs.drop rfl rfl rfl
            have hrest : Spare T h B (spilled h s c).2 [] := Packed.right hdrop.spare
            exact ⟨hdrop.exact, hdrop.size, hdrop.word, hrest, hdrop.new, hdrop.apart⟩
          · intro hall
            simp [hall] at hspilled
        | true =>
          have hdrop : Spilling T h B Y N (freed (spilled h s c).2 c) cs := hs.drop rfl rfl rfl
          obtain ⟨ok, s', hrest, hres⟩ := ih hdrop
            (fun r hr => hls r (by simp_all [spilled, freed]; tauto))
          refine ⟨ok, s', ?_, hres⟩
          simpa [performActualSpill, hcase, spilled, hspilled] using hrest
      | false =>
        obtain ⟨p, halloc, hrefix⟩ := hs.refix (htest.mp hcase)
        obtain ⟨ok, s', hrest, hsp, haddr, hres⟩ := ih hrefix
          (fun r hr => hls r (by simp_all [allocated]))
        refine ⟨ok, s', ?_, hsp, ?_, hres⟩
        · simp only [performActualSpill, hcase, halloc, Option.bind_eq_bind, Option.bind_some,
            Bool.false_eq_true, if_false]
          exact hrest
        · rw [haddr]
          simp [allocated]

end Spill

section Step

omit [DecidableEq R] in
theorem freeOrder_total {rest : List (ℕ × ℕ)} (he : Exact M ⟨p, ranges al ++ rest⟩)
    (ht : p.totalSize < InvalidAddress) :
    ∃ p', al.foldlM (fun (par : Partitioner) a =>
      if a.2.1 = InvalidAddress then some par else par.freeValidated a.2.1 a.2.2) p = some p' ∧
      p'.totalSize = p.totalSize := by
  induction al generalizing p with
  | nil => exact ⟨p, rfl, rfl⟩
  | cons a al ih =>
    have hvalid := (exact_valid he (a := a.2) (by simp [ranges])).2
    obtain ⟨p₁, hfree, htotal, he₁⟩ := freeValidated_exact (a := a.2) he ht
    obtain ⟨p', hfold, htotal'⟩ := ih he₁ (htotal ▸ ht)
    refine ⟨p', ?_, htotal'.trans htotal⟩
    simp [hvalid, hfree, hfold]

omit [DecidableEq R] in
theorem rollback_holds (ho : ∀ l, (order l).Perm l) (hs : Holds T h (ranges al ++ B) s) :
    ∃ s', rollback order al s = some s' ∧ Holds T h B s' ∧ s'.address = s.address ∧
      s'.liveRanges = s.liveRanges := by
  have he : Exact (Set.Iio T) ⟨s.par, ranges (order al) ++ (B ++ liveBytes h s)⟩ := by
    refine hs.exact.perm ?_
    rw [append_assoc]
    exact (ranges_perm (ho al)).symm.append_right _
  obtain ⟨p, hfold, htotal⟩ := freeOrder_total he hs.total
  refine ⟨{ s with par := p }, ?_, ⟨freeOrder_exact he hfold, htotal.trans hs.size, hs.word⟩, rfl,
    rfl⟩
  simp [rollback, hfold]

/-- What a range of a request comes to: the call fails with nothing of the request left, or the
range is taken. -/
structure Served (T : ℕ) (h : Handler R) (reserved : List (ℕ × ℕ)) (ls : List R)
    (s s' : Scan R) (al' : AllocatedAddrs) (ok : Bool) : Prop where
  address : s'.address = s.address
  live : ∀ r ∈ s'.liveRanges, r ∈ ls
  failed : ok = false → Holds T h reserved s'
  taken : ok = true → Holds T h (ranges al' ++ reserved) s'

variable {reserved : List (ℕ × ℕ)} {ls : List R}

omit [DecidableEq R] in
theorem served_failed (ho : ∀ l, (order l).Perm l) {s₁ : Scan R}
    (hs : Holds T h (ranges al ++ reserved) s₁) (haddr : s₁.address = s.address)
    (hls : ∀ r ∈ s₁.liveRanges, r ∈ ls) :
    ∃ s', rollback order al s₁ = some s' ∧ Served T h reserved ls s s' al false := by
  obtain ⟨s', hback, hs', haddr', hlive⟩ := rollback_holds ho hs
  exact ⟨s', hback, haddr'.trans haddr, hlive ▸ hls, fun _ => hs', by simp⟩

omit [DecidableEq R] in
theorem spare_nil (hs : Holds T h B s) : Spare T h B s [] := packed_of_exact hs.exact

omit [DecidableEq R] in
theorem placePlain_holds {size alignment : ℕ} (dir : Direction) (hsize : 0 < size)
    (halign : 0 < alignment) (hfit : T + alignment ≤ wordSize) (hs : Holds T h B s)
    (hsp : Spare T h B s cs) :
    ∃ o, placePlain size alignment dir s = some o ∧ ∀ s' addr, o = some (s', addr) →
      Spilling T h B [(addr, size)] (addr, size) s' cs ∧ addr + size < wordSize ∧
        s'.address = s.address ∧ s'.liveRanges = s.liveRanges := by
  obtain ⟨p, addr, halloc, hres⟩ := allocValidated_spec hs.total dir hs.exact.wf hsize halign
    (hs.size ▸ hfit)
  rcases hres with ⟨rfl, rfl⟩ | ⟨hvalid, htakes⟩
  · exact ⟨none, by simp [placePlain, halloc], by simp⟩
  · refine ⟨some ({ s with par := p }, addr), by simp [placePlain, halloc, hvalid], ?_⟩
    intro s' addr' heq
    obtain ⟨rfl, rfl⟩ := Prod.mk.inj (Option.some.inj heq)
    have he := hs.exact.takes hsize htakes
    have hin := exact_valid he (a := (addr, size)) (by simp)
    have hword := he.wf.word
    refine ⟨⟨he, htakes.total.trans hs.size, hs.word, hsp, by simp, ?_⟩, ?_, rfl, rfl⟩
    · exact (pairwise_cons.mp he.disjoint).1
    · dsimp only at hin hword
      omega

theorem allocPlainRange_holds (i : ℕ) (dir : Direction) (ho : ∀ l, (order l).Perm l)
    (hs : Holds T h (ranges al ++ reserved) s) (hls : ∀ r ∈ s.liveRanges, r ∈ ls)
    (hsize : 0 < h.getSize r) (halign : 0 < h.getAlignment r)
    (hfit : T + h.getAlignment r ≤ wordSize)
    (hgranted : allowSpills = false ∨ ∀ told r, h.spilled told r = true) :
    ∃ ok s' al', allocPlainRange h order r i allowSpills dir s al = some (ok, s', al') ∧
      Served T h reserved ls s s' al' ok ∧
      (ok = true → ∃ addr, al' = (i, addr, h.getSize r) :: al) := by
  have hplace : ∀ {s₁ cs}, Holds T h (ranges al ++ reserved) s₁ →
      Spare T h (ranges al ++ reserved) s₁ cs → s₁.address = s.address →
      (∀ r ∈ s₁.liveRanges ++ cs, r ∈ ls) →
      ∃ o, placePlain (h.getSize r) (h.getAlignment r) dir s₁ = some o ∧
        ∀ s' addr, o = some (s', addr) →
          (Spilling T h (ranges al ++ reserved) [(addr, h.getSize r)] (addr, h.getSize r) s' cs ∧
            addr + h.getSize r < wordSize ∧ s'.address = s.address ∧
            ∀ r ∈ s'.liveRanges ++ cs, r ∈ ls) := by
    intro s₁ cs hs₁ hsp haddr hls₁
    obtain ⟨o, hplace, hpost⟩ := placePlain_holds dir hsize halign hfit hs₁ hsp
    refine ⟨o, hplace, ?_⟩
    intro s' addr heq
    obtain ⟨hsp', hlt, haddr', hlive⟩ := hpost s' addr heq
    exact ⟨hsp', hlt, haddr'.trans haddr, hlive ▸ hls₁⟩
  obtain ⟨res, s₁, cs, hroom, hsome, hcs, hnone⟩ :=
    makeRoom_holds allowSpills s.address ls hplace hs
    (spare_nil hs) rfl (by simpa using hls) (Nat.lt_succ_self s.liveRanges.length)
  cases res with
  | none =>
    obtain ⟨hs₁, haddr₁, hls₁⟩ := hnone rfl
    obtain ⟨s', hback, hserved⟩ := served_failed ho hs₁ haddr₁ hls₁
    exact ⟨false, s', al, by simp [allocPlainRange, hroom, hback], hserved, by simp⟩
  | some addr =>
    obtain ⟨hsp, hlt, haddr₁, hls₁⟩ := hsome addr rfl
    obtain ⟨ok, s₂, hspill, hsp₂, haddr₂, hls₂, hok⟩ := performActualSpill_spec hsize hlt hsp hls₁
    have htrue : ok = true := by
      rcases hgranted with hoff | hall
      · have hnil := hcs hoff
        subst hnil
        simp only [performActualSpill, Option.some.injEq, Prod.mk.injEq] at hspill
        exact hspill.1.symm
      · exact hok hall
    subst htrue
    refine ⟨true, s₂, (i, addr, h.getSize r) :: al, ?_, ⟨haddr₂.trans haddr₁, hls₂, by simp, ?_⟩,
      fun _ => ⟨addr, rfl⟩⟩
    · simp [allocPlainRange, hroom, hspill]
    · exact fun _ => ⟨hsp₂.exact, hsp₂.size, hsp₂.word⟩

theorem packed_le (hN : Packed (Set.Iio T) (N :: L)) : N.1 + N.2 ≤ T := by
  obtain ⟨hsize, hin, -⟩ := hN.head
  have hlast : N.1 + N.2 - 1 < T := by
    apply hin
    simp only [bytes, Set.mem_Ico]
    omega
  omega

omit [DecidableEq R] in
theorem placeFixed_holds (hN : Packed (Set.Iio T) (N :: B)) (hs : Holds T h B s)
    (hsp : Spare T h B s cs) :
    ∃ o, placeFixed h N.1 N.2 s = some o ∧ ∀ s' u, o = some (s', u) →
      s' = s ∧ Spilling T h B [] N s' cs := by
  obtain ⟨hsize, -, hapart⟩ := hN.head
  have hle := packed_le hN
  have hword : T < wordSize := hs.word.trans_le (Nat.sub_le _ _)
  have hlive : ∀ r ∈ s.liveRanges,
      0 < (range h s r).2 ∧ (range h s r).1 + (range h s r).2 < wordSize := by
    intro r hr
    apply range_lt hs
    simp only [liveBytes, mem_append, mem_map]
    exact Or.inr ⟨r, hr, rfl⟩
  obtain ⟨b, hb, hiff⟩ := canAllocFixed_spec hsize (hle.trans_lt hword) hlive
  cases b with
  | false => exact ⟨none, by simp [placeFixed, hb], by simp⟩
  | true =>
    refine ⟨some (s, ()), by simp [placeFixed, hb], ?_⟩
    intro s' u heq
    obtain ⟨rfl, -⟩ := Prod.mk.inj (Option.some.inj heq)
    refine ⟨rfl, hs.exact, hs.size, hs.word, hsp, by simp, ?_⟩
    intro a ha
    rcases mem_append.mp ha with ha | ha
    · exact hapart a ha
    · obtain ⟨r, hr, rfl⟩ := mem_map.mp ha
      exact (hiff.mp rfl) r hr

/-- A fixed range apart from the reserved memory and the ranges before it in the request. -/
theorem allocFixedRange_holds (i : ℕ) (allowSpills : Bool) (ho : ∀ l, (order l).Perm l)
    (hs : Holds T h (ranges al ++ reserved) s) (hls : ∀ r ∈ s.liveRanges, r ∈ ls)
    (hN : Packed (Set.Iio T) (range h s r :: (ranges al ++ reserved))) :
    ∃ ok s' al', allocFixedRange h order r i allowSpills s al = some (ok, s', al') ∧
      Served T h reserved ls s s' al' ok ∧ (ok = true → al' = (i, range h s r) :: al) := by
  have hle := packed_le hN
  obtain ⟨hsize, hin, -⟩ := hN.head
  have hvalid : s.address r ≠ InvalidAddress := by
    have hword := hs.word
    dsimp only [range] at hle hsize
    omega
  have hplace : ∀ {s₁ cs}, Holds T h (ranges al ++ reserved) s₁ →
      Spare T h (ranges al ++ reserved) s₁ cs → s₁.address = s.address →
      (∀ r ∈ s₁.liveRanges ++ cs, r ∈ ls) →
      ∃ o, placeFixed h (s.address r) (h.getSize r) s₁ = some o ∧ ∀ s' u, o = some (s', u) →
        (Spilling T h (ranges al ++ reserved) [] (range h s r) s' cs ∧ s'.address = s.address ∧
          ∀ r ∈ s'.liveRanges ++ cs, r ∈ ls) := by
    intro s₁ cs hs₁ hsp haddr hls₁
    obtain ⟨o, hplace, hpost⟩ := placeFixed_holds hN hs₁ hsp
    refine ⟨o, hplace, ?_⟩
    intro s' u heq
    obtain ⟨rfl, hsp'⟩ := hpost s' u heq
    exact ⟨hsp', haddr, hls₁⟩
  obtain ⟨res, s₁, cs, hroom, hsome, hcs, hnone⟩ :=
    makeRoom_holds allowSpills s.address ls hplace hs
    (spare_nil hs) rfl (by simpa using hls) (Nat.lt_succ_self s.liveRanges.length)
  cases res with
  | none =>
    obtain ⟨hs₁, haddr₁, hls₁⟩ := hnone rfl
    obtain ⟨s', hback, hserved⟩ := served_failed ho hs₁ haddr₁ hls₁
    exact ⟨false, s', al, by simp [allocFixedRange, hvalid, hroom, hback], hserved, by simp⟩
  | some u =>
    obtain ⟨hsp, haddr₁, hls₁⟩ := hsome u rfl
    have hword : T < wordSize := hs.word.trans_le (Nat.sub_le _ _)
    obtain ⟨ok, s₂, hspill, hsp₂, haddr₂, hls₂, -⟩ :=
      performActualSpill_spec hsize (hle.trans_lt hword) hsp hls₁
    have hspill' : performActualSpill h (s.address r) (h.getSize r) cs s₁ = some (ok, s₂) := hspill
    have hs₂ : Holds T h (ranges al ++ reserved) s₂ := ⟨hsp₂.exact, hsp₂.size, hsp₂.word⟩
    cases ok with
    | false =>
      obtain ⟨s', hback, hserved⟩ := served_failed ho hs₂ (haddr₂.trans haddr₁) hls₂
      refine ⟨false, s', al, ?_, hserved, by simp⟩
      simp [allocFixedRange, hvalid, hroom, hspill', hback]
    | true =>
      have hpacked : Packed (Set.Iio T)
          (range h s r :: (ranges al ++ reserved ++ liveBytes h s₂)) :=
        packed_cons (packed_of_exact hs₂.exact) hsize hin hsp₂.apart
      obtain ⟨p, halloc, htotal, he⟩ := allocFixedValidated_packed hs₂.exact hs₂.total hpacked
      refine ⟨true, { s₂ with par := p }, (i, range h s r) :: al, ?_,
        ⟨haddr₂.trans haddr₁, hls₂, by simp, fun _ => ⟨he, htotal.trans hs₂.size, hs.word⟩⟩,
        fun _ => rfl⟩
      have halloc' : s₂.par.allocFixedValidated (s.address r) (h.getSize r) = some p := halloc
      simp [allocFixedRange, hvalid, hroom, hspill', halloc', range]

end Step

section Request

/-- The fixed ranges of a request lie in the memory, apart from what is in use and from one
another, up to the first one that a live range blocks when there are no spills. -/
def FixedFits (T : ℕ) (h : Handler R) (s : Scan R) (allowSpills : Bool) :
    List R → List (ℕ × ℕ) → Prop
  | [], _ => True
  | r :: rs, used =>
    (allowSpills = false ∧ s.address r ≠ InvalidAddress ∧
      canAllocFixed h (s.address r) (h.getSize r) s s.liveRanges = some false) ∨
    (s.address r + h.getSize r ≤ T ∧ (∀ b ∈ used, Disjoint (bytes (range h s r)) (bytes b)) ∧
      FixedFits T h s allowSpills rs (range h s r :: used))

/-- Position and size of the new allocations, and of the ranges they are for. -/
def keys (al : AllocatedAddrs) : List (ℕ × ℕ) := al.map fun a => (a.1, a.2.2)

def wanted (h : Handler R) (rs : List (R × ℕ)) : List (ℕ × ℕ) := rs.map fun r =>
    (r.2, h.getSize r.1)

/-- A pass over ranges of a request that all get memory or fail the request. -/
structure Passed (T : ℕ) (h : Handler R) (reserved : List (ℕ × ℕ)) (ls : List R) (s s' : Scan R)
    (al al' : AllocatedAddrs) (rs : List (R × ℕ)) (ok : Bool) : Prop where
  served : Served T h reserved ls s s' al' ok
  keys : ok = true → keys al' ~ wanted h rs ++ keys al

variable {reserved : List (ℕ × ℕ)} {ls : List R} {rs : List (R × ℕ)}

omit [DecidableEq R] in
theorem Passed.nil (hs : Holds T h (ranges al ++ reserved) s) (hls : ∀ r ∈ s.liveRanges, r ∈ ls) :
    Passed T h reserved ls s s al al [] true where
  served := ⟨rfl, hls, by simp, fun _ => hs⟩
  keys _ := .refl _

omit [DecidableEq R] in
theorem Passed.cons {s₁ : Scan R} {al₁ : AllocatedAddrs} {a : R × ℕ}
    (hfirst : Served T h reserved ls s s₁ al₁ true) (hal : al₁ = (a.2, N) :: al)
    (hN : N.2 = h.getSize a.1) (hrest : Passed T h reserved ls s₁ s' al₁ al' rs ok) :
    Passed T h reserved ls s s' al al' (a :: rs) ok where
  served := ⟨hrest.served.address.trans hfirst.address, hrest.served.live, hrest.served.failed,
    hrest.served.taken⟩
  keys hok := by
    refine (hrest.keys hok).trans ?_
    subst hal
    simp only [LinearScan.keys, wanted, map_cons, cons_append, hN]
    exact perm_middle

omit [DecidableEq R] in
theorem canAllocFixed_congr {addr size : ℕ} {ls : List R} (haddr : s.address = s'.address) :
    canAllocFixed h addr size s ls = canAllocFixed h addr size s' ls := by
  induction ls with
  | nil => rfl
  | cons r ls ih => simp only [canAllocFixed, haddr, ih]

theorem allocFixedRange_live (hr : allocFixedRange h order r i false s al = some (true, s', al')) :
    s'.liveRanges = s.liveRanges := by
  rcases allocFixedRange_quiet (Or.inl rfl) hr with ⟨hf, -⟩ | ⟨-, -, p, -, rfl, -⟩
  · cases hf
  · rfl

theorem plainPass_holds (dir : Direction) (ho : ∀ l, (order l).Perm l)
    (hgranted : allowSpills = false ∨ rs = [] ∨ ∀ told r, h.spilled told r = true)
    (hrs : ∀ a ∈ rs, 0 < h.getSize a.1 ∧ 0 < h.getAlignment a.1 ∧
      T + h.getAlignment a.1 ≤ wordSize)
    (hs : Holds T h (ranges al ++ reserved) s) (hls : ∀ r ∈ s.liveRanges, r ∈ ls) :
    ∃ ok s' al', allocRanges (fun r i s al => allocPlainRange h order r i allowSpills dir s al)
      rs s al = some (ok, s', al') ∧ Passed T h reserved ls s s' al al' rs ok := by
  induction rs generalizing s al with
  | nil => exact ⟨true, s, al, rfl, Passed.nil hs hls⟩
  | cons a rs ih =>
    obtain ⟨hsize, halign, hfit⟩ := hrs a (by simp)
    have hg : allowSpills = false ∨ ∀ told r, h.spilled told r = true := by simpa using hgranted
    obtain ⟨ok, s₁, al₁, hfirst, hserved, hal⟩ :=
      allocPlainRange_holds a.2 dir ho hs hls hsize halign hfit hg
    cases ok with
    | false =>
      refine ⟨false, s₁, al₁, ?_, ⟨hserved.address, hserved.live, hserved.failed, by simp⟩, by simp⟩
      simp only [allocRanges, hfirst]
      rfl
    | true =>
      obtain ⟨addr, hal⟩ := hal rfl
      obtain ⟨ok, s', al', hrest, hpassed⟩ := ih (hg.imp_right Or.inr)
        (fun b hb => hrs b (by simp [hb])) (hserved.taken rfl) hserved.live
      refine ⟨ok, s', al', ?_, Passed.cons hserved hal rfl hpassed⟩
      simp only [allocRanges, hfirst]
      exact hrest

theorem fixedPass_holds {s₀ : Scan R} (ho : ∀ l, (order l).Perm l)
    (hsize : ∀ a ∈ rs, 0 < h.getSize a.1) (haddr : s.address = s₀.address)
    (hlive : allowSpills = false → s.liveRanges = s₀.liveRanges)
    (hfits : FixedFits T h s₀ allowSpills (rs.map Prod.fst) (ranges al ++ reserved))
    (hs : Holds T h (ranges al ++ reserved) s) (hls : ∀ r ∈ s.liveRanges, r ∈ ls) :
    ∃ ok s' al', allocRanges (fun r i s al => allocFixedRange h order r i allowSpills s al)
      rs s al = some (ok, s', al') ∧ Passed T h reserved ls s s' al al' rs ok := by
  induction rs generalizing s al with
  | nil => exact ⟨true, s, al, rfl, Passed.nil hs hls⟩
  | cons a rs ih =>
    have hrange : range h s = range h s₀ := by
      funext r
      simp [range, haddr]
    have hpos := hsize a (by simp)
    rcases hfits with ⟨hoff, hvalid, hblocked⟩ | ⟨hle, hapart, hrest⟩
    · -- a live range is in the way and nothing may be spilled
      subst hoff
      have hlive := hlive rfl
      have hblocked' : canAllocFixed h (s.address a.1) (h.getSize a.1) s s.liveRanges =
          some false := by
        rw [hlive, haddr, ← hblocked]
        exact canAllocFixed_congr haddr
      obtain ⟨s', hback, hserved⟩ := served_failed (s := s) ho hs rfl hls
      refine ⟨false, s', al, ?_, hserved, by simp⟩
      have hroom : makeRoom h (placeFixed h (s.address a.1) (h.getSize a.1)) false
          (s.liveRanges.length + 1) s [] = some (none, s, []) := by
        simp [makeRoom, placeFixed, hblocked']
      have hvalid' : s.address a.1 ≠ InvalidAddress := haddr ▸ hvalid
      simp [allocRanges, allocFixedRange, hvalid', hroom, hback]
    · have hN : Packed (Set.Iio T) (range h s a.1 :: (ranges al ++ reserved)) := by
        refine packed_cons (packed_of_exact hs.exact).left hpos ?_ ?_
        · intro x hx
          have hlt : x < s.address a.1 + h.getSize a.1 := hx.2
          rw [haddr] at hlt
          exact hlt.trans_le hle
        · rw [hrange]
          exact hapart
      obtain ⟨ok, s₁, al₁, hfirst, hserved, hal⟩ :=
        allocFixedRange_holds a.2 allowSpills ho hs hls hN
      cases ok with
      | false =>
        refine ⟨false, s₁, al₁, ?_, ⟨hserved.address, hserved.live, hserved.failed, by simp⟩, by
          simp⟩
        simp only [allocRanges, hfirst]
        rfl
      | true =>
        have hal := hal rfl
        have hlive₁ : allowSpills = false → s₁.liveRanges = s₀.liveRanges := by
          intro hoff
          subst hoff
          rw [allocFixedRange_live hfirst, hlive rfl]
        have hrest₁ : FixedFits T h s₀ allowSpills (rs.map Prod.fst) (ranges al₁ ++ reserved) := by
          rw [hal, hrange]
          exact hrest
        obtain ⟨ok, s', al', hrest, hpassed⟩ := ih (fun b hb => hsize b (by simp [hb]))
          (hserved.address.trans haddr) hlive₁ hrest₁ (hserved.taken rfl) hserved.live
        refine ⟨ok, s', al', ?_, Passed.cons hserved hal rfl hpassed⟩
        simp only [allocRanges, hfirst]
        exact hrest

end Request

end Vpux.Memory.LinearScan
