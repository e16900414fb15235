import Vpux.Data.Folds
import Vpux.Memory.LinearScanLive
import Vpux.Memory.StaticAllocation

/-! What an operation does to the buffers that are alive and to those that wait for an end cycle,
over every run. -/
namespace Vpux.Memory.StaticAllocation
open Data LinearScan Partitioner

variable {V : Type} [DecidableEq V] {bufs : Buffers V} {order : AllocatedAddrs → AllocatedAddrs}
  {ops done rest : List (ExecuteOp V)} {op last : ExecuteOp V} {st st' : State V}
  {T t maxMemSize : ℕ} {val : V} {scan : Scan V} {aliveValues : List V}

section Users

def UsedBy (bufs : Buffers V) (done : List (ExecuteOp V)) (val : V) : Prop :=
  ∃ op ∈ done, op.index ∈ bufs.users val

def AllDone (bufs : Buffers V) (done : List (ExecuteOp V)) (val : V) : Prop :=
  ∀ user ∈ bufs.users val, ∃ op ∈ done, op.index = user

def lastUser (bufs : Buffers V) (done : List (ExecuteOp V)) (val : V) : Option (ExecuteOp V) :=
  (done.filter fun op => op.index ∈ bufs.users val).getLast?

/-- The operations are different, and begin one after the other. -/
structure Ordered (ops : List (ExecuteOp V)) : Prop where
  indices : (ops.map ExecuteOp.index).Nodup
  sorted : ops.Pairwise fun a b => a.cycleBegin ≤ b.cycleBegin

omit [DecidableEq V] in
theorem notMem_done (hnodup : (ops.map ExecuteOp.index).Nodup) (hops : ops = done ++ op :: rest) :
    ∀ d ∈ done, d.index ≠ op.index := by
  intro d hd heq
  rw [hops, List.map_append, List.map_cons, List.nodup_append] at hnodup
  exact hnodup.2.2 d.index (List.mem_map_of_mem hd) op.index (by simp) heq

omit [DecidableEq V] in
theorem Ordered.begins (h : Ordered ops) (hops : ops = done ++ op :: rest) :
    (∀ d ∈ done, d.cycleBegin ≤ op.cycleBegin) ∧ ∀ d ∈ rest, op.cycleBegin ≤ d.cycleBegin := by
  obtain ⟨-, hrest, hcross⟩ := List.pairwise_append.mp (hops ▸ h.sorted)
  exact ⟨fun d hd => hcross d hd op (by simp), (List.pairwise_cons.mp hrest).1⟩

omit [DecidableEq V] in
theorem lastUser_snoc (bufs : Buffers V) (done : List (ExecuteOp V)) (op : ExecuteOp V) (val : V) :
    lastUser bufs (done ++ [op]) val =
      if op.index ∈ bufs.users val then some op else lastUser bufs done val := by
  unfold lastUser
  rw [List.filter_append]
  by_cases huse : op.index ∈ bufs.users val <;> simp [huse]

omit [DecidableEq V] in
theorem lastUser_eq_some (h : lastUser bufs done val = some last) :
    last ∈ done ∧ last.index ∈ bufs.users val := by
  simpa using List.mem_of_getLast? h

omit [DecidableEq V] in
theorem AllDone.append (h : AllDone bufs done val) (more : List (ExecuteOp V)) :
    AllDone bufs (done ++ more) val := by
  intro user huser
  obtain ⟨d, hd, heq⟩ := h user huser
  exact ⟨d, List.mem_append_left _ hd, heq⟩

omit [DecidableEq V] in
theorem AllDone.of_snoc (h : AllDone bufs (done ++ [op]) val) (huse : op.index ∉ bufs.users val) :
    AllDone bufs done val := by
  intro user huser
  obtain ⟨d, hd, heq⟩ := h user huser
  rcases List.mem_append.mp hd with hd | hd
  · exact ⟨d, hd, heq⟩
  · obtain rfl : d = op := by simpa using hd
    exact absurd (heq ▸ huser) huse

omit [DecidableEq V] in
theorem AllDone.notUsed (h : AllDone bufs done val) (hops : Ordered ops)
    (hsplit : ops = done ++ op :: rest) : op.index ∉ bufs.users val := by
  intro huse
  obtain ⟨d, hd, heq⟩ := h op.index huse
  exact notMem_done hops.indices hsplit d hd heq

omit [DecidableEq V] in
theorem usedBy_snoc : UsedBy bufs (done ++ [op]) val ↔
    UsedBy bufs done val ∨ op.index ∈ bufs.users val := by
  simp [UsedBy, or_and_right, exists_or]

/-- The users that are left are those among the operations to come. -/
structure Left (bufs : Buffers V) (done : List (ExecuteOp V)) (info : MemLiveRangeInfo V) :
    Prop where
  users : ∀ val ∈ bufs.values, bufs.inMemKind val = true → ∀ user,
    user ∈ info.allUsersInBlock val ↔ user ∈ bufs.users val ∧ ∀ d ∈ done, d.index ≠ user
  used : ∀ index, (∀ d ∈ done, d.index ≠ index) →
    info.reverseUsers index = bufs.values.filter fun val => index ∈ bufs.users val

theorem getFreeBuffers_spec {usedBufs free free' : List V} {index : ℕ}
    {info info' : MemLiveRangeInfo V} (hnodup : usedBufs.Nodup)
    (hr : usedBufs.foldlM (fun (freeBuffers, info) val =>
      if !bufs.inMemKind val then some (freeBuffers, info)
      else do
        let (left, info) ← info.eraseUser val index
        return (if left = 0 then freeBuffers ++ [val] else freeBuffers, info)) (free, info) =
      some (free', info')) :
    (∀ val, info'.allUsersInBlock val = if val ∈ usedBufs ∧ bufs.inMemKind val = true then
      (info.allUsersInBlock val).erase index else info.allUsersInBlock val) ∧
    (∀ i, i ≠ index → info'.reverseUsers i = info.reverseUsers i) ∧
    ∀ val, val ∈ free' ↔ val ∈ free ∨ val ∈ usedBufs ∧ bufs.inMemKind val = true ∧
      index ∈ info.allUsersInBlock val ∧ (info.allUsersInBlock val).erase index = ∅ := by
  induction usedBufs generalizing free info with
  | nil =>
    obtain ⟨rfl, rfl⟩ : free = free' ∧ info = info' := by simpa using hr
    simp
  | cons first usedBufs ih =>
    obtain ⟨hfirst, hnodup⟩ := List.nodup_cons.mp hnodup
    rw [List.foldlM_cons, Option.bind_eq_bind, Option.bind_eq_some_iff] at hr
    obtain ⟨⟨free₁, info₁⟩, hstep, hr⟩ := hr
    dsimp only at hstep
    by_cases hkind : bufs.inMemKind first = true
    · rw [if_neg (by simpa using hkind)] at hstep
      simp only [MemLiveRangeInfo.eraseUser, Option.bind_eq_bind, Option.bind_assoc,
        Option.pure_def, Option.bind_some, Option.bind_eq_some_iff, Option.guard_eq_some',
        exists_const, Option.some.injEq, Prod.mk.injEq] at hstep
      obtain ⟨huse, rfl, rfl⟩ := hstep
      obtain ⟨husers, hreverse, hfree⟩ := ih hnodup hr
      refine ⟨?_, ?_, ?_⟩
      · intro val
        rw [husers val]
        by_cases hval : val = first
        · subst hval
          simp [hfirst, hkind]
        · simp [hval]
      · intro i hi
        rw [hreverse i hi]
        exact Function.update_of_ne hi _ _
      · intro val
        rw [hfree val]
        by_cases hval : val = first
        · subst hval
          by_cases hleft : ((info.allUsersInBlock val).erase index).card = 0
          · simp [hfirst, hkind, huse, Finset.card_eq_zero.mp hleft]
          · have hnone : (info.allUsersInBlock val).erase index ≠ ∅ :=
              fun hnone => hleft (Finset.card_eq_zero.mpr hnone)
            simp [hfirst, hleft, hnone]
        · split_ifs <;> simp [hval]
    · rw [if_pos (by simpa using hkind)] at hstep
      obtain ⟨rfl, rfl⟩ : free = free₁ ∧ info = info₁ := by simpa using hstep
      obtain ⟨husers, hreverse, hfree⟩ := ih hnodup hr
      refine ⟨?_, hreverse, ?_⟩
      · intro val
        rw [husers val]
        by_cases hval : val = first
        · subst hval
          simp [hfirst, hkind]
        · simp [hval]
      · intro val
        rw [hfree val]
        by_cases hval : val = first
        · subst hval
          simp [hfirst, hkind]
        · simp [hval]

theorem Left.snoc (hnew : ∀ d ∈ done, d.index ≠ op.index) {info info' : MemLiveRangeInfo V}
    {free : List V} (h : Left bufs done info)
    (hr : getFreeBuffers bufs (bufs.values.filter fun val => op.index ∈ bufs.users val) op.index
      info = some (free, info')) :
    Left bufs (done ++ [op]) info' ∧ ∀ val, val ∈ free ↔ val ∈ bufs.values ∧
      bufs.inMemKind val = true ∧ op.index ∈ bufs.users val ∧
        ∀ user ∈ bufs.users val, ∃ d ∈ done ++ [op], d.index = user := by
  obtain ⟨husers, hreverse, hfree⟩ := getFreeBuffers_spec (bufs.nodup.filter _) hr
  have hdone : ∀ user, (∀ d ∈ done ++ [op], d.index ≠ user) ↔
      (∀ d ∈ done, d.index ≠ user) ∧ op.index ≠ user := by
    intro user
    simp [or_imp, forall_and]
  refine ⟨⟨?_, ?_⟩, ?_⟩
  · intro val hval hkind user
    rw [husers val, hdone]
    by_cases huse : op.index ∈ bufs.users val
    · rw [if_pos ⟨by simp [hval, huse], hkind⟩, Finset.mem_erase, h.users val hval hkind]
      constructor
      · rintro ⟨hne, hin, hbefore⟩
        exact ⟨hin, hbefore, hne.symm⟩
      · rintro ⟨hin, hbefore, hne⟩
        exact ⟨hne.symm, hin, hbefore⟩
    · rw [if_neg (by simp [huse]), h.users val hval hkind]
      constructor
      · rintro ⟨hin, hbefore⟩
        exact ⟨hin, hbefore, fun heq => huse (heq ▸ hin)⟩
      · rintro ⟨hin, hbefore, -⟩
        exact ⟨hin, hbefore⟩
  · intro index hindex
    obtain ⟨hbefore, hne⟩ := (hdone index).mp hindex
    rw [hreverse index hne.symm]
    exact h.used index hbefore
  · intro val
    rw [hfree val, List.mem_filter, decide_eq_true_eq]
    constructor
    · rintro (hold | ⟨⟨hval, huse⟩, hkind, -, hnone⟩)
      · simp at hold
      · refine ⟨hval, hkind, huse, ?_⟩
        intro user huser
        by_contra hleft
        push Not at hleft
        have hmem : user ∈ (info.allUsersInBlock val).erase op.index := by
          rw [Finset.mem_erase, h.users val hval hkind]
          exact ⟨((hdone user).mp hleft).2.symm, huser, ((hdone user).mp hleft).1⟩
        rw [hnone] at hmem
        simp at hmem
    · rintro ⟨hval, hkind, huse, hall⟩
      refine Or.inr ⟨⟨hval, huse⟩, hkind, (h.users val hval hkind op.index).mpr ⟨huse, hnew⟩, ?_⟩
      rw [Finset.eq_empty_iff_forall_notMem]
      intro user huser
      rw [Finset.mem_erase, h.users val hval hkind] at huser
      obtain ⟨hne, hin, hbefore⟩ := huser
      obtain ⟨d, hd, heq⟩ := hall user hin
      exact (hdone user).mpr ⟨hbefore, hne.symm⟩ d hd heq

end Users

section Alive

structure Alive (T : ℕ) (bufs : Buffers V) (done : List (ExecuteOp V)) (t : ℕ) (scan : Scan V)
    (aliveValues : List V) : Prop where
  holds : Holds T bufs.handler [] scan
  live : ∀ val, val ∈ scan.liveRanges ↔ val ∈ aliveValues
  known : ∀ val ∈ aliveValues,
    val ∈ bufs.values ∧ bufs.inMemKind val = true ∧ UsedBy bufs done val
  kept : ∀ val ∈ bufs.values, bufs.inMemKind val = true → UsedBy bufs done val →
    val ∈ aliveValues ∨ AllDone bufs done val ∧
      ∃ last, lastUser bufs done val = some last ∧ last.cycleEnd ≤ t
  fresh : ∀ val, ¬ UsedBy bufs done val →
    scan.address val = (bufs.staticOffset val).getD InvalidAddress

omit [DecidableEq V] in
theorem Alive.later {t' : ℕ} (ht : t ≤ t') (h : Alive T bufs done t scan aliveValues) :
    Alive T bufs done t' scan aliveValues where
  holds := h.holds
  live := h.live
  known := h.known
  kept val hval hkind hused := by
    rcases h.kept val hval hkind hused with halive | ⟨hall, last, hlast, hle⟩
    · exact Or.inl halive
    · exact Or.inr ⟨hall, last, hlast, hle.trans ht⟩
  fresh := h.fresh

/-- The buffers wait at the end of their last user. -/
structure Waits (bufs : Buffers V) (done : List (ExecuteOp V)) (k : ℕ) (val : V) : Prop where
  value : val ∈ bufs.values
  kind : bufs.inMemKind val = true
  allDone : AllDone bufs done val
  last : ∃ last, lastUser bufs done val = some last ∧ last.cycleEnd = k

def InEntry (entries : FreeBuffers V) (k : ℕ) (val : V) : Prop :=
  ∃ entry ∈ entries, entry.1 = k ∧ val ∈ entry.2

theorem freeDeadBuffers_live {usedBufs : List V}
    (hlive : ∀ val, val ∈ st.scan.liveRanges ↔ val ∈ st.aliveValues)
    (hr : freeDeadBuffers bufs usedBufs st = some st') :
    (∀ val, val ∈ st'.scan.liveRanges ↔ val ∈ st'.aliveValues) ∧
      st'.scan.address = st.scan.address ∧ st'.liveRangeInfo = st.liveRangeInfo ∧
      ∀ val, val ∈ st'.aliveValues ↔ val ∈ st.aliveValues ∧ val ∉ usedBufs := by
  unfold freeDeadBuffers at hr
  simp only [Option.bind_eq_bind, Option.bind_eq_some_iff, Option.pure_def,
    Option.some.injEq] at hr
  obtain ⟨scan, hfree, rfl⟩ := hr
  obtain ⟨haddress, hperm⟩ := freeNonAlive_live hfree
  refine ⟨?_, haddress, rfl, by simp⟩
  intro val
  rw [hperm.mem_iff, List.mem_filter, hlive val]
  simp

theorem freeDeadBuffers_alive {usedBufs : List V}
    (h : Alive T bufs done t st.scan st.aliveValues)
    (hdead : ∀ val ∈ usedBufs, ∃ k ≤ t, Waits bufs done k val)
    (hr : freeDeadBuffers bufs usedBufs st = some st') :
    Alive T bufs done t st'.scan st'.aliveValues ∧ st'.scan.address = st.scan.address ∧
      st'.liveRangeInfo = st.liveRangeInfo ∧
      ∀ val, val ∈ st'.aliveValues ↔ val ∈ st.aliveValues ∧ val ∉ usedBufs := by
  obtain ⟨hlive, haddress, hinfo, halive⟩ := freeDeadBuffers_live h.live hr
  have hholds : Holds T bufs.handler [] st'.scan := by
    unfold freeDeadBuffers at hr
    simp only [Option.bind_eq_bind, Option.bind_eq_some_iff, Option.pure_def,
      Option.some.injEq] at hr
    obtain ⟨scan, hfree, rfl⟩ := hr
    obtain ⟨scan', hfree', hholds⟩ := freeNonAlive_holds _ h.holds
    obtain rfl := Option.some.inj (hfree.symm.trans hfree')
    exact hholds
  refine ⟨⟨hholds, hlive, ?_, ?_, ?_⟩, haddress, hinfo, halive⟩
  · exact fun val hval => h.known val ((halive val).mp hval).1
  · intro val hval hkind hused
    rcases h.kept val hval hkind hused with hold | hgone
    · by_cases hmem : val ∈ usedBufs
      · obtain ⟨k, hk, hwaits⟩ := hdead val hmem
        obtain ⟨last, hlast, rfl⟩ := hwaits.last
        exact Or.inr ⟨hwaits.allDone, last, hlast, hk⟩
      · exact Or.inl ((halive val).mpr ⟨hold, hmem⟩)
    · exact Or.inr hgone
  · intro val hval
    rw [haddress]
    exact h.fresh val hval

omit [DecidableEq V] in
theorem inEntry_cons {entry : ℕ × List V} {entries : FreeBuffers V} {k : ℕ} :
    InEntry (entry :: entries) k val ↔ entry.1 = k ∧ val ∈ entry.2 ∨ InEntry entries k val := by
  simp [InEntry]

theorem freeEnded_alive {entries entries' : FreeBuffers V}
    (h : Alive T bufs done t st.scan st.aliveValues)
    (hwaits : ∀ k val, InEntry entries k val → Waits bufs done k val)
    (hr : freeEnded bufs t entries st = some (entries', st')) :
    Alive T bufs done t st'.scan st'.aliveValues ∧ st'.scan.address = st.scan.address ∧
      st'.liveRangeInfo = st.liveRangeInfo ∧ entries'.map Prod.fst = entries.map Prod.fst ∧
      (∀ k val, InEntry entries' k val ↔ t < k ∧ InEntry entries k val) ∧
      ∀ val, val ∈ st'.aliveValues ↔ val ∈ st.aliveValues ∧
        ∀ k, InEntry entries k val → t < k := by
  induction entries generalizing st entries' with
  | nil =>
    obtain ⟨rfl, rfl⟩ : [] = entries' ∧ st = st' := by simpa [freeEnded] using hr
    exact ⟨h, rfl, rfl, rfl, by simp [InEntry], by simp [InEntry]⟩
  | cons entry entries ih =>
    have hrest : ∀ k val, InEntry entries k val → Waits bufs done k val :=
      fun k val hval => hwaits k val (inEntry_cons.mpr (Or.inr hval))
    unfold freeEnded at hr
    split_ifs at hr with hskip
    · simp only [Option.bind_eq_bind, Option.bind_eq_some_iff, Prod.exists, Option.pure_def,
        Option.some.injEq, Prod.mk.injEq] at hr
      obtain ⟨entries₁, st₁, hr, rfl, rfl⟩ := hr
      obtain ⟨halive, haddress, hinfo, hkeys, hentries, hmem⟩ := ih h hrest hr
      have hlater : ∀ val ∈ entry.2, t < entry.1 := by
        intro val hval
        rcases hskip with hempty | hlater
        · rw [List.isEmpty_iff.mp hempty] at hval
          simp at hval
        · exact hlater
      refine ⟨halive, haddress, hinfo, by rw [List.map_cons, hkeys, List.map_cons], ?_, ?_⟩
      · intro k val
        rw [inEntry_cons, hentries k val, inEntry_cons, and_or_left]
        exact or_congr_left (iff_and_self.mpr fun hval => hval.1 ▸ hlater val hval.2)
      · intro val
        rw [hmem val]
        refine and_congr_right fun _ => forall_congr' fun k => ?_
        rw [inEntry_cons, or_imp]
        exact (and_iff_right fun hval => hval.1 ▸ hlater val hval.2).symm
    · simp only [Option.bind_eq_bind, Option.bind_eq_some_iff, Prod.exists, Option.pure_def,
        Option.some.injEq, Prod.mk.injEq] at hr
      obtain ⟨st₁, hfree, entries₁, st₂, hr, rfl, rfl⟩ := hr
      have hcycle : entry.1 ≤ t := not_lt.mp (not_or.mp hskip).2
      have hentry : ∀ val ∈ entry.2, Waits bufs done entry.1 val :=
        fun val hval => hwaits entry.1 val (inEntry_cons.mpr (Or.inl ⟨rfl, hval⟩))
      obtain ⟨halive₁, haddress₁, hinfo₁, hmem₁⟩ := freeDeadBuffers_alive h
        (fun val hval => ⟨entry.1, hcycle, hentry val hval⟩) hfree
      obtain ⟨halive, haddress, hinfo, hkeys, hentries, hmem⟩ := ih halive₁ hrest hr
      refine ⟨halive, haddress.trans haddress₁, hinfo.trans hinfo₁,
        by rw [List.map_cons, hkeys, List.map_cons], ?_, ?_⟩
      · intro k val
        rw [inEntry_cons, hentries k val, inEntry_cons, and_or_left]
        have hnew : ¬ (t < k ∧ entry.1 = k ∧ val ∈ entry.2) := by
          rintro ⟨hlt, rfl, -⟩
          exact absurd hlt (not_lt.mpr hcycle)
        simp [hnew]
      · intro val
        rw [hmem val, hmem₁ val, and_assoc]
        apply and_congr_right
        intro _
        simp only [inEntry_cons, or_imp, forall_and]
        apply and_congr_left
        intro _
        constructor
        · intro hnot k hval
          exact absurd hval.2 hnot
        · intro hall hval
          exact absurd (hall entry.1 ⟨rfl, hval⟩) (not_lt.mpr hcycle)

omit [DecidableEq V] in
theorem assign_fst (k : ℕ) (freeBuffers : List V) {entries : FreeBuffers V}
    (hsorted : (entries.map Prod.fst).Pairwise (· < ·)) :
    ((assign entries k freeBuffers).map Prod.fst).Pairwise (· < ·) ∧
      ∀ entry, entry ∈ assign entries k freeBuffers ↔ entry = (k, freeBuffers) ∨
        entry ∈ entries ∧ entry.1 ≠ k := by
  induction entries with
  | nil => simp [assign]
  | cons entry entries ih =>
    obtain ⟨hfirst, hrest⟩ := List.pairwise_cons.mp hsorted
    obtain ⟨hsorted', hmem⟩ := ih hrest
    have hlt : ∀ e ∈ entries, entry.1 < e.1 := fun e he => hfirst e.1 (List.mem_map_of_mem he)
    unfold assign
    split_ifs with hbelow hsame
    · refine ⟨?_, ?_⟩
      · rw [List.map_cons, List.pairwise_cons]
        refine ⟨?_, hsorted⟩
        intro c hc
        rcases List.mem_cons.mp hc with rfl | hc
        · exact hbelow
        · exact hbelow.trans (hfirst c hc)
      · intro e
        have hne : e ∈ entry :: entries → e.1 ≠ k := by
          intro he
          rcases List.mem_cons.mp he with rfl | he
          · exact hbelow.ne'
          · exact (hbelow.trans (hlt e he)).ne'
        rw [List.mem_cons]
        exact or_congr_right (iff_self_and.mpr hne)
    · refine ⟨?_, ?_⟩
      · rw [List.map_cons, hsame]
        exact hsorted
      · intro e
        rw [List.mem_cons, List.mem_cons]
        apply or_congr_right
        constructor
        · exact fun he => ⟨Or.inr he, (hsame ▸ hlt e he).ne'⟩
        · rintro ⟨rfl | he, hne⟩
          · exact absurd hsame.symm hne
          · exact he
    · refine ⟨?_, ?_⟩
      · rw [List.map_cons, List.pairwise_cons]
        refine ⟨?_, hsorted'⟩
        intro c hc
        obtain ⟨e, he, rfl⟩ := List.mem_map.mp hc
        rcases (hmem e).mp he with rfl | ⟨he, -⟩
        · exact lt_of_le_of_ne (not_lt.mp hbelow) (Ne.symm hsame)
        · exact hlt e he
      · intro e
        rw [List.mem_cons, hmem e, List.mem_cons]
        constructor
        · rintro (rfl | rfl | ⟨he, hne⟩)
          · exact Or.inr ⟨Or.inl rfl, Ne.symm hsame⟩
          · exact Or.inl rfl
          · exact Or.inr ⟨Or.inr he, hne⟩
        · rintro (rfl | ⟨rfl | he, hne⟩)
          · exact Or.inr (Or.inl rfl)
          · exact Or.inl rfl
          · exact Or.inr (Or.inr ⟨he, hne⟩)

omit [DecidableEq V] in
theorem inEntry_assign {entries : FreeBuffers V} (hsorted : (entries.map Prod.fst).Pairwise (· < ·))
    (cycleEnd : ℕ) (freeBuffers : List V) (k : ℕ) (val : V) :
    InEntry (assign entries cycleEnd freeBuffers) k val ↔
      k = cycleEnd ∧ val ∈ freeBuffers ∨ k ≠ cycleEnd ∧ InEntry entries k val := by
  unfold InEntry
  simp only [(assign_fst cycleEnd freeBuffers hsorted).2]
  constructor
  · rintro ⟨entry, rfl | ⟨hentry, hne⟩, rfl, hval⟩
    · exact Or.inl ⟨rfl, hval⟩
    · exact Or.inr ⟨hne, entry, hentry, rfl, hval⟩
  · rintro (⟨rfl, hval⟩ | ⟨hne, entry, hentry, rfl, hval⟩)
    · exact ⟨_, Or.inl rfl, rfl, hval⟩
    · exact ⟨entry, Or.inr ⟨hentry, hne⟩, rfl, hval⟩

theorem allocNewBuffers_alive (hops : Ordered ops) (hsplit : ops = done ++ op :: rest)
    (h : Alive T bufs done t st.scan st.aliveValues)
    (hr : allocNewBuffers bufs order (bufs.values.filter fun val => op.index ∈ bufs.users val) st =
      some st') :
    Alive T bufs (done ++ [op]) t st'.scan st'.aliveValues ∧
      st'.liveRangeInfo = st.liveRangeInfo ∧
      (∀ val, UsedBy bufs done val → st'.scan.address val = st.scan.address val) ∧
      ∀ val, val ∈ st'.aliveValues ↔ val ∈ st.aliveValues ∨
        val ∈ bufs.values ∧ bufs.inMemKind val = true ∧ op.index ∈ bufs.users val := by
  unfold allocNewBuffers at hr
  simp only [Option.bind_eq_bind, Option.bind_eq_some_iff, Prod.exists, Option.guard_eq_some',
    exists_const, Option.pure_def, Option.some.injEq] at hr
  obtain ⟨ok, scan, halloc, hok, rfl⟩ := hr
  obtain rfl : ok = true := by simpa using hok
  obtain ⟨newBufs, hnewBufs⟩ : ∃ newBufs, ((bufs.values.filter fun val =>
      op.index ∈ bufs.users val).filter fun val =>
        bufs.inMemKind val && val ∉ st.aliveValues) = newBufs := ⟨_, rfl⟩
  rw [hnewBufs] at halloc
  have hmem : ∀ val, val ∈ newBufs ↔ val ∈ bufs.values ∧ op.index ∈ bufs.users val ∧
      bufs.inMemKind val = true ∧ val ∉ st.aliveValues := by
    intro val
    rw [← hnewBufs]
    simp only [List.mem_filter, Bool.and_eq_true, decide_eq_true_eq]
    tauto
  have hunused : ∀ val ∈ newBufs, ¬ UsedBy bufs done val := by
    intro val hval hused
    obtain ⟨hin, huse, hkind, hdead⟩ := (hmem val).mp hval
    rcases h.kept val hin hkind hused with halive | ⟨hall, -⟩
    · exact hdead halive
    · exact hall.notUsed hops hsplit huse
  obtain ⟨hholds, hlive, haddress⟩ := alloc_live h.holds
    (hnewBufs ▸ (bufs.nodup.filter _).filter _)
    (fun val hval hlive => ((hmem val).mp hval).2.2.2 ((h.live val).mp hlive))
    (fun val hval hfixed => by
      obtain ⟨offset, hoffset⟩ := Option.isSome_iff_exists.mp hfixed
      rw [h.fresh val (hunused val hval), hoffset, Option.getD_some]
      have hsum := Nat.add_lt_add (bufs.staticOffset_lt val offset hoffset) (bufs.size_lt val)
      exact hsum.trans_le (by decide)) halloc
  have halive : ∀ val, val ∈ st.aliveValues ++ newBufs ↔ val ∈ st.aliveValues ∨
      val ∈ bufs.values ∧ bufs.inMemKind val = true ∧ op.index ∈ bufs.users val := by
    intro val
    rw [List.mem_append, hmem val]
    tauto
  rw [hnewBufs]
  refine ⟨⟨hholds, ?_, ?_, ?_, ?_⟩, rfl,
    fun val hval => haddress val fun hnew => hunused val hnew hval, halive⟩
  · intro val
    rw [hlive, List.mem_append, List.mem_append, h.live val]
  · intro val hval
    rcases (halive val).mp hval with hold | ⟨hin, hkind, huse⟩
    · obtain ⟨hin, hkind, hused⟩ := h.known val hold
      exact ⟨hin, hkind, usedBy_snoc.mpr (Or.inl hused)⟩
    · exact ⟨hin, hkind, usedBy_snoc.mpr (Or.inr huse)⟩
  · intro val hval hkind hused
    by_cases huse : op.index ∈ bufs.users val
    · exact Or.inl ((halive val).mpr (Or.inr ⟨hval, hkind, huse⟩))
    · rcases h.kept val hval hkind ((usedBy_snoc.mp hused).resolve_right huse) with
        hold | ⟨hall, last, hlast, hle⟩
      · exact Or.inl ((halive val).mpr (Or.inl hold))
      · refine Or.inr ⟨hall.append _, last, ?_, hle⟩
        rw [lastUser_snoc, if_neg huse]
        exact hlast
  · intro val hval
    obtain ⟨hdone, huse⟩ := not_or.mp (mt usedBy_snoc.mpr hval)
    rw [← h.fresh val hdone]
    exact haddress val fun hnew => huse ((hmem val).mp hnew).2.1

end Alive

section Run

structure Holding (T : ℕ) (bufs : Buffers V) (done : List (ExecuteOp V)) (t : ℕ) (st : State V) :
    Prop where
  alive : Alive T bufs done t st.scan st.aliveValues
  sorted : (st.freeBuffersCycleEnd.map Prod.fst).Pairwise (· < ·)
  waits : ∀ k val, InEntry st.freeBuffersCycleEnd k val → Waits bufs done k val
  left : Left bufs done st.liveRangeInfo

/-- What an operation changes: buffers whose end cycle has come are freed, those of the operation
are alive, and those it uses last take the entry of its end cycle. -/
structure Processed (bufs : Buffers V) (done : List (ExecuteOp V)) (op : ExecuteOp V)
    (st st' : State V) : Prop where
  alive : ∀ val, val ∈ st'.aliveValues ↔
    (val ∈ st.aliveValues ∧ ∀ k, InEntry st.freeBuffersCycleEnd k val → op.cycleBegin < k) ∨
      val ∈ bufs.values ∧ bufs.inMemKind val = true ∧ op.index ∈ bufs.users val
  entries : ∀ k val, InEntry st'.freeBuffersCycleEnd k val ↔
    k = op.cycleEnd ∧ (val ∈ bufs.values ∧ bufs.inMemKind val = true ∧
      op.index ∈ bufs.users val ∧ AllDone bufs (done ++ [op]) val) ∨
    k ≠ op.cycleEnd ∧ op.cycleBegin < k ∧ InEntry st.freeBuffersCycleEnd k val
  address : ∀ val, UsedBy bufs done val → st'.scan.address val = st.scan.address val

theorem processOp_processed (hops : Ordered ops) (hsplit : ops = done ++ op :: rest)
    (h : Holding T bufs done t st) (ht : t ≤ op.cycleBegin)
    (hr : processOp bufs order st op = some st') :
    Holding T bufs (done ++ [op]) op.cycleBegin st' ∧ Processed bufs done op st st' := by
  unfold processOp at hr
  simp only [Option.bind_eq_bind, Option.bind_eq_some_iff, Prod.exists, Option.pure_def,
    Option.some.injEq] at hr
  obtain ⟨entries, st₁, hended, st₂, halloc, resources, -, free, info, hfree, rfl⟩ := hr
  have hnew := notMem_done hops.indices hsplit
  obtain ⟨halive₁, haddress₁, hinfo₁, hkeys, hentries, hmem₁⟩ :=
    freeEnded_alive (h.alive.later ht) h.waits hended
  have hused : st₁.liveRangeInfo.getUsedBuffers op.index =
      bufs.values.filter fun val => op.index ∈ bufs.users val := by
    rw [MemLiveRangeInfo.getUsedBuffers, hinfo₁]
    exact h.left.used op.index hnew
  rw [hused] at halloc hfree
  obtain ⟨halive₂, hinfo₂, haddress₂, hmem₂⟩ := allocNewBuffers_alive hops hsplit halive₁ halloc
  rw [hinfo₂, hinfo₁] at hfree
  obtain ⟨hleft, hmemFree⟩ := h.left.snoc hnew hfree
  have hsorted : (entries.map Prod.fst).Pairwise (· < ·) := hkeys ▸ h.sorted
  have hprocessed : Processed bufs done op st { st₂ with
      liveRangeInfo := info
      freeBuffersCycleEnd := assign entries op.cycleEnd free
      scheduledOpsResources := st₂.scheduledOpsResources ++ resources } := by
    constructor
    · intro val
      rw [hmem₂ val, hmem₁ val]
    · intro k val
      rw [inEntry_assign hsorted, hentries, hmemFree, AllDone]
    · exact fun val hval => (haddress₂ val hval).trans (congrFun haddress₁ val)
  refine ⟨⟨halive₂, (assign_fst op.cycleEnd free hsorted).1, ?_, hleft⟩, hprocessed⟩
  intro k val hval
  rcases (hprocessed.entries k val).mp hval with ⟨rfl, hin, hkind, huse, hall⟩ | ⟨hne, hlt, hold⟩
  · exact ⟨hin, hkind, hall, op, by rw [lastUser_snoc, if_pos huse], rfl⟩
  · obtain ⟨hin, hkind, hall, last, hlast, hk⟩ := h.waits k val hold
    refine ⟨hin, hkind, hall.append _, last, ?_, hk⟩
    rw [lastUser_snoc, if_neg (hall.notUsed hops hsplit)]
    exact hlast

/-- The loop over the operations, from the allocator that has no live range. -/
def processOps (bufs : Buffers V) (order : AllocatedAddrs → AllocatedAddrs) (maxMemSize : ℕ)
    (ops : List (ExecuteOp V)) : Option (State V) := do
  guard (0 < maxMemSize)
  let scan ← init maxMemSize [] fun val => (bufs.staticOffset val).getD InvalidAddress
  ops.foldlM (processOp bufs order) (start bufs scan)

omit [DecidableEq V] in
theorem Holding.start {scan : Scan V} (hscan : Holds T bufs.handler [] scan)
    (hlive : scan.liveRanges = [])
    (haddress : scan.address = fun val => (bufs.staticOffset val).getD InvalidAddress) :
    Holding T bufs [] 0 (start bufs scan) where
  alive :=
    { holds := hscan
      live := by simp [StaticAllocation.start, hlive]
      known := by simp [StaticAllocation.start]
      kept := by simp [UsedBy]
      fresh := fun val _ => congrFun haddress val }
  sorted := by simp [StaticAllocation.start]
  waits := by simp [StaticAllocation.start, InEntry]
  left := ⟨by simp [StaticAllocation.start, MemLiveRangeInfo.ofBuffers], fun _ _ => rfl⟩

theorem processOps_keeps (hsize : maxMemSize < 2 ^ 63) (hops : Ordered ops)
    {P : List (ExecuteOp V) → State V → Prop}
    (hstart : ∀ scan, P [] (start bufs scan))
    (hstep : ∀ done op rest, ops = done ++ op :: rest → ∀ t st st', t ≤ op.cycleBegin →
      Holding maxMemSize bufs done t st → Processed bufs done op st st' →
        Holding maxMemSize bufs (done ++ [op]) op.cycleBegin st' → P done st →
          P (done ++ [op]) st')
    (hsplit : ops = done ++ rest) (hrun : processOps bufs order maxMemSize done = some st) :
    ∃ t, (∀ op ∈ rest, t ≤ op.cycleBegin) ∧ Holding maxMemSize bufs done t st ∧ P done st := by
  unfold processOps at hrun
  simp only [Option.bind_eq_bind, Option.bind_eq_some_iff, Option.guard_eq_some',
    exists_const] at hrun
  obtain ⟨hpos, scan, hinit, hloop⟩ := hrun
  have hword : maxMemSize < InvalidAddress := hsize.trans (by decide)
  obtain ⟨scan', hinit', hholds⟩ := init_holds bufs.handler
    (fun val => (bufs.staticOffset val).getD InvalidAddress) hpos hword
      (show Packed (Set.Iio maxMemSize) [] from ⟨by simp, .nil, by simp⟩)
  obtain rfl := Option.some.inj (hinit.symm.trans hinit')
  have hscan : scan.liveRanges = [] ∧
      scan.address = fun val => (bufs.staticOffset val).getD InvalidAddress := by
    unfold LinearScan.init at hinit
    simp only [List.foldlM_nil, Option.pure_def, Option.bind_eq_bind, Option.bind_some,
      Option.some.injEq] at hinit
    rw [← hinit]
    exact ⟨rfl, rfl⟩
  have hend := foldlM_rest (P := fun st todo => ∃ before t, done = before ++ todo ∧
      (∀ op ∈ todo ++ rest, t ≤ op.cycleBegin) ∧ Holding maxMemSize bufs before t st ∧
        P before st) (by
    rintro st op todo st' ⟨before, t, hbefore, hlater, hholding, hP⟩ hr
    have hops' : ops = before ++ op :: (todo ++ rest) := by
      rw [hsplit, hbefore, List.append_assoc, List.cons_append]
    have ht : t ≤ op.cycleBegin := hlater op (by simp)
    obtain ⟨hholding', hprocessed⟩ := processOp_processed hops hops' hholding ht hr
    refine ⟨before ++ [op], op.cycleBegin, by rw [hbefore]; simp, ?_, hholding',
      hstep before op _ hops' t st st' ht hholding hprocessed hholding' hP⟩
    exact (hops.begins hops').2)
    ⟨[], 0, rfl, fun _ _ => Nat.zero_le _, Holding.start hholds hscan.1 hscan.2, hstart scan⟩ hloop
  obtain ⟨before, t, hbefore, hlater, hholding, hP⟩ := hend
  obtain rfl : done = before := by simpa using hbefore
  exact ⟨t, hlater, hholding, hP⟩

theorem freeRemaining_live {entries : FreeBuffers V}
    (hlive : ∀ val, val ∈ st.scan.liveRanges ↔ val ∈ st.aliveValues)
    (hr : entries.foldlM (fun st entry =>
      if entry.2.isEmpty then some st else freeDeadBuffers bufs entry.2 st) st = some st') :
    st'.scan.address = st.scan.address ∧
      ∀ val, val ∈ st'.scan.liveRanges ↔ val ∈ st.aliveValues ∧ ∀ k, ¬ InEntry entries k val := by
  induction entries generalizing st with
  | nil =>
    obtain rfl : st = st' := by simpa using hr
    exact ⟨rfl, fun val => by simp [hlive val, InEntry]⟩
  | cons entry entries ih =>
    rw [List.foldlM_cons, Option.bind_eq_bind, Option.bind_eq_some_iff] at hr
    obtain ⟨mid, hstep, hrest⟩ := hr
    have hmid : (∀ val, val ∈ mid.scan.liveRanges ↔ val ∈ mid.aliveValues) ∧
        mid.scan.address = st.scan.address ∧
        ∀ val, val ∈ mid.aliveValues ↔ val ∈ st.aliveValues ∧ val ∉ entry.2 := by
      split_ifs at hstep with hempty
      · obtain rfl := Option.some.inj hstep
        have hnone : entry.2 = [] := List.isEmpty_iff.mp hempty
        exact ⟨hlive, rfl, by simp [hnone]⟩
      · obtain ⟨hlive', haddress, -, hmem⟩ := freeDeadBuffers_live hlive hstep
        exact ⟨hlive', haddress, hmem⟩
    obtain ⟨hlive', haddress, hmem⟩ := hmid
    obtain ⟨haddress', hmem'⟩ := ih hlive' hrest
    refine ⟨haddress'.trans haddress, ?_⟩
    intro val
    rw [hmem' val, hmem val, and_assoc]
    apply and_congr_right
    intro _
    simp only [inEntry_cons, not_or, not_and, forall_and]
    exact and_congr_left fun _ => ⟨fun hnot _ _ => hnot, fun hall => hall entry.1 rfl⟩

end Run

section Pair

/-- Two buffers of the same size, and who uses them. -/
def pairBuffers (users : Fin 2 → Finset ℕ) : Buffers (Fin 2) where
  values := [0, 1]
  users := users
  inMemKind _ := true
  isBufAllocOp _ := true
  staticOffset _ := none
  size _ := 64
  alignment _ := 64
  nodup := by decide
  size_lt _ := by decide
  staticOffset_lt _ _ h := by cases h

def sharedUsers (val : Fin 2) : Finset ℕ := if val = 0 then {0, 1} else {2}

def readOp (index cycleBegin cycleEnd : ℕ) (buf : Fin 2) : ExecuteOp (Fin 2) :=
  ⟨index, cycleBegin, cycleEnd, [⟨[[buf]], []⟩]⟩

end Pair

end Vpux.Memory.StaticAllocation
