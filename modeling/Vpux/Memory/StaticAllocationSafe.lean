import Vpux.Memory.StaticAllocationRun

/-! Memory is used again only after the operations that use it have ended, when no buffer is
freed at the end of its last user while another one is still running. -/
namespace Vpux.Memory.StaticAllocation
open Data LinearScan Partitioner Async

variable {V : Type} [DecidableEq V] {bufs : Buffers V} {order : AllocatedAddrs → AllocatedAddrs}
  {ops done rest : List (ExecuteOp V)} {op : ExecuteOp V} {st st' : State V} {T t k : ℕ}
  {a b val : V}

structure Scheduled (ops : List (ExecuteOp V)) : Prop where
  indices : (ops.map ExecuteOp.index).Nodup
  sorted : ops.Pairwise fun a b => a.cycleBegin ≤ b.cycleBegin
  cycles : ∀ op ∈ ops, op.cycleBegin < op.cycleEnd

/-- A buffer is freed at the end of its last user, unless a later operation that ends in the same
cycle takes the place of that user in the table. -/
structure FreedAtEnd (bufs : Buffers V) (before : List (ExecuteOp V)) (last : ExecuteOp V)
    (after : List (ExecuteOp V)) (val : V) : Prop where
  uses : last.index ∈ bufs.users val
  all : ∀ user ∈ bufs.users val, ∃ op ∈ before ++ [last], op.index = user
  entry : ∀ op ∈ after, op.cycleEnd ≠ last.cycleEnd

/-- The operation is the first user of some buffer. -/
def AllocatesAfter (bufs : Buffers V) (done : List (ExecuteOp V)) (op : ExecuteOp V) : Prop :=
  ∃ val ∈ bufs.values, bufs.inMemKind val = true ∧ op.index ∈ bufs.users val ∧
    ∀ d ∈ done, d.index ∉ bufs.users val

/-- All users of a buffer have ended when memory is allocated after it was freed. -/
def FreedAfterUse (bufs : Buffers V) (ops : List (ExecuteOp V)) : Prop :=
  ∀ before last mid first rest, ops = before ++ last :: (mid ++ first :: rest) →
    ∀ val ∈ bufs.values, bufs.inMemKind val = true →
      FreedAtEnd bufs before last (mid ++ first :: rest) val →
      last.cycleEnd ≤ first.cycleBegin → AllocatesAfter bufs (before ++ last :: mid) first →
        ∀ op ∈ before, op.index ∈ bufs.users val → op.cycleEnd ≤ first.cycleBegin

/-- All users of a buffer have ended when the first user of another one begins. -/
def EndsBefore (bufs : Buffers V) (ops : List (ExecuteOp V)) (a b : V) : Prop :=
  ∀ op ∈ ops, op.index ∈ bufs.users a → ∀ op' ∈ ops, op'.index ∈ bufs.users b →
    op.cycleEnd ≤ op'.cycleBegin

def SafeReuse (bufs : Buffers V) (ops : List (ExecuteOp V)) (address : V → ℕ) : Prop :=
  ∀ a ∈ bufs.values, ∀ b ∈ bufs.values, bufs.inMemKind a = true → bufs.inMemKind b = true →
    a ≠ b → ¬ Disjoint (bytes (address a, bufs.size a)) (bytes (address b, bufs.size b)) →
      EndsBefore bufs ops a b ∨ EndsBefore bufs ops b a

section Ended

/-- Of the operations that are done, the last user of the buffer ended in a cycle. -/
def EndedIn (bufs : Buffers V) (done : List (ExecuteOp V)) (k : ℕ) (val : V) : Prop :=
  ∃ before last after, done = before ++ last :: after ∧ last.cycleEnd = k ∧
    FreedAtEnd bufs before last after val

omit [DecidableEq V] in
theorem EndedIn.snoc (h : EndedIn bufs done k val) (hop : op.cycleEnd ≠ k) :
    EndedIn bufs (done ++ [op]) k val := by
  obtain ⟨before, last, after, rfl, rfl, hfreed⟩ := h
  refine ⟨before, last, after ++ [op], by simp, rfl, hfreed.uses, hfreed.all, ?_⟩
  intro d hd
  rcases List.mem_append.mp hd with hd | hd
  · exact hfreed.entry d hd
  · obtain rfl : d = op := by simpa using hd
    exact hop

omit [DecidableEq V] in
theorem Scheduled.eq_of_index (h : Scheduled ops) {op' : ExecuteOp V} (hop : op ∈ ops)
    (hop' : op' ∈ ops) (heq : op.index = op'.index) : op = op' :=
  List.inj_on_of_nodup_map h.indices hop hop' heq

omit [DecidableEq V] in
theorem Scheduled.ordered (h : Scheduled ops) : Ordered ops := ⟨h.indices, h.sorted⟩

omit [DecidableEq V] in
/-- When an operation allocates, the users of a buffer that is freed by then have ended. -/
theorem EndedIn.endsBefore (h : EndedIn bufs done k a) (hops : Scheduled ops)
    (hfreed : FreedAfterUse bufs ops) (hsplit : ops = done ++ op :: rest)
    (ha : a ∈ bufs.values) (hkind : bufs.inMemKind a = true) (hk : k ≤ op.cycleBegin)
    (hb : b ∈ bufs.values) (hkindb : bufs.inMemKind b = true) (hop : op.index ∈ bufs.users b)
    (hnew : ¬ UsedBy bufs done b) : EndsBefore bufs ops a b := by
  obtain ⟨before, last, after, rfl, rfl, hend⟩ := h
  have hunused : ∀ d ∈ before ++ last :: after, d.index ∉ bufs.users b :=
    fun d hd huse => hnew ⟨d, hd, huse⟩
  have hsplit' : ops = before ++ last :: (after ++ op :: rest) := by
    rw [hsplit, List.append_assoc, List.cons_append]
  have hlast : ∀ d ∈ after ++ op :: rest, d.cycleEnd ≠ last.cycleEnd := by
    intro d hd
    rcases List.mem_append.mp hd with hd | hd
    · exact hend.entry d hd
    · have hcycles := hops.cycles d (by rw [hsplit]; exact List.mem_append_right _ hd)
      have hle : op.cycleBegin ≤ d.cycleBegin := by
        rcases List.mem_cons.mp hd with rfl | hd
        · exact le_rfl
        · exact (hops.ordered.begins hsplit).2 d hd
      omega
  have hbefore := hfreed before last after op rest hsplit' a ha hkind
    ⟨hend.uses, hend.all, hlast⟩ hk ⟨b, hb, hkindb, hop, hunused⟩
  intro opA hA huseA opB hB huseB
  have hendA : opA.cycleEnd ≤ op.cycleBegin := by
    obtain ⟨d, hd, heq⟩ := hend.all opA.index huseA
    have hdops : d ∈ ops := by
      rw [hsplit']
      rcases List.mem_append.mp hd with hd | hd
      · exact List.mem_append_left _ hd
      · exact List.mem_append_right _ (List.mem_cons.mpr (Or.inl (by simpa using hd)))
    obtain rfl := hops.eq_of_index hdops hA heq
    rcases List.mem_append.mp hd with hd | hd
    · exact hbefore d hd huseA
    · obtain rfl : d = last := by simpa using hd
      exact hk
  have hbeginB : op.cycleBegin ≤ opB.cycleBegin := by
    rw [hsplit] at hB
    rcases List.mem_append.mp hB with hB | hB
    · exact absurd huseB (hunused opB hB)
    · rcases List.mem_cons.mp hB with rfl | hB
      · exact le_rfl
      · exact (hops.ordered.begins hsplit).2 opB hB
  exact hendA.trans hbeginB

end Ended

section Placed

omit [DecidableEq V] in
theorem disjoint_of_live {scan : Scan V} (h : Holds T bufs.handler [] scan)
    (ha : a ∈ scan.liveRanges) (hb : b ∈ scan.liveRanges) (hne : a ≠ b) :
    Disjoint (bytes (scan.address a, bufs.size a)) (bytes (scan.address b, bufs.size b)) := by
  have hpairs : (liveBytes bufs.handler scan).Pairwise fun r s => Disjoint (bytes r) (bytes s) :=
    h.exact.disjoint
  rw [liveBytes, List.pairwise_map] at hpairs
  have hsymm : Std.Symm fun a b => Disjoint (bytes (range bufs.handler scan a))
      (bytes (range bufs.handler scan b)) := ⟨fun _ _ hab => hab.symm⟩
  exact hpairs.forall ha hb hne

/-- What waits has ended, and so has what is not alive any more; what was placed is safe. -/
structure Safe (bufs : Buffers V) (ops done : List (ExecuteOp V)) (st : State V) : Prop where
  waiting : ∀ k val, InEntry st.freeBuffersCycleEnd k val → EndedIn bufs done k val
  freed : ∀ val ∈ bufs.values, bufs.inMemKind val = true → UsedBy bufs done val →
    val ∉ st.aliveValues → ∃ k, EndedIn bufs done k val ∧ ∃ d ∈ done, k ≤ d.cycleBegin
  safe : ∀ a ∈ bufs.values, ∀ b ∈ bufs.values, bufs.inMemKind a = true →
    bufs.inMemKind b = true → UsedBy bufs done a → UsedBy bufs done b → a ≠ b →
      ¬ Disjoint (bytes (st.scan.address a, bufs.size a))
        (bytes (st.scan.address b, bufs.size b)) →
          EndsBefore bufs ops a b ∨ EndsBefore bufs ops b a

omit [DecidableEq V] in
theorem Safe.ended (h : Safe bufs ops done st) (hops : Scheduled ops)
    (hsplit : ops = done ++ op :: rest) (hprocessed : Processed bufs done op st st')
    (hval : val ∈ bufs.values) (hkind : bufs.inMemKind val = true) (hused : UsedBy bufs done val)
    (hdead : val ∉ st'.aliveValues) : ∃ k ≤ op.cycleBegin, EndedIn bufs done k val := by
  by_cases halive : val ∈ st.aliveValues
  · have hnot := (not_or.mp (mt (hprocessed.alive val).mpr hdead)).1
    push Not at hnot
    obtain ⟨k, hk, hle⟩ := hnot halive
    exact ⟨k, hle, h.waiting k val hk⟩
  · obtain ⟨k, hended, d, hd, hle⟩ := h.freed val hval hkind hused halive
    exact ⟨k, hle.trans ((hops.ordered.begins hsplit).1 d hd), hended⟩

omit [DecidableEq V] in
theorem Safe.snoc (h : Safe bufs ops done st) (hops : Scheduled ops)
    (hfreed : FreedAfterUse bufs ops) (hsplit : ops = done ++ op :: rest)
    (hprocessed : Processed bufs done op st st') (hholding : Holding T bufs (done ++ [op]) t st') :
    Safe bufs ops (done ++ [op]) st' := by
  have hplaced : ∀ val ∈ bufs.values, bufs.inMemKind val = true → op.index ∈ bufs.users val →
      val ∈ st'.aliveValues :=
    fun val hval hkind huse => (hprocessed.alive val).mpr (Or.inr ⟨hval, hkind, huse⟩)
  have hdisjoint : ∀ a ∈ st'.aliveValues, ∀ b ∈ st'.aliveValues, a ≠ b →
      Disjoint (bytes (st'.scan.address a, bufs.size a))
        (bytes (st'.scan.address b, bufs.size b)) :=
    fun a ha b hb => disjoint_of_live hholding.alive.holds ((hholding.alive.live a).mpr ha)
      ((hholding.alive.live b).mpr hb)
  -- a buffer that the operation is not the first user of, and one that it is
  have hmixed : ∀ a ∈ bufs.values, ∀ b ∈ bufs.values, bufs.inMemKind a = true →
      bufs.inMemKind b = true → UsedBy bufs done a → op.index ∈ bufs.users b →
        ¬ UsedBy bufs done b → a ≠ b →
          ¬ Disjoint (bytes (st'.scan.address a, bufs.size a))
            (bytes (st'.scan.address b, bufs.size b)) → EndsBefore bufs ops a b := by
    intro a ha b hb hkinda hkindb huseda huseb hunusedb hne hshare
    by_cases halive : a ∈ st'.aliveValues
    · exact absurd (hdisjoint a halive b (hplaced b hb hkindb huseb) hne) hshare
    · obtain ⟨k, hk, hended⟩ := h.ended hops hsplit hprocessed ha hkinda huseda halive
      exact hended.endsBefore hops hfreed hsplit ha hkinda hk hb hkindb huseb hunusedb
  constructor
  · intro k val hval
    rcases (hprocessed.entries k val).mp hval with ⟨rfl, -, -, huse, hall⟩ | ⟨hne, -, hold⟩
    · exact ⟨done, op, [], rfl, rfl, huse, hall, by simp⟩
    · exact (h.waiting k val hold).snoc hne.symm
  · intro val hval hkind hused hdead
    have hdone := (usedBy_snoc.mp hused).resolve_right
      fun huse => hdead (hplaced val hval hkind huse)
    obtain ⟨k, hk, hended⟩ := h.ended hops hsplit hprocessed hval hkind hdone hdead
    have hcycles := hops.cycles op (by rw [hsplit]; simp)
    exact ⟨k, hended.snoc (by omega), op, by simp, hk⟩
  · intro a ha b hb hkinda hkindb husesa husesb hne hshare
    by_cases hdonea : UsedBy bufs done a
    · by_cases hdoneb : UsedBy bufs done b
      · refine h.safe a ha b hb hkinda hkindb hdonea hdoneb hne ?_
        rw [← hprocessed.address a hdonea, ← hprocessed.address b hdoneb]
        exact hshare
      · have huseb := (usedBy_snoc.mp husesb).resolve_left hdoneb
        exact Or.inl (hmixed a ha b hb hkinda hkindb hdonea huseb hdoneb hne hshare)
    · have husea := (usedBy_snoc.mp husesa).resolve_left hdonea
      by_cases hdoneb : UsedBy bufs done b
      · exact Or.inr (hmixed b hb a ha hkindb hkinda hdoneb husea hdonea hne.symm
          fun hdis => hshare hdis.symm)
      · have huseb := (usedBy_snoc.mp husesb).resolve_left hdoneb
        exact absurd (hdisjoint a (hplaced a ha hkinda husea) b (hplaced b hb hkindb huseb) hne)
          hshare

end Placed

/-- After every run that is not stopped, buffers that share memory are used one after the other. -/
theorem runLinearScan_safe {maxMemSize : ℕ} (hsize : maxMemSize < 2 ^ 63) (hops : Scheduled ops)
    (hfreed : FreedAfterUse bufs ops)
    {depsInfo deps : AsyncDepsInfo} {scan : Scan V}
    (hrun : runLinearScan bufs order maxMemSize ops depsInfo = some (scan, deps)) :
    SafeReuse bufs ops scan.address := by
  unfold runLinearScan at hrun
  simp only [Option.bind_eq_bind, Option.bind_eq_some_iff, Option.guard_eq_some', exists_const,
    Option.pure_def, Option.some.injEq, Prod.mk.injEq] at hrun
  obtain ⟨hpos, scan₀, hinit, st, hloop, st', hremaining, edges, -, rfl, -⟩ := hrun
  have hprocess : processOps bufs order maxMemSize ops = some st := by
    simp [processOps, hpos, hinit, hloop]
  obtain ⟨t, -, hholding, hsafe⟩ := processOps_keeps hsize hops.ordered
    (P := fun done st => Safe bufs ops done st)
    (fun scan => ⟨by simp [start, InEntry], by simp [UsedBy], by simp [UsedBy]⟩)
    (fun done op rest hsplit t st st' _ _ hprocessed hholding hsafe =>
      hsafe.snoc hops hfreed hsplit hprocessed hholding) (List.append_nil ops).symm hprocess
  have haddress := (freeRemaining_live hholding.alive.live hremaining).1
  intro a ha b hb hkinda hkindb hne hshare
  rw [haddress] at hshare
  by_cases husea : UsedBy bufs ops a
  · by_cases huseb : UsedBy bufs ops b
    · exact hsafe.safe a ha b hb hkinda hkindb husea huseb hne hshare
    · exact Or.inl fun _ _ _ op' hop' huse => absurd ⟨op', hop', huse⟩ huseb
  · exact Or.inl fun op hop huse => absurd ⟨op, hop, huse⟩ husea

theorem runLinearScan_safe_pair : ∃ scan deps,
    runLinearScan (pairBuffers fun val => {val.val}) id 64 [readOp 0 0 10 0, readOp 1 10 20 1]
      ⟨fun _ => ∅, none⟩ = some (scan, deps) ∧
    SafeReuse (pairBuffers fun val => {val.val}) [readOp 0 0 10 0, readOp 1 10 20 1]
      scan.address := by
  have hsome : (runLinearScan (pairBuffers fun val => {val.val}) id 64
      [readOp 0 0 10 0, readOp 1 10 20 1] ⟨fun _ => ∅, none⟩).isSome = true := by decide +kernel
  obtain ⟨⟨scan, deps⟩, hrun⟩ := Option.isSome_iff_exists.mp hsome
  refine ⟨scan, deps, hrun, runLinearScan_safe (by decide) ?_ ?_ hrun⟩
  · exact ⟨by decide, by decide, by decide⟩
  · intro before last mid first rest hsplit val _ _ _ _ _ op hop
    have hlength := congrArg List.length hsplit
    simp only [List.length_cons, List.length_append, List.length_nil] at hlength
    rw [List.eq_nil_of_length_eq_zero (show before.length = 0 by omega)] at hop
    simp at hop

/-- The first user of the buffer runs until cycle 100, but the last one ends in cycle 20. -/
theorem not_runLinearScan_safe : ∃ scan deps,
    runLinearScan (pairBuffers sharedUsers) id 64
      [readOp 0 0 100 0, readOp 1 10 20 0, readOp 2 20 30 1] ⟨fun _ => ∅, none⟩ =
        some (scan, deps) ∧
    ¬ SafeReuse (pairBuffers sharedUsers)
      [readOp 0 0 100 0, readOp 1 10 20 0, readOp 2 20 30 1] scan.address := by
  have hplaced : ((runLinearScan (pairBuffers sharedUsers) id 64
      [readOp 0 0 100 0, readOp 1 10 20 0, readOp 2 20 30 1] ⟨fun _ => ∅, none⟩).map
        fun result => (result.1.address 0, result.1.address 1)) = some (0, 0) := by decide +kernel
  obtain ⟨⟨scan, deps⟩, hrun, haddress⟩ := Option.map_eq_some_iff.mp hplaced
  obtain ⟨hzero, hone⟩ := Prod.mk.inj haddress
  refine ⟨scan, deps, hrun, ?_⟩
  intro hsafe
  have hshare := hsafe 0 (by decide) 1 (by decide) rfl rfl (by decide)
  rw [hzero, hone] at hshare
  have hbytes : ¬ Disjoint (bytes (0, (pairBuffers sharedUsers).size 0))
      (bytes (0, (pairBuffers sharedUsers).size 1)) := by
    rw [Set.not_disjoint_iff]
    exact ⟨0, by simp [bytes, pairBuffers], by simp [bytes, pairBuffers]⟩
  rcases hshare hbytes with hends | hends
  · exact absurd (hends (readOp 0 0 100 0) (by simp) (by decide) (readOp 2 20 30 1) (by simp)
      (by decide)) (by decide)
  · exact absurd (hends (readOp 2 20 30 1) (by simp) (by decide) (readOp 0 0 100 0) (by simp)
      (by decide)) (by decide)

end Vpux.Memory.StaticAllocation
