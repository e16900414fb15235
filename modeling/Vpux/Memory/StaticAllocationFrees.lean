import Vpux.Memory.StaticAllocationRun

/-! Static allocation gives back the memory of every dead buffer, when no operation takes over the
entry of the end cycle at which the buffer waits. -/
namespace Vpux.Memory.StaticAllocation
open Data LinearScan Partitioner

variable {V : Type} [DecidableEq V] {bufs : Buffers V} {order : AllocatedAddrs → AllocatedAddrs}
  {ops done rest : List (ExecuteOp V)} {st st' : State V} {maxMemSize : ℕ} {val : V}

/-- While a buffer waits for the end of its last user, the operation takes over its entry. -/
structure Displaces (bufs : Buffers V) (before : List (ExecuteOp V)) (op : ExecuteOp V) (val : V) :
    Prop where
  allDone : AllDone bufs before val
  waits : ∃ last, lastUser bufs before val = some last ∧ last.cycleEnd = op.cycleEnd ∧
    op.cycleBegin < last.cycleEnd

/-- A buffer of the memory kind that an operation uses has no other users than the operations, and
its entry is not taken over. -/
structure KeepsEntries (bufs : Buffers V) (ops : List (ExecuteOp V)) : Prop where
  users : ∀ val ∈ bufs.values, bufs.inMemKind val = true → UsedBy bufs ops val →
    AllDone bufs ops val
  entries : ∀ before op after, ops = before ++ op :: after → ∀ val ∈ bufs.values,
    bufs.inMemKind val = true → ¬ Displaces bufs before op val

/-- The buffers that hold memory when the new buffers of an operation are allocated. -/
def heldAt (bufs : Buffers V) (order : AllocatedAddrs → AllocatedAddrs) (maxMemSize : ℕ)
    (before : List (ExecuteOp V)) (op : ExecuteOp V) : Option (List V) := do
  let st ← processOps bufs order maxMemSize before
  let (_, st) ← freeEnded bufs op.cycleBegin st.freeBuffersCycleEnd st
  let st ← allocNewBuffers bufs order (st.liveRangeInfo.getUsedBuffers op.index) st
  return st.scan.liveRanges

/-- The buffers that hold memory after the remaining ones have been freed. -/
def heldAtEnd (bufs : Buffers V) (order : AllocatedAddrs → AllocatedAddrs) (maxMemSize : ℕ)
    (ops : List (ExecuteOp V)) : Option (List V) := do
  let st ← processOps bufs order maxMemSize ops
  let st ← freeRemaining bufs st
  return st.scan.liveRanges

/-- A buffer holds memory until its last user only, or until a user of it has ended, and no buffer
holds memory at the end. -/
structure FreesDeadBuffers (bufs : Buffers V) (order : AllocatedAddrs → AllocatedAddrs)
    (maxMemSize : ℕ) (ops : List (ExecuteOp V)) : Prop where
  needed : ∀ before op after, ops = before ++ op :: after →
    ∀ held, heldAt bufs order maxMemSize before op = some held → ∀ val ∈ held,
      (∃ user ∈ op :: after, user.index ∈ bufs.users val) ∨
        ∃ user ∈ ops, user.index ∈ bufs.users val ∧ op.cycleBegin < user.cycleEnd
  empty : ∀ held, heldAtEnd bufs order maxMemSize ops = some held → held = []

section

variable (hsize : maxMemSize < 2 ^ 63) (hops : Ordered ops)
include hsize hops

/-- Where no entry is taken over, every buffer whose users are done waits in an entry. -/
theorem processOps_waiting (hkeeps : KeepsEntries bufs ops) (hsplit : ops = done ++ rest)
    (hrun : processOps bufs order maxMemSize done = some st) :
    ∃ t, (∀ op ∈ rest, t ≤ op.cycleBegin) ∧ Holding maxMemSize bufs done t st ∧
      ∀ val ∈ st.aliveValues, AllDone bufs done val →
        ∃ k, InEntry st.freeBuffersCycleEnd k val := by
  refine processOps_keeps hsize hops (P := fun done st => ∀ val ∈ st.aliveValues,
    AllDone bufs done val → ∃ k, InEntry st.freeBuffersCycleEnd k val) ?_ ?_ hsplit hrun
  · simp [start]
  · intro done op rest hsplit t st st' ht hholding hprocessed _ hP val hval hall
    by_cases huse : op.index ∈ bufs.users val
    · obtain ⟨hin, hkind⟩ : val ∈ bufs.values ∧ bufs.inMemKind val = true := by
        rcases (hprocessed.alive val).mp hval with ⟨hold, -⟩ | ⟨hin, hkind, -⟩
        · exact ⟨(hholding.alive.known val hold).1, (hholding.alive.known val hold).2.1⟩
        · exact ⟨hin, hkind⟩
      exact ⟨op.cycleEnd, (hprocessed.entries _ val).mpr (Or.inl ⟨rfl, hin, hkind, huse, hall⟩)⟩
    · obtain ⟨hold, hlater⟩ := ((hprocessed.alive val).mp hval).resolve_right (fun h => huse h.2.2)
      obtain ⟨k, hk⟩ := hP val hold (hall.of_snoc huse)
      obtain ⟨hin, hkind, hdone, last, hlast, rfl⟩ := hholding.waits k val hk
      -- the entry of another operation that ends in the same cycle would be taken over
      have hne : last.cycleEnd ≠ op.cycleEnd := by
        intro heq
        exact hkeeps.entries done op rest hsplit val hin hkind
          ⟨hdone, last, hlast, heq, hlater _ hk⟩
      exact ⟨last.cycleEnd, (hprocessed.entries _ val).mpr (Or.inr ⟨hne, hlater _ hk, hk⟩)⟩

theorem processOps_lost (hrun : processOps bufs order maxMemSize ops = some st)
    (hval : val ∈ bufs.values) (hkind : bufs.inMemKind val = true)
    (hdisplaces : ∃ before op after, ops = before ++ op :: after ∧ Displaces bufs before op val) :
    val ∈ st.aliveValues ∧ ∀ k, ¬ InEntry st.freeBuffersCycleEnd k val := by
  have hrun' := processOps_keeps hsize hops (P := fun done st => (∃ before op after,
    done = before ++ op :: after ∧ Displaces bufs before op val) →
      val ∈ st.aliveValues ∧ ∀ k, ¬ InEntry st.freeBuffersCycleEnd k val) ?_ ?_
        (List.append_nil ops).symm hrun
  · obtain ⟨-, -, -, hP⟩ := hrun'
    exact hP hdisplaces
  · intro scan h
    obtain ⟨before, op, after, hnil, -⟩ := h
    simp at hnil
  · rintro done op rest hsplit t st st' ht hholding hprocessed - hP ⟨before, d, after, hdone, hdisp⟩
    have hall : AllDone bufs done val ∧ val ∈ st.aliveValues ∧
        ∀ k, InEntry st.freeBuffersCycleEnd k val → op.cycleBegin < k ∧ k = op.cycleEnd := by
      rcases List.eq_nil_or_concat after with rfl | ⟨after', x, rfl⟩
      · -- this operation takes over the entry
        obtain ⟨rfl, rfl⟩ : done = before ∧ op = d := by simpa using hdone
        obtain ⟨last, hlast, hend, hlater⟩ := hdisp.waits
        have hentry : ∀ k, InEntry st.freeBuffersCycleEnd k val → k = last.cycleEnd := by
          intro k hk
          obtain ⟨last', hlast', rfl⟩ := (hholding.waits k val hk).last
          rw [Option.some.inj (hlast.symm.trans hlast')]
        refine ⟨hdisp.allDone, ?_, fun k hk => ⟨?_, (hentry k hk).trans hend⟩⟩
        · obtain ⟨hmem, huse⟩ := lastUser_eq_some hlast
          refine (hholding.alive.kept val hval hkind ⟨last, hmem, huse⟩).resolve_right ?_
          rintro ⟨-, last', hlast', hle⟩
          rw [← Option.some.inj (hlast.symm.trans hlast')] at hle
          omega
        · rw [hentry k hk]
          exact hlater
      · obtain ⟨rfl, rfl⟩ : done = before ++ d :: after' ∧ op = x := by
          rw [List.concat_eq_append, ← List.cons_append, ← List.append_assoc] at hdone
          simpa using List.append_inj' hdone rfl
        obtain ⟨halive, hnone⟩ := hP ⟨before, d, after', rfl, hdisp⟩
        exact ⟨hdisp.allDone.append _, halive, fun k hk => absurd hk (hnone k)⟩
    obtain ⟨hdone', halive, hentry⟩ := hall
    refine ⟨(hprocessed.alive val).mpr (Or.inl ⟨halive, fun k hk => (hentry k hk).1⟩), ?_⟩
    intro k hk
    rcases (hprocessed.entries k val).mp hk with ⟨-, -, -, huse, -⟩ | ⟨hne, -, hold⟩
    · exact hdone'.notUsed hops hsplit huse
    · exact hne (hentry k hold).2

end

/-- With the entries kept every dead buffer is freed; in a run that is not stopped they have to be
kept. -/
theorem freesDeadBuffers_iff (hsize : maxMemSize < 2 ^ 63) (hops : Ordered ops) :
    (KeepsEntries bufs ops → FreesDeadBuffers bufs order maxMemSize ops) ∧
      ((heldAtEnd bufs order maxMemSize ops).isSome →
        FreesDeadBuffers bufs order maxMemSize ops → KeepsEntries bufs ops) := by
  constructor
  · intro hkeeps
    constructor
    · intro before op after hsplit held hheld val hval
      simp only [heldAt, Option.bind_eq_bind, Option.bind_eq_some_iff, Prod.exists,
        Option.pure_def, Option.some.injEq] at hheld
      obtain ⟨st, hrun, entries, st₁, hended, st₂, halloc, rfl⟩ := hheld
      obtain ⟨t, ht, hholding, hwaiting⟩ := processOps_waiting hsize hops hkeeps hsplit hrun
      obtain ⟨halive₁, -, hinfo, -, -, hmem₁⟩ :=
        freeEnded_alive (hholding.alive.later (ht op (by simp))) hholding.waits hended
      rw [MemLiveRangeInfo.getUsedBuffers, hinfo,
        hholding.left.used op.index (notMem_done hops.indices hsplit)] at halloc
      obtain ⟨halive₂, -, -, hmem₂⟩ := allocNewBuffers_alive hops hsplit halive₁ halloc
      rcases (hmem₂ val).mp ((halive₂.live val).mp hval) with hold | ⟨-, -, huse⟩
      · by_cases hlater : ∃ user ∈ op :: after, user.index ∈ bufs.users val
        · exact Or.inl hlater
        · right
          obtain ⟨hin, hkind, hused⟩ := halive₁.known val hold
          have hall : AllDone bufs before val := by
            intro user huser
            obtain ⟨d, hd, rfl⟩ := hkeeps.users val hin hkind
              (hused.imp fun d hd => ⟨hsplit ▸ List.mem_append_left _ hd.1, hd.2⟩) user huser
            rw [hsplit, List.mem_append] at hd
            exact ⟨d, hd.resolve_right fun hd => hlater ⟨d, hd, huser⟩, rfl⟩
          obtain ⟨halive, hnot⟩ := (hmem₁ val).mp hold
          obtain ⟨k, hk⟩ := hwaiting val halive hall
          obtain ⟨last, hlast, rfl⟩ := (hholding.waits k val hk).last
          obtain ⟨hmem, huse⟩ := lastUser_eq_some hlast
          exact ⟨last, hsplit ▸ List.mem_append_left _ hmem, huse, hnot _ hk⟩
      · exact Or.inl ⟨op, by simp, huse⟩
    · intro held hheld
      simp only [heldAtEnd, Option.bind_eq_bind, Option.bind_eq_some_iff, Option.pure_def,
        Option.some.injEq] at hheld
      obtain ⟨st, hrun, st', hremaining, rfl⟩ := hheld
      obtain ⟨t, -, hholding, hwaiting⟩ :=
        processOps_waiting hsize hops hkeeps (List.append_nil ops).symm hrun
      rw [List.eq_nil_iff_forall_not_mem]
      intro val hval
      obtain ⟨halive, hnone⟩ := ((freeRemaining_live hholding.alive.live hremaining).2 val).mp hval
      obtain ⟨hin, hkind, hused⟩ := hholding.alive.known val halive
      obtain ⟨k, hk⟩ := hwaiting val halive (hkeeps.users val hin hkind hused)
      exact hnone k hk
  · intro hsome hfrees
    obtain ⟨held, hheld⟩ := Option.isSome_iff_exists.mp hsome
    have hempty := hfrees.empty held hheld
    simp only [heldAtEnd, Option.bind_eq_bind, Option.bind_eq_some_iff, Option.pure_def,
      Option.some.injEq] at hheld
    obtain ⟨st, hrun, st', hremaining, rfl⟩ := hheld
    obtain ⟨t, -, hholding, -⟩ := processOps_keeps hsize hops (P := fun _ _ => True)
      (fun _ => trivial) (by intros; trivial) (List.append_nil ops).symm hrun
    -- a buffer that is alive and in no entry is never freed
    have hnone : ∀ val, val ∈ st.aliveValues →
        ¬ ∀ k, ¬ InEntry st.freeBuffersCycleEnd k val := by
      intro val halive hlost
      have hmem := ((freeRemaining_live hholding.alive.live hremaining).2 val).mpr ⟨halive, hlost⟩
      rw [hempty] at hmem
      simp at hmem
    constructor
    · intro val hval hkind hused
      by_contra hall
      have halive := (hholding.alive.kept val hval hkind hused).resolve_right fun h => hall h.1
      exact hnone val halive fun k hk => hall (hholding.waits k val hk).allDone
    · intro before op after hsplit val hval hkind hdisp
      obtain ⟨halive, hlost⟩ :=
        processOps_lost hsize hops hrun hval hkind ⟨before, op, after, hsplit, hdisp⟩
      exact hnone val halive hlost

/-- Two overlapping operations with a buffer each, the second one ending later. -/
theorem freesDeadBuffers_staggered :
    FreesDeadBuffers (pairBuffers fun val => {val.val}) id 128
      [readOp 0 0 10 0, readOp 1 5 15 1] := by
  refine (freesDeadBuffers_iff (by decide) ⟨by decide, by decide⟩).1 ⟨?_, ?_⟩
  · intro val _ _ hused user huser
    obtain ⟨op, hop, huse⟩ := hused
    refine ⟨op, hop, ?_⟩
    rw [Finset.mem_singleton.mp huser, Finset.mem_singleton.mp huse]
  · rintro before op after hsplit val - - ⟨-, last, hlast, hend, -⟩
    obtain ⟨hmem, -⟩ := lastUser_eq_some hlast
    rcases before with _ | ⟨first, _ | ⟨second, more⟩⟩
    · simp at hmem
    · simp only [List.cons_append, List.nil_append, List.cons.injEq] at hsplit
      obtain ⟨rfl, rfl, -⟩ := hsplit
      obtain rfl := List.mem_singleton.mp hmem
      exact absurd hend (by decide)
    · have hlength := congrArg List.length hsplit
      simp at hlength

/-- The second operation ends in the cycle in which the first one does. -/
theorem not_freesDeadBuffers_sameEnd :
    (heldAtEnd (pairBuffers fun val => {val.val}) id 128
      [readOp 0 0 10 0, readOp 1 5 10 1]) = some [0] ∧
    ¬ FreesDeadBuffers (pairBuffers fun val => {val.val}) id 128
      [readOp 0 0 10 0, readOp 1 5 10 1] := by
  have hheld : (heldAtEnd (pairBuffers fun val => {val.val}) id 128
      [readOp 0 0 10 0, readOp 1 5 10 1]) = some [0] := by decide +kernel
  refine ⟨hheld, fun hfrees => ?_⟩
  have hempty := hfrees.empty [0] hheld
  simp at hempty

end Vpux.Memory.StaticAllocation
