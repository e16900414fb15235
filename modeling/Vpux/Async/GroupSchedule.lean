import Vpux.Async.GroupedUses

/-! A run of merges keeps the data flow, and keeps the schedule exactly when no merge pulls an
operation before a dependency, or delays it past a user, of the other one. -/
namespace Vpux.Async.Group
open Data

variable {L E M : Type} {func func' before after : Func L E M} {p e : ℕ}
  {prev exec : ExecuteOp L E M}

/-- Every operation begins no earlier than the end of each operation it depends on. -/
def Timed (func : Func L E M) : Prop :=
  ∀ d dep u user, (d, .execute dep) ∈ func → (u, .execute user) ∈ func →
    (∃ val ∈ (Op.execute user).uses, val.owner = some d) → dep.cycleEnd ≤ user.cycleBegin

/-- The dependencies of each of the two operations have ended when the other one begins, and the
users of each begin when the other one has ended. The users of the results of the first one are
users of the second one, so that only the users of its token are left. -/
structure FitsSchedule (func : Func L E M) (p e : ℕ) (prev exec : ExecuteOp L E M) : Prop where
  prevDeps : ∀ d dep, (d, .execute dep) ∈ func →
    (∃ val ∈ (Op.execute prev).uses, val.owner = some d) → dep.cycleEnd ≤ exec.cycleBegin
  execDeps : ∀ d dep, (d, .execute dep) ∈ func →
    (∃ val ∈ (Op.execute exec).uses, val.owner = some d) → dep.cycleEnd ≤ prev.cycleBegin
  prevUsers : ∀ u user, (u, .execute user) ∈ func → .token p ∈ (Op.execute user).uses →
    exec.cycleEnd ≤ user.cycleBegin
  execUsers : ∀ u user, (u, .execute user) ∈ func →
    (∃ val ∈ (Op.execute user).uses, val.owner = some e) → prev.cycleEnd ≤ user.cycleBegin

variable [DecidableEq E] [DecidableEq M]

theorem Groups.uses_of_result (h : Groups func before after p e prev exec) (hvalid : Valid func)
    {u idx : ℕ} {user : ExecuteOp L E M} (hmem : (u, .execute user) ∈ func)
    (huse : .result p idx ∈ (Op.execute user).uses) :
    ∃ val ∈ (Op.execute user).uses, val.owner = some e := by
  obtain ⟨-, hexec⟩ := mem_pair h.split
  have hne : u ≠ e := by
    rintro rfl
    cases hvalid.unique hmem hexec
    exact h.independent _ huse rfl
  have hin : some u ∈ resultUsers func p := by
    refine List.mem_map.mpr ⟨(u, .execute user), List.mem_filter.mpr ⟨hmem, ?_⟩, rfl⟩
    exact List.any_eq_true.mpr ⟨_, huse, by simp [Value.isResultOf]⟩
  have hboth : some u ∈ resultUsers func e := by
    by_contra hnot
    have hunique : prevHasUniqueUsers func p e = true := by
      refine List.any_eq_true.mpr ⟨some u, List.mem_filter.mpr ⟨hin, ?_⟩, by simpa using hnot⟩
      simpa using hne
    rw [h.users] at hunique
    cases hunique
  obtain ⟨⟨u', kind⟩, hfilter, heq⟩ := List.mem_map.mp hboth
  obtain ⟨hmem', hany⟩ := List.mem_filter.mp hfilter
  have hu : u' = u := by
    split_ifs at heq
    exact Option.some.inj heq
  subst hu
  cases hvalid.unique hmem hmem'
  obtain ⟨val, hval, hresult⟩ := List.any_eq_true.mp hany
  refine ⟨val, hval, ?_⟩
  cases val with
  | result op idx => simpa [Value.isResultOf, Value.owner] using hresult
  | token op => simp [Value.isResultOf] at hresult
  | argument idx => simp [Value.isResultOf] at hresult

omit [DecidableEq E] [DecidableEq M] in
theorem Renamed.owner {op op' : ℕ} {execOp execOp' : ExecuteOp L E M}
    (h : Renamed (groupedValue func p e prev) op execOp op' execOp') {val : Value}
    (howner : val.owner = some op) : (groupedValue func p e prev val).owner = some op' := by
  have htoken : (groupedValue func p e prev (.token op)).owner = some op' := by
    rw [h.token]
    rfl
  rw [groupedValue, owner_redirect] at htoken ⊢
  rw [howner]
  exact htoken

section

variable (h : Groups func before after p e prev exec) (hvalid : Valid func)
include h hvalid

theorem timed_of_grouped (htimed : Timed (groupedFunc func before after p e prev exec)) :
    Timed func := by
  rintro d dep u user hdep huser ⟨val, hval, howner⟩
  obtain ⟨d', dep', hdep', hdepNew⟩ := h.renamed hvalid hdep
  obtain ⟨u', user', huser', huserNew⟩ := h.renamed hvalid huser
  have hle := htimed d' dep' u' user' hdep' huser' ⟨_, huserNew.uses hval, hdepNew.owner howner⟩
  exact hdepNew.cycleEnd.trans (hle.trans huserNew.cycleBegin)

theorem fits_of_grouped (htimed : Timed (groupedFunc func before after p e prev exec)) :
    FitsSchedule func p e prev exec := by
  have hsurr := h.surroundings hvalid
  have hnew := h.mem_grouped hvalid
  -- what the new operation depends on, and what depends on it
  have hdeps : ∀ d dep, (d, .execute dep) ∈ func →
      (∃ val ∈ (Op.execute (groupedOp prev exec)).uses, val.owner = some d) →
        dep.cycleEnd ≤ (groupedOp prev exec).cycleBegin := by
    rintro d dep hdep ⟨val, hval, howner⟩
    obtain ⟨d', dep', hdep', hdepNew⟩ := h.renamed hvalid hdep
    have howner' := hdepNew.owner howner
    rw [hsurr.groupedValue_eq (hsurr.defines_groupedOp hval)] at howner'
    exact hdepNew.cycleEnd.trans (htimed d' dep' _ _ hdep' hnew ⟨val, hval, howner'⟩)
  have husers : ∀ u user, (u, .execute user) ∈ func →
      (∃ val ∈ (Op.execute user).uses, val.owner = some p ∨ val.owner = some e) →
        (groupedOp prev exec).cycleEnd ≤ user.cycleBegin := by
    rintro u user huser ⟨val, hval, howner⟩
    obtain ⟨u', user', huser', huserNew⟩ := h.renamed hvalid huser
    refine (htimed _ _ u' user' hnew huser' ⟨_, huserNew.uses hval, ?_⟩).trans
      huserNew.cycleBegin
    rw [groupedValue, owner_redirect, if_pos howner]
  constructor
  · rintro d dep hdep ⟨val, hval, howner⟩
    exact (hdeps d dep hdep ⟨val, mem_uses_groupedOp.mpr (Or.inl hval), howner⟩).trans
      (min_le_right _ _)
  · rintro d dep hdep ⟨val, hval, howner⟩
    exact (hdeps d dep hdep ⟨val, mem_uses_groupedOp.mpr (Or.inr hval), howner⟩).trans
      (min_le_left _ _)
  · intro u user huser htoken
    exact (le_max_right _ _).trans (husers u user huser ⟨_, htoken, Or.inl rfl⟩)
  · rintro u user huser ⟨val, hval, howner⟩
    exact (le_max_left _ _).trans (husers u user huser ⟨val, hval, Or.inr howner⟩)

theorem timed_grouped (htimed : Timed func) (hfits : FitsSchedule func p e prev exec) :
    Timed (groupedFunc func before after p e prev exec) := by
  obtain ⟨hprev, hexec⟩ := mem_pair h.split
  -- an operation other than the new one has kept its cycles
  have hold : ∀ {op execOp}, (op, .execute execOp) ∈ groupedFunc func before after p e prev exec →
      op ≠ newOp func → ∃ old, (op, .execute old) ∈ func ∧ op ≠ p ∧ op ≠ e ∧
        Op.execute execOp = (Op.execute old).mapUses (groupedValue func p e prev) := by
    intro op execOp hmem hne
    rcases (mem_groupedFunc h hvalid).mp hmem with ⟨heq, -⟩ | ⟨hp, he, old, hin, heq⟩
    · exact absurd heq hne
    · cases old with
      | execute old => exact ⟨old, hin, hp, he, heq⟩
      | other label operands => cases heq
  rintro d dep u user hdep huser ⟨val, hval, howner⟩
  by_cases hu : u = newOp func
  · subst hu
    cases (valid_grouped h hvalid).unique huser (h.mem_grouped hvalid)
    have hd : d ≠ newOp func := by
      rintro rfl
      rcases mem_uses_groupedOp.mp hval with huse | huse
      · exact newOp_notMem func (hvalid.owner_mem hprev huse howner)
      · exact newOp_notMem func (hvalid.owner_mem hexec huse howner)
    obtain ⟨old, hin, -, -, heq⟩ := hold hdep hd
    cases heq
    rcases mem_uses_groupedOp.mp hval with huse | huse
    · exact le_min (htimed d old p prev hin hprev ⟨val, huse, howner⟩)
        (hfits.prevDeps d old hin ⟨val, huse, howner⟩)
    · exact le_min (hfits.execDeps d old hin ⟨val, huse, howner⟩)
        (htimed d old e exec hin hexec ⟨val, huse, howner⟩)
  · obtain ⟨old, hin, hp, he, heq⟩ := hold huser hu
    rw [heq, uses_mapUses] at hval
    cases heq
    obtain ⟨val, huse, rfl⟩ := List.mem_map.mp hval
    rw [groupedValue, owner_redirect] at howner
    split_ifs at howner with hpair
    · cases howner
      cases (valid_grouped h hvalid).unique hdep (h.mem_grouped hvalid)
      rcases hpair with hpair | hpair
      · refine max_le (htimed p prev u old hprev hin ⟨val, huse, hpair⟩) ?_
        cases val with
        | token op =>
          cases hpair
          exact hfits.prevUsers u old hin huse
        | result op idx =>
          cases hpair
          exact htimed e exec u old hexec hin (h.uses_of_result hvalid hin huse)
        | argument idx => cases hpair
      · exact max_le (hfits.execUsers u old hin ⟨val, huse, hpair⟩)
          (htimed e exec u old hexec hin ⟨val, huse, hpair⟩)
    · have hd : d ≠ newOp func := by
        rintro rfl
        exact newOp_notMem func (hvalid.owner_mem hin huse howner)
      obtain ⟨oldDep, hinDep, -, -, heq⟩ := hold hdep hd
      cases heq
      exact htimed d oldDep u old hinDep hin ⟨val, huse, howner⟩

theorem timed_grouped_iff :
    Timed (groupedFunc func before after p e prev exec) ↔
      Timed func ∧ FitsSchedule func p e prev exec :=
  ⟨fun htimed => ⟨timed_of_grouped h hvalid htimed, fits_of_grouped h hvalid htimed⟩,
    fun hboth => timed_grouped h hvalid hboth.1 hboth.2⟩

end

section Run

omit [DecidableEq E] [DecidableEq M] in
theorem Valid.pair_unique (hvalid : Valid func) {before' after' : Func L E M} {p' : ℕ}
    {prev' exec' : ExecuteOp L E M}
    (h : func = before ++ (p, .execute prev) :: (e, .execute exec) :: after)
    (h' : func = before' ++ (p', .execute prev') :: (e, .execute exec') :: after') :
    p' = p ∧ prev' = prev ∧ exec' = exec := by
  cases hvalid.unique (mem_pair h).2 (mem_pair h').2
  have hnodup : (func.map Prod.fst).Nodup := hvalid.nodup List.nodup_nil
  have hnodup' := List.Nodup.of_map _ hnodup
  have hlist : before ++ [(p, Op.execute prev)] ++ (e, .execute exec) :: after =
      before' ++ [(p', .execute prev')] ++ (e, .execute exec) :: after' := by
    simpa using h.symm.trans h'
  have hfunc : func = before ++ [(p, Op.execute prev)] ++ (e, .execute exec) :: after := by
    simpa using h
  rw [hfunc, List.nodup_append, List.nodup_cons] at hnodup'
  obtain ⟨-, ⟨hback, -⟩, hapart⟩ := hnodup'
  have hfront : (e, Op.execute exec) ∉ before ++ [(p, Op.execute prev)] :=
    fun hin => hapart _ hin _ (by simp) rfl
  have hheads := ((List.append_cons_inj_of_notMem hfront hback).mp hlist).1
  have hlast := (List.append_inj' hheads rfl).2
  simpa [eq_comm] using hlast

/-- What the merges of an operation with the one before it ask of the schedule. -/
def FitsAt (func : Func L E M) (e : ℕ) : Prop :=
  ∀ before after p prev exec, func = before ++ (p, .execute prev) :: (e, .execute exec) :: after →
    FitsSchedule func p e prev exec

/-- The same operations receive the same operands from new users, without a cycle. -/
structure KeepsDataFlow (func func' : Func L E M) : Prop where
  receives : ∀ (α : Type) [Inhabited α] (sem : L → List α → ℕ → α) (buffers arguments : ℕ → α),
    receives sem buffers (startEnv arguments) func' = receives sem buffers (startEnv arguments) func
  redirects : ∃ ρ, Redirects func func' ρ
  acyclic : Acyclic func'

variable {info : E → Option Bool}

/-- The merges of a run and the functions that they find. -/
def MergesOf (info : E → Option Bool) (func : Func L E M) (calls : List ℕ)
    (holds : Func L E M → ℕ → Func L E M → Prop) : Prop :=
  ∀ before call after, calls = before ++ call :: after → ∀ g g',
    before.foldlM (matchAndRewrite info) func = .ok g → matchAndRewrite info g call = .ok g' →
      holds g call g'

theorem mergesOf_cons {call : ℕ} {calls : List ℕ} {holds : Func L E M → ℕ → Func L E M → Prop}
    (h : matchAndRewrite info func call = .ok func') :
    MergesOf info func (call :: calls) holds ↔
      holds func call func' ∧ MergesOf info func' calls holds := by
  constructor
  · intro hall
    refine ⟨hall [] call calls rfl func func' rfl h, ?_⟩
    intro before c after hsplit g g' hbefore hmerge
    refine hall (call :: before) c after (by rw [hsplit]; rfl) g g' ?_ hmerge
    rw [List.foldlM_cons, h]
    exact hbefore
  · rintro ⟨hfirst, hrest⟩ before c after hsplit g g' hbefore hmerge
    cases before with
    | nil =>
      cases hsplit
      cases hbefore
      cases h.symm.trans hmerge
      exact hfirst
    | cons first before =>
      cases hsplit
      rw [List.foldlM_cons, h] at hbefore
      exact hrest before c after rfl g g' hbefore hmerge

theorem run_valid {calls : List ℕ} (hvalid : Valid func)
    (hrun : calls.foldlM (matchAndRewrite info) func = .ok func') :
    Valid func' ∧ KeepsDataFlow func func' ∧
      MergesOf info func calls (fun g call g' => ∃ p, UsesGrouped g g' p call) ∧
      (Timed func' ↔ Timed func ∧ MergesOf info func calls fun g call _ => FitsAt g call) := by
  induction calls generalizing func with
  | nil =>
    cases hrun
    refine ⟨hvalid, ⟨fun _ _ _ _ _ => rfl, ⟨id, .refl _⟩, hvalid.acyclic⟩, ?_, ?_⟩
    · intro before call after hsplit
      simp at hsplit
    · refine (and_iff_left ?_).symm
      intro before call after hsplit
      simp at hsplit
  | cons call calls ih =>
    obtain ⟨mid, hmerge, hrest⟩ := bind_eq_ok.mp hrun
    obtain ⟨before, after, p, prev, exec, hgroups, rfl⟩ := matchAndRewrite_cases hmerge
    obtain ⟨hvalid', hflow, huses, htimed⟩ := ih (valid_grouped hgroups hvalid) hrest
    have hfits : FitsAt func call ↔ FitsSchedule func p call prev exec := by
      constructor
      · exact fun hall => hall before after p prev exec hgroups.split
      · intro hfit before' after' p' prev' exec' hsplit
        obtain ⟨rfl, rfl, rfl⟩ := hvalid.pair_unique hgroups.split hsplit
        exact hfit
    have hpair := usesGrouped hgroups hvalid
    refine ⟨hvalid', ⟨?_, ?_, hflow.acyclic⟩, ?_, ?_⟩
    · intro α _ sem buffers arguments
      rw [hflow.receives α sem buffers arguments, receives_grouped sem buffers _ hgroups hvalid]
    · obtain ⟨ρ, new, hredirects, -⟩ := hpair.redirects
      obtain ⟨ρ', hredirects'⟩ := hflow.redirects
      exact ⟨ρ' ∘ ρ, hredirects.trans hredirects'⟩
    · exact (mergesOf_cons hmerge).mpr ⟨⟨p, hpair⟩, huses⟩
    · rw [htimed, timed_grouped_iff hgroups hvalid, mergesOf_cons hmerge, hfits, and_assoc]

/-- After any run of merges every operation of a body receives the same operands, the users of each
merged pair use the new operation, and no dependencies form a cycle; the schedule is kept exactly
when each merge fits it. -/
theorem groupAsyncExecuteOps_iff (info : E → Option Bool) (func func' : Func L E M)
    (hvalid : Valid func) (htimed : Timed func) (calls : List ℕ)
    (hrun : calls.foldlM (matchAndRewrite info) func = .ok func') :
    KeepsDataFlow func func' ∧
      MergesOf info func calls (fun g call g' => ∃ p, UsesGrouped g g' p call) ∧
      (Timed func' ↔ MergesOf info func calls fun g call _ => FitsAt g call) := by
  obtain ⟨-, hflow, huses, hiff⟩ := run_valid hvalid hrun
  exact ⟨hflow, huses, hiff.trans (and_iff_right htimed)⟩

end Run

section Copies

def Exclusive (func : Func L E M) : Prop :=
  ∀ a opA b opB, (a, .execute opA) ∈ func → (b, .execute opB) ∈ func → a ≠ b →
    opA.executor = opB.executor → opA.cycleEnd ≤ opB.cycleBegin ∨ opB.cycleEnd ≤ opA.cycleBegin

def copyOp (dependencies : List Value) (executor cycleBegin cycleEnd : ℕ) : ExecuteOp ℕ ℕ ℕ where
  dependencies := dependencies
  operands := []
  body := ⟨[⟨0, [.outer 0]⟩], [.result 0 0]⟩
  executor := executor
  executorInstanceMask := none
  cycleBegin := cycleBegin
  cycleEnd := cycleEnd
  cycleCost := cycleEnd - cycleBegin

/-- Two copies on one executor, and one on another that waits for the first or the second one. -/
def copies (waitsFor : Fin 2) : Func ℕ ℕ ℕ :=
  [(0, .execute (copyOp [] 0 0 10)), (1, .execute (copyOp [] 0 10 20)),
    (2, .execute (copyOp [.token waitsFor] 1 (10 + 10 * waitsFor) 30))]

theorem mem_copies {waitsFor : Fin 2} {op : ℕ} {execOp : ExecuteOp ℕ ℕ ℕ}
    (h : (op, .execute execOp) ∈ copies waitsFor) :
    (op = 0 ∧ execOp = copyOp [] 0 0 10) ∨ (op = 1 ∧ execOp = copyOp [] 0 10 20) ∨
      (op = 2 ∧ execOp = copyOp [.token waitsFor] 1 (10 + 10 * waitsFor) 30) := by
  simpa [copies] using h

theorem scoped_copyOp (dependencies : List Value) (executor cycleBegin cycleEnd : ℕ) :
    (copyOp dependencies executor cycleBegin cycleEnd).Scoped := by
  constructor
  · simp [copyOp, OpsScoped, BodyValue.Scoped]
  · simp [copyOp, BodyValue.Scoped]

theorem valid_copies (waitsFor : Fin 2) : Valid (copies waitsFor) := by
  have hwaits : Defines ([(0, .execute (copyOp [] 0 0 10)), (1, .execute (copyOp [] 0 10 20))] :
      Func ℕ ℕ ℕ) (.token waitsFor) := by
    revert waitsFor
    exact Fin.forall_fin_two.mpr
      ⟨⟨_, List.mem_cons_self⟩, ⟨_, List.mem_cons_of_mem _ List.mem_cons_self⟩⟩
  refine ⟨by simp [Op.uses, copyOp], by simp, scoped_copyOp _ _ _ _, by simp [Op.uses, copyOp],
    by simp, scoped_copyOp _ _ _ _, ?_, by simp, scoped_copyOp _ _ _ _, trivial⟩
  simpa [Op.uses, copyOp] using hwaits

theorem timed_copies (waitsFor : Fin 2) : Timed (copies waitsFor) := by
  rintro d dep u user hdep huser ⟨val, hval, howner⟩
  rcases mem_copies huser with ⟨rfl, rfl⟩ | ⟨rfl, rfl⟩ | ⟨rfl, rfl⟩
  · simp [Op.uses, copyOp] at hval
  · simp [Op.uses, copyOp] at hval
  · have htoken : val = .token waitsFor := by simpa [Op.uses, copyOp] using hval
    subst htoken
    have hd : (waitsFor : ℕ) = d := Option.some.inj howner
    rcases mem_copies hdep with ⟨rfl, rfl⟩ | ⟨rfl, rfl⟩ | ⟨rfl, rfl⟩
    · simp [copyOp]
    · simp only [copyOp]
      omega
    · omega

theorem exclusive_copies (waitsFor : Fin 2) : Exclusive (copies waitsFor) := by
  intro a opA b opB hA hB hne hexecutor
  rcases mem_copies hA with ⟨rfl, rfl⟩ | ⟨rfl, rfl⟩ | ⟨rfl, rfl⟩ <;>
    rcases mem_copies hB with ⟨rfl, rfl⟩ | ⟨rfl, rfl⟩ | ⟨rfl, rfl⟩ <;>
    simp_all [copyOp]

def mergedCopies (waitsFor : Fin 2) : Func ℕ ℕ ℕ :=
  [(3, .execute
      { copyOp [] 0 0 20 with
        body := ⟨[⟨0, [.outer 0]⟩, ⟨0, [.outer 0]⟩], [.result 0 0, .result 1 0]⟩ }),
    (2, .execute (copyOp [.token 3] 1 (10 + 10 * waitsFor) 30))]

theorem merge_copies (waitsFor : Fin 2) :
    [1].foldlM (matchAndRewrite fun _ => some true) (copies waitsFor) =
      .ok (mergedCopies waitsFor) := by
  revert waitsFor
  exact Fin.forall_fin_two.mpr ⟨rfl, rfl⟩

theorem timed_mergedCopies : Timed (mergedCopies 1) := by
  rintro d dep u user hdep huser ⟨val, hval, howner⟩
  simp only [mergedCopies, List.mem_cons, List.not_mem_nil, or_false, Prod.mk.injEq,
    Op.execute.injEq] at hdep huser
  rcases huser with ⟨rfl, rfl⟩ | ⟨rfl, rfl⟩
  · simp [Op.uses, copyOp] at hval
  · have htoken : val = .token 3 := by simpa [Op.uses, copyOp] using hval
    subst htoken
    rcases hdep with ⟨rfl, rfl⟩ | ⟨rfl, rfl⟩
    · simp [copyOp]
    · cases howner

/-- A copy that waits for the second one still begins in time. -/
theorem groupAsyncExecuteOps_copies : KeepsDataFlow (copies 1) (mergedCopies 1) ∧
    MergesOf (fun _ => some true) (copies 1) [1] fun g call _ => FitsAt g call := by
  obtain ⟨hflow, -, hiff⟩ := groupAsyncExecuteOps_iff (fun _ => some true) (copies 1)
    (mergedCopies 1) (valid_copies 1) (timed_copies 1) [1] (merge_copies 1)
  exact ⟨hflow, hiff.mp timed_mergedCopies⟩

/-- A copy that waits for the token of the first one only begins before the merged ones end. -/
theorem not_timed_mergedCopies : Valid (copies 0) ∧ Timed (copies 0) ∧ Exclusive (copies 0) ∧
    [1].foldlM (matchAndRewrite fun _ => some true) (copies 0) = .ok (mergedCopies 0) ∧
    ¬ Timed (mergedCopies 0) := by
  refine ⟨valid_copies 0, timed_copies 0, exclusive_copies 0, merge_copies 0, ?_⟩
  intro htimed
  have hle := htimed 3 _ 2 _ List.mem_cons_self (List.mem_cons_of_mem _ List.mem_cons_self)
    ⟨.token 3, List.mem_cons_self, rfl⟩
  exact absurd hle (by decide)

end Copies

end Vpux.Async.Group
