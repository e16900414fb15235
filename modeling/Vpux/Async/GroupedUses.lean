import Mathlib.Data.List.Nodup
import Mathlib.Logic.Relation
import Vpux.Async.GroupDataFlow

/-! The users of a merged pair use the new operation, and every operation still uses values that
are defined before it. -/
namespace Vpux.Async.Group

variable {L E M : Type} {scope scope' func before after : Func L E M} {p e : ℕ}
  {prev exec : ExecuteOp L E M} {ρ : Value → Value}

open List

section Scoped

theorem BodyValue.Scoped.mono {args args' ops ops' : ℕ} {val : BodyValue}
    (h : val.Scoped args ops) (hargs : args ≤ args') (hops : ops ≤ ops') :
    val.Scoped args' ops' := by
  cases val with
  | blockArg idx => exact Nat.lt_of_lt_of_le h hargs
  | result op idx => exact Nat.lt_of_lt_of_le h hops
  | outer buffer => trivial

theorem BodyValue.Scoped.shift {args ops : ℕ} {val : BodyValue} (h : val.Scoped args ops)
    (blockArgs ran : ℕ) : (val.shift blockArgs ran).Scoped (blockArgs + args) (ran + ops) := by
  cases val with
  | blockArg idx =>
    have hidx : idx < args := h
    simp only [BodyValue.shift, BodyValue.Scoped]
    omega
  | result op idx =>
    have hop : op < ops := h
    simp only [BodyValue.shift, BodyValue.Scoped]
    omega
  | outer buffer => trivial

theorem opsScoped_append {args ran : ℕ} {ops ops' : List (BodyOp L)} :
    OpsScoped args ran (ops ++ ops') ↔
      OpsScoped args ran ops ∧ OpsScoped args (ran + ops.length) ops' := by
  induction ops generalizing ran with
  | nil => simp [OpsScoped]
  | cons op ops ih =>
    simp only [cons_append, OpsScoped, ih, length_cons, and_assoc]
    rw [Nat.add_assoc, Nat.add_comm 1]

theorem OpsScoped.mono {args args' ran : ℕ} {ops : List (BodyOp L)} (h : OpsScoped args ran ops)
    (hargs : args ≤ args') : OpsScoped args' ran ops := by
  induction ops generalizing ran with
  | nil => trivial
  | cons op ops ih => exact ⟨fun val hval => (h.1 val hval).mono hargs le_rfl, ih h.2⟩

theorem OpsScoped.shift {args ran : ℕ} {ops : List (BodyOp L)} (h : OpsScoped args ran ops)
    (blockArgs before : ℕ) :
    OpsScoped (blockArgs + args) (before + ran) (ops.map (BodyOp.shift blockArgs before)) := by
  induction ops generalizing ran with
  | nil => trivial
  | cons op ops ih =>
    refine ⟨?_, ih h.2⟩
    intro val hval
    obtain ⟨old, hold, rfl⟩ := mem_map.mp hval
    exact (h.1 old hold).shift blockArgs before

theorem groupedOp_scoped (hprev : prev.Scoped) (hexec : exec.Scoped) :
    (groupedOp prev exec).Scoped := by
  constructor
  · simp only [groupedOp, mergeAsyncExecuteOps, length_append]
    rw [opsScoped_append, Nat.zero_add]
    exact ⟨hprev.ops.mono (Nat.le_add_right _ _), hexec.ops.shift _ _⟩
  · intro val hval
    simp only [groupedOp, mergeAsyncExecuteOps, length_append, length_map,
      mem_append, mem_map] at hval ⊢
    rcases hval with hval | ⟨old, hold, rfl⟩
    · exact (hprev.yields val hval).mono (Nat.le_add_right _ _) (Nat.le_add_right _ _)
    · exact (hexec.yields old hold).shift _ _

end Scoped

variable {kind : Op L E M}

section Valid

theorem hasResult_mapUses {idx : ℕ} : (kind.mapUses ρ).HasResult idx ↔ kind.HasResult idx := by
  cases kind <;> rfl

theorem scoped_mapUses (h : kind.Scoped) : (kind.mapUses ρ).Scoped := by
  cases kind with
  | execute execOp =>
    obtain ⟨hops, hyields⟩ := h
    exact ⟨by simpa using hops, by simpa using hyields⟩
  | other label operands => trivial

theorem uses_mapUses (kind : Op L E M) : (kind.mapUses ρ).uses = kind.uses.map ρ := by
  cases kind <;> simp [Op.mapUses, Op.uses]

/-- Operations whose values are defined under new names stay valid. -/
theorem validFrom_map (hvalid : ValidFrom scope after)
    (hdefines : ∀ val, Defines scope val → Defines scope' (ρ val))
    (hfixes : ∀ op ∈ after.map Prod.fst, Fixes ρ op)
    (hnew : ∀ op ∈ after.map Prod.fst, op ∉ scope'.map Prod.fst) :
    ValidFrom scope' (after.map fun op => (op.1, op.2.mapUses ρ)) := by
  induction after generalizing scope scope' with
  | nil => trivial
  | cons op after ih =>
    obtain ⟨op, kind⟩ := op
    obtain ⟨huses, hfresh, hscoped, hrest⟩ := hvalid
    refine ⟨?_, hnew op (by simp), scoped_mapUses hscoped, ih hrest ?_ ?_ ?_⟩
    · intro val hval
      rw [uses_mapUses] at hval
      obtain ⟨old, hold, rfl⟩ := mem_map.mp hval
      exact hdefines old (huses old hold)
    · intro val hval
      by_cases howner : val.owner = some op
      · rw [(hfixes op (by simp)).own val howner]
        cases val with
        | token o =>
          cases howner
          exact ⟨kind.mapUses ρ, by simp⟩
        | result o idx =>
          cases howner
          obtain ⟨k, hmem, hresult⟩ := hval
          have hk : k = kind := by
            rcases mem_append.mp hmem with hold | hlast
            · exact absurd (mem_map_of_mem hold) hfresh
            · simpa using hlast
          exact ⟨kind.mapUses ρ, by simp, hasResult_mapUses.mpr (hk ▸ hresult)⟩
        | argument idx => cases howner
      · exact (hdefines val (hval.of_snoc howner)).mono (subset_append_left _ _)
    · exact fun o ho => hfixes o (by simp [ho])
    · intro o ho hmem
      rw [map_append, mem_append] at hmem
      rcases hmem with hmem | hmem
      · exact hnew o (by simp [ho]) hmem
      · obtain rfl : o = op := by simpa using hmem
        exact hrest.notMem ho (by simp)

theorem owner_redirect (new results : ℕ) (val : Value) : (redirect p e new results val).owner =
    if val.owner = some p ∨ val.owner = some e then some new else val.owner := by
  cases val with
  | token op =>
    simp only [redirect, Value.owner, Option.some.injEq]
    split_ifs <;> rfl
  | result op idx =>
    simp only [redirect, Value.owner, Option.some.injEq]
    split_ifs <;> simp_all
  | argument idx => simp [redirect, Value.owner]

theorem ValidFrom.nodup (h : ValidFrom scope after) (hscope : (scope.map Prod.fst).Nodup) :
    ((scope ++ after).map Prod.fst).Nodup := by
  induction after generalizing scope with
  | nil => simpa using hscope
  | cons op after ih =>
    obtain ⟨-, hnew, -, hrest⟩ := h
    rw [show scope ++ op :: after = scope ++ [op] ++ after by simp]
    apply ih hrest
    rw [map_append, nodup_append]
    refine ⟨hscope, by simp, ?_⟩
    rintro a ha b hb rfl
    obtain rfl : a = op.1 := by simpa using hb
    exact hnew ha

theorem Valid.unique (h : Valid func) {op : ℕ} {kind kind' : Op L E M} (hmem : (op, kind) ∈ func)
    (hmem' : (op, kind') ∈ func) : kind = kind' := by
  have hnodup : (func.map Prod.fst).Nodup := h.nodup nodup_nil
  exact congrArg Prod.snd (inj_on_of_nodup_map hnodup hmem hmem' rfl)

theorem Valid.uses (h : Valid func) {op : ℕ × Op L E M}
    (hsplit : func = before ++ op :: after) : ∀ val ∈ op.2.uses, Defines before val := by
  rw [hsplit, Valid, validFrom_append, nil_append] at h
  exact h.2.1

theorem Valid.owner_mem (h : Valid func) {op o : ℕ} (hmem : (op, kind) ∈ func) {val : Value}
    (huse : val ∈ kind.uses) (howner : val.owner = some o) :
    o ∈ func.map Prod.fst := by
  obtain ⟨before, after, hsplit⟩ := append_of_mem hmem
  have hdefines := h.uses hsplit val huse
  rw [hsplit, map_append]
  exact mem_append_left _ (hdefines.owner_mem howner)

variable [DecidableEq E] [DecidableEq M]

theorem valid_grouped (h : Groups func before after p e prev exec) (hvalid : Valid func) :
    Valid (groupedFunc func before after p e prev exec) := by
  have hsurr := h.surroundings hvalid
  have hmem : ∀ {op}, op ∈ before.map Prod.fst ∨ op ∈ after.map Prod.fst →
      op ∈ func.map Prod.fst := by
    intro op hop
    rw [h.split]
    simp only [map_append, map_cons, mem_append, mem_cons]
    tauto
  rw [hsurr.groupedFunc_eq, Valid, validFrom_append, nil_append]
  refine ⟨hsurr.validBefore, fun val hval => hsurr.defines_groupedOp hval,
    fun hnew => newOp_notMem func (hmem (Or.inl hnew)),
    groupedOp_scoped hsurr.prevScoped hsurr.execScoped, ?_⟩
  apply validFrom_map hsurr.validAfter
  · intro val hval
    by_cases hother : val.owner ≠ some p ∧ val.owner ≠ some e
    · rw [groupedValue, redirect_eq_self hother.1 hother.2]
      exact ((hval.of_snoc hother.2).of_snoc hother.1).mono (subset_append_left _ _)
    · have hnew : (newOp func, Op.execute (groupedOp prev exec)) ∈
          before ++ [(newOp func, .execute (groupedOp prev exec))] := by simp
      have hlength : (groupedOp prev exec).body.yields.length =
          prev.body.yields.length + exec.body.yields.length := by
        simp [groupedOp, mergeAsyncExecuteOps]
      have hpair : val.owner = some p ∨ val.owner = some e := by tauto
      cases val with
      | argument idx => trivial
      | token op =>
        have hpair' : op = p ∨ op = e := by simpa [Value.owner] using hpair
        rw [groupedValue, redirect, if_pos hpair']
        exact ⟨_, hnew⟩
      | result op idx =>
        have hpair' : op = p ∨ op = e := by simpa [Value.owner] using hpair
        by_cases hp : op = p
        · subst hp
          have hidx := hsurr.idx_lt_prev hval
          rw [groupedValue, redirect, if_pos rfl]
          refine ⟨_, hnew, ?_⟩
          simp only [Op.HasResult, hlength]
          omega
        · obtain rfl := hpair'.resolve_left hp
          have hidx := hsurr.idx_lt_exec hval
          rw [groupedValue, redirect, if_neg hp, if_pos rfl]
          refine ⟨_, hnew, ?_⟩
          simp only [Op.HasResult, hlength]
          omega
  · exact hsurr.fixes h.split
  · intro op hop hin
    rw [map_append, mem_append] at hin
    rcases hin with hin | hin
    · apply hsurr.validAfter.notMem hop
      simp only [map_append, mem_append]
      exact Or.inl (Or.inl hin)
    · obtain rfl : op = newOp func := by simpa using hin
      exact newOp_notMem func (hmem (Or.inr hop))

end Valid

section Acyclic

/-- An operation uses the token or a result of another one. -/
def Depends (func : Func L E M) (a b : ℕ) : Prop :=
  ∃ kind, (b, kind) ∈ func ∧ ∃ val ∈ kind.uses, val.owner = some a

def Acyclic (func : Func L E M) : Prop := ∀ op, ¬ Relation.TransGen (Depends func) op op

theorem Valid.idxOf_lt (h : Valid func) {a b : ℕ} (hdepends : Depends func a b) :
    (func.map Prod.fst).idxOf a < (func.map Prod.fst).idxOf b := by
  obtain ⟨kind, hmem, val, hval, howner⟩ := hdepends
  obtain ⟨before, after, hsplit⟩ := append_of_mem hmem
  have ha := (h.uses hsplit val hval).owner_mem howner
  have hb : b ∉ before.map Prod.fst := by
    have hnodup : (func.map Prod.fst).Nodup := h.nodup nodup_nil
    rw [hsplit, map_append, nodup_append] at hnodup
    exact fun hin => hnodup.2.2 b hin b (by simp) rfl
  rw [hsplit, map_append, idxOf_append_of_mem ha, idxOf_append_of_notMem hb]
  have := idxOf_lt_length_iff.mpr ha
  omega

theorem Valid.acyclic (h : Valid func) : Acyclic func := by
  intro op hcycle
  have hlt : ∀ {a b}, Relation.TransGen (Depends func) a b →
      (func.map Prod.fst).idxOf a < (func.map Prod.fst).idxOf b := by
    intro a b hpath
    induction hpath with
    | single hstep => exact h.idxOf_lt hstep
    | tail _ hstep ih => exact ih.trans (h.idxOf_lt hstep)
  exact absurd (hlt hcycle) (lt_irrefl _)

end Acyclic

section Redirects

/-- Every operation is found again, and uses the new values for those that it used. -/
structure Redirects (func func' : Func L E M) (ρ : Value → Value) : Prop where
  execute : ∀ op execOp, (op, .execute execOp) ∈ func →
    ∃ op' execOp', (op', .execute execOp') ∈ func' ∧ ρ (.token op) = .token op' ∧
      (∀ idx < execOp.body.yields.length, ∃ idx' < execOp'.body.yields.length,
        ρ (.result op idx) = .result op' idx') ∧
      (∀ val ∈ execOp.dependencies, ρ val ∈ execOp'.dependencies) ∧
      ∀ val ∈ execOp.operands, ρ val ∈ execOp'.operands
  other : ∀ op label operands, (op, .other label operands) ∈ func →
    (op, .other label (operands.map ρ)) ∈ func'

theorem Redirects.refl (func : Func L E M) : Redirects func func id where
  execute op execOp hmem :=
    ⟨op, execOp, hmem, rfl, fun idx hidx => ⟨idx, hidx, rfl⟩, fun _ h => h, fun _ h => h⟩
  other op label operands hmem := by simpa using hmem

theorem Redirects.trans {func' func'' : Func L E M} {ρ' : Value → Value}
    (h : Redirects func func' ρ) (h' : Redirects func' func'' ρ') :
    Redirects func func'' (ρ' ∘ ρ) where
  execute op execOp hmem := by
    obtain ⟨op', execOp', hmem', htoken, hresults, hdependencies, hoperands⟩ :=
      h.execute op execOp hmem
    obtain ⟨op'', execOp'', hmem'', htoken', hresults', hdependencies', hoperands'⟩ :=
      h'.execute op' execOp' hmem'
    refine ⟨op'', execOp'', hmem'', by rw [Function.comp_apply, htoken, htoken'], ?_,
      fun val hval => hdependencies' _ (hdependencies val hval),
      fun val hval => hoperands' _ (hoperands val hval)⟩
    intro idx hidx
    obtain ⟨idx', hidx', hresult⟩ := hresults idx hidx
    obtain ⟨idx'', hidx'', hresult'⟩ := hresults' idx' hidx'
    exact ⟨idx'', hidx'', by rw [Function.comp_apply, hresult, hresult']⟩
  other op label operands hmem := by
    rw [← map_map]
    exact h'.other op label _ (h.other op label operands hmem)

/-- After a merge the users of both operations use the new one, and none uses the old ones. -/
structure UsesGrouped (func func' : Func L E M) (p e : ℕ) : Prop where
  redirects : ∃ ρ new, Redirects func func' ρ ∧ ρ (.token p) = .token new ∧
    ρ (.token e) = .token new ∧ (∀ idx, ∃ idx', ρ (.result p idx) = .result new idx') ∧
      ∀ idx, ∃ idx', ρ (.result e idx) = .result new idx'
  unused : ∀ op ∈ func', ∀ val ∈ op.2.uses, val.owner ≠ some p ∧ val.owner ≠ some e

theorem mem_groupedFunc [DecidableEq E] [DecidableEq M] (h : Groups func before after p e prev exec)
    (hvalid : Valid func) {op : ℕ} : (op, kind) ∈ groupedFunc func before after p e prev exec ↔
      op = newOp func ∧ kind = .execute (groupedOp prev exec) ∨
      op ≠ p ∧ op ≠ e ∧ ∃ old, (op, old) ∈ func ∧
        kind = old.mapUses (groupedValue func p e prev) := by
  have hsurr := h.surroundings hvalid
  have hafter : ∀ o kind, (o, kind) ∈ after → o ≠ p ∧ o ≠ e := by
    intro o kind hmem
    have hnot := hsurr.validAfter.notMem (mem_map_of_mem hmem)
    simp only [map_append, map_cons, map_nil, mem_append, mem_singleton,
      not_or] at hnot
    exact ⟨hnot.1.2, hnot.2⟩
  have hbefore : ∀ o kind, (o, kind) ∈ before → o ≠ p ∧ o ≠ e := by
    intro o kind hmem
    have hin := mem_map_of_mem (f := Prod.fst) hmem
    exact ⟨fun heq => hsurr.prevNew (heq ▸ hin), fun heq => hsurr.execNew (heq ▸ hin)⟩
  have hfunc : ∀ o kind, (o, kind) ∈ func ↔ (o, kind) ∈ before ∨ (o, kind) ∈ after ∨
      o = p ∧ kind = .execute prev ∨ o = e ∧ kind = .execute exec := by
    intro o kind
    conv_lhs => rw [h.split]
    simp only [mem_append, mem_cons, Prod.mk.injEq]
    tauto
  simp only [groupedFunc, mem_map, mem_append, mem_cons, Prod.mk.injEq,
    Prod.exists]
  constructor
  · rintro ⟨o, old, hold | ⟨rfl, rfl⟩ | hold, rfl, rfl⟩
    · exact Or.inr ⟨(hbefore o old hold).1, (hbefore o old hold).2, old,
        (hfunc o old).mpr (Or.inl hold), rfl⟩
    · exact Or.inl ⟨rfl, hsurr.mapUses_groupedOp⟩
    · exact Or.inr ⟨(hafter o old hold).1, (hafter o old hold).2, old,
        (hfunc o old).mpr (Or.inr (Or.inl hold)), rfl⟩
  · rintro (⟨rfl, rfl⟩ | ⟨hp, he, old, hold, rfl⟩)
    · exact ⟨newOp func, _, Or.inr (Or.inl ⟨rfl, rfl⟩), rfl, hsurr.mapUses_groupedOp⟩
    · rcases (hfunc op old).mp hold with hold | hold | ⟨heq, -⟩ | ⟨heq, -⟩
      · exact ⟨op, old, Or.inl hold, rfl, rfl⟩
      · exact ⟨op, old, Or.inr (Or.inr hold), rfl, rfl⟩
      · exact absurd heq hp
      · exact absurd heq he

variable [DecidableEq E] [DecidableEq M]

/-- What an operation is after a merge: it begins no later and ends no earlier, and its values and
those that it uses have their new names. -/
structure Renamed (ρ : Value → Value) (op : ℕ) (execOp : ExecuteOp L E M) (op' : ℕ)
    (execOp' : ExecuteOp L E M) : Prop where
  cycleBegin : execOp'.cycleBegin ≤ execOp.cycleBegin
  cycleEnd : execOp.cycleEnd ≤ execOp'.cycleEnd
  token : ρ (.token op) = .token op'
  result : ∀ idx < execOp.body.yields.length, ∃ idx' < execOp'.body.yields.length,
    ρ (.result op idx) = .result op' idx'
  dependencies : ∀ val ∈ execOp.dependencies, ρ val ∈ execOp'.dependencies
  operands : ∀ val ∈ execOp.operands, ρ val ∈ execOp'.operands

omit [DecidableEq E] [DecidableEq M] in
theorem Renamed.uses {ρ : Value → Value} {op op' : ℕ} {execOp execOp' : ExecuteOp L E M}
    (h : Renamed ρ op execOp op' execOp') {val : Value} (hval : val ∈ (Op.execute execOp).uses) :
    ρ val ∈ (Op.execute execOp').uses := by
  rcases mem_append.mp hval with hval | hval
  · exact mem_append_left _ (h.dependencies val hval)
  · exact mem_append_right _ (h.operands val hval)

omit [DecidableEq E] [DecidableEq M] in
theorem groupedValue_result_exec (hdistinct : p ≠ e) (idx : ℕ) :
    groupedValue func p e prev (.result e idx) =
      .result (newOp func) (prev.body.yields.length + idx) := by
  simp [groupedValue, redirect, hdistinct.symm]

omit [DecidableEq E] [DecidableEq M] in
theorem mem_pair (hsplit : func = before ++ (p, .execute prev) :: (e, .execute exec) :: after) :
    (p, .execute prev) ∈ func ∧ (e, .execute exec) ∈ func := by
  rw [hsplit]
  simp

variable (h : Groups func before after p e prev exec) (hvalid : Valid func)
include h hvalid

theorem Groups.mem_grouped :
    (newOp func, Op.execute (groupedOp prev exec)) ∈
      groupedFunc func before after p e prev exec :=
  (mem_groupedFunc h hvalid).mpr (Or.inl ⟨rfl, rfl⟩)

theorem Groups.renamed {op : ℕ} {execOp : ExecuteOp L E M} (hmem : (op, .execute execOp) ∈ func) :
    ∃ op' execOp', (op', .execute execOp') ∈ groupedFunc func before after p e prev exec ∧
      Renamed (groupedValue func p e prev) op execOp op' execOp' := by
  have hsurr := h.surroundings hvalid
  obtain ⟨hprev, hexec⟩ := mem_pair h.split
  have hlength : (groupedOp prev exec).body.yields.length =
      prev.body.yields.length + exec.body.yields.length := by
    simp [groupedOp, mergeAsyncExecuteOps]
  by_cases hp : op = p
  · subst hp
    cases hvalid.unique hmem hprev
    refine ⟨newOp func, groupedOp prev exec, h.mem_grouped hvalid, min_le_left _ _,
      le_max_left _ _, by simp [groupedValue, redirect], ?_, ?_, ?_⟩
    · exact fun idx hidx => ⟨idx, by omega, by simp [groupedValue, redirect]⟩
    · intro val hval
      rw [hsurr.groupedValue_eq (hsurr.prevUses val (mem_append_left _ hval))]
      exact mem_append_left _ hval
    · intro val hval
      rw [hsurr.groupedValue_eq (hsurr.prevUses val (mem_append_right _ hval))]
      exact mem_append_left _ hval
  · by_cases he : op = e
    · subst he
      cases hvalid.unique hmem hexec
      refine ⟨newOp func, groupedOp prev exec, h.mem_grouped hvalid, min_le_right _ _,
        le_max_right _ _, by simp [groupedValue, redirect], ?_, ?_, ?_⟩
      · exact fun idx hidx => ⟨_, by omega, groupedValue_result_exec hsurr.distinct idx⟩
      · intro val hval
        rw [hsurr.groupedValue_eq (hsurr.execUses val (mem_append_left _ hval))]
        exact mem_append_right _ hval
      · intro val hval
        rw [hsurr.groupedValue_eq (hsurr.execUses val (mem_append_right _ hval))]
        exact mem_append_right _ hval
    · refine ⟨op, _, (mem_groupedFunc h hvalid).mpr (Or.inr ⟨hp, he, _, hmem, rfl⟩), le_rfl, le_rfl,
        by simp [groupedValue, redirect, hp, he], ?_, fun val hval => mem_map_of_mem hval,
        fun val hval => mem_map_of_mem hval⟩
      exact fun idx hidx => ⟨idx, hidx, by simp [groupedValue, redirect, hp, he]⟩

theorem usesGrouped : UsesGrouped func (groupedFunc func before after p e prev exec) p e := by
  have hsurr := h.surroundings hvalid
  obtain ⟨hprev, hexec⟩ := mem_pair h.split
  constructor
  · refine ⟨groupedValue func p e prev, newOp func, ⟨?_, ?_⟩, by simp [groupedValue, redirect],
      by simp [groupedValue, redirect], fun idx => ⟨idx, by simp [groupedValue, redirect]⟩,
      fun idx => ⟨_, groupedValue_result_exec hsurr.distinct idx⟩⟩
    · intro op execOp hmem
      obtain ⟨op', execOp', hmem', hrenamed⟩ := h.renamed hvalid hmem
      exact ⟨op', execOp', hmem', hrenamed.token, hrenamed.result, hrenamed.dependencies,
        hrenamed.operands⟩
    · intro op label operands hmem
      refine (mem_groupedFunc h hvalid).mpr (Or.inr ⟨?_, ?_, _, hmem, rfl⟩)
      · rintro rfl
        cases hvalid.unique hmem hprev
      · rintro rfl
        cases hvalid.unique hmem hexec
  · rintro ⟨op, kind⟩ hmem val hval
    rcases (mem_groupedFunc h hvalid).mp hmem with ⟨-, rfl⟩ | ⟨-, -, old, -, rfl⟩
    · have hdefines := hsurr.defines_groupedOp hval
      exact ⟨fun ho => hsurr.prevNew (hdefines.owner_mem ho),
        fun ho => hsurr.execNew (hdefines.owner_mem ho)⟩
    · rw [uses_mapUses] at hval
      obtain ⟨val, -, rfl⟩ := mem_map.mp hval
      have hp := hsurr.fresh p (mem_map_of_mem hprev)
      have he := hsurr.fresh e (mem_map_of_mem hexec)
      rw [groupedValue, owner_redirect]
      split_ifs with hpair
      · exact ⟨fun heq => hp (Option.some.inj heq).symm, fun heq => he (Option.some.inj heq).symm⟩
      · exact not_or.mp hpair

end Redirects

end Vpux.Async.Group
