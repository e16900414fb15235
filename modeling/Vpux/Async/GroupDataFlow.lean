import Mathlib.Data.List.GetD
import Vpux.Async.GroupExecuteOps

/-! Merging `async.execute` operations leaves every operation of a body the operands that it had. -/
namespace Vpux.Async.Group

variable {L E M α : Type} [Inhabited α]

section Receives

-- what the operations compute, and the contents of the buffers
variable (sem : L → List α → ℕ → α) (buffers : ℕ → α)

/-- `args` are the block arguments, `locals` the results of the operations before. -/
def BodyValue.eval (args : List α) (locals : List (ℕ → α)) : BodyValue → α
  | .blockArg idx => args.getD idx default
  | .result op idx => locals.getD op (fun _ => default) idx
  | .outer buffer => buffers buffer

/-- The results of the operations of a body, and what each of them receives. -/
def runBody (args : List α) :
    List (BodyOp L) → List (ℕ → α) → List (ℕ → α) × List (L × List α)
  | [], locals => (locals, [])
  | op :: ops, locals =>
    let operands := op.operands.map (BodyValue.eval buffers args locals)
    let rest := runBody args ops (locals ++ [sem op.label operands])
    (rest.1, (op.label, operands) :: rest.2)

/-- The values after an operation; a token carries nothing. -/
def setResults (env : Value → α) (op : ℕ) (results : ℕ → α) : Value → α
  | .token o => if o = op then default else env (.token o)
  | .result o idx => if o = op then results idx else env (.result o idx)
  | .argument idx => env (.argument idx)

/-- The results of an operation of the function, and what the operations in it receive. -/
def runOp (env : Value → α) : Op L E M → (ℕ → α) × List (L × List α)
  | .execute execOp =>
    let args := execOp.operands.map env
    let body := runBody sem buffers args execOp.body.ops []
    let results := execOp.body.yields.map (BodyValue.eval buffers args body.1)
    (fun idx => results.getD idx default, body.2)
  | .other label operands =>
    (sem label (operands.map env), [(label, operands.map env)])

/-- Everything that the operations receive, in the order of the function. -/
def receives (env : Value → α) : Func L E M → List (L × List α)
  | [] => []
  | (op, kind) :: ops =>
    (runOp sem buffers env kind).2 ++
      receives (setResults env op (runOp sem buffers env kind).1) ops

/-- The values before the first operation. -/
def startEnv (arguments : ℕ → α) : Value → α
  | .argument idx => arguments idx
  | _ => default

end Receives

open List

section Valid

/-- Values of the body that are there when `ops` operations of it have run. -/
def BodyValue.Scoped (args ops : ℕ) : BodyValue → Prop
  | .blockArg idx => idx < args
  | .result op _ => op < ops
  | .outer _ => True

def OpsScoped (args : ℕ) : ℕ → List (BodyOp L) → Prop
  | _, [] => True
  | ran, op :: ops => (∀ val ∈ op.operands, val.Scoped args ran) ∧ OpsScoped args (ran + 1) ops

structure ExecuteOp.Scoped (execOp : ExecuteOp L E M) : Prop where
  ops : OpsScoped execOp.operands.length 0 execOp.body.ops
  yields : ∀ val ∈ execOp.body.yields,
    val.Scoped execOp.operands.length execOp.body.ops.length

def Op.Scoped : Op L E M → Prop
  | .execute execOp => execOp.Scoped
  | .other _ _ => True

def Op.HasResult (idx : ℕ) : Op L E M → Prop
  | .execute execOp => idx < execOp.body.yields.length
  | .other _ _ => True

def Defines (func : Func L E M) : Value → Prop
  | .token op => ∃ kind, (op, kind) ∈ func
  | .result op idx => ∃ kind, (op, kind) ∈ func ∧ kind.HasResult idx
  | .argument _ => True

/-- After the operations of `scope`, every operation uses values that are defined before it. -/
def ValidFrom (scope : Func L E M) : Func L E M → Prop
  | [] => True
  | op :: ops => (∀ val ∈ op.2.uses, Defines scope val) ∧ op.1 ∉ scope.map Prod.fst ∧ op.2.Scoped ∧
      ValidFrom (scope ++ [op]) ops

def Valid (func : Func L E M) : Prop := ValidFrom [] func

variable {scope before after : Func L E M} {op : ℕ × Op L E M} {val : Value}

theorem Defines.mono (h : Defines scope val) (hsub : scope ⊆ after) : Defines after val := by
  cases val with
  | token op =>
    obtain ⟨kind, hmem⟩ := h
    exact ⟨kind, hsub hmem⟩
  | result op idx =>
    obtain ⟨kind, hmem, hresult⟩ := h
    exact ⟨kind, hsub hmem, hresult⟩
  | argument idx => trivial

theorem Defines.owner_mem (h : Defines scope val) {o : ℕ} (ho : val.owner = some o) :
    o ∈ scope.map Prod.fst := by
  cases val with
  | token op =>
    obtain ⟨kind, hmem⟩ := h
    cases ho
    exact mem_map_of_mem hmem
  | result op idx =>
    obtain ⟨kind, hmem, -⟩ := h
    cases ho
    exact mem_map_of_mem hmem
  | argument idx => cases ho

theorem Defines.of_snoc (h : Defines (scope ++ [op]) val) (howner : val.owner ≠ some op.1) :
    Defines scope val := by
  have hold : ∀ (o : ℕ) (kind : Op L E M), o ≠ op.1 → (o, kind) ∈ scope ++ [op] →
      (o, kind) ∈ scope := by
    intro o kind hne hmem
    refine (mem_append.mp hmem).resolve_right fun hlast => hne ?_
    rw [← mem_singleton.mp hlast]
  cases val with
  | token o =>
    obtain ⟨kind, hmem⟩ := h
    exact ⟨kind, hold o kind (fun heq => howner (heq ▸ rfl)) hmem⟩
  | result o idx =>
    obtain ⟨kind, hmem, hresult⟩ := h
    exact ⟨kind, hold o kind (fun heq => howner (heq ▸ rfl)) hmem, hresult⟩
  | argument idx => trivial

theorem validFrom_append : ValidFrom scope (before ++ after) ↔
    ValidFrom scope before ∧ ValidFrom (scope ++ before) after := by
  induction before generalizing scope with
  | nil => simp [ValidFrom]
  | cons op before ih =>
    simp only [cons_append, ValidFrom, ih, append_assoc, nil_append]
    tauto

theorem ValidFrom.notMem (h : ValidFrom scope after) {o : ℕ} (ho : o ∈ after.map Prod.fst) :
    o ∉ scope.map Prod.fst := by
  induction after generalizing scope with
  | nil => simp at ho
  | cons op after ih =>
    obtain ⟨-, hnew, -, hrest⟩ := h
    rcases mem_cons.mp ho with rfl | ho
    · exact hnew
    · intro hmem
      apply ih hrest ho
      rw [map_append]
      exact mem_append_left _ hmem

end Valid

section Bodies

variable {sem : L → List α → ℕ → α} {buffers : ℕ → α} {args args' : List α}
  {locals locals' : List (ℕ → α)} {ops ops' : List (BodyOp L)} {env env' : Value → α}

open BodyValue

theorem eval_shift (val : BodyValue) :
    (val.shift args.length locals.length).eval buffers (args ++ args') (locals ++ locals') =
      val.eval buffers args' locals' := by
  cases val with
  | blockArg idx =>
    simp [shift, eval, getD_eq_getElem?_getD, getElem?_append_right]
  | result op idx =>
    simp [shift, eval, getD_eq_getElem?_getD, getElem?_append_right]
  | outer buffer => rfl

theorem eval_append {val : BodyValue} (h : val.Scoped args.length locals.length) :
    val.eval buffers (args ++ args') (locals ++ locals') = val.eval buffers args locals := by
  cases val with
  | blockArg idx =>
    have hidx : idx < args.length := h
    simp [eval, getD_eq_getElem?_getD, getElem?_append_left hidx]
  | result op idx =>
    have hop : op < locals.length := h
    simp [eval, getD_eq_getElem?_getD, getElem?_append_left hop]
  | outer buffer => rfl

theorem length_runBody : (runBody sem buffers args ops locals).1.length =
    locals.length + ops.length := by
  induction ops generalizing locals with
  | nil => rfl
  | cons op ops ih =>
    simp only [runBody, ih, length_append, length_cons, length_nil]
    omega

theorem runBody_append : runBody sem buffers args (ops ++ ops') locals =
    ((runBody sem buffers args ops' (runBody sem buffers args ops locals).1).1,
      (runBody sem buffers args ops locals).2 ++
        (runBody sem buffers args ops' (runBody sem buffers args ops locals).1).2) := by
  induction ops generalizing locals with
  | nil => rfl
  | cons op ops ih => simp only [cons_append, runBody, ih]

theorem runBody_scoped (h : OpsScoped args.length locals.length ops) :
    runBody sem buffers (args ++ args') ops locals = runBody sem buffers args ops locals := by
  induction ops generalizing locals with
  | nil => rfl
  | cons op ops ih =>
    obtain ⟨hop, hops⟩ := h
    have hoperands : op.operands.map (eval buffers (args ++ args') locals) =
        op.operands.map (eval buffers args locals) := by
      apply map_congr_left
      intro val hval
      have := @eval_append α _ buffers args args' locals [] val (hop val hval)
      simpa using this
    simp only [runBody, hoperands]
    rw [ih (by simpa using hops)]

theorem runBody_shift : runBody sem buffers (args ++ args')
    (ops.map (BodyOp.shift args.length locals.length)) (locals ++ locals') =
      (locals ++ (runBody sem buffers args' ops locals').1,
        (runBody sem buffers args' ops locals').2) := by
  induction ops generalizing locals' with
  | nil => rfl
  | cons op ops ih =>
    have hoperands : (op.operands.map (shift args.length locals.length)).map
        (eval buffers (args ++ args') (locals ++ locals')) =
          op.operands.map (eval buffers args' locals') := by
      rw [map_map]
      exact map_congr_left fun val _ => eval_shift val
    simp only [map_cons, runBody, BodyOp.shift, hoperands, append_assoc]
    rw [ih]

theorem runOp_merge {prev exec : ExecuteOp L E M} (hprev : prev.Scoped) (newBegin newEnd : ℕ) :
    runOp sem buffers env (.execute (mergeAsyncExecuteOps prev exec newBegin newEnd)) =
      (fun idx => if idx < prev.body.yields.length then
          (runOp sem buffers env (.execute prev)).1 idx
        else (runOp sem buffers env (.execute exec)).1 (idx - prev.body.yields.length),
      (runOp sem buffers env (.execute prev)).2 ++ (runOp sem buffers env (.execute exec)).2) := by
  obtain ⟨args, hargs⟩ : ∃ args, prev.operands.map env = args := ⟨_, rfl⟩
  have hlength : args.length = prev.operands.length := by rw [← hargs, length_map]
  obtain ⟨locals, hlocals⟩ : ∃ locals, (runBody sem buffers args prev.body.ops []).1 = locals :=
    ⟨_, rfl⟩
  have hran : locals.length = prev.body.ops.length := by
    rw [← hlocals, length_runBody, length_nil, zero_add]
  have hfirst : runBody sem buffers (args ++ exec.operands.map env) prev.body.ops [] =
      runBody sem buffers args prev.body.ops [] :=
    runBody_scoped (hlength ▸ hprev.ops)
  have hsecond := @runBody_shift L α _ sem buffers args (exec.operands.map env) locals []
  rw [append_nil, hlength, hran] at hsecond
  have hyields : prev.body.yields.map (eval buffers (args ++ exec.operands.map env)
      (locals ++ (runBody sem buffers (exec.operands.map env) exec.body.ops []).1)) =
        prev.body.yields.map (eval buffers args locals) := by
    apply map_congr_left
    intro val hval
    apply eval_append
    rw [hlength, hran]
    exact hprev.yields val hval
  have hshifted : (exec.body.yields.map (shift prev.operands.length
      prev.body.ops.length)).map (eval buffers (args ++ exec.operands.map env)
        (locals ++ (runBody sem buffers (exec.operands.map env) exec.body.ops []).1)) =
          exec.body.yields.map (eval buffers (exec.operands.map env)
            (runBody sem buffers (exec.operands.map env) exec.body.ops []).1) := by
    rw [map_map]
    refine map_congr_left fun val _ => ?_
    rw [← hlength, ← hran]
    exact eval_shift val
  simp only [runOp, mergeAsyncExecuteOps, map_append, hargs, runBody_append, hfirst, hlocals,
    hsecond, hyields, hshifted]
  congr 1
  funext idx
  split_ifs with hidx
  · rw [getD_append _ _ _ _ (by simpa using hidx)]
  · rw [getD_append_right _ _ _ _ (by simpa using hidx), length_map]

end Bodies

variable {val : Value}

section Rename

variable {sem : L → List α → ℕ → α} {buffers : ℕ → α} {env env' : Value → α} {ρ : Value → Value}
  {scope before after : Func L E M} {kind : Op L E M}

theorem runOp_congr (h : ∀ val ∈ kind.uses, env' val = env val) :
    runOp sem buffers env' kind = runOp sem buffers env kind := by
  cases kind with
  | execute execOp =>
    have hargs : execOp.operands.map env' = execOp.operands.map env :=
      map_congr_left fun val hval => h val (mem_append_right _ hval)
    simp only [runOp, hargs]
  | other label operands =>
    have hargs : operands.map env' = operands.map env := map_congr_left h
    simp only [runOp, hargs]

theorem runOp_mapUses : runOp sem buffers env (kind.mapUses ρ) =
    runOp sem buffers (env ∘ ρ) kind := by
  cases kind <;> simp [Op.mapUses, runOp]

omit [Inhabited α] in
theorem mapUses_eq_self (h : ∀ val ∈ kind.uses, ρ val = val) : kind.mapUses ρ = kind := by
  have hmap : ∀ vals : List Value, (∀ val ∈ vals, ρ val = val) → vals.map ρ = vals :=
    fun vals hvals => (map_congr_left (g := id) hvals).trans (map_id vals)
  cases kind with
  | execute execOp =>
    simp only [Op.uses, mem_append] at h
    simp only [Op.mapUses]
    rw [hmap _ fun val hval => h val (Or.inl hval), hmap _ fun val hval => h val (Or.inr hval)]
  | other label operands =>
    simp only [Op.mapUses]
    rw [hmap operands h]

/-- The renaming leaves the values of an operation alone. -/
structure Fixes (ρ : Value → Value) (op : ℕ) : Prop where
  own : ∀ val, val.owner = some op → ρ val = val
  others : ∀ val, (ρ val).owner = some op → val.owner = some op

def runFunc (sem : L → List α → ℕ → α) (buffers : ℕ → α) (env : Value → α) :
    Func L E M → Value → α
  | [] => env
  | (op, kind) :: ops => runFunc sem buffers (setResults env op (runOp sem buffers env kind).1) ops

theorem receives_append : receives sem buffers env (before ++ after) =
    receives sem buffers env before ++ receives sem buffers (runFunc sem buffers env before)
      after := by
  induction before generalizing env with
  | nil => rfl
  | cons op before ih =>
    obtain ⟨op, kind⟩ := op
    simp only [cons_append, receives, runFunc, ih, append_assoc]

theorem setResults_of_owner_ne {op : ℕ} {results : ℕ → α} (h : val.owner ≠ some op) :
    setResults env op results val = env val := by
  cases val <;> simp_all [setResults, Value.owner]

theorem receives_map (hvalid : ValidFrom scope after)
    (henv : ∀ val, Defines scope val → env' (ρ val) = env val)
    (hfixes : ∀ op ∈ after.map Prod.fst, Fixes ρ op) :
    receives sem buffers env' (after.map fun op => (op.1, op.2.mapUses ρ)) =
      receives sem buffers env after := by
  induction after generalizing scope env env' with
  | nil => rfl
  | cons op after ih =>
    obtain ⟨op, kind⟩ := op
    obtain ⟨huses, hnew, -, hrest⟩ := hvalid
    have hop : Fixes ρ op := hfixes op (by simp)
    have hrun : runOp sem buffers env' (kind.mapUses ρ) = runOp sem buffers env kind := by
      rw [runOp_mapUses]
      exact runOp_congr fun val hval => henv val (huses val hval)
    simp only [map_cons, receives, hrun]
    congr 1
    apply ih hrest
    · intro val hval
      by_cases howner : val.owner = some op
      · rw [hop.own val howner]
        cases val with
        | token o =>
          cases howner
          simp [setResults]
        | result o idx =>
          cases howner
          simp [setResults]
        | argument idx => cases howner
      · rw [setResults_of_owner_ne howner, setResults_of_owner_ne (mt (hop.others val) howner)]
        exact henv val (hval.of_snoc howner)
    · exact fun o ho => hfixes o (by simp [ho])

end Rename

section Merge

variable [DecidableEq E] [DecidableEq M] {func before after : Func L E M} {p e : ℕ}
  {prev exec : ExecuteOp L E M}

omit [Inhabited α] in
theorem redirect_eq_self {new results : ℕ} (hp : val.owner ≠ some p) (he : val.owner ≠ some e) :
    redirect p e new results val = val := by
  cases val <;> simp_all [redirect, Value.owner]

omit [Inhabited α] in
theorem fixes_redirect {new results o : ℕ} (hp : o ≠ p) (he : o ≠ e) (hnew : o ≠ new) :
    Fixes (redirect p e new results) o := by
  constructor
  · intro val howner
    apply redirect_eq_self <;> rw [howner] <;> simpa
  · intro val howner
    cases val with
    | token op =>
      simp only [redirect] at howner
      split_ifs at howner with hpair
      · exact absurd (Option.some.inj howner) hnew.symm
      · exact howner
    | result op idx =>
      simp only [redirect] at howner
      split_ifs at howner with hprev hexec
      · exact absurd (Option.some.inj howner) hnew.symm
      · exact absurd (Option.some.inj howner) hnew.symm
      · exact howner
    | argument idx => exact howner

/-- What the function's validity says about the pair and its surroundings. -/
structure Surroundings (func before after : Func L E M) (p e : ℕ) (prev exec : ExecuteOp L E M) :
    Prop where
  validBefore : ValidFrom [] before
  prevUses : ∀ val ∈ (Op.execute prev).uses, Defines before val
  execUses : ∀ val ∈ (Op.execute exec).uses, Defines before val
  prevScoped : prev.Scoped
  execScoped : exec.Scoped
  prevNew : p ∉ before.map Prod.fst
  execNew : e ∉ before.map Prod.fst
  distinct : p ≠ e
  validAfter : ValidFrom (before ++ [(p, .execute prev)] ++ [(e, .execute exec)]) after
  fresh : ∀ op ∈ func.map Prod.fst, op ≠ newOp func

theorem Groups.surroundings (h : Groups func before after p e prev exec) (hvalid : Valid func) :
    Surroundings func before after p e prev exec := by
  have hall := hvalid
  rw [h.split, Valid, validFrom_append, nil_append] at hall
  obtain ⟨hbefore, hprevUses, hp, hprevScoped, hexecUses, he, hexecScoped, hafter⟩ := hall
  rw [map_append, mem_append, not_or] at he
  refine ⟨hbefore, hprevUses, ?_, hprevScoped, hexecScoped, hp, he.1, ?_, hafter, ?_⟩
  · exact fun val hval => (hexecUses val hval).of_snoc (h.independent val hval)
  · rintro rfl
    simp at he
  · rintro op hop rfl
    exact newOp_notMem func hop

omit [DecidableEq E] [DecidableEq M] in
theorem Surroundings.groupedValue_eq (h : Surroundings func before after p e prev exec)
    (hval : Defines before val) : groupedValue func p e prev val = val :=
  redirect_eq_self (fun ho => h.prevNew (hval.owner_mem ho)) fun ho => h.execNew (hval.owner_mem ho)

omit [DecidableEq E] [DecidableEq M] in
theorem Surroundings.fixes (h : Surroundings func before after p e prev exec)
    (hsplit : func = before ++ (p, .execute prev) :: (e, .execute exec) :: after) :
    ∀ op ∈ after.map Prod.fst, Fixes (groupedValue func p e prev) op := by
  intro op hop
  have hnot := h.validAfter.notMem hop
  have hin : op ∈ func.map Prod.fst := by
    rw [hsplit, map_append, map_cons, map_cons]
    simp [hop]
  simp only [map_append, map_cons, map_nil, mem_append, mem_singleton,
    not_or] at hnot
  exact fixes_redirect hnot.1.2 hnot.2 (h.fresh op hin)

omit [DecidableEq E] [DecidableEq M] in
theorem Surroundings.idx_lt_prev (h : Surroundings func before after p e prev exec) {idx : ℕ}
    (hval : Defines (before ++ [(p, .execute prev)] ++ [(e, .execute exec)]) (.result p idx)) :
    idx < prev.body.yields.length := by
  obtain ⟨kind, hmem, hresult⟩ := hval
  simp only [mem_append, mem_singleton, Prod.mk.injEq] at hmem
  rcases hmem with (hmem | ⟨-, rfl⟩) | ⟨heq, -⟩
  · exact absurd (mem_map_of_mem hmem) h.prevNew
  · exact hresult
  · exact absurd heq h.distinct

omit [DecidableEq E] [DecidableEq M] in
theorem Surroundings.idx_lt_exec (h : Surroundings func before after p e prev exec) {idx : ℕ}
    (hval : Defines (before ++ [(p, .execute prev)] ++ [(e, .execute exec)]) (.result e idx)) :
    idx < exec.body.yields.length := by
  obtain ⟨kind, hmem, hresult⟩ := hval
  simp only [mem_append, mem_singleton, Prod.mk.injEq] at hmem
  rcases hmem with (hmem | ⟨heq, -⟩) | ⟨-, rfl⟩
  · exact absurd (mem_map_of_mem hmem) h.execNew
  · exact absurd heq.symm h.distinct
  · exact hresult

omit [DecidableEq E] [DecidableEq M] in
theorem mem_uses_groupedOp : val ∈ (Op.execute (groupedOp prev exec)).uses ↔
    val ∈ (Op.execute prev).uses ∨ val ∈ (Op.execute exec).uses := by
  simp only [Op.uses, groupedOp, mergeAsyncExecuteOps, mem_append]
  tauto

omit [DecidableEq E] [DecidableEq M] in
theorem Surroundings.defines_groupedOp (h : Surroundings func before after p e prev exec)
    (hval : val ∈ (Op.execute (groupedOp prev exec)).uses) : Defines before val := by
  rcases mem_uses_groupedOp.mp hval with hval | hval
  · exact h.prevUses val hval
  · exact h.execUses val hval

omit [DecidableEq E] [DecidableEq M] in
theorem Surroundings.mapUses_groupedOp (h : Surroundings func before after p e prev exec) :
    (Op.execute (groupedOp prev exec)).mapUses (groupedValue func p e prev) =
      .execute (groupedOp prev exec) :=
  mapUses_eq_self fun _ hval => h.groupedValue_eq (h.defines_groupedOp hval)

omit [DecidableEq E] [DecidableEq M] in
theorem Surroundings.groupedFunc_eq (h : Surroundings func before after p e prev exec) :
    groupedFunc func before after p e prev exec =
      before ++ (newOp func, .execute (groupedOp prev exec)) ::
        after.map fun op => (op.1, op.2.mapUses (groupedValue func p e prev)) := by
  have hbefore : ∀ (scope ops : Func L E M), ValidFrom scope ops → scope ++ ops = before →
      ops.map (fun op => (op.1, op.2.mapUses (groupedValue func p e prev))) = ops := by
    intro scope ops
    induction ops generalizing scope with
    | nil => simp
    | cons op ops ih =>
      rintro ⟨huses, -, -, hrest⟩ heq
      have hscope : scope ⊆ before := heq ▸ subset_append_left scope _
      rw [map_cons, ih _ hrest (by simpa using heq),
        mapUses_eq_self fun val hval => h.groupedValue_eq ((huses val hval).mono hscope)]
  rw [groupedFunc, map_append, map_cons, hbefore [] before h.validBefore rfl,
    h.mapUses_groupedOp]

theorem receives_grouped (sem : L → List α → ℕ → α) (buffers : ℕ → α) (env : Value → α)
    (h : Groups func before after p e prev exec) (hvalid : Valid func) :
    receives sem buffers env (groupedFunc func before after p e prev exec) =
      receives sem buffers env func := by
  have hsurr := h.surroundings hvalid
  rw [hsurr.groupedFunc_eq, receives_append]
  conv_rhs => rw [h.split, receives_append]
  congr 1
  generalize runFunc sem buffers env before = env₀
  simp only [receives, groupedOp]
  rw [runOp_merge hsurr.prevScoped]
  -- the second operation of the pair uses nothing of the first one
  have hexec : runOp sem buffers (setResults env₀ p (runOp sem buffers env₀ (.execute prev)).1)
      (.execute exec) = runOp sem buffers env₀ (.execute exec) :=
    runOp_congr fun val hval => setResults_of_owner_ne (h.independent val hval)
  rw [hexec]
  rw [append_assoc]
  congr 2
  apply receives_map hsurr.validAfter
  · intro val hval
    by_cases hother : val.owner ≠ some p ∧ val.owner ≠ some e
    · have hnew : val.owner ≠ some (newOp func) := by
        intro howner
        apply newOp_notMem func
        have hsub : before ++ [(p, .execute prev)] ++ [(e, .execute exec)] ⊆ func := by
          conv_rhs => rw [h.split]
          simp
        exact map_subset Prod.fst hsub (hval.owner_mem howner)
      rw [groupedValue, redirect_eq_self hother.1 hother.2, setResults_of_owner_ne hnew,
        setResults_of_owner_ne hother.2, setResults_of_owner_ne hother.1]
    · cases val with
      | argument idx => simp [Value.owner] at hother
      | token op =>
        have hpair : op = p ∨ op = e := by
          by_contra hnone
          exact hother ⟨fun heq => hnone (Or.inl (Option.some.inj heq)),
            fun heq => hnone (Or.inr (Option.some.inj heq))⟩
        rcases hpair with rfl | rfl <;> simp [groupedValue, redirect, setResults]
      | result op idx =>
        by_cases hp : op = p
        · subst hp
          have hidx := hsurr.idx_lt_prev hval
          simp [groupedValue, redirect, setResults, hidx, hsurr.distinct]
        · have he : op = e := by
            by_contra hne
            exact hother ⟨fun heq => hp (Option.some.inj heq), fun heq => hne (Option.some.inj heq)⟩
          subst he
          simp [groupedValue, redirect, setResults, hp]
  · exact hsurr.fixes h.split

end Merge

end Vpux.Async.Group
