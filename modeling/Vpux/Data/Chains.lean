import Mathlib.Logic.Relation
import Vpux.Data.Folds

/-! Chains of operations that may fail, and rewriting one operation of a chain into several. -/
namespace Vpux.Data
open Relation

section Keeps

variable {σ ε ι : Type} {eval : ι → σ → Except ε σ} {R : σ → σ → Prop}
variable {ops ops' ops₁ ops₁' ops₂ ops₂' : List ι}

/-- Each operation works on the result of the one before it. -/
def runChain (eval : ι → σ → Except ε σ) (ops : List ι) (s : σ) : Except ε σ :=
  ops.foldlM (fun s op => eval op s) s

theorem runChain_append_eq_ok {s out : σ} : runChain eval (ops ++ ops') s = .ok out ↔
    ∃ mid, runChain eval ops s = .ok mid ∧ runChain eval ops' mid = .ok out := by
  rw [runChain, List.foldlM_append]
  exact bind_eq_ok

@[simp] theorem runChain_singleton (op : ι) (s : σ) : runChain eval [op] s = eval op s := by
  change (eval op s >>= pure) = _
  cases eval op s <;> rfl

theorem runChain_cons_eq_ok {op : ι} {s out : σ} : runChain eval (op :: ops) s = .ok out ↔
    ∃ mid, eval op s = .ok mid ∧ runChain eval ops mid = .ok out := by
  rw [← List.singleton_append, runChain_append_eq_ok]
  simp only [runChain_singleton]

/-- From related states the second chain has a result wherever the first has one, a related one. -/
def ChainKeeps (eval : ι → σ → Except ε σ) (R : σ → σ → Prop) (ops ops' : List ι) : Prop :=
  ∀ s t out, R s t → runChain eval ops s = .ok out →
    ∃ out', runChain eval ops' t = .ok out' ∧ R out out'

theorem ChainKeeps.append (h₁ : ChainKeeps eval R ops₁ ops₁') (h₂ : ChainKeeps eval R ops₂ ops₂') :
    ChainKeeps eval R (ops₁ ++ ops₂) (ops₁' ++ ops₂') := by
  intro s t out hst hrun
  obtain ⟨mid, hmid, hout⟩ := runChain_append_eq_ok.mp hrun
  obtain ⟨mid', hmid', hR⟩ := h₁ s t mid hst hmid
  obtain ⟨out', hout', hR'⟩ := h₂ mid mid' out hR hout
  exact ⟨out', runChain_append_eq_ok.mpr ⟨mid', hmid', hout'⟩, hR'⟩

theorem ChainKeeps.refl (h : ∀ op, ChainKeeps eval R [op] [op]) (ops : List ι) :
    ChainKeeps eval R ops ops := by
  induction ops with
  | nil =>
    rintro s t out hst hrun
    obtain rfl := Except.ok.inj hrun
    exact ⟨t, rfl, hst⟩
  | cons op ops ih => exact (h op).append ih

theorem ChainKeeps.trans (hrefl : ∀ s, R s s) (htrans : ∀ s t u, R s t → R t u → R s u)
    (h₁ : ChainKeeps eval R ops₁ ops) (h₂ : ChainKeeps eval R ops ops₂) :
    ChainKeeps eval R ops₁ ops₂ := by
  intro s t out hst hrun
  obtain ⟨mid, hmid, hR⟩ := h₁ s t out hst hrun
  obtain ⟨out', hout', hR'⟩ := h₂ t t mid (hrefl t) hmid
  exact ⟨out', hout', htrans _ _ _ hR hR'⟩

theorem ChainKeeps.of_same (htrans : ∀ s t u, R s t → R t u → R s u)
    (hself : ChainKeeps eval R ops ops) (h : ∀ s out, runChain eval ops s = .ok out →
      ∃ out', runChain eval ops' s = .ok out' ∧ R out out') : ChainKeeps eval R ops ops' := by
  intro s t out hst hrun
  obtain ⟨mid, hmid, hR⟩ := hself s t out hst hrun
  obtain ⟨out', hout', hR'⟩ := h t mid hmid
  exact ⟨out', hout', htrans _ _ _ hR hR'⟩

end Keeps

section Rewriting

variable {ι : Type} {r : ι → List ι → Prop}

/-- One operation of a chain is rewritten, at any place. -/
inductive ChainStep (r : ι → List ι → Prop) : List ι → List ι → Prop
  | replace {op : ι} {ops : List ι} (before after : List ι) (h : r op ops) :
      ChainStep r (before ++ op :: after) (before ++ (ops ++ after))

theorem chain_reaches_append {ops ops' : List ι} (h : ReflTransGen (ChainStep r) ops ops')
    (before after : List ι) :
    ReflTransGen (ChainStep r) (before ++ (ops ++ after)) (before ++ (ops' ++ after)) := by
  induction h with
  | refl => exact .refl
  | tail _ hstep ih =>
    refine ih.tail ?_
    cases hstep with
    | replace before' after' hr =>
      simpa only [List.append_assoc, List.cons_append] using
        ChainStep.replace (before ++ before') (after' ++ after) hr

theorem chain_reaches_replicate {op : ι} {ops : List ι} (h : r op ops) (n : ℕ) :
    ReflTransGen (ChainStep r) (List.replicate n op) (List.replicate n ops).flatten := by
  induction n with
  | zero => exact .refl
  | succ n ih =>
    have hrest := chain_reaches_append ih ops []
    rw [List.append_nil, List.append_nil] at hrest
    exact .head (.replace [] (List.replicate n op) h) hrest

variable {σ ε : Type} {eval : ι → σ → Except ε σ} {R : σ → σ → Prop} {P : ι → Prop}

theorem ChainKeeps.of_reaches (hrefl : ∀ s, R s s) (htrans : ∀ s t u, R s t → R t u → R s u)
    (hself : ∀ op, ChainKeeps eval R [op] [op])
    (hkeeps : ∀ op ops, P op → r op ops → ChainKeeps eval R [op] ops ∧ ∀ o ∈ ops, P o)
    {ops ops' : List ι} (hP : ∀ o ∈ ops, P o) (h : ReflTransGen (ChainStep r) ops ops') :
    ChainKeeps eval R ops ops' ∧ ∀ o ∈ ops', P o := by
  induction h with
  | refl => exact ⟨.refl hself ops, hP⟩
  | tail _ hstep ih =>
    obtain ⟨hkept, hall⟩ := ih
    cases hstep with
    | @replace op new before after hr =>
      obtain ⟨hnew, hnewP⟩ := hkeeps op new (hall op (by simp)) hr
      constructor
      · exact hkept.trans hrefl htrans
          ((ChainKeeps.refl hself before).append (hnew.append (.refl hself after)))
      · intro o ho
        rcases List.mem_append.mp ho with ho | ho
        · exact hall o (List.mem_append_left _ ho)
        · rcases List.mem_append.mp ho with ho | ho
          · exact hnewP o ho
          · exact hall o (List.mem_append_right _ (List.mem_cons_of_mem _ ho))

end Rewriting

end Vpux.Data
