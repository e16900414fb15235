import Mathlib.Data.Nat.Init
import Mathlib.Order.WellFounded

/-! Computations with loops that may run forever. -/
namespace Vpux.Data

/-- A computation that may run forever. The fuel bounds the rounds of each of its loops, and a
result stays the same with more of it. -/
structure Looping (α : Type) where
  run : ℕ → Option α
  run_succ : ∀ fuel a, run fuel = some a → run (fuel + 1) = some a

namespace Looping

variable {α β σ : Type}

def Returns (c : Looping α) (a : α) : Prop := ∃ fuel, c.run fuel = some a

/-- The computation returns, with a result of the given kind. -/
def Ends (c : Looping α) (Q : α → Prop) : Prop := ∃ a, c.Returns a ∧ Q a

variable {a : α}

theorem run_of_le (c : Looping α) {fuel fuel' : ℕ} (hle : fuel ≤ fuel') (h : c.run fuel = some a) :
    c.run fuel' = some a := by
  induction hle with
  | refl => exact h
  | step _ ih => exact c.run_succ _ a ih

variable {c : Looping α}

theorem Returns.unique {a b : α} (ha : c.Returns a) (hb : c.Returns b) : a = b := by
  obtain ⟨fuel, ha⟩ := ha
  obtain ⟨fuel', hb⟩ := hb
  have ha := c.run_of_le (le_max_left fuel fuel') ha
  rw [c.run_of_le (le_max_right fuel fuel') hb] at ha
  exact (Option.some.inj ha).symm

instance : Monad Looping where
  pure a := ⟨fun _ => some a, fun _ _ h => h⟩
  bind c f :=
    { run := fun fuel => (c.run fuel).bind fun a => (f a).run fuel
      run_succ := by
        intro fuel b h
        obtain ⟨a, ha, hb⟩ := Option.bind_eq_some_iff.mp h
        exact Option.bind_eq_some_iff.mpr ⟨a, c.run_succ fuel a ha, (f a).run_succ fuel b hb⟩ }

theorem returns_pure_iff {a b : α} : (pure a : Looping α).Returns b ↔ a = b := by
  constructor
  · rintro ⟨fuel, h⟩
    exact Option.some.inj h
  · rintro rfl
    exact ⟨0, rfl⟩

theorem returns_bind_iff {f : α → Looping β} {b : β} :
    (c >>= f).Returns b ↔ ∃ a, c.Returns a ∧ (f a).Returns b := by
  constructor
  · rintro ⟨fuel, h⟩
    obtain ⟨a, ha, hb⟩ := Option.bind_eq_some_iff.mp h
    exact ⟨a, ⟨fuel, ha⟩, ⟨fuel, hb⟩⟩
  · rintro ⟨a, ⟨fuel, ha⟩, ⟨fuel', hb⟩⟩
    refine ⟨max fuel fuel', Option.bind_eq_some_iff.mpr ⟨a, ?_, ?_⟩⟩
    · exact c.run_of_le (le_max_left _ _) ha
    · exact (f a).run_of_le (le_max_right _ _) hb

/-- The rounds of a loop, each of which goes on or stops with a result. -/
def loopRun (body : σ → Looping (σ ⊕ α)) : ℕ → σ → Option α
  | 0, _ => none
  | fuel + 1, s =>
    match (body s).run fuel with
    | none => none
    | some (.inl s') => loopRun body fuel s'
    | some (.inr a) => some a

def loop (body : σ → Looping (σ ⊕ α)) (s : σ) : Looping α where
  run fuel := loopRun body fuel s
  run_succ := by
    intro fuel
    induction fuel generalizing s with
    | zero =>
      intro a h
      cases h
    | succ fuel ih =>
      intro a h
      rw [loopRun] at h ⊢
      cases hbody : (body s).run fuel with
      | none =>
        rw [hbody] at h
        cases h
      | some next =>
        rw [hbody] at h
        rw [(body s).run_succ fuel next hbody]
        cases next with
        | inl s' => exact ih s' a h
        | inr b => exact h

def whileDo (cond : σ → Bool) (body : σ → Looping σ) : σ → Looping σ :=
  loop fun s => if cond s then do
      let s' ← body s
      pure (.inl s')
    else pure (.inr s)

section Rules

variable {Q : α → Prop} {body : σ → Looping (σ ⊕ α)} {s : σ}

theorem returns_loop_iff : (loop body s).Returns a ↔
    (∃ s', (body s).Returns (.inl s') ∧ (loop body s').Returns a) ∨ (body s).Returns (.inr a) := by
  constructor
  · rintro ⟨fuel, h⟩
    change loopRun body fuel s = some a at h
    cases fuel with
    | zero => cases h
    | succ fuel =>
      rw [loopRun] at h
      cases hbody : (body s).run fuel with
      | none =>
        rw [hbody] at h
        cases h
      | some next =>
        rw [hbody] at h
        cases next with
        | inl s' => exact .inl ⟨s', ⟨fuel, hbody⟩, ⟨fuel, h⟩⟩
        | inr b =>
          cases h
          exact .inr ⟨fuel, hbody⟩
  · rintro (⟨s', ⟨fuel, hbody⟩, ⟨fuel', hloop⟩⟩ | ⟨fuel, hbody⟩)
    · refine ⟨max fuel fuel' + 1, ?_⟩
      change loopRun body (max fuel fuel' + 1) s = some a
      rw [loopRun, (body s).run_of_le (le_max_left _ _) hbody]
      exact (loop body s').run_of_le (le_max_right _ _) hloop
    · refine ⟨fuel + 1, ?_⟩
      change loopRun body (fuel + 1) s = some a
      rw [loopRun, hbody]

theorem Ends.mono {R : α → Prop} (h : c.Ends Q) (hle : ∀ a, Q a → R a) : c.Ends R := by
  obtain ⟨a, ha, hQ⟩ := h
  exact ⟨a, ha, hle a hQ⟩

theorem Ends.of_returns (h : c.Ends Q) (ha : c.Returns a) : Q a := by
  obtain ⟨b, hb, hQ⟩ := h
  exact ha.unique hb ▸ hQ

theorem ends_pure (h : Q a) : (pure a : Looping α).Ends Q :=
  ⟨a, returns_pure_iff.mpr rfl, h⟩

theorem Ends.bind {c : Looping β} {f : β → Looping α} {R : β → Prop} (h : c.Ends R)
    (hf : ∀ b, R b → (f b).Ends Q) : (c >>= f).Ends Q := by
  obtain ⟨b, hb, hR⟩ := h
  obtain ⟨a, ha, hQ⟩ := hf b hR
  exact ⟨a, returns_bind_iff.mpr ⟨b, hb, ha⟩, hQ⟩

variable {I : σ → Prop}

theorem ends_loop {γ : Type} [Preorder γ] [WellFoundedLT γ] (measure : σ → γ)
    (hbody : ∀ s, I s → (body s).Ends fun next =>
      next.elim (fun s' => I s' ∧ measure s' < measure s) Q) (h : I s) : (loop body s).Ends Q := by
  generalize hm : measure s = m
  induction m using WellFoundedLT.induction generalizing s with
  | ind m ih =>
    obtain ⟨next, hnext, hround⟩ := hbody s h
    cases next with
    | inl s' =>
      obtain ⟨hinv, hlt⟩ := hround
      obtain ⟨a, ha, hQ⟩ := ih (measure s') (hm ▸ hlt) hinv rfl
      exact ⟨a, returns_loop_iff.mpr (.inl ⟨s', hnext, ha⟩), hQ⟩
    | inr a => exact ⟨a, returns_loop_iff.mpr (.inr hnext), hround⟩

theorem ends_whileDo {cond : σ → Bool} {body : σ → Looping σ} {Q I : σ → Prop}
    (measure : σ → ℕ)
    (hbody : ∀ s, I s → cond s = true → (body s).Ends fun s' =>
      I s' ∧ measure s' < measure s)
    (hstop : ∀ s, I s → cond s = false → Q s) (h : I s) : (whileDo cond body s).Ends Q := by
  refine ends_loop measure (fun s hs => ?_) h
  cases hcond : cond s with
  | true =>
    exact (hbody s hs hcond).bind fun s' hs' => ends_pure hs'
  | false =>
    exact ends_pure (hstop s hs hcond)

theorem loop_keeps (hbody : ∀ s, I s → ∀ next, (body s).Returns next → next.elim I Q) (h : I s)
    (ha : (loop body s).Returns a) : Q a := by
  obtain ⟨fuel, hrun⟩ := ha
  change loopRun body fuel s = some a at hrun
  induction fuel generalizing s with
  | zero => cases hrun
  | succ fuel ih =>
    rw [loopRun] at hrun
    cases hround : (body s).run fuel with
    | none =>
      rw [hround] at hrun
      cases hrun
    | some next =>
      rw [hround] at hrun
      have hnext := hbody s h next ⟨fuel, hround⟩
      cases next with
      | inl s' => exact ih hnext hrun
      | inr b =>
        cases hrun
        exact hnext

theorem whileDo_keeps {cond : σ → Bool} {body : σ → Looping σ} {Q I : σ → Prop}
    (hbody : ∀ s, I s → cond s = true → ∀ s', (body s).Returns s' → I s')
    (hstop : ∀ s, I s → cond s = false → Q s) (h : I s) {a : σ}
    (ha : (whileDo cond body s).Returns a) : Q a := by
  refine loop_keeps (fun s hs next hnext => ?_) h ha
  cases hcond : cond s with
  | true =>
    rw [if_pos hcond] at hnext
    obtain ⟨s', hs', hnext⟩ := returns_bind_iff.mp hnext
    obtain rfl := returns_pure_iff.mp hnext
    exact hbody s hs hcond s' hs'
  | false =>
    rw [if_neg (by rw [hcond]; exact Bool.false_ne_true)] at hnext
    obtain rfl := returns_pure_iff.mp hnext
    exact hstop s hs hcond

theorem not_returns_loop
    (hbody : ∀ s, I s → ∀ next, (body s).Returns next → ∃ s', next = .inl s' ∧ I s') (h : I s)
    (a : α) : ¬(loop body s).Returns a := by
  apply loop_keeps (Q := fun _ => False) _ h
  intro s hs next hnext
  obtain ⟨s', rfl, hs'⟩ := hbody s hs next hnext
  exact hs'

theorem ends_foldlM {f : σ → β → Looping σ} {I : List β → σ → Prop} {l : List β}
    (hstep : ∀ done x later s, l = done ++ x :: later → I done s →
      (f s x).Ends (I (done ++ [x])))
    (h : I [] s) : (l.foldlM f s).Ends (I l) := by
  have hall : ∀ later done s, l = done ++ later → I done s → (later.foldlM f s).Ends (I l) := by
    intro later
    induction later with
    | nil =>
      intro done s hl hs
      rw [hl, List.append_nil]
      exact ends_pure hs
    | cons x later ih =>
      intro done s hl hs
      refine (hstep done x later s hl hs).bind fun s' hs' => ?_
      exact ih (done ++ [x]) s' (by rw [hl, List.append_assoc, List.singleton_append]) hs'
  exact hall l [] s rfl h

end Rules

end Looping

end Vpux.Data
