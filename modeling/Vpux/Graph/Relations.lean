import Mathlib.Data.Nat.Notation
import Mathlib.Logic.Relation
import Mathlib.Order.Nat
import Mathlib.Order.WellFounded
import Mathlib.Order.WellFoundedSet

/-! Relations that are closed along the edges of a graph. -/
namespace Vpux.Graph
open Relation

section Closure

variable {α β : Type*} {edge : α → α → Prop} {direct closed : α → β → Prop}

theorem closed_iff_exists (hwf : WellFounded fun m t => edge t m)
    (h : ∀ t u, closed t u ↔ direct t u ∨ ∃ m, edge t m ∧ closed m u) (t : α) (u : β) :
    closed t u ↔ ∃ m, ReflTransGen edge t m ∧ direct m u := by
  constructor
  · intro hclosed
    induction t using hwf.induction with
    | _ t ih =>
      rcases (h t u).mp hclosed with hdirect | ⟨m, htm, hm⟩
      · exact ⟨t, .refl, hdirect⟩
      · obtain ⟨x, hmx, hx⟩ := ih m htm hm
        exact ⟨x, .head htm hmx, hx⟩
  · rintro ⟨m, htm, hm⟩
    induction htm using ReflTransGen.head_induction_on with
    | refl => exact (h m u).mpr (Or.inl hm)
    | head hst _ ih => exact (h _ u).mpr (Or.inr ⟨_, hst, ih⟩)

theorem wellFounded_of_climbs {edge : ℕ → ℕ → Prop} (n : ℕ)
    (h : ∀ t m, edge t m → t < m ∧ t < n) : WellFounded fun m t => edge t m := by
  apply Subrelation.wf (r := fun m t => n - m < n - t)
  · intro m t hedge
    have := h t m hedge
    omega
  · exact (measure fun t => n - t).wf

end Closure

-- Finite sets of an acyclic relation.
section Acyclic

variable {α : Type*} {r : α → α → Prop}

def Acyclic (r : α → α → Prop) : Prop := ∀ a, ¬ TransGen r a a

theorem Acyclic.wellFoundedOn (h : Acyclic r) {s : Set α} (hs : s.Finite) :
    s.WellFoundedOn (TransGen r) := by
  have : IsStrictOrder α (TransGen r) :=
    { irrefl := h, trans := fun _ _ _ => TransGen.trans }
  exact hs.wellFoundedOn

theorem Acyclic.exists_source (h : Acyclic r) {s : Finset α} (hs : s.Nonempty) :
    ∃ a ∈ s, ∀ b ∈ s, ¬ r b a := by
  have hwf : WellFounded fun a b : (s : Set α) => TransGen r a b :=
    h.wellFoundedOn s.finite_toSet
  obtain ⟨a, ha⟩ := hs
  obtain ⟨⟨m, hm⟩, -, hmin⟩ := hwf.has_min Set.univ ⟨⟨a, ha⟩, trivial⟩
  exact ⟨m, hm, fun b hb hbm => hmin ⟨b, hb⟩ trivial (.single hbm)⟩

theorem Acyclic.induction (h : Acyclic r) {s : Finset α} {p : α → Prop}
    (step : ∀ a ∈ s, (∀ b ∈ s, r b a → p b) → p a) : ∀ a ∈ s, p a := by
  classical
  by_contra hne
  push Not at hne
  obtain ⟨a, ha, hp⟩ := hne
  obtain ⟨m, hm, hsource⟩ := h.exists_source (s := s.filter fun a => ¬ p a)
    ⟨a, Finset.mem_filter.mpr ⟨ha, hp⟩⟩
  obtain ⟨hms, hmp⟩ := Finset.mem_filter.mp hm
  refine hmp (step m hms fun b hb hbm => ?_)
  by_contra hpb
  exact hsource b (Finset.mem_filter.mpr ⟨hb, hpb⟩) hbm

end Acyclic

-- Systems whose steps do not get in each other's way.
section Confluence

variable {σ : Type*} {r : σ → σ → Prop}

/-- Two different steps from a state lead on to a common state. -/
def Diamond (r : σ → σ → Prop) : Prop := ∀ a b c, r a b → r a c → b = c ∨ ∃ d, r b d ∧ r c d

def Stuck (r : σ → σ → Prop) (a : σ) : Prop := ∀ b, ¬ r a b

theorem Stuck.eq {a b : σ} (ha : Stuck r a) (h : ReflTransGen r a b) : a = b := by
  rcases ReflTransGen.cases_head h with rfl | ⟨c, hac, -⟩
  · rfl
  · exact absurd hac (ha c)

theorem Diamond.end_unique (h : Diamond r) {a b c : σ} (hab : ReflTransGen r a b)
    (hac : ReflTransGen r a c) (hb : Stuck r b) (hc : Stuck r c) : b = c := by
  have hlocal : ∀ a b c, r a b → r a c → ∃ d, ReflGen r b d ∧ ReflTransGen r c d := by
    intro a b c hb hc
    rcases h a b c hb hc with rfl | ⟨d, hbd, hcd⟩
    · exact ⟨b, .refl, .refl⟩
    · exact ⟨d, .single hbd, .single hcd⟩
  obtain ⟨d, hbd, hcd⟩ := church_rosser hlocal hab hac
  rw [hb.eq hbd, hc.eq hcd]

theorem no_infinite_run {measure : σ → ℕ} (hm : ∀ a b, r a b → measure b < measure a) (f : ℕ → σ) :
    ¬ ∀ n, r (f n) (f (n + 1)) := by
  intro hrun
  have hbound : ∀ n, measure (f n) + n ≤ measure (f 0) := by
    intro n
    induction n with
    | zero => exact Nat.le_refl _
    | succ n ih =>
      have := hm _ _ (hrun n)
      omega
  have := hbound (measure (f 0) + 1)
  omega

end Confluence

-- Reachability in ranked graphs. An edge may be dropped when a path of the original graph already
-- covers it: the closure is then preserved, however many edges go at once, because every covering
-- path has a smaller span.
variable {α : Type*} {rank : α → ℕ} {r r' : α → α → Prop}

/-- Every edge climbs in rank. -/
def Ranked (rank : α → ℕ) (r : α → α → Prop) : Prop :=
  ∀ a b, r a b → rank a < rank b

theorem Ranked.transGen (h : Ranked rank r) {a b : α} (hab : TransGen r a b) :
    rank a < rank b := by
  induction hab with
  | single hs => exact h _ _ hs
  | tail _ hs ih => exact ih.trans (h _ _ hs)

theorem Ranked.irrefl (h : Ranked rank r) (a : α) : ¬ TransGen r a a :=
  fun ha => (h.transGen ha).false

/-- An edge is covered by `r'` when it is an `r'` path, or splits at an
intermediate vertex into two `r` paths. -/
def Covered (r r' : α → α → Prop) (a b : α) : Prop :=
  TransGen r' a b ∨ ∃ m, TransGen r a m ∧ TransGen r m b

theorem transGen_of_covered (hr : Ranked rank r) (hc : ∀ a b, r a b → Covered r r' a b)
    {a b : α} (hab : TransGen r a b) : TransGen r' a b := by
  obtain ⟨n, hn⟩ : ∃ n, rank b - rank a < n := ⟨_, Nat.lt_succ_self _⟩
  induction n generalizing a b with
  | zero => omega
  | succ n ih =>
    have split : ∀ m, TransGen r a m → TransGen r m b → TransGen r' a b := by
      intro m ham hmb
      have h1 := hr.transGen ham
      have h2 := hr.transGen hmb
      exact (ih ham (by omega)).trans (ih hmb (by omega))
    cases hab with
    | single hs =>
      rcases hc _ _ hs with h' | ⟨m, ham, hmb⟩
      · exact h'
      · exact split m ham hmb
    | tail ham hs => exact split _ ham (.single hs)

theorem transGen_iff_of_covered (hr : Ranked rank r) (hsub : ∀ a b, r' a b → r a b)
    (hc : ∀ a b, r a b → Covered r r' a b) {a b : α} :
    TransGen r' a b ↔ TransGen r a b :=
  ⟨fun h => TransGen.mono hsub _ _ h, transGen_of_covered hr hc⟩

end Vpux.Graph
