import Mathlib.Order.Interval.Set.LinearOrder
import Mathlib.Order.SetNotation
import Mathlib.Data.Set.Lattice
import Mathlib.Data.List.Pairwise
import Mathlib.Order.CompletePartialOrder

/-! Sets kept as a list of half-open spans. When every span is non-empty and apart from the
next one the list is determined by the set, and each update of the list is an update of the
set. -/
namespace Vpux.Data

structure Span (α : Type*) where
  lo : α
  hi : α
  deriving DecidableEq

variable {α : Type*} [LinearOrder α]

def Span.points (s : Span α) : Set α := Set.Ico s.lo s.hi

@[simp] theorem Span.mem_points {s : Span α} {x : α} : x ∈ s.points ↔ s.lo ≤ x ∧ x < s.hi := Iff.rfl

def cover (l : List (Span α)) : Set α := {x | ∃ s ∈ l, x ∈ s.points}

/-- Non-empty spans in strict order, a gap between any two of them. -/
structure Separated (l : List (Span α)) : Prop where
  nonempty : ∀ s ∈ l, s.lo < s.hi
  apart : l.Pairwise fun a b => a.hi < b.lo

@[simp] theorem mem_cover {l : List (Span α)} {x : α} :
    x ∈ cover l ↔ ∃ s ∈ l, s.lo ≤ x ∧ x < s.hi := Iff.rfl

@[simp] theorem cover_nil : cover ([] : List (Span α)) = ∅ := by
  ext x
  simp

@[simp] theorem cover_cons (s : Span α) (l : List (Span α)) : cover (s :: l) =
    s.points ∪ cover l := by
  ext x
  simp

@[simp] theorem cover_append (l l' : List (Span α)) : cover (l ++ l') = cover l ∪ cover l' := by
  ext x
  simp [or_and_right, exists_or]

theorem points_subset_cover {l : List (Span α)} {s : Span α} (hs : s ∈ l) : s.points ⊆ cover l :=
  fun _ hx => ⟨s, hs, hx⟩

namespace Separated

variable {l l' : List (Span α)} {s t : Span α}

theorem nil : Separated ([] : List (Span α)) := ⟨by simp, .nil⟩

theorem singleton (h : s.lo < s.hi) : Separated [s] := ⟨by simpa using h, by simp⟩

theorem cons_iff : Separated (s :: l) ↔ s.lo < s.hi ∧ (∀ t ∈ l, s.hi < t.lo) ∧ Separated l := by
  constructor
  · intro h
    have hp := List.pairwise_cons.mp h.apart
    exact ⟨h.nonempty s (by simp), hp.1, fun t ht => h.nonempty t (by simp [ht]), hp.2⟩
  · intro ⟨hs, hl, h⟩
    exact ⟨by simpa using ⟨hs, h.nonempty⟩, List.pairwise_cons.mpr ⟨hl, h.apart⟩⟩

theorem cons_cons_iff : Separated (s :: t :: l) ↔ s.lo < s.hi ∧ s.hi < t.lo ∧
    Separated (t :: l) := by
  rw [cons_iff (s := s)]
  constructor
  · intro ⟨hs, hl, h⟩
    exact ⟨hs, hl t (by simp), h⟩
  · intro ⟨hs, hst, h⟩
    have ht := cons_iff.mp h
    refine ⟨hs, ?_, h⟩
    intro u hu
    rcases List.mem_cons.mp hu with rfl | hu
    · exact hst
    · exact hst.trans (ht.1.trans (ht.2.1 u hu))

theorem append_iff : Separated (l ++ l') ↔
    Separated l ∧ Separated l' ∧ ∀ s ∈ l, ∀ t ∈ l', s.hi < t.lo := by
  constructor
  · intro h
    have hp := List.pairwise_append.mp h.apart
    exact ⟨⟨fun s hs => h.nonempty s (by simp [hs]), hp.1⟩,
      ⟨fun s hs => h.nonempty s (by simp [hs]), hp.2.1⟩, hp.2.2⟩
  · intro ⟨h, h', hll⟩
    refine ⟨?_, List.pairwise_append.mpr ⟨h.apart, h'.apart, hll⟩⟩
    intro s hs
    rcases List.mem_append.mp hs with hs | hs
    · exact h.nonempty s hs
    · exact h'.nonempty s hs

theorem head_lo_le (h : Separated (s :: l)) : ∀ x ∈ cover (s :: l), s.lo ≤ x := by
  intro x ⟨t, ht, hx⟩
  rcases List.mem_cons.mp ht with rfl | ht
  · exact hx.1
  · have hs := cons_iff.mp h
    exact ((hs.1.trans (hs.2.1 t ht)).trans_le hx.1).le

theorem head_hi_notMem (h : Separated (s :: l)) : s.hi ∉ cover (s :: l) := by
  intro ⟨t, ht, hx⟩
  rcases List.mem_cons.mp ht with rfl | ht
  · exact lt_irrefl _ hx.2
  · exact absurd hx.1 (not_le.mpr ((cons_iff.mp h).2.1 t ht))

theorem cover_tail (h : Separated (s :: l)) : cover l = cover (s :: l) \ s.points := by
  ext x
  simp only [cover_cons, Set.mem_sdiff, Set.mem_union]
  constructor
  · intro hx
    refine ⟨Or.inr hx, fun hxs => ?_⟩
    obtain ⟨t, ht, hxt⟩ := hx
    exact absurd (hxt.1.trans_lt hxs.2) (not_lt.mpr ((cons_iff.mp h).2.1 t ht).le)
  · intro ⟨hx, hxs⟩
    exact hx.resolve_left hxs

theorem head_hi_le (h' : Separated (t :: l'))
    (hc : cover (s :: l) = cover (t :: l')) (hlo : s.lo = t.lo) : s.hi ≤ t.hi := by
  by_contra hlt
  have hmem : t.hi ∈ cover (s :: l) :=
    ⟨s, by simp, hlo ▸ (cons_iff.mp h').1.le, not_le.mp hlt⟩
  exact head_hi_notMem h' (hc ▸ hmem)

theorem lo_mem (h : Separated l) (hs : s ∈ l) : s.lo ∈ cover l := ⟨s, hs, le_rfl, h.nonempty s hs⟩

theorem head_lo_mem (h : Separated (s :: l)) : s.lo ∈ cover (s :: l) := lo_mem h (by simp)

theorem ext (h : Separated l) (h' : Separated l') (hc : cover l = cover l') : l = l' := by
  induction l generalizing l' with
  | nil =>
    cases l' with
    | nil => rfl
    | cons t l' =>
      have hmem := head_lo_mem h'
      rw [← hc] at hmem
      simp at hmem
  | cons s l ih =>
    cases l' with
    | nil =>
      have hmem := head_lo_mem h
      rw [hc] at hmem
      simp at hmem
    | cons t l' =>
      have hlo : s.lo = t.lo := le_antisymm (head_lo_le h _ (hc ▸ head_lo_mem h'))
        (head_lo_le h' _ (hc ▸ head_lo_mem h))
      have hhi : s.hi = t.hi := le_antisymm (head_hi_le h' hc hlo) (head_hi_le h hc.symm hlo.symm)
      have hst : s = t := by
        cases s
        cases t
        simp_all
      subst hst
      have htail : cover l = cover l' := by rw [cover_tail h, cover_tail h', hc]
      rw [ih (cons_iff.mp h).2.2 (cons_iff.mp h').2.2 htail]

variable {pre mid post : List (Span α)}

section

variable (h : Separated (pre ++ s :: post))
include h

theorem replace (hm : Separated mid) (hin : ∀ t ∈ mid, s.lo ≤ t.lo ∧ t.hi ≤ s.hi) :
    Separated (pre ++ mid ++ post) := by
  obtain ⟨hpre, hs, hps⟩ := append_iff.mp h
  obtain ⟨-, hsp, hpost⟩ := cons_iff.mp hs
  refine append_iff.mpr ⟨append_iff.mpr ⟨hpre, hm, ?_⟩, hpost, ?_⟩
  · intro a ha t ht
    exact (hps a ha s (by simp)).trans_le (hin t ht).1
  · intro a ha t ht
    rcases List.mem_append.mp ha with ha | ha
    · exact hps a ha t (by simp [ht])
    · exact (hin a ha).2.trans_lt (hsp t ht)

theorem disjoint_middle :
    Disjoint (cover pre) s.points ∧ Disjoint (cover post) s.points := by
  obtain ⟨-, hs, hps⟩ := append_iff.mp h
  obtain ⟨-, hsp, -⟩ := cons_iff.mp hs
  constructor
  · refine Set.disjoint_left.mpr ?_
    intro x ⟨a, ha, hx⟩ hxs
    exact absurd (hx.2.trans (hps a ha s (by simp))) (not_lt.mpr hxs.1)
  · refine Set.disjoint_left.mpr ?_
    intro x ⟨a, ha, hx⟩ hxs
    exact absurd (hxs.2.trans (hsp a ha)) (not_lt.mpr hx.1)

theorem cover_replace {r : Set α} (hr : r ⊆ s.points) (hm : cover mid = s.points \ r) :
    cover (pre ++ mid ++ post) = cover (pre ++ s :: post) \ r := by
  obtain ⟨hpre, hpost⟩ := disjoint_middle h
  have hpre' : cover pre \ r = cover pre := (hpre.mono_right hr).sdiff_eq_left
  have hpost' : cover post \ r = cover post := (hpost.mono_right hr).sdiff_eq_left
  rw [cover_append, cover_append, cover_append, cover_cons, hm, Set.union_sdiff_distrib,
    Set.union_sdiff_distrib, hpre', hpost', Set.union_assoc]

end

theorem trichotomy (h : Separated l) (hs : s ∈ l) (ht : t ∈ l) :
    s = t ∨ s.hi < t.lo ∨ t.hi < s.lo := by
  induction l with
  | nil => simp at hs
  | cons a l ih =>
    obtain ⟨-, hl, h⟩ := cons_iff.mp h
    rcases List.mem_cons.mp hs with hsa | hsl
    · rcases List.mem_cons.mp ht with hta | htl
      · exact Or.inl (hsa.trans hta.symm)
      · exact Or.inr (Or.inl (hsa ▸ hl t htl))
    · rcases List.mem_cons.mp ht with hta | htl
      · exact Or.inr (Or.inr (hta ▸ hl s hsl))
      · exact ih h hsl htl

theorem exists_span (h : Separated l) {a b : α} (hab : a < b) (hsub : Set.Ico a b ⊆ cover l) :
    ∃ s ∈ l, s.lo ≤ a ∧ b ≤ s.hi := by
  obtain ⟨s, hs, hlo, hhi⟩ := hsub ⟨le_rfl, hab⟩
  refine ⟨s, hs, hlo, ?_⟩
  by_contra hlt
  -- the end of the span is inside the range, and no other span holds it
  obtain ⟨t, ht, htlo, hthi⟩ := hsub ⟨hhi.le, not_le.mp hlt⟩
  rcases trichotomy h hs ht with rfl | hlt' | hlt'
  · exact lt_irrefl _ hthi
  · exact absurd htlo (not_le.mpr hlt')
  · exact absurd (hlt'.trans_le hlo) (not_lt.mpr ((hhi.trans hthi).le))

end Separated

section Update

variable {l pre post : List (Span α)} {s t : Span α} {a b : α}

/-- What is left of a span when the range from `a` to `b` is taken out of it. -/
def carve (s : Span α) (a b : α) : List (Span α) :=
  (if s.lo < a then [⟨s.lo, a⟩] else []) ++ (if b < s.hi then [⟨b, s.hi⟩] else [])

open Separated

theorem separated_carve (hab : a < b) : Separated (carve s a b) := by
  unfold carve
  split_ifs with hlo hhi hhi
  · exact cons_cons_iff.mpr ⟨hlo, hab, singleton hhi⟩
  · exact singleton hlo
  · exact singleton hhi
  · exact nil

theorem carve_within (hlo : s.lo ≤ a) (hhi : b ≤ s.hi) (hab : a < b) :
    ∀ t ∈ carve s a b, s.lo ≤ t.lo ∧ t.hi ≤ s.hi := by
  intro t ht
  rcases List.mem_append.mp ht with ht | ht
  · split_ifs at ht
    · obtain rfl := List.mem_singleton.mp ht
      exact ⟨le_rfl, hab.le.trans hhi⟩
    · simp at ht
  · split_ifs at ht
    · obtain rfl := List.mem_singleton.mp ht
      exact ⟨hlo.trans hab.le, le_rfl⟩
    · simp at ht

theorem cover_carve (hlo : s.lo ≤ a) (hhi : b ≤ s.hi) (hab : a < b) :
    cover (carve s a b) = s.points \ Set.Ico a b := by
  have hleft : cover (if s.lo < a then [⟨s.lo, a⟩] else []) = Set.Ico s.lo a := by
    split_ifs with h
    · simp [Span.points]
    · rw [Set.Ico_eq_empty h, cover_nil]
  have hright : cover (if b < s.hi then [⟨b, s.hi⟩] else []) = Set.Ico b s.hi := by
    split_ifs with h
    · simp [Span.points]
    · rw [Set.Ico_eq_empty h, cover_nil]
  rw [carve, cover_append, hleft, hright]
  ext x
  constructor
  · rintro (⟨h1, h2⟩ | ⟨h1, h2⟩)
    · exact ⟨⟨h1, h2.trans (hab.trans_le hhi)⟩, fun h => absurd h2 (not_lt.mpr h.1)⟩
    · exact ⟨⟨hlo.trans (hab.le.trans h1), h2⟩, fun h => absurd h.2 (not_lt.mpr h1)⟩
  · rintro ⟨⟨h1, h2⟩, h3⟩
    by_cases hxa : x < a
    · exact Or.inl ⟨h1, hxa⟩
    · exact Or.inr ⟨not_lt.mp fun hxb => h3 ⟨not_lt.mp hxa, hxb⟩, h2⟩

theorem Separated.carve (h : Separated (pre ++ s :: post)) (hlo : s.lo ≤ a) (hhi : b ≤ s.hi)
    (hab : a < b) : Separated (pre ++ Data.carve s a b ++ post) ∧
      cover (pre ++ Data.carve s a b ++ post) = cover (pre ++ s :: post) \ Set.Ico a b := by
  have hsub : Set.Ico a b ⊆ s.points := Set.Ico_subset_Ico hlo hhi
  exact ⟨h.replace (separated_carve hab) (carve_within hlo hhi hab),
    h.cover_replace hsub (cover_carve hlo hhi hab)⟩

theorem hi_le_of_disjoint (hs : s.lo < s.hi) (hab : a < b) (hd : Disjoint s.points (Set.Ico a b))
    (hlt : s.lo < b) : s.hi ≤ a := by
  by_contra hle
  rw [not_le] at hle
  have hmem : max s.lo a ∈ s.points := ⟨le_max_left _ _, max_lt hs hle⟩
  exact Set.disjoint_left.mp hd hmem ⟨le_max_right _ _, max_lt hlt hab⟩

/-- The separated list of a set with the range from `a` to `b` added. -/
structure Inserted (l : List (Span α)) (a b : α) (l' : List (Span α)) : Prop where
  separated : Separated l'
  covers : cover l' = cover l ∪ Set.Ico a b

section Insert

variable (h : Separated (s :: l)) (hab : a < b)

include h hab

theorem Inserted.before (hb : b < s.lo) : Inserted (s :: l) a b (⟨a, b⟩ :: s :: l) where
  separated := cons_cons_iff.mpr ⟨hab, hb, h⟩
  covers := by rw [cover_cons, Set.union_comm]; rfl

theorem Inserted.prepend (hb : b = s.lo) : Inserted (s :: l) a b (⟨a, s.hi⟩ :: l) where
  separated := by
    obtain ⟨hs, hsl, hl⟩ := cons_iff.mp h
    exact cons_iff.mpr ⟨hab.trans (hb ▸ hs), hsl, hl⟩
  covers := by
    have hs := (cons_iff.mp h).1
    have hjoin : Set.Ico a b ∪ s.points = Set.Ico a s.hi := by
      rw [Span.points, hb, Set.Ico_union_Ico_eq_Ico (hb ▸ hab.le) hs.le]
    rw [cover_cons, cover_cons, Span.points, ← hjoin, Set.union_assoc, Set.union_comm]

theorem Inserted.append (ha : a = s.hi) (hl : ∀ t ∈ l, b < t.lo) :
    Inserted (s :: l) a b (⟨s.lo, b⟩ :: l) where
  separated := by
    obtain ⟨hs, -, hsep⟩ := cons_iff.mp h
    exact cons_iff.mpr ⟨hs.trans (ha ▸ hab), hl, hsep⟩
  covers := by
    have hs := (cons_iff.mp h).1
    have hjoin : s.points ∪ Set.Ico a b = Set.Ico s.lo b := by
      rw [Span.points, ha, Set.Ico_union_Ico_eq_Ico hs.le (ha ▸ hab.le)]
    rw [cover_cons, cover_cons, Span.points, ← hjoin, Set.union_right_comm]

end Insert

theorem Inserted.last (h : Separated [s]) (hab : a < b) (ha : s.hi < a) :
    Inserted [s] a b [s, ⟨a, b⟩] where
  separated := cons_cons_iff.mpr ⟨h.nonempty s (by simp), ha, singleton hab⟩
  covers := by simp [Span.points]


theorem Inserted.cons {hd : Span α} {tl : List (Span α)} (h : Separated (s :: l))
    (hl : Inserted l a b (hd :: tl)) (hs : s.hi < hd.lo) :
      Inserted (s :: l) a b (s :: hd :: tl) where
  separated := cons_cons_iff.mpr ⟨(cons_iff.mp h).1, hs, hl.separated⟩
  covers := by rw [cover_cons, hl.covers, cover_cons, Set.union_assoc]

theorem Inserted.bridge (h : Separated (s :: t :: l)) (hab : a < b) (ha : a = s.hi)
    (hb : b = t.lo) :
    Inserted (s :: t :: l) a b (⟨s.lo, t.hi⟩ :: l) := by
  obtain ⟨hs, -, ht⟩ := cons_cons_iff.mp h
  have hfirst : Inserted (t :: l) a b (⟨a, t.hi⟩ :: l) := Inserted.prepend ht hab hb
  obtain ⟨hat, htl, hl⟩ := cons_iff.mp hfirst.separated
  refine ⟨cons_iff.mpr ⟨hs.trans (ha ▸ hat), htl, hl⟩, ?_⟩
  have hjoin : s.points ∪ Set.Ico a t.hi = Set.Ico s.lo t.hi := by
    rw [Span.points, ha, Set.Ico_union_Ico_eq_Ico hs.le (ha ▸ hat.le)]
  have hc : Set.Ico a t.hi ∪ cover l = cover (t :: l) ∪ Set.Ico a b := by
    rw [← hfirst.covers, cover_cons, Span.points]
  rw [cover_cons, cover_cons, Set.union_assoc, ← hc, ← Set.union_assoc, hjoin]
  rfl

end Update

end Vpux.Data
