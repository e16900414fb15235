import Vpux.Async.DepsMap
import Vpux.Memory.ControlEdgeGenerator

/-! Control edges as dependencies. An edge between operations whose cycles overlap is
omitted, and its source is tied to what comes after its sink instead. -/
namespace Vpux.Memory
open Relation Async

section Update

variable (cycleBegin cycleEnd : ℕ → ℕ)

/-- Scheduler assumed that the two operations can coexist. -/
def cyclesOverlap (source sink : ℕ) : Bool :=
  cycleBegin sink < cycleEnd source ∧ cycleEnd sink > cycleBegin source

/-- The first loop. A sink without an entry in `optimizedEdges` has no sources there. -/
def addOrOmitEdge (st : AsyncDepsInfo × (ℕ → List ℕ)) (edge : ControlEdge) :
    AsyncDepsInfo × (ℕ → List ℕ) :=
  if edge.source = edge.sink then st
  else if cyclesOverlap cycleBegin cycleEnd edge.source edge.sink then
    (st.1, Function.update st.2 edge.sink (st.2 edge.sink ++ [edge.source]))
  else (st.1.addDependency edge.source edge.sink, st.2)

/-- The second loop: from the sources of an omitted edge to the successors of its sink. -/
def addOptimizedEdges (optimizedEdges : ℕ → List ℕ) (depsInfo : AsyncDepsInfo)
    (edge : ControlEdge) :
    AsyncDepsInfo :=
  if edge.source = edge.sink then depsInfo
  else (optimizedEdges edge.source).foldl
    (fun depsInfo src => depsInfo.addDependency src edge.sink) depsInfo

def updateControlEdgesInDepsInfo (depsInfo : AsyncDepsInfo) (controlEdges : List ControlEdge) :
    AsyncDepsInfo :=
  let first := controlEdges.foldl (addOrOmitEdge cycleBegin cycleEnd) (depsInfo, fun _ => [])
  controlEdges.foldl (addOptimizedEdges first.2) first.1

end Update

section Reachability

variable (cycleBegin cycleEnd : ℕ → ℕ) (controlEdges : List ControlEdge)

/-- The control edges; the code skips loops. -/
def Edge (a b : ℕ) : Prop := a ≠ b ∧ ⟨a, b⟩ ∈ controlEdges

def Omitted (a b : ℕ) : Prop := Edge controlEdges a b ∧ cyclesOverlap cycleBegin cycleEnd a b = true

def Kept (a b : ℕ) : Prop := Edge controlEdges a b ∧ ¬ cyclesOverlap cycleBegin cycleEnd a b = true

theorem edge_iff (a b : ℕ) : Edge controlEdges a b ↔
    Kept cycleBegin cycleEnd controlEdges a b ∨ Omitted cycleBegin cycleEnd controlEdges a b := by
  unfold Kept Omitted
  tauto

theorem edge_cons (edge : ControlEdge) (a b : ℕ) :
    Edge (edge :: controlEdges) a b ↔
      (edge.source ≠ edge.sink ∧ a = edge.source ∧ b = edge.sink) ∨ Edge controlEdges a b := by
  obtain ⟨source, sink⟩ := edge
  unfold Edge
  grind

theorem addOrOmitEdge_step (st : AsyncDepsInfo × (ℕ → List ℕ)) (edge : ControlEdge) (a b : ℕ) :
    ((addOrOmitEdge cycleBegin cycleEnd st edge).1.Depends a b ↔
      st.1.Depends a b ∨ Kept cycleBegin cycleEnd [edge] a b) ∧
    (a ∈ (addOrOmitEdge cycleBegin cycleEnd st edge).2 b ↔
      a ∈ st.2 b ∨ Omitted cycleBegin cycleEnd [edge] a b) := by
  unfold Kept Omitted addOrOmitEdge
  rw [edge_cons]
  split_ifs with hloop hoverlap
  · simp [hloop, Edge]
  · constructor
    · simp only [Edge, List.not_mem_nil, and_false, or_false]
      grind
    · by_cases hb : b = edge.sink
      · simp only [hb, Function.update_self, List.mem_append, List.mem_singleton, Edge,
          List.not_mem_nil, and_false, or_false]
        grind
      · simp [hb, Edge]
  · simp only [AsyncDepsInfo.depends_addDependency, Edge, List.not_mem_nil, and_false, or_false]
    grind

theorem addOrOmitEdge_spec (st : AsyncDepsInfo × (ℕ → List ℕ)) (a b : ℕ) :
    ((controlEdges.foldl (addOrOmitEdge cycleBegin cycleEnd) st).1.Depends a b ↔
      st.1.Depends a b ∨ Kept cycleBegin cycleEnd controlEdges a b) ∧
    (a ∈ (controlEdges.foldl (addOrOmitEdge cycleBegin cycleEnd) st).2 b ↔
      a ∈ st.2 b ∨ Omitted cycleBegin cycleEnd controlEdges a b) := by
  induction controlEdges generalizing st with
  | nil => simp [Kept, Omitted, Edge]
  | cons edge controlEdges ih =>
    have hstep := addOrOmitEdge_step cycleBegin cycleEnd st edge a b
    have hrest := ih (addOrOmitEdge cycleBegin cycleEnd st edge)
    have hedge : Edge (edge :: controlEdges) a b ↔ Edge [edge] a b ∨ Edge controlEdges a b := by
      rw [edge_cons, edge_cons]
      simp [Edge]
    unfold Kept Omitted at hstep hrest ⊢
    rw [List.foldl_cons, hrest.1, hrest.2, hstep.1, hstep.2, hedge, or_and_right, or_and_right,
      or_assoc, or_assoc]
    exact ⟨Iff.rfl, Iff.rfl⟩

theorem addOptimizedEdges_spec (optimizedEdges : ℕ → List ℕ) (depsInfo : AsyncDepsInfo) (a b : ℕ) :
    (controlEdges.foldl (addOptimizedEdges optimizedEdges) depsInfo).Depends a b ↔
      depsInfo.Depends a b ∨ ∃ x, a ∈ optimizedEdges x ∧ Edge controlEdges x b := by
  induction controlEdges generalizing depsInfo with
  | nil => simp [Edge]
  | cons edge controlEdges ih =>
    have hstep : (addOptimizedEdges optimizedEdges depsInfo edge).Depends a b ↔
        depsInfo.Depends a b ∨
          (edge.source ≠ edge.sink ∧ a ∈ optimizedEdges edge.source ∧ b = edge.sink) := by
      unfold addOptimizedEdges
      split_ifs with hloop
      · simp [hloop]
      · rw [AsyncDepsInfo.depends_foldl_addDependency]
        tauto
    rw [List.foldl_cons, ih, hstep]
    simp only [edge_cons]
    grind

theorem depends_updateControlEdgesInDepsInfo (depsInfo : AsyncDepsInfo) (a b : ℕ) :
    (updateControlEdgesInDepsInfo cycleBegin cycleEnd depsInfo controlEdges).Depends a b ↔
      depsInfo.Depends a b ∨ Kept cycleBegin cycleEnd controlEdges a b ∨
        ∃ x, Omitted cycleBegin cycleEnd controlEdges a x ∧ Edge controlEdges x b := by
  have hfirst := addOrOmitEdge_spec cycleBegin cycleEnd controlEdges (depsInfo, fun _ => [])
  unfold updateControlEdgesInDepsInfo
  rw [addOptimizedEdges_spec, (hfirst a b).1, or_assoc]
  refine or_congr_right (or_congr_right (exists_congr fun x => and_congr_left' ?_))
  rw [(hfirst a x).2]
  simp

/-- A chain of control edges. The flag says that an even number of omitted edges, possibly
none, stand at its end. -/
inductive ControlChain : Bool → ℕ → ℕ → Prop
  | kept {a b : ℕ} (h : Kept cycleBegin cycleEnd controlEdges a b) : ControlChain true a b
  | omitted {a b : ℕ} (h : Omitted cycleBegin cycleEnd controlEdges a b) : ControlChain false a b
  | snocKept {even : Bool} {a c b : ℕ} (h : ControlChain even a c)
      (hlast : Kept cycleBegin cycleEnd controlEdges c b) : ControlChain true a b
  | snocOmitted {even : Bool} {a c b : ℕ} (h : ControlChain even a c)
      (hlast : Omitted cycleBegin cycleEnd controlEdges c b) : ControlChain (!even) a b

variable {cycleBegin cycleEnd controlEdges} {a b : ℕ}

variable (cycleBegin cycleEnd) in
theorem ControlChain.of_transGen (h : TransGen (Edge controlEdges) a b) :
    ∃ even, ControlChain cycleBegin cycleEnd controlEdges even a b := by
  induction h with
  | single hedge =>
    cases (edge_iff cycleBegin cycleEnd controlEdges _ _).mp hedge with
    | inl hkept => exact ⟨true, .kept hkept⟩
    | inr homitted => exact ⟨false, .omitted homitted⟩
  | tail _ hedge ih =>
    obtain ⟨even, hchain⟩ := ih
    cases (edge_iff cycleBegin cycleEnd controlEdges _ _).mp hedge with
    | inl hkept => exact ⟨true, .snocKept hchain hkept⟩
    | inr homitted => exact ⟨!even, .snocOmitted hchain homitted⟩

theorem ControlChain.transGen {even : Bool} (h :
    ControlChain cycleBegin cycleEnd controlEdges even a b) :
    TransGen (Edge controlEdges) a b := by
  induction h with
  | kept hkept => exact .single hkept.1
  | omitted homitted => exact .single homitted.1
  | snocKept _ hlast ih => exact ih.tail hlast.1
  | snocOmitted _ hlast ih => exact ih.tail hlast.1

theorem ControlChain.last_omitted (h : ControlChain cycleBegin cycleEnd controlEdges false a b) :
    ∃ c, ReflTransGen (Edge controlEdges) a c ∧ Omitted cycleBegin cycleEnd controlEdges c b := by
  generalize hodd : false = even at h
  cases h with
  | kept => contradiction
  | omitted homitted => exact ⟨a, .refl, homitted⟩
  | snocKept => contradiction
  | snocOmitted hchain hlast => exact ⟨_, hchain.transGen.to_reflTransGen, hlast⟩

variable (depsInfo : AsyncDepsInfo)

theorem ControlChain.covered {even : Bool}
    (h : ControlChain cycleBegin cycleEnd controlEdges even a b) :
    if even then TransGen
      (updateControlEdgesInDepsInfo cycleBegin cycleEnd depsInfo controlEdges).Depends a b
    else ∃ c, ReflTransGen
      (updateControlEdgesInDepsInfo cycleBegin cycleEnd depsInfo controlEdges).Depends a c ∧
        Omitted cycleBegin cycleEnd controlEdges c b := by
  have hkeep : ∀ {x y}, Kept cycleBegin cycleEnd controlEdges x y →
      (updateControlEdgesInDepsInfo cycleBegin cycleEnd depsInfo controlEdges).Depends x y :=
    fun h => (depends_updateControlEdgesInDepsInfo ..).mpr (Or.inr (Or.inl h))
  have hpair : ∀ {x y z}, Omitted cycleBegin cycleEnd controlEdges x y → Edge controlEdges y z →
      (updateControlEdgesInDepsInfo cycleBegin cycleEnd depsInfo controlEdges).Depends x z :=
    fun h h' => (depends_updateControlEdgesInDepsInfo ..).mpr (Or.inr (Or.inr ⟨_, h, h'⟩))
  induction h with
  | kept hkept => exact .single (hkeep hkept)
  | omitted homitted => exact ⟨_, .refl, homitted⟩
  | @snocKept even a c b _ hlast ih =>
    cases even with
    | true => exact ih.tail (hkeep hlast)
    | false =>
      obtain ⟨d, hd, homitted⟩ := ih
      exact .tail' hd (hpair homitted hlast.1)
  | @snocOmitted even a c b _ hlast ih =>
    cases even with
    | true => exact ⟨c, ih.to_reflTransGen, hlast⟩
    | false =>
      obtain ⟨d, hd, homitted⟩ := ih
      exact .tail' hd (hpair homitted hlast.1)

end Reachability

/-- Orderings survive exactly where an omitted last edge can be avoided. -/
theorem updateControlEdgesInDepsInfo_keeps_iff (cycleBegin cycleEnd : ℕ → ℕ)
    (depsInfo : AsyncDepsInfo) (controlEdges : List ControlEdge) (position : ℕ → ℕ)
    (hsched : ∀ e ∈ controlEdges, position e.source < position e.sink) :
    (∀ a b, TransGen (fun s t => ⟨s, t⟩ ∈ controlEdges) a b → cycleEnd a ≤ cycleBegin b →
      TransGen (updateControlEdgesInDepsInfo cycleBegin cycleEnd depsInfo controlEdges).Depends a
        b) ↔
    ∀ a c b, TransGen (fun s t => ⟨s, t⟩ ∈ controlEdges) a c → ⟨c, b⟩ ∈ controlEdges →
      cyclesOverlap cycleBegin cycleEnd c b = true → cycleEnd a ≤ cycleBegin b →
      TransGen (fun s t => depsInfo.Depends s t ∨
        ControlChain cycleBegin cycleEnd controlEdges true s t) a b := by
  have hedge : (fun s t => ⟨s, t⟩ ∈ controlEdges) = Edge controlEdges := by
    funext s t
    refine propext ⟨fun h => ⟨?_, h⟩, And.right⟩
    rintro rfl
    exact lt_irrefl _ (hsched _ h)
  rw [hedge]
  constructor
  · intro hkeeps a c b hac hcb hoverlap hcycles
    have hcb' : Edge controlEdges c b := hedge ▸ hcb
    refine TransGen.mono (fun s t hst => ?_) a b (hkeeps a b (hac.tail hcb') hcycles)
    rcases (depends_updateControlEdgesInDepsInfo ..).mp hst with hold | hkept | ⟨x, homitted, hx⟩
    · exact Or.inl hold
    · exact Or.inr (.kept hkept)
    · cases (edge_iff cycleBegin cycleEnd controlEdges x t).mp hx with
      | inl hkept => exact Or.inr (.snocKept (.omitted homitted) hkept)
      | inr homitted' => exact Or.inr (.snocOmitted (.omitted homitted) homitted')
  · intro havoid a b hab hcycles
    obtain ⟨even, hchain⟩ := ControlChain.of_transGen cycleBegin cycleEnd hab
    cases even with
    | true => exact hchain.covered depsInfo
    | false =>
      obtain ⟨c, hac, hcb, hoverlap⟩ := hchain.last_omitted
      have hne : a ≠ c := by
        rintro rfl
        simp only [cyclesOverlap, decide_eq_true_eq] at hoverlap
        omega
      have hac' : TransGen (Edge controlEdges) a c :=
        (reflTransGen_iff_eq_or_transGen.mp hac).resolve_left hne.symm
      refine TransGen.closed (fun s t hst => ?_) a b (havoid a c b hac' hcb.2 hoverlap hcycles)
      cases hst with
      | inl hold => exact .single ((depends_updateControlEdgesInDepsInfo ..).mpr (Or.inl hold))
      | inr hchain => exact hchain.covered depsInfo

/-- Three producers of one range. The last two run together on it, after the first. -/
def sharedRange : List ScheduledOpOneResource :=
  [⟨0, 0, 63, .PRODUCER, by decide, by decide⟩, ⟨1, 0, 63, .PRODUCER, by decide, by decide⟩,
    ⟨2, 0, 63, .PRODUCER, by decide, by decide⟩]

def sharedRangeBegin : ℕ → ℕ
  | 0 => 0
  | 1 => 6
  | 2 => 6
  | _ => 12

def sharedRangeEnd : ℕ → ℕ
  | 0 => 5
  | 1 => 10
  | 2 => 12
  | _ => 15

def noDeps : AsyncDepsInfo := ⟨fun _ => ∅, none⟩

/-- Operation 2 no longer waits for operation 0. -/
theorem updateControlEdgesInDepsInfo_drops_order :
    generateControlEdges sharedRange = some [⟨0, 1⟩, ⟨1, 2⟩] ∧
      TransGen (fun s t => ⟨s, t⟩ ∈ ([⟨0, 1⟩, ⟨1, 2⟩] : List ControlEdge)) 0 2 ∧
      sharedRangeEnd 0 ≤ sharedRangeBegin 2 ∧
      ¬ TransGen (updateControlEdgesInDepsInfo sharedRangeBegin sharedRangeEnd noDeps
        [⟨0, 1⟩, ⟨1, 2⟩]).Depends 0 2 := by
  refine ⟨by decide, TransGen.tail (TransGen.single (b := 1) (by decide)) (by decide), by
    decide, ?_⟩
  intro h
  obtain ⟨c, -, hlast⟩ := TransGen.tail'_iff.mp h
  have hnone : ∀ s, ¬ (updateControlEdgesInDepsInfo sharedRangeBegin sharedRangeEnd noDeps
      [⟨0, 1⟩, ⟨1, 2⟩]).Depends s 2 := by
    have hempty : (updateControlEdgesInDepsInfo sharedRangeBegin sharedRangeEnd noDeps
      [⟨0, 1⟩, ⟨1, 2⟩]).depsMap 2 = ∅ := by decide
    intro s hs
    unfold AsyncDepsInfo.Depends at hs
    rw [hempty] at hs
    exact Finset.notMem_empty s hs
  exact hnone c hlast

/-- An operation after the two is tied to the first of them, past the omitted edge. -/
theorem updateControlEdgesInDepsInfo_keeps_successor :
    TransGen (updateControlEdgesInDepsInfo sharedRangeBegin sharedRangeEnd noDeps
      [⟨1, 2⟩, ⟨2, 3⟩]).Depends 1 3 := by
  apply (updateControlEdgesInDepsInfo_keeps_iff sharedRangeBegin sharedRangeEnd noDeps
    [⟨1, 2⟩, ⟨2, 3⟩] id (by decide)).mpr
  · intro a c b hac hcb hoverlap
    have hc : c = 1 := by
      rcases List.mem_cons.mp hcb with h | h
      · exact congrArg ControlEdge.source h
      · obtain ⟨rfl, rfl⟩ := ControlEdge.mk.inj (List.mem_singleton.mp h)
        exact absurd hoverlap (by decide)
    obtain ⟨x, -, hlast⟩ := TransGen.tail'_iff.mp hac
    rw [hc] at hlast
    simp at hlast
  · exact TransGen.tail (TransGen.single (b := 2) (by decide)) (by decide)
  · decide

end Vpux.Memory
