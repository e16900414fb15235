import Mathlib.Order.Interval.Finset.Nat
import Vpux.Data.Folds
import Vpux.Data.Grouping

/-! The sections of a profiling buffer, `getRawDataLayoutFB` of `plugin/profiling_parser.cpp`. What
throws is `none`. -/
namespace Vpux.Profiling
open Data

/-- A section of the blob, and an entry of the map from the types to offsets and sizes. -/
structure ProfilingSection where
  type : BitVec 32
  offset : BitVec 32
  size : BitVec 32
  deriving DecidableEq, Repr

structure RawDataLayout where
  offsets : List ProfilingSection
  totalPadsSize : ℕ
  deriving DecidableEq, Repr

structure LayoutState where
  usedSize : BitVec 32
  prevSectionEnd : BitVec 32
  offsets : List ProfilingSection

/-- The end of a section is a `uint32_t`. -/
def addSection (profSize : BitVec 32) (state : LayoutState) (section' : ProfilingSection) :
    Option LayoutState := do
  let sectionBegin := section'.offset
  let sectionSize := section'.size
  let sectionEnd := sectionBegin + sectionSize
  guard (sectionBegin < profSize ∧ sectionEnd ≤ profSize)
  guard (¬ sectionBegin < state.prevSectionEnd)
  return {
    offsets := assign ProfilingSection.type state.offsets section'
    usedSize := state.usedSize + sectionSize
    prevSectionEnd := sectionEnd }

def getRawDataLayoutFB (profSize : BitVec 32) (sections : List ProfilingSection)
    (actualBufferSize : ℕ) : Option RawDataLayout := do
  guard (¬ BitVec.ofNat 32 actualBufferSize < profSize)
  let state ← sections.foldlM (addSection profSize) ⟨0, 0, []⟩
  return ⟨state.offsets, (profSize - state.usedSize).toNat⟩

namespace ProfilingSection

def bytes (s : ProfilingSection) : Finset ℕ :=
  Finset.Ico s.offset.toNat (s.offset.toNat + s.size.toNat)

def Wraps (s : ProfilingSection) : Prop := 2 ^ 32 ≤ s.offset.toNat + s.size.toNat

instance (s : ProfilingSection) : Decidable s.Wraps := inferInstanceAs (Decidable (_ ≤ _))

end ProfilingSection

open ProfilingSection

/-- The sections lie in the buffer, do not overlap, and the rest is padding. -/
structure InBounds (profSize : BitVec 32) (layout : RawDataLayout) : Prop where
  inside : ∀ s ∈ layout.offsets, s.offset.toNat + s.size.toNat ≤ profSize.toNat
  disjoint : layout.offsets.Pairwise fun s t => Disjoint s.bytes t.bytes
  pads : (layout.totalPadsSize : ℤ) =
    profSize.toNat - (layout.offsets.map fun s => s.size.toNat).sum

open ProfilingSection

section Accepted

variable {profSize prevSectionEnd : BitVec 32} {sections : List ProfilingSection}

/-- The checks of the sections one after the other. -/
def Accepted (profSize : BitVec 32) : BitVec 32 → List ProfilingSection → Prop
  | _, [] => True
  | prevSectionEnd, s :: rest => s.offset < profSize ∧ s.offset + s.size ≤ profSize ∧
    prevSectionEnd ≤ s.offset ∧ Accepted profSize (s.offset + s.size) rest

theorem foldlM_addSection {state state' : LayoutState}
    (h : sections.foldlM (addSection profSize) state = some state') :
    Accepted profSize state.prevSectionEnd sections ∧
      state'.offsets = sections.foldl (assign type) state.offsets ∧
      state'.usedSize = state.usedSize + (sections.map size).sum := by
  induction sections generalizing state with
  | nil =>
    obtain rfl : state = state' := by simpa using h
    exact ⟨trivial, rfl, by simp⟩
  | cons s rest ih =>
    rw [List.foldlM_cons, Option.bind_eq_bind, Option.bind_eq_some_iff] at h
    obtain ⟨next, hnext, hrest⟩ := h
    simp only [addSection, Option.bind_eq_bind, Option.bind_eq_some_iff, Option.guard_eq_some',
      exists_const, Option.pure_def, Option.some.injEq] at hnext
    obtain ⟨⟨hbegin, hend⟩, hprev, rfl⟩ := hnext
    obtain ⟨haccepted, hoffsets, hused⟩ := ih hrest
    refine ⟨⟨hbegin, hend, BitVec.not_lt.mp hprev, haccepted⟩, hoffsets, ?_⟩
    rw [hused, List.map_cons, List.sum_cons]
    exact BitVec.add_assoc _ _ _

theorem Accepted.fits (h : Accepted profSize prevSectionEnd sections) {s : ProfilingSection}
    (hs : s ∈ sections) : s.offset + s.size ≤ profSize := by
  induction sections generalizing prevSectionEnd with
  | nil => simp at hs
  | cons t rest ih =>
    obtain ⟨-, hend, -, hrest⟩ := h
    rcases List.mem_cons.mp hs with rfl | hs
    · exact hend
    · exact ih hrest hs

theorem toNat_end {s : ProfilingSection} (h : ¬ s.Wraps) :
    (s.offset + s.size).toNat = s.offset.toNat + s.size.toNat := by
  rw [BitVec.toNat_add, Nat.mod_eq_of_lt (Nat.not_le.mp h)]

/-- Up to the first section that wraps, sections begin after the end of the previous ones. -/
theorem Accepted.le_offset (h : Accepted profSize prevSectionEnd sections) {t : ProfilingSection}
    (ht : t ∈ sections.takeWhile fun u => ¬ u.Wraps) :
    prevSectionEnd.toNat ≤ t.offset.toNat := by
  induction sections generalizing prevSectionEnd with
  | nil => simp at ht
  | cons u rest ih =>
    obtain ⟨-, -, hprev, hrest⟩ := h
    by_cases hwraps : u.Wraps
    · simp [hwraps] at ht
    · rw [List.takeWhile_cons_of_pos (by simpa using hwraps)] at ht
      rw [BitVec.le_def] at hprev
      rcases List.mem_cons.mp ht with rfl | ht
      · exact hprev
      · have hnext := ih hrest ht
        rw [toNat_end hwraps] at hnext
        omega

/-- Sections that stay share no byte when a section that wraps lies between them. -/
def WrapsSeparate : List ProfilingSection → Prop
  | [] => True
  | s :: rest => (s.type ∉ rest.map ProfilingSection.type →
      ∀ t ∈ lastAssigned ProfilingSection.type (rest.dropWhile fun u => ¬ u.Wraps),
        Disjoint s.bytes t.bytes) ∧
    WrapsSeparate rest

theorem takeWhile_append_dropWhile_wraps (sections : List ProfilingSection) :
    (sections.takeWhile fun u => ¬ u.Wraps) ++ (sections.dropWhile fun u => ¬ u.Wraps) =
      sections :=
  List.takeWhile_append_dropWhile

theorem Accepted.pairwise (h : Accepted profSize prevSectionEnd sections)
    (hfits : ∀ s ∈ lastAssigned type sections, ¬ s.Wraps)
    (hseparate : WrapsSeparate sections) :
    (lastAssigned type sections).Pairwise fun s t =>
      Disjoint s.bytes t.bytes := by
  induction sections generalizing prevSectionEnd with
  | nil => exact List.Pairwise.nil
  | cons s rest ih =>
    obtain ⟨-, -, -, hrest⟩ := h
    obtain ⟨hfirst, hseparate⟩ := hseparate
    unfold lastAssigned at hfits ⊢
    split_ifs at hfits ⊢ with hreplaced
    · exact ih hrest hfits hseparate
    · have hstay := List.forall_mem_cons.mp hfits
      rw [List.pairwise_cons]
      refine ⟨fun t ht => ?_, ih hrest hstay.2 hseparate⟩
      rw [← takeWhile_append_dropWhile_wraps rest] at ht
      rcases mem_lastAssigned_append ht with ht | ht
      · have hle := hrest.le_offset ht
        rw [toNat_end hstay.1] at hle
        rw [Finset.disjoint_left]
        intro byte hs ht
        have hbytes := (Finset.mem_Ico.mp hs).2
        have hbytes' := (Finset.mem_Ico.mp ht).1
        omega
      · exact hfirst hreplaced t ht

theorem wrapsSeparate_of_pairwise
    (h : (lastAssigned type sections).Pairwise fun s t =>
      Disjoint s.bytes t.bytes) : WrapsSeparate sections := by
  induction sections with
  | nil => trivial
  | cons s rest ih =>
    unfold lastAssigned at h
    split_ifs at h with hreplaced
    · exact ⟨fun hstays => absurd hreplaced hstays, ih h⟩
    · obtain ⟨hfirst, hrest⟩ := List.pairwise_cons.mp h
      refine ⟨fun _ t ht => hfirst t ?_, ih hrest⟩
      rw [← takeWhile_append_dropWhile_wraps rest]
      exact lastAssigned_append_subset _ ht

end Accepted

section Sizes

theorem card_bytes (s : ProfilingSection) : s.bytes.card = s.size.toNat := by
  rw [bytes, Nat.card_Ico, Nat.add_sub_cancel_left]

end Sizes

section Layout

variable {profSize : BitVec 32} {sections : List ProfilingSection} {actualBufferSize : ℕ}
  {layout : RawDataLayout}

structure SoundSections (sections : List ProfilingSection) : Prop where
  fits : ∀ s ∈ lastAssigned ProfilingSection.type sections, ¬ s.Wraps
  replaced : 2 ^ 32 ∣
    ((overwritten ProfilingSection.type sections).map fun s => s.size.toNat).sum
  separate : WrapsSeparate sections

theorem getRawDataLayoutFB_spec
    (h : getRawDataLayoutFB profSize sections actualBufferSize = some layout) :
    Accepted profSize 0 sections ∧
      layout.offsets = lastAssigned type sections ∧
      layout.totalPadsSize = (2 ^ 32 - (sections.map fun s => s.size.toNat).sum % 2 ^ 32 +
        profSize.toNat) % 2 ^ 32 := by
  simp only [getRawDataLayoutFB, Option.bind_eq_bind, Option.bind_eq_some_iff,
    Option.guard_eq_some', exists_const, Option.pure_def, Option.some.injEq] at h
  obtain ⟨-, state, hstate, rfl⟩ := h
  obtain ⟨haccepted, hoffsets, hused⟩ := foldlM_addSection hstate
  refine ⟨haccepted, ?_, ?_⟩
  · rw [hoffsets, foldl_assign]
    rfl
  · have htotal : state.usedSize = (sections.map size).sum :=
      hused.trans (BitVec.zero_add _)
    rw [htotal, BitVec.toNat_sub, toNat_sum, List.map_map]
    rfl

theorem inBounds_iff (h : getRawDataLayoutFB profSize sections actualBufferSize = some layout) :
    InBounds profSize layout ↔ SoundSections sections := by
  obtain ⟨haccepted, hoffsets, hpads⟩ := getRawDataLayoutFB_spec h
  have hsum := @sum_overwritten _ _ _ ProfilingSection.type _ _
    (fun s : ProfilingSection => s.size.toNat) sections
  have hprof := profSize.isLt
  constructor
  · rintro ⟨hinside, hdisjoint, hrest⟩
    rw [hoffsets] at hinside hdisjoint hrest
    constructor
    case fits =>
      intro s hs hwraps
      have := hinside s hs
      unfold Wraps at hwraps
      omega
    case replaced =>
      rw [hpads] at hrest
      omega
    case separate => exact wrapsSeparate_of_pairwise hdisjoint
  · rintro ⟨hfits, hreplaced, hseparate⟩
    have hinside : ∀ s ∈ lastAssigned ProfilingSection.type sections,
        s.offset.toNat + s.size.toNat ≤ profSize.toNat := by
      intro s hs
      have hend := haccepted.fits ((lastAssigned_sublist sections).subset hs)
      rwa [BitVec.le_def, toNat_end (hfits s hs)] at hend
    have hdisjoint := haccepted.pairwise hfits hseparate
    have hwhole : ∀ s ∈ lastAssigned ProfilingSection.type sections,
        s.bytes ⊆ Finset.range profSize.toNat := by
      intro s hs byte hbyte
      have hlt := (Finset.mem_Ico.mp hbyte).2
      have := hinside s hs
      exact Finset.mem_range.mpr (by omega)
    have hle := sum_card_le hdisjoint hwhole
    simp only [card_bytes, Finset.card_range] at hle
    constructor
    case inside => rwa [hoffsets]
    case disjoint => rwa [hoffsets]
    case pads =>
      rw [hoffsets, hpads]
      omega

/-- Two sections with a gap between them. -/
theorem inBounds_twoSections :
    ∃ layout, getRawDataLayoutFB 256 [⟨4, 0, 32⟩, ⟨1, 64, 128⟩] 256 = some layout ∧
      InBounds 256 layout :=
  ⟨_, rfl, (@inBounds_iff 256 [⟨4, 0, 32⟩, ⟨1, 64, 128⟩] 256 _ rfl).mpr
    { fits := by decide
      replaced := by decide
      separate := ⟨fun _ t ht => absurd ht (List.not_mem_nil),
        ⟨fun _ t ht => absurd ht (List.not_mem_nil), trivial⟩⟩ }⟩

/-- A section that wraps ends before it begins. -/
theorem not_inBounds_wrapped :
    ∃ layout, getRawDataLayoutFB 16 [⟨1, 8, 4294967292⟩] 16 = some layout ∧
      ¬ InBounds 16 layout := by
  refine ⟨_, rfl, fun hbounds => ?_⟩
  have hinside := hbounds.inside ⟨1, 8, 4294967292⟩ (by decide)
  revert hinside
  decide

end Layout

end Vpux.Profiling
