import Mathlib.Data.List.GetD
import Mathlib.Data.List.TakeWhile
import Mathlib.Tactic.Ring
import Vpux.Data.Folds

/-! The instruction list of the PPE (`NCESparsity::getInstructionListTable`). A word holds a value
and the five bits of its address. -/
namespace Vpux.VPU
open Data

def ALU_HALT_OPCODE : BitVec 32 := 6

def INSTRUCTION_END : BitVec 32 := 0

def resize (n : ℕ) (l : List ℤ) (v : ℤ) : List ℤ := l.take n ++ List.replicate (n - l.length) v

def generateTableElement (input : ℤ) (first2Bits first3Bits : ℕ) : BitVec 32 :=
  BitVec.ofInt 32 input <<< 19 ||| BitVec.ofNat 32 first3Bits <<< 16 ||| (8 : BitVec 32) <<< 11 |||
    BitVec.ofNat 32 first2Bits <<< 9 ||| (0 : BitVec 32) <<< 6 ||| 2

/-- The word at an address. -/
def tableElement (range shift bias : List ℤ) (j : ℕ) : BitVec 32 :=
  let first2Bits := j &&& 3
  let first3Bits := j >>> 2
  if j < range.length then generateTableElement (range.getD j 0) first2Bits first3Bits
  else if j < range.length + shift.length then
    generateTableElement (shift.getD (j - range.length) 0) first2Bits first3Bits
  else
    generateTableElement (bias.getD (j - range.length - shift.length) 0) first2Bits first3Bits

def instructionTable (range shift bias : List ℤ) : List (BitVec 32) :=
  let fullSize := range.length + shift.length + bias.length
  let noopCount := fullSize >>> 4
  let size := (fullSize + noopCount + 15) / 16 * 16
  let templateTable := List.replicate (size - noopCount - 1) ALU_HALT_OPCODE
  let templateTable := (List.range fullSize).foldl (fun table j =>
    table.set j (tableElement range shift bias j)) templateTable
  let templateTable := templateTable.insertIdx fullSize INSTRUCTION_END
  if 0 < noopCount then templateTable.insertIdx 15 ALU_HALT_OPCODE else templateTable

/-- A size that does not fit throws. The last shift fills up the biases as well. -/
def getInstructionListTable (range shift bias : List ℤ) : Option (List (BitVec 32)) := do
  guard (range.length = shift.length + 1 ∧ bias.length = shift.length)
  let rangeBack ← range.getLast?
  let shiftBack ← shift.getLast?
  return instructionTable (resize 9 range rangeBack) (resize 8 shift shiftBack)
    (resize 8 bias shiftBack)

section Word

def wordValue (word : BitVec 32) : ℤ := (word.sshiftRight 19).toInt

def wordAddress (word : BitVec 32) : ℕ :=
  word.toNat / 2 ^ 16 % 8 * 4 + word.toNat / 2 ^ 9 % 4

/-- The part of a word below its value. -/
def addressBits (first2Bits first3Bits : ℕ) : ℕ :=
    first3Bits * 2 ^ 16 + 2 ^ 14 + first2Bits * 2 ^ 9 + 2

theorem or_addressBits : ∀ first2Bits < 4, ∀ first3Bits < 8,
    BitVec.ofNat 32 first3Bits <<< 16 ||| (8 : BitVec 32) <<< 11 |||
      BitVec.ofNat 32 first2Bits <<< 9 ||| (0 : BitVec 32) <<< 6 ||| 2 =
      BitVec.ofNat 32 (addressBits first2Bits first3Bits) := by
  decide

variable {v : ℤ} {first2Bits first3Bits : ℕ}

theorem toNat_generateTableElement (h2 : first2Bits < 4) (h3 : first3Bits < 8) :
    (generateTableElement v first2Bits first3Bits).toNat =
      (BitVec.ofInt 32 v).toNat % 2 ^ 13 * 2 ^ 19 + addressBits first2Bits first3Bits := by
  have hlow : addressBits first2Bits first3Bits < 2 ^ 19 := by
    unfold addressBits
    omega
  have hbits := or_addressBits first2Bits h2 first3Bits h3
  unfold generateTableElement
  simp only [BitVec.or_assoc] at hbits ⊢
  rw [hbits, BitVec.toNat_or, BitVec.toNat_shiftLeft, BitVec.toNat_ofNat,
    Nat.mod_eq_of_lt (show addressBits first2Bits first3Bits < 2 ^ 32 by omega),
    Nat.shiftLeft_eq, show (2 : ℕ) ^ 32 = 2 ^ 13 * 2 ^ 19 by norm_num, Nat.mul_mod_mul_right,
    ← Nat.shiftLeft_eq, Nat.shiftLeft_add_eq_or_of_lt hlow]

theorem wordAddress_generateTableElement (h2 : first2Bits < 4) (h3 : first3Bits < 8) :
    wordAddress (generateTableElement v first2Bits first3Bits) = first3Bits * 4 + first2Bits := by
  unfold wordAddress
  rw [toNat_generateTableElement h2 h3, addressBits]
  omega

theorem wordValue_generateTableElement (hlow : -4096 ≤ v) (hhigh : v < 4096) (h2 : first2Bits < 4)
    (h3 : first3Bits < 8) : wordValue (generateTableElement v first2Bits first3Bits) = v := by
  have hnat := toNat_generateTableElement (v := v) h2 h3
  have hint : (generateTableElement v first2Bits first3Bits).toInt =
      v * 2 ^ 19 + addressBits first2Bits first3Bits := by
    rw [BitVec.toInt_eq_toNat_bmod, hnat, BitVec.toNat_ofInt]
    rw [Int.bmod_def]
    unfold addressBits
    split <;> omega
  rw [wordValue, BitVec.toInt_sshiftRight, hint, Int.shiftRight_eq_div_pow]
  unfold addressBits
  omega

end Word

open List

section Lists

theorem foldl_set_range {α : Type} (f : ℕ → α) (n : ℕ) (l : List α) (h : n ≤ l.length) :
    (List.range n).foldl (fun table j => table.set j (f j)) l =
      (List.range n).map f ++ l.drop n := by
  induction n with
  | zero => simp
  | succ n ih =>
    have hlt : n < l.length := by omega
    rw [range_succ, List.foldl_append, ih (by omega), map_append, foldl_cons,
      foldl_nil, set_append_right _ _ (by simp), length_map, length_range,
      Nat.sub_self, drop_eq_getElem_cons hlt, set_cons_zero]
    simp

variable {n : ℕ} {l : List ℤ}

theorem length_resize (h : l.length ≤ n) (v : ℤ) : (resize n l v).length = n := by
  simp [resize]
  omega

theorem resize_of_le (h : l.length ≤ n) (v : ℤ) :
    resize n l v = l ++ List.replicate (n - l.length) v := by
  rw [resize, take_of_length_le h]

theorem mem_resize {v x : ℤ} (h : x ∈ resize n l v) : x ∈ l ∨ x = v := by
  rcases mem_append.mp h with hx | hx
  · exact .inl (mem_of_mem_take hx)
  · exact .inr (eq_of_mem_replicate hx)

theorem resize_inj_iff (h : l.length ≤ n) {v w : ℤ} :
    resize n l v = resize n l w ↔ l.length = n ∨ v = w := by
  rw [resize_of_le h, resize_of_le h, append_cancel_left_eq, replicate_inj]
  constructor
  · rintro ⟨-, hzero | rfl⟩
    · exact .inl (by omega)
    · exact .inr rfl
  · rintro (hfull | rfl)
    · exact ⟨rfl, .inl (by omega)⟩
    · exact ⟨rfl, .inr rfl⟩

theorem insertIdx_append {α : Type} (l l' : List α) (x : α) :
    (l ++ l').insertIdx l.length x = l ++ x :: l' := by
  induction l with
  | nil => rfl
  | cons a l ih => rw [cons_append, length_cons, insertIdx_succ_cons, ih,
      cons_append]

end Lists

section Table

variable {range shift bias : List ℤ}

/-- The words in the order of their addresses. -/
def tableElements (range shift bias : List ℤ) : List (BitVec 32) :=
  (List.range 25).map (tableElement range shift bias)

theorem instructionTable_eq (hrange : range.length = 9) (hshift : shift.length = 8)
    (hbias : bias.length = 8) : instructionTable range shift bias =
      (tableElements range shift bias).take 15 ++ ALU_HALT_OPCODE ::
        ((tableElements range shift bias).drop 15 ++ INSTRUCTION_END ::
          List.replicate 5 ALU_HALT_OPCODE) := by
  have hloop := foldl_set_range (tableElement range shift bias) 25
    (List.replicate 30 ALU_HALT_OPCODE) (by simp)
  rw [drop_replicate, ← tableElements] at hloop
  have hlength : (tableElements range shift bias).length = 25 := by simp [tableElements]
  have htaken : ((tableElements range shift bias).take 15).length = 15 := by simp [hlength]
  have hend := insertIdx_append (tableElements range shift bias) (List.replicate 5 ALU_HALT_OPCODE)
  have hhalt := insertIdx_append ((tableElements range shift bias).take 15)
    ((tableElements range shift bias).drop 15 ++ INSTRUCTION_END ::
      List.replicate 5 ALU_HALT_OPCODE) ALU_HALT_OPCODE
  rw [hlength] at hend
  rw [htaken, ← append_assoc, take_append_drop] at hhalt
  rw [← hhalt, ← hend]
  simp only [instructionTable, hrange, hshift, hbias, Nat.reduceAdd, Nat.reduceShiftRight,
    Nat.reduceDiv, Nat.reduceMul, Nat.reduceSub, Nat.one_pos, if_true, hloop]

theorem tableElement_eq {j : ℕ} : tableElement range shift bias j =
    generateTableElement ((range ++ shift ++ bias).getD j 0) (j % 4) (j / 4) := by
  have hfirst2 : j &&& 3 = j % 4 := Nat.and_two_pow_sub_one_eq_mod j 2
  have hfirst3 : j >>> 2 = j / 4 := Nat.shiftRight_eq_div_pow j 2
  rw [tableElement, hfirst2, hfirst3]
  split_ifs with hrange hshift
  · rw [append_assoc, getD_append _ _ _ _ hrange]
  · rw [append_assoc, getD_append_right _ _ _ _ (by omega),
      getD_append _ _ _ _ (by omega)]
  · rw [append_assoc, getD_append_right _ _ _ _ (by omega),
      getD_append_right _ _ _ _ (by omega)]

theorem tableElement_ne {j : ℕ} (hj : j < 25) :
    tableElement range shift bias j ≠ ALU_HALT_OPCODE ∧
      tableElement range shift bias j ≠ INSTRUCTION_END := by
  rw [tableElement_eq]
  have hnat := toNat_generateTableElement (v := (range ++ shift ++ bias).getD j 0)
    (show j % 4 < 4 by omega) (show j / 4 < 8 by omega)
  unfold addressBits at hnat
  constructor
  · intro hhalt
    rw [hhalt] at hnat
    simp only [ALU_HALT_OPCODE, BitVec.reduceToNat] at hnat
    omega
  · intro hend
    rw [hend] at hnat
    simp only [INSTRUCTION_END, BitVec.reduceToNat] at hnat
    omega

/-- What the hardware reads: the words up to the end mark, without those that halt. -/
def decodeInstructionList (table : List (BitVec 32)) : List (ℕ × ℤ) :=
  ((table.filter (· ≠ ALU_HALT_OPCODE)).takeWhile (· ≠ INSTRUCTION_END)).map fun word =>
    (wordAddress word, wordValue word)

theorem decodeInstructionList_instructionTable (hrange : range.length = 9)
    (hshift : shift.length = 8) (hbias : bias.length = 8)
    (hsmall : ∀ v ∈ range ++ shift ++ bias, -4096 ≤ v ∧ v < 4096) :
    decodeInstructionList (instructionTable range shift bias) =
      (List.range 25).zip (range ++ shift ++ bias) := by
  have hwords : ∀ word ∈ tableElements range shift bias,
      word ≠ ALU_HALT_OPCODE ∧ word ≠ INSTRUCTION_END := by
    intro word hword
    obtain ⟨j, hj, rfl⟩ := mem_map.mp hword
    exact tableElement_ne (mem_range.mp hj)
  have hfilter : (instructionTable range shift bias).filter (· ≠ ALU_HALT_OPCODE) =
      tableElements range shift bias ++ [INSTRUCTION_END] := by
    have hkept : ∀ words : List (BitVec 32), (∀ word ∈ words,
        word ∈ tableElements range shift bias) →
        words.filter (fun word => decide (word ≠ ALU_HALT_OPCODE)) = words := by
      intro words hsub
      exact filter_eq_self.mpr fun word hword => by simpa using (hwords word (hsub word hword)).1
    have hend : INSTRUCTION_END ≠ ALU_HALT_OPCODE := by decide
    rw [instructionTable_eq hrange hshift hbias, filter_append,
      hkept _ fun word => mem_of_mem_take]
    simp only [filter_cons, filter_append, filter_replicate,
      hkept _ fun word => mem_of_mem_drop]
    simp [hend, ← append_assoc]
  have hread : (tableElements range shift bias ++ [INSTRUCTION_END]).takeWhile
      (· ≠ INSTRUCTION_END) = tableElements range shift bias := by
    rw [takeWhile_append_of_pos fun word hword => by simpa using (hwords word hword).2]
    simp
  have hlength : (range ++ shift ++ bias).length = 25 := by simp [hrange, hshift, hbias]
  rw [decodeInstructionList, hfilter, hread, tableElements, map_map]
  apply ext_getElem
  · rw [length_map, length_zip, hlength, length_range, Nat.min_self]
  · intro j hj hj'
    have hlt : j < 25 := by simpa using hj
    have hin : j < (range ++ shift ++ bias).length := hlength ▸ hlt
    obtain ⟨hlow, hhigh⟩ := hsmall _ (getElem_mem hin)
    rw [getElem_map, getElem_range, Function.comp_apply, tableElement_eq,
      getD_eq_getElem _ _ hin, wordAddress_generateTableElement (by omega) (by omega),
      wordValue_generateTableElement hlow hhigh (by omega) (by omega), getElem_zip,
      getElem_range, Nat.div_add_mod']

end Table

section Encodes

variable {range shift bias : List ℤ}

/-- The table has 32 words, and those are read as the three lists in order, each filled up with
its own last value. -/
def Encodes (range shift bias : List ℤ) : Prop :=
  ∃ table, getInstructionListTable range shift bias = some table ∧ table.length = 32 ∧
    decodeInstructionList table = (List.range 25).zip (resize 9 range (range.getLastD 0) ++
      resize 8 shift (shift.getLastD 0) ++ resize 8 bias (bias.getLastD 0))

/-- The table encodes its lists exactly when the last bias is not needed to fill up, or is the last
shift, which is taken instead. -/
theorem encodes_iff (hrange : range.length = shift.length + 1) (hbias : bias.length = shift.length)
    (hpos : 1 ≤ shift.length) (hle : range.length ≤ 9)
    (hsmall : ∀ v ∈ range ++ shift ++ bias, -4096 ≤ v ∧ v < 4096) :
    Encodes range shift bias ↔ bias.length = 8 ∨ bias.getLastD 0 = shift.getLastD 0 := by
  have hlast : ∀ l : List ℤ, 0 < l.length → l.getLast? = some (l.getLastD 0) ∧
      l.getLastD 0 ∈ l := by
    intro l hl
    have hne : l ≠ [] := List.ne_nil_of_length_pos hl
    rw [List.getLastD_eq_getLast?, List.getLast?_eq_some_getLast hne]
    exact ⟨rfl, List.getLast_mem hne⟩
  obtain ⟨hrangeLast, hrangeMem⟩ := hlast range (by omega)
  obtain ⟨hshiftLast, hshiftMem⟩ := hlast shift (by omega)
  unfold Encodes
  generalize range.getLastD 0 = rangeBack at *
  generalize shift.getLastD 0 = shiftBack at *
  have hlengthR := length_resize hle rangeBack
  have hlengthS := length_resize (show shift.length ≤ 8 by omega) shiftBack
  have hlengthB : ∀ v, (resize 8 bias v).length = 8 := length_resize (by omega)
  have hcode : getInstructionListTable range shift bias =
      some (instructionTable (resize 9 range rangeBack) (resize 8 shift shiftBack)
        (resize 8 bias shiftBack)) := by
    simp only [getInstructionListTable, hrange, hbias, hrangeLast, hshiftLast, and_self, guard_true,
      Option.bind_eq_bind, Option.bind_some, Option.pure_def]
  have htable : (instructionTable (resize 9 range rangeBack) (resize 8 shift shiftBack)
      (resize 8 bias shiftBack)).length = 32 := by
    rw [instructionTable_eq hlengthR hlengthS (hlengthB _)]
    simp [tableElements]
  have hvalues : ∀ v ∈ resize 9 range rangeBack ++ resize 8 shift shiftBack ++
      resize 8 bias shiftBack, -4096 ≤ v ∧ v < 4096 := by
    intro v hv
    apply hsmall
    simp only [List.mem_append] at hv ⊢
    rcases hv with (hv | hv) | hv
    · rcases mem_resize hv with hv | rfl
      · exact .inl (.inl hv)
      · exact .inl (.inl hrangeMem)
    · rcases mem_resize hv with hv | rfl
      · exact .inl (.inr hv)
      · exact .inl (.inr hshiftMem)
    · rcases mem_resize hv with hv | rfl
      · exact .inr hv
      · exact .inl (.inr hshiftMem)
  have hdecode := decodeInstructionList_instructionTable hlengthR hlengthS (hlengthB shiftBack)
    hvalues
  rw [hcode, eq_comm (a := bias.getLastD 0), ← resize_inj_iff (show bias.length ≤ 8 by omega)]
  constructor
  · intro hencodes
    obtain ⟨table, hsome, -, hread⟩ := hencodes
    obtain rfl := Option.some.inj hsome
    rw [hdecode] at hread
    have hlists := congrArg (List.map Prod.snd) hread
    rw [List.map_snd_zip (by simp [hlengthR, hlengthS, hlengthB]),
      List.map_snd_zip (by simp [hlengthR, hlengthS, hlengthB])] at hlists
    exact List.append_cancel_left hlists
  · intro hfill
    rw [← hfill]
    exact ⟨_, rfl, htable, hdecode⟩

/-- The lists of a function with two pieces. -/
theorem encodes_twoPieces : Encodes [-4, 0, 252] [2, 3] [-7, 3] :=
  (@encodes_iff [-4, 0, 252] [2, 3] [-7, 3] rfl rfl (by decide) (by decide) (by decide)).mpr
    (.inr rfl)

/-- The shift of one piece takes the place of its bias. -/
theorem not_encodes_onePiece : ¬ Encodes [1, 2] [3] [4] := by
  intro hencodes
  obtain ⟨table, hsome, -, hread⟩ := hencodes
  obtain rfl := Option.some.inj hsome
  revert hread
  decide +kernel

end Encodes

end Vpux.VPU
