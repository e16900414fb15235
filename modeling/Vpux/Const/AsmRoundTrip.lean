import Vpux.Const.AsmFormat

/-! What is printed of a constant is read back, but for a few attributes. -/
namespace Vpux.Const.Asm

/-- Whether the parser of a transformation reads what was printed. -/
def TransformAttr.Reads : TransformAttr → Prop
  | .Reverse _ => False
  | .ChangeShapeAndElemType _ _ => False
  | .RelocateWeightsTable _ _ _ weightsElemByteSize weightsCompression =>
    weightsCompression.isSome = true → weightsElemByteSize.isSome = true
  | _ => True

/-- What is known of the reader of dialect attributes: a parser may stop at the end of the body, and
in front of its closing bracket, where the parser of opaque elements stops. -/
structure AcceptsBodies (acceptsRest : List Token → Bool) : Prop where
  whole : acceptsRest [] = true
  closing : acceptsRest [.greater] = true

variable {attr : TransformAttr} {acceptsRest : List Token → Bool}

theorem getChecked_eq (h : attr.verify = true) (tokens : List Token) :
    getChecked attr tokens = some (attr, tokens) := by
  rw [getChecked, if_pos h]
  rfl

theorem TransformAttr.parse_print (hverify : attr.verify = true) (hreads : attr.Reads) :
    parse attr.mnemonic attr.print = some (attr, []) := by
  cases attr with
  | Broadcast axis value => rfl
  | ConvertElemType elemType => exact getChecked_eq hverify []
  | QuantCast elemType =>
    cases elemType with
    | none => exact getChecked_eq hverify []
    | some elemType =>
      have htype : parseOptionalQuantizedType [.type elemType.val, .greater] =
          some (some elemType, [.greater]) := by
        rw [parseOptionalQuantizedType, dif_pos elemType.property]
      change (parseOptionalQuantizedType [.type elemType.val, .greater]).bind (fun read =>
        (parseGreater read.2).bind fun read' => getChecked (.QuantCast read.1) read'.2) = _
      rw [htype]
      exact getChecked_eq hverify []
  | Dequantize => rfl
  | Rescale scale => rfl
  | Add bias => rfl
  | Reshape shape => exact getChecked_eq hverify []
  | Reverse axis => exact absurd hreads id
  | Reorder order => exact getChecked_eq hverify []
  | PadWithZero padBefore padAfter => exact getChecked_eq hverify []
  | SubView offset shape => exact getChecked_eq hverify []
  | BitPack width => rfl
  | Transpose order => exact getChecked_eq hverify []
  | ExpandDilated dilations => exact getChecked_eq hverify []
  | GetSparsityMap => rfl
  | Sparsify compressOutputType numActualElements =>
    cases compressOutputType <;> cases numActualElements <;> exact getChecked_eq hverify []
  | RelocateWeightsTable weightsPtr sparsityPtr offsets weightsElemByteSize weightsCompression =>
    cases weightsElemByteSize with
    | some weightsElemByteSize => cases weightsCompression <;> rfl
    | none =>
      cases weightsCompression with
      | none => rfl
      | some weightsCompression => exact absurd (hreads rfl) (by decide)
  | SwizzleConstant swizzleKey arch alignSize =>
    cases alignSize with
    | none => rfl
    | some alignSize => cases alignSize <;> rfl
  | ChangeShapeAndElemType shape elemType => exact absurd hreads id

theorem TransformAttr.parse_print_none (hreads : ¬attr.Reads) :
    parse attr.mnemonic attr.print = none := by
  cases attr with
  | Reverse axis => rfl
  | ChangeShapeAndElemType shape elemType => rfl
  | RelocateWeightsTable weightsPtr sparsityPtr offsets weightsElemByteSize weightsCompression =>
    cases weightsElemByteSize with
    | some weightsElemByteSize => exact absurd (fun _ => rfl) hreads
    | none =>
      cases weightsCompression with
      | none => exact absurd (fun h => absurd h (by decide)) hreads
      | some weightsCompression => rfl
  | _ => exact absurd trivial hreads

theorem TransformAttr.parseBody_print (attr : TransformAttr) (rest : List Token)
    (h : ∀ tokens, rest ≠ .less :: tokens) :
    parseBody (attr.print ++ rest) = some (attr.print, rest) := by
  have hnone : parseBody rest = some ([], rest) := by
    cases rest with
    | nil => rfl
    | cons token rest =>
      cases token with
      | less => exact absurd rfl (h rest)
      | _ => rfl
  cases attr with
  | Dequantize => exact hnone
  | GetSparsityMap => exact hnone
  | QuantCast elemType => cases elemType <;> rfl
  | Sparsify compressOutputType numActualElements => cases numActualElements <;> rfl
  | RelocateWeightsTable weightsPtr sparsityPtr offsets weightsElemByteSize weightsCompression =>
    cases weightsElemByteSize <;> cases weightsCompression <;> rfl
  | SwizzleConstant swizzleKey arch alignSize => cases alignSize <;> rfl
  | _ => rfl

open scoped Classical in
theorem parseTransformAttr_print (haccepts : AcceptsBodies acceptsRest)
    (hverify : attr.verify = true) {rest : List Token} (h : ∀ tokens, rest ≠ .less :: tokens) :
    parseTransformAttr acceptsRest (attr.printAttribute ++ rest) =
      if attr.Reads then some (attr, rest) else none := by
  change (parseBody (attr.print ++ rest)).bind (fun read =>
    (parseWhole acceptsRest (TransformAttr.parse attr.mnemonic) read.1).bind fun value =>
      some (value, read.2)) = _
  rw [attr.parseBody_print rest h, Option.bind_some, parseWhole]
  split_ifs with hreads
  · rw [TransformAttr.parse_print hverify hreads]
    dsimp only
    rw [if_pos haccepts.whole]
    rfl
  · rw [TransformAttr.parse_print_none hreads]
    rfl

namespace ContentAttr

/-- What follows an attribute of an array. -/
def printTail (attrs : List TransformAttr) : List Token :=
  attrs.flatMap fun attr => .comma :: attr.printAttribute

theorem parseElements_succ (fuel : ℕ) (tokens : List Token) :
    parseElements acceptsRest (fuel + 1) tokens =
      (parseTransformAttr acceptsRest tokens).bind fun read =>
        (succeeded parseComma read.2).bind fun more =>
          if more.1 = true then (parseElements acceptsRest fuel more.2).bind fun rest =>
            some (read.1 :: rest.1, rest.2)
          else some ([read.1], more.2) := by
  change (parseTransformAttr acceptsRest tokens).bind _ = _
  congr 1
  funext read
  change (succeeded parseComma read.2).bind _ = _
  congr 1
  funext more
  obtain ⟨value, rest⟩ := more
  cases value <;> rfl

theorem length_le_printTail (attrs : List TransformAttr) :
    attrs.length ≤ (printTail attrs).length := by
  induction attrs with
  | nil => exact Nat.zero_le _
  | cons attr attrs ih =>
    have hcons : printTail (attr :: attrs) =
        .comma :: (attr.printAttribute ++ printTail attrs) := rfl
    rw [hcons, List.length_cons, List.length_cons, List.length_append]
    omega

theorem printTail_ne (attrs : List TransformAttr) (rest : List Token) :
    ∀ tokens, printTail attrs ++ .r_square :: rest ≠ .less :: tokens := by
  intro tokens
  cases attrs with
  | nil => exact fun h => Token.noConfusion (List.cons.inj h).1
  | cons attr attrs => exact fun h => Token.noConfusion (List.cons.inj h).1

open scoped Classical in
theorem parseElements_print (haccepts : AcceptsBodies acceptsRest) {attrs : List TransformAttr}
    (hverify : ∀ a ∈ attr :: attrs, a.verify = true) {fuel : ℕ} (hfuel : attrs.length < fuel)
    (rest : List Token) : parseElements acceptsRest fuel
        (attr.printAttribute ++ (printTail attrs ++ .r_square :: rest)) =
      if ∀ a ∈ attr :: attrs, a.Reads then some (attr :: attrs, .r_square :: rest) else none := by
  obtain ⟨fuel, rfl⟩ := Nat.exists_eq_succ_of_ne_zero (Nat.ne_zero_of_lt hfuel)
  induction attrs generalizing attr fuel with
  | nil =>
    rw [parseElements_succ, parseTransformAttr_print haccepts (hverify attr (by simp))
      (printTail_ne [] rest)]
    simp only [List.forall_mem_singleton]
    split_ifs <;> rfl
  | cons next attrs ih =>
    obtain ⟨fuel, rfl⟩ := Nat.exists_eq_succ_of_ne_zero
      (Nat.ne_zero_of_lt (Nat.lt_of_succ_lt_succ hfuel))
    have hnext := ih (fun a ha => hverify a (List.mem_cons_of_mem _ ha)) fuel
      (Nat.lt_of_succ_lt_succ hfuel)
    rw [parseElements_succ, parseTransformAttr_print haccepts (hverify attr (by simp))
      (printTail_ne (next :: attrs) rest)]
    by_cases hattr : attr.Reads
    · have hall := (List.forall_mem_cons (p := TransformAttr.Reads) (l := next :: attrs)).trans
        (and_iff_right hattr)
      rw [if_pos hattr]
      change (parseElements acceptsRest (fuel + 1) (next.printAttribute ++ printTail attrs ++
        .r_square :: rest)).bind _ = _
      rw [List.append_assoc, hnext]
      simp only [hall]
      split_ifs <;> rfl
    · rw [if_neg hattr, if_neg fun h => hattr (h attr (by simp))]
      rfl

open scoped Classical in
theorem parseTransformations_print (haccepts : AcceptsBodies acceptsRest)
    {attrs : List TransformAttr} (hverify : ∀ a ∈ attrs, a.verify = true) :
    parseTransformations acceptsRest (.l_square :: (printTransformations attrs ++ [.r_square])) =
      if ∀ a ∈ attrs, a.Reads then some (attrs, []) else none := by
  cases attrs with
  | nil => exact (if_pos (by simp)).symm
  | cons attr attrs =>
    change (parseElements acceptsRest _ (attr.printAttribute ++ printTail attrs ++
      [.r_square])).bind _ = _
    have hfuel := length_le_printTail attrs
    rw [List.append_assoc, parseElements_print haccepts hverify]
    · split_ifs <;> rfl
    · change attrs.length < (attr.printAttribute ++ printTail attrs ++ [Token.r_square]).length
      rw [List.length_append, List.length_append, List.length_singleton]
      omega

end ContentAttr

namespace OpaqueElementsAttr

theorem hexDigitValue_hexdigit {digit : ℕ} (h : digit < 16) :
    hexDigitValue (toHex.hexdigit digit) = some digit := by
  revert digit
  decide

/-- A byte is put together from its two digits. -/
theorem byte_halves (byte : BitVec 8) :
    BitVec.ofNat 8 (16 * (byte.toNat / 16) + byte.toNat % 16) = byte := by
  rw [Nat.div_add_mod, BitVec.ofNat_toNat, BitVec.setWidth_eq]

theorem toList_toHex_cons (byte : BitVec 8) (value : Buffer) : (toHex (byte :: value)).toList =
    toHex.hexdigit (byte.toNat / 16) :: toHex.hexdigit (byte.toNat % 16) ::
      (toHex value).toList := by
  simp [toHex]

theorem length_toHex (value : Buffer) : (toHex value).toList.length = 2 * value.length := by
  induction value with
  | nil => rfl
  | cons byte value ih =>
    rw [toList_toHex_cons, List.length_cons, List.length_cons, ih, List.length_cons]
    omega

theorem pairs_toHex (value : Buffer) : tryGetFromHex.pairs (toHex value).toList = some value := by
  induction value with
  | nil => rfl
  | cons byte value ih =>
    have hhigh : byte.toNat / 16 < 16 := by omega
    have hlow : byte.toNat % 16 < 16 := Nat.mod_lt _ (by decide)
    rw [toList_toHex_cons, tryGetFromHex.pairs, hexDigitValue_hexdigit hhigh,
      hexDigitValue_hexdigit hlow, ih]
    exact congrArg (fun first => some (first :: value)) (byte_halves byte)

theorem getFromHex_toHex (value : Buffer) : getFromHex ("0x" ++ toHex value) = some value := by
  have hdata : ("0x" ++ toHex value).toList = '0' :: 'x' :: (toHex value).toList :=
    String.toList_append
  have heven : (toHex value).toList.length % 2 = 0 := by
    rw [length_toHex]
    omega
  rw [getFromHex, hdata, if_pos (by rfl)]
  exact (if_pos heven).trans (pairs_toHex value)

/-- The four bytes that are printed in place of elements that are left out. -/
def elidedValue : Buffer := [0xDE, 0xAD, 0xBE, 0xEF]

/-- The value that the parser reads from what was printed. -/
def printedValue (shouldElide : Bool) (attr : OpaqueElementsAttr) : Buffer :=
  if shouldElide then elidedValue else attr.value

/-- The parser stops in front of the bracket that the printer ends with. -/
theorem parse_print (shouldElide : Bool) (attr : OpaqueElementsAttr) :
    parse (attr.print shouldElide) = some (attr.printedValue shouldElide, [.greater]) := by
  cases shouldElide with
  | true => rfl
  | false =>
    have hdata : "0x" ++ toHex attr.value ≠ elidedLargeConstStr := by
      intro h
      have hfirst := congrArg (fun data : String => data.toList.head?) h
      simp [elidedLargeConstStr] at hfirst
    change (parseElided ("0x" ++ toHex attr.value) [.greater]).bind (fun read =>
      (getFromHex read.1).bind fun hex => some (hex, read.2)) = _
    rw [parseElided, if_neg hdata]
    change (getFromHex ("0x" ++ toHex attr.value)).bind _ = _
    rw [getFromHex_toHex]
    rfl

end OpaqueElementsAttr

/-- The base content that is read from what was printed. -/
def ElementsAttr.printed (shouldElide : OpaqueElementsAttr → Bool) : ElementsAttr → ElementsAttr
  | denseElements attr => .denseElements attr
  | opaqueElements attr => .opaqueElements ⟨attr.type, attr.printedValue (shouldElide attr)⟩

theorem parseElementsAttr_print (haccepts : AcceptsBodies acceptsRest)
    (shouldElide : OpaqueElementsAttr → Bool) (base : ElementsAttr) (rest : List Token) :
    parseElementsAttr acceptsRest (base.printAttribute shouldElide ++ rest) =
      some (base.printed shouldElide, rest) := by
  cases base with
  | denseElements attr => rfl
  | opaqueElements attr =>
    have hbody : parseBody (attr.print (shouldElide attr) ++
        [.colon, .shapedType attr.type] ++ rest) =
          some (attr.print (shouldElide attr), [.colon, .shapedType attr.type] ++ rest) := by
      cases h : shouldElide attr <;> rfl
    change (parseBody (attr.print (shouldElide attr) ++
        [.colon, .shapedType attr.type] ++ rest)).bind (fun read => (parseColon read.2).bind
          fun read' => (parseShapedType read'.2).bind fun type =>
            (parseWhole acceptsRest OpaqueElementsAttr.parse read.1).bind fun value =>
              some (ElementsAttr.opaqueElements ⟨type.1, value⟩, type.2)) = _
    rw [hbody]
    change (parseWhole acceptsRest OpaqueElementsAttr.parse
      (attr.print (shouldElide attr))).bind _ = _
    rw [parseWhole, OpaqueElementsAttr.parse_print]
    dsimp only
    rw [if_pos haccepts.closing]
    rfl

namespace ContentAttr

/-- What the builders of constants see to. -/
structure Built (inferOutputType : TransformAttr → NDType → Except Fault NDType)
    (content : ContentAttr) : Prop where
  verified : content.verify inferOutputType = true
  transformations : ∀ attrs ∈ content.transformations, ∀ attr ∈ attrs, attr.verify = true
  finalType : content.transformations = none → content.finalType = content.baseContent.getType

/-- Whether the parser reads what was printed: the elements are all there, or the four bytes that
stand for them are the elements, and each transformation is read. -/
def Reads (shouldElide : OpaqueElementsAttr → Bool) (content : ContentAttr) : Prop :=
  (∀ attr, content.baseContent = .opaqueElements attr → shouldElide attr = true →
      attr.value = OpaqueElementsAttr.elidedValue) ∧
    ∀ attrs ∈ content.transformations, ∀ attr ∈ attrs, attr.Reads

variable {inferOutputType : TransformAttr → NDType → Except Fault NDType} {content : ContentAttr}

theorem Built.infer_eq (h : content.Built inferOutputType) :
    infer inferOutputType content.baseContent content.transformations = some content := by
  have htype : inferFinalType inferOutputType content.baseContent.getType
      (content.transformations.getD []) = .ok content.finalType := by
    cases htransformations : content.transformations with
    | none =>
      rw [h.finalType htransformations]
      rfl
    | some attrs =>
      have hverified := h.verified
      rw [verify, htransformations, Bool.and_eq_true] at hverified
      exact of_decide_eq_true hverified.2
  rw [infer, htype]
  exact if_pos h.verified

theorem printed_eq_iff (shouldElide : OpaqueElementsAttr → Bool) (base : ElementsAttr) :
    base.printed shouldElide = base ↔ ∀ attr, base = .opaqueElements attr →
      shouldElide attr = true → attr.value = OpaqueElementsAttr.elidedValue := by
  cases base with
  | denseElements attr => exact iff_of_true rfl fun attr' h => by cases h
  | opaqueElements attr =>
    obtain ⟨type, value⟩ := attr
    simp only [ElementsAttr.printed, ElementsAttr.opaqueElements.injEq,
      OpaqueElementsAttr.mk.injEq, true_and, forall_eq', OpaqueElementsAttr.printedValue]
    split_ifs with helide
    · exact ⟨fun h _ => h.symm, fun h => (h helide).symm⟩
    · exact iff_of_true rfl fun h => absurd h helide

theorem parse_eq (tokens : List Token) : parse acceptsRest inferOutputType tokens =
    (parseElementsAttr acceptsRest tokens).bind fun base =>
      (parseOptional (parseTransformations acceptsRest) base.2).bind fun read =>
        (infer inferOutputType base.1 read.1).bind fun content => some (content, read.2) := rfl

/-- What is inferred has the base content that it was inferred from. -/
theorem baseContent_of_infer {base : ElementsAttr} {transformations : Option (List TransformAttr)}
    (h : infer inferOutputType base transformations = some content) :
    content.baseContent = base := by
  rw [infer] at h
  split at h
  · dsimp only at h
    split_ifs at h
    cases h
    rfl
  · cases h

theorem Built.infer_printed_iff (h : content.Built inferOutputType)
    (shouldElide : OpaqueElementsAttr → Bool) :
    infer inferOutputType (content.baseContent.printed shouldElide) content.transformations =
        some content ↔
      content.baseContent.printed shouldElide = content.baseContent := by
  constructor
  · exact fun hinfer => (baseContent_of_infer hinfer).symm
  · intro hprinted
    rw [hprinted, h.infer_eq]

/-- What follows the base content. -/
def printArray : Option (List TransformAttr) → List Token
  | some attrs => [.comma, .l_square] ++ printTransformations attrs ++ [.r_square]
  | none => []

open scoped Classical in
theorem parseOptional_print (haccepts : AcceptsBodies acceptsRest)
    (h : content.Built inferOutputType) :
    parseOptional (parseTransformations acceptsRest) (printArray content.transformations) =
      if ∀ attrs ∈ content.transformations, ∀ attr ∈ attrs, attr.Reads then
        some (content.transformations, [])
      else none := by
  obtain ⟨baseContent, transformations, finalType⟩ := content
  cases transformations with
  | none => exact (if_pos fun attrs hattrs => by cases hattrs).symm
  | some attrs =>
    change (parseTransformations acceptsRest (.l_square :: (printTransformations attrs ++
      [.r_square]))).bind (fun read => some (some read.1, read.2)) = _
    rw [parseTransformations_print haccepts (h.transformations attrs rfl)]
    simp only [Option.mem_def, Option.some.injEq, forall_eq']
    split_ifs <;> rfl

/-- A constant is read back, as long as all of its attributes are. -/
theorem parse_print_iff (haccepts : AcceptsBodies acceptsRest)
    (shouldElide : OpaqueElementsAttr → Bool) (h : content.Built inferOutputType) :
    parse acceptsRest inferOutputType (content.print shouldElide) = some (content, []) ↔
      content.Reads shouldElide := by
  have hprint : content.print shouldElide =
      content.baseContent.printAttribute shouldElide ++ printArray content.transformations := rfl
  rw [hprint, parse_eq, parseElementsAttr_print haccepts, Option.bind_some, Reads,
    ← printed_eq_iff, parseOptional_print haccepts h]
  split_ifs with hreads
  · rw [Option.bind_some, and_iff_left hreads, ← h.infer_printed_iff]
    cases infer inferOutputType (content.baseContent.printed shouldElide)
      content.transformations <;> simp
  · exact iff_of_false (fun hnone => by cases hnone) fun hboth => hreads hboth.2

/-- The type of the examples: a vector of bytes. -/
def bytesType : NDType := ⟨[4], .integer 8 .Unsigned, DimsOrder.fromNumDims 1, rfl, trivial⟩

def bytesAttr : ElementsAttr := .denseElements ⟨bytesType, [1, 2, 3, 4]⟩

def opaqueBytesAttr : ElementsAttr := .opaqueElements ⟨bytesType, [1, 2, 3, 4]⟩

def int64Attr (value : ℤ) : IntegerAttr := ⟨value, .integer 64 .Signless⟩

/-- A constant with transformations that keep its type. -/
def keptContent (baseContent : ElementsAttr) (transformations : List TransformAttr) : ContentAttr :=
  ⟨baseContent, some transformations, baseContent.getType⟩

theorem keptContent_built {base : ElementsAttr} {transformations : List TransformAttr}
    (hbase : verify (fun _ type => .ok type) ⟨base, none, base.getType⟩ = true)
    (hverify : ∀ attr ∈ transformations, attr.verify = true) :
    (keptContent base transformations).Built fun _ type => .ok type := by
  have hinfer : inferFinalType (fun _ type => .ok type) base.getType transformations =
      .ok base.getType := by
    induction transformations with
    | nil => rfl
    | cons attr attrs ih => exact ih fun a ha => hverify a (List.mem_cons_of_mem _ ha)
  refine ⟨?_, fun attrs hattrs => ?_, fun hnone => by cases hnone⟩
  · rw [verify, Bool.and_true] at hbase
    rw [verify, Bool.and_eq_true]
    exact ⟨hbase, decide_eq_true hinfer⟩
  · cases hattrs
    exact hverify

/-- A reader that ignores what is left of a body. -/
def acceptsAll : List Token → Bool := fun _ => true

theorem acceptsBodies_acceptsAll : AcceptsBodies acceptsAll := ⟨rfl, rfl⟩

/-- The axis of a reversal is followed by a bracket, where its parser looks for a comma. -/
theorem parse_print_reverse :
    AcceptsBodies acceptsAll ∧
      (keptContent bytesAttr [.Reverse (int64Attr 0)]).Built (fun _ type => .ok type) ∧
      parse acceptsAll (fun _ type => .ok type)
          ((keptContent bytesAttr [.Reverse (int64Attr 0)]).print fun _ => false) ≠
        some (keptContent bytesAttr [.Reverse (int64Attr 0)], []) := by
  refine ⟨acceptsBodies_acceptsAll, keptContent_built rfl (by decide), fun h => ?_⟩
  cases h

theorem parse_print_optionals :
    parse acceptsAll (fun _ type => .ok type) ((keptContent bytesAttr [.QuantCast none,
      .GetSparsityMap, .SwizzleConstant (int64Attr 5) (int64Attr 3) (some true),
      .Sparsify true none, .RelocateWeightsTable [.integer (int64Attr 64)] (int64Attr 0)
        [.integer (int64Attr 0)] (some (int64Attr 1)) none]).print fun _ => false) =
      some (keptContent bytesAttr [.QuantCast none, .GetSparsityMap,
        .SwizzleConstant (int64Attr 5) (int64Attr 3) (some true), .Sparsify true none,
        .RelocateWeightsTable [.integer (int64Attr 64)] (int64Attr 0) [.integer (int64Attr 0)]
          (some (int64Attr 1)) none], []) ∧
      parse acceptsAll (fun _ type => .ok type)
          ((keptContent opaqueBytesAttr [.Dequantize]).print fun _ => false) =
        some (keptContent opaqueBytesAttr [.Dequantize], []) := by
  constructor
  · refine (parse_print_iff acceptsBodies_acceptsAll (fun _ => false)
      (keptContent_built rfl (by decide))).mpr ⟨fun attr h => (by cases h), fun attrs hattrs => ?_⟩
    cases hattrs
    simp [TransformAttr.Reads]
  · refine (parse_print_iff acceptsBodies_acceptsAll (fun _ => false)
      (keptContent_built rfl (by decide))).mpr
        ⟨fun attr _ h => (by cases h), fun attrs hattrs => ?_⟩
    cases hattrs
    simp [TransformAttr.Reads]

end ContentAttr

end Vpux.Const.Asm
