/- GID: Sqe/Quack/TypeRoundTrip
   generality: G
   digest: A logical type that is not nested too deep is read back as it was written. -/

import Sqe.Quack.CodecRoundTrip
import Sqe.Quack.DataChunk

set_option autoImplicit false

namespace Sqe.Quack

open Sqe.Library.Reading List ExtraTypeInfo

def NextNot (fieldId : Nat) (tail : Bytes) : Prop :=
  ∃ other rest, other < 2 ^ 16 ∧ other ≠ fieldId ∧ tail = beginProperty other ++ rest

theorem NextNot.property {fieldId other : Nat} (small : other < 2 ^ 16) (differs : other ≠ fieldId)
    (rest : Bytes) : NextNot fieldId (beginProperty other ++ rest) :=
  ⟨other, rest, small, differs, rfl⟩

theorem NextNot.elided {fieldId other : Nat} {present : Bool} {value rest : Bytes}
    (small : other < 2 ^ 16) (differs : other ≠ fieldId) (absent : NextNot fieldId rest) :
    NextNot fieldId (elided present (beginProperty other ++ value) ++ rest) := by
  cases present with
  | true =>
    rw [Quack.elided, if_pos rfl, append_assoc]
    exact .property small differs _
  | false => exact absent

theorem NextNot.objectEnd {fieldId : Nat} (differs : messageTerminatorFieldId ≠ fieldId)
    (rest : Bytes) : NextNot fieldId (endObject ++ rest) :=
  .property (by decide) differs rest

section

variable {α : Type} {value default : α} {part tail : Bytes}

theorem takes_ofResult {result : Except WireError α} (ok : result = .ok value) :
    Takes (ofResult result) [] value tail := by
  subst ok
  exact fun _ => rfl

theorem takes_refuse {bad : Prop} [Decidable bad] {error : WireError} (fine : ¬ bad) :
    Takes (refuseWhen bad error) [] () tail := by
  rw [refuseWhen, if_neg fine]
  exact .pure () tail

theorem takes_default {fieldId : Nat} {reader : Decoder α} (next : NextNot fieldId tail) :
    Takes (readDefault fieldId reader default) [] default tail := by
  obtain ⟨other, rest, small, differs, rfl⟩ := next
  exact (takes_absent small differs rest).bind_pure (.pure default _)

theorem takes_elided {fieldId : Nat} {reader : Decoder α} {present : Bool}
    (small : fieldId < 2 ^ 16) (there : present = true → Takes reader part value tail)
    (absent : present = false → value = default) (next : NextNot fieldId tail) :
    Takes (readDefault fieldId reader default) (elided present (beginProperty fieldId ++ part))
      value tail := by
  cases present with
  | true => exact (takes_present small _).bind (there rfl)
  | false =>
    rw [absent rfl]
    exact takes_default next

theorem takes_closed {object : Decoder α} (inside : Takes object part value (endObject ++ tail)) :
    Takes (closed object) (part ++ endObject) value tail :=
  inside.bind ((takes_objectEnd tail).bind_pure (.pure value tail))

end

theorem takes_length {count : Nat} (fits : count < 2 ^ 64) (tail : Bytes) :
    Takes readU64 (beginList count) count tail := by
  rw [beginList, Nat.mod_eq_of_lt fits]
  exact takes_u64 fits tail

theorem takes_list {α : Type} {write : α → Bytes} {item : Decoder α} {xs : List α} (tail : Bytes)
    (fits : (xs.flatMap write).length < 2 ^ 64) (costs : ∀ x ∈ xs, 0 < (write x).length)
    (each : ∀ x ∈ xs, (write x).length < 2 ^ 64 → ∀ tail, Takes item (write x) x tail) :
    Takes (do let count ← readBoundedCount; times count item)
      (beginList xs.length ++ xs.flatMap write) xs tail := by
  have cost := length_le_flatMap costs
  refine (takes_count (by omega) ?_).bind (.times (fun x listed => each x listed ?_) tail)
  · rw [length_append]
    omega
  · exact Nat.lt_of_le_of_lt (length_le_flatMap_of_mem listed) fits

theorem LogicalTypeId.fromU8_toU8 (id : LogicalTypeId) : LogicalTypeId.fromU8 id.toU8 = .ok id := by
  cases id <;> rfl

theorem ExtraTypeInfoType.fromU8_toU8 (kind : ExtraTypeInfoType) :
    ExtraTypeInfoType.fromU8 kind.toU8 = .ok kind := by
  cases kind <;> rfl

mutual

/-- How many types a type is nested in, at most, below this one. -/
def LogicalType.depth : LogicalType → Nat
  | .mk _ none => 0
  | .mk _ (some extra) => extra.depth

def ExtraTypeInfo.depth : ExtraTypeInfo → Nat
  | .decimal _ _ => 0
  | .list child => child.depth + 1
  | .struct fields => fieldsDepth fields
  | .array child _ => child.depth + 1
  | .enum _ => 0

def fieldsDepth : List (String × LogicalType) → Nat
  | [] => 0
  | (_, type) :: fields => max (type.depth + 1) (fieldsDepth fields)

end

theorem takes_base (kind : ExtraTypeInfoType) {tail : Bytes} (alias_ : NextNot 101 tail)
    (modifiers : NextNot 102 tail) (extension : NextNot 103 tail) :
    Takes decodeBase (encodeBase kind) kind tail := by
  refine (takes_field (by decide) _).bind ((takes_u8 _ _).bind ?_)
  refine (takes_ofResult (ExtraTypeInfoType.fromU8_toU8 kind)).bind_pure ?_
  refine (takes_default alias_).bind_pure ?_
  refine (takes_default modifiers).bind_pure ?_
  exact (takes_default extension).bind_pure (.pure kind tail)

theorem writeString_pos (value : String) : 0 < (writeString value).length := by
  have prefix_ := encodeUnsigned_pos ((utf8 value).length % 2 ^ 64)
  rw [writeString, writeDataPtr, length_append, beginList]
  omega

theorem utf8_le_writeString (value : String) :
    (utf8 value).length ≤ (writeString value).length := by
  rw [writeString, writeDataPtr, length_append]
  omega

theorem takes_writtenString {value : String} (fits : (writeString value).length < 2 ^ 64)
    (tail : Bytes) : Takes readString (writeString value) value tail :=
  takes_string (Nat.lt_of_le_of_lt (utf8_le_writeString value) fits) tail

section Kinds

variable {child : Decoder LogicalType} {extra : ExtraTypeInfo} {part tail : Bytes}

abbrev decodeInfo (child : Decoder LogicalType) : Decoder ExtraTypeInfo := do
  decodeKind child (← decodeBase)

theorem takes_kind {kind : ExtraTypeInfoType}
    (opens : ∀ fieldId, 101 ≤ fieldId → fieldId ≤ 103 → NextNot fieldId (part ++ tail))
    (takes : Takes (decodeKind child kind) part extra tail) :
    Takes (decodeInfo child) (encodeBase kind ++ part) extra tail :=
  (takes_base kind (opens 101 (by decide) (by decide)) (opens 102 (by decide) (by decide))
    (opens 103 (by decide) (by decide))).bind takes

theorem takes_decimal (precision scale : UInt8) : Takes (decodeInfo child)
      (decimal precision scale).encodeInner (.decimal precision scale)
      (endObject ++ tail) := by
  simp only [encodeInner, flatten_cons, flatten_nil, append_nil]
  refine takes_kind (fun fieldId low high => ?_) ?_
  · rw [append_assoc]
    exact .elided (by decide) (by omega) (.elided (by decide) (by omega)
      (.objectEnd (by rw [messageTerminatorFieldId]; omega) tail))
  · refine .bind (takes_elided (by decide) (fun _ => takes_u8 _ _) (fun zero => ?_)
      (.elided (by decide) (by omega) (.objectEnd (by decide) tail))) ?_
    · simpa using zero
    · refine .bind_pure (takes_elided (by decide) (fun _ => takes_u8 _ _) (fun zero => ?_)
        (.objectEnd (by decide) tail)) (.pure _ _)
      simpa using zero

theorem takes_nested {type : LogicalType}
    (nested : ∀ tail, Takes child type.encode type (endObject ++ tail)) :
    Takes (decodeInfo child)
      (list type).encodeInner (.list type) tail := by
  refine takes_kind (fun fieldId low high => .property (by decide) (by omega) _) ?_
  refine takes_property (by decide) (nested _) ?_
  exact .bind_pure (takes_objectEnd _) (.pure _ _)

theorem takes_array {type : LogicalType} (size : UInt32)
    (nested : ∀ tail, Takes child type.encode type (endObject ++ tail)) :
    Takes (decodeInfo child)
      (array type size).encodeInner (.array type size) (endObject ++ tail) := by
  simp only [encodeInner, flatten_cons, flatten_nil, append_nil]
  refine takes_kind (fun fieldId low high => .property (by decide) (by omega) _) ?_
  refine takes_property (by decide) (nested _) ?_
  refine .bind (takes_objectEnd _) ?_
  refine .bind_pure (takes_elided (by decide) (fun _ => takes_u32 _ _) (fun zero => ?_)
    (.objectEnd (by decide) tail)) (.pure _ _)
  simpa using zero

theorem takes_struct {fields : List (String × LogicalType)}
    (listed : fields ≠ [] → Takes (decodeFields child)
      (beginList fields.length ++ encodeFields fields) fields (endObject ++ tail)) :
    Takes (decodeInfo child)
      (struct fields).encodeInner (.struct fields) (endObject ++ tail) := by
  simp only [encodeInner, flatten_cons, flatten_nil, append_nil]
  refine takes_kind (fun fieldId low high => ?_) ?_
  · exact .elided (by decide) (by omega)
      (.objectEnd (by rw [messageTerminatorFieldId]; omega) tail)
  · refine .bind_pure (takes_elided (by decide) (fun some => listed ?_) (fun none => ?_)
      (.objectEnd (by decide) tail)) (.pure _ _)
    · rintro rfl
      cases some
    · cases fields with
      | nil => rfl
      | cons => cases none

theorem takes_enum {values : List String} (fits : (values.flatMap writeString).length < 2 ^ 64) :
    Takes (decodeInfo child)
      (enum values).encodeInner (.enum values) tail := by
  have cost : values.length ≤ (values.flatMap writeString).length :=
    length_le_flatMap fun value _ => writeString_pos value
  have count : values.length < 2 ^ 64 := Nat.lt_of_le_of_lt cost fits
  simp only [encodeInner, flatten_cons, flatten_nil, append_nil]
  refine takes_kind (fun fieldId low high => .property (by decide) (by omega) _) ?_
  refine takes_property (by decide) (takes_length count _) ?_
  refine takes_property (by decide) (takes_count count (by rw [length_append]; omega)) ?_
  refine .bind_nil (takes_refuse (not_not_intro rfl)) ?_
  refine .bind_pure (.times (fun value listed tail => ?_) _) (.pure _ _)
  exact takes_writtenString (Nat.lt_of_le_of_lt (length_le_flatMap_of_mem listed) fits) tail

end Kinds

theorem length_le_encodeFields (fields : List (String × LogicalType)) :
    fields.length ≤ (encodeFields fields).length := by
  induction fields with
  | nil => exact Nat.le_refl _
  | cons head rest ih =>
    obtain ⟨name, -⟩ := head
    have one := writeString_pos name
    rw [encodeFields]
    simp only [flatten_cons, flatten_nil, length_append, length_cons]
    omega

mutual

theorem LogicalType.takes : ∀ (type : LogicalType) {depth : Nat}, 2 * type.depth + 2 ≤ depth →
    type.encode.length < 2 ^ 64 → ∀ tail,
    Takes (LogicalType.decodeWithDepth depth) type.encode type (endObject ++ tail)
  | .mk id none, depth + 1, _, _, tail => by
    simp only [LogicalType.encode, flatten_cons, flatten_nil, append_nil]
    refine .bind (takes_field (by decide) _) ?_
    refine .bind_pure (takes_u8 _ _) ?_
    refine .bind_nil (takes_ofResult (LogicalTypeId.fromU8_toU8 id)) ?_
    exact .bind_nil (takes_default (.objectEnd (by decide) tail)) (.pure _ _)
  | .mk id (some extra), depth + 1, deep, fits, tail => by
    simp only [LogicalType.encode, flatten_cons, flatten_nil, append_nil, length_append] at fits ⊢
    rw [LogicalType.depth] at deep
    have inner : ∀ tail, Takes (decodeInnerWithDepth depth) extra.encodeInner
        extra (endObject ++ tail) := extra.takesInner (by omega) (by omega)
    refine takes_property (by decide) (takes_u8 _ _) ?_
    refine .bind_nil (takes_ofResult (LogicalTypeId.fromU8_toU8 id)) ?_
    refine .bind_pure (Takes.bind (takes_present (by decide) _) ?_) (.pure _ _)
    refine .bind (takes_bool true _) ?_
    refine .bind_nil (takes_refuse (by decide)) ?_
    refine .bind (inner _) ?_
    exact .bind_pure (takes_objectEnd _) (.pure _ _)

theorem ExtraTypeInfo.takesInner : ∀ (extra : ExtraTypeInfo) {depth : Nat},
    2 * extra.depth + 1 ≤ depth → extra.encodeInner.length < 2 ^ 64 → ∀ tail,
    Takes (decodeInnerWithDepth depth) extra.encodeInner extra (endObject ++ tail)
  | .decimal precision scale, depth + 1, _, _, tail => takes_decimal precision scale
  | .list child, depth + 1, deep, fits, tail => by
    simp only [encodeInner, flatten_cons, length_append] at fits
    rw [ExtraTypeInfo.depth] at deep
    exact takes_nested (child.takes (by omega) (by omega))
  | .struct fields, depth + 1, deep, fits, tail => by
    rw [ExtraTypeInfo.depth] at deep
    refine takes_struct fun some => ?_
    have bytes : (encodeFields fields).length < 2 ^ 64 := by
      have there : (!fields.isEmpty) = true := by
        cases fields with
        | nil => exact absurd rfl some
        | cons => rfl
      simp only [encodeInner, elided, there, if_pos, flatten_cons, length_append] at fits
      omega
    have count := length_le_encodeFields fields
    refine .bind (takes_count (by omega) ?_) (takesFields fields (by omega) bytes _)
    rw [length_append]
    omega
  | .array child size, depth + 1, deep, fits, tail => by
    simp only [encodeInner, flatten_cons, length_append] at fits
    rw [ExtraTypeInfo.depth] at deep
    exact takes_array size (child.takes (by omega) (by omega))
  | .enum values, depth + 1, _, fits, tail => by
    simp only [encodeInner, flatten_cons, length_append] at fits
    exact takes_enum (by omega)

theorem takesFields : ∀ (fields : List (String × LogicalType)) {depth : Nat},
    2 * fieldsDepth fields ≤ depth → (encodeFields fields).length < 2 ^ 64 → ∀ tail,
    Takes (times fields.length (decodeField (LogicalType.decodeWithDepth depth)))
      (encodeFields fields) fields tail
  | [], _, _, _, tail => .pure [] tail
  | (name, type) :: fields, depth, deep, fits, tail => by
    rw [encodeFields] at fits ⊢
    rw [fieldsDepth] at deep
    simp only [flatten_cons, flatten_nil, append_nil, length_append] at fits ⊢
    refine .bind ?_ (Takes.bind_pure (takesFields fields (by omega) (by omega) _) (.pure _ _))
    refine takes_property (by decide) (takes_writtenString (by omega) _) ?_
    refine takes_property (by decide) (type.takes (by omega) (by omega) _) ?_
    refine .bind (takes_objectEnd _) ?_
    exact .bind_pure (takes_objectEnd _) (.pure _ _)

end

end Sqe.Quack
