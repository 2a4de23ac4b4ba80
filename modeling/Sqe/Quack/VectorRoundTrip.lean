/- GID: Sqe/Quack/VectorRoundTrip
   generality: G
   digest: A well formed vector whose row counts fit is read back as it was written. -/

import Mathlib.Data.Nat.Bitwise
import Sqe.Quack.TypeRoundTrip

set_option autoImplicit false

namespace Sqe.Quack

open Sqe.Library.Reading List

/-- The validity marks exactly the rows that are there. -/
def Marks (there : List Bool) : Option (List Bool) → Prop
  | none => ∀ row ∈ there, row = true
  | some bits => bits = there

mutual

/-- The vector holds exactly this many rows of its type. -/
def Vector.WellFormed (count : Nat) : Vector → Prop
  | .mk type validity data =>
    (∀ bits ∈ validity, bits.length = count) ∧ data.WellFormed type validity count

def VectorData.WellFormed (type : LogicalType) (validity : Option (List Bool)) (count : Nat) :
    VectorData → Prop
  | .fixed bytes => ∃ width ∈ type.physicalWidth, bytes.length = count * width
  | .strings values =>
    type.id = .varchar ∧ values.length = count ∧ Marks (values.map Option.isSome) validity
  | .blobs values =>
    type.id = .blob ∧ values.length = count ∧ Marks (values.map Option.isSome) validity
  | .list entries childCount child =>
    (type.id = .list ∨ type.id = .map) ∧ type.extra = some (.list child.logicalType) ∧
      entries.length = count ∧
      (∀ entry ∈ entries, entry.1.toNat + entry.2.toNat ≤ childCount.toNat) ∧
      child.WellFormed childCount.toNat
  | .struct children =>
    (type.id = .struct ∨ type.id = .union) ∧
      (∃ fields, type.extra = some (.struct fields) ∧ fields ≠ [] ∧
        fields.map Prod.snd = children.map Vector.logicalType) ∧
      childrenWellFormed count children
  | .array arraySize child =>
    type.id = .array ∧ (∃ size, type.extra = some (.array child.logicalType size)) ∧
      arraySize.toNat ≤ i32Max ∧ child.WellFormed (arraySize.toNat * count)

def childrenWellFormed (count : Nat) : List Vector → Prop
  | [] => True
  | child :: children => child.WellFormed count ∧ childrenWellFormed count children

end

mutual

def Vector.Fits (count : Nat) : Vector → Prop
  | .mk _ _ data => data.Fits count

def VectorData.Fits (count : Nat) : VectorData → Prop
  | .fixed _ => True
  | .strings _ => True
  | .blobs _ => True
  | .list _ childCount child => child.Fits childCount.toNat
  | .struct children => childrenFit count children
  | .array arraySize child =>
    arraySize.toNat * count < 2 ^ 64 ∧ child.Fits (arraySize.toNat * count)

def childrenFit (count : Nat) : List Vector → Prop
  | [] => True
  | child :: children => child.Fits count ∧ childrenFit count children

end

def maskBit (mask : Bytes) (i : Nat) : Bool :=
  (mask.getD (i / 8) 0).toNat.testBit (i % 8)

attribute [simp] VectorData.encode

theorem and_shift_ne_zero (b : UInt8) (k : Nat) :
    (b.toNat &&& (1 <<< k) != 0) = b.toNat.testBit k := by
  rw [Nat.one_shiftLeft, Nat.and_two_pow]
  cases b.toNat.testBit k with
  | true => simp [Nat.pow_eq_zero]
  | false => simp

theorem testBit_set (b : UInt8) {k : Nat} (small : k < 8) (m : Nat) :
    (b ||| UInt8.ofNat (1 <<< k)).toNat.testBit m = (b.toNat.testBit m || decide (k = m)) := by
  have bound : 2 ^ k < 256 := Nat.pow_lt_pow_right (by decide) small
  rw [UInt8.toNat_or, Nat.testBit_or, UInt8.toNat_ofNat', Nat.one_shiftLeft,
    Nat.mod_eq_of_lt bound, Nat.testBit_two_pow]

theorem maskBit_set {mask : Bytes} {j : Nat} (within : j / 8 < mask.length) (i : Nat) :
    maskBit (mask.modify (j / 8) fun byte => byte ||| UInt8.ofNat (1 <<< (j % 8))) i =
      (maskBit mask i || decide (i = j)) := by
  simp only [maskBit, getD_eq_getElem?_getD, getElem?_modify]
  by_cases same : j / 8 = i / 8
  · rw [← same, getElem?_eq_getElem within]
    simp only [if_pos, Option.map_eq_map, Option.map_some, Option.getD_some]
    rw [testBit_set _ (Nat.mod_lt _ (by decide))]
    congr 1
    rw [decide_eq_decide]
    omega
  · have other : ¬ i = j := by
      rintro rfl
      exact same rfl
    simp [same, other]

theorem getD_row (row : Bool) (rows : List Bool) (k i : Nat) :
    (decide (k ≤ i) && (row :: rows).getD (i - k) false) =
      ((row && decide (i = k)) || (decide (k + 1 ≤ i) && rows.getD (i - (k + 1)) false)) := by
  rcases Nat.lt_trichotomy i k with before | rfl | after
  · simp [show ¬ k ≤ i by omega, show ¬ k + 1 ≤ i by omega, show ¬ i = k by omega]
  · simp
  · obtain ⟨n, rfl⟩ : ∃ n, i = k + 1 + n := ⟨i - (k + 1), by omega⟩
    simp [show k + 1 + n - k = n + 1 by omega, show k + 1 + n ≠ k by omega,
      show k ≤ k + 1 + n by omega]

/-- The loop over the rows sets the bits of the rows that are valid. -/
theorem maskBit_foldl {rows : List Bool} {mask : Bytes} {k : Nat}
    (room : k + rows.length ≤ 8 * mask.length) (i : Nat) :
    maskBit ((rows.zipIdx k).foldl (fun mask row =>
      if row.1 then mask.modify (row.2 / 8) fun byte => byte ||| UInt8.ofNat (1 <<< (row.2 % 8))
      else mask) mask) i = (maskBit mask i || (decide (k ≤ i) && rows.getD (i - k) false)) := by
  induction rows generalizing mask k with
  | nil => simp
  | cons row rows ih =>
    rw [zipIdx_cons, foldl_cons]
    rw [length_cons] at room
    cases row with
    | false =>
      rw [if_neg (by simp), ih (by omega)]
      congr 1
      rw [getD_row, Bool.false_and, Bool.false_or]
    | true =>
      rw [if_pos rfl, ih (by rw [length_modify]; omega), maskBit_set (by omega), Bool.or_assoc]
      rw [getD_row, Bool.true_and]
theorem unpackMask_eq (raw : Bytes) (count : Nat) :
    unpackMask raw count = (List.range count).map (maskBit raw) := by
  simp only [unpackMask, and_shift_ne_zero]
  rfl

theorem packMask_length (validity : List Bool) (count : Nat) :
    (packMask validity count).length = (count + 63) / 64 * 8 := by
  rw [packMask]
  generalize (validity.take count).zipIdx = rows
  have start : (List.replicate ((count + 63) / 64 * 8) (0 : UInt8)).length =
      (count + 63) / 64 * 8 := length_replicate
  generalize List.replicate ((count + 63) / 64 * 8) (0 : UInt8) = mask at start
  induction rows generalizing mask with
  | nil => exact start
  | cons row rows ih =>
    rw [foldl_cons]
    split
    · exact ih _ (by rw [length_modify, start])
    · exact ih _ start

theorem unpackMask_packMask (bits : List Bool) :
    unpackMask (packMask bits bits.length) bits.length = bits := by
  rw [unpackMask_eq]
  refine ext_getElem (by simp) fun i inside within => ?_
  rw [getElem_map, getElem_range, packMask, take_length,
    maskBit_foldl (by rw [length_replicate]; omega)]
  have zero : maskBit (List.replicate ((bits.length + 63) / 64 * 8) 0) i = false := by
    rw [maskBit, getD_eq_getElem?_getD, getElem?_replicate]
    split <;> exact Nat.zero_testBit _
  rw [zero, Bool.false_or, Nat.sub_zero, decide_eq_true (Nat.zero_le i), Bool.true_and,
    getD_eq_getElem?_getD, getElem?_eq_getElem within]
  rfl

variable {validity : Option (List Bool)} {α : Type} {values : List (Option α)}

theorem takes_validity {count : Nat} (tail : Bytes)
    (rows : ∀ bits ∈ validity, bits.length = count) (small : count < 2 ^ 64)
    (fits : (encodeValidity count validity).length < 2 ^ 64) :
    Takes (decodeValidity count) (writeBool validity.isSome ++ encodeValidity count validity)
      validity tail := by
  cases validity with
  | none => exact .bind (takes_bool false _) (.pure none _)
  | some bits =>
    obtain rfl := rows bits rfl
    simp only [encodeValidity, flatten_cons, flatten_nil, append_nil,
      length_append, writeDataPtr] at fits
    refine .bind (takes_bool true _) ?_
    refine takes_property (by decide) (takes_dataPtr (by omega) _) ?_
    refine .bind_nil (takes_refuse ?_) ?_
    · rw [packMask_length]
      omega
    · rw [unpackMask_packMask]
      exact .pure _ _

theorem rowValid_of_marks
    (marks : Marks (values.map Option.isSome) validity) {i : Nat} (within : i < values.length) :
    rowValid validity i = values[i].isSome := by
  cases validity with
  | none => exact (marks _ (mem_map_of_mem (getElem_mem within))).symm
  | some bits =>
    cases marks
    simp [rowValid, within]

theorem takes_rows {write : Option α → Bytes} {reader : Bool → Decoder (Option α)}
    (marks : Marks (values.map Option.isSome) validity)
    (fits : (values.flatMap write).length < 2 ^ 64) (tail : Bytes)
    (each : ∀ value, (write value).length < 2 ^ 64 → ∀ tail,
      Takes (reader value.isSome) (write value) value tail) :
    Takes (all ((List.range values.length).map fun i => reader (rowValid validity i)))
      (values.flatMap write) values tail := by
  refine .all ?_ tail
  refine forall₂_iff_get.mpr ⟨by simp, fun i _ within => ?_⟩
  simp only [get_eq_getElem, getElem_map, getElem_range, rowValid_of_marks marks within]
  exact each _ (Nat.lt_of_le_of_lt (length_le_flatMap_of_mem (getElem_mem within)) fits)

theorem takes_rowString (value : Option String)
    (fits : (writeString (value.getD "")).length < 2 ^ 64) (tail : Bytes) :
    Takes (decodeString value.isSome) (writeString (value.getD "")) value tail := by
  cases value with
  | none =>
    exact .bind_pure (takes_skip (Nat.lt_of_le_of_lt (utf8_le_writeString _) fits) tail)
      (.pure none tail)
  | some text => exact .bind_pure (takes_writtenString fits tail) (.pure (some text) tail)

theorem writeDataPtr_pos (bytes : Bytes) : 0 < (writeDataPtr bytes).length := by
  have count := encodeUnsigned_pos (bytes.length % 2 ^ 64)
  rw [writeDataPtr, length_append, beginList]
  omega

theorem takes_rowBlob (value : Option Bytes)
    (fits : (writeDataPtr (value.getD [])).length < 2 ^ 64) (tail : Bytes) :
    Takes (decodeBlob value.isSome) (writeDataPtr (value.getD [])) value tail := by
  rw [writeDataPtr, length_append] at fits
  refine .bind_pure (takes_dataPtr (by omega) tail) ?_
  cases value with
  | none => exact .pure none tail
  | some bytes => exact .pure (some bytes) tail

theorem takes_writtenU64 (value : UInt64) (tail : Bytes) :
    Takes readU64 (writeU64 value) value.toNat tail :=
  takes_u64 value.toNat_lt tail

theorem takes_entry {childCount : UInt64} (entry : UInt64 × UInt64)
    (inside : entry.1.toNat + entry.2.toNat ≤ childCount.toNat) (tail : Bytes) :
    Takes (decodeEntry childCount.toNat) (encodeEntry entry) entry tail := by
  have bound := childCount.toNat_lt
  refine takes_property (by decide) (takes_writtenU64 _ _) ?_
  refine takes_property (by decide) (takes_writtenU64 _ _) ?_
  refine .bind_pure (takes_objectEnd _) ?_
  refine .bind_nil (takes_refuse (by omega)) ?_
  refine .bind_nil (takes_refuse (by omega)) ?_
  rw [UInt64.ofNat_toNat, UInt64.ofNat_toNat]
  exact .pure entry tail

theorem encodeChildren_eq (count : Nat) (children : List Vector) :
    encodeChildren count children =
      children.flatMap fun child => child.encode count ++ endObject := by
  induction children with
  | nil => rfl
  | cons child children ih => rw [encodeChildren, ih, flatMap_cons]

section Data

variable {child : LogicalType → Nat → Decoder Vector} {type : LogicalType} {count : Nat}
  {tail : Bytes}

theorem takes_fixed {bytes : Bytes} {width : Nat} (rows : bytes.length = count * width)
    (fits : ((VectorData.fixed bytes).encode count).length < 2 ^ 64) :
    Takes (decodeFixed width count) ((VectorData.fixed bytes).encode count) (.fixed bytes)
      tail := by
  simp only [VectorData.encode, flatten_cons, flatten_nil, append_nil, length_append] at fits ⊢
  have small : bytes.length < 2 ^ 64 := by
    rw [writeDataPtr, length_append] at fits
    omega
  refine .bind (takes_field (by decide) _) ?_
  refine .bind_pure (takes_dataPtr small _) ?_
  refine .bind_nil (takes_refuse (by omega)) ?_
  exact .bind_nil (takes_refuse (by omega)) (.pure _ _)

theorem takes_stringData {values : List (Option String)} (rows : values.length = count)
    (marks : Marks (values.map Option.isSome) validity)
    (fits : ((VectorData.strings values).encode count).length < 2 ^ 64) :
    Takes (decodeStrings count validity) ((VectorData.strings values).encode count)
      (.strings values) tail := by
  subst rows
  simp only [VectorData.encode, take_length, flatten_cons, flatten_nil,
    append_nil, length_append] at fits ⊢
  have cost : values.length ≤
      (values.flatMap fun value => writeString (value.getD "")).length :=
    length_le_flatMap fun value _ => writeString_pos _
  refine takes_counted (by decide) (by omega) (by omega) ?_
  refine .bind_pure (takes_rows marks (by omega) _ takes_rowString) ?_
  exact .bind_nil (takes_refuse (Nat.lt_irrefl _)) (.pure _ _)

theorem takes_blobData {values : List (Option Bytes)} (rows : values.length = count)
    (marks : Marks (values.map Option.isSome) validity)
    (fits : ((VectorData.blobs values).encode count).length < 2 ^ 64) :
    Takes (decodeBlobs count validity) ((VectorData.blobs values).encode count)
      (.blobs values) tail := by
  subst rows
  simp only [VectorData.encode, take_length, flatten_cons, flatten_nil,
    append_nil, length_append] at fits ⊢
  have cost : values.length ≤
      (values.flatMap fun value => writeDataPtr (value.getD [])).length :=
    length_le_flatMap fun value _ => writeDataPtr_pos _
  refine takes_counted (by decide) (by omega) (by omega) ?_
  refine .bind_pure (takes_rows marks (by omega) _ takes_rowBlob) ?_
  exact .bind_nil (takes_refuse (Nat.lt_irrefl _)) (.pure _ _)

theorem takes_listData {entries : List (UInt64 × UInt64)} {childCount : UInt64} {inner : Vector}
    (extra : type.extra = some (.list inner.logicalType)) (rows : entries.length = count)
    (inside : ∀ entry ∈ entries, entry.1.toNat + entry.2.toNat ≤ childCount.toNat)
    (fits : ((VectorData.list entries childCount inner).encode count).length < 2 ^ 64)
    (nested : ∀ tail, Takes (child inner.logicalType childCount.toNat)
      (inner.encode childCount.toNat) inner tail) :
    Takes (decodeList child type count) ((VectorData.list entries childCount inner).encode count)
      (.list entries childCount inner) tail := by
  subst rows
  simp only [VectorData.encode, take_length, flatten_cons, flatten_nil,
    append_nil, length_append] at fits ⊢
  have cost : entries.length ≤ (entries.flatMap encodeEntry).length :=
    length_le_flatMap fun entry _ => by simp [encodeEntry, beginProperty]
  refine takes_property (by decide) (takes_writtenU64 _ _) ?_
  refine takes_counted (by decide) (by omega) (by simp only [length_append]; omega) ?_
  refine .bind (.times (fun entry listed => takes_entry entry (inside entry listed)) _) ?_
  refine .bind_nil (takes_refuse (Nat.lt_irrefl _)) ?_
  refine .bind (takes_field (by decide) _) ?_
  rw [extra]
  refine .bind (nested _) ?_
  refine .bind_pure (takes_objectEnd _) ?_
  rw [UInt64.ofNat_toNat]
  exact .pure _ _

theorem takes_arrayData {arraySize : UInt64} {inner : Vector} {size : UInt32}
    (extra : type.extra = some (.array inner.logicalType size))
    (small : arraySize.toNat ≤ i32Max) (rows : arraySize.toNat * count < 2 ^ 64)
    (nested : ∀ tail, Takes (child inner.logicalType (arraySize.toNat * count))
      (inner.encode (arraySize.toNat * count)) inner tail) :
    Takes (decodeArray child type count) ((VectorData.array arraySize inner).encode count)
      (.array arraySize inner) tail := by
  simp only [VectorData.encode, Nat.mod_eq_of_lt rows, flatten_cons, flatten_nil, append_nil]
  refine takes_property (by decide) (takes_writtenU64 _ _) ?_
  refine .bind (takes_field (by decide) _) ?_
  rw [extra]
  refine .bind_nil (takes_refuse (not_not_intro ⟨small, rows⟩)) ?_
  refine .bind (nested _) ?_
  refine .bind_pure (takes_objectEnd _) ?_
  rw [UInt64.ofNat_toNat]
  exact .pure _ _

theorem takes_structData {children : List Vector} {fields : List (String × LogicalType)}
    (extra : type.extra = some (.struct fields)) (some_ : fields ≠ [])
    (types : fields.map Prod.snd = children.map Vector.logicalType)
    (fits : ((VectorData.struct children).encode count).length < 2 ^ 64)
    (nested : ∀ inner ∈ children, ∀ tail,
      Takes (child inner.logicalType count) (inner.encode count) inner (endObject ++ tail)) :
    Takes (decodeStruct child type count) ((VectorData.struct children).encode count)
      (.struct children) tail := by
  simp only [VectorData.encode, encodeChildren_eq, flatten_cons, flatten_nil,
    append_nil, length_append] at fits ⊢
  have cost : children.length ≤
      (children.flatMap fun inner => inner.encode count ++ endObject).length :=
    length_le_flatMap fun inner _ => by simp [endObject, beginProperty]
  have lengths : fields.length = children.length := by
    have same := congrArg List.length types
    simpa using same
  have readers : (fields.map fun field => closed (child field.2 count)) =
      children.map fun inner => closed (child inner.logicalType count) := by
    have mapped := congrArg (List.map fun type => closed (child type count)) types
    rw [map_map, map_map] at mapped
    exact mapped
  refine takes_counted (by decide) (by omega) (by omega) ?_
  rw [extra]
  refine .bind_nil (takes_refuse (by omega)) ?_
  refine .bind_nil (takes_refuse (by simpa using some_)) ?_
  rw [readers]
  refine .bind_pure (.all ?_ _) (.pure _ _)
  rw [forall₂_map_left_iff, forall₂_same]
  exact fun inner listed tail => takes_closed (nested inner listed tail)

theorem decodeData_width {width : Nat} (has : type.physicalWidth = some width) :
    decodeData child type count validity = decodeFixed width count := by
  obtain ⟨id, extra⟩ := type
  cases id
  case struct | list | map | union | array =>
    exact absurd has (by simp [LogicalType.physicalWidth, LogicalTypeId.fixedWidth])
  all_goals simp only [decodeData, LogicalType.id, has]

theorem decodeData_varchar (is : type.id = .varchar) :
    decodeData child type count validity = decodeStrings count validity := by
  obtain ⟨id, extra⟩ := type
  cases is
  simp only [decodeData, LogicalType.id, LogicalType.physicalWidth, LogicalTypeId.fixedWidth]

theorem decodeData_blob (is : type.id = .blob) :
    decodeData child type count validity = decodeBlobs count validity := by
  obtain ⟨id, extra⟩ := type
  cases is
  simp only [decodeData, LogicalType.id, LogicalType.physicalWidth, LogicalTypeId.fixedWidth]

theorem decodeData_list (is : type.id = .list ∨ type.id = .map) :
    decodeData child type count validity = decodeList child type count := by
  rcases is with is | is <;> rw [decodeData, is]

theorem decodeData_struct (is : type.id = .struct ∨ type.id = .union) :
    decodeData child type count validity = decodeStruct child type count := by
  rcases is with is | is <;> rw [decodeData, is]

theorem decodeData_array (is : type.id = .array) :
    decodeData child type count validity = decodeArray child type count := by
  rw [decodeData, is]

end Data

theorem depth_of_extra {type : LogicalType} {extra : ExtraTypeInfo}
    (has : type.extra = some extra) : type.depth = extra.depth := by
  obtain ⟨id, own⟩ := type
  cases has
  rw [LogicalType.depth]

theorem depth_le_fieldsDepth {fields : List (String × LogicalType)} {type : LogicalType}
    (listed : type ∈ fields.map Prod.snd) : type.depth + 1 ≤ fieldsDepth fields := by
  induction fields with
  | nil => cases listed
  | cons field fields ih =>
    rcases mem_cons.mp listed with rfl | later
    · exact Nat.le_max_left _ _
    · exact Nat.le_trans (ih later) (Nat.le_max_right _ _)

theorem takes_vector {child : LogicalType → Nat → Decoder Vector} {type : LogicalType}
    {validity : Option (List Bool)} {data : VectorData} {count : Nat}
    (rows : ∀ bits ∈ validity, bits.length = count) (small : count < 2 ^ 64)
    (fits : ((Vector.mk type validity data).encode count).length < 2 ^ 64)
    (inside : (data.encode count).length < 2 ^ 64 → ∀ tail,
      Takes (decodeData child type count validity) (data.encode count) data tail) (tail : Bytes) :
    Takes (decodeVector child type count) ((Vector.mk type validity data).encode count)
      (.mk type validity data) tail := by
  simp only [Vector.encode, flatten_cons, flatten_nil, append_nil, length_append] at fits ⊢
  refine .bind_nil (takes_default (.property (by decide) (by omega) _)) ?_
  refine .bind (takes_field (by decide) _) ?_
  rw [← append_assoc]
  refine .bind (takes_validity _ rows small (by omega)) ?_
  exact .bind_pure (inside (by omega) _) (.pure _ _)

mutual

theorem Vector.takes : ∀ (v : Vector) {depth count : Nat}, v.logicalType.depth + 1 ≤ depth →
    v.WellFormed count → v.Fits count → count < 2 ^ 64 → (v.encode count).length < 2 ^ 64 →
    ∀ tail, Takes (Vector.decodeWithDepth depth v.logicalType count) (v.encode count) v tail
  | .mk type validity data, depth + 1, count, deep, formed, fit, small, fits, tail => by
    rw [Vector.WellFormed] at formed
    rw [Vector.Fits] at fit
    exact takes_vector formed.1 small fits
      (data.takes (Nat.le_of_succ_le_succ deep) formed.2 fit small) tail

theorem VectorData.takes : ∀ (data : VectorData) {type : LogicalType} {depth count : Nat}
    {validity : Option (List Bool)}, type.depth ≤ depth → data.WellFormed type validity count →
    data.Fits count → count < 2 ^ 64 → (data.encode count).length < 2 ^ 64 → ∀ tail,
    Takes (decodeData (Vector.decodeWithDepth depth) type count validity) (data.encode count)
      data tail
  | .fixed bytes, type, depth, count, validity, _, formed, _, _, fits, tail => by
    rw [VectorData.WellFormed] at formed
    obtain ⟨width, has, rows⟩ := formed
    rw [decodeData_width has]
    exact takes_fixed rows fits
  | .strings values, type, depth, count, validity, _, formed, _, _, fits, tail => by
    rw [VectorData.WellFormed] at formed
    obtain ⟨id, rows, marks⟩ := formed
    rw [decodeData_varchar id]
    exact takes_stringData rows marks fits
  | .blobs values, type, depth, count, validity, _, formed, _, _, fits, tail => by
    rw [VectorData.WellFormed] at formed
    obtain ⟨id, rows, marks⟩ := formed
    rw [decodeData_blob id]
    exact takes_blobData rows marks fits
  | .list entries childCount child, type, depth, count, validity, deep, formed, fit, _, fits,
      tail => by
      rw [VectorData.WellFormed] at formed
      rw [VectorData.Fits] at fit
      obtain ⟨id, extra, rows, inside, nested⟩ := formed
      have bytes : (child.encode childCount.toNat).length < 2 ^ 64 := by
        simp only [VectorData.encode, flatten_cons, length_append] at fits
        omega
      rw [depth_of_extra extra, ExtraTypeInfo.depth] at deep
      rw [decodeData_list id]
      exact takes_listData extra rows inside fits
        (child.takes deep nested fit childCount.toNat_lt bytes)
  | .struct children, type, depth, count, validity, deep, formed, fit, small, fits, tail => by
    rw [VectorData.WellFormed] at formed
    rw [VectorData.Fits] at fit
    obtain ⟨id, ⟨fields, extra, some_, types⟩, nested⟩ := formed
    have bytes : (encodeChildren count children).length < 2 ^ 64 := by
      simp only [VectorData.encode, flatten_cons, length_append] at fits
      omega
    rw [depth_of_extra extra, ExtraTypeInfo.depth] at deep
    have shallow : ∀ child ∈ children, child.logicalType.depth + 1 ≤ depth := by
      intro child listed
      have field : child.logicalType ∈ fields.map Prod.snd :=
        types ▸ mem_map_of_mem listed
      exact Nat.le_trans (depth_le_fieldsDepth field) deep
    rw [decodeData_struct id]
    exact takes_structData extra some_ types fits fun inner listed tail =>
      takesChildren children shallow nested fit small bytes inner listed (endObject ++ tail)
  | .array arraySize child, type, depth, count, validity, deep, formed, fit, _, fits, tail => by
    rw [VectorData.WellFormed] at formed
    rw [VectorData.Fits] at fit
    obtain ⟨id, ⟨size, extra⟩, limit, nested⟩ := formed
    have bytes : (child.encode (arraySize.toNat * count)).length < 2 ^ 64 := by
      simp only [VectorData.encode, Nat.mod_eq_of_lt fit.1, flatten_cons, length_append] at fits
      omega
    rw [depth_of_extra extra, ExtraTypeInfo.depth] at deep
    rw [decodeData_array id]
    exact takes_arrayData extra limit fit.1 (child.takes deep nested fit.2 fit.1 bytes)

theorem takesChildren : ∀ (children : List Vector) {depth count : Nat},
    (∀ child ∈ children, child.logicalType.depth + 1 ≤ depth) →
    childrenWellFormed count children → childrenFit count children → count < 2 ^ 64 →
    (encodeChildren count children).length < 2 ^ 64 → ∀ child ∈ children, ∀ tail,
    Takes (Vector.decodeWithDepth depth child.logicalType count) (child.encode count) child tail
  | [], _, _, _, _, _, _, _, child, listed, _ => nomatch listed
  | first :: children, depth, count, shallow, formed, fit, small, fits, child, listed, tail => by
    rw [childrenWellFormed] at formed
    rw [childrenFit] at fit
    rw [encodeChildren, length_append, length_append] at fits
    have here := first.takes (shallow first mem_cons_self) formed.1 fit.1 small (by omega)
    rcases mem_cons.mp listed with rfl | later
    · exact here tail
    · exact takesChildren children
        (forall_mem_cons.mp shallow).2 formed.2 fit.2 small
        (by omega) child later tail

end

end Sqe.Quack
