/- GID: Sqe/Quack/DataChunk
   generality: G
   digest: Logical types, vectors and data chunks, and how they are written and read. -/

import Sqe.Quack.Codec

/-!
An object is written as the list of what its properties write. The deserializer's recursion is
bounded by a depth that it takes one off for every level of nesting.
-/

set_option autoImplicit false

namespace Sqe.Quack

open Sqe.Library.Reading

def maxDecodeDepth : Nat := 32

def ofResult {α : Type} (result : Except WireError α) : Decoder α := fun bytes =>
  result.map fun value => (value, bytes)

def refuseWhen (bad : Prop) [Decidable bad] (error : WireError) : Decoder Unit :=
  if bad then throw error else pure ()

/-- A property that is left out when it has its default value. -/
def elided (present : Bool) (property : Bytes) : Bytes :=
  if present then property else []

def readDefault {α : Type} (fieldId : Nat) (value : Decoder α) (default : α) : Decoder α := do
  if ← readOptional fieldId then value else pure default

def LogicalTypeId.toU8 : LogicalTypeId → UInt8
  | .invalid => 0 | .sqlNull => 1 | .boolean => 10 | .tinyInt => 11 | .smallInt => 12
  | .integer => 13 | .bigInt => 14 | .date => 15 | .time => 16 | .timestampSec => 17
  | .timestampMs => 18 | .timestamp => 19 | .timestampNs => 20 | .decimal => 21 | .float => 22
  | .double => 23 | .char => 24 | .varchar => 25 | .blob => 26 | .interval => 27
  | .uTinyInt => 28 | .uSmallInt => 29 | .uInteger => 30 | .uBigInt => 31 | .timestampTz => 32
  | .timestampTzNs => 33 | .timeTz => 34 | .timeNs => 35 | .bit => 36 | .uHugeInt => 49
  | .hugeInt => 50 | .uuid => 54 | .struct => 100 | .list => 101 | .map => 102 | .enum => 104
  | .union => 107 | .array => 108

def LogicalTypeId.fromU8 (value : UInt8) : Except WireError LogicalTypeId :=
  match value with
  | 0 => .ok .invalid | 1 => .ok .sqlNull | 10 => .ok .boolean | 11 => .ok .tinyInt
  | 12 => .ok .smallInt | 13 => .ok .integer | 14 => .ok .bigInt | 15 => .ok .date
  | 16 => .ok .time | 17 => .ok .timestampSec | 18 => .ok .timestampMs | 19 => .ok .timestamp
  | 20 => .ok .timestampNs | 21 => .ok .decimal | 22 => .ok .float | 23 => .ok .double
  | 24 => .ok .char | 25 => .ok .varchar | 26 => .ok .blob | 27 => .ok .interval
  | 28 => .ok .uTinyInt | 29 => .ok .uSmallInt | 30 => .ok .uInteger | 31 => .ok .uBigInt
  | 32 => .ok .timestampTz | 33 => .ok .timestampTzNs | 34 => .ok .timeTz | 35 => .ok .timeNs
  | 36 => .ok .bit | 49 => .ok .uHugeInt | 50 => .ok .hugeInt | 54 => .ok .uuid
  | 100 => .ok .struct | 101 => .ok .list | 102 => .ok .map | 104 => .ok .enum
  | 107 => .ok .union | 108 => .ok .array
  | value => .error (.unknownLogicalTypeId value)

def LogicalTypeId.fixedWidth : LogicalTypeId → Option Nat
  | .boolean | .tinyInt | .uTinyInt => some 1
  | .smallInt | .uSmallInt => some 2
  | .integer | .uInteger | .float | .date => some 4
  | .bigInt | .uBigInt | .double | .time | .timeNs | .timeTz | .timestamp | .timestampSec
  | .timestampMs | .timestampNs | .timestampTz | .timestampTzNs => some 8
  | .hugeInt | .uHugeInt | .uuid | .interval => some 16
  | _ => none

def ExtraTypeInfoType.toU8 : ExtraTypeInfoType → UInt8
  | .invalid => 0 | .generic => 1 | .decimal => 2 | .string => 3 | .list => 4 | .struct => 5
  | .enum => 6 | .unbound => 7 | .aggregateState => 8 | .array => 9 | .any => 10
  | .integerLiteral => 11 | .template => 12 | .geo => 13

def ExtraTypeInfoType.fromU8 (value : UInt8) : Except WireError ExtraTypeInfoType :=
  match value with
  | 0 => .ok .invalid | 1 => .ok .generic | 2 => .ok .decimal | 3 => .ok .string
  | 4 => .ok .list | 5 => .ok .struct | 6 => .ok .enum | 7 => .ok .unbound
  | 8 => .ok .aggregateState | 9 => .ok .array | 10 => .ok .any | 11 => .ok .integerLiteral
  | 12 => .ok .template | 13 => .ok .geo
  | value => .error (.unknownExtraTypeInfoType value)

mutual

inductive LogicalType
  | mk (id : LogicalTypeId) (extra : Option ExtraTypeInfo)

inductive ExtraTypeInfo
  | decimal (precision scale : UInt8)
  | list (child : LogicalType)
  | struct (fields : List (String × LogicalType))
  | array (child : LogicalType) (size : UInt32)
  | enum (values : List String)

end

def LogicalType.id : LogicalType → LogicalTypeId
  | .mk id _ => id

def LogicalType.extra : LogicalType → Option ExtraTypeInfo
  | .mk _ extra => extra

def enumPhysicalWidth (dictSize : Nat) : Nat :=
  if dictSize ≤ 256 then 1 else if dictSize ≤ 65536 then 2 else 4

def decimalPhysicalWidth (precision : UInt8) : Nat :=
  if precision ≤ 4 then 2 else if precision ≤ 9 then 4 else if precision ≤ 18 then 8 else 16

def LogicalType.physicalWidth : LogicalType → Option Nat
  | .mk .decimal (some (.decimal precision _)) => some (decimalPhysicalWidth precision)
  | .mk .enum (some (.enum values)) => some (enumPhysicalWidth values.length)
  | .mk id _ => id.fixedWidth

def encodeBase (kind : ExtraTypeInfoType) : Bytes :=
  [beginProperty 100, writeU8 kind.toU8].flatten

mutual

def LogicalType.encode : LogicalType → Bytes
  | .mk id none => [beginProperty 100, writeU8 id.toU8].flatten
  | .mk id (some extra) =>
    [beginProperty 100, writeU8 id.toU8, beginProperty 101, beginNullable true,
      extra.encodeInner, endObject].flatten

def ExtraTypeInfo.encodeInner : ExtraTypeInfo → Bytes
  | .decimal precision scale =>
    [encodeBase .decimal, elided (precision != 0) (beginProperty 200 ++ writeU8 precision),
      elided (scale != 0) (beginProperty 201 ++ writeU8 scale)].flatten
  | .list child =>
    [encodeBase .list, beginProperty 200, child.encode, endObject].flatten
  | .struct fields =>
    [encodeBase .struct, elided (!fields.isEmpty)
        (beginProperty 200 ++ (beginList fields.length ++ encodeFields fields))].flatten
  | .array child size =>
    [encodeBase .array, beginProperty 200, child.encode,
      endObject, elided (size != 0) (beginProperty 201 ++ writeU32 size)].flatten
  | .enum values =>
    [encodeBase .enum, beginProperty 200,
      beginList values.length, beginProperty 201, beginList values.length,
      values.flatMap writeString].flatten

def encodeFields : List (String × LogicalType) → Bytes
  | [] => []
  | (name, type) :: fields =>
    [beginProperty 0, writeString name, beginProperty 1, type.encode, endObject,
      endObject].flatten ++ encodeFields fields

end

/-- The fields of the base class. An alias is dropped, the other two are refused. -/
def decodeBase : Decoder ExtraTypeInfoType := do
  expectField 100
  let kind ← ofResult (ExtraTypeInfoType.fromU8 (← readU8))
  readDefault 101 (do let _alias ← readString; pure ()) ()
  readDefault 102 (throw (.unexpectedField 200 102)) ()
  readDefault 103 (throw .unsupportedExtensionTypeInfo) ()
  pure kind

section

-- How the types of the children are decoded, one level further down.
variable (child : Decoder LogicalType)

def decodeField : Decoder (String × LogicalType) := do
  expectField 0
  let name ← readString
  expectField 1
  let type ← child
  expectObjectEnd
  expectObjectEnd
  pure (name, type)

def decodeFields : Decoder (List (String × LogicalType)) := do
  let count ← readBoundedCount
  times count (decodeField child)

def decodeKind : ExtraTypeInfoType → Decoder ExtraTypeInfo
  | .decimal => do
    let precision ← readDefault 200 readU8 0
    let scale ← readDefault 201 readU8 0
    pure (.decimal precision scale)
  | .list => do
    expectField 200
    let type ← child
    expectObjectEnd
    pure (.list type)
  | .struct => do
    let fields ← readDefault 200 (decodeFields child) []
    pure (.struct fields)
  | .array => do
    expectField 200
    let type ← child
    expectObjectEnd
    let size ← readDefault 201 readU32 0
    pure (.array type size)
  | .enum => do
    expectField 200
    let count ← readU64
    expectField 201
    let listed ← readBoundedCount
    refuseWhen (listed ≠ count) (.unexpectedField (count % 2 ^ 16) (listed % 2 ^ 16))
    let values ← times listed readString
    pure (.enum values)
  | other => throw (.unsupportedExtraTypeInfo other)

end

/-- The nullable pointer to a type's parameters. -/
def decodeTypeInfo (inner : Decoder ExtraTypeInfo) : Decoder (Option ExtraTypeInfo) := do
  let present ← readNullablePresent
  refuseWhen (present = false) .nullExtraTypeInfo
  let extra ← inner
  expectObjectEnd
  pure (some extra)

mutual

def LogicalType.decodeWithDepth : Nat → Decoder LogicalType
  | 0 => throw (.recursionLimitExceeded maxDecodeDepth)
  | childDepth + 1 => do
    expectField 100
    let id ← ofResult (LogicalTypeId.fromU8 (← readU8))
    let extra ← readDefault 101
      (decodeTypeInfo (ExtraTypeInfo.decodeInnerWithDepth childDepth)) none
    pure (.mk id extra)

def ExtraTypeInfo.decodeInnerWithDepth : Nat → Decoder ExtraTypeInfo
  | 0 => throw (.recursionLimitExceeded maxDecodeDepth)
  | childDepth + 1 => do
    let kind ← decodeBase
    decodeKind (LogicalType.decodeWithDepth childDepth) kind

end

def LogicalType.decode : Decoder LogicalType :=
  LogicalType.decodeWithDepth maxDecodeDepth

mutual

inductive Vector
  | mk (logicalType : LogicalType) (validity : Option (List Bool)) (data : VectorData)

inductive VectorData
  | fixed (bytes : Bytes)
  | strings (values : List (Option String))
  | blobs (values : List (Option Bytes))
  | list (entries : List (UInt64 × UInt64)) (childCount : UInt64) (child : Vector)
  | struct (children : List Vector)
  | array (arraySize : UInt64) (child : Vector)

end

def Vector.logicalType : Vector → LogicalType
  | .mk logicalType _ _ => logicalType

/-- Row `i` is bit `i % 8` of byte `i / 8`, in whole `u64` chunks. -/
def packMask (validity : List Bool) (count : Nat) : Bytes :=
  ((validity.take count).zipIdx).foldl
    (fun mask row =>
      if row.1 then mask.modify (row.2 / 8) fun byte => byte ||| UInt8.ofNat (1 <<< (row.2 % 8))
      else mask)
    (List.replicate ((count + 63) / 64 * 8) 0)

def unpackMask (raw : Bytes) (count : Nat) : List Bool :=
  (List.range count).map fun i => (raw.getD (i / 8) 0).toNat &&& (1 <<< (i % 8)) != 0

variable (count : Nat)

def encodeValidity : Option (List Bool) → Bytes
  | none => []
  | some validity => [beginProperty 101, writeDataPtr (packMask validity count)].flatten

/-- The offset and the length of one row of a list. -/
def encodeEntry (entry : UInt64 × UInt64) : Bytes :=
  [beginProperty 100, writeU64 entry.1, beginProperty 101, writeU64 entry.2, endObject].flatten

mutual

def Vector.encode (count : Nat) : Vector → Bytes
  | .mk _ validity data =>
    [beginProperty 100, writeBool validity.isSome, encodeValidity count validity,
      data.encode count].flatten

def VectorData.encode (count : Nat) : VectorData → Bytes
  | .fixed bytes => [beginProperty 102, writeDataPtr bytes].flatten
  | .strings values =>
    [beginProperty 102, beginList count,
      (values.take count).flatMap fun value => writeString (value.getD "")].flatten
  | .blobs values =>
    [beginProperty 102, beginList count,
      (values.take count).flatMap fun value => writeDataPtr (value.getD [])].flatten
  | .struct children =>
    [beginProperty 103, beginList children.length, encodeChildren count children].flatten
  | .array arraySize child =>
    -- The product is a `usize`.
    [beginProperty 103, writeU64 arraySize, beginProperty 104,
      child.encode (arraySize.toNat * count % 2 ^ 64), endObject].flatten
  | .list entries childCount child =>
    [beginProperty 104, writeU64 childCount, beginProperty 105, beginList count,
      (entries.take count).flatMap encodeEntry, beginProperty 106,
      child.encode childCount.toNat, endObject].flatten

def encodeChildren (count : Nat) : List Vector → Bytes
  | [] => []
  | child :: children => (child.encode count ++ endObject) ++ encodeChildren count children

end

def ensureDecodedRows (actual count : Nat) : Decoder Unit :=
  refuseWhen (actual < count) (.countExceedsRemaining count actual)

def rowValid (validity : Option (List Bool)) (i : Nat) : Bool :=
  match validity with
  | some bits => bits.getD i true
  | none => true

def decodeMask : Decoder (Option (List Bool)) := do
  expectField 101
  let raw ← readDataPtr
  -- `saturating_mul`
  let capacityBits := min (raw.length * 8) (2 ^ 64 - 1)
  refuseWhen (capacityBits < count) (.countExceedsRemaining count capacityBits)
  pure (some (unpackMask raw count))

def decodeValidity : Decoder (Option (List Bool)) := do
  if ← readBool then decodeMask count else pure none

/-- One row of a list, which has to lie inside the child. -/
def decodeEntry (childCount : Nat) : Decoder (UInt64 × UInt64) := do
  expectField 100
  let offset ← readU64
  expectField 101
  let length ← readU64
  expectObjectEnd
  refuseWhen (2 ^ 64 ≤ offset + length) (.countExceedsRemaining (2 ^ 64 - 1) childCount)
  refuseWhen (childCount < offset + length)
    (.countExceedsRemaining (offset + length) childCount)
  pure (UInt64.ofNat offset, UInt64.ofNat length)

def i32Max : Nat := 2 ^ 31 - 1

/-- An object with its terminator. -/
def closed {α : Type} (object : Decoder α) : Decoder α := do
  let value ← object
  expectObjectEnd
  pure value

/-- The bytes of a null row are skipped whatever they are. -/
def decodeString (valid : Bool) : Decoder (Option String) :=
  if valid then do
    let value ← readString
    pure (some value)
  else do
    skipString
    pure none

def decodeBlob (valid : Bool) : Decoder (Option Bytes) := do
  let bytes ← readDataPtr
  pure (if valid then some bytes else none)

section

-- How the children are decoded, one level further down.
variable (child : LogicalType → Nat → Decoder Vector)

variable (logicalType : LogicalType) (count : Nat)

def decodeList : Decoder VectorData := do
  expectField 104
  let childCount ← readU64
  expectField 105
  let actual ← readBoundedCount
  let entries ← times actual (decodeEntry childCount)
  refuseWhen (actual < count) (.countExceedsRemaining count actual)
  expectField 106
  match logicalType.extra with
  | some (.list childType) =>
    let childVec ← child childType childCount
    expectObjectEnd
    pure (.list entries (UInt64.ofNat childCount) childVec)
  | _ => throw (.unsupportedLogicalType logicalType.id)

def decodeArray : Decoder VectorData := do
  expectField 103
  let arraySize ← readU64
  expectField 104
  match logicalType.extra with
  | some (.array childType _) =>
    refuseWhen (¬ (arraySize ≤ i32Max ∧ arraySize * count < 2 ^ 64))
      (.countExceedsRemaining arraySize i32Max)
    let childVec ← child childType (arraySize * count)
    expectObjectEnd
    pure (.array (UInt64.ofNat arraySize) childVec)
  | _ => throw (.unsupportedLogicalType .array)

def decodeStruct : Decoder VectorData := do
  expectField 103
  let childCount ← readBoundedCount
  match logicalType.extra with
  | some (.struct fields) =>
    refuseWhen (childCount ≠ fields.length)
      (.unexpectedField (fields.length % 2 ^ 16) (childCount % 2 ^ 16))
    refuseWhen (fields.isEmpty = true) (.unsupportedLogicalType logicalType.id)
    let children ← all (fields.map fun field => closed (child field.2 count))
    pure (.struct children)
  | _ => throw (.unsupportedLogicalType logicalType.id)

def decodeFixed (width count : Nat) : Decoder VectorData := do
  expectField 102
  let bytes ← readDataPtr
  refuseWhen (2 ^ 64 ≤ count * width) (.countExceedsRemaining count bytes.length)
  refuseWhen (bytes.length < count * width)
    (.countExceedsRemaining (count * width) bytes.length)
  pure (.fixed bytes)

variable (validity : Option (List Bool))

def decodeStrings : Decoder VectorData := do
  expectField 102
  let actual ← readBoundedCount
  let values ← all ((List.range actual).map fun i => decodeString (rowValid validity i))
  ensureDecodedRows actual count
  pure (.strings values)

def decodeBlobs : Decoder VectorData := do
  expectField 102
  let actual ← readBoundedCount
  let values ← all ((List.range actual).map fun i => decodeBlob (rowValid validity i))
  ensureDecodedRows actual count
  pure (.blobs values)

def decodeData : Decoder VectorData :=
  match logicalType.id with
  | .list | .map => decodeList child logicalType count
  | .array => decodeArray child logicalType count
  | .struct | .union => decodeStruct child logicalType count
  | id =>
    match logicalType.physicalWidth with
    | some width => decodeFixed width count
    | none =>
      match id with
      | .varchar => decodeStrings count validity
      | .blob => decodeBlobs count validity
      | other => throw (.unsupportedLogicalType other)

def decodeVector : Decoder Vector := do
  readDefault 90 (do let raw ← readU8; throw (.unsupportedVectorType raw)) ()
  expectField 100
  let validity ← decodeValidity count
  let data ← decodeData child logicalType count validity
  pure (.mk logicalType validity data)

end

def Vector.decodeWithDepth : Nat → LogicalType → Nat → Decoder Vector
  | 0 => fun _ _ => throw (.recursionLimitExceeded maxDecodeDepth)
  | childDepth + 1 => decodeVector (Vector.decodeWithDepth childDepth)

def Vector.decode : LogicalType → Nat → Decoder Vector :=
  Vector.decodeWithDepth maxDecodeDepth

structure DataChunk where
  rowCount : UInt32
  columns : List Vector

def encodeTypeObject (type : LogicalType) : Bytes :=
  type.encode ++ endObject

def decodeTypeObject : Decoder LogicalType :=
  closed LogicalType.decode

def encodeColumn (rowCount : UInt32) (column : Vector) : Bytes :=
  column.encode rowCount.toNat ++ endObject

def decodeColumn (rowCount : UInt32) (type : LogicalType) : Decoder Vector :=
  closed (Vector.decode type rowCount.toNat)

def DataChunk.encode (chunk : DataChunk) : Bytes :=
  [beginProperty 100, writeU32 chunk.rowCount, beginProperty 101, beginList chunk.columns.length,
    chunk.columns.flatMap fun column => encodeTypeObject column.logicalType,
    beginProperty 102, beginList chunk.columns.length,
    chunk.columns.flatMap (encodeColumn chunk.rowCount)].flatten

def DataChunk.decode : Decoder DataChunk := do
  expectField 100
  let rowCount ← readU32
  expectField 101
  let typeCount ← readBoundedCount
  let types ← times typeCount decodeTypeObject
  expectField 102
  let columnCount ← readBoundedCount
  refuseWhen (columnCount ≠ typeCount)
    (.unexpectedField (typeCount % 2 ^ 16) (columnCount % 2 ^ 16))
  let columns ← all (types.map (decodeColumn rowCount))
  pure ⟨rowCount, columns⟩

end Sqe.Quack
