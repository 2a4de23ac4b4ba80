/- GID: Sqe/Quack/Codec
   generality: G
   digest: The varints and the primitive writers and readers of the binary serializer. -/

import Mathlib.Algebra.Group.Int.Defs
import Mathlib.Algebra.Group.Nat.Defs
import Sqe.Library.Reading

/-!
A `u64` is a natural number below `2 ^ 64`, an `i64` an integer. What the deserializer keeps of its
buffer is the part that it has not read yet.
-/

set_option autoImplicit false

namespace Sqe.Quack

open Sqe.Library.Reading

inductive MessageType
  | invalid
  | connectionRequest
  | connectionResponse
  | prepareRequest
  | prepareResponse
  | fetchRequest
  | fetchResponse
  | appendRequest
  | successResponse
  | disconnectMessage
  | errorResponse
  deriving DecidableEq

inductive LogicalTypeId
  | invalid | sqlNull | boolean | tinyInt | smallInt | integer | bigInt | date | time
  | timestampSec | timestampMs | timestamp | timestampNs | decimal | float | double | char
  | varchar | blob | interval | uTinyInt | uSmallInt | uInteger | uBigInt | timestampTz
  | timestampTzNs | timeTz | timeNs | bit | uHugeInt | hugeInt | uuid | struct | list | map
  | enum | union | array
  deriving DecidableEq

inductive ExtraTypeInfoType
  | invalid | generic | decimal | string | list | struct | enum | unbound | aggregateState
  | array | any | integerLiteral | template | geo
  deriving DecidableEq

inductive WireError
  | unexpectedEof
  | varintOverflow
  | unexpectedField (expected actual : Nat)
  | invalidUtf8
  | unknownMessageType (value : UInt8)
  | unsupportedMessageType (type : MessageType)
  | unknownLogicalTypeId (value : UInt8)
  | unsupportedLogicalType (id : LogicalTypeId)
  | unsupportedVectorType (raw : UInt8)
  | nullDataChunkWrapper
  | unknownExtraTypeInfoType (value : UInt8)
  | unsupportedExtraTypeInfo (kind : ExtraTypeInfoType)
  | nullExtraTypeInfo
  | unsupportedExtensionTypeInfo
  | recursionLimitExceeded (max : Nat)
  | countExceedsRemaining (count remaining : Nat)
  deriving DecidableEq

abbrev Bytes := List UInt8

abbrev Decoder := Reader UInt8 WireError

def encodeUnsigned (value : Nat) : Bytes :=
  let byte := value &&& 0x7F
  if value >>> 7 = 0 then [UInt8.ofNat byte]
  else UInt8.ofNat (byte ||| 0x80) :: encodeUnsigned (value >>> 7)
termination_by value
decreasing_by
  rw [Nat.shiftRight_eq_div_pow] at *
  omega

/-- The last byte of a signed varint: nothing but copies of its sign is left. -/
def signedDone (rest : Int) (byte : Nat) : Bool :=
  (rest = 0 && byte &&& 0x40 = 0) || (rest = -1 && byte &&& 0x40 ≠ 0)

def encodeSigned (value : Int) : Bytes :=
  let byte := (value % 128).toNat
  if signedDone (value / 128) byte then [UInt8.ofNat byte]
  else UInt8.ofNat (byte ||| 0x80) :: encodeSigned (value / 128)
termination_by value.natAbs
decreasing_by
  rename_i unfinished
  have unsettled : ¬ (value = 0 ∨ value = -1) := by
    rintro (rfl | rfl)
    · exact unfinished (show signedDone (0 / 128) (0 % 128 : Int).toNat = true by decide)
    · exact unfinished (show signedDone (-1 / 128) (-1 % 128 : Int).toNat = true by decide)
  omega

/-- The loop of `decode_unsigned` from its byte `i` on. -/
def decodeUnsignedFrom : Nat → Nat → Bytes → Except WireError (Nat × Bytes)
  | _, _, [] => .error .unexpectedEof
  | i, value, byte :: rest =>
    if 10 ≤ i then .error .varintOverflow
    else
      let value := value ||| ((byte.toNat &&& 0x7F) <<< (7 * i)) % 2 ^ 64
      if byte.toNat &&& 0x80 = 0 then .ok (value, rest)
      else decodeUnsignedFrom (i + 1) value rest

def toI64 (bits : Nat) : Int :=
  if bits < 2 ^ 63 then bits else bits - 2 ^ 64

/-- The loop of `decode_signed` from its byte `i` on, over the 64 bits of the value. -/
def decodeSignedFrom : Nat → Nat → Bytes → Except WireError (Int × Bytes)
  | _, _, [] => .error .unexpectedEof
  | i, value, byte :: rest =>
    if 10 ≤ i then .error .varintOverflow
    else
      let value := value ||| ((byte.toNat &&& 0x7F) <<< (7 * i)) % 2 ^ 64
      let shift := 7 * (i + 1)
      if byte.toNat &&& 0x80 = 0 then
        -- Sign-extend unless all 64 bits were consumed.
        if shift < 64 ∧ byte.toNat &&& 0x40 ≠ 0 then
          .ok (toI64 (value ||| (2 ^ 64 - 2 ^ shift)), rest)
        else .ok (toI64 value, rest)
      else decodeSignedFrom (i + 1) value rest

def messageTerminatorFieldId : Nat := 0xFFFF

/-- The two bytes of a field id, the lower one first. -/
def beginProperty (fieldId : Nat) : Bytes :=
  [UInt8.ofNat fieldId, UInt8.ofNat (fieldId / 256)]

def endObject : Bytes :=
  beginProperty messageTerminatorFieldId

/-- The length of a `Vec` or a string as a `u64`. -/
def beginList (count : Nat) : Bytes :=
  encodeUnsigned (count % 2 ^ 64)

def writeBool (value : Bool) : Bytes :=
  [if value then 1 else 0]

def beginNullable (present : Bool) : Bytes :=
  writeBool present

def writeU8 (value : UInt8) : Bytes :=
  encodeUnsigned value.toNat

def writeU32 (value : UInt32) : Bytes :=
  encodeUnsigned value.toNat

def writeU64 (value : UInt64) : Bytes :=
  encodeUnsigned value.toNat

/-- An `i128` goes as its two halves, the lower one first. -/
def writeHugeint (value : BitVec 128) : Bytes :=
  encodeSigned (value.setWidth 64).toInt ++
    encodeSigned ((value.sshiftRight 64).setWidth 64).toInt

def writeDataPtr (bytes : Bytes) : Bytes :=
  beginList bytes.length ++ bytes

def utf8 (value : String) : Bytes :=
  value.toUTF8.data.toList

def writeString (value : String) : Bytes :=
  writeDataPtr (utf8 value)

def readU16Le : Decoder Nat := fun bytes =>
  match bytes with
  | low :: high :: rest => .ok (low.toNat + 256 * high.toNat, rest)
  | _ => .error .unexpectedEof

def peekField : Decoder Nat := fun bytes =>
  match bytes with
  | low :: high :: _ => .ok (low.toNat + 256 * high.toNat, bytes)
  | _ => .error .unexpectedEof

def expectField (fieldId : Nat) : Decoder Unit := do
  let actual ← readU16Le
  if actual ≠ fieldId then throw (.unexpectedField fieldId actual)

def expectObjectEnd : Decoder Unit :=
  expectField messageTerminatorFieldId

def readOptional (fieldId : Nat) : Decoder Bool := do
  let peeked ← peekField
  if peeked = fieldId then
    let _ ← readU16Le
    pure true
  else pure false

def readBool : Decoder Bool := fun bytes =>
  match bytes with
  | byte :: rest => .ok (byte != 0, rest)
  | [] => .error .unexpectedEof

def readNullablePresent : Decoder Bool :=
  readBool

def readU64 : Decoder Nat :=
  decodeUnsignedFrom 0 0

def readU8 : Decoder UInt8 := do
  let v ← readU64
  if v < 2 ^ 8 then pure (UInt8.ofNat v) else throw .varintOverflow

def readU32 : Decoder UInt32 := do
  let v ← readU64
  if v < 2 ^ 32 then pure (UInt32.ofNat v) else throw .varintOverflow

def readI64 : Decoder Int :=
  decodeSignedFrom 0 0

def readHugeint : Decoder (BitVec 128) := do
  let lower ← readI64
  let upper ← readI64
  pure (BitVec.ofInt 128 upper <<< 64 ||| (BitVec.ofInt 64 lower).setWidth 128)

def readSlice (len : Nat) : Decoder Bytes := fun bytes =>
  if bytes.length < len then .error .unexpectedEof else .ok (bytes.take len, bytes.drop len)

def readDataPtr : Decoder Bytes := do
  let len ← readU64
  readSlice len

def readString : Decoder String := do
  let bytes ← readDataPtr
  match String.fromUTF8? ⟨bytes.toArray⟩ with
  | some s => pure s
  | none => throw .invalidUtf8

def skipString : Decoder Unit := do
  let _ ← readDataPtr

/-- A count may not exceed the bytes that are left. -/
def checkRemaining (count : Nat) : Decoder Unit := fun bytes =>
  if bytes.length < count then .error (.countExceedsRemaining count bytes.length)
  else .ok ((), bytes)

def readBoundedCount : Decoder Nat := do
  let count ← readU64
  checkRemaining count
  pure count

end Sqe.Quack
