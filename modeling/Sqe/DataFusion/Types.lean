/- GID: Sqe/DataFusion/Types
   generality: G
   digest: Arrow data types and scalar values, as far as the modelled code tells them apart. -/

import Mathlib.Data.Int.Basic

set_option autoImplicit false

namespace Sqe.DataFusion

inductive TimeUnit
  | second | millisecond | microsecond | nanosecond
  deriving DecidableEq

/-- The nested Arrow types. The modelled code only asks whether a type is nested. -/
inductive NestedKind
  | list | largeList | fixedSizeList | listView | struct | map | union
  deriving DecidableEq

/-- The Arrow types whose values no modelled function looks into. -/
inductive OtherType
  | time32 (unit : TimeUnit) | time64 (unit : TimeUnit)
  | duration (unit : TimeUnit) | interval
  | nested (kind : NestedKind)
  deriving DecidableEq

/-- `arrow_schema::DataType`. Decimals carry precision and scale, timestamps a unit and
an optional zone. -/
inductive DataType
  | null | boolean
  | int8 | int16 | int32 | int64
  | uint8 | uint16 | uint32 | uint64
  | float16 | float32 | float64
  | utf8 | largeUtf8 | utf8View
  | binary | largeBinary | binaryView | fixedSizeBinary (width : Nat)
  | date32 | date64
  | timestamp (unit : TimeUnit) (zone : Option String)
  | decimal128 (precision : Nat) (scale : Int)
  | decimal256 (precision : Nat) (scale : Int)
  | other (type : OtherType)
  deriving DecidableEq

def DataType.isNested : DataType → Bool
  | .other (.nested _) => true
  | _ => false

def DataType.isFloat : DataType → Bool
  | .float16 | .float32 | .float64 => true
  | _ => false

/-- `datafusion::scalar::ScalarValue`: a typed value, where `none` is the NULL of that type.
A float is carried as its bit pattern; the values of the other types as a rendering. -/
inductive ScalarValue
  | null
  | boolean (v : Option Bool)
  | int8 (v : Option Int) | int16 (v : Option Int) | int32 (v : Option Int)
  | int64 (v : Option Int)
  | uint8 (v : Option Nat) | uint16 (v : Option Nat) | uint32 (v : Option Nat)
  | uint64 (v : Option Nat)
  | float16 (bits : Option Nat) | float32 (bits : Option Nat) | float64 (bits : Option Nat)
  | utf8 (v : Option String) | largeUtf8 (v : Option String) | utf8View (v : Option String)
  | binary (v : Option (List UInt8)) | largeBinary (v : Option (List UInt8))
  | binaryView (v : Option (List UInt8)) | fixedSizeBinary (width : Nat) (v : Option (List UInt8))
  | date32 (v : Option Int) | date64 (v : Option Int)
  | timestamp (unit : TimeUnit) (v : Option Int) (zone : Option String)
  | decimal128 (v : Option Int) (precision : Nat) (scale : Int)
  | decimal256 (v : Option Int) (precision : Nat) (scale : Int)
  | other (type : OtherType) (v : Option String)
  deriving DecidableEq

def ScalarValue.dataType : ScalarValue → DataType
  | .null => .null
  | .boolean _ => .boolean
  | .int8 _ => .int8 | .int16 _ => .int16 | .int32 _ => .int32 | .int64 _ => .int64
  | .uint8 _ => .uint8 | .uint16 _ => .uint16 | .uint32 _ => .uint32 | .uint64 _ => .uint64
  | .float16 _ => .float16 | .float32 _ => .float32 | .float64 _ => .float64
  | .utf8 _ => .utf8 | .largeUtf8 _ => .largeUtf8 | .utf8View _ => .utf8View
  | .binary _ => .binary | .largeBinary _ => .largeBinary | .binaryView _ => .binaryView
  | .fixedSizeBinary w _ => .fixedSizeBinary w
  | .date32 _ => .date32 | .date64 _ => .date64
  | .timestamp u _ z => .timestamp u z
  | .decimal128 _ p s => .decimal128 p s
  | .decimal256 _ p s => .decimal256 p s
  | .other t _ => .other t

def ScalarValue.isNull : ScalarValue → Bool
  | .null => true
  | .boolean v => v.isNone
  | .int8 v | .int16 v | .int32 v | .int64 v | .date32 v | .date64 v => v.isNone
  | .uint8 v | .uint16 v | .uint32 v | .uint64 v => v.isNone
  | .float16 v | .float32 v | .float64 v => v.isNone
  | .utf8 v | .largeUtf8 v | .utf8View v => v.isNone
  | .binary v | .largeBinary v | .binaryView v | .fixedSizeBinary _ v => v.isNone
  | .timestamp _ v _ => v.isNone
  | .decimal128 v _ _ | .decimal256 v _ _ => v.isNone
  | .other _ v => v.isNone

/-- The NULL of a type: `ScalarValue::try_from(&DataType)`. -/
def ScalarValue.nullOf : DataType → ScalarValue
  | .null => .null
  | .boolean => .boolean none
  | .int8 => .int8 none | .int16 => .int16 none | .int32 => .int32 none | .int64 => .int64 none
  | .uint8 => .uint8 none | .uint16 => .uint16 none | .uint32 => .uint32 none
  | .uint64 => .uint64 none
  | .float16 => .float16 none | .float32 => .float32 none | .float64 => .float64 none
  | .utf8 => .utf8 none | .largeUtf8 => .largeUtf8 none | .utf8View => .utf8View none
  | .binary => .binary none | .largeBinary => .largeBinary none
  | .binaryView => .binaryView none
  | .fixedSizeBinary w => .fixedSizeBinary w none
  | .date32 => .date32 none | .date64 => .date64 none
  | .timestamp u z => .timestamp u none z
  | .decimal128 p s => .decimal128 none p s
  | .decimal256 p s => .decimal256 none p s
  | .other t => .other t none

@[simp] theorem ScalarValue.nullOf_isNull (t : DataType) :
    (ScalarValue.nullOf t).isNull = true := by
  cases t <;> rfl

@[simp] theorem ScalarValue.nullOf_dataType (t : DataType) :
    (ScalarValue.nullOf t).dataType = t := by
  cases t <;> rfl

/-- The truth value of a scalar: `none` for NULL and for a value that is no boolean. -/
def ScalarValue.truth : ScalarValue → Option Bool
  | .boolean v => v
  | _ => none

@[simp] theorem ScalarValue.truth_boolean (v : Option Bool) : (ScalarValue.boolean v).truth = v :=
  rfl

end Sqe.DataFusion
