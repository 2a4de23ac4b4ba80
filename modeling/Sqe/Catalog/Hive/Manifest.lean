/- GID: Sqe/Catalog/Hive/Manifest
   generality: G
   digest: Partition keys and index entries of a Hive table, and the typing of their raw values. -/

import Sqe.DataFusion.Kernels
import Sqe.Library.Dotted

set_option autoImplicit false

namespace Sqe.Catalog.Hive

open Sqe.DataFusion

/-- The directory value Hive writes for a NULL partition key. -/
def hiveDefaultPartition : String := "__HIVE_DEFAULT_PARTITION__"

abbrev ValueMap := String → Option String

def ValueMap.empty : ValueMap := fun _ => none

def ValueMap.insert (m : ValueMap) (name value : String) : ValueMap :=
  Function.update m name (some value)

structure PartitionIndexEntry where
  values : ValueMap
  location : String
  fileCount : Nat
  totalBytes : Nat

def i64Min : Int := -9223372036854775808
def i64Max : Int := 9223372036854775807

def parseDigits : List Char → Option Nat
  | [] => none
  | ds =>
    if ds.all Char.isDigit then
      some (ds.foldl (fun n d => n * 10 + (d.toNat - '0'.toNat)) 0)
    else none

/-- `str::parse::<i64>`: an optional sign, decimal digits, and the value in range. -/
def parseI64 (raw : String) : Option Int :=
  let value : Option Int := match raw.toList with
    | '-' :: ds => (parseDigits ds).map fun n => -(n : Int)
    | '+' :: ds => (parseDigits ds).map Int.ofNat
    | ds => (parseDigits ds).map Int.ofNat
  value.filter fun v => i64Min ≤ v ∧ v ≤ i64Max

/-- `str::trim`. -/
def trimChars (cs : List Char) : List Char :=
  Library.Text.trimEnd (cs.dropWhile Library.Text.isWhitespace)

/-- The declared type, trimmed, in ASCII lower case, up to an opening parenthesis. -/
def sqlBase (sqlType : String) : String :=
  String.ofList (((trimChars sqlType.toList).map Char.toLower).takeWhile (· ≠ '('))

/-- The Arrow type of a base name; none for decimals and the nested types. -/
def arrowBase : String → Option DataType
  | "tinyint" => some .int8
  | "smallint" => some .int16
  | "int" | "integer" => some .int32
  | "bigint" => some .int64
  | "float" | "real" => some .float32
  | "double" => some .float64
  | "boolean" => some .boolean
  | "string" | "varchar" | "char" => some .utf8
  | "binary" => some .binary
  | "date" => some .date32
  | "timestamp" => some (.timestamp .microsecond none)
  | _ => none

/-- The scalar part of `serde_map::arrow_type`, which trims the base once more. -/
def arrowType (sqlType : String) : Option DataType :=
  arrowBase (String.ofList (trimChars (sqlBase sqlType).toList))

/-- A partition key with the Arrow type its declared type maps to. A declared decimal or
nested type may map to any type of that family. -/
structure PartitionKey where
  name : String
  sqlType : String
  dataType : DataType
  typed : arrowType sqlType = some dataType ∨
    (arrowType sqlType = none ∧ (dataType.isNested = true ∨ ∃ p s, dataType = .decimal128 p s))

/-- What the date library answers. Days and nanoseconds count from the epoch. -/
structure Chrono where
  /-- `NaiveDate::parse_from_str(_, "%Y-%m-%d")`. -/
  parseDate : String → Option Int
  /-- `NaiveDate::MIN` and `NaiveDate::MAX`. -/
  minDay : Int
  maxDay : Int
  /-- A date in `%Y-%m-%d`. -/
  formatDate : Int → String
  ymd : Int → Int × Nat × Nat
  fromYmdOpt : Int → Nat → Nat → Option Int
  /-- An instant in the given format; `none` where the format is malformed and rendering
  panics. -/
  format : String → Int → Option String

/-- The epoch date plus the days, when chrono can represent it. -/
def Chrono.dateOfDays (chrono : Chrono) (days : Int) : Option Int :=
  if chrono.minDay ≤ days ∧ days ≤ chrono.maxDay then some days else none

/-- `ScalarValue::try_from_string`: a raw value read as an Arrow type. -/
abbrev TryFromString := String → DataType → Option ScalarValue

/-- What is assumed of the two parsers of raw values, the one of Arrow and the one of chrono:
Arrow returns a value of the type asked for and never NULL, reads a string as itself, and where
both parsers of an integer or a date accept a text they read the same number. The sentinel is
no date. -/
structure ParsersAgree (chrono : Chrono) (tryFromString : TryFromString) : Prop where
  typed : ∀ raw type v, tryFromString raw type = some v → v.dataType = type
  present : ∀ raw type v, type ≠ .null → tryFromString raw type = some v → v.isNull = false
  utf8 : ∀ raw, tryFromString raw .utf8 = some (.utf8 (some raw))
  int : ∀ raw type v n, type ∈ [.int8, .int16, .int32, .int64] →
    tryFromString raw type = some v → parseI64 raw = some n → v.number = some n
  date : ∀ raw v d, tryFromString raw .date32 = some v → chrono.parseDate raw = some d →
    v.number = some d
  sentinel : chrono.parseDate hiveDefaultPartition = none

/-- `partition_scalar`: a directory-encoded value against the declared Arrow type. -/
def partitionScalar (tryFromString : TryFromString) (raw : String) (type : DataType) :
    ScalarValue :=
  if raw = hiveDefaultPartition then
    match type with
    | .utf8 | .largeUtf8 | .utf8View => .utf8 (some hiveDefaultPartition)
    | other => .nullOf other
  else (tryFromString raw type).getD (.utf8 (some raw))

/-- The value of a partition column: `partition_scalar`, with the sentinel read as NULL. -/
def partitionValue (tryFromString : TryFromString) (raw : String) (type : DataType) : ScalarValue :=
  if raw = hiveDefaultPartition then .nullOf type
  else partitionScalar tryFromString raw type

section Keys

variable (keys : List PartitionKey)

def keyOf (name : String) : Option PartitionKey := keys.find? fun key => key.name == name

def partitionColumns : List String := keys.map PartitionKey.name

def partitionTypes : List (String × String) := keys.map fun key => (key.name, key.sqlType)

/-- The type of a column of the table: of its key for a partition column. -/
def columnType (dataType : Column → DataType) (c : Column) : DataType :=
  ((keyOf keys c.name).map PartitionKey.dataType).getD (dataType c)

/-- A row of the partition `entry`: its partition columns come from the entry's values, a
missing one counting as the sentinel, and its data columns from `data`. -/
def rowEnv (tryFromString : TryFromString) (entry : PartitionIndexEntry) (data : RowEnv) : RowEnv :=
  { data with
    column := fun c => match keyOf keys c.name with
      | some key =>
        partitionValue tryFromString ((entry.values c.name).getD hiveDefaultPartition)
          key.dataType
      | none => data.column c }

variable {keys}

theorem mem_partitionColumns {name : String} :
    name ∈ partitionColumns keys ↔ ∃ key, keyOf keys name = some key := by
  rw [← Option.isSome_iff_exists, keyOf, List.find?_isSome]
  simp [partitionColumns]

end Keys

end Sqe.Catalog.Hive
