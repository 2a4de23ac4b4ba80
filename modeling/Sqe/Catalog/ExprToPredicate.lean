/- GID: Sqe/Catalog/ExprToPredicate
   generality: G
   digest: The conversion of DataFusion filters into Iceberg predicates for scan pushdown. -/

import Sqe.DataFusion.CastLike
import Sqe.Iceberg.Predicate

set_option autoImplicit false

namespace Sqe.Catalog.ExprToPredicate

open Sqe.DataFusion Sqe.Iceberg

/-- A field of the scan schema; `geo` when its metadata names a `geoarrow.` extension. -/
structure Field where
  name : String
  dataType : DataType
  geo : Bool

abbrev Schema := List Field

def fieldWithName (schema : Option Schema) (name : String) : Option Field :=
  schema.bind fun fields => fields.find? (·.name == name)

inductive TransformedResult
  | predicate (p : Predicate)
  | column (reference : String) (type : Option DataType)
  | literal (d : Datum)
  | notTransformed

def millisPerDay : Int := 86400000

/-- The two's-complement `i32` a number casts to. -/
def asI32 (v : Int) : Int := Int.bmod v 4294967296

/-- The bits of the `f64` equal to the `f32` with the given bits. -/
def widenFloat (bits : Nat) : Nat :=
  let sign := bits / 2147483648 * 9223372036854775808
  let exponent := bits / 8388608 % 256
  let mantissa := bits % 8388608
  if exponent = 255 then sign + 2047 * 4503599627370496 + mantissa * 536870912
  else if exponent = 0 then
    if mantissa = 0 then sign
    -- A subnormal `f32` is a normal `f64`.
    else
      let top := Nat.log2 mantissa
      sign + (top + 874) * 4503599627370496 + (mantissa - 1 <<< top) <<< (52 - top)
  else sign + (exponent + 896) * 4503599627370496 + mantissa * 536870912

def scalarValueToDatum : ScalarValue → Option Datum
  | .boolean (some v) => some (.bool v)
  | .int8 (some v) => some (.int v)
  | .int16 (some v) => some (.int v)
  | .int32 (some v) => some (.int v)
  | .int64 (some v) => some (.long v)
  | .float32 (some bits) => some (.double (widenFloat bits))
  | .float64 (some bits) => some (.double bits)
  | .utf8 (some v) => some (.string v)
  | .largeUtf8 (some v) => some (.string v)
  | .utf8View (some v) => some (.string v)
  | .binary (some v) => some (.binary v)
  | .largeBinary (some v) => some (.binary v)
  | .binaryView (some v) => some (.binary v)
  | .date32 (some v) => some (.date v)
  | .date64 (some v) => some (.date (asI32 (v.tdiv millisPerDay)))
  | .timestamp .microsecond (some v) none => some (.timestampMicros v)
  | .timestamp .microsecond (some v) (some _) => some (.timestamptzMicros v)
  | .timestamp .nanosecond (some v) none => some (.timestampNanos v)
  | .timestamp .nanosecond (some v) (some _) => some (.timestamptzNanos v)
  | _ => none

/-- A timestamp literal's value, and whether it counts nanoseconds. -/
def timestampDatum : Datum → Option (Int × Bool)
  | .timestampMicros v | .timestamptzMicros v => some (v, false)
  | .timestampNanos v | .timestamptzNanos v => some (v, true)
  | _ => none

/-- `datum_for_column`: the literal in the unit and zone of its column, `none` when that cannot
be done exactly. -/
def datumForColumn (datum : Datum) (columnType : Option DataType) : Option Datum :=
  match timestampDatum datum with
  | none => some datum
  | some (v, nanos) =>
    match columnType with
    | some (.timestamp .microsecond zone) => do
      let micros ← if nanos then (if v.tmod 1000 = 0 then some (v.tdiv 1000) else none)
        else some v
      return if zone.isSome then .timestamptzMicros micros else .timestampMicros micros
    | some (.timestamp .nanosecond zone) => do
      let value ← if nanos then some v else inI64 (v * 1000)
      return if zone.isSome then .timestamptzNanos value else .timestampNanos value
    | _ => if nanos then none else some datum

def reversePredicateOperator : BinaryOperator → BinaryOperator
  | .greaterThan => .lessThan
  | .greaterThanOrEq => .lessThanOrEq
  | .lessThan => .greaterThan
  | .lessThanOrEq => .greaterThanOrEq
  | op => op

/-- The comparison operators among `to_iceberg_operation`'s. -/
def toIcebergOperation : Operator → Option BinaryOperator
  | .eq => some .eq
  | .notEq => some .notEq
  | .lt => some .lessThan
  | .ltEq => some .lessThanOrEq
  | .gt => some .greaterThan
  | .gtEq => some .greaterThanOrEq
  | _ => none

def toIcebergBinaryPredicate (left right : TransformedResult) (op : BinaryOperator) :
    TransformedResult :=
  match left, right with
  | .column r t, .literal d => match datumForColumn d t with
      | some d => .predicate (.binary op r d)
      | none => .notTransformed
  | .literal d, .column r t => match datumForColumn d t with
      | some d => .predicate (.binary (reversePredicateOperator op) r d)
      | none => .notTransformed
  | _, _ => .notTransformed

/-- For `AND`, if only one side converts, that side is still pushed down. -/
def toIcebergAndPredicate : TransformedResult → TransformedResult → TransformedResult
  | .predicate l, .predicate r => .predicate (.and l r)
  | .predicate l, _ => .predicate l
  | _, .predicate r => .predicate r
  | _, _ => .notTransformed

/-- For `OR`, both sides must convert. -/
def toIcebergOrPredicate : TransformedResult → TransformedResult → TransformedResult
  | .predicate l, .predicate r => .predicate (.or l r)
  | _, _ => .notTransformed

/-- The prefix of a pattern that ends in its only wildcard, `%`. -/
def likePrefix (pattern : String) : Option String :=
  match pattern.toList.getLast? with
  | some '%' =>
    let front := pattern.toList.dropLast
    if front.contains '%' || front.contains '_' then none else some (String.ofList front)
  | _ => none

/-- `cast_is_exact`: the cast maps every value to a distinct value in the same order, and a
literal of the target binds exactly to the source column. -/
def castIsExact (source target : DataType) : Bool :=
  if source = target then true
  else match source, target with
    | .int8, .int16 | .int8, .int32 | .int8, .int64 | .int16, .int32 | .int16, .int64
    | .int32, .int64 => true
    | .timestamp fu ftz, .timestamp tu ttz =>
      (fu == tu || (fu == .microsecond && tu == .nanosecond)) &&
        (ftz == ttz || (isUtc ftz && isUtc ttz))
    | source, target => source.isText && target.isText

mutual

def toIcebergPredicate (schema : Option Schema) : Expr → TransformedResult
  | .binaryExpr l .and r =>
    toIcebergAndPredicate (toIcebergPredicate schema l) (toIcebergPredicate schema r)
  | .binaryExpr l .or r =>
    toIcebergOrPredicate (toIcebergPredicate schema l) (toIcebergPredicate schema r)
  | .binaryExpr l op r => match toIcebergOperation op with
      | some op =>
        toIcebergBinaryPredicate (toIcebergPredicate schema l) (toIcebergPredicate schema r) op
      | none => .notTransformed
  | .not e => match toIcebergPredicate schema e with
      | .predicate p => .predicate (.not p)
      -- NOT of a bare boolean column.
      | .column r _ => .predicate (.binary .eq r (.bool false))
      | _ => .notTransformed
  | .column c =>
    let field := fieldWithName schema c.name
    if field.any Field.geo then .notTransformed
    else if field.any fun f => f.dataType.isNested then .notTransformed
    else .column c.name (field.map Field.dataType)
  | .literal v => match scalarValueToDatum v with
      | some d => .literal d
      | none => .notTransformed
  | .inList e items negated => match literalDatums schema items with
      | none => .notTransformed
      | some datums => match toIcebergPredicate schema e with
          | .column r t => match datums.mapM fun d => datumForColumn d t with
              | some datums => .predicate (.set (if negated then .notIn else .isIn) r datums)
              | none => .notTransformed
          | _ => .notTransformed
  | .is .null e => match toIcebergPredicate schema e with
      | .column r _ => .predicate (.unary .isNull r)
      | _ => .notTransformed
  | .is .notNull e => match toIcebergPredicate schema e with
      | .column r _ => .predicate (.unary .notNull r)
      | _ => .notTransformed
  | .cast e target => match toIcebergPredicate schema e with
      | .column r (some source) =>
        if castIsExact source target then .column r (some source) else .notTransformed
      | _ => .notTransformed
  | .like negated e pattern escape caseInsensitive =>
    if escape.isSome || caseInsensitive then .notTransformed
    else match toIcebergPredicate schema pattern with
      | .literal (.string pattern) => match likePrefix pattern with
          | some start => match toIcebergPredicate schema e with
              | .column r _ => .predicate
                  (.binary (if negated then .notStartsWith else .startsWith) r (.string start))
              | _ => .notTransformed
          | none => .notTransformed
      | _ => .notTransformed
  | _ => .notTransformed

/-- The literals of an `IN` list, `none` as soon as one item is no literal. -/
def literalDatums (schema : Option Schema) : List Expr → Option (List Datum)
  | [] => some []
  | item :: items => match toIcebergPredicate schema item with
      | .literal d => (literalDatums schema items).map (d :: ·)
      | _ => none

end

def convertFilterToPredicate (schema : Option Schema) (expr : Expr) : Option Predicate :=
  match toIcebergPredicate schema expr with
  | .predicate p => some p
  -- A bare column in a filter context is a boolean column check.
  | .column r _ => some (.binary .eq r (.bool true))
  | _ => none

/-- The filters that convert, combined with `AND`. -/
def convertFiltersToPredicateFor (filters : List Expr) (schema : Option Schema) :
    Option Predicate :=
  match filters.filterMap (convertFilterToPredicate schema) with
  | [] => none
  | p :: ps => some (ps.foldl .and p)

end Sqe.Catalog.ExprToPredicate
