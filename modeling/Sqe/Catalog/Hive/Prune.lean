/- GID: Sqe/Catalog/Hive/Prune
   generality: G
   digest: The three-valued pruner of partition index entries and the NULL-sentinel rewrite. -/

import Sqe.Catalog.Hive.Manifest

set_option autoImplicit false

namespace Sqe.Catalog.Hive

open Sqe.DataFusion Sqe.Library.Kleene

def scalarI64 : ScalarValue → Option Int
  | .int8 v | .int16 v | .int32 v | .int64 v => v
  | .uint8 v | .uint16 v | .uint32 v => v.map Int.ofNat
  | .uint64 v => (v.map Int.ofNat).filter fun n => n ≤ i64Max
  | .utf8 (some s) | .largeUtf8 (some s) => parseI64 s
  | _ => none

def scalarDate (chrono : Chrono) : ScalarValue → Option Int
  | .date32 (some d) => chrono.dateOfDays d
  | .utf8 (some s) | .largeUtf8 (some s) => chrono.parseDate s
  | _ => none

def scalarUtf8 : ScalarValue → Option String
  | .utf8 v | .largeUtf8 v | .utf8View v => v
  | _ => none

/-- How the pruner reads a declared type: as an integer, a date, or else as text. -/
inductive TypeFamily
  | integer | date | text
  deriving DecidableEq

def typeFamily (sqlType : String) : TypeFamily :=
  match sqlBase sqlType with
  | "tinyint" | "smallint" | "int" | "integer" | "bigint" => .integer
  | "date" => .date
  | _ => .text

/-- `compare_raw`: a raw value against a literal, as the declared type orders them; `none` when
either does not read as that type. -/
def compareRaw (chrono : Chrono) (raw : String) (lit : ScalarValue) (sqlType : String) :
    Option Ordering :=
  match typeFamily sqlType with
  | .integer => do
    let left ← parseI64 raw
    let right ← scalarI64 lit
    return compare left right
  | .date => do
    let left ← chrono.parseDate raw
    let right ← scalarDate chrono lit
    return compare left right
  | .text => do
    let right ← scalarUtf8 lit
    return compare raw right

/-- `type_of`: the declared type of a partition column, `string` for any other column. -/
def typeOf (col : String) (types : List (String × String)) : String :=
  ((types.find? (·.1 = col)).map Prod.snd).getD "string"

section

variable (chrono : Chrono) (entry : PartitionIndexEntry)

def cmpColLit (col : String) (lit : ScalarValue)
    (op : Operator) (types : List (String × String)) : Option Bool := do
  let raw ← entry.values col
  if raw = hiveDefaultPartition then
    match lit with
    | .utf8 (some s) | .largeUtf8 (some s) =>
      if s = hiveDefaultPartition then some (op == .eq) else some false
    | _ => some false
  else do
    let ord ← compareRaw chrono raw lit (typeOf col types)
    let test ← op.test
    return test ord

/-- The operator that compares the same two operands in the other order. -/
def flipped : Operator → Operator
  | .lt => .gt
  | .ltEq => .gtEq
  | .gt => .lt
  | .gtEq => .ltEq
  | other => other

def cmpEntry (left right : Expr) (op : Operator) (types : List (String × String)) : Option Bool :=
  match left, right with
  | .column c, .literal sv => cmpColLit chrono entry c.name sv op types
  | .literal sv, .column c => cmpColLit chrono entry c.name sv (flipped op) types
  | _, _ => none

/-- The loop over the items of an `IN` list: whether one equals the raw value, and whether
every comparison was possible. -/
def scanItems (chrono : Chrono) (raw sqlType : String) : List Expr → Bool × Bool
  | [] => (false, true)
  | item :: items =>
    let (any, allKnown) := scanItems chrono raw sqlType items
    match item with
    | .literal sv =>
      match compareRaw chrono raw sv sqlType with
      | some .eq => (true, allKnown)
      | some _ => (any, allKnown)
      | none => (any, false)
    | _ => (any, false)

/-- `prune::eval`: what the entry's values say about a filter, `none` when they do not decide
it. -/
def evalEntry (chrono : Chrono) (entry : PartitionIndexEntry) (types : List (String × String)) :
    Expr → Option Bool
  | .binaryExpr l .and r =>
    and3 (evalEntry chrono entry types l) (evalEntry chrono entry types r)
  | .binaryExpr l .or r =>
    or3 (evalEntry chrono entry types l) (evalEntry chrono entry types r)
  | .binaryExpr l op r => if op.test.isSome then cmpEntry chrono entry l r op types else none
  | .inList (.column c) items negated => do
    let raw ← entry.values c.name
    let (any, allKnown) := scanItems chrono raw (typeOf c.name types) items
    if negated then
      if any then some false else if allKnown then some true else none
    else if any then some true
    else if allKnown then some false
    else none
  | .isNull (.column c) => some (entry.values c.name == some hiveDefaultPartition)
  | .isNotNull (.column c) => some (entry.values c.name != some hiveDefaultPartition)
  | _ => none

def matchesOrUnknown (expr : Expr) (types : List (String × String)) : Bool :=
  (evalEntry chrono entry types expr).getD true

end

def pruneEntries (chrono : Chrono) (entries : List PartitionIndexEntry) (filters : List Expr)
    (types : List (String × String)) : List PartitionIndexEntry :=
  if filters.isEmpty then entries
  else entries.filter fun e => filters.all fun f => matchesOrUnknown chrono e f types

theorem mem_pruneEntries {chrono : Chrono} {entries : List PartitionIndexEntry}
    {filters : List Expr} {types : List (String × String)} {entry : PartitionIndexEntry} :
    entry ∈ pruneEntries chrono entries filters types ↔
      entry ∈ entries ∧ ∀ f ∈ filters, evalEntry chrono entry types f ≠ some false := by
  have kept (f : Expr) :
      matchesOrUnknown chrono entry f types = true ↔
        evalEntry chrono entry types f ≠ some false := by
    unfold matchesOrUnknown
    rcases evalEntry chrono entry types f with _ | _ | _ <;> simp
  unfold pruneEntries
  split
  · simp_all
  · simp [kept]

/-- `rewrite_default_partition_node`: a NULL test of a partition column becomes a comparison
with the sentinel. -/
def rewriteDefaultPartitionNode (partitionCols : List String) : Expr → Expr
  | .isNull (.column c) =>
    if c.name ∈ partitionCols then
      .binaryExpr (.column c) .eq (.literal (.utf8 (some hiveDefaultPartition)))
    else .isNull (.column c)
  | .isNotNull (.column c) =>
    if c.name ∈ partitionCols then
      .binaryExpr (.column c) .notEq (.literal (.utf8 (some hiveDefaultPartition)))
    else .isNotNull (.column c)
  | other => other

def normalizeDefaultPartitionFilters (filters : List Expr) (partitionCols : List String) :
    List Expr :=
  filters.map (Expr.transform (rewriteDefaultPartitionNode partitionCols))

end Sqe.Catalog.Hive
