/- GID: Sqe/Catalog/Hive/Projection
   generality: G
   digest: Partition projection: the values of each axis, their pruning, and the product. -/

import Sqe.Catalog.Hive.Prune

/-!
Athena partition projection materialises a virtual partition set from the table's properties.
An axis lists the values of one column, is pruned on its own, and multiplies into the product.
Arithmetic is that of the release build; a call that panics is an `Abort` of its own kind.
-/

set_option autoImplicit false

namespace Sqe.Catalog.Hive

open Sqe.DataFusion

abbrev I64 := { v : Int // i64Min ≤ v ∧ v ≤ i64Max }

inductive DateUnit
  | years | months | weeks | days | hours | minutes | seconds | millis
  deriving DecidableEq

/-- The bounds of a date axis are instants, in nanoseconds from the epoch. -/
inductive ProjectionKind
  | enum (values : List String)
  | integer (start stop interval : I64) (digits : Option Nat)
  | date (start stop : Int) (format : String) (interval : I64) (unit : DateUnit)
  | injected

structure ProjectedColumn where
  name : String
  kind : ProjectionKind

/-- The columns come out of a map keyed by name, so no name repeats. -/
structure ProjectionConfig where
  enabled : Bool
  columns : List ProjectedColumn
  names_nodup : (columns.map ProjectedColumn.name).Nodup

inductive HiveError
  | validation (message : String)
  deriving DecidableEq

/-- How a call ends without a result: with the error it returns, or with a panic. -/
inductive Abort
  | error (e : HiveError)
  | panicked (reason : String)
  deriving DecidableEq

def validation {α : Type} (message : String) : Except Abort α :=
  .error (.error (.validation message))

def saturatingAdd (a b : Int) : Int := max i64Min (min i64Max (a + b))

/-- `format!("{v:0width$}")`: zeros after the sign, up to the width. -/
def zeroPadded (width : Nat) (v : Int) : String :=
  let digits := toString v.natAbs
  if v < 0 then "-" ++ "".pushn '0' (width - 1 - digits.length) ++ digits
  else "".pushn '0' (width - digits.length) ++ digits

def renderInteger : Option Nat → Int → String
  | some width, v => zeroPadded width v
  | none, v => toString v

/-- The most values an axis lists: the loop stops once more than a million are out. -/
def axisCap : Nat := 1000001

def integerLoop (stop interval : Int) (digits : Option Nat) : Nat → Int → List String
  | 0, _ => []
  | n + 1, v =>
    if v ≤ stop then
      renderInteger digits v :: integerLoop stop interval digits n (saturatingAdd v interval)
    else []

def integerValues (start stop interval : I64) (digits : Option Nat) : Except Abort (List String) :=
  if interval.1 ≤ 0 then validation "integer projection interval must be positive"
  else .ok (integerLoop stop.1 interval.1 digits axisCap start.1)

def dayNanos : Int := 86400000000000

/-- The field a run of one pattern letter stands for. -/
def javaField (c : Char) (run : Nat) : String :=
  match c with
  | 'y' => if run = 2 then "%y" else "%Y"
  | 'M' => if run ≤ 2 then "%m" else if run = 3 then "%b" else "%B"
  | 'd' => "%d"
  | 'H' => "%H"
  | 'h' => "%I"
  | 'm' => "%M"
  | 's' => "%S"
  | 'S' => "%3f"
  | 'a' => "%p"
  | 'E' => "%a"
  | 'D' => "%j"
  | 'Z' | 'X' => "%z"
  | _ => ""

/-- What the translation of a pattern has emitted, whether it is inside quotes, and the run of
equal letters it is reading. -/
structure JavaScan where
  out : String
  quoted : Bool
  run : Option (Char × Nat)

def JavaScan.flush (s : JavaScan) : JavaScan :=
  match s.run with
  | none => s
  | some (c, n) => { s with out := s.out ++ javaField c n, run := none }

/-- A literal character, with `%` doubled. -/
def JavaScan.pushLiteral (s : JavaScan) (c : Char) : JavaScan :=
  { s with out := s.out ++ (if c = '%' then "%%" else String.singleton c) }

def JavaScan.step (s : JavaScan) (c : Char) : JavaScan :=
  let quote := Char.ofNat 39
  if s.quoted then
    if c = quote then { s with quoted := false } else s.pushLiteral c
  else if c = quote then { s.flush with quoted := true }
  else if c.isAlpha then
    match s.run with
    | some (d, n) => if c = d then { s with run := some (d, n + 1) }
        else { s.flush with run := some (c, 1) }
    | none => { s with run := some (c, 1) }
  else s.flush.pushLiteral c

def javaDateFormatToChrono (fmt : String) : String :=
  (fmt.toList.foldl JavaScan.step ⟨"", false, none⟩).flush.out

section

variable (chrono : Chrono)

/-- `NaiveDateTime::checked_add_signed`. -/
def Chrono.checkedAdd (instant nanos : Int) : Option Int :=
  let sum := instant + nanos
  if chrono.minDay * dayNanos ≤ sum ∧ sum < (chrono.maxDay + 1) * dayNanos then some sum else none

/-- Add `n` units of so many milliseconds. The constructors of `Duration` panic on a length
beyond `i64` milliseconds. -/
def addUnits (instant n unitMillis : Int) : Except Abort Int :=
  let millis := n * unitMillis
  if (millis.natAbs : Int) ≤ i64Max then
    match chrono.checkedAdd instant (millis * 1000000) with
    | some t => .ok t
    | none => validation "date projection overflow"
  else .error (.panicked "Duration out of bounds")

/-- The number of days of a month, 28 when chrono cannot name it. -/
def daysInMonth (year : Int) (month : Nat) : Nat :=
  let (ny, nm) := if month = 12 then (Int.bmod (year + 1) 4294967296, 1) else (year, month + 1)
  match chrono.fromYmdOpt ny nm 1, chrono.fromYmdOpt year month 1 with
  | some next, some this => ((next - this) % 4294967296).toNat
  | _, _ => 28

def addMonths (d months : Int) : Except Abort Int :=
  let (y, m, dayOfMonth) := chrono.ymd (d / dayNanos)
  let total := Int.bmod (y * 12 + ((m : Int) - 1) + months) 18446744073709551616
  let year := total / 12
  if -2147483648 ≤ year ∧ year < 2147483648 then
    let month := (total % 12).toNat + 1
    let day := min dayOfMonth (daysInMonth chrono year month)
    match chrono.fromYmdOpt year month day with
    | some date => .ok (date * dayNanos + d % dayNanos)
    | none => validation s!"invalid projected date {year}-{month}-{day}"
  else validation "date projection year overflow"

def step (t n : Int) : DateUnit → Except Abort Int
  | .years =>
    if i64Min ≤ n * 12 ∧ n * 12 ≤ i64Max then addMonths chrono t (n * 12)
    else validation "date projection overflow"
  | .months => addMonths chrono t n
  | .weeks => addUnits chrono t n 604800000
  | .days => addUnits chrono t n 86400000
  | .hours => addUnits chrono t n 3600000
  | .minutes => addUnits chrono t n 60000
  | .seconds => addUnits chrono t n 1000
  | .millis => addUnits chrono t n 1

def dateLoop (chrono : Chrono) (stop : Int) (format : String) (interval : Int)
    (unit : DateUnit) : Nat → Int → Except Abort (List String)
  | 0, _ => .ok []
  | n + 1, cur =>
    if cur ≤ stop then
      match chrono.format format cur with
      | none => .error (.panicked "a Display implementation returned an error")
      | some s => do
        let next ← step chrono cur interval unit
        let rest ← dateLoop chrono stop format interval unit n next
        return s :: rest
    else .ok []

def dateValues (start stop : Int) (format : String) (interval : I64)
    (unit : DateUnit) : Except Abort (List String) :=
  if interval.1 ≤ 0 then validation "date projection interval must be positive"
  else dateLoop chrono stop (javaDateFormatToChrono format) interval.1 unit axisCap start

def scalarAsString : ScalarValue → Option String
  | .utf8 v | .largeUtf8 v | .utf8View v => v
  | .int8 v | .int16 v | .int32 v | .int64 v => v.map toString
  | .uint8 v | .uint16 v | .uint32 v | .uint64 v => v.map toString
  | .date32 (some d) => (chrono.dateOfDays d).map chrono.formatDate
  | _ => none

def collectInjectedLiterals (chrono : Chrono) (col : String) : Expr → List String
  | .binaryExpr (.column c) .eq (.literal sv) | .binaryExpr (.literal sv) .eq (.column c) =>
    if c.name = col then (scalarAsString chrono sv).toList else []
  | .inList (.column c) items negated =>
    if c.name = col ∧ negated = false then
      items.filterMap fun
        | .literal sv => scalarAsString chrono sv
        | _ => none
    else []
  | .binaryExpr l .and r | .binaryExpr l .or r =>
    collectInjectedLiterals chrono col l ++ collectInjectedLiterals chrono col r
  | _ => []

def injectedValues (col : String) (filters : List Expr) : List String :=
  let found := filters.flatMap (collectInjectedLiterals chrono col)
  if found.isEmpty then [hiveDefaultPartition]
  else (found.mergeSort fun a b => decide (a ≤ b)).dedup

def axisProbe (name value : String) : PartitionIndexEntry :=
  { values := ValueMap.empty.insert name value, location := "", fileCount := 0, totalBytes := 0 }

/-- `prune_axis`: the values of one column that the filters can still admit. -/
def pruneAxis (name : String) (values : List String) (filters : List Expr)
    (types : List (String × String)) : List String :=
  if filters.isEmpty || values.isEmpty then values
  else (pruneEntries chrono (values.map (axisProbe name)) filters types).filterMap
    (·.values name)

def axisValues (filters : List Expr) (col : ProjectedColumn) : Except Abort (List String) :=
  match col.kind with
  | .enum values => .ok values
  | .integer start stop interval digits => integerValues start stop interval digits
  | .date start stop format interval unit => dateValues chrono start stop format interval unit
  | .injected => .ok (injectedValues chrono col.name filters)

/-- One round of the product: every combination so far with every value of the axis. Giving up
as soon as too many are out and giving up on the finished round are the same error. -/
def extendCombos (maxEntries : Nat) (combos : List ValueMap) (axis : String × List String) :
    Except Abort (List ValueMap) :=
  let next := combos.flatMap fun row => axis.2.map fun v => row.insert axis.1 v
  if maxEntries < next.length then
    validation (s!"partition projection produced more than {maxEntries} partitions. Raise " ++
      "[hive] manifest_max_partition_index_entries if the table genuinely has this many.")
  else .ok next

variable (config : ProjectionConfig) (tableLocation : String)

/-- `<location>/<key>=<value>/...`. -/
def partitionLocation (values : ValueMap) : String :=
  let base := if tableLocation.endsWith "/" then tableLocation else tableLocation ++ "/"
  config.columns.foldl
    (fun location col =>
      location ++ col.name ++ "=" ++ (values col.name).getD hiveDefaultPartition ++ "/")
    base

def projectedEntry (values : ValueMap) : PartitionIndexEntry :=
  { values, location := partitionLocation config tableLocation values, fileCount := 0
    totalBytes := 0 }

def evaluateProjection (filters : List Expr) (types : List (String × String)) (maxEntries : Nat) :
    Except Abort (List PartitionIndexEntry) :=
  if config.enabled then do
    let axes ← config.columns.mapM fun col => do
      let values ← axisValues chrono filters col
      return (col.name, pruneAxis chrono col.name values filters types)
    let combos ← axes.foldlM (extendCombos maxEntries) [ValueMap.empty]
    return combos.map (projectedEntry config tableLocation)
  else .ok []

end

end Sqe.Catalog.Hive
