/- GID: Sqe/Catalog/PhysicalToPredicate
   generality: G
   digest: Runtime filters as Iceberg predicates, and the collapse of partitioned memberships. -/

import Mathlib.Algebra.Order.Ring.Nat
import Mathlib.Algebra.Order.SuccPred
import Mathlib.Data.List.Sort
import Mathlib.Data.Nat.SuccPred
import Sqe.Iceberg.Predicate

/-!
The converters of `physical_to_predicate.rs`. A column is read by its name: the index of a physical
column and its name denote the same column of the scan.
-/

set_option autoImplicit false

namespace Sqe.Catalog.RuntimeFilter

open Sqe.DataFusion Sqe.Iceberg Sqe.Library.Kleene

/-- `PhysicalExpr`, with the nodes the converters look for. The expression of a dynamic filter is
the one its `current()` returns, if it returns one. -/
inductive PhysicalExpr
  | dynamicFilter (current : Option PhysicalExpr)
  | binary (left : PhysicalExpr) (op : Operator) (right : PhysicalExpr)
  | inList (expr : PhysicalExpr) (list : List PhysicalExpr) (negated : Bool)
  | case (expr : Option PhysicalExpr) (whenThen : List (PhysicalExpr × PhysicalExpr))
      (elseExpr : Option PhysicalExpr)
  | isNull (arg : PhysicalExpr)
  | isNotNull (arg : PhysicalExpr)
  | column (name : String) (index : Nat)
  | literal (value : ScalarValue)
  | other (kind : String) (args : List PhysicalExpr)

namespace PhysicalExpr

mutual

def same : PhysicalExpr → PhysicalExpr → Bool
  | .dynamicFilter c, .dynamicFilter c' => sameOption c c'
  | .binary l op r, .binary l' op' r' => same l l' && op == op' && same r r'
  | .inList e es n, .inList e' es' n' => same e e' && sameList es es' && n == n'
  | .case b wt els, .case b' wt' els' =>
    sameOption b b' && sameWhens wt wt' && sameOption els els'
  | .isNull e, .isNull e' => same e e'
  | .isNotNull e, .isNotNull e' => same e e'
  | .column name index, .column name' index' => name == name' && index == index'
  | .literal v, .literal v' => v == v'
  | .other kind args, .other kind' args' => kind == kind' && sameList args args'
  | _, _ => false

def sameOption : Option PhysicalExpr → Option PhysicalExpr → Bool
  | none, none => true
  | some e, some e' => same e e'
  | _, _ => false

def sameList : List PhysicalExpr → List PhysicalExpr → Bool
  | [], [] => true
  | e :: es, e' :: es' => same e e' && sameList es es'
  | _, _ => false

def sameWhens : List (PhysicalExpr × PhysicalExpr) → List (PhysicalExpr × PhysicalExpr) → Bool
  | [], [] => true
  | (w, t) :: rest, (w', t') :: rest' => same w w' && same t t' && sameWhens rest rest'
  | _, _ => false

end

end PhysicalExpr

/-- What the kernels compute: every binary operator except `AND` and `OR`, and the nodes the
converters do not look into. -/
structure Kernels where
  binary : Operator → ScalarValue → ScalarValue → Option ScalarValue
  other : String → List ScalarValue → Option ScalarValue

mutual

/-- The value of an expression on one row. An expression that fails on the row has none, which
counts as unknown in a condition. -/
def eval (k : Kernels) (row : String → ScalarValue) : PhysicalExpr → Option ScalarValue
  | .dynamicFilter current => evalOption k row current
  | .binary l .and r =>
    truthValue (and3 ((eval k row l).bind ScalarValue.truth)
      ((eval k row r).bind ScalarValue.truth))
  | .binary l .or r =>
    truthValue (or3 ((eval k row l).bind ScalarValue.truth) ((eval k row r).bind ScalarValue.truth))
  | .binary l op r => do
    let a ← eval k row l
    let b ← eval k row r
    k.binary op a b
  | .inList e list negated =>
    truthValue (negateIf negated (evalMember k row (eval k row e) list))
  | .case base whenThen elseExpr =>
    evalWhens k row (base.isSome) (evalOption k row base) whenThen (evalElse k row elseExpr)
  | .isNull e => do
    let v ← eval k row e
    truthValue (some v.isNull)
  | .isNotNull e => do
    let v ← eval k row e
    truthValue (some !v.isNull)
  | .column name _ => some (row name)
  | .literal v => some v
  | .other kind args => do
    let vs ← evalList k row args
    k.other kind vs

def evalOption (k : Kernels) (row : String → ScalarValue) : Option PhysicalExpr → Option ScalarValue
  | none => none
  | some e => eval k row e

/-- A row that no arm takes and that has no `ELSE` is NULL. -/
def evalElse (k : Kernels) (row : String → ScalarValue) : Option PhysicalExpr → Option ScalarValue
  | none => some .null
  | some e => eval k row e

def evalList (k : Kernels) (row : String → ScalarValue) :
    List PhysicalExpr → Option (List ScalarValue)
  | [] => some []
  | e :: es => do
    let v ← eval k row e
    let vs ← evalList k row es
    return v :: vs

/-- The disjunction of the equalities with the items. -/
def evalMember (k : Kernels) (row : String → ScalarValue) (value : Option ScalarValue) :
    List PhysicalExpr → Option Bool
  | [] => some false
  | e :: es =>
    let hit := do
      let v ← value
      let w ← eval k row e
      k.binary .eq v w
    or3 (hit.bind ScalarValue.truth) (evalMember k row value es)

/-- The value of the first arm whose condition holds: it is TRUE, or equal to the base. -/
def evalWhens (k : Kernels) (row : String → ScalarValue) (based : Bool)
    (base : Option ScalarValue) : List (PhysicalExpr × PhysicalExpr) → Option ScalarValue →
    Option ScalarValue
  | [], fallthrough => fallthrough
  | (w, t) :: rest, fallthrough =>
    let condition := if based then do
        let b ← base
        let v ← eval k row w
        k.binary .eq b v
      else eval k row w
    if condition.bind ScalarValue.truth = some true then eval k row t
    else evalWhens k row based base rest fallthrough

end

def Holds (k : Kernels) (row : String → ScalarValue) (e : PhysicalExpr) : Prop :=
  (eval k row e).bind ScalarValue.truth = some true

instance (k : Kernels) (row : String → ScalarValue) (e : PhysicalExpr) :
    Decidable (Holds k row e) :=
  inferInstanceAs (Decidable (_ = _))

def extractColumn : PhysicalExpr → Option String
  | .column name _ => some name
  | _ => none

def extractLiteral : PhysicalExpr → Option ScalarValue
  | .literal value => some value
  | _ => none

def isLiteralTrue (e : PhysicalExpr) : Bool := extractLiteral e == some (.boolean (some true))

def isLiteralFalse (e : PhysicalExpr) : Bool := extractLiteral e == some (.boolean (some false))

def flipOp : Operator → Operator
  | .lt => .gt
  | .ltEq => .gtEq
  | .gt => .lt
  | .gtEq => .ltEq
  | op => op

def scalarToDatum : ScalarValue → Option Datum
  | .boolean (some v) => some (.bool v)
  | .int32 (some v) => some (.int v)
  | .int64 (some v) => some (.long v)
  | .float32 (some bits) => some (.float bits)
  | .float64 (some bits) => some (.double bits)
  | .utf8 (some s) | .largeUtf8 (some s) | .utf8View (some s) => some (.string s)
  | .date32 (some d) => some (.date d)
  | _ => none

def isFloatLiteral : ScalarValue → Bool
  | .float32 _ | .float64 _ => true
  | _ => false

def isRange : Operator → Bool
  | .lt | .ltEq | .gt | .gtEq => true
  | _ => false

/-- The column, the literal and the operator, with the column on the left. -/
def normalizeComparison (left : PhysicalExpr) (op : Operator) (right : PhysicalExpr) :
    Option (String × ScalarValue × Operator) :=
  match extractColumn left, extractLiteral right with
  | some col, some lit => some (col, lit, op)
  | _, _ =>
    match extractColumn right, extractLiteral left with
    | some col, some lit => some (col, lit, flipOp op)
    | _, _ => none

def comparisonPredicate (op : Operator) (reference : String) (datum : Datum) : Option Predicate :=
  match op with
  | .eq => some (.binary .eq reference datum)
  | .notEq => some (.binary .notEq reference datum)
  | .lt => some (.binary .lessThan reference datum)
  | .ltEq => some (.binary .lessThanOrEq reference datum)
  | .gt => some (.binary .greaterThan reference datum)
  | .gtEq => some (.binary .greaterThanOrEq reference datum)
  | _ => none

def convertComparison (left : PhysicalExpr) (op : Operator) (right : PhysicalExpr) :
    Option Predicate := do
  let (colName, literal, op) ← normalizeComparison left op right
  -- Parquet's bounds skip NaN, which the comparisons order.
  if isFloatLiteral literal && isRange op then none
  else
    let datum ← scalarToDatum literal
    comparisonPredicate op colName datum

/-- The datums of a list of literals, if every item has one. -/
def literalDatums (list : List PhysicalExpr) : Option (List Datum) :=
  list.mapM fun item => do
    let lit ← extractLiteral item
    scalarToDatum lit

def convertInList (expr : PhysicalExpr) (list : List PhysicalExpr) (negated : Bool) :
    Option Predicate :=
  if negated then none
  else do
    let colName ← extractColumn expr
    if list.isEmpty then some .alwaysFalse
    else
      let datums ← literalDatums list
      if datums.isEmpty then none else some (.set .isIn colName datums)

abbrev MembershipSets := List (String × List Datum)

/-- `entry(col).or_default().extend(datums)`. -/
def MembershipSets.extend (out : MembershipSets) (col : String) (datums : List Datum) :
    MembershipSets :=
  match out with
  | [] => [(col, datums)]
  | (name, known) :: rest =>
    if name = col then (name, known ++ datums) :: rest
    else (name, known) :: MembershipSets.extend rest col datums

def smallestMembershipLen : PhysicalExpr → Option Nat
  | .binary l .and r =>
    match smallestMembershipLen l, smallestMembershipLen r with
    | some a, some b => some (min a b)
    | a, b => a.or b
  | .binary _ .eq _ => some 1
  | .inList _ list false => some list.length
  | _ => none

def collectMembershipSets (out : MembershipSets) : PhysicalExpr → MembershipSets
  | .binary l .and r => collectMembershipSets (collectMembershipSets out l) r
  | .binary l .eq r =>
    match normalizeComparison l .eq r with
    | some (col, lit, _) =>
      match scalarToDatum lit with
      | some datum => out.extend col [datum]
      | none => out
    | none => out
  | .inList e list false =>
    match extractColumn e, literalDatums list with
    | some col, some datums => out.extend col datums
    | _, _ => out
  | _ => out

/-- The sets of the arms that admit rows, `none` if an arm is not bounded by any. -/
def armSets : List (PhysicalExpr × PhysicalExpr) → Option (List MembershipSets)
  | [] => some []
  | (_, then_) :: rest =>
    if isLiteralFalse then_ then armSets rest
    else
      let sets := collectMembershipSets [] then_
      if sets.isEmpty then none else (armSets rest).map (sets :: ·)

def commonColumns : List MembershipSets → List String
  | [] => []
  | first :: rest =>
    ((first.map Prod.fst).filter fun col =>
      (first :: rest).all fun arm => (arm.lookup col).isSome).insertionSort (· ≤ ·)

/-- The union of the arms' sets of one column, `none` as soon as it exceeds the cap. -/
def unionUpTo (maxSetValues : Nat) (col : String) : List Datum → List MembershipSets →
    Option (List Datum)
  | union, [] => some union
  | union, arm :: arms =>
    let union := union ++ (arm.lookup col).getD []
    if maxSetValues < union.length then none else unionUpTo maxSetValues col union arms

def membershipPredicate (col : String) (union : List Datum) : Predicate :=
  if union.isEmpty then .alwaysFalse else .set .isIn col union

def convertCase (maxSetValues : Nat) (whenThen : List (PhysicalExpr × PhysicalExpr))
    (elseExpr : Option PhysicalExpr) : Option Predicate :=
  if elseExpr.any (fun e => !isLiteralFalse e) then none
  else
    let lowerBound := (((whenThen.filter fun arm => !isLiteralFalse arm.2).map fun arm =>
      (smallestMembershipLen arm.2).getD 0)).sum
    if maxSetValues < lowerBound then none
    else do
      let arms ← armSets whenThen
      if arms.isEmpty then some .alwaysFalse
      else
        let memberships := (commonColumns arms).filterMap fun col =>
          (unionUpTo maxSetValues col [] arms).map (membershipPredicate col)
        match memberships with
        | [] => none
        | p :: ps => some (ps.foldl Predicate.mkAnd p)

def convertPhysical (maxSetValues : Nat) : PhysicalExpr → Option Predicate
  | .dynamicFilter none => none
  | .dynamicFilter (some inner) =>
    if isLiteralTrue inner then none else convertPhysical maxSetValues inner
  | .binary l .and r =>
    match convertPhysical maxSetValues l, convertPhysical maxSetValues r with
    | some p, some q => some (p.mkAnd q)
    | some p, none => some p
    | none, some q => some q
    | none, none => none
  | .binary l .or r => do
    let p ← convertPhysical maxSetValues l
    let q ← convertPhysical maxSetValues r
    return p.mkOr q
  | .binary l op r => convertComparison l op r
  | .inList e list negated => convertInList e list negated
  | .case _ whenThen elseExpr => convertCase maxSetValues whenThen elseExpr
  | .isNull e => (extractColumn e).map (.unary .isNull)
  | .isNotNull e => (extractColumn e).map (.unary .notNull)
  | _ => none

def convertPhysicalFiltersToPredicateCapped (filters : List PhysicalExpr) (maxSetValues : Nat) :
    Option Predicate :=
  match filters.filterMap (convertPhysical maxSetValues) with
  | [] => none
  | p :: ps => some (ps.foldl Predicate.mkAnd p)

/-- The positive `IN` list among the conjuncts of an arm. -/
def findMembershipConjunct : PhysicalExpr → Option (PhysicalExpr × List PhysicalExpr)
  | .inList e list negated => if negated then none else some (e, list)
  | .binary l .and r => (findMembershipConjunct l).or (findMembershipConjunct r)
  | _ => none

/-- The key of the arms so far and the values of their lists, `none` when an arm does not fit. -/
def collectArms : Option PhysicalExpr → List ScalarValue → List (PhysicalExpr × PhysicalExpr) →
    Option (Option PhysicalExpr × List ScalarValue)
  | key, values, [] => some (key, values)
  | key, values, (_, then_) :: rest =>
    if isLiteralFalse then_ then collectArms key values rest
    else do
      let (e, list) ← findMembershipConjunct then_
      match key with
      | none =>
        let items ← list.mapM extractLiteral
        collectArms (some e) (values ++ items) rest
      | some k =>
        if k.same e then
          let items ← list.mapM extractLiteral
          collectArms (some k) (values ++ items) rest
        else none

/-- `ScalarValue::iter_to_array`: there are values, all of one type. -/
def iterToArray (values : List ScalarValue) : Option (List ScalarValue) :=
  match values with
  | [] => none
  | v :: rest => if rest.all fun w => w.dataType == v.dataType then some (v :: rest) else none

section

-- Whether `InListExpr::try_new_from_array` takes the key and the values under the schema.
variable (accepts : PhysicalExpr → List ScalarValue → Bool)

def collapseCase (base : Option PhysicalExpr) (whenThen : List (PhysicalExpr × PhysicalExpr))
    (elseExpr : Option PhysicalExpr) : Option PhysicalExpr :=
  if base.isNone || !elseExpr.any isLiteralFalse then none
  else
    match collectArms none [] whenThen with
    | none => none
    | some (none, _) => some (.literal (.boolean (some false)))
    | some (some key, values) => do
      let _ ← extractColumn key
      let array ← iterToArray values
      if accepts key array then some (.inList key (array.map .literal) false) else none

/-- The node is built again when a side changed, which is the same expression otherwise. -/
def collapsePartitionedMembership : PhysicalExpr → PhysicalExpr
  | .case base whenThen elseExpr =>
    (collapseCase accepts base whenThen elseExpr).getD (.case base whenThen elseExpr)
  | .binary l .and r =>
    .binary (collapsePartitionedMembership l) .and (collapsePartitionedMembership r)
  | .binary l .or r =>
    .binary (collapsePartitionedMembership l) .or (collapsePartitionedMembership r)
  | e => e

end

end Sqe.Catalog.RuntimeFilter
