/- GID: Sqe/DataFusion/Eval
   generality: G
   digest: Row-wise evaluation of expressions: three-valued logic, lazy CASE branches, errors. -/

import Sqe.DataFusion.Expr
import Sqe.Library.Kleene

set_option autoImplicit false

namespace Sqe.DataFusion

open Sqe.Library.Kleene

/-- The scalar kernels an evaluation calls. `none` is a raised error. `coerce` is what type
coercion does to one operand at a node with the given operand expressions, `coerceIn` the same
between an expression and the column of a subquery. -/
structure Kernels where
  /-- Every binary operator except `AND` and `OR`. -/
  binary : Operator → ScalarValue → ScalarValue → Option ScalarValue
  /-- `LIKE` on a value and a pattern, with the escape and the case flag of the node. -/
  like : Option Char → Bool → ScalarValue → ScalarValue → Option ScalarValue
  cast : ScalarValue → DataType → Option ScalarValue
  function : ScalarUdf → List ScalarValue → Option ScalarValue
  other : String → List ScalarValue → Option ScalarValue
  coerce : List Expr → ScalarValue → Option ScalarValue
  coerceIn : Expr → Nat → ScalarValue → Option ScalarValue

/-- What evaluation reads for one row: the row's columns, the columns of the enclosing row, the
first column of each subquery's result (`none` when evaluating it fails), and whether a right
operand is skipped when the left one already decides an `AND` or `OR`. -/
structure RowEnv where
  column : Column → ScalarValue
  outer : Column → ScalarValue
  subquery : Nat → Option (List ScalarValue)
  skip : Expr → Bool

abbrev truthValue (t : Option Bool) : Option ScalarValue := some (.boolean t)

def IsTest.holds : IsTest → ScalarValue → Bool
  | .null, v => v.isNull
  | .notNull, v => !v.isNull
  | .true, v => v.truth == some Bool.true
  | .false, v => v.truth == some Bool.false
  | .unknown, v => v.truth == none
  | .notTrue, v => v.truth != some Bool.true
  | .notFalse, v => v.truth != some Bool.false
  | .notUnknown, v => v.truth != none

/-- The truth value, negated when the node carries `NOT`. -/
def negateIf (negated : Bool) (t : Option Bool) : Option Bool := if negated then not3 t else t

/-- `v IN (ws)`: the disjunction of the equalities, with an error in any of them raised. -/
def memberOf (k : Kernels) (v : ScalarValue) : List ScalarValue → Option (Option Bool)
  | [] => some (some false)
  | w :: ws => do
    let hit ← k.binary .eq v w
    let rest ← memberOf k v ws
    return or3 hit.truth rest

mutual

def eval (k : Kernels) (env : RowEnv) : Expr → Option ScalarValue
  | .alias e _ _ => eval k env e
  | .column c => some (env.column c)
  | .outerReferenceColumn c => some (env.outer c)
  | .literal v => some v
  | .binaryExpr l .and r => do
    let a ← eval k env l
    -- The left operand decides the result; the engine may or may not look at the right one.
    if a.truth = some false ∧ env.skip r = true then
      truthValue (some false)
    else do
      let b ← eval k env r
      truthValue (and3 a.truth b.truth)
  | .binaryExpr l .or r => do
    let a ← eval k env l
    if a.truth = some true ∧ env.skip r = true then
      truthValue (some true)
    else do
      let b ← eval k env r
      truthValue (or3 a.truth b.truth)
  | .binaryExpr l op r => do
    let a ← eval k env l
    let b ← eval k env r
    let a' ← k.coerce [l, r] a
    let b' ← k.coerce [l, r] b
    k.binary op a' b'
  | .not e => do
    let v ← eval k env e
    truthValue (not3 v.truth)
  | .is t e => do
    let v ← eval k env e
    truthValue (some (t.holds v))
  | .like n e p x ci => do
    let v ← eval k env e
    let w ← eval k env p
    let hit ← k.like x ci v w
    truthValue (negateIf n hit.truth)
  | .between e n lo hi => do
    let v ← eval k env e
    let a ← eval k env lo
    let b ← eval k env hi
    let v' ← k.coerce [e, lo, hi] v
    let a' ← k.coerce [e, lo, hi] a
    let b' ← k.coerce [e, lo, hi] b
    let above ← k.binary .gtEq v' a'
    let below ← k.binary .ltEq v' b'
    truthValue (negateIf n (and3 above.truth below.truth))
  | .inList e l n => do
    let v ← eval k env e
    let ws ← evalList k env l
    let v' ← k.coerce (e :: l) v
    let ws' ← ws.mapM (k.coerce (e :: l))
    let hit ← memberOf k v' ws'
    truthValue (negateIf n hit)
  | .case b wt els => do
    let base ← evalOption k env b
    let values := wt.map Prod.snd ++ els.toList
    evalWhens k env (b.toList ++ wt.map Prod.fst) values base wt
      -- Only a row that no branch takes evaluates the ELSE expression.
      (match els with
        | none => some .null
        | some e => (eval k env e).bind (k.coerce values))
  | .cast e t => do
    let v ← eval k env e
    k.cast v t
  | .tryCast e t => do
    let v ← eval k env e
    return (k.cast v t).getD (.nullOf t)
  | .scalarFunction f args => do
    let vs ← evalList k env args
    k.function f vs
  | .windowFunction f args ps => do
    let vs ← evalList k env args
    let ws ← evalList k env ps
    k.other f (vs ++ ws)
  | .groupingSet es => do
    let vs ← evalList k env es
    k.other "GROUPING SETS" vs
  | .exists q n => do
    let rows ← env.subquery q
    truthValue (some (rows.isEmpty == n))
  | .inSubquery e q n => do
    let v ← eval k env e
    let ws ← env.subquery q
    let v' ← k.coerceIn e q v
    let ws' ← ws.mapM (k.coerceIn e q)
    let hit ← memberOf k v' ws'
    truthValue (negateIf n hit)
  | .scalarSubquery q => do
    match ← env.subquery q with
    | [] => some .null
    | [v] => some v
    | _ => none
  | .setComparison e op all q => do
    let v ← eval k env e
    let ws ← env.subquery q
    let hits ← ws.mapM (k.binary op v)
    truthValue (if all then hits.foldl (fun t h => and3 t h.truth) (some true)
      else hits.foldl (fun t h => or3 t h.truth) (some false))
  | .other kind args => do
    let vs ← evalList k env args
    k.other kind vs

def evalList (k : Kernels) (env : RowEnv) : List Expr → Option (List ScalarValue)
  | [] => some []
  | e :: es => do
    let v ← eval k env e
    let vs ← evalList k env es
    return v :: vs

def evalOption (k : Kernels) (env : RowEnv) : Option Expr → Option (Option ScalarValue)
  | none => some none
  | some e => (eval k env e).map some

/-- The first branch whose condition holds; a later condition or value is not evaluated. -/
def evalWhens (k : Kernels) (env : RowEnv) (operands values : List Expr)
    (base : Option ScalarValue) : List (Expr × Expr) → Option ScalarValue → Option ScalarValue
  | [], fallthrough => fallthrough
  | (w, t) :: rest, fallthrough => do
    let c ← eval k env w
    let hit ← match base with
      | none => some c.truth
      | some b => do
        let b' ← k.coerce operands b
        let c' ← k.coerce operands c
        (k.binary .eq b' c').map ScalarValue.truth
    if hit = some true then do
      let v ← eval k env t
      k.coerce values v
    else evalWhens k env operands values base rest fallthrough

end

def Holds (k : Kernels) (env : RowEnv) (e : Expr) : Prop :=
  (eval k env e).bind ScalarValue.truth = some true

instance (k : Kernels) (env : RowEnv) (e : Expr) : Decidable (Holds k env e) :=
  inferInstanceAs (Decidable (_ = _))

end Sqe.DataFusion
