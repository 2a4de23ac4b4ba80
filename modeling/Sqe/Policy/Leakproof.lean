/- GID: Sqe/Policy/Leakproof
   generality: G
   digest: Which caller expressions are safe to evaluate on rows a row filter hides. -/

import Sqe.Policy.Widening

set_option autoImplicit false

namespace Sqe.Policy.Leakproof

open Sqe.DataFusion

/-- What typing says about expressions over one schema: `ExprSchemable::get_type`, the type of
the first field of a subquery, and `comparison_coercion`. -/
structure Typing where
  getType : Expr → Option DataType
  subqueryType : Nat → Option DataType
  comparisonCoercion : DataType → DataType → Option DataType

/-- Whether the node reads a value of a row, directly or through a subquery. -/
def readsRow : Expr → Bool
  | .column _ | .outerReferenceColumn _ | .scalarSubquery _ | .exists .. | .inSubquery ..
  | .setComparison .. => true
  | _ => false

def readsRows (e : Expr) : Bool := e.subexprs.any readsRow

def isComparison : Operator → Bool
  | .eq | .notEq | .lt | .ltEq | .gt | .gtEq | .isDistinctFrom | .isNotDistinctFrom => true
  | _ => false

namespace Typing

variable (typing : Typing)

def commonType : List DataType → Option DataType
  | [] => none
  | first :: rest => rest.foldlM typing.comparisonCoercion first

/-- Type coercion brings the expressions to a common type without a cast that can fail on a
value read from a row. A constant may be cast arbitrarily. -/
def coercesLosslessly (exprs : List Expr) : Bool :=
  match exprs.mapM typing.getType with
  | none => false
  | some types => match typing.commonType types with
      | none => false
      | some common => (exprs.zip types).all fun (e, t) => !readsRows e || widens t common

/-- Every one of the types, all read from rows, widens to their common comparison type. -/
def coerceWidens (types : List DataType) : Bool :=
  (typing.commonType types).any fun common => types.all fun t => widens t common

mutual

/-- Evaluating the expression can raise an error that depends on a row's values. -/
def isFallible (e : Expr) : Bool :=
  readsRows e && match e with
  | .column _ | .outerReferenceColumn _ => false
  | .alias e _ _ => isFallible e
  | .not e | .is _ e => isFallible e
  | .binaryExpr l op r => match op with
      | .and | .or => isFallible l || isFallible r
      | .eq | .notEq | .lt | .ltEq | .gt | .gtEq | .isDistinctFrom | .isNotDistinctFrom =>
        isFallible l || isFallible r || !typing.coercesLosslessly [l, r]
      | _ => true
  | .inList e list _ =>
    isFallible e || anyFallible list || !typing.coercesLosslessly (e :: list)
  | .between e _ low high =>
    isFallible e || isFallible low || isFallible high ||
      !typing.coercesLosslessly [e, low, high]
  -- A constant pattern can only fail independently of the data.
  | .like _ e pattern _ _ =>
    isFallible e || readsRows pattern || !(typing.getType e).any isString
  | .case base whenThen els =>
    let whens := whenThen.map Prod.fst
    let values := whenThen.map Prod.snd ++ els.toList
    (match base with
      | some b =>
        isFallible b || anyFallibleWhen whenThen || !typing.coercesLosslessly (b :: whens)
      | none => anyFallibleWhen whenThen) ||
      (anyFallibleThen whenThen || optionFallible els) || !typing.coercesLosslessly values
  | .tryCast e _ => isFallible e
  | .cast e target => isFallible e || !(typing.getType e).any fun source => widens source target
  | .groupingSet exprs => anyFallible exprs
  -- The subquery body is walked as a plan of its own, so only the outer side counts here.
  | .exists .. => false
  | .inSubquery e q _ => isFallible e || !(match typing.getType e, typing.subqueryType q with
      | some outer, some inner => typing.coerceWidens [outer, inner]
      | _, _ => false)
  | _ => true

def anyFallible : List Expr → Bool
  | [] => false
  | e :: es => isFallible e || anyFallible es

def optionFallible : Option Expr → Bool
  | none => false
  | some e => isFallible e

def anyFallibleWhen : List (Expr × Expr) → Bool
  | [] => false
  | (w, _) :: rest => isFallible w || anyFallibleWhen rest

def anyFallibleThen : List (Expr × Expr) → Bool
  | [] => false
  | (_, t) :: rest => isFallible t || anyFallibleThen rest

end

end Typing

end Sqe.Policy.Leakproof
