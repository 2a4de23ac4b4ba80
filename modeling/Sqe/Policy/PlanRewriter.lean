/- GID: Sqe/Policy/PlanRewriter
   generality: G
   digest: The rewriting of a caller's plan so that each scan shows the governed table. -/

import Sqe.Policy.Leakproof
import Sqe.Policy.Resolved

set_option autoImplicit false

namespace Sqe.Policy

open Sqe.DataFusion Sqe.Policy.Leakproof

/-- The rewriter: the resolved policies, and what it takes from DataFusion. `col` is the parsing
constructor of a column reference, which folds and splits an unquoted name. -/
structure PlanRewriter where
  ctx : PlanContext
  gov : Governance
  col : String → Column
  getType : DFSchema → Expr → Option DataType
  comparisonCoercion : DataType → DataType → Option DataType

namespace PlanRewriter

variable (rw : PlanRewriter)

/-- Typing over the schema of a node that holds the subqueries. -/
def typing (schema : DFSchema) (subqueries : List LogicalPlan) : Typing where
  getType := rw.getType schema
  subqueryType q :=
    subqueries[q]?.bind fun plan => (rw.ctx.schemaOf plan).head?.map PlanField.dataType
  comparisonCoercion := rw.comparisonCoercion

def unalias : Expr → Expr
  | .alias e _ _ => unalias e
  | e => e

/-- `DFSchema::join`, an error when two fields share a name. -/
def joinSchema (left right : DFSchema) : Option DFSchema :=
  if DFSchema.columns (left ++ right) |>.Nodup then some (left ++ right) else none

def nodeIsFallible : LogicalPlan → Bool
  | .filter predicate subqueries input =>
    (rw.typing (rw.ctx.schemaOf input) subqueries).isFallible predicate
  | .node (.join on filter) subqueries [left, right] =>
    match joinSchema (rw.ctx.schemaOf left) (rw.ctx.schemaOf right) with
    | none => true
    | some both =>
      (on.any fun (l, r) =>
        (rw.typing (rw.ctx.schemaOf left) subqueries).isFallible l ||
          (rw.typing (rw.ctx.schemaOf right) subqueries).isFallible r ||
          !(rw.typing both subqueries).coercesLosslessly [l, r]) ||
        filter.any fun f => (rw.typing both subqueries).isFallible f
  | .tableScan scan subqueries =>
    scan.filters.any fun f => (rw.typing scan.sourceSchema subqueries).isFallible f
  | .projection exprs subqueries input =>
    exprs.any fun e => (rw.typing (rw.ctx.schemaOf input) subqueries).isFallible e
  | .node (.aggregate groupExpr _) subqueries [input] =>
    groupExpr.any fun e => (rw.typing (rw.ctx.schemaOf input) subqueries).isFallible e
  | .node (.window windowExpr) subqueries [input] =>
    let typing := rw.typing (rw.ctx.schemaOf input) subqueries
    windowExpr.any fun e => match unalias e with
      | .windowFunction _ _ partitionBy => partitionBy.any fun p => typing.isFallible p
      | other => typing.isFallible other
  | _ => false

mutual

/-- Some expression that the optimizer can move below a row filter is fallible, in the plan or
in a subquery of it. -/
def planHasFalliblePredicate (plan : LogicalPlan) : Bool :=
  rw.nodeIsFallible plan || match plan with
  | .tableScan _ subqueries => anyHasFalliblePredicate subqueries
  | .filter _ subqueries input | .projection _ subqueries input =>
    anyHasFalliblePredicate subqueries || planHasFalliblePredicate input
  | .node _ subqueries inputs =>
    anyHasFalliblePredicate subqueries || anyHasFalliblePredicate inputs

def anyHasFalliblePredicate : List LogicalPlan → Bool
  | [] => false
  | p :: ps => planHasFalliblePredicate p || anyHasFalliblePredicate ps

end

/-- Add the index of a wanted column that the table has and the projection lacks. -/
def addWanted (source : SourceSchema) (indices : List Nat) (name : String) : List Nat :=
  match source.findIdx? fun field => field.1 == name with
  | none => indices
  | some i => if indices.contains i then indices else indices ++ [i]

def wantedNames (exprs : List Expr) : List String :=
  (exprs.flatMap fun f => f.columnRefs.map Column.name).eraseDups

/-- The scan with the columns its row filters read, and the columns to project back to; `none`
when nothing needs widening. -/
def widenScanForRowFilters (scan : TableScan) (rowFilters : List Expr) :
    Option (TableScan × List Expr) :=
  match scan.projection with
  | none => none
  | some projection =>
    if rowFilters.isEmpty then none
    else
      let widened := (wantedNames rowFilters).foldl (addWanted scan.source) projection
      if widened.length = projection.length then none
      else some ({ scan with projection := some widened },
        scan.projectedSchema.map fun f => .column f.column)

/-- `CASE WHEN <row filters> THEN col END` for every column, under its own name. -/
def guardExprs (guard : Expr) (schema : DFSchema) : List Expr :=
  schema.map fun f => .alias (.case none [(guard, .column f.column)] none) f.qualifier f.name

/-- A restricted column as a typed NULL, a masked one as its mask, any other as it is. -/
def maskExpr (policy : ResolvedPolicy) (f : PlanField) : Expr :=
  if policy.isRestricted rw.gov.toLowercase f.name then
    .alias (applyMask (rw.col f.name) f.dataType .nullify rw.gov.maskKey) f.qualifier f.name
  else match policy.maskFor rw.gov.toLowercase f.name with
    | some mask =>
      .alias (applyMask (rw.col f.name) f.dataType mask rw.gov.maskKey) f.qualifier f.name
    | none => .column f.column

section Scan

variable (guardRows : Bool) (policy : ResolvedPolicy) (scan : TableScan)
  (subqueries : List LogicalPlan)

/-- Rows the filters hide are read through the guard. -/
def guarded : Bool := guardRows && !policy.rowFilters.isEmpty

/-- A pushed predicate that has to leave the scan. -/
def leavesScan (f : Expr) : Bool :=
  (f.columnRefs.any fun c => policy.governs rw.gov.toLowercase c.name) ||
    (guarded guardRows policy && (rw.typing scan.sourceSchema subqueries).isFallible f)

def guardRowFilters (plan : LogicalPlan) : Option LogicalPlan :=
  match if guarded guardRows policy then Expr.conjunction policy.rowFilters else none with
  | some guard => rw.ctx.builderProject plan (guardExprs guard (rw.ctx.schemaOf plan))
  | none => some plan

def applyMasks (plan : LogicalPlan) : Option LogicalPlan :=
  if policy.columnMasks.isEmpty && policy.restrictedColumns.isEmpty then some plan
  else
    let exprs := (rw.ctx.schemaOf plan).map (rw.maskExpr policy)
    if exprs.isEmpty then some plan else rw.ctx.builderProject plan exprs

def rawOnGoverned : List Expr :=
  scan.filters.filter (rw.leavesScan guardRows policy scan subqueries)

def keptScan : TableScan :=
  { scan with
    filters := scan.filters.filter fun f => !rw.leavesScan guardRows policy scan subqueries f }

/-- The columns the scan must have for the row filters and for the predicates taken off it. -/
def widenedScan : TableScan × Option (List Expr) :=
  let kept := rw.keptScan guardRows policy scan subqueries
  let needed := policy.rowFilters ++ rw.rawOnGoverned guardRows policy scan subqueries
  match widenScanForRowFilters kept needed with
  | some (wider, restore) => (wider, some restore)
  | none => (kept, none)

/-- The predicates taken off the scan, above the masks. -/
def filterGoverned (plan : LogicalPlan) : Option LogicalPlan :=
  match Expr.conjunction (rw.rawOnGoverned guardRows policy scan subqueries) with
  | some predicate => rw.ctx.builderFilter subqueries plan predicate
  | none => some plan

/-- Back to the columns of the scan before it was widened. -/
def restoreColumns (restore : Option (List Expr)) (plan : LogicalPlan) : Option LogicalPlan :=
  match restore with
  | some exprs => rw.ctx.builderProject plan exprs
  | none => some plan

/-- Put the row filters, the guard, the masks and the predicates taken off the scan above it. -/
def rewriteScan : Option LogicalPlan := do
  let widened := rw.widenedScan guardRows policy scan subqueries
  let filtered ←
    policy.rowFilters.foldlM (rw.ctx.builderFilter []) (.tableScan widened.1 subqueries)
  let guardedPlan ← rw.guardRowFilters guardRows policy filtered
  let masked ← rw.applyMasks policy guardedPlan
  let refiltered ← rw.filterGoverned guardRows policy scan subqueries masked
  rw.restoreColumns widened.2 refiltered

end Scan

mutual

/-- Parents first. A governed scan is replaced and not descended into, so the subqueries of its
pushed predicates are left as they are. -/
def rewriteNode (guardRows : Bool) : LogicalPlan → Option LogicalPlan
  | .tableScan scan subqueries => match rw.gov.policyOf scan.tableName with
      | some policy => rw.rewriteScan guardRows policy scan subqueries
      | none => (rewriteNodes guardRows subqueries).map (.tableScan scan)
  | .filter predicate subqueries input => do
    let subqueries ← rewriteNodes guardRows subqueries
    let input ← rewriteNode guardRows input
    return .filter predicate subqueries input
  | .projection exprs subqueries input => do
    let subqueries ← rewriteNodes guardRows subqueries
    let input ← rewriteNode guardRows input
    return .projection exprs subqueries input
  | .node op subqueries inputs => do
    let subqueries ← rewriteNodes guardRows subqueries
    let inputs ← rewriteNodes guardRows inputs
    return .node op subqueries inputs

def rewriteNodes (guardRows : Bool) : List LogicalPlan → Option (List LogicalPlan)
  | [] => some []
  | p :: ps => do
    let p ← rewriteNode guardRows p
    let ps ← rewriteNodes guardRows ps
    return p :: ps

end

/-- `PolicyPlanRewriter::evaluate`, once the policies of the scanned tables are resolved. -/
def evaluate (plan : LogicalPlan) : Option LogicalPlan :=
  let guardRows := (rw.gov.tablePolicies.any fun entry => !entry.2.rowFilters.isEmpty) &&
    rw.planHasFalliblePredicate plan
  rw.rewriteNode guardRows plan

end PlanRewriter

end Sqe.Policy
