/- GID: Sqe/DataFusion/Plan
   generality: G
   digest: Logical plans with their schemas, relational meaning, and the builder steps used. -/

import Sqe.DataFusion.EvalCongr

/-!
Table scans, filters and projections have their relational meaning. The other nodes (joins,
aggregates, sorts, ...) are given by what they make of the rows of their inputs and of their
subqueries, which is all the rewriter relies on.
-/

set_option autoImplicit false

namespace Sqe.DataFusion

/-- Equal in the components that both references have: `TableReference::resolved_eq`. -/
def TableReference.resolvedEq : TableReference → TableReference → Bool
  | .full c s t, .full c' s' t' => c == c' && s == s' && t == t'
  | .bare t, r | r, .bare t => t == match r with
      | .bare t' | .partialRef _ t' | .full _ _ t' => t'
  | .partialRef s t, .partialRef s' t' | .partialRef s t, .full _ s' t'
  | .full _ s' t', .partialRef s t => s == s' && t == t'

structure PlanField where
  qualifier : Option TableReference
  name : String
  dataType : DataType
  deriving DecidableEq

abbrev DFSchema := List PlanField

def PlanField.column (f : PlanField) : Column := ⟨f.qualifier, f.name⟩

/-- The reference means the field with this name. -/
def Column.means (c field : Column) : Bool :=
  field.name == c.name && match c.relation, field.relation with
    | none, _ => true
    | some q, some fq => q.resolvedEq fq
    | some _, none => false

def DFSchema.resolve (schema : DFSchema) (c : Column) : Option PlanField :=
  schema.find? fun f => c.means f.column

abbrev SourceSchema := List (String × DataType)

def qualifiedSchema (tableName : TableReference) (source : SourceSchema) : DFSchema :=
  source.map fun field => ⟨some tableName, field.1, field.2⟩

/-- A scan. The names of the source's fields differ, as `DFSchema` demands. -/
structure TableScan where
  tableName : TableReference
  source : SourceSchema
  projection : Option (List Nat)
  filters : List Expr
  fetch : Option Nat
  distinct : (source.map Prod.fst).Nodup

namespace TableScan

variable (scan : TableScan)

def sourceSchema : DFSchema := qualifiedSchema scan.tableName scan.source

def projectedSchema : DFSchema := match scan.projection with
  | none => scan.sourceSchema
  | some indices => indices.filterMap fun i => scan.sourceSchema[i]?

end TableScan

/-- The nodes other than scans, filters and projections. -/
inductive PlanNode
  | join (on : List (Expr × Expr)) (filter : Option Expr)
  | aggregate (groupExpr aggrExpr : List Expr)
  | window (windowExpr : List Expr)
  | other (kind : String) (exprs : List Expr)

/-- `datafusion::logical_expr::LogicalPlan`. Each node carries the subqueries its expressions
refer to by number. -/
inductive LogicalPlan
  | tableScan (scan : TableScan) (subqueries : List LogicalPlan)
  | filter (predicate : Expr) (subqueries : List LogicalPlan) (input : LogicalPlan)
  | projection (exprs : List Expr) (subqueries : List LogicalPlan) (input : LogicalPlan)
  | node (op : PlanNode) (subqueries inputs : List LogicalPlan)

mutual

/-- The scans of a plan, each with the subqueries of its pushed predicates. -/
def LogicalPlan.scans : LogicalPlan → List (TableScan × List LogicalPlan)
  | .tableScan scan subqueries => (scan, subqueries) :: scansOf subqueries
  | .filter _ subqueries input | .projection _ subqueries input =>
    scansOf subqueries ++ scans input
  | .node _ subqueries inputs => scansOf subqueries ++ scansOf inputs

def LogicalPlan.scansOf : List LogicalPlan → List (TableScan × List LogicalPlan)
  | [] => []
  | p :: ps => scans p ++ scansOf ps

end

abbrev Row := List ScalarValue
abbrev SourceRow := String → ScalarValue
abbrev Outer := Column → ScalarValue

def DFSchema.columns (schema : DFSchema) : List Column := schema.map PlanField.column

/-- What is taken from DataFusion: the scalar kernels, the meaning and schema of the nodes that
are not modelled, and the name and type of an expression. Nodes name their inputs' fields, so
their rows and names depend on the names of those. -/
structure PlanContext where
  kernels : Kernels
  nodeRows : PlanNode → List (List Column) → List (List Row) → List (Outer → List Row) → Outer →
    List Row
  nodeSchema : PlanNode → List DFSchema → DFSchema
  nodeNames : ∀ op inputs inputs', inputs.map DFSchema.columns = inputs'.map DFSchema.columns →
    (nodeSchema op inputs).columns = (nodeSchema op inputs').columns
  exprName : Expr → String
  exprType : DFSchema → Expr → DataType

namespace PlanContext

variable (ctx : PlanContext)

def typeIn (schema : DFSchema) : Expr → DataType
  | .column c => ((schema.resolve c).map PlanField.dataType).getD .null
  | .alias e _ _ => typeIn schema e
  | .case _ ((_, t) :: _) _ => typeIn schema t
  | e => ctx.exprType schema e

def fieldOf (schema : DFSchema) (e : Expr) : PlanField := match e with
  | .column c => ⟨c.relation, c.name, ctx.typeIn schema e⟩
  | .alias _ relation name => ⟨relation, name, ctx.typeIn schema e⟩
  | e => ⟨none, ctx.exprName e, ctx.typeIn schema e⟩

mutual

def schemaOf : LogicalPlan → DFSchema
  | .tableScan scan _ => scan.projectedSchema
  | .filter _ _ input => schemaOf input
  | .projection exprs _ input => exprs.map (ctx.fieldOf (schemaOf input))
  | .node op _ inputs => ctx.nodeSchema op (schemasOf inputs)

def schemasOf : List LogicalPlan → List DFSchema
  | [] => []
  | p :: ps => schemaOf p :: schemasOf ps

end

end PlanContext

def columnIn (columns : List Column) (row : Row) (c : Column) : ScalarValue :=
  (((columns.zip row).find? fun p => c.means p.1).map Prod.snd).getD .null

/-- What the expressions of a node read on one row. A subquery sees the row as its outer one,
and what that one sees as outer beyond it. -/
def rowEnv (columns : List Column) (row : Row) (outer : Outer)
    (subqueries : List (Outer → List Row)) : RowEnv where
  column := columnIn columns row
  outer := outer
  subquery q := subqueries[q]?.map fun rows =>
    (rows fun c => if columns.any c.means then columnIn columns row c else outer c).map
      fun r => r.headD .null
  skip _ := true

/-- The value of a projected expression. An error aborts the query, which the relational meaning
leaves out: the value is then NULL. -/
def valueOf (k : Kernels) (env : RowEnv) (e : Expr) : ScalarValue := (eval k env e).getD .null

abbrev Database := TableReference → SourceSchema → List SourceRow

/-- What is read on a row of the source: every column of it. -/
def sourceEnv (tableName : TableReference) (source : SourceSchema) (row : SourceRow)
    (outer : Outer) (subqueries : List (Outer → List Row)) : RowEnv :=
  rowEnv (qualifiedSchema tableName source).columns (source.map fun field => row field.1) outer
    subqueries

namespace PlanContext

variable (ctx : PlanContext) (db : Database)

def scanRows (scan : TableScan) (subqueries : List (Outer → List Row)) (outer : Outer) : List Row :=
  let passed := (db scan.tableName scan.source).filter fun row =>
    scan.filters.all fun f => Holds ctx.kernels
      (sourceEnv scan.tableName scan.source row outer subqueries) f
  let rows := passed.map fun row => scan.projectedSchema.map fun f => row f.name
  match scan.fetch with
  | none => rows
  | some n => rows.take n

mutual

def evalPlan : LogicalPlan → Outer → List Row
  | .tableScan scan subqueries, outer => ctx.scanRows db scan (evalPlans subqueries) outer
  | .filter predicate subqueries input, outer =>
    (evalPlan input outer).filter fun row =>
      Holds ctx.kernels (rowEnv (ctx.schemaOf input).columns row outer
        (evalPlans subqueries)) predicate
  | .projection exprs subqueries input, outer =>
    (evalPlan input outer).map fun row => exprs.map
      (valueOf ctx.kernels (rowEnv (ctx.schemaOf input).columns row outer (evalPlans subqueries)))
  | .node op subqueries inputs, outer =>
    ctx.nodeRows op ((ctx.schemasOf inputs).map DFSchema.columns)
      ((evalPlans inputs).map fun rows => rows outer)
      (evalPlans subqueries) outer

def evalPlans : List LogicalPlan → List (Outer → List Row)
  | [] => []
  | p :: ps => evalPlan p :: evalPlans ps

end

end PlanContext

/-- `normalize_col` on one reference: a bare name takes the qualifier of the field it means. -/
def normalizeCol (schema : DFSchema) (c : Column) : Option Column :=
  match c.relation with
  | some _ => some c
  | none => (schema.resolve c).map PlanField.column

def normalizeColD (schema : DFSchema) (c : Column) : Column := (normalizeCol schema c).getD c

/-- `normalize_col`, an error when a bare name means no field. -/
def normalizeExpr (schema : DFSchema) (e : Expr) : Option Expr :=
  if e.columnRefs.all fun c => (normalizeCol schema c).isSome then
    some (e.mapColumns (normalizeColD schema))
  else none

namespace PlanContext

variable (ctx : PlanContext)

/-- `LogicalPlanBuilder::filter`, with the subqueries the predicate refers to. -/
def builderFilter (subqueries : List LogicalPlan) (plan : LogicalPlan) (e : Expr) :
    Option LogicalPlan :=
  (normalizeExpr (ctx.schemaOf plan) e).map fun p => .filter p subqueries plan

/-- `LogicalPlanBuilder::project`, which also refuses a qualified name that means no field. -/
def builderProject (plan : LogicalPlan) (exprs : List Expr) : Option LogicalPlan :=
  if exprs.all fun e => e.columnRefs.all fun c => ((ctx.schemaOf plan).resolve c).isSome then
    (exprs.mapM (normalizeExpr (ctx.schemaOf plan))).map fun es => .projection es [] plan
  else none

end PlanContext

end Sqe.DataFusion
