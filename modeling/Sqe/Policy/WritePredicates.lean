/- GID: Sqe/Policy/WritePredicates
   generality: G
   digest: Row filters and masks read back out of a rewritten probe scan, as SQL text. -/

import Sqe.Policy.PlanRewriter

set_option autoImplicit false

namespace Sqe.Policy

open Sqe.DataFusion

inductive SqeErrorCode
  | accessDenied
  | executionFailed
  deriving DecidableEq

structure SqeError where
  code : SqeErrorCode
  message : String
  deriving DecidableEq

/-- The SQL fragments of a policy. The mask texts are a map by column name. -/
structure WritePolicyPredicates where
  rowFilterSql : Option String
  columnMaskSqls : List (String × String)
  maskUdfs : List ScalarUdf
  deriving DecidableEq

/-- DataFusion's unparser, with the text of its error, and what its texts mean to the write path.
It renders an expression faithfully or not at all. -/
structure Unparser (k : Kernels) where
  exprToSql : Expr → Except String String
  meaning : String → RowEnv → Option ScalarValue
  faithful : ∀ e sql, exprToSql e = .ok sql → ∀ env, meaning sql env = eval k env e
  readsNull : ∀ env, meaning "NULL" env = some .null

namespace WritePredicates

def isNullLiteral : Expr → Bool
  | .literal v => v.isNull
  | .cast e _ | .tryCast e _ => isNullLiteral e
  | _ => false

/-- The mask functions an expression calls, once per name. -/
def collectMaskUdfs (e : Expr) (out : List ScalarUdf) : List ScalarUdf :=
  e.subexprs.foldl (fun out x => match x with
    | .scalarFunction f _ =>
      if f.name == maskHashUdfName && !(out.any fun u => u.name == f.name) then out ++ [f]
      else out
    | _ => out) out

/-- `CASE WHEN <cond> THEN col END` for the column of that name. -/
def isGuardBody (name : String) : Expr → Bool
  | .case none [(_, .column c)] none => c.name == name
  | _ => false

def isGuardEntry : Expr → Bool
  | .alias body _ name => isGuardBody name body
  | _ => false

def isFilter : LogicalPlan → Bool
  | .filter .. => true
  | _ => false

/-- The rewriter's guard, told by its shape. -/
def isRowFilterGuard (exprs : List Expr) (input : LogicalPlan) : Bool :=
  isFilter input && !exprs.isEmpty && exprs.all isGuardEntry

def entry : Expr → Option (String × Expr)
  | .alias body _ name => some (name, body)
  | .column c => some (c.name, .column c)
  | _ => none

def isOwnColumn (name : String) : Expr → Bool
  | .column c => c.name == name
  | _ => false

def maskOf (e : Expr) : Option (String × Expr) :=
  (entry e).filter fun (name, body) => !isOwnColumn name body

def unnormalizeCol (e : Expr) : Expr := e.mapColumns fun c => ⟨none, c.name⟩

structure Gathered where
  rowFilters : List Expr := []
  columnMaskSqls : List (String × String) := []
  maskUdfs : List ScalarUdf := []

def unrenderable (what cause : String) : SqeError where
  code := .accessDenied
  message := s!"write refused: the {what} cannot be applied to this statement: {cause}"

section Walk

variable {k : Kernels} (u : Unparser k)

def maskSql (name : String) (body : Expr) : Except SqeError String :=
  if isNullLiteral body then .ok "NULL"
  else match u.exprToSql (unnormalizeCol body) with
    | .ok sql => .ok sql
    | .error cause => .error (unrenderable s!"column mask on `{name}`" cause)

def takeMask (found : Gathered) (e : Expr) : Except SqeError Gathered :=
  match maskOf e with
  | none => .ok found
  | some (name, body) => do
    let sql ← maskSql u name body
    return { found with
      columnMaskSqls := (name, sql) :: found.columnMaskSqls.filter fun m => m.1 != name
      maskUdfs := if isNullLiteral body then found.maskUdfs
        else collectMaskUdfs body found.maskUdfs }

/-- The loop of `unparse_predicates`, from the top of the plan down. -/
def gather : LogicalPlan → Gathered → Except SqeError Gathered
  | .filter predicate _ input, found =>
    gather input { found with rowFilters := found.rowFilters ++ [predicate] }
  | .projection exprs _ input, found =>
    if isRowFilterGuard exprs input then gather input found
    else do
      let found ← exprs.foldlM (takeMask u) found
      gather input found
  | _, found => .ok found

def rowFilterSql (rowFilters : List Expr) : Except SqeError (Option String) :=
  match Expr.conjunction rowFilters with
  | none => .ok none
  | some combined => match u.exprToSql combined with
    | .ok sql => .ok (some sql)
    | .error cause => .error (unrenderable "row filter" cause)

def unparsePredicates (rewritten : LogicalPlan) : Except SqeError WritePolicyPredicates := do
  let found ← gather u rewritten {}
  let filter ← rowFilterSql u found.rowFilters
  return ⟨filter, found.columnMaskSqls, found.maskUdfs⟩

end Walk

/-- The enforcer, the unparser over its engine's kernels, and the errors that come from DataFusion
and from the rewriter. -/
structure WriteEngine where
  rewriter : PlanRewriter
  unparser : Unparser rewriter.ctx.kernels
  scanError : String
  evaluateError : SqeError

def probeReference (catalog : Option String) (namespaceKey tableName : String) : TableReference :=
  match catalog.filter fun c => !c.isEmpty with
  | some catalog => .full catalog namespaceKey tableName
  | none => .partialRef namespaceKey tableName

/-- The bare scan of the target, which DataFusion refuses for duplicate column names. -/
def probeScan (reference : TableReference) (schema : SourceSchema) : Option TableScan :=
  if distinct : (schema.map Prod.fst).Nodup then some ⟨reference, schema, none, [], none, distinct⟩
  else none

def extractWritePredicates (engine : WriteEngine) (catalog : Option String)
    (namespaceKey tableName : String) (schema : SourceSchema) :
    Except SqeError WritePolicyPredicates :=
  match probeScan (probeReference catalog namespaceKey tableName) schema with
  | none => .error ⟨.executionFailed, s!"policy probe scan: {engine.scanError}"⟩
  | some scan => match engine.rewriter.evaluate (.tableScan scan []) with
    | none => .error engine.evaluateError
    | some rewritten => unparsePredicates engine.unparser rewritten

end WritePredicates

end Sqe.Policy
