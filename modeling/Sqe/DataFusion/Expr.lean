/- GID: Sqe/DataFusion/Expr
   generality: G
   digest: Logical expressions, the traversal of their nodes, and bottom-up rewriting. -/

import Sqe.DataFusion.Types

set_option autoImplicit false

namespace Sqe.DataFusion

/-- `datafusion::common::TableReference`: bare, partial or full. -/
inductive TableReference
  | bare (table : String)
  | partialRef (schema table : String)
  | full (catalog schema table : String)
  deriving DecidableEq

/-- The `Display` form, which joins the parts with dots and quotes nothing. -/
def TableReference.toString : TableReference → String
  | .bare t => t
  | .partialRef s t => s ++ "." ++ t
  | .full c s t => c ++ "." ++ s ++ "." ++ t

structure Column where
  relation : Option TableReference
  name : String
  deriving DecidableEq

inductive Operator
  | eq | notEq | lt | ltEq | gt | gtEq
  | isDistinctFrom | isNotDistinctFrom
  | and | or
  | plus | minus | multiply | divide | modulo
  /-- Regular expressions, bit operations, string and array operators. -/
  | other (symbol : String)
  deriving DecidableEq

/-- The eight `IS ...` tests of a boolean or nullable operand. -/
inductive IsTest
  | null | notNull | true | false | unknown | notTrue | notFalse | notUnknown
  deriving DecidableEq

/-- A scalar function: its name and what its instance closes over (a mask key, the shown
prefix length and the like), as numbers. -/
structure ScalarUdf where
  name : String
  state : List Nat
  deriving DecidableEq

/-- `datafusion::logical_expr::Expr`. A subquery stands as its number among the subqueries of
the plan node that holds the expression, so that expressions and plans are two separate types.
The constructors no modelled function singles out (negation, `SIMILAR TO`, aggregates,
placeholders, ...) share `other`. -/
inductive Expr
  | alias (expr : Expr) (relation : Option TableReference) (name : String)
  | column (c : Column)
  | outerReferenceColumn (c : Column)
  | literal (v : ScalarValue)
  | binaryExpr (left : Expr) (op : Operator) (right : Expr)
  | not (expr : Expr)
  | is (test : IsTest) (expr : Expr)
  | like (negated : Bool) (expr pattern : Expr) (escapeChar : Option Char)
      (caseInsensitive : Bool)
  | between (expr : Expr) (negated : Bool) (low high : Expr)
  | inList (expr : Expr) (list : List Expr) (negated : Bool)
  | case (expr : Option Expr) (whenThenExpr : List (Expr × Expr)) (elseExpr : Option Expr)
  | cast (expr : Expr) (type : DataType)
  | tryCast (expr : Expr) (type : DataType)
  | scalarFunction (func : ScalarUdf) (args : List Expr)
  | windowFunction (name : String) (args partitionBy : List Expr)
  | groupingSet (exprs : List Expr)
  | exists (subquery : Nat) (negated : Bool)
  | inSubquery (expr : Expr) (subquery : Nat) (negated : Bool)
  | scalarSubquery (subquery : Nat)
  | setComparison (expr : Expr) (op : Operator) (all : Bool) (subquery : Nat)
  | other (kind : String) (args : List Expr)

namespace Expr

@[match_pattern] abbrev isNull (e : Expr) : Expr := .is .null e
@[match_pattern] abbrev isNotNull (e : Expr) : Expr := .is .notNull e

mutual

/-- Every node of an expression, parents first: what `TreeNode::apply` visits. A subquery
body is not part of the tree. -/
def subexprs : Expr → List Expr
  | .alias e r n => .alias e r n :: subexprs e
  | .column c => [.column c]
  | .outerReferenceColumn c => [.outerReferenceColumn c]
  | .literal v => [.literal v]
  | .binaryExpr l op r => .binaryExpr l op r :: (subexprs l ++ subexprs r)
  | .not e => .not e :: subexprs e
  | .is t e => .is t e :: subexprs e
  | .like n e p x ci => .like n e p x ci :: (subexprs e ++ subexprs p)
  | .between e n lo hi => .between e n lo hi :: (subexprs e ++ subexprs lo ++ subexprs hi)
  | .inList e l n => .inList e l n :: (subexprs e ++ subexprsList l)
  | .case b wt els =>
    .case b wt els :: (subexprsOption b ++ subexprsWhens wt ++ subexprsOption els)
  | .cast e t => .cast e t :: subexprs e
  | .tryCast e t => .tryCast e t :: subexprs e
  | .scalarFunction f args => .scalarFunction f args :: subexprsList args
  | .windowFunction f args ps =>
    .windowFunction f args ps :: (subexprsList args ++ subexprsList ps)
  | .groupingSet es => .groupingSet es :: subexprsList es
  | .exists q n => [.exists q n]
  | .inSubquery e q n => .inSubquery e q n :: subexprs e
  | .scalarSubquery q => [.scalarSubquery q]
  | .setComparison e op all q => .setComparison e op all q :: subexprs e
  | .other k args => .other k args :: subexprsList args

def subexprsList : List Expr → List Expr
  | [] => []
  | e :: es => subexprs e ++ subexprsList es

def subexprsOption : Option Expr → List Expr
  | none => []
  | some e => subexprs e

def subexprsWhens : List (Expr × Expr) → List Expr
  | [] => []
  | (w, t) :: rest => subexprs w ++ subexprs t ++ subexprsWhens rest

end

mutual

/-- `TreeNode::transform`: rewrite the children, then the node built from them. -/
def transform (g : Expr → Expr) : Expr → Expr
  | .alias e r n => g (.alias (transform g e) r n)
  | .column c => g (.column c)
  | .outerReferenceColumn c => g (.outerReferenceColumn c)
  | .literal v => g (.literal v)
  | .binaryExpr l op r => g (.binaryExpr (transform g l) op (transform g r))
  | .not e => g (.not (transform g e))
  | .is t e => g (.is t (transform g e))
  | .like n e p x ci => g (.like n (transform g e) (transform g p) x ci)
  | .between e n lo hi => g (.between (transform g e) n (transform g lo) (transform g hi))
  | .inList e l n => g (.inList (transform g e) (transformList g l) n)
  | .case b wt els =>
    g (.case (transformOption g b) (transformWhens g wt) (transformOption g els))
  | .cast e t => g (.cast (transform g e) t)
  | .tryCast e t => g (.tryCast (transform g e) t)
  | .scalarFunction f args => g (.scalarFunction f (transformList g args))
  | .windowFunction f args ps =>
    g (.windowFunction f (transformList g args) (transformList g ps))
  | .groupingSet es => g (.groupingSet (transformList g es))
  | .exists q n => g (.exists q n)
  | .inSubquery e q n => g (.inSubquery (transform g e) q n)
  | .scalarSubquery q => g (.scalarSubquery q)
  | .setComparison e op all q => g (.setComparison (transform g e) op all q)
  | .other k args => g (.other k (transformList g args))

def transformList (g : Expr → Expr) : List Expr → List Expr
  | [] => []
  | e :: es => transform g e :: transformList g es

def transformOption (g : Expr → Expr) : Option Expr → Option Expr
  | none => none
  | some e => some (transform g e)

def transformWhens (g : Expr → Expr) : List (Expr × Expr) → List (Expr × Expr)
  | [] => []
  | (w, t) :: rest => (transform g w, transform g t) :: transformWhens g rest

end

/-- `Expr::column_refs`: the columns read directly. Outer references and what a subquery body
reads are not among them. -/
def columnRefs (e : Expr) : List Column :=
  e.subexprs.filterMap fun
    | .column c => some c
    | _ => none

def isSubquery : Expr → Bool
  | .exists .. | .inSubquery .. | .scalarSubquery .. | .setComparison .. => true
  | _ => false

def hasSubquery (e : Expr) : Bool := e.subexprs.any isSubquery

/-- The rewrite of one node that renames a column reference. -/
def onColumn (f : Column → Column) : Expr → Expr
  | .column c => .column (f c)
  | e => e

def mapColumns (f : Column → Column) (e : Expr) : Expr := e.transform (onColumn f)

theorem subexprsList_eq (es : List Expr) : subexprsList es = es.flatMap subexprs := by
  induction es with
  | nil => rfl
  | cons e es ih => simp [subexprsList, ih]

theorem subexprsWhens_eq (wt : List (Expr × Expr)) :
    subexprsWhens wt = wt.flatMap fun p => subexprs p.1 ++ subexprs p.2 := by
  induction wt with
  | nil => rfl
  | cons p wt ih => simp [subexprsWhens, ih]

theorem self_mem_subexprs (e : Expr) : e ∈ e.subexprs := by
  cases e <;> simp [subexprs]

/-- The combined `AND` of a nonempty list, `None` for the empty one:
`datafusion::logical_expr::utils::conjunction`. -/
def conjunction : List Expr → Option Expr
  | [] => none
  | e :: es => some (es.foldl (fun acc f => .binaryExpr acc .and f) e)

end Expr

end Sqe.DataFusion
