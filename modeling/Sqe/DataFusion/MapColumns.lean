/- GID: Sqe/DataFusion/MapColumns
   generality: G
   digest: Renaming the columns of an expression, and evaluating what was renamed. -/

import Sqe.DataFusion.EvalCongr

set_option autoImplicit false

namespace Sqe.DataFusion

open Sqe.DataFusion.Expr (onColumn transform transformList transformOption transformWhens)

/-- Type coercion has been made explicit: operands meet as they are. -/
structure Explicit (k : Kernels) : Prop where
  coerce : ∀ es v, k.coerce es v = some v
  coerceIn : ∀ e q v, k.coerceIn e q v = some v

/-- The environment that reads every column through a renaming. -/
def RowEnv.through (env : RowEnv) (f : Column → Column) : RowEnv :=
  { env with column := fun c => env.column (f c) }

section Renamed

variable {k : Kernels} (explicit : Explicit k) {env : RowEnv}
  (skip : ∀ e e', env.skip e = env.skip e') (f : Column → Column)
include explicit skip

set_option linter.unusedSectionVars false in
mutual

theorem eval_mapColumns (e : Expr) :
    eval k env (e.transform (onColumn f)) = eval k (env.through f) e := by
  match e with
  | .alias e _ _ =>
    simp only [transform, onColumn, eval]
    exact eval_mapColumns e
  | .column c => simp only [transform, onColumn, eval, RowEnv.through]
  | .outerReferenceColumn c | .literal v | .scalarSubquery q | .exists q _ => rfl
  | .binaryExpr l op r =>
    simp only [transform, onColumn]
    cases op with
    | and | or =>
      simp only [eval, eval_mapColumns l, eval_mapColumns r, skip (r.transform (onColumn f)) r]
      rfl
    | _ => simp only [eval, eval_mapColumns l, eval_mapColumns r, explicit.coerce]
  | .not e | .is _ e | .cast e _ | .tryCast e _ =>
    simp only [transform, onColumn, eval, eval_mapColumns e]
  | .like _ e p _ _ =>
    simp only [transform, onColumn, eval, eval_mapColumns e, eval_mapColumns p]
  | .between e _ lo hi =>
    simp only [transform, onColumn, eval, eval_mapColumns e, eval_mapColumns lo,
      eval_mapColumns hi, explicit.coerce]
  | .inList e l _ =>
    have same : k.coerce (e.transform (onColumn f) ::
        transformList (onColumn f) l) = k.coerce (e :: l) :=
      funext fun v => (explicit.coerce _ v).trans (explicit.coerce _ v).symm
    simp only [transform, onColumn, eval, eval_mapColumns e, evalList_mapColumns l, same]
  | .case b wt els =>
    cases els with
    | none =>
      simp only [transform, onColumn, eval, evalOption_mapColumns b, transformOption]
      congr 1
      funext base
      exact evalWhens_mapColumns wt _ _ _ _ base (some .null)
    | some e =>
      simp only [transform, onColumn, eval, evalOption_mapColumns b,
        transformOption, eval_mapColumns e, explicit.coerce]
      congr 1
      funext base
      exact evalWhens_mapColumns wt _ _ _ _ base _
  | .scalarFunction _ args | .groupingSet args | .other _ args =>
    simp only [transform, onColumn, eval, evalList_mapColumns args]
  | .windowFunction _ args ps =>
    simp only [transform, onColumn, eval, evalList_mapColumns args, evalList_mapColumns ps]
  | .inSubquery e q _ =>
    have same : k.coerceIn (e.transform (onColumn f)) q = k.coerceIn e q :=
      funext fun v => (explicit.coerceIn _ q v).trans (explicit.coerceIn _ q v).symm
    simp only [transform, onColumn, eval, eval_mapColumns e, same, RowEnv.through]
  | .setComparison e _ _ q =>
    simp only [transform, onColumn, eval, eval_mapColumns e, RowEnv.through]

theorem evalList_mapColumns (es : List Expr) :
    evalList k env (transformList (onColumn f) es) = evalList k (env.through f) es := by
  match es with
  | [] => rfl
  | e :: es =>
    simp only [transformList, evalList, eval_mapColumns e, evalList_mapColumns es]

theorem evalOption_mapColumns (o : Option Expr) :
    evalOption k env (transformOption (onColumn f) o) =
      evalOption k (env.through f) o := by
  match o with
  | none => rfl
  | some e => simp only [transformOption, evalOption, eval_mapColumns e]

theorem evalWhens_mapColumns (wt : List (Expr × Expr))
    (operands operands' values values' : List Expr) (base fallthrough : Option ScalarValue) :
    evalWhens k env operands values base (transformWhens (onColumn f) wt) fallthrough =
      evalWhens k (env.through f) operands' values' base wt fallthrough := by
  match wt with
  | [] => rfl
  | (w, t) :: rest =>
    simp only [transformWhens, evalWhens, eval_mapColumns w, eval_mapColumns t,
      explicit.coerce, evalWhens_mapColumns rest operands operands' values values' base fallthrough]

end

end Renamed

end Sqe.DataFusion
