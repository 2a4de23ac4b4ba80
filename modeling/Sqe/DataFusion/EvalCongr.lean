/- GID: Sqe/DataFusion/EvalCongr
   generality: G
   digest: What the value of an expression depends on. -/

import Sqe.DataFusion.Eval

set_option autoImplicit false

namespace Sqe.DataFusion

open Sqe.Library.Kleene List Option Sqe.DataFusion.Expr

/-- The number of the subquery a node holds. -/
def Expr.subqueryNumber : Expr → Option Nat
  | .exists q _ | .inSubquery _ q _ | .scalarSubquery q | .setComparison _ _ _ q => some q
  | _ => none

/-- The operator decides from its left operand alone. -/
def Operator.isLogical : Operator → Bool
  | .and | .or => true
  | _ => false

theorem eval_operator {k : Kernels} {env : RowEnv} {op : Operator} (plain : op.isLogical = false)
    (l r : Expr) :
    eval k env (.binaryExpr l op r) =
      (eval k env l).bind fun a => (eval k env r).bind fun b =>
        (k.coerce [l, r] a).bind fun a' =>
          (k.coerce [l, r] b).bind fun b' => k.binary op a' b' := by
  cases op <;> first | rfl | cases plain

/-- Two environments agree on what evaluating the expression reads. A right operand of `AND` or
`OR` is skipped in both or, when it is not, evaluates in both. -/
structure AgreeOn (k : Kernels) (env env' : RowEnv) (e : Expr) : Prop where
  column : ∀ c, .column c ∈ e.subexprs → env.column c = env'.column c
  outer : ∀ c, .outerReferenceColumn c ∈ e.subexprs → env.outer c = env'.outer c
  subquery : ∀ x ∈ e.subexprs, ∀ q, x.subqueryNumber = some q → env.subquery q = env'.subquery q
  right : ∀ l op r, .binaryExpr l op r ∈ e.subexprs → op.isLogical = true →
    env.skip r = env'.skip r ∨ (eval k env r).isSome = true

namespace AgreeOn

variable {k : Kernels} {env env' : RowEnv} {e e' : Expr}

section

variable (agree : AgreeOn k env env' e)
include agree

theorem mono (inside : e'.subexprs ⊆ e.subexprs := by
      intro x found; simp [subexprs, subexprsOption, found]) :
    AgreeOn k env env' e' where
  column c member := agree.column c (inside member)
  outer c member := agree.outer c (inside member)
  subquery x member := agree.subquery x (inside member)
  right l op r member := agree.right l op r (inside member)

theorem list {es : List Expr} (inside : subexprsList es ⊆ e.subexprs := by
      intro x found; simp [subexprs, subexprsOption, found]) :
    ∀ e' ∈ es, AgreeOn k env env' e' := by
  intro e' member
  refine agree.mono fun x found => inside ?_
  rw [subexprsList_eq]
  exact mem_flatMap.mpr ⟨e', member, found⟩

theorem option {o : Option Expr} (inside : subexprsOption o ⊆ e.subexprs := by
      intro x found; simp [subexprs, subexprsOption, found]) :
    ∀ e' ∈ o, AgreeOn k env env' e' := by
  intro e' member
  cases mem_def.mp member
  exact agree.mono inside

theorem whens {wt : List (Expr × Expr)} (inside : subexprsWhens wt ⊆ e.subexprs := by
      intro x found; simp [subexprs, subexprsOption, found]) :
    ∀ p ∈ wt, AgreeOn k env env' p.1 ∧ AgreeOn k env env' p.2 := by
  intro p member
  rw [subexprsWhens_eq] at inside
  constructor <;> refine agree.mono fun x found => inside (mem_flatMap.mpr ⟨p, member, ?_⟩)
  · exact mem_append_left _ found
  · exact mem_append_right _ found

end

end AgreeOn

section Congr

variable {k : Kernels} {env env' : RowEnv}

private theorem skipped_same {a : ScalarValue} {x : Option ScalarValue} {s s' decides : Bool}
    {combine : Option Bool → Option Bool → Option Bool}
    (decided : ∀ y, combine (some decides) y = some decides) (same : s = s' ∨ x.isSome = true) :
    (if a.truth = some decides ∧ s = true then truthValue (some decides)
      else x.bind fun b => truthValue (combine a.truth b.truth)) =
    if a.truth = some decides ∧ s' = true then truthValue (some decides)
      else x.bind fun b => truthValue (combine a.truth b.truth) := by
  rcases same with rfl | evaluates
  · rfl
  · obtain ⟨b, rfl⟩ := isSome_iff_exists.mp evaluates
    by_cases first : a.truth = some decides <;> cases s <;> cases s' <;> simp [first, decided]

mutual

theorem eval_congr (e : Expr) (agree : AgreeOn k env env' e) : eval k env e = eval k env' e := by
  match e with
  | .alias e _ _ =>
    simp only [eval]
    exact eval_congr e agree.mono
  | .column c => simp only [eval, agree.column c (self_mem_subexprs _)]
  | .outerReferenceColumn c => simp only [eval, agree.outer c (self_mem_subexprs _)]
  | .literal v => rfl
  | .binaryExpr l op r =>
    have left := eval_congr l agree.mono
    have right := eval_congr r agree.mono
    have skipped := agree.right l op r (self_mem_subexprs _)
    rw [right] at skipped
    cases op with
    | and =>
      simp only [eval, left, right, bind_eq_bind]
      congr 1
      funext a
      exact skipped_same (fun _ => rfl) (skipped rfl)
    | or =>
      simp only [eval, left, right, bind_eq_bind]
      congr 1
      funext a
      exact skipped_same (fun y => by cases y <;> rfl) (skipped rfl)
    | _ => simp only [eval, left, right]
  | .not e | .is _ e | .cast e _ | .tryCast e _ =>
    simp only [eval, eval_congr e agree.mono]
  | .like _ e p _ _ =>
    simp only [eval, eval_congr e agree.mono, eval_congr p agree.mono]
  | .between e _ lo hi =>
    simp only [eval, eval_congr e agree.mono, eval_congr lo agree.mono, eval_congr hi agree.mono]
  | .inList e l _ =>
    simp only [eval, eval_congr e agree.mono, evalList_congr l agree.list]
  | .case b wt els =>
    have base := evalOption_congr b agree.option
    have whens := fun operands values base fallthrough =>
      evalWhens_congr wt operands values base fallthrough agree.whens
    cases els with
    | none => simp only [eval, base, whens]
    | some e =>
      simp only [eval, base, whens, eval_congr e agree.mono]
  | .scalarFunction _ args | .groupingSet args | .other _ args =>
    simp only [eval, evalList_congr args agree.list]
  | .windowFunction _ args ps =>
    simp only [eval, evalList_congr args agree.list, evalList_congr ps agree.list]
  | .exists q _ => simp only [eval, agree.subquery _ (self_mem_subexprs _) q rfl]
  | .inSubquery e q _ =>
    simp only [eval, eval_congr e agree.mono, agree.subquery _ (self_mem_subexprs _) q rfl]
  | .scalarSubquery q => simp only [eval, agree.subquery _ (self_mem_subexprs _) q rfl]
  | .setComparison e _ _ q =>
    simp only [eval, eval_congr e agree.mono, agree.subquery _ (self_mem_subexprs _) q rfl]

theorem evalList_congr (es : List Expr) (agree : ∀ e ∈ es, AgreeOn k env env' e) :
    evalList k env es = evalList k env' es := by
  match es with
  | [] => rfl
  | e :: es =>
    simp only [evalList, eval_congr e (agree e mem_cons_self),
      evalList_congr es (forall_mem_cons.mp agree).2]

theorem evalOption_congr (o : Option Expr) (agree : ∀ e ∈ o, AgreeOn k env env' e) :
    evalOption k env o = evalOption k env' o := by
  match o with
  | none => rfl
  | some e => simp only [evalOption, eval_congr e (agree e rfl)]

theorem evalWhens_congr (wt : List (Expr × Expr)) (operands values : List Expr)
    (base : Option ScalarValue) (fallthrough : Option ScalarValue)
    (agree : ∀ p ∈ wt, AgreeOn k env env' p.1 ∧ AgreeOn k env env' p.2) :
    evalWhens k env operands values base wt fallthrough =
      evalWhens k env' operands values base wt fallthrough := by
  match wt with
  | [] => rfl
  | (w, t) :: rest =>
    obtain ⟨agreeW, agreeT⟩ := agree (w, t) mem_cons_self
    simp only [evalWhens, eval_congr w agreeW, eval_congr t agreeT,
      evalWhens_congr rest operands values base fallthrough fun p member =>
        agree p (mem_cons_of_mem _ member)]

end

end Congr

end Sqe.DataFusion
