/- GID: Sqe/TrinoCompat/TryFunction
   generality: I
   digest: What the static lowering of try() evaluates to. -/

import Mathlib.Data.Fin.VecNotation
import Mathlib.Data.List.OfFn

/-!
An outcome is `none` when the evaluation raises an error, and `some none` for NULL. The types of
expressions and the printing of the rewritten statement are left out.
-/

set_option autoImplicit false

namespace Sqe.TrinoCompat.TryFunction

open Option

inductive CastKind
  | cast | tryCast | safeCast | doubleColon
  deriving DecidableEq

inductive DivisionOperator
  | divide | modulo

/-- What stands at a node that is no cast, no `/` or `%` and no `try` of one argument. -/
inductive Operator
  | plus | minus | multiply
  | eq | notEq | lt | ltEq | gt | gtEq
  | and | or | not | isNull | isNotNull
  | case | coalesce | nullif
  | function (name : String)

/-- The part of `sqlparser::ast::Expr` an argument is built from, with values `V` and types `T`.
The operands of a CASE stand in a row. -/
inductive Expr (V T : Type)
  | column (name : String)
  | value (v : Option V)
  | cast (kind : CastKind) (target : T) (expr : Expr V T)
  | division (op : DivisionOperator) (left right : Expr V T)
  | node (op : Operator) {n : Nat} (args : Fin n → Expr V T)
  /-- A call of an unquoted `try` with one unnamed argument. -/
  | tryCall (arg : Expr V T)

abbrev Outcome (V : Type) := Option (Option V)

/-- What `try` promises: NULL in place of an error. -/
def swallow {V : Type} (o : Outcome V) : Outcome V := some o.join

/-- How the engine computes. An operator is given the outcomes of all its arguments and decides
itself which of them it looks at. -/
structure Engine (V T : Type) where
  zero : V
  isZero : V → Bool
  cast : T → V → Option V
  division : DivisionOperator → V → V → Option V
  apply : Operator → List (Outcome V) → Outcome V
  isZero_zero : isZero zero = true
  division_zero : ∀ op x d, isZero d = true → division op x d = none
  nullif_zero : ∀ o, apply .nullif [o, some (some zero)] = o.map (Option.filter (!isZero ·))
  /-- A value that was reached although some argument raises does not depend on that one. -/
  apply_lazy : ∀ {op args v}, apply op args = some v → apply op (args.map swallow) = some v

variable {V T : Type} (engine : Engine V T)

namespace Engine

def castOutcome (kind : CastKind) (target : T) : Outcome V → Outcome V
  | some (some v) =>
    match kind with
    | .cast | .doubleColon => (engine.cast target v).map some
    | .tryCast | .safeCast => some (engine.cast target v)
  | other => other

def divisionOutcome (op : DivisionOperator) : Outcome V → Outcome V → Outcome V
  | some (some x), some (some d) => (engine.division op x d).map some
  | some _, some _ => some none
  | _, _ => none

end Engine

namespace Expr

def eval (row : String → Option V) : Expr V T → Outcome V
  | .column name => some (row name)
  | .value v => some v
  | .cast kind target e => engine.castOutcome kind target (e.eval row)
  | .division op l r => engine.divisionOutcome op (l.eval row) (r.eval row)
  | .node op args => engine.apply op (List.ofFn fun i => (args i).eval row)
  | .tryCall arg => swallow (arg.eval row)

/-- `TryNullSafeVisitor`, which visits the operands first. -/
def nullSafe : Expr V T → Expr V T
  | .column name => .column name
  | .value v => .value v
  | .cast kind target e => .cast (if kind = .cast then .tryCast else kind) target e.nullSafe
  | .division op l r => .division op l.nullSafe (.node .nullif ![r.nullSafe, .value engine.zero])
  | .node op args => .node op fun i => (args i).nullSafe
  | .tryCall arg => .tryCall arg.nullSafe

/-- `rewrite_try_function` as `TrinoCompatVisitor` calls it, the innermost `try` first. -/
def rewriteTry : Expr V T → Expr V T
  | .column name => .column name
  | .value v => .value v
  | .cast kind target e => .cast kind target e.rewriteTry
  | .division op l r => .division op l.rewriteTry r.rewriteTry
  | .node op args => .node op fun i => (args i).rewriteTry
  | .tryCall arg => arg.rewriteTry.nullSafe engine

variable (row : String → Option V)

/-- The lowering of `try(e)` is right at the row. -/
def Right (e : Expr V T) : Prop :=
  ((e.rewriteTry engine).nullSafe engine).eval engine row = swallow (e.eval engine row)

/-- What is not lowered: a `::` that fails, a division that fails for a divisor other than zero,
and an operator that raises but, given NULL for what raises, does not pass it on. -/
def Defect : Expr V T → Prop
  | .cast kind target e => kind = .doubleColon ∧
      ∃ v, e.eval engine row = some (some v) ∧ engine.cast target v = none
  | .division op l r => ∃ x d, l.eval engine row = some (some x) ∧
      r.eval engine row = some (some d) ∧ engine.isZero d = false ∧ engine.division op x d = none
  | .node op args => engine.apply op (List.ofFn fun i => (args i).eval engine row) = none ∧
      engine.apply op (List.ofFn fun i => swallow ((args i).eval engine row)) ≠ some none
  | _ => False

/-- An expression and all below it. -/
def Everywhere (holds : Expr V T → Prop) : Expr V T → Prop
  | .column name => holds (.column name)
  | .value v => holds (.value v)
  | .cast kind target e => holds (.cast kind target e) ∧ e.Everywhere holds
  | .division op l r => holds (.division op l r) ∧ l.Everywhere holds ∧ r.Everywhere holds
  | .node op args => holds (.node op args) ∧ ∀ i, (args i).Everywhere holds
  | .tryCall arg => holds (.tryCall arg) ∧ arg.Everywhere holds

/-- An operator may have arguments that are not clean, as long as it is the same to it what they
are: a CASE does not look at the results it does not choose. -/
def Clean : Expr V T → Prop
  | .column _ | .value _ => True
  | .cast kind target e => ¬ Defect engine row (.cast kind target e) ∧ e.Clean
  | .division op l r => ¬ Defect engine row (.division op l r) ∧ l.Clean ∧ r.Clean
  | .node (n := n) op args => ∀ outcomes : Fin n → Outcome V,
      (∀ i, (args i).Clean → outcomes i = swallow ((args i).eval engine row)) →
        engine.apply op (List.ofFn outcomes) =
          swallow (engine.apply op (List.ofFn fun i => (args i).eval engine row))
  | .tryCall arg => arg.Clean

attribute [local simp] eval nullSafe rewriteTry swallow Engine.nullif_zero Engine.divisionOutcome

private theorem eval_nullSafe_twice (e : Expr V T) :
    ((e.nullSafe engine).nullSafe engine).eval engine row =
      (e.nullSafe engine).eval engine row := by
  induction e with
  | column name => rfl
  | value v => rfl
  | cast kind target e ih => cases kind <;> simp [ih]
  | division op l r left right =>
    cases found : (r.nullSafe engine).eval engine row <;>
      simp [left, right, found, filter_filter]
  | node op args ih => simp [ih]
  | tryCall arg ih => simp [ih]

variable {engine row}

private theorem right_cast {kind : CastKind} {target : T} {e : Expr V T}
    (right : e.Right engine row) :
    (Expr.cast kind target e).Right engine row ↔ ¬ Defect engine row (.cast kind target e) := by
  unfold Right at right ⊢
  rcases found : e.eval engine row with _ | _ | v
  · cases kind <;> simp [right, found, Engine.castOutcome, Defect]
  · cases kind <;> simp [right, found, Engine.castOutcome, Defect]
  · cases kind <;> cases done : engine.cast target v <;>
      simp [right, found, Engine.castOutcome, Defect, done]

private theorem right_division {op : DivisionOperator} {l r : Expr V T} (left : l.Right engine row)
    (right : r.Right engine row) :
    (Expr.division op l r).Right engine row ↔ ¬ Defect engine row (.division op l r) := by
  unfold Right at left right ⊢
  rcases dividend : l.eval engine row with _ | _ | x <;>
    rcases divisor : r.eval engine row with _ | _ | d <;>
    simp [left, right, dividend, divisor, Defect]
  cases zero : engine.isZero d with
  | true => simp [filter_some, zero, engine.division_zero op x d zero]
  | false => cases done : engine.division op x d <;> simp [filter_some, zero, done]

private theorem right_node {op : Operator} {n : Nat} {args : Fin n → Expr V T}
    (right : ∀ i, (args i).Right engine row) :
    (Expr.node op args).Right engine row ↔ ¬ Defect engine row (.node op args) := by
  have each : (fun i => (((args i).rewriteTry engine).nullSafe engine).eval engine row) =
      fun i => swallow ((args i).eval engine row) := funext right
  rw [Right, rewriteTry, nullSafe, eval, eval, each, Defect]
  cases found : engine.apply op (List.ofFn fun i => (args i).eval engine row) with
  | none => simp
  | some v =>
    have lazy := engine.apply_lazy found
    rw [List.map_ofFn] at lazy
    exact iff_of_true lazy fun defect => nomatch defect.1

private theorem right_tryCall {arg : Expr V T} :
    (Expr.tryCall arg).Right engine row ↔ arg.Right engine row := by
  simp [Right, eval_nullSafe_twice]

private theorem Everywhere.here {holds : Expr V T → Prop} {e : Expr V T}
    (all : e.Everywhere holds) :
    holds e := by
  cases e with
  | column => exact all
  | value => exact all
  | _ => exact all.1

private theorem everywhere_right_iff (e : Expr V T) :
    e.Everywhere (Right engine row) ↔ e.Everywhere (¬ Defect engine row ·) := by
  induction e with
  | column name => simp [Everywhere, Right, Defect]
  | value v => simp [Everywhere, Right, Defect]
  | cast kind target e ih =>
    rw [Everywhere, Everywhere, ← ih]
    exact and_congr_left fun below => right_cast below.here
  | division op l r left right =>
    rw [Everywhere, Everywhere, ← left, ← right]
    exact and_congr_left fun below => right_division below.1.here below.2.here
  | node op args ih =>
    simp only [Everywhere, ← ih]
    exact and_congr_left fun below => right_node fun i => (below i).here
  | tryCall arg ih =>
    rw [Everywhere, Everywhere, ← ih]
    refine and_congr_left fun below => ?_
    simpa [right_tryCall, Defect] using below.here

private theorem right_of_clean (e : Expr V T) (clean : e.Clean engine row) :
    e.Right engine row := by
  induction e with
  | column name => rfl
  | value v => rfl
  | cast kind target e ih => exact (right_cast (ih clean.2)).mpr clean.1
  | division op l r left right =>
    exact (right_division (left clean.2.1) (right clean.2.2)).mpr clean.1
  | node op args ih => exact clean _ fun i below => ih i below
  | tryCall arg ih => exact right_tryCall.mpr (ih clean)

end Expr

open TryFunction.Expr

/-- At a row, the lowering of `try` is right for an argument and for everything below it exactly
if nothing there has a defect; and for the argument itself if it is clean, whatever defects there
are in what is not looked at. -/
theorem rewriteTry_swallows_iff (engine : Engine V T) (arg : Expr V T) (row : String → Option V) :
    (arg.Everywhere (fun e => ((Expr.tryCall e).rewriteTry engine).eval engine row =
        swallow (e.eval engine row)) ↔ arg.Everywhere (¬ Defect engine row ·)) ∧
    (arg.Clean engine row →
      ((Expr.tryCall arg).rewriteTry engine).eval engine row = swallow (arg.eval engine row)) :=
  ⟨everywhere_right_iff arg, right_of_clean arg⟩

def coalesce : List (Outcome Int) → Outcome Int
  | [] => some none
  | some none :: rest => coalesce rest
  | o :: _ => o

/-- COALESCE and NULLIF of whole numbers; every other operator gives NULL. -/
def applyInt : Operator → List (Outcome Int) → Outcome Int
  | .coalesce, os => coalesce os
  | .nullif, [o, some (some z)] => o.map (Option.filter (· != z))
  | _, _ => some none

private theorem coalesce_lazy {os : List (Outcome Int)} {v : Option Int}
    (found : coalesce os = some v) :
    coalesce (os.map swallow) = some v := by
  fun_induction coalesce os with
  | case1 => exact found
  | case2 rest ih => exact ih found
  | case3 o rest differs =>
    subst found
    cases v with
    | none => exact absurd rfl differs
    | some _ => rfl

def wholeNumbers : Engine Int Unit where
  zero := 0
  isZero := (· == 0)
  cast _ := some
  division op x d :=
    if d = 0 then none else match op with | .divide => some (x.tdiv d) | .modulo => some (x.tmod d)
  apply := applyInt
  isZero_zero := rfl
  division_zero op x d zero := if_pos (eq_of_beq zero)
  nullif_zero o := by cases o <;> rfl
  apply_lazy {op os v} found := by
    cases op with
    | coalesce => exact coalesce_lazy found
    | nullif =>
      rcases os with _ | ⟨_ | o, _ | ⟨_ | _ | z, _ | _⟩⟩ <;> first | exact found | cases found
    | _ => exact found

theorem try_coalesce_hides_failure :
    (Expr.node .coalesce ![.division .divide (.value (some 1)) (.value (some 0)),
      .value (some 5)]).eval wholeNumbers (fun _ => none) = none ∧
    ((Expr.tryCall (.node .coalesce ![.division .divide (.value (some 1)) (.value (some 0)),
      .value (some 5)])).rewriteTry wholeNumbers).eval wholeNumbers (fun _ => none) =
        some (some 5) := by
  exact ⟨rfl, rfl⟩

end Sqe.TrinoCompat.TryFunction
