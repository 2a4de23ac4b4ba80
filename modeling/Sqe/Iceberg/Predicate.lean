/- GID: Sqe/Iceberg/Predicate
   generality: G
   digest: Iceberg predicates, the pushing of NOT to the leaves, and their row evaluation. -/

import Sqe.DataFusion.Kernels

set_option autoImplicit false

namespace Sqe.Iceberg

open Sqe.DataFusion

inductive Datum
  | bool (v : Bool)
  | int (v : Int) | long (v : Int)
  | float (bits : Nat) | double (bits : Nat)
  | string (v : String)
  | binary (v : List UInt8)
  | date (days : Int)
  | timestampMicros (v : Int) | timestamptzMicros (v : Int)
  | timestampNanos (v : Int) | timestamptzNanos (v : Int)
  deriving DecidableEq

/-- The number a literal carries. Binding to a column keeps it, whatever the unit. -/
def Datum.number : Datum → Option Int
  | .bool v => some (if v then 1 else 0)
  | .int v | .long v | .date v | .timestampMicros v | .timestamptzMicros v
  | .timestampNanos v | .timestamptzNanos v => some v
  | _ => none

def Datum.text : Datum → Option String
  | .string v => some v
  | _ => none

def Datum.bytes : Datum → Option (List UInt8)
  | .binary v => some v
  | _ => none

inductive UnaryOperator
  | isNull | notNull
  deriving DecidableEq

inductive BinaryOperator
  | lessThan | lessThanOrEq | greaterThan | greaterThanOrEq | eq | notEq
  | startsWith | notStartsWith
  deriving DecidableEq

inductive SetOperator
  | isIn | notIn
  deriving DecidableEq

def UnaryOperator.negate : UnaryOperator → UnaryOperator
  | .isNull => .notNull
  | .notNull => .isNull

def BinaryOperator.negate : BinaryOperator → BinaryOperator
  | .lessThan => .greaterThanOrEq
  | .lessThanOrEq => .greaterThan
  | .greaterThan => .lessThanOrEq
  | .greaterThanOrEq => .lessThan
  | .eq => .notEq
  | .notEq => .eq
  | .startsWith => .notStartsWith
  | .notStartsWith => .startsWith

def SetOperator.negate : SetOperator → SetOperator
  | .isIn => .notIn
  | .notIn => .isIn

/-- `iceberg::expr::Predicate`. A reference is the name of a column. -/
inductive Predicate
  | alwaysTrue | alwaysFalse
  | and (l r : Predicate)
  | or (l r : Predicate)
  | not (p : Predicate)
  | unary (op : UnaryOperator) (term : String)
  | binary (op : BinaryOperator) (term : String) (literal : Datum)
  | set (op : SetOperator) (term : String) (literals : List Datum)
  deriving DecidableEq

namespace Predicate

def negate : Predicate → Predicate
  | .alwaysTrue => .alwaysFalse
  | .alwaysFalse => .alwaysTrue
  | .and l r => .or l.negate r.negate
  | .or l r => .and l.negate r.negate
  | .not p => p
  | .unary op t => .unary op.negate t
  | .binary op t d => .binary op.negate t d
  | .set op t ds => .set op.negate t ds

/-- Push every `NOT` to the leaves. -/
def rewriteNot : Predicate → Predicate
  | .and l r => .and l.rewriteNot r.rewriteNot
  | .or l r => .or l.rewriteNot r.rewriteNot
  | .not p => p.rewriteNot.negate
  | p => p

/-- `Predicate::and`, which drops a constant operand. -/
def mkAnd (l r : Predicate) : Predicate :=
  match l, r with
  | .alwaysFalse, _ => .alwaysFalse
  | _, .alwaysFalse => .alwaysFalse
  | .alwaysTrue, r => r
  | l, .alwaysTrue => l
  | l, r => .and l r

/-- `Predicate::or`, which drops a constant operand. -/
def mkOr (l r : Predicate) : Predicate :=
  match l, r with
  | .alwaysTrue, _ => .alwaysTrue
  | _, .alwaysTrue => .alwaysTrue
  | .alwaysFalse, r => r
  | l, .alwaysFalse => l
  | l, r => .or l r

end Predicate

/-- The number Iceberg stores for a value: a date counts days. -/
def storedNumber : ScalarValue → Option Int
  | .date64 v => v.map (· / 86400000)
  | v => v.number

def datumOrder (v : ScalarValue) (d : Datum) : Option Ordering :=
  compareKeys (storedNumber v) d.number v.text d.text v.bytes d.bytes

/-- A comparison of a value that is not NULL. -/
def BinaryOperator.holds (op : BinaryOperator) (v : ScalarValue) (d : Datum) : Bool :=
  match op with
  | .lessThan => datumOrder v d == some .lt
  | .lessThanOrEq => datumOrder v d == some .lt || datumOrder v d == some .eq
  | .greaterThan => datumOrder v d == some .gt
  | .greaterThanOrEq => datumOrder v d == some .gt || datumOrder v d == some .eq
  | .eq => datumOrder v d == some .eq
  | .notEq => datumOrder v d != some .eq
  | .startsWith => match v.text, d.text with
      | some s, some t => t.toList.isPrefixOf s.toList
      | _, _ => false
  | .notStartsWith => match v.text, d.text with
      | some s, some t => !t.toList.isPrefixOf s.toList
      | _, _ => true

/-- What a binary operator answers on NULL: the negative ones hold. -/
def BinaryOperator.onNull : BinaryOperator → Bool
  | .notEq | .notStartsWith => true
  | _ => false

/-- `ExpressionEvaluator` on one row, two-valued. It is only run on predicates without `NOT`
and fails on the others. -/
def Predicate.eval (row : String → ScalarValue) : Predicate → Option Bool
  | .alwaysTrue => some true
  | .alwaysFalse => some false
  | .and l r => do
    let a ← l.eval row
    let b ← r.eval row
    return a && b
  | .or l r => do
    let a ← l.eval row
    let b ← r.eval row
    return a || b
  | .not _ => none
  | .unary .isNull t => some (row t).isNull
  | .unary .notNull t => some !(row t).isNull
  | .binary op t d => some (if (row t).isNull then op.onNull else op.holds (row t) d)
  | .set op t ds =>
    some (if (row t).isNull then op == .notIn
      else (ds.any fun d => datumOrder (row t) d == some .eq) == (op == .isIn))

namespace Predicate

def NotFree : Predicate → Prop
  | .and l r => l.NotFree ∧ r.NotFree
  | .or l r => l.NotFree ∧ r.NotFree
  | .not _ => False
  | _ => True

variable {l r p : Predicate}

theorem negate_notFree (free : p.NotFree) : p.negate.NotFree := by
  induction p with
  | and l r left right => exact ⟨left free.1, right free.2⟩
  | or l r left right => exact ⟨left free.1, right free.2⟩
  | not p _ => exact free.elim
  | alwaysTrue | alwaysFalse | unary | binary | set => exact trivial

theorem rewriteNot_notFree (p : Predicate) : p.rewriteNot.NotFree := by
  induction p with
  | and l r left right => exact ⟨left, right⟩
  | or l r left right => exact ⟨left, right⟩
  | not p ih => exact negate_notFree ih
  | alwaysTrue | alwaysFalse | unary | binary | set => exact trivial

theorem negate_negate (free : p.NotFree) : p.negate.negate = p := by
  induction p with
  | alwaysTrue | alwaysFalse => rfl
  | and l r left right => simp only [negate, left free.1, right free.2]
  | or l r left right => simp only [negate, left free.1, right free.2]
  | not p _ => exact free.elim
  | unary op t => cases op <;> rfl
  | binary op t d => cases op <;> rfl
  | set op t ds => cases op <;> rfl

theorem eval_of_notFree (free : p.NotFree) (row : String → ScalarValue) :
    ∃ b, p.eval row = some b := by
  induction p with
  | alwaysTrue | alwaysFalse => exact ⟨_, rfl⟩
  | and l r left right =>
    obtain ⟨a, evalL⟩ := left free.1
    obtain ⟨b, evalR⟩ := right free.2
    exact ⟨a && b, by simp [eval, evalL, evalR]⟩
  | or l r left right =>
    obtain ⟨a, evalL⟩ := left free.1
    obtain ⟨b, evalR⟩ := right free.2
    exact ⟨a || b, by simp [eval, evalL, evalR]⟩
  | not p _ => exact free.elim
  | unary op t => cases op <;> exact ⟨_, rfl⟩
  | binary op t d => exact ⟨_, rfl⟩
  | set op t ds => exact ⟨_, rfl⟩

/-- The predicate, or its negation, without `NOT`. -/
def polar (positive : Bool) (p : Predicate) : Predicate :=
  if positive then p.rewriteNot else p.rewriteNot.negate

theorem polar_not (positive : Bool) (p : Predicate) :
    polar positive (.not p) = polar (!positive) p := by
  cases positive with
  | true => rfl
  | false => exact negate_negate (rewriteNot_notFree p)

theorem polar_notFree (positive : Bool) (p : Predicate) : (polar positive p).NotFree := by
  cases positive with
  | true => exact rewriteNot_notFree p
  | false => exact negate_notFree (rewriteNot_notFree p)

variable {row : String → ScalarValue}

theorem mkAnd_keeps (left : l.eval row = some true)
    (right : r.eval row = some true) : (mkAnd l r).eval row = some true := by
  unfold mkAnd
  split <;> simp_all [eval]

theorem mkOr_keeps (freeL : l.NotFree) (freeR : r.NotFree)
    (side : l.eval row = some true ∨ r.eval row = some true) :
    (mkOr l r).eval row = some true := by
  obtain ⟨a, left⟩ := eval_of_notFree freeL row
  obtain ⟨b, right⟩ := eval_of_notFree freeR row
  unfold mkOr
  split <;> simp_all [eval]

theorem mkAnd_notFree (left : l.NotFree) (right : r.NotFree) : (mkAnd l r).NotFree := by
  unfold mkAnd
  split <;> trivial

theorem mkOr_notFree (left : l.NotFree) (right : r.NotFree) : (mkOr l r).NotFree := by
  unfold mkOr
  split <;> trivial

theorem or_keeps {p q : Predicate} (freeP : p.NotFree) (freeQ : q.NotFree)
    (side : p.eval row = some true ∨ q.eval row = some true) :
    (Predicate.or p q).eval row = some true := by
  obtain ⟨a, evalP⟩ := eval_of_notFree freeP row
  obtain ⟨b, evalQ⟩ := eval_of_notFree freeQ row
  simp only [evalP, evalQ, Option.some.injEq] at side
  rcases side with rfl | rfl <;> simp [eval, evalP, evalQ]

theorem polar_and {positive : Bool}
    (sides : if positive then
        (polar true l).eval row = some true ∧ (polar true r).eval row = some true
      else (polar false l).eval row = some true ∨ (polar false r).eval row = some true) :
    (polar positive (.and l r)).eval row = some true := by
  cases positive with
  | true =>
    have left : l.rewriteNot.eval row = some true := sides.1
    have right : r.rewriteNot.eval row = some true := sides.2
    simp [polar, rewriteNot, eval, left, right]
  | false => exact or_keeps (polar_notFree false l) (polar_notFree false r) sides

theorem polar_or {positive : Bool}
    (sides : if positive then
        (polar true l).eval row = some true ∨ (polar true r).eval row = some true
      else (polar false l).eval row = some true ∧ (polar false r).eval row = some true) :
    (polar positive (.or l r)).eval row = some true := by
  cases positive with
  | true => exact or_keeps (polar_notFree true l) (polar_notFree true r) sides
  | false =>
    have left : l.rewriteNot.negate.eval row = some true := sides.1
    have right : r.rewriteNot.negate.eval row = some true := sides.2
    simp [polar, rewriteNot, negate, eval, left, right]

end Predicate

end Sqe.Iceberg
