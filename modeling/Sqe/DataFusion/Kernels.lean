/- GID: Sqe/DataFusion/Kernels
   generality: G
   digest: The comparison kernels on analysed expressions, and what TRUE and FALSE imply. -/

import Sqe.DataFusion.Eval
import Sqe.Library.Traverse

set_option autoImplicit false

namespace Sqe.DataFusion

open Sqe.Library.Kleene Sqe.Library.Traverse List ScalarValue
open Option (bind_eq_bind bind_eq_some_iff bind_some some.injEq)

/-- The types whose values the comparison kernels order in the way `ScalarValue.order` says.
Floats, times, durations, intervals and nested values are left to the kernel. -/
def DataType.isOrdered : DataType → Bool
  | .boolean | .int8 | .int16 | .int32 | .int64 | .uint8 | .uint16 | .uint32 | .uint64
  | .utf8 | .largeUtf8 | .utf8View | .binary | .largeBinary | .binaryView | .fixedSizeBinary _
  | .date32 | .date64 | .timestamp .. | .decimal128 .. | .decimal256 .. => true
  | _ => false

/-- The number an ordered value that is no text or byte string is compared by. -/
def ScalarValue.number : ScalarValue → Option Int
  | .boolean v => v.map fun b => if b then 1 else 0
  | .int8 v | .int16 v | .int32 v | .int64 v | .date32 v | .date64 v => v
  | .uint8 v | .uint16 v | .uint32 v | .uint64 v => v.map Int.ofNat
  | .timestamp _ v _ | .decimal128 v _ _ | .decimal256 v _ _ => v
  | _ => none

def ScalarValue.text : ScalarValue → Option String
  | .utf8 v | .largeUtf8 v | .utf8View v => v
  | _ => none

def ScalarValue.bytes : ScalarValue → Option (List UInt8)
  | .binary v | .largeBinary v | .binaryView v | .fixedSizeBinary _ v => v
  | _ => none

theorem ScalarValue.no_key_of_isNull {v : ScalarValue} (null : v.isNull = true) :
    v.number = none ∧ v.text = none ∧ v.bytes = none := by
  cases v <;>
    simp_all [isNull, ScalarValue.number, ScalarValue.text, ScalarValue.bytes]

theorem ScalarValue.isOrdered_of_value {v : ScalarValue}
    (value : v.number.isSome ∨ v.text.isSome) : v.dataType.isOrdered = true := by
  cases v with
  | null | float16 | float32 | float64 | binary | largeBinary | binaryView | fixedSizeBinary
  | other => simp [ScalarValue.number, ScalarValue.text] at value
  | _ => rfl

/-- Two values compared by the key that both have, `none` when there is no such key. -/
def compareKeys (number number' : Option Int) (text text' : Option String)
    (bytes bytes' : Option (List UInt8)) : Option Ordering :=
  match number, number', text, text', bytes, bytes' with
  | some x, some y, _, _, _, _ => some (compare x y)
  | _, _, some s, some t, _, _ => some (compare s t)
  | _, _, _, _, some s, some t => some (compare s t)
  | _, _, _, _, _, _ => none

/-- The order of two values of one ordered type, `none` when one of them is NULL. -/
def ScalarValue.order (a b : ScalarValue) : Option Ordering :=
  compareKeys a.number b.number a.text b.text a.bytes b.bytes

/-- The test a comparison operator makes on the order of its operands. -/
def Operator.test : Operator → Option (Ordering → Bool)
  | .eq => some (· == .eq)
  | .notEq => some (· != .eq)
  | .lt => some (· == .lt)
  | .ltEq => some (· != .gt)
  | .gt => some (· == .gt)
  | .gtEq => some (· != .lt)
  | _ => none

/-- The comparison kernel: both sides have one type, NULL on either side is unknown. -/
def compareWith (test : Ordering → Bool) (a b : ScalarValue) : Option ScalarValue :=
  if a.dataType = b.dataType then truthValue ((a.order b).map test) else none

/-- The type analysis knows without looking at a value. -/
def staticType (typeOf : Column → DataType) : Expr → Option DataType
  | .column c => some (typeOf c)
  | .literal v => some v.dataType
  | _ => none

/-- No two operands are known to differ in type. -/
def sameType (typeOf : Column → DataType) (es : List Expr) : Bool :=
  (es.filterMap (staticType typeOf)).all fun t =>
    (es.filterMap (staticType typeOf)).all fun u => t == u

/-- Evaluation of expressions that have been through the analyzer: operands meet with equal
types (an expression that mixes types is refused, so it is TRUE of no row), values of the
ordered types compare by their order, and a comparison with NULL is unknown at every type. -/
structure Analysed (k : Kernels) (typeOf : Column → DataType) : Prop where
  coerce : ∀ es v, k.coerce es v = if sameType typeOf es then some v else none
  compare : ∀ op test, op.test = some test → ∀ a b,
    a.dataType.isOrdered = true ∨ b.dataType.isOrdered = true →
      k.binary op a b = compareWith test a b
  compare_mismatch : ∀ op test, op.test = some test → ∀ a b, a.dataType ≠ b.dataType →
    k.binary op a b = none
  compare_null : ∀ op test, op.test = some test → ∀ a b, a.isNull = true ∨ b.isNull = true →
    (k.binary op a b).bind ScalarValue.truth = none

theorem ScalarValue.order_swap (a b : ScalarValue) : b.order a = (a.order b).map Ordering.swap := by
  unfold ScalarValue.order compareKeys
  cases a.number <;> cases b.number <;> cases a.text <;> cases b.text <;>
    cases a.bytes <;> cases b.bytes <;>
    simp only [Option.map_some, Option.map_none, some.injEq] <;>
    exact Std.OrientedCmp.eq_swap

variable {a b : ScalarValue}

theorem ScalarValue.order_of_isNull
    (null : a.isNull = true ∨ b.isNull = true) : a.order b = none := by
  rcases null with left | right
  · simp [ScalarValue.order, compareKeys, no_key_of_isNull left]
  · simp [ScalarValue.order, compareKeys, no_key_of_isNull right]

theorem ScalarValue.not_isNull_of_order {o : Ordering}
    (order : a.order b = some o) : a.isNull = false := by
  refine Bool.eq_false_iff.mpr fun null => ?_
  rw [order_of_isNull (Or.inl null)] at order
  cases order

@[simp] theorem ScalarValue.order_nullOf (t : DataType) (v : ScalarValue) :
    (nullOf t).order v = none := by
  have number : (nullOf t).number = none := by cases t <;> rfl
  have text : (nullOf t).text = none := by cases t <;> rfl
  have bytes : (nullOf t).bytes = none := by cases t <;> rfl
  simp [ScalarValue.order, compareKeys, number, text, bytes]

theorem compareWith_truth {test : Ordering → Bool} {t : Bool} :
    (compareWith test a b).bind ScalarValue.truth = some t ↔
      a.dataType = b.dataType ∧ ∃ o, a.order b = some o ∧ test o = t := by
  unfold compareWith
  split <;> simp_all

theorem compareWith_swap (test : Ordering → Bool) :
    compareWith test b a = compareWith (fun o => test o.swap) a b := by
  unfold compareWith
  by_cases same : a.dataType = b.dataType
  · rw [if_pos same, if_pos same.symm, order_swap a b, Option.map_map]
    rfl
  · rw [if_neg same, if_neg (Ne.symm same)]

section Holds

variable {k : Kernels} {env : RowEnv}

/-- The expression is FALSE on the row, which is more than not being TRUE. -/
def Refuted (k : Kernels) (env : RowEnv) (e : Expr) : Prop :=
  (eval k env e).bind ScalarValue.truth = some false

variable {l r : Expr} {v : ScalarValue} {ws : List ScalarValue}

theorem and_truth {t : Bool}
    (truth : (eval k env (.binaryExpr l .and r)).bind ScalarValue.truth = some t) :
    t = false ∧ Refuted k env l ∨ and3 ((eval k env l).bind ScalarValue.truth)
      ((eval k env r).bind ScalarValue.truth) = some t := by
  simp only [Refuted, eval] at truth ⊢
  cases left : eval k env l with
  | none => simp [left] at truth
  | some a =>
    by_cases skipped : a.truth = some false ∧ env.skip r = true
    · exact .inl (by simpa [left, skipped, eq_comm] using truth)
    · cases right : eval k env r with
      | none => simp [left, right, skipped] at truth
      | some b => exact .inr (by simpa [left, right, skipped] using truth)

theorem or_truth {t : Bool}
    (truth : (eval k env (.binaryExpr l .or r)).bind ScalarValue.truth = some t) :
    t = true ∧ Holds k env l ∨ or3 ((eval k env l).bind ScalarValue.truth)
      ((eval k env r).bind ScalarValue.truth) = some t := by
  simp only [Holds, eval] at truth ⊢
  cases left : eval k env l with
  | none => simp [left] at truth
  | some a =>
    by_cases skipped : a.truth = some true ∧ env.skip r = true
    · exact .inl (by simpa [left, skipped, eq_comm] using truth)
    · cases right : eval k env r with
      | none => simp [left, right, skipped] at truth
      | some b => exact .inr (by simpa [left, right, skipped] using truth)

theorem refuted_and (refuted : Refuted k env (.binaryExpr l .and r)) :
    Refuted k env l ∨ Refuted k env r :=
  (and_truth refuted).elim (fun skipped => .inl skipped.2) and3_eq_false.mp

theorem refuted_or (refuted : Refuted k env (.binaryExpr l .or r)) :
    Refuted k env l ∧ Refuted k env r :=
  (or_truth refuted).elim nofun or3_eq_false.mp

theorem holds_not {e : Expr} : Holds k env (.not e) ↔ Refuted k env e := by
  simp only [Holds, Refuted, eval]
  cases eval k env e <;> simp

theorem refuted_not {e : Expr} : Refuted k env (.not e) ↔ Holds k env e := by
  simp only [Holds, Refuted, eval]
  cases eval k env e <;> simp

theorem holds_and (holds : Holds k env (.binaryExpr l .and r)) : Holds k env l ∧ Holds k env r :=
  (and_truth holds).elim nofun and3_eq_true.mp

theorem holds_or (holds : Holds k env (.binaryExpr l .or r)) : Holds k env l ∨ Holds k env r :=
  (or_truth holds).elim (fun skipped => .inl skipped.2) or3_eq_true.mp

theorem eval_comparison {op : Operator} {test : Ordering → Bool} (tested : op.test = some test)
    (l r : Expr) :
    eval k env (.binaryExpr l op r) = (do
      let a ← eval k env l
      let b ← eval k env r
      let a' ← k.coerce [l, r] a
      let b' ← k.coerce [l, r] b
      k.binary op a' b') := by
  cases op <;> first | rfl | simp [Operator.test] at tested

theorem evalList_eq_mapM (es : List Expr) : evalList k env es = es.mapM (eval k env) := by
  induction es with
  | nil => rfl
  | cons e es ih => simp only [evalList, ih, mapM_cons, Option.pure_def]

theorem memberOf_true (hit : memberOf k v ws = some (some true)) :
    ∃ w ∈ ws, (k.binary .eq v w).bind ScalarValue.truth = some true := by
  induction ws with
  | nil => simp [memberOf] at hit
  | cons w ws ih =>
    simp only [memberOf, bind_eq_bind, bind_eq_some_iff, Option.pure_def,
      some.injEq, or3_eq_true] at hit
    obtain ⟨h, first, rest, later, here | there⟩ := hit
    · exact ⟨w, mem_cons_self, by simp [first, here]⟩
    · obtain ⟨w', member, holds⟩ := ih (by rw [later, there])
      exact ⟨w', mem_cons_of_mem _ member, holds⟩

theorem memberOf_false
    (miss : memberOf k v ws = some (some false)) {w : ScalarValue} (member : w ∈ ws) :
    (k.binary .eq v w).bind ScalarValue.truth = some false := by
  induction ws with
  | nil => cases member
  | cons w' ws ih =>
    simp only [memberOf, bind_eq_bind, bind_eq_some_iff, Option.pure_def,
      some.injEq, or3_eq_false] at miss
    obtain ⟨h, first, rest, later, here, there⟩ := miss
    rcases mem_cons.mp member with rfl | member
    · simp [first, here]
    · exact ih (by rw [later, there]) member

theorem evalList_literals (lits : List ScalarValue) :
    evalList k env (lits.map Expr.literal) = some lits := by
  induction lits with
  | nil => rfl
  | cons v lits ih => simp [evalList, eval, ih]

theorem memberOf_eq {hit : ScalarValue → Option Bool}
    (evaluated : ∀ w ∈ ws, k.binary .eq v w = some (.boolean (hit w))) :
    memberOf k v ws = some (ws.foldr (fun w rest => or3 (hit w) rest) (some false)) := by
  induction ws with
  | nil => rfl
  | cons w ws ih =>
    have rest := ih (forall_mem_cons.mp evaluated).2
    simp [memberOf, evaluated w mem_cons_self, rest]

end Holds

section Analysed

variable {k : Kernels} {typeOf : Column → DataType} (analysed : Analysed k typeOf)
  {env : RowEnv}
include analysed

variable {op : Operator} {test : Ordering → Bool} {l r e : Expr} {n t : Bool}

section Compare

variable (tested : op.test = some test) {a b : ScalarValue} (left : eval k env l = some a)
  (right : eval k env r = some b)
include tested left right

theorem eval_compare (ordered : a.dataType.isOrdered = true ∨ b.dataType.isOrdered = true) :
    eval k env (.binaryExpr l op r) =
      if sameType typeOf [l, r] then compareWith test a b else none := by
  rw [eval_comparison tested, left, right]
  simp only [bind_eq_bind, bind_some, analysed.coerce]
  split
  · simp [analysed.compare op test tested a b ordered]
  · simp

theorem holds_comparison (ordered : a.dataType.isOrdered = true ∨ b.dataType.isOrdered = true) :
    Holds k env (.binaryExpr l op r) ↔
      sameType typeOf [l, r] = true ∧ a.dataType = b.dataType ∧
        ∃ o, a.order b = some o ∧ test o = true := by
  rw [Holds, eval_compare analysed tested left right ordered]
  split
  · rw [compareWith_truth]
    simp_all
  · simp_all

theorem not_holds_null (null : a.isNull = true ∨ b.isNull = true) :
    ¬ Holds k env (.binaryExpr l op r) := by
  rw [Holds, eval_comparison tested, left, right]
  simp only [bind_eq_bind, bind_some, analysed.coerce]
  split
  · simp [analysed.compare_null op test tested a b null]
  · simp

end Compare

theorem eval_inList {l : List Expr} {v : ScalarValue}
    {ws : List ScalarValue} (head : eval k env e = some v)
    (items : evalList k env l = some ws) :
    eval k env (.inList e l n) =
      if sameType typeOf (e :: l) then
        (memberOf k v ws).bind fun hit => truthValue (negateIf n hit)
      else none := by
  simp only [eval, head, items, bind_eq_bind, bind_some]
  by_cases same : sameType typeOf (e :: l) = true
  · have kept : ws.mapM (k.coerce (e :: l)) = some ws :=
      mapM_eq_some_iff.mpr (forall₂_same.mpr fun w _ => by rw [analysed.coerce, if_pos same])
    rw [analysed.coerce, if_pos same, if_pos same, kept]
    rfl
  · rw [analysed.coerce, if_neg same, if_neg same]
    rfl

theorem comparison_truth (tested : op.test = some test)
    (truth : (eval k env (.binaryExpr l op r)).bind ScalarValue.truth = some t) :
    ∃ a b, eval k env l = some a ∧ eval k env r = some b ∧
      (k.binary op a b).bind ScalarValue.truth = some t := by
  rw [eval_comparison tested] at truth
  simp only [bind_eq_bind, bind_eq_some_iff, analysed.coerce,
    Option.ite_none_right_eq_some, some.injEq] at truth
  obtain ⟨w, ⟨a, left, b, right, _, ⟨-, rfl⟩, _, ⟨-, rfl⟩, hit⟩, decided⟩ := truth
  exact ⟨a, b, left, right, bind_eq_some_iff.mpr ⟨w, hit, decided⟩⟩

theorem binary_truth (tested : op.test = some test)
    {a b : ScalarValue} (ordered : b.dataType.isOrdered = true)
    (truth : (k.binary op a b).bind ScalarValue.truth = some t) :
    a.dataType = b.dataType ∧ ∃ o, a.order b = some o ∧ test o = t := by
  rw [analysed.compare op test tested a b (Or.inr ordered)] at truth
  exact compareWith_truth.mp truth

theorem inList_truth {l : List Expr}
    (truth : (eval k env (.inList e l n)).bind ScalarValue.truth = some t) :
    ∃ v ws, eval k env e = some v ∧ evalList k env l = some ws ∧
      sameType typeOf (e :: l) = true ∧ memberOf k v ws = some (some (t != n)) := by
  cases head : eval k env e with
  | none => simp [eval, head] at truth
  | some v =>
    cases items : evalList k env l with
    | none => simp [eval, head, items] at truth
    | some ws =>
      rw [eval_inList analysed head items] at truth
      split at truth
      next same =>
        refine ⟨v, ws, rfl, rfl, same, ?_⟩
        rcases member : memberOf k v ws with _ | hit
        · simp [member] at truth
        · rcases hit with _ | _ | _ <;> cases n <;> cases t <;>
            simp_all [negateIf, not3]
      · simp at truth

theorem holds_inList {l : List Expr} {v : ScalarValue}
    (head : eval k env e = some v) (holds : Holds k env (.inList e l n)) :
    sameType typeOf (e :: l) = true ∧
      ∃ ws, evalList k env l = some ws ∧ memberOf k v ws = some (some !n) := by
  obtain ⟨_, ws, value, items, same, member⟩ := inList_truth analysed holds
  cases value.symm.trans head
  exact ⟨same, ws, items, by simpa using member⟩

end Analysed

theorem sameType_iff {typeOf : Column → DataType} {es : List Expr} :
    sameType typeOf es = true ↔
      ∀ e ∈ es, ∀ t, staticType typeOf e = some t →
        ∀ e' ∈ es, ∀ t', staticType typeOf e' = some t' → t = t' := by
  simp only [sameType, all_eq_true, mem_filterMap, forall_exists_index, and_imp, beq_iff_eq]
  constructor
  · intro same e he t ht e' he' t' ht'
    exact same t e he ht t' e' he' ht'
  · intro same t e he ht t' e' he' ht'
    exact same e he t ht e' he' t' ht'

end Sqe.DataFusion
