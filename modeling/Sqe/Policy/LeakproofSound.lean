/- GID: Sqe/Policy/LeakproofSound
   generality: G
   digest: An expression the leakproof check accepts fails on all rows alike. -/

import Sqe.DataFusion.EvalCongr
import Sqe.Library.TwoRuns
import Sqe.Policy.Leakproof

/-!
Two runs of one expression are compared, on two rows. In a position every row reaches they have
to fail alike; in a position only some rows reach they must not fail at all. Values read from
rows meet both demands through the widening of their coercions, as far as they have the type
that typing reports. A constant meets the first by being a constant, and nothing in the check
makes it meet the second.
-/

set_option autoImplicit false

namespace Sqe.Policy.Leakproof

open Sqe.DataFusion Sqe.Library.Kleene Sqe.Library.Traverse Sqe.Library.TwoRuns List
open Option (bind_eq_bind isSome_iff_exists not_isSome)

/-- A value of a type, a NULL of whichever type included. -/
def Typed (v : ScalarValue) (t : DataType) : Prop :=
  v.isNull = true ∨ v.dataType = t ∧ WellFormed v

/-- The expression has on the row a value of the type that `get_type` reports. A `CASE` has not
when its branches differ in type: it is reported with the type of its first `THEN` and evaluates
to the common type of all. -/
def Reported (k : Kernels) (typing : Typing) (row : RowEnv) (e : Expr) : Prop :=
  ∀ t v, typing.getType e = some t → eval k row e = some v → Typed v t

/-- The same of the column of a subquery. -/
def ReportedColumn (typing : Typing) (row : RowEnv) (q : Nat) : Prop :=
  ∀ t vs, typing.subqueryType q = some t → row.subquery q = some vs → ∀ v ∈ vs, Typed v t

/-- What is assumed of the engine: implicit coercion casts to the common comparison type, a cast
cannot fail when every value of the source type is representable in the target, two values of
one type can be compared, and a `LIKE` on strings fails through its pattern alone. -/
structure Engine (k : Kernels) (typing : Typing) : Prop where
  coerce : ∀ es types common, es.mapM typing.getType = some types →
    typing.commonType types = some common → ∀ v, k.coerce es v = k.cast v common
  coerceIn : ∀ e q outer inner common, typing.getType e = some outer →
    typing.subqueryType q = some inner → typing.commonType [outer, inner] = some common →
    ∀ v, k.coerceIn e q v = k.cast v common
  cast : ∀ source target,
    (∀ v, v.dataType = source → WellFormed v → Representable v target) →
      ∀ v, Typed v source → (k.cast v target).isSome = true
  cast_type : ∀ v target w, k.cast v target = some w → w.dataType = target
  compare : ∀ op a b, isComparison op = true → a.dataType = b.dataType →
    (k.binary op a b).isSome = true
  like : ∀ escape caseInsensitive v v' pattern, (∃ t, Typed v t ∧ isString t = true) →
    (∃ t, Typed v' t ∧ isString t = true) →
      (k.like escape caseInsensitive v pattern).isSome =
        (k.like escape caseInsensitive v' pattern).isSome
  grouping : ∀ vs, (k.other "GROUPING SETS" vs).isSome = true

/-- Evaluating the constant fails in no environment. -/
def NeverFails (k : Kernels) (e : Expr) : Prop := ∀ env, (eval k env e).isSome = true

/-- A constant in a position that only some rows reach does not fail; in any constant, no right
operand of `AND` or `OR` does. -/
def ConstantCalm (k : Kernels) (conditional : Bool) (e : Expr) : Prop :=
  (∀ l op r, .binaryExpr l op r ∈ e.subexprs → op.isLogical = true → NeverFails k r) ∧
    (conditional = true → NeverFails k e)

/-- What is asked of the parts of an expression: of the body of a subquery, in a position that
only some rows reach or in any, of an operand whose type the check looks up, and of the column of
a subquery. -/
structure Demands where
  body : Bool → Nat → Prop
  operand : Expr → Prop
  column : Nat → Prop

/-- A constant operand in such a position also survives its implicit coercion, and one that reads
the row has the type it is coerced from. -/
def OperandCalm (k : Kernels) (demands : Demands) (conditional : Bool) (operands : List Expr)
    (e : Expr) : Prop :=
  (readsRows e = true → demands.operand e) ∧
    (conditional = true → readsRows e = false → ∀ env v, eval k env e = some v →
      (k.coerce operands v).isSome = true)

mutual

/-- No constant, and no subquery body, fails where only some rows get to: on the right of `AND`
and `OR`, in a `WHEN` after the first, in a `THEN` or an `ELSE`. The operands that are coerced,
cast or matched have the types they are reported with. -/
def Calm (k : Kernels) (demands : Demands) (conditional : Bool) (e : Expr) : Prop :=
  if readsRows e = false then ConstantCalm k conditional e
  else match e with
  | .alias e _ _ | .not e | .is _ e | .tryCast e _ => Calm k demands conditional e
  | .cast e _ => Calm k demands conditional e ∧ demands.operand e
  | .binaryExpr l op r =>
    Calm k demands conditional l ∧ Calm k demands (conditional || op.isLogical) r ∧
      (op.isLogical = false →
        OperandCalm k demands conditional [l, r] l ∧ OperandCalm k demands conditional [l, r] r)
  | .like _ e pattern escape caseInsensitive =>
    (Calm k demands conditional e ∧ demands.operand e) ∧ Calm k demands conditional pattern ∧
      (conditional = true → ∀ env w, eval k env pattern = some w →
        (k.like escape caseInsensitive (.utf8 none) w).isSome = true)
  | .between e _ low high =>
    (Calm k demands conditional e ∧ OperandCalm k demands conditional [e, low, high] e) ∧
      (Calm k demands conditional low ∧ OperandCalm k demands conditional [e, low, high] low) ∧
      Calm k demands conditional high ∧ OperandCalm k demands conditional [e, low, high] high
  | .inList e list _ =>
    Calm k demands conditional e ∧ OperandCalm k demands conditional (e :: list) e ∧
      CalmList k demands true conditional (e :: list) list
  | .case base whenThen els =>
    let operands := base.toList ++ whenThen.map Prod.fst
    let values := whenThen.map Prod.snd ++ els.toList
    (CalmOption k demands conditional operands base) ∧
      CalmWhens k demands base.isSome conditional operands values whenThen ∧
      CalmOption k demands true values els
  | .groupingSet es => CalmList k demands false conditional [] es
  | .exists q _ => demands.body conditional q
  | .inSubquery e q _ =>
    (Calm k demands conditional e ∧ demands.operand e) ∧ demands.body conditional q ∧
      demands.column q
  | _ => True
termination_by structural e

def CalmList (k : Kernels) (demands : Demands) (coerced conditional : Bool)
    (operands : List Expr) : List Expr → Prop
  | [] => True
  | e :: es =>
    Calm k demands conditional e ∧ (coerced = true → OperandCalm k demands conditional operands e) ∧
      CalmList k demands coerced conditional operands es
termination_by structural es => es

def CalmOption (k : Kernels) (demands : Demands) (conditional : Bool)
    (operands : List Expr) : Option Expr → Prop
  | none => True
  | some e => Calm k demands conditional e ∧ OperandCalm k demands conditional operands e
termination_by structural o => o

def CalmWhens (k : Kernels) (demands : Demands) (based conditional : Bool)
    (operands values : List Expr) : List (Expr × Expr) → Prop
  | [] => True
  | (w, t) :: rest =>
    Calm k demands conditional w ∧
      (based = true → OperandCalm k demands conditional operands w) ∧
      (Calm k demands true t ∧ OperandCalm k demands true values t) ∧
      CalmWhens k demands based true operands values rest
termination_by structural wt => wt

end

theorem constant_reads_nothing {e : Expr} (constant : readsRows e = false) {x : Expr}
    (inside : x ∈ e.subexprs) : readsRow x = false := by
  simpa using any_eq_false.mp constant x inside

variable {demands : Demands} {conditional : Bool}

theorem eval_constant {k : Kernels} {e : Expr}
    (constant : readsRows e = false) (calm : ConstantCalm k conditional e) (env env' : RowEnv) :
    eval k env e = eval k env' e := by
  refine eval_congr e ⟨?_, ?_, ?_, ?_⟩
  · intro c inside
    cases constant_reads_nothing constant inside
  · intro c inside
    cases constant_reads_nothing constant inside
  · intro x inside q holds
    have none := constant_reads_nothing constant inside
    cases x <;> simp_all [Expr.subqueryNumber, readsRow]
  · intro l op r inside logical
    exact Or.inr (calm.1 l op r inside logical env)

theorem calm_constant {k : Kernels} {e : Expr}
    (constant : readsRows e = false) (calm : Calm k demands conditional e) :
    ConstantCalm k conditional e := by
  unfold Calm at calm
  rwa [if_pos constant] at calm

theorem lossless_inv {typing : Typing} {es : List Expr}
    (lossless : typing.coercesLosslessly es = true) :
    ∃ types common, es.mapM typing.getType = some types ∧
      typing.commonType types = some common ∧
      ∀ e ∈ es, ∃ t, typing.getType e = some t ∧ (readsRows e = true → widens t common = true) := by
  unfold Typing.coercesLosslessly at lossless
  split at lossless
  · cases lossless
  next types typed =>
  split at lossless
  · cases lossless
  next common found =>
  refine ⟨types, common, typed, found, fun e member => ?_⟩
  rw [all_eq_true] at lossless
  obtain ⟨t, inZip, type⟩ := forall₂_exists_zip (mapM_eq_some_iff.mp typed) member
  refine ⟨t, type, fun reads => ?_⟩
  simpa [reads] using lossless (e, t) inZip

/-- A subquery body fails for both rows or for neither, and for neither where only some rows
reach it. Operands and subquery columns have on both rows the type they are reported with. -/
def demandsOf (k : Kernels) (typing : Typing) (row₁ row₂ : RowEnv) : Demands where
  body conditional q := Alike conditional (row₁.subquery q) (row₂.subquery q)
  operand e := Reported k typing row₁ e ∧ Reported k typing row₂ e
  column q := ReportedColumn typing row₁ q ∧ ReportedColumn typing row₂ q

section TwoRows

variable {k : Kernels} {typing : Typing} (engine : Engine k typing) {row₁ row₂ : RowEnv}
  (reported : ∀ e, demands.operand e → Reported k typing row₁ e ∧ Reported k typing row₂ e)
include engine reported

variable {e : Expr} {v : ScalarValue} {es operands : List Expr} {ws : List ScalarValue}
variable {negated : Bool}

omit reported in
theorem cast_of_widens {source target : DataType} (typed : Typed v source)
    (widening : widens source target = true) : (k.cast v target).isSome = true := by
  refine engine.cast source target (fun w is wellFormed => ?_) v typed
  subst is
  exact widens_representable wellFormed widening

theorem coerce_alike (lossless : typing.coercesLosslessly es = true) (member : e ∈ es)
    (calm : Calm k demands conditional e) (operand : OperandCalm k demands conditional es e)
    {w : ScalarValue} (left : eval k row₁ e = some v) (right : eval k row₂ e = some w) :
    Alike conditional (k.coerce es v) (k.coerce es w) := by
  obtain ⟨types, common, typed, found, each⟩ := lossless_inv lossless
  obtain ⟨t, type, widening⟩ := each e member
  cases reads : readsRows e with
  | true =>
    rw [engine.coerce es types common typed found, engine.coerce es types common typed found]
    obtain ⟨first, second⟩ := reported e (operand.1 reads)
    exact alike_of_isSome (cast_of_widens engine (first t v type left) (widening reads))
      (cast_of_widens engine (second t w type right) (widening reads))
  | false =>
    rw [eval_constant reads (calm_constant reads calm) row₁ row₂, right] at left
    cases left
    exact alike_self fun isConditional => operand.2 isConditional reads row₂ _ right

omit reported in
theorem coerce_type (lossless : typing.coercesLosslessly es = true) :
    ∃ common, ∀ v v', k.coerce es v = some v' → v'.dataType = common := by
  obtain ⟨types, common, typed, found, -⟩ := lossless_inv lossless
  refine ⟨common, fun v v' coerced => ?_⟩
  rw [engine.coerce es types common typed found] at coerced
  exact engine.cast_type v common v' coerced

theorem comparison_alike {l r : Expr} {op : Operator} (compares : isComparison op = true)
    (lossless : typing.coercesLosslessly [l, r] = true) (calmL : Calm k demands conditional l)
    (calmR : Calm k demands conditional r) (operandL : OperandCalm k demands conditional [l, r] l)
    (operandR : OperandCalm k demands conditional [l, r] r)
    (alikeL : Alike conditional (eval k row₁ l) (eval k row₂ l))
    (alikeR : Alike conditional (eval k row₁ r) (eval k row₂ r)) :
    Alike conditional (eval k row₁ (.binaryExpr l op r)) (eval k row₂ (.binaryExpr l op r)) := by
  obtain ⟨common, type⟩ := coerce_type engine lossless
  have plain : op.isLogical = false := by cases op <;> first | rfl | cases compares
  rw [eval_operator plain, eval_operator plain]
  refine alikeL.bind fun a₁ a₂ left₁ left₂ => alikeR.bind fun b₁ b₂ right₁ right₂ => ?_
  have coerceL := coerce_alike engine reported lossless mem_cons_self calmL operandL
    left₁ left₂
  have coerceR := coerce_alike engine reported lossless
    (mem_cons_of_mem _ mem_cons_self) calmR operandR right₁ right₂
  refine coerceL.bind fun a₁' a₂' left₁ left₂ => coerceR.bind fun b₁' b₂' right₁ right₂ => ?_
  exact alike_of_isSome
    (engine.compare op a₁' b₁' compares ((type _ _ left₁).trans (type _ _ right₁).symm))
    (engine.compare op a₂' b₂' compares ((type _ _ left₂).trans (type _ _ right₂).symm))

omit reported in
theorem memberOf_isSome
    (types : ∀ w ∈ ws, v.dataType = w.dataType) : (memberOf k v ws).isSome = true := by
  induction ws with
  | nil => rfl
  | cons w ws ih =>
    obtain ⟨hit, evaluated⟩ := isSome_iff_exists.mp
      (engine.compare .eq v w rfl (types w mem_cons_self))
    obtain ⟨rest, found⟩ := isSome_iff_exists.mp
      (ih (forall_mem_cons.mp types).2)
    simp [memberOf, evaluated, found]

theorem between_alike {low high : Expr} (lossless : typing.coercesLosslessly [e, low, high] = true)
    (calm : Calm k demands conditional e ∧ OperandCalm k demands conditional [e, low, high] e)
    (calmLow : Calm k demands conditional low ∧
      OperandCalm k demands conditional [e, low, high] low)
    (calmHigh : Calm k demands conditional high ∧
      OperandCalm k demands conditional [e, low, high] high)
    (alike : Alike conditional (eval k row₁ e) (eval k row₂ e))
    (alikeLow : Alike conditional (eval k row₁ low) (eval k row₂ low))
    (alikeHigh : Alike conditional (eval k row₁ high) (eval k row₂ high)) :
    Alike conditional (eval k row₁ (.between e negated low high))
      (eval k row₂ (.between e negated low high)) := by
  obtain ⟨common, type⟩ := coerce_type engine lossless
  refine alike.bind fun v₁ v₂ value₁ value₂ => alikeLow.bind fun a₁ a₂ low₁ low₂ =>
    alikeHigh.bind fun b₁ b₂ high₁ high₂ => ?_
  have coerceV := coerce_alike engine reported lossless (by simp) calm.1 calm.2 value₁ value₂
  have coerceL := coerce_alike engine reported lossless (by simp) calmLow.1 calmLow.2 low₁ low₂
  have coerceH := coerce_alike engine reported lossless (by simp) calmHigh.1 calmHigh.2
    high₁ high₂
  refine coerceV.bind fun v₁' v₂' value₁ value₂ => coerceL.bind fun a₁' a₂' low₁ low₂ =>
    coerceH.bind fun b₁' b₂' high₁ high₂ => ?_
  have above : Alike conditional (k.binary .gtEq v₁' a₁') (k.binary .gtEq v₂' a₂') :=
    alike_of_isSome (engine.compare _ _ _ rfl ((type _ _ value₁).trans (type _ _ low₁).symm))
      (engine.compare _ _ _ rfl ((type _ _ value₂).trans (type _ _ low₂).symm))
  have below : Alike conditional (k.binary .ltEq v₁' b₁') (k.binary .ltEq v₂' b₂') :=
    alike_of_isSome (engine.compare _ _ _ rfl ((type _ _ value₁).trans (type _ _ high₁).symm))
      (engine.compare _ _ _ rfl ((type _ _ value₂).trans (type _ _ high₂).symm))
  exact above.bind fun _ _ _ _ => below.bind fun _ _ _ _ => alike_some _ _

theorem like_alike {pattern : Expr} {caseInsensitive : Bool} {escape : Option Char}
    (constant : readsRows pattern = false)
    (isText : (typing.getType e).any isString = true) (operand : demands.operand e)
    (calm : Calm k demands conditional pattern)
    (compiles : conditional = true → ∀ env w, eval k env pattern = some w →
      (k.like escape caseInsensitive (.utf8 none) w).isSome = true)
    (alike : Alike conditional (eval k row₁ e) (eval k row₂ e)) :
    Alike conditional (eval k row₁ (.like negated e pattern escape caseInsensitive))
      (eval k row₂ (.like negated e pattern escape caseInsensitive)) := by
  rw [Option.any_eq_true] at isText
  obtain ⟨t, type, string⟩ := isText
  have calm := calm_constant constant calm
  have same := eval_constant constant calm row₁ row₂
  simp only [eval, bind_eq_bind, same]
  refine alike.bind fun v₁ v₂ value₁ value₂ => (alike_self fun sure => calm.2 sure row₂).bind
    fun p p' pattern₁ pattern₂ => ?_
  cases pattern₁.symm.trans pattern₂
  obtain ⟨first, second⟩ := reported e operand
  have text₁ : ∃ t, Typed v₁ t ∧ isString t = true := ⟨t, first t v₁ type value₁, string⟩
  have text₂ : ∃ t, Typed v₂ t ∧ isString t = true := ⟨t, second t v₂ type value₂, string⟩
  have matched : Alike conditional (k.like escape caseInsensitive v₁ p)
      (k.like escape caseInsensitive v₂ p) := by
    refine ⟨engine.like escape caseInsensitive v₁ v₂ p text₁ text₂, fun sure => ?_⟩
    rw [engine.like escape caseInsensitive v₁ (.utf8 none) p text₁ ⟨.utf8, Or.inl rfl, rfl⟩]
    exact compiles sure row₂ p pattern₂
  exact matched.bind fun _ _ _ _ => alike_some _ _

omit engine reported in
theorem evalList_pairs {vs : List ScalarValue}
    (left : evalList k row₁ es = some vs) (right : evalList k row₂ es = some ws)
    {r : ScalarValue → ScalarValue → Prop}
    (related : ∀ e ∈ es, ∀ v w, eval k row₁ e = some v → eval k row₂ e = some w → r v w) :
    Forall₂ r vs ws := by
  rw [evalList_eq_mapM] at left right
  exact forall₂_join (mapM_eq_some_iff.mp right) (mapM_eq_some_iff.mp left)
    fun e member w _ v right left => related e member v w left right

omit engine reported in
theorem calmList_mem {coerced : Bool} (calm : CalmList k demands coerced conditional operands es)
    (member : e ∈ es) : Calm k demands conditional e ∧
      (coerced = true → OperandCalm k demands conditional operands e) := by
  induction es with
  | nil => cases member
  | cons e' es ih =>
    rcases mem_cons.mp member with rfl | later
    · exact ⟨calm.1, calm.2.1⟩
    · exact ih calm.2.2 later

theorem inList_alike {list : List Expr} (lossless : typing.coercesLosslessly (e :: list) = true)
    (calm : Calm k demands conditional e)
    (operand : OperandCalm k demands conditional (e :: list) e)
    (calmList : CalmList k demands true conditional (e :: list) list)
    (alike : Alike conditional (eval k row₁ e) (eval k row₂ e))
    (alikeList : Alike conditional (evalList k row₁ list) (evalList k row₂ list)) :
    Alike conditional (eval k row₁ (.inList e list negated))
      (eval k row₂ (.inList e list negated)) := by
  obtain ⟨common, type⟩ := coerce_type engine lossless
  have coerced {vs vs' : List ScalarValue} (all : vs.mapM (k.coerce (e :: list)) = some vs') :
      ∀ v ∈ vs', common = v.dataType := by
    intro v member
    obtain ⟨w, -, coerced⟩ := forall₂_exists_left (mapM_eq_some_iff.mp all) member
    exact (type w v coerced).symm
  refine alike.bind fun v₁ v₂ value₁ value₂ => alikeList.bind fun ws₁ ws₂ items₁ items₂ => ?_
  have head := coerce_alike engine reported lossless mem_cons_self calm operand
    value₁ value₂
  have tail : Alike conditional (ws₁.mapM (k.coerce (e :: list)))
      (ws₂.mapM (k.coerce (e :: list))) :=
    alike_mapM (evalList_pairs items₁ items₂ fun e' member v w left right =>
      coerce_alike engine reported lossless (mem_cons_of_mem _ member)
        (calmList_mem calmList member).1 ((calmList_mem calmList member).2 rfl) left right)
  refine head.bind fun v₁' v₂' value₁ value₂ => tail.bind fun ws₁' ws₂' items₁ items₂ => ?_
  have found : Alike conditional (memberOf k v₁' ws₁') (memberOf k v₂' ws₂') :=
    alike_of_isSome
      (memberOf_isSome engine fun w member => (type _ _ value₁).trans (coerced items₁ w member))
      (memberOf_isSome engine fun w member => (type _ _ value₂).trans (coerced items₂ w member))
  exact found.bind fun _ _ _ _ => alike_some _ _

section InSubquery

omit reported

variable {q : Nat} {outer inner : DataType}
  (type : typing.getType e = some outer) (column : typing.subqueryType q = some inner)
  (wide : typing.coerceWidens [outer, inner] = true)
  (operand : Reported k typing row₁ e) (members : ReportedColumn typing row₁ q)
  (value : eval k row₁ e = some v) (rows : row₁.subquery q = some ws)
include type column wide operand members value rows

theorem coerceIn_row :
    ∃ common, (∃ v', k.coerceIn e q v = some v' ∧ v'.dataType = common) ∧
      ∃ ws', ws.mapM (k.coerceIn e q) = some ws' ∧ ∀ w ∈ ws', w.dataType = common := by
  rw [Typing.coerceWidens, Option.any_eq_true] at wide
  obtain ⟨common, found, wide⟩ := wide
  simp only [all_cons, all_nil, Bool.and_true, Bool.and_eq_true] at wide
  have coerces := engine.coerceIn e q outer inner common type column found
  refine ⟨common, ?_, ?_⟩
  · obtain ⟨v', cast⟩ := isSome_iff_exists.mp
      (cast_of_widens engine (operand outer v type value) wide.1)
    exact ⟨v', (coerces v).trans cast, engine.cast_type v common v' cast⟩
  · have members := members inner ws column rows
    clear rows value
    induction ws with
    | nil => exact ⟨[], rfl, by simp⟩
    | cons w ws ih =>
      obtain ⟨w', cast⟩ := isSome_iff_exists.mp
        (cast_of_widens engine (members w mem_cons_self) wide.2)
      obtain ⟨ws', rest, types⟩ := ih (forall_mem_cons.mp members).2
      exact ⟨w' :: ws', by simp [mapM_cons, coerces, cast, rest],
        forall_mem_cons.mpr ⟨engine.cast_type w common _ cast, types⟩⟩

theorem inSubquery_row (negated : Bool) :
    ((k.coerceIn e q v).bind fun v' => (ws.mapM (k.coerceIn e q)).bind fun ws' =>
      (memberOf k v' ws').bind fun hit => truthValue (negateIf negated hit)).isSome = true := by
  obtain ⟨common, ⟨v', coerced, typeV⟩, ws', coercedAll, types⟩ :=
    coerceIn_row engine type column wide operand members value rows
  obtain ⟨hit, found⟩ := isSome_iff_exists.mp
    (memberOf_isSome engine fun w member => typeV.trans (types w member).symm)
  simp [coerced, coercedAll, found]

end InSubquery

/-- The operand of a `CASE` on the two rows: none, or values that are coerced alike. -/
def BaseAlike (k : Kernels) (typing : Typing) (operands : List Expr) (based conditional : Bool)
    (base₁ base₂ : Option ScalarValue) : Prop :=
  (base₁ = none ∧ base₂ = none) ∨ ∃ b₁ b₂, base₁ = some b₁ ∧ base₂ = some b₂ ∧ based = true ∧
    typing.coercesLosslessly operands = true ∧
    Alike conditional (k.coerce operands b₁) (k.coerce operands b₂)

/-- Whether a `WHEN` is hit, once its expression is evaluated. -/
def whenHit (k : Kernels) (operands : List Expr) (base : Option ScalarValue) (c : ScalarValue) :
    Option (Option Bool) :=
  match base with
  | none => some c.truth
  | some b => do
    let b' ← k.coerce operands b
    let c' ← k.coerce operands c
    (k.binary .eq b' c').map ScalarValue.truth

theorem whenHit_alike {based : Bool} {base₁ base₂ : Option ScalarValue}
    (base : BaseAlike k typing operands based conditional base₁ base₂) {w : Expr}
    (member : w ∈ operands) (calm : Calm k demands conditional w)
    (operand : based = true → OperandCalm k demands conditional operands w) {c₁ c₂ : ScalarValue}
    (left : eval k row₁ w = some c₁) (right : eval k row₂ w = some c₂) :
    Alike conditional (whenHit k operands base₁ c₁) (whenHit k operands base₂ c₂) ∧
      ∀ h₁ h₂, whenHit k operands base₁ c₁ = some h₁ → whenHit k operands base₂ c₂ = some h₂ →
        BaseAlike k typing operands based true base₁ base₂ := by
  rcases base with ⟨rfl, rfl⟩ | ⟨b₁, b₂, rfl, rfl, isBased, lossless, alike⟩
  · exact ⟨alike_some _ _, fun _ _ _ _ => Or.inl ⟨rfl, rfl⟩⟩
  · obtain ⟨common, type⟩ := coerce_type engine lossless
    constructor
    · refine alike.bind fun b₁' b₂' base₁ base₂ => (coerce_alike engine reported lossless
        member calm (operand isBased) left right).bind fun c₁' c₂' when₁ when₂ => Alike.map ?_
      exact alike_of_isSome
        (engine.compare _ _ _ rfl ((type _ _ base₁).trans (type _ _ when₁).symm))
        (engine.compare _ _ _ rfl ((type _ _ base₂).trans (type _ _ when₂).symm))
    · intro h₁ h₂ hit₁ hit₂
      obtain ⟨b₁', base₁, -⟩ := Option.bind_eq_some_iff.mp hit₁
      obtain ⟨b₂', base₂, -⟩ := Option.bind_eq_some_iff.mp hit₂
      exact Or.inr ⟨b₁, b₂, rfl, rfl, isBased, lossless,
        alike_of_isSome (by rw [base₁]; rfl) (by rw [base₂]; rfl)⟩

omit engine reported in
theorem evalWhens_cons {env : RowEnv} {values : List Expr} {base : Option ScalarValue}
    {w t : Expr} {rest : List (Expr × Expr)} {fallthrough : Option ScalarValue} :
    evalWhens k env operands values base ((w, t) :: rest) fallthrough =
      (eval k env w).bind fun c => (whenHit k operands base c).bind fun hit =>
        if hit = some true then (eval k env t).bind (k.coerce values)
        else evalWhens k env operands values base rest fallthrough := by
  rw [evalWhens]
  cases base with
  | none => rfl
  | some b => simp only [whenHit, bind_eq_bind, Option.bind_assoc]

omit engine reported in
theorem skip_isSome {x : Option ScalarValue} {decided : Prop} [Decidable decided]
    {short : Option Bool} {f : ScalarValue → Option Bool} (evaluates : x.isSome = true) :
    (if decided then truthValue short else x.bind fun b => truthValue (f b)).isSome = true := by
  obtain ⟨b, rfl⟩ := isSome_iff_exists.mp evaluates
  split <;> rfl

end TwoRows

section Runs

variable {k : Kernels} {typing : Typing} {row₁ row₂ : RowEnv}

mutual

theorem eval_alike (engine : Engine k typing) (e : Expr) {conditional : Bool}
    (leakproof : typing.isFallible e = false)
    (calm : Calm k (demandsOf k typing row₁ row₂) conditional e) :
    Alike conditional (eval k row₁ e) (eval k row₂ e) := by
  by_cases constant : readsRows e = false
  · have calm := calm_constant constant calm
    rw [eval_constant constant calm row₁ row₂]
    exact alike_self fun sure => calm.2 sure row₂
  have reads : readsRows e = true := by simpa using constant
  unfold Typing.isFallible at leakproof
  rw [reads, Bool.true_and] at leakproof
  unfold Calm at calm
  rw [if_neg constant] at calm
  match e with
  | .column _ | .outerReferenceColumn _ | .literal _ => exact alike_some _ _
  | .alias e _ _ =>
    simp only [eval]
    exact eval_alike engine e leakproof calm
  | .not e | .is _ e | .tryCast e _ =>
    simp only [eval, bind_eq_bind]
    exact (eval_alike engine e leakproof calm).bind fun _ _ _ _ => alike_some _ _
  | .cast e target =>
    simp only [Bool.or_eq_false_iff, Bool.not_eq_false', Option.any_eq_true] at leakproof
    obtain ⟨leakproof, t, type, widening⟩ := leakproof
    obtain ⟨calm, first, second⟩ := calm
    simp only [eval, bind_eq_bind]
    exact (eval_alike engine e leakproof calm).bind fun v₁ v₂ value₁ value₂ => alike_of_isSome
      (cast_of_widens engine (first t v₁ type value₁) widening)
      (cast_of_widens engine (second t v₂ type value₂) widening)
  | .binaryExpr l op r =>
    obtain ⟨calmL, calmR, operands⟩ := calm
    cases op with
    | and | or =>
      simp only [Bool.or_eq_false_iff] at leakproof
      have right : Alike true (eval k row₁ r) (eval k row₂ r) :=
        eval_alike engine r leakproof.2 (by simpa [Operator.isLogical] using calmR)
      simp only [eval, bind_eq_bind]
      refine (eval_alike engine l leakproof.1 calmL).bind fun a₁ a₂ _ _ => ?_
      exact alike_of_isSome (skip_isSome right.left) (skip_isSome right.right)
    | eq | notEq | lt | ltEq | gt | gtEq | isDistinctFrom | isNotDistinctFrom =>
      simp only [Bool.or_eq_false_iff, Bool.not_eq_false'] at leakproof
      obtain ⟨⟨leakL, leakR⟩, lossless⟩ := leakproof
      have calmR : Calm k (demandsOf k typing row₁ row₂) conditional r := by
        simpa [Operator.isLogical] using calmR
      exact comparison_alike engine (fun _ => id) rfl lossless calmL calmR (operands rfl).1
        (operands rfl).2 (eval_alike engine l leakL calmL) (eval_alike engine r leakR calmR)
    | plus | minus | multiply | divide | modulo | other => cases leakproof
  | .like negated e pattern escape caseInsensitive =>
    simp only [Bool.or_eq_false_iff, Bool.not_eq_false'] at leakproof
    exact like_alike engine (fun _ => id) leakproof.1.2 leakproof.2 calm.1.2 calm.2.1 calm.2.2
      (eval_alike engine e leakproof.1.1 calm.1.1)
  | .between e negated low high =>
    simp only [Bool.or_eq_false_iff, Bool.not_eq_false'] at leakproof
    obtain ⟨⟨⟨leakE, leakL⟩, leakH⟩, lossless⟩ := leakproof
    exact between_alike engine (fun _ => id) lossless calm.1 calm.2.1 calm.2.2
      (eval_alike engine e leakE calm.1.1) (eval_alike engine low leakL calm.2.1.1)
      (eval_alike engine high leakH calm.2.2.1)
  | .inList e list negated =>
    simp only [Bool.or_eq_false_iff, Bool.not_eq_false'] at leakproof
    obtain ⟨⟨leakE, leakList⟩, lossless⟩ := leakproof
    exact inList_alike engine (fun _ => id) lossless calm.1 calm.2.1 calm.2.2
      (eval_alike engine e leakE calm.1)
      (evalList_alike engine list leakList fun e' member => (calmList_mem calm.2.2 member).1)
  | .case base whenThen els =>
    simp only [Bool.or_eq_false_iff, Bool.not_eq_false'] at leakproof
    obtain ⟨⟨leakOperands, leakThen, leakElse⟩, lossless⟩ := leakproof
    obtain ⟨calmBase, calmWhens, calmElse⟩ := calm
    have fallthrough : Alike true
        (match els with
          | none => some .null
          | some e => (eval k row₁ e).bind (k.coerce (whenThen.map Prod.snd ++ els.toList)))
        (match els with
          | none => some .null
          | some e => (eval k row₂ e).bind (k.coerce (whenThen.map Prod.snd ++ els.toList))) := by
      cases els with
      | none => exact alike_some _ _
      | some e =>
        exact (eval_alike engine e leakElse calmElse.1).bind fun v₁ v₂ value₁ value₂ =>
          coerce_alike engine (fun _ => id) lossless (by simp) calmElse.1 calmElse.2
            value₁ value₂
    have thens : ∀ p ∈ whenThen, p.2 ∈ whenThen.map Prod.snd ++ els.toList := fun p member =>
      mem_append_left _ (mem_map_of_mem member)
    have whens : ∀ p ∈ whenThen, p.1 ∈ base.toList ++ whenThen.map Prod.fst := fun p member =>
      mem_append_right _ (mem_map_of_mem member)
    simp only [eval, bind_eq_bind]
    cases base with
    | none =>
      exact evalWhens_alike engine whenThen leakOperands leakThen calmWhens whens thens lossless
        (Or.inl ⟨rfl, rfl⟩) fallthrough
    | some b =>
      simp only [Bool.or_eq_false_iff, Bool.not_eq_false'] at leakOperands
      obtain ⟨⟨leakBase, leakWhen⟩, losslessOperands⟩ := leakOperands
      refine Alike.bind (Alike.map (eval_alike engine b leakBase calmBase.1)) ?_
      intro base₁ base₂ is₁ is₂
      obtain ⟨b₁, value₁, rfl⟩ := Option.map_eq_some_iff.mp is₁
      obtain ⟨b₂, value₂, rfl⟩ := Option.map_eq_some_iff.mp is₂
      exact evalWhens_alike engine whenThen leakWhen leakThen calmWhens whens thens lossless
        (Or.inr ⟨b₁, b₂, rfl, rfl, rfl, losslessOperands,
          coerce_alike engine (fun _ => id) losslessOperands mem_cons_self calmBase.1
            calmBase.2 value₁ value₂⟩) fallthrough
  | .groupingSet es =>
    simp only [eval, bind_eq_bind]
    exact (evalList_alike engine es leakproof fun e' member => (calmList_mem calm member).1).bind
      fun _ _ _ _ => alike_of_isSome (engine.grouping _) (engine.grouping _)
  | .exists q _ =>
    simp only [eval, bind_eq_bind]
    exact Alike.bind calm fun _ _ _ _ => alike_some _ _
  | .inSubquery e q negated =>
    simp only [Bool.or_eq_false_iff, Bool.not_eq_false'] at leakproof
    obtain ⟨leakE, widening⟩ := leakproof
    split at widening
    next outer inner type column =>
      obtain ⟨⟨calm, first, second⟩, rows, members₁, members₂⟩ := calm
      simp only [eval, bind_eq_bind]
      exact (eval_alike engine e leakE calm).bind fun v₁ v₂ value₁ value₂ =>
        Alike.bind rows fun ws₁ ws₂ rows₁ rows₂ => alike_of_isSome
          (inSubquery_row engine type column widening first members₁ value₁ rows₁ negated)
          (inSubquery_row engine type column widening second members₂ value₂ rows₂ negated)
    · cases widening
  | .scalarFunction .. | .windowFunction .. | .scalarSubquery .. | .setComparison ..
  | .other .. => cases leakproof

theorem evalList_alike (engine : Engine k typing) (es : List Expr) {conditional : Bool}
    (leakproof : typing.anyFallible es = false)
    (calm : ∀ e ∈ es, Calm k (demandsOf k typing row₁ row₂) conditional e) :
    Alike conditional (evalList k row₁ es) (evalList k row₂ es) := by
  match es with
  | [] => exact alike_some _ _
  | e :: es =>
    simp only [Typing.anyFallible, Bool.or_eq_false_iff] at leakproof
    simp only [evalList, bind_eq_bind, Option.pure_def]
    exact (eval_alike engine e leakproof.1 (calm e mem_cons_self)).bind fun _ _ _ _ =>
      (evalList_alike engine es leakproof.2 fun e' member =>
        calm e' (mem_cons_of_mem _ member)).bind fun _ _ _ _ => alike_some _ _

theorem evalWhens_alike (engine : Engine k typing) (whenThen : List (Expr × Expr))
    {operands values : List Expr} {based conditional : Bool}
    (leakWhen : typing.anyFallibleWhen whenThen = false)
    (leakThen : typing.anyFallibleThen whenThen = false)
    (calm : CalmWhens k (demandsOf k typing row₁ row₂) based conditional operands values whenThen)
    (whens : ∀ p ∈ whenThen, p.1 ∈ operands) (thens : ∀ p ∈ whenThen, p.2 ∈ values)
    (lossless : typing.coercesLosslessly values = true) {base₁ base₂ : Option ScalarValue}
    (base : BaseAlike k typing operands based conditional base₁ base₂)
    {else₁ else₂ : Option ScalarValue} (fallthrough : Alike true else₁ else₂) :
    Alike conditional (evalWhens k row₁ operands values base₁ whenThen else₁)
      (evalWhens k row₂ operands values base₂ whenThen else₂) := by
  match whenThen with
  | [] => exact fallthrough.weaken
  | (w, t) :: rest =>
    simp only [Typing.anyFallibleWhen, Typing.anyFallibleThen, Bool.or_eq_false_iff]
      at leakWhen leakThen
    simp only [CalmWhens] at calm
    obtain ⟨calmW, operandW, ⟨calmT, operandT⟩, calmRest⟩ := calm
    rw [evalWhens_cons, evalWhens_cons]
    refine (eval_alike engine w leakWhen.1 calmW).bind fun c₁ c₂ when₁ when₂ => ?_
    obtain ⟨hit, baseKnown⟩ := whenHit_alike engine (fun _ => id) base
      (whens (w, t) mem_cons_self) calmW operandW when₁ when₂
    refine hit.bind fun h₁ h₂ hit₁ hit₂ => ?_
    -- The two rows may part here, so neither the THEN nor what follows may fail.
    have taken : Alike true ((eval k row₁ t).bind (k.coerce values))
        ((eval k row₂ t).bind (k.coerce values)) :=
      (eval_alike engine t leakThen.1 calmT).bind fun v₁ v₂ then₁ then₂ =>
        coerce_alike engine (fun _ => id) lossless (thens (w, t) mem_cons_self) calmT
          operandT then₁ then₂
    have passed := evalWhens_alike engine rest leakWhen.2 leakThen.2 calmRest
      (forall_mem_cons.mp whens).2
      (forall_mem_cons.mp thens).2 lossless
      (baseKnown h₁ h₂ hit₁ hit₂) fallthrough
    split <;> split
    · exact taken.weaken
    · exact alike_of_isSome taken.left passed.right
    · exact alike_of_isSome passed.left taken.right
    · exact passed.weaken

end

end Runs

/-- Types of the column and of the literals that fit it. -/
def idTyping : Typing where
  getType
    | .column c => if c.name = "id" then some .int64 else none
    | .literal (.int64 (some n)) =>
      if -9223372036854775808 ≤ n ∧ n ≤ 9223372036854775807 then some .int64 else none
    | _ => none
  subqueryType _ := none
  comparisonCoercion a b := if a = b then some a else none

/-- Kernels over one type: a cast elsewhere gives NULL. -/
def idKernels : Kernels where
  binary op a b := match op.test with
    | some test => compareWith test a b
    | none =>
      if isComparison op then truthValue (some (decide (a = b) == (op == .isNotDistinctFrom)))
      else referenceArithmetic op a b
  like _ _ _ _ := truthValue none
  cast v t := some (if v.dataType = t then v else .nullOf t)
  function _ _ := none
  other _ _ := some .null
  coerce es v := do
    let types ← es.mapM idTyping.getType
    let common ← idTyping.commonType types
    some (if v.dataType = common then v else .nullOf common)
  coerceIn _ _ _ := none

theorem idKernels_engine : Engine idKernels idTyping where
  coerce es types common typed found v := by simp [idKernels, typed, found]
  coerceIn e q outer inner common _ column := by cases column
  cast source target _ v _ := rfl
  cast_type v target w cast := by
    cases cast
    split
    · assumption
    · exact ScalarValue.nullOf_dataType target
  compare op a b compares same := by
    cases op <;> simp_all [idKernels, Operator.test, compareWith, isComparison]
  like _ _ _ _ _ _ _ := rfl
  grouping _ := rfl

def idRow (n : Int) : RowEnv where
  column _ := .int64 (some n)
  outer _ := .null
  subquery _ := none
  skip _ := true

variable {n : Int}

theorem wellFormed_int64 (low : -9223372036854775808 ≤ n)
    (high : n ≤ 9223372036854775807) : WellFormed (.int64 (some n)) := by
  rintro m is
  cases is
  refine ⟨fun l h between => ?_, fun p s decimal => by cases decimal⟩
  cases between
  exact ⟨low, high⟩

theorem idRow_reported (low : -9223372036854775808 ≤ n) (high : n ≤ 9223372036854775807)
    (e : Expr) : Reported idKernels idTyping (idRow n) e := by
  intro t v type value
  simp only [idTyping] at type
  split at type
  · split at type
    · cases type
      cases value
      exact Or.inr ⟨rfl, wellFormed_int64 low high⟩
    · cases type
  · split at type
    next between =>
      cases type
      cases value
      exact Or.inr ⟨rfl, wellFormed_int64 between.1 between.2⟩
    · cases type
  · cases type

def idColumn : Expr := .column ⟨none, "id"⟩

def bigint (n : Int) : Expr := .literal (.int64 (some n))

/-- `id = 1 AND 1 / 0 = 1`. -/
def guardedDivision : Expr :=
  .binaryExpr (.binaryExpr idColumn .eq (bigint 1)) .and
    (.binaryExpr (.binaryExpr (bigint 1) .divide (bigint 0)) .eq (bigint 1))

theorem calm_bigint (n : Int) : Calm idKernels demands conditional (bigint n) :=
  ⟨fun l op r inside => by simp [bigint, Expr.subexprs] at inside, fun _ _ => rfl⟩

theorem calm_comparison {op : Operator} (typed : idTyping.getType (bigint n) = some .int64)
    (reported : demands.operand idColumn) :
    Calm idKernels demands conditional (.binaryExpr idColumn op (bigint n)) := by
  refine ⟨trivial, calm_bigint n, fun _ =>
    ⟨⟨fun _ => reported, fun _ constant => (by cases constant)⟩, (by intro reads; cases reads), ?_⟩⟩
  intro _ _ env v _
  have types : [idColumn, bigint n].mapM idTyping.getType = some [.int64, .int64] :=
    mapM_eq_some_iff.mpr (.cons rfl (.cons typed .nil))
  rw [idKernels_engine.coerce _ _ .int64 types rfl]
  rfl

def guardedComparison : Expr :=
  .binaryExpr (.binaryExpr idColumn .eq (bigint 1)) .and (.binaryExpr idColumn .lt (bigint 5))

end Sqe.Policy.Leakproof
