/- GID: Sqe/DataFusion/View
   generality: G
   digest: Plans over one table as views: which source rows they keep, and what they show. -/

import Sqe.DataFusion.MapColumns
import Sqe.DataFusion.Plan
import Sqe.Library.Traverse

set_option autoImplicit false

namespace Sqe.DataFusion

open Sqe.Library.Traverse List

section Named

variable (tableName : TableReference)

def named (names : List String) : List Column := names.map fun n => ⟨some tableName, n⟩

/-- The qualifier of the reference, if it has one, means the table. -/
def qualifies (c : Column) : Bool := match c.relation with
  | none => true
  | some q => q.resolvedEq tableName

theorem means_named (c : Column) (n : String) :
    c.means ⟨some tableName, n⟩ = (n == c.name && qualifies tableName c) := by
  unfold Column.means qualifies
  cases c.relation <;> rfl

theorem TableReference.resolvedEq_self (t : TableReference) : t.resolvedEq t = true := by
  cases t <;> simp [TableReference.resolvedEq]

theorem columnIn_named (names : List String) (value : String → ScalarValue) (c : Column) :
    columnIn (named tableName names) (names.map value) c =
      if qualifies tableName c && names.contains c.name then value c.name else .null := by
  induction names with
  | nil => simp [columnIn, named]
  | cons n names ih =>
    unfold columnIn named at ih ⊢
    simp only [map_cons, zip_cons_cons, find?_cons, means_named]
    by_cases same : n = c.name
    · subst same
      cases owned : qualifies tableName c with
      | true => simp
      | false => simpa [owned] using ih
    · have differs : (n == c.name) = false := by simpa using same
      simp only [differs, Bool.false_and, ih, contains_cons]
      simp [Ne.symm same]

theorem columns_qualifiedSchema (source : SourceSchema) :
    (qualifiedSchema tableName source).columns = named tableName (source.map Prod.fst) := by
  simp [qualifiedSchema, DFSchema.columns, named, PlanField.column]

theorem columnIn_normalize {schema : DFSchema} {names : List String}
    (columns : schema.columns = named tableName names) (value : String → ScalarValue) (c : Column) :
    columnIn (named tableName names) (names.map value) (normalizeColD schema c) =
      columnIn (named tableName names) (names.map value) c := by
  unfold normalizeColD normalizeCol
  split
  · rfl
  next bare =>
    cases found : schema.resolve c with
    | none => rfl
    | some f =>
      have inside : f.column ∈ named tableName names :=
        columns ▸ mem_map_of_mem (mem_of_find?_eq_some found)
      obtain ⟨n, -, is⟩ := mem_map.mp inside
      have meant := find?_some found
      rw [← is, means_named] at meant
      have name : n = c.name := by
        simp only [Bool.and_eq_true, beq_iff_eq] at meant
        exact meant.1
      subst name
      rw [Option.map_some, Option.getD_some, ← is, columnIn_named, columnIn_named]
      simp [qualifies, bare, TableReference.resolvedEq_self]

end Named

theorem name_of_resolves {tableName : TableReference} {schema : DFSchema} {names : List String}
    (columns : schema.columns = named tableName names) {c : Column}
    (resolves : (schema.resolve c).isSome = true) :
    c.name ∈ names ∧ qualifies tableName c = true := by
  obtain ⟨f, found⟩ := Option.isSome_iff_exists.mp resolves
  have inside : f.column ∈ named tableName names :=
    columns ▸ mem_map_of_mem (mem_of_find?_eq_some found)
  obtain ⟨n, member, is⟩ := mem_map.mp inside
  have meant := find?_some found
  rw [← is, means_named, Bool.and_eq_true, beq_iff_eq] at meant
  exact ⟨meant.1 ▸ member, meant.2⟩

section View

variable (ctx : PlanContext) (db : Database) (tableName : TableReference) (source : SourceSchema)

/-- The plan shows the named columns of the table: of each source row it keeps, the given
values. -/
structure View (plan : LogicalPlan) (names : List String) (keep : Outer → SourceRow → Bool)
    (value : SourceRow → SourceRow) : Prop where
  columns : (ctx.schemaOf plan).columns = named tableName names
  rows : ∀ outer, ctx.evalPlan db plan outer =
    ((db tableName source).filter (keep outer)).map fun row => names.map (value row)

variable {ctx db tableName source}

/-- The columns the expression reads are shown where the source has them. -/
def Covered (source : SourceSchema) (names : List String) (e : Expr) : Prop :=
  ∀ c ∈ e.columnRefs, c.name ∈ source.map Prod.fst → c.name ∈ names

variable {names : List String} {e : Expr}

theorem mem_columnRefs {c : Column} : c ∈ e.columnRefs ↔ .column c ∈ e.subexprs := by
  simp only [Expr.columnRefs, mem_filterMap]
  constructor
  · rintro ⟨x, inside, is⟩
    cases x <;> simp_all
  · intro inside
    exact ⟨_, inside, rfl⟩

theorem subqueryNumber_none (plain : e.hasSubquery = false) {x : Expr}
    (inside : x ∈ e.subexprs) : x.subqueryNumber = none := by
  have no := any_eq_false.mp plain x inside
  cases x <;> simp_all [Expr.subqueryNumber, Expr.isSubquery]

/-- The subqueries the expression holds give the same rows in both lists, for whatever outer
row. -/
def SameRows (results results' : List (Outer → List Row)) (e : Expr) : Prop :=
  ∀ x ∈ e.subexprs, ∀ q, x.subqueryNumber = some q → ∀ outer outer' : Outer,
    results[q]?.map (· outer) = results'[q]?.map (· outer')

theorem sameRows_of_plain (plain : e.hasSubquery = false)
    (results results' : List (Outer → List Row)) : SameRows results results' e := by
  intro x inside q holds
  rw [subqueryNumber_none plain inside] at holds
  cases holds

theorem subquery_congr {columns columns' : List Column} {row row' : Row} {outer outer' : Outer}
    {results results' : List (Outer → List Row)} (same : SameRows results results' e) {x : Expr}
    (inside : x ∈ e.subexprs) {q : Nat} (holds : x.subqueryNumber = some q) :
    (rowEnv columns row outer results).subquery q =
      (rowEnv columns' row' outer' results').subquery q := by
  have rows := fun o o' => congrArg (Option.map (List.map fun r : Row => r.headD .null))
    (same x inside q holds o o')
  simp only [Option.map_map] at rows
  exact rows _ _

theorem eval_shown {k : Kernels} (shown : names ⊆ source.map Prod.fst)
    (value : SourceRow) (outer : Outer) {results results' : List (Outer → List Row)}
    (same : SameRows results results' e) (covered : Covered source names e) :
    eval k (rowEnv (named tableName names) (names.map value) outer results) e =
      eval k (sourceEnv tableName source value outer results') e := by
  refine eval_congr e ⟨?_, fun _ _ => rfl, fun x inside q => subquery_congr same inside,
    fun _ _ _ _ _ => Or.inl rfl⟩
  intro c inside
  have values : source.map (fun field => value field.1) = (source.map Prod.fst).map value := by
    simp
  have same : names.contains c.name = (source.map Prod.fst).contains c.name := by
    rw [Bool.eq_iff_iff, contains_iff_mem, contains_iff_mem]
    exact ⟨fun found => shown found, covered c (mem_columnRefs.mpr inside)⟩
  simp only [sourceEnv, rowEnv, columns_qualifiedSchema, values, columnIn_named, same]

theorem eval_normalized {k : Kernels} (explicit : Explicit k) {schema : DFSchema}
    (columns : schema.columns = named tableName names) (value : String → ScalarValue)
    (outer : Outer) (subqueries : List (Outer → List Row)) (e : Expr) :
    eval k (rowEnv (named tableName names) (names.map value) outer subqueries)
        (e.mapColumns (normalizeColD schema)) =
      eval k (rowEnv (named tableName names) (names.map value) outer subqueries) e := by
  unfold Expr.mapColumns
  rw [eval_mapColumns explicit (fun _ _ => rfl)]
  congr 1
  simp only [RowEnv.through, rowEnv, columnIn_normalize tableName columns value]

theorem normalizeExpr_some {schema : DFSchema} {e' : Expr}
    (normalized : normalizeExpr schema e = some e') :
    e' = e.mapColumns (normalizeColD schema) := by
  unfold normalizeExpr at normalized
  split at normalized
  · exact (Option.some.inj normalized).symm
  · cases normalized

theorem View.filter (explicit : Explicit ctx.kernels) {plan plan' : LogicalPlan}
    {keep : Outer → SourceRow → Bool} {value : SourceRow → SourceRow}
    (view : View ctx db tableName source plan names keep value)
    (shown : names ⊆ source.map Prod.fst) {subqueries : List LogicalPlan}
    {results : List (Outer → List Row)} (same : SameRows (ctx.evalPlans db subqueries) results e)
    (covered : Covered source names e) (built : ctx.builderFilter subqueries plan e = some plan') :
    View ctx db tableName source plan' names
      (fun outer row => keep outer row && decide
        (Holds ctx.kernels (sourceEnv tableName source (value row) outer results) e)) value := by
  obtain ⟨e', normalized, rfl⟩ := Option.map_eq_some_iff.mp built
  rw [normalizeExpr_some normalized]
  refine ⟨view.columns, fun outer => ?_⟩
  rw [PlanContext.evalPlan, view.rows, filter_map, filter_filter]
  congr 2
  funext row
  simp only [Function.comp_apply, view.columns, Holds, eval_normalized explicit view.columns,
    eval_shown shown (value row) outer same covered]
  exact Bool.and_comm _ _

theorem View.project (explicit : Explicit ctx.kernels) {plan plan' : LogicalPlan}
    {names' : List String} {keep : Outer → SourceRow → Bool}
    {value value' : SourceRow → SourceRow}
    (view : View ctx db tableName source plan names keep value) {exprs : List Expr}
    (built : ctx.builderProject plan exprs = some plan')
    (outputs : exprs.map (fun e => (ctx.fieldOf (ctx.schemaOf plan)
      (e.mapColumns (normalizeColD (ctx.schemaOf plan)))).column) = named tableName names')
    (values : ∀ outer row, keep outer row = true → exprs.map (valueOf ctx.kernels
        (rowEnv (named tableName names) (names.map (value row)) outer [])) =
      names'.map (value' row)) :
    View ctx db tableName source plan' names' keep value' := by
  unfold PlanContext.builderProject at built
  split at built
  · obtain ⟨es, normalized, rfl⟩ := Option.map_eq_some_iff.mp built
    obtain rfl := eq_map_of_mapM (fun _ _ => normalizeExpr_some) normalized
    refine ⟨?_, fun outer => ?_⟩
    · simpa [PlanContext.schemaOf, DFSchema.columns, map_map, Function.comp_def] using outputs
    · rw [PlanContext.evalPlan, view.rows, map_map]
      refine map_congr_left fun row kept => ?_
      rw [← values outer row (mem_filter.mp kept).2]
      simp only [Function.comp_apply, view.columns, map_map, PlanContext.evalPlans]
      refine map_congr_left fun e _ => ?_
      simp only [Function.comp_apply, valueOf, eval_normalized explicit view.columns]
  · cases built

end View

end Sqe.DataFusion
