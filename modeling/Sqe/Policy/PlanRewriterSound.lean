/- GID: Sqe/Policy/PlanRewriterSound
   generality: G
   digest: The rewritten plan evaluates to the caller's plan over the governed database. -/

import Mathlib.Data.List.Forall2
import Mathlib.Data.List.Nodup
import Sqe.DataFusion.View
import Sqe.Policy.PlanRewriter

/-!
Each step the rewriter puts above a scan is a step from view to view: the row filters and the
re-applied predicates keep fewer source rows, the guard shows the same values, the masks show the
governed ones. The last view is the one the scan itself gives of the governed table.
-/

set_option autoImplicit false

namespace Sqe.Policy

open Sqe.DataFusion Sqe.Library.Traverse Sqe.Library.Kleene List
open Option (bind_eq_bind bind_eq_some_iff isSome_iff_exists map_eq_some_iff)

section Conjunction

variable {k : Kernels} {env : RowEnv}

theorem holds_and_iff {l r : Expr} :
    Holds k env (.binaryExpr l .and r) ↔ Holds k env l ∧ Holds k env r := by
  refine ⟨holds_and, fun ⟨left, right⟩ => ?_⟩
  obtain ⟨a, evalL, truthL⟩ := bind_eq_some_iff.mp left
  obtain ⟨b, evalR, truthR⟩ := bind_eq_some_iff.mp right
  simp [Holds, eval, evalL, evalR, truthL, truthR, and3]

theorem holds_foldl_and {e : Expr} {es : List Expr} :
    Holds k env (es.foldl (fun acc f => .binaryExpr acc .and f) e) ↔
      Holds k env e ∧ ∀ f ∈ es, Holds k env f := by
  induction es generalizing e with
  | nil => simp
  | cons f es ih =>
    rw [foldl_cons, ih, holds_and_iff]
    simp [and_assoc]

theorem holds_conjunction {es : List Expr} {e : Expr} (combined : Expr.conjunction es = some e) :
    Holds k env e ↔ ∀ f ∈ es, Holds k env f := by
  cases es with
  | nil => cases combined
  | cons f es =>
    cases combined
    rw [holds_foldl_and]
    simp

end Conjunction

variable {e : Expr} {es : List Expr} {mask : MaskType}

theorem subexprs_foldl_and {x : Expr}
    (inside : x ∈ (es.foldl (fun acc f => Expr.binaryExpr acc .and f) e).subexprs) :
    (∃ f ∈ e :: es, x ∈ f.subexprs) ∨ ∃ l r, x = .binaryExpr l .and r := by
  induction es generalizing e with
  | nil => exact Or.inl ⟨e, by simp, inside⟩
  | cons f es ih =>
    rcases ih inside with ⟨g, member, found⟩ | binary
    · rcases mem_cons.mp member with rfl | later
      · simp only [Expr.subexprs, mem_cons, mem_append] at found
        rcases found with rfl | found | found
        · exact Or.inr ⟨_, _, rfl⟩
        · exact Or.inl ⟨e, by simp, found⟩
        · exact Or.inl ⟨f, by simp, found⟩
      · exact Or.inl ⟨g, by simp [later], found⟩
    · exact Or.inr binary

section

variable (combined : Expr.conjunction es = some e)
include combined

theorem subexprs_conjunction {x : Expr} (inside : x ∈ e.subexprs) :
    (∃ f ∈ es, x ∈ f.subexprs) ∨ ∃ l r, x = .binaryExpr l .and r := by
  cases es with
  | nil => cases combined
  | cons f es =>
    cases combined
    exact subexprs_foldl_and inside

theorem conjunction_sameRows {results results' : List (Outer → List Row)}
    (same : ∀ f ∈ es, SameRows results results' f) : SameRows results results' e := by
  intro x inside q holds
  rcases subexprs_conjunction combined inside with ⟨f, member, found⟩ | ⟨l, r, rfl⟩
  · exact same f member x found q holds
  · cases holds

theorem conjunction_covered {source : SourceSchema} {names : List String}
    (covered : ∀ f ∈ es, Covered source names f) :
    Covered source names e := by
  intro c reads
  rcases subexprs_conjunction combined (mem_columnRefs.mp reads) with
    ⟨f, member, found⟩ | ⟨l, r, is⟩
  · exact covered f member c (mem_columnRefs.mpr found)
  · cases is

end

theorem hasSubquery_of_isPlain (plain : isPlain e = true) : e.hasSubquery = false := by
  refine any_eq_false.mpr fun x inside => ?_
  have no := all_eq_true.mp plain x inside
  cases x <;> simp_all [Expr.isSubquery]

section SourceEnv

variable {k : Kernels} {tableName : TableReference} {source : SourceSchema} {row : SourceRow}
  {outer : Outer} {results results' : List (Outer → List Row)}

theorem holds_congr {row' : SourceRow} (same : SameRows results results' e)
    (reads : ∀ c ∈ e.columnRefs, c.name ∈ source.map Prod.fst → row c.name = row' c.name) :
    Holds k (sourceEnv tableName source row outer results) e ↔
      Holds k (sourceEnv tableName source row' outer results') e := by
  have values (r : SourceRow) :
      source.map (fun field => r field.1) = (source.map Prod.fst).map r := by simp
  have agree : AgreeOn k (sourceEnv tableName source row outer results)
      (sourceEnv tableName source row' outer results') e := by
    refine ⟨fun c inside => ?_, fun _ _ => rfl, fun x inside q => subquery_congr same inside,
      fun _ _ _ _ _ => Or.inl rfl⟩
    simp only [sourceEnv, rowEnv, columns_qualifiedSchema, values, columnIn_named]
    split
    next found =>
      rw [Bool.and_eq_true, contains_iff_mem] at found
      exact reads c (mem_columnRefs.mpr inside) found.2
    · rfl
  rw [Holds, Holds, eval_congr e agree]

theorem eval_plain (plain : isPlain e = true) :
    eval k (sourceEnv tableName source row outer results) e =
      eval k (Governance.policyEnv tableName source row) e := by
  refine eval_congr e ⟨fun _ _ => rfl, ?_, ?_, fun _ _ _ _ _ => Or.inl rfl⟩
  · intro c inside
    have no := all_eq_true.mp plain _ inside
    simp at no
  · intro x inside q holds
    rw [subqueryNumber_none (hasSubquery_of_isPlain plain) inside] at holds
    cases holds

end SourceEnv

theorem maskFor_mem {policy : ResolvedPolicy} {toLowercase : String → String} {column : String}
    (found : policy.maskFor toLowercase column = some mask) :
    ∃ name, (name, mask) ∈ policy.columnMasks := by
  revert found
  fun_cases policy.maskFor toLowercase column <;> rintro ⟨⟩
  next entry exactly => exact ⟨entry.1, mem_of_find?_eq_some exactly⟩
  next entry entries folded =>
    have member := foldl_firstKey_mem entry entries
    rw [← folded] at member
    exact ⟨_, (mem_filter.mp member).1⟩

/-- The mask, on a column of the type, reads it through a reference built from its name. -/
def MaskType.readsColumn (type : DataType) : MaskType → Bool
  | .hash => true
  | .partialMask .. => (type matches .utf8 | .largeUtf8 | .utf8View)
  | .dateShowYear => (type matches .date32 | .date64 | .timestamp _ _)
  | _ => false

theorem applyMask_plain {policy : ResolvedPolicy} {name : String}
    (member : (name, mask) ∈ policy.columnMasks) (reference : Column) (type : DataType)
    (maskKey : Option (List Nat)) : isPlain (applyMask reference type mask maskKey) = true := by
  cases mask with
  | custom e => exact policy.plainMasks name e member
  | nullify => rfl
  | redact | hash | partialMask | dateShowYear =>
    simp only [applyMask]
    split <;> rfl

theorem applyMask_reference {reference reference' : Column} {type : DataType}
    (same : mask.readsColumn type = true → reference = reference')
    (maskKey : Option (List Nat)) :
    applyMask reference type mask maskKey = applyMask reference' type mask maskKey := by
  cases mask with
  | hash => rw [same rfl]
  | partialMask | dateShowYear =>
    cases type <;> first | rfl | rw [same rfl]
  | nullify | redact | custom => rfl

theorem find_field {source : SourceSchema} (distinct : (source.map Prod.fst).Nodup)
    {field : String × DataType} (member : field ∈ source) :
    source.find? (fun other => other.1 == field.1) = some field := by
  cases found : source.find? fun other => other.1 == field.1 with
  | none => simpa using find?_eq_none.mp found field member
  | some other =>
    rw [inj_on_of_nodup_map distinct (mem_of_find?_eq_some found) member
      (by simpa using find?_some found)]

namespace PlanRewriter

abbrev shownNames (scan : TableScan) : List String := scan.projectedSchema.map PlanField.name

theorem projectedSchema_subset (scan : TableScan) : scan.projectedSchema ⊆ scan.sourceSchema := by
  intro f member
  unfold TableScan.projectedSchema at member
  split at member
  · exact member
  · obtain ⟨i, -, found⟩ := mem_filterMap.mp member
    exact mem_of_getElem? found

theorem mem_sourceSchema {scan : TableScan} {f : PlanField} :
    f ∈ scan.sourceSchema ↔
      f.qualifier = some scan.tableName ∧ (f.name, f.dataType) ∈ scan.source := by
  simp only [TableScan.sourceSchema, qualifiedSchema, mem_map]
  constructor
  · rintro ⟨field, member, rfl⟩
    exact ⟨rfl, member⟩
  · rintro ⟨owner, member⟩
    refine ⟨_, member, ?_⟩
    cases f
    cases owner
    rfl

theorem columns_of_qualified {tableName : TableReference} {schema : DFSchema}
    (owned : ∀ f ∈ schema, f.qualifier = some tableName) :
    schema.columns = named tableName (schema.map PlanField.name) := by
  rw [DFSchema.columns, named, map_map]
  refine map_congr_left fun f member => ?_
  simp [PlanField.column, owned f member]

theorem shownNames_subset (scan : TableScan) : shownNames scan ⊆ scan.source.map Prod.fst := by
  intro n member
  obtain ⟨f, found, rfl⟩ := mem_map.mp member
  exact mem_map_of_mem (mem_sourceSchema.mp (projectedSchema_subset scan found)).2

section Steps

variable {rw : PlanRewriter} {db : Database}

def TypedBy (rw : PlanRewriter) (source : SourceSchema) (plan : LogicalPlan) : Prop :=
  ∀ f ∈ rw.ctx.schemaOf plan, (f.name, f.dataType) ∈ source

theorem scan_view (rw : PlanRewriter) (db : Database) (scan : TableScan)
    (noFetch : scan.fetch = none) (subqueries : List LogicalPlan) :
    View rw.ctx db scan.tableName scan.source (.tableScan scan subqueries) (shownNames scan)
      (fun outer row => scan.filters.all fun f => Holds rw.ctx.kernels
        (sourceEnv scan.tableName scan.source row outer (rw.ctx.evalPlans db subqueries)) f)
      id := by
  refine ⟨columns_of_qualified fun f member =>
    (mem_sourceSchema.mp (projectedSchema_subset scan member)).1, fun outer => ?_⟩
  simp [PlanContext.evalPlan, PlanContext.scanRows, noFetch, Function.comp_def]

variable (explicit : Explicit rw.ctx.kernels) {tableName : TableReference} {source : SourceSchema}
  {plan plan' : LogicalPlan} {names : List String} {keep : Outer → SourceRow → Bool}
  {value : SourceRow → SourceRow} (view : View rw.ctx db tableName source plan names keep value)
  (shown : names ⊆ source.map Prod.fst)
include explicit view

include shown in
theorem filters_view {filters : List Expr} (plain : ∀ f ∈ filters, isPlain f = true)
    (covered : ∀ f ∈ filters, Covered source names f)
    (built : filters.foldlM (rw.ctx.builderFilter []) plan = some plan') :
    View rw.ctx db tableName source plan' names
        (fun outer row => keep outer row && filters.all fun f =>
          Holds rw.ctx.kernels (sourceEnv tableName source (value row) outer []) f) value ∧
      rw.ctx.schemaOf plan' = rw.ctx.schemaOf plan := by
  induction filters generalizing plan keep with
  | nil =>
    cases built
    exact ⟨by simpa using view, rfl⟩
  | cons f filters ih =>
    simp only [foldlM_cons, bind_eq_bind, bind_eq_some_iff] at built
    obtain ⟨next, first, rest⟩ := built
    rw [forall_mem_cons] at plain covered
    have filtered := view.filter explicit shown
      (sameRows_of_plain (hasSubquery_of_isPlain plain.1) _ []) covered.1 first
    obtain ⟨rest, schema⟩ := ih filtered plain.2 covered.2 rest
    refine ⟨by simpa [Bool.and_assoc] using rest, schema.trans ?_⟩
    obtain ⟨e, -, rfl⟩ := map_eq_some_iff.mp first
    rfl

omit explicit in
theorem names_of_view : (rw.ctx.schemaOf plan).map PlanField.name = names := by
  have columns := congrArg (List.map Column.name) view.columns
  simpa [DFSchema.columns, named, PlanField.column, Function.comp_def] using columns

variable {f : PlanField}

omit explicit in
theorem qualifier_of_view (member : f ∈ rw.ctx.schemaOf plan) : f.qualifier = some tableName := by
  have inside : f.column ∈ named tableName names := view.columns ▸ mem_map_of_mem member
  obtain ⟨n, -, is⟩ := mem_map.mp inside
  exact (congrArg Column.relation is).symm

omit explicit in
theorem columnIn_view (member : f ∈ rw.ctx.schemaOf plan) (row : SourceRow) :
    columnIn (named tableName names) (names.map (value row)) f.column = value row f.name := by
  have inside : f.name ∈ names := names_of_view view ▸ mem_map_of_mem member
  rw [columnIn_named, if_pos]
  · rfl
  · simp [PlanField.column, qualifies, qualifier_of_view view member,
      TableReference.resolvedEq_self, inside]

omit explicit in
theorem normalize_own (member : f ∈ rw.ctx.schemaOf plan) :
    normalizeColD (rw.ctx.schemaOf plan) f.column = f.column := by
  simp [normalizeColD, normalizeCol, PlanField.column, qualifier_of_view view member]

theorem project_own {expr : PlanField → Expr} {value' : SourceRow → SourceRow}
    (built : rw.ctx.builderProject plan ((rw.ctx.schemaOf plan).map expr) = some plan')
    (output : ∀ f ∈ rw.ctx.schemaOf plan, (rw.ctx.fieldOf (rw.ctx.schemaOf plan)
      ((expr f).mapColumns (normalizeColD (rw.ctx.schemaOf plan)))).column = f.column)
    (values : ∀ outer row, keep outer row = true → ∀ f ∈ rw.ctx.schemaOf plan,
      valueOf rw.ctx.kernels (rowEnv (named tableName names) (names.map (value row)) outer [])
        (expr f) = value' row f.name) :
    View rw.ctx db tableName source plan' names keep value' := by
  refine view.project explicit built ?_ fun outer row kept => ?_
  · rw [map_map, ← view.columns]
    exact map_congr_left fun f member => output f member
  · have target : names.map (value' row) =
        (rw.ctx.schemaOf plan).map fun f => value' row f.name := by
      rw [← names_of_view view, map_map]
      rfl
    rw [map_map, target]
    exact map_congr_left fun f member => values outer row kept f member

theorem guard_view {guard : Expr}
    (holds : ∀ outer row, keep outer row = true → Holds rw.ctx.kernels
      (rowEnv (named tableName names) (names.map (value row)) outer []) guard)
    (built : rw.ctx.builderProject plan (guardExprs guard (rw.ctx.schemaOf plan)) = some plan') :
    View rw.ctx db tableName source plan' names keep value := by
  refine project_own explicit view built (fun f _ => rfl) fun outer row kept f member => ?_
  obtain ⟨t, evaluated, truth⟩ := bind_eq_some_iff.mp (holds outer row kept)
  simp only [valueOf, eval, evalOption, evalWhens, evaluated, bind_eq_bind, Option.bind_some,
    truth, if_true, explicit.coerce]
  exact columnIn_view view member row

omit explicit in
theorem resolve_own (member : f ∈ rw.ctx.schemaOf plan) :
    ∃ g ∈ rw.ctx.schemaOf plan, (rw.ctx.schemaOf plan).resolve f.column = some g ∧
      g.name = f.name := by
  have owner := qualifier_of_view view member
  have meant : f.column.means f.column = true := by
    simp [Column.means, PlanField.column, owner, TableReference.resolvedEq_self]
  have resolves : ((rw.ctx.schemaOf plan).find? fun g => f.column.means g.column).isSome = true :=
    find?_isSome.mpr ⟨f, member, meant⟩
  obtain ⟨g, found⟩ := isSome_iff_exists.mp resolves
  have same := find?_some found
  simp only [Column.means, Bool.and_eq_true, beq_iff_eq] at same
  exact ⟨g, mem_of_find?_eq_some found, found, same.1⟩

omit explicit in
theorem guard_typed {guard : Expr} (typed : TypedBy rw source plan)
    (built : rw.ctx.builderProject plan (guardExprs guard (rw.ctx.schemaOf plan)) = some plan') :
    TypedBy rw source plan' := by
  unfold PlanContext.builderProject at built
  split at built
  · obtain ⟨es, normalized, rfl⟩ := map_eq_some_iff.mp built
    obtain rfl := eq_map_of_mapM (fun _ _ => normalizeExpr_some) normalized
    intro f member
    simp only [PlanContext.schemaOf, guardExprs, map_map, mem_map] at member
    obtain ⟨g, inside, rfl⟩ := member
    obtain ⟨g', inside', found, name⟩ := resolve_own view inside
    -- The type of the CASE is that of the column it shows.
    change (g.name, (((rw.ctx.schemaOf plan).resolve
      (normalizeColD (rw.ctx.schemaOf plan) g.column)).map PlanField.dataType).getD .null) ∈ source
    rw [normalize_own view inside, found, ← name]
    exact typed g' inside'
  · cases built

omit explicit view in
theorem builderProject_resolves {exprs : List Expr}
    (built : rw.ctx.builderProject plan exprs = some plan') {e : Expr} (member : e ∈ exprs)
    {c : Column} (reads : c ∈ e.columnRefs) : ((rw.ctx.schemaOf plan).resolve c).isSome = true := by
  unfold PlanContext.builderProject at built
  split at built
  next resolves => exact all_eq_true.mp (all_eq_true.mp resolves e member) c reads
  · cases built

end Steps

section MaskedRow

variable (rw : PlanRewriter) (policy : ResolvedPolicy) (tableName : TableReference)
  (source : SourceSchema)

/-- What the masks of the rewriter show of a column: its governed value, with the argument of the
mask read through `col`. -/
def maskedValue (row : SourceRow) (field : String × DataType) : ScalarValue :=
  if policy.isRestricted rw.gov.toLowercase field.1 then .nullOf field.2
  else match policy.maskFor rw.gov.toLowercase field.1 with
    | some mask => valueOf rw.ctx.kernels (Governance.policyEnv tableName source row)
        (applyMask (rw.col field.1) field.2 mask rw.gov.maskKey)
    | none => row field.1

def maskedRow (row : SourceRow) : SourceRow := fun name =>
  match source.find? fun field => field.1 == name with
  | some field => rw.maskedValue policy tableName source row field
  | none => row name

/-- The mask of the column, if it has one and is not restricted, reads the column it masks. -/
def ReadsBack (field : String × DataType) : Prop :=
  policy.isRestricted rw.gov.toLowercase field.1 = false → ∀ mask,
    policy.maskFor rw.gov.toLowercase field.1 = some mask → mask.readsColumn field.2 = true →
      rw.col field.1 = ⟨none, field.1⟩

variable {rw policy tableName source}

theorem maskedRow_governed {name : String}
    (reads : ∀ field ∈ source, field.1 = name → ReadsBack rw policy field) (row : SourceRow) :
    rw.maskedRow policy tableName source row name =
      rw.gov.governRow rw.ctx.kernels policy tableName source row name := by
  unfold maskedRow Governance.governRow
  cases found : source.find? fun field => field.1 == name with
  | none => rfl
  | some field =>
    have back := reads field (mem_of_find?_eq_some found) (by simpa using find?_some found)
    dsimp only
    unfold maskedValue Governance.governedValue
    split
    · rfl
    next unrestricted =>
      cases masked : policy.maskFor rw.gov.toLowercase field.1 with
      | none => rfl
      | some mask =>
        dsimp only
        rw [applyMask_reference (back (by simpa using unrestricted) mask masked)]

end MaskedRow

section Masks

variable {rw : PlanRewriter} {db : Database} (explicit : Explicit rw.ctx.kernels)
  {tableName : TableReference} {source : SourceSchema} (distinct : (source.map Prod.fst).Nodup)
  {plan plan' : LogicalPlan} {names : List String} {keep : Outer → SourceRow → Bool}
  (view : View rw.ctx db tableName source plan names keep id)
  (shown : names ⊆ source.map Prod.fst) (typed : TypedBy rw source plan)
  {policy : ResolvedPolicy}
include explicit distinct view shown typed

theorem masks_view
    (built : rw.ctx.builderProject plan ((rw.ctx.schemaOf plan).map (rw.maskExpr policy)) =
      some plan') :
    View rw.ctx db tableName source plan' names keep (rw.maskedRow policy tableName source) := by
  refine project_own explicit view built ?_ ?_
  · intro f member
    unfold maskExpr
    split
    · rfl
    · split
      · rfl
      · exact normalize_own view member
  · intro outer row kept f member
    have masked : rw.maskedRow policy tableName source row f.name =
        rw.maskedValue policy tableName source row (f.name, f.dataType) := by
      have found : source.find? (fun other => other.1 == f.name) = some (f.name, f.dataType) :=
        find_field distinct (typed f member)
      simp only [maskedRow, found]
    have resolves {c : Column} (reads : c ∈ (rw.maskExpr policy f).columnRefs) :=
      (name_of_resolves view.columns
        (builderProject_resolves built (mem_map_of_mem member) reads)).1
    rw [masked, maskedValue]
    unfold maskExpr at resolves ⊢
    split
    · simp [valueOf, eval, applyMask, typedNull]
    next unrestricted =>
      rw [if_neg unrestricted] at resolves
      cases found : policy.maskFor rw.gov.toLowercase f.name with
      | none => exact columnIn_view view member row
      | some mask =>
        obtain ⟨key, entry⟩ := maskFor_mem found
        have plain := applyMask_plain entry (rw.col f.name) f.dataType rw.gov.maskKey
        simp only [found] at resolves ⊢
        simp only [valueOf, eval]
        rw [eval_shown shown (id row) outer
          (sameRows_of_plain (hasSubquery_of_isPlain plain) [] [])
          (fun c reads _ => resolves (by simpa [Expr.columnRefs, Expr.subexprs] using reads)),
          eval_plain plain]
        rfl

end Masks

theorem addWanted_extends (source : SourceSchema) (indices : List Nat) (name : String) :
    ∃ added, addWanted source indices name = indices ++ added := by
  fun_cases addWanted source indices name
  case case3 i _ _ => exact ⟨[i], rfl⟩
  all_goals exact ⟨[], by simp⟩

theorem foldl_addWanted_extends (source : SourceSchema) (wanted : List String)
    (indices : List Nat) : ∃ added, wanted.foldl (addWanted source) indices = indices ++ added := by
  induction wanted generalizing indices with
  | nil => exact ⟨[], by simp⟩
  | cons name wanted ih =>
    obtain ⟨first, one⟩ := addWanted_extends source indices name
    obtain ⟨rest, all⟩ := ih (addWanted source indices name)
    exact ⟨first ++ rest, by rw [foldl_cons, all, one, append_assoc]⟩

variable {indices : List Nat} {name : String} {i : Nat} {needed : List Expr}
  {source : SourceSchema} {scan : TableScan}

theorem mem_addWanted (found : source.findIdx? (fun field => field.1 == name) = some i) :
    i ∈ addWanted source indices name := by
  unfold addWanted
  rw [found]
  dsimp only
  split
  next inside => simpa using inside
  · simp

theorem mem_foldl_addWanted {wanted : List String}
    (found : source.findIdx? (fun field => field.1 == name) = some i) (member : name ∈ wanted)
    (indices : List Nat) : i ∈ wanted.foldl (addWanted source) indices := by
  induction wanted generalizing indices with
  | nil => cases member
  | cons next wanted ih =>
    rw [foldl_cons]
    rcases mem_cons.mp member with rfl | later
    · obtain ⟨added, extends_⟩ :=
        foldl_addWanted_extends source wanted (addWanted source indices name)
      rw [extends_]
      exact mem_append_left _ (mem_addWanted found)
    · exact ih later _

theorem shown_of_index (projection : scan.projection = some indices)
    (found : scan.source.findIdx? (fun field => field.1 == name) = some i) (member : i ∈ indices) :
    name ∈ shownNames scan := by
  obtain ⟨bound, holds, -⟩ := findIdx?_eq_some_iff_getElem.mp found
  have is : scan.source[i].1 = name := by simpa using holds
  refine mem_map.mpr ⟨⟨some scan.tableName, name, scan.source[i].2⟩, ?_, rfl⟩
  simp only [TableScan.projectedSchema, projection]
  refine mem_filterMap.mpr ⟨i, member, ?_⟩
  simp [TableScan.sourceSchema, qualifiedSchema, bound, is]

theorem covered_of_widened
    (projection : scan.projection =
      some ((wantedNames needed).foldl (addWanted scan.source) indices)) {e : Expr}
    (member : e ∈ needed) : Covered scan.source (shownNames scan) e := by
  intro c reads inSource
  have wanted : c.name ∈ wantedNames needed := by
    rw [wantedNames, mem_eraseDups]
    exact mem_flatMap.mpr ⟨e, member, mem_map_of_mem reads⟩
  obtain ⟨field, inside, name⟩ := mem_map.mp inSource
  have found : (scan.source.findIdx? fun field => field.1 == c.name).isSome = true := by
    rw [findIdx?_isSome, any_eq_true]
    exact ⟨field, inside, by simp [name]⟩
  obtain ⟨i, found⟩ := isSome_iff_exists.mp found
  exact shown_of_index projection found (mem_foldl_addWanted found wanted indices)

theorem widen_some {wider : TableScan} {restore : List Expr}
    (widened : widenScanForRowFilters scan needed = some (wider, restore)) :
    (∃ indices, wider = { scan with projection := some indices }) ∧
      restore = scan.projectedSchema.map (fun f => .column f.column) ∧
      ∀ e ∈ needed, Covered wider.source (shownNames wider) e := by
  revert widened
  fun_cases widenScanForRowFilters scan needed <;> rintro ⟨⟩
  exact ⟨⟨_, rfl⟩, rfl, fun e member => covered_of_widened rfl member⟩

theorem widen_none
    (widened : widenScanForRowFilters scan needed = none) {e : Expr} (member : e ∈ needed) :
    Covered scan.source (shownNames scan) e := by
  revert widened
  fun_cases widenScanForRowFilters scan needed <;> rintro ⟨⟩
  next all =>
    intro c _ inSource
    simpa [shownNames, TableScan.projectedSchema, all, TableScan.sourceSchema, qualifiedSchema,
      Function.comp_def] using inSource
  next empty =>
    rw [List.isEmpty_iff.mp empty] at member
    cases member
  next projection is _ wider same =>
    obtain ⟨added, extends_⟩ :=
      foldl_addWanted_extends scan.source (wantedNames needed) projection
    have nothing : added = [] := by
      rw [show wider = _ from extends_, length_append] at same
      exact length_eq_zero_iff.mp (by omega)
    rw [nothing, append_nil] at extends_
    exact covered_of_widened (is.trans (congrArg some extends_.symm)) member

/-- A scan of a governed table that the rewriter governs faithfully. It has no fetch. The
subqueries its pushed predicates hold give, whatever row they are asked for, the rows the governed
database gives them. The masks of the columns it shows, and of those its predicates read, get the
column they are made for. -/
structure Governable (rw : PlanRewriter) (db : Database) (policy : ResolvedPolicy)
    (scan : TableScan) (subqueries : List LogicalPlan) : Prop where
  noFetch : scan.fetch = none
  settled : ∀ f ∈ scan.filters, SameRows (rw.ctx.evalPlans db subqueries)
    (rw.ctx.evalPlans (rw.gov.govern rw.ctx.kernels db) subqueries) f
  references : ∀ field ∈ scan.source,
    (field.1 ∈ shownNames scan ∨ ∃ f ∈ scan.filters, ∃ c ∈ f.columnRefs, c.name = field.1) →
      ReadsBack rw policy field

/-- The governed database gives each of those subqueries one list of rows. -/
theorem Governable.governedRows {rw : PlanRewriter} {db : Database} {policy : ResolvedPolicy}
    {scan : TableScan} {subqueries : List LogicalPlan}
    (good : Governable rw db policy scan subqueries) (f : Expr) (member : f ∈ scan.filters) :
    SameRows (rw.ctx.evalPlans (rw.gov.govern rw.ctx.kernels db) subqueries)
      (rw.ctx.evalPlans (rw.gov.govern rw.ctx.kernels db) subqueries) f :=
  fun x inside q holds outer outer' =>
    (good.settled f member x inside q holds outer outer).symm.trans
      (good.settled f member x inside q holds outer outer')

section GovernedScan

variable {rw : PlanRewriter} {db : Database} (explicit : Explicit rw.ctx.kernels)
  {tableName : TableReference} {source : SourceSchema} {plan plan' : LogicalPlan}
  {names : List String} {keep : Outer → SourceRow → Bool} {policy : ResolvedPolicy}

include explicit in
theorem guardRowFilters_view {guardRows : Bool}
    (view : View rw.ctx db tableName source plan names keep id)
    (shown : names ⊆ source.map Prod.fst) (typed : TypedBy rw source plan)
    (covered : ∀ f ∈ policy.rowFilters, Covered source names f)
    (kept : ∀ outer row, keep outer row = true → ∀ f ∈ policy.rowFilters,
      Holds rw.ctx.kernels (sourceEnv tableName source row outer []) f)
    (built : rw.guardRowFilters guardRows policy plan = some plan') :
    View rw.ctx db tableName source plan' names keep id ∧ TypedBy rw source plan' := by
  unfold guardRowFilters at built
  split at built
  next guard combined =>
    have combined : Expr.conjunction policy.rowFilters = some guard := by
      split at combined
      · exact combined
      · cases combined
    have plain := fun f member =>
      sameRows_of_plain (hasSubquery_of_isPlain (policy.plainFilters f member)) [] []
    refine ⟨guard_view explicit view (fun outer row keeps => ?_) built,
      guard_typed view typed built⟩
    rw [Holds, eval_shown shown (id row) outer (conjunction_sameRows combined plain)
      (conjunction_covered combined covered)]
    exact (holds_conjunction combined).mpr (kept outer row keeps)
  · cases built
    exact ⟨view, typed⟩

theorem governRow_free {name : String}
    (restricted : policy.isRestricted rw.gov.toLowercase name = false)
    (unmasked : policy.maskFor rw.gov.toLowercase name = none) (k : Kernels) (row : SourceRow) :
    rw.gov.governRow k policy tableName source row name = row name := by
  unfold Governance.governRow
  split
  next field found =>
    have same : field.1 = name := by simpa using find?_some found
    simp [Governance.governedValue, same, restricted, unmasked]
  · rfl

include explicit in
theorem applyMasks_view (distinct : (source.map Prod.fst).Nodup)
    (view : View rw.ctx db tableName source plan names keep id)
    (shown : names ⊆ source.map Prod.fst) (typed : TypedBy rw source plan)
    (built : rw.applyMasks policy plan = some plan') :
    View rw.ctx db tableName source plan' names keep (rw.maskedRow policy tableName source) := by
  unfold applyMasks at built
  split at built
  next none =>
    cases built
    rw [Bool.and_eq_true, List.isEmpty_iff, List.isEmpty_iff] at none
    have unmasked (name : String) : policy.maskFor rw.gov.toLowercase name = .none := by
      simp [ResolvedPolicy.maskFor, none]
    have same (row : SourceRow) : rw.maskedRow policy tableName source row = row := by
      funext name
      rw [maskedRow_governed fun field _ _ _ _ masked => by simp [unmasked] at masked]
      exact governRow_free (by simp [ResolvedPolicy.isRestricted, none]) (unmasked name) _ row
    exact ⟨view.columns, fun outer => by simp only [view.rows, same, id]⟩
  · dsimp only at built
    split at built
    next empty =>
      cases built
      have nothing : names = [] := by
        rw [← names_of_view view, map_eq_nil_iff]
        simpa using empty
      subst nothing
      exact ⟨view.columns, fun outer => by rw [view.rows]; rfl⟩
    · exact masks_view explicit distinct view shown typed built

variable {guardRows : Bool} {scan : TableScan} {subqueries : List LogicalPlan}

/-- The scan under the wrappers: it shows what they read, and, when that is more than the
caller's scan shows, the columns to go back to are the caller's. -/
theorem widenedScan_spec (rw : PlanRewriter) (guardRows : Bool) (policy : ResolvedPolicy)
    (scan : TableScan) (subqueries : List LogicalPlan) : ∃ projection restore,
    rw.widenedScan guardRows policy scan subqueries =
      ({ rw.keptScan guardRows policy scan subqueries with projection := projection }, restore) ∧
    (∀ e ∈ policy.rowFilters ++ rw.rawOnGoverned guardRows policy scan subqueries,
      Covered scan.source (shownNames
        { rw.keptScan guardRows policy scan subqueries with projection := projection }) e) ∧
    (restore = none ∧ projection = scan.projection ∨
      restore = some (scan.projectedSchema.map fun f => .column f.column)) := by
  unfold widenedScan
  dsimp only
  split
  next wider restore widened =>
    obtain ⟨⟨indices, rfl⟩, rfl, covered⟩ := widen_some widened
    exact ⟨some indices, _, rfl, covered, Or.inr rfl⟩
  next widened =>
    exact ⟨scan.projection, none, rfl, fun e member => widen_none widened member, Or.inl ⟨rfl, rfl⟩⟩

theorem kept_reads {f : Expr}
    (stays : rw.leavesScan guardRows policy scan subqueries f = false) {c : Column}
    (reads : c ∈ f.columnRefs) (k : Kernels) (row : SourceRow) :
    rw.gov.governRow k policy tableName source row c.name = row c.name := by
  rw [leavesScan, Bool.or_eq_false_iff] at stays
  have free := any_eq_false.mp stays.1 c reads
  rw [ResolvedPolicy.governs, Bool.not_eq_true, Bool.or_eq_false_iff] at free
  exact governRow_free free.1 (by simpa using free.2) k row

section LastStages

variable {value : SourceRow → SourceRow}
  (view : View rw.ctx db tableName source plan names keep value)
include explicit view

theorem filterGoverned_view (shown : names ⊆ source.map Prod.fst)
    {results : List (Outer → List Row)}
    (settled : ∀ f ∈ scan.filters, SameRows (rw.ctx.evalPlans db subqueries) results f)
    (covered : ∀ f ∈ rw.rawOnGoverned guardRows policy scan subqueries, Covered source names f)
    (built : rw.filterGoverned guardRows policy scan subqueries plan = some plan') :
    View rw.ctx db tableName source plan' names
      (fun outer row => keep outer row &&
        (rw.rawOnGoverned guardRows policy scan subqueries).all fun f =>
          Holds rw.ctx.kernels (sourceEnv tableName source (value row) outer results) f) value := by
  unfold filterGoverned at built
  split at built
  next predicate combined =>
    have same := conjunction_sameRows combined fun f member => settled f (mem_filter.mp member).1
    have filtered := view.filter explicit shown same (conjunction_covered combined covered) built
    have split (row : SourceRow) (outer : Outer) :
        decide (Holds rw.ctx.kernels
            (sourceEnv tableName source (value row) outer results) predicate) =
          (rw.rawOnGoverned guardRows policy scan subqueries).all fun f =>
            Holds rw.ctx.kernels (sourceEnv tableName source (value row) outer results) f := by
      rw [Bool.eq_iff_iff, decide_eq_true_iff, holds_conjunction combined, all_eq_true]
      simp only [decide_eq_true_iff]
    simpa only [split] using filtered
  next nothing =>
    cases built
    have none : rw.rawOnGoverned guardRows policy scan subqueries = [] := by
      cases is : rw.rawOnGoverned guardRows policy scan subqueries with
      | nil => rfl
      | cons f fs => rw [is] at nothing; cases nothing
    simpa [none] using view

theorem restoreColumns_view (owner : scan.tableName = tableName)
    (built : rw.restoreColumns (some (scan.projectedSchema.map fun f => .column f.column)) plan =
      some plan') :
    View rw.ctx db tableName source plan' (shownNames scan) keep value := by
  subst owner
  have owned : ∀ f ∈ scan.projectedSchema, f.column = ⟨some scan.tableName, f.name⟩ := by
    intro f member
    rw [PlanField.column, (mem_sourceSchema.mp (projectedSchema_subset scan member)).1]
  refine view.project explicit built ?_ fun outer row _ => ?_
  · rw [named, map_map, map_map]
    refine map_congr_left fun f member => ?_
    simp only [Function.comp_apply, owned f member]
    rfl
  · rw [map_map, map_map]
    refine map_congr_left fun f member => ?_
    have resolves := name_of_resolves view.columns (builderProject_resolves built
      (mem_map_of_mem member) (c := f.column)
      (by simp [Expr.columnRefs, Expr.subexprs]))
    change columnIn (named scan.tableName names) (names.map (value row)) f.column = value row f.name
    rw [columnIn_named, if_pos (by simpa using resolves.symm)]
    rfl

end LastStages

/-- The rows that pass the scan and its wrappers: the predicates left in the scan and the row
filters read the raw row, the predicates above the masks the masked one. -/
def passes (rw : PlanRewriter) (db : Database) (guardRows : Bool) (policy : ResolvedPolicy)
    (scan : TableScan) (subqueries : List LogicalPlan) (outer : Outer) (row : SourceRow) : Bool :=
  (((rw.keptScan guardRows policy scan subqueries).filters.all fun f =>
      Holds rw.ctx.kernels (sourceEnv scan.tableName scan.source row outer
        (rw.ctx.evalPlans db subqueries)) f) &&
    policy.rowFilters.all fun f =>
      Holds rw.ctx.kernels (sourceEnv scan.tableName scan.source row outer []) f) &&
  (rw.rawOnGoverned guardRows policy scan subqueries).all fun f =>
    Holds rw.ctx.kernels (sourceEnv scan.tableName scan.source
      (rw.maskedRow policy scan.tableName scan.source row) outer
      (rw.ctx.evalPlans (rw.gov.govern rw.ctx.kernels db) subqueries)) f

theorem passes_eq (good : Governable rw db policy scan subqueries) (outer : Outer)
    (row : SourceRow) :
    rw.passes db guardRows policy scan subqueries outer row =
      ((scan.filters.all fun f => Holds rw.ctx.kernels (sourceEnv scan.tableName scan.source
          (rw.gov.governRow rw.ctx.kernels policy scan.tableName scan.source row) outer
          (rw.ctx.evalPlans (rw.gov.govern rw.ctx.kernels db) subqueries)) f)
        && Governance.admits rw.ctx.kernels policy scan.tableName scan.source row) := by
  have stays {f : Expr} (member : f ∈ scan.filters)
      (kept : rw.leavesScan guardRows policy scan subqueries f = false) :
      Holds rw.ctx.kernels (sourceEnv scan.tableName scan.source row outer
          (rw.ctx.evalPlans db subqueries)) f ↔
        Holds rw.ctx.kernels (sourceEnv scan.tableName scan.source
          (rw.gov.governRow rw.ctx.kernels policy scan.tableName scan.source row) outer
          (rw.ctx.evalPlans (rw.gov.govern rw.ctx.kernels db) subqueries)) f :=
    holds_congr (good.settled f member) fun c reads _ => (kept_reads kept reads _ row).symm
  have moved {f : Expr} (member : f ∈ scan.filters) :
      Holds rw.ctx.kernels (sourceEnv scan.tableName scan.source
          (rw.maskedRow policy scan.tableName scan.source row) outer
          (rw.ctx.evalPlans (rw.gov.govern rw.ctx.kernels db) subqueries)) f ↔
        Holds rw.ctx.kernels (sourceEnv scan.tableName scan.source
          (rw.gov.governRow rw.ctx.kernels policy scan.tableName scan.source row) outer
          (rw.ctx.evalPlans (rw.gov.govern rw.ctx.kernels db) subqueries)) f :=
    holds_congr (good.governedRows f member) fun c reads _ =>
      maskedRow_governed (fun field inside name => good.references field inside
        (Or.inr ⟨f, member, c, reads, name.symm⟩)) row
  have admitted : (∀ f ∈ policy.rowFilters,
      Holds rw.ctx.kernels (sourceEnv scan.tableName scan.source row outer []) f) ↔
        Governance.admits rw.ctx.kernels policy scan.tableName scan.source row = true := by
    simp only [Governance.admits, all_eq_true, decide_eq_true_iff]
    refine forall₂_congr fun f member => ?_
    rw [Holds, Holds, eval_plain (policy.plainFilters f member)]
  rw [Bool.eq_iff_iff]
  simp only [passes, keptScan, rawOnGoverned, Bool.and_eq_true, all_eq_true,
    decide_eq_true_iff, mem_filter, Bool.not_eq_true', admitted]
  constructor
  · rintro ⟨⟨kept, admits⟩, raised⟩
    refine ⟨fun f member => ?_, admits⟩
    cases leaves : rw.leavesScan guardRows policy scan subqueries f with
    | true => exact (moved member).mp (raised f ⟨member, leaves⟩)
    | false => exact (stays member leaves).mp (kept f ⟨member, leaves⟩)
  · rintro ⟨all, admits⟩
    exact ⟨⟨fun f kept => (stays kept.1 kept.2).mpr (all f kept.1), admits⟩,
      fun f raised => (moved raised.1).mpr (all f raised.1)⟩

include explicit in
theorem rewriteScan_view (good : Governable rw db policy scan subqueries)
    (built : rw.rewriteScan guardRows policy scan subqueries = some plan') :
    View rw.ctx db scan.tableName scan.source plan' (shownNames scan)
      (rw.passes db guardRows policy scan subqueries)
      (rw.maskedRow policy scan.tableName scan.source) := by
  obtain ⟨projection, restore, widened, covered, restored⟩ :=
    widenedScan_spec rw guardRows policy scan subqueries
  simp only [rewriteScan, widened, bind_eq_bind, bind_eq_some_iff] at built
  obtain ⟨filtered, filters, guarded, guard, masked, masks, refiltered, moved, back⟩ := built
  have shown := shownNames_subset
    { rw.keptScan guardRows policy scan subqueries with projection := projection }
  have scanned := scan_view rw db
    { rw.keptScan guardRows policy scan subqueries with projection := projection }
    good.noFetch subqueries
  obtain ⟨rows, schema⟩ := filters_view explicit scanned shown policy.plainFilters
    (fun f member => covered f (mem_append_left _ member)) filters
  have typed : TypedBy rw scan.source filtered := by
    unfold TypedBy
    rw [schema]
    exact fun _ member => (mem_sourceSchema.mp (projectedSchema_subset _ member)).2
  obtain ⟨guardedView, typed⟩ := guardRowFilters_view explicit rows shown typed
    (fun f member => covered f (mem_append_left _ member))
    (fun outer row keeps f member => by
      have all := (Bool.and_eq_true_iff.mp keeps).2
      simpa using all_eq_true.mp all f member) guard
  have maskedView := applyMasks_view explicit scan.distinct guardedView shown typed masks
  have governed := filterGoverned_view explicit maskedView shown good.settled
    (fun f member => covered f (mem_append_right _ member)) moved
  rcases restored with ⟨rfl, rfl⟩ | rfl
  · cases back
    exact governed
  · exact restoreColumns_view explicit governed rfl back

include explicit in
theorem rewriteScan_eq (governs : rw.gov.policyOf scan.tableName = some policy)
    (good : Governable rw db policy scan subqueries)
    (built : rw.rewriteScan guardRows policy scan subqueries = some plan') :
    (rw.ctx.schemaOf plan').columns = scan.projectedSchema.columns ∧
      ∀ outer, rw.ctx.evalPlan db plan' outer =
        rw.ctx.scanRows (rw.gov.govern rw.ctx.kernels db) scan
          (rw.ctx.evalPlans (rw.gov.govern rw.ctx.kernels db) subqueries) outer := by
  have view := rewriteScan_view explicit good built
  refine ⟨view.columns.trans (columns_of_qualified fun f member =>
    (mem_sourceSchema.mp (projectedSchema_subset scan member)).1).symm, fun outer => ?_⟩
  have same : rw.passes db guardRows policy scan subqueries outer = _ :=
    funext fun row => passes_eq good outer row
  have values (row : SourceRow) :
      (shownNames scan).map (rw.maskedRow policy scan.tableName scan.source row) =
        (shownNames scan).map
          (rw.gov.governRow rw.ctx.kernels policy scan.tableName scan.source row) :=
    map_congr_left fun name member => maskedRow_governed (fun field inside is =>
      good.references field inside (Or.inl (is ▸ member))) row
  simp only [view.rows, PlanContext.scanRows, good.noFetch, Governance.govern, governs, values,
    filter_map, map_map, filter_filter, Function.comp_def, same]

end GovernedScan

section Traversal

variable {rw : PlanRewriter} {db : Database}

/-- The plans show the same columns, and one shows of the database what the other shows of the
governed one. -/
structure Shows (rw : PlanRewriter) (db : Database) (plan' plan : LogicalPlan) : Prop where
  columns : (rw.ctx.schemaOf plan').columns = (rw.ctx.schemaOf plan).columns
  rows : rw.ctx.evalPlan db plan' = rw.ctx.evalPlan (rw.gov.govern rw.ctx.kernels db) plan

theorem Shows.all {plans' plans : List LogicalPlan} (shows : Forall₂ (Shows rw db) plans' plans) :
    (rw.ctx.schemasOf plans').map DFSchema.columns = (rw.ctx.schemasOf plans).map DFSchema.columns ∧
      rw.ctx.evalPlans db plans' =
        rw.ctx.evalPlans (rw.gov.govern rw.ctx.kernels db) plans := by
  induction shows with
  | nil => exact ⟨rfl, rfl⟩
  | cons first _ ih =>
    simp only [PlanContext.schemasOf, PlanContext.evalPlans, map_cons, first.columns,
      first.rows, ih.1, ih.2, and_self]

/-- Every scan of a governed table among them is governed faithfully. -/
def AllGovernable (rw : PlanRewriter) (db : Database)
    (scans : List (TableScan × List LogicalPlan)) : Prop :=
  ∀ scan ∈ scans, ∀ policy, rw.gov.policyOf scan.1.tableName = some policy →
    Governable rw db policy scan.1 scan.2

mutual

theorem rewriteNode_shows (explicit : Explicit rw.ctx.kernels) (guardRows : Bool)
    (plan : LogicalPlan) {plan' : LogicalPlan} (good : AllGovernable rw db plan.scans)
    (built : rw.rewriteNode guardRows plan = some plan') : Shows rw db plan' plan := by
  match plan with
  | .tableScan scan subqueries =>
    simp only [AllGovernable, LogicalPlan.scans, forall_mem_cons] at good
    simp only [rewriteNode] at built
    cases governs : rw.gov.policyOf scan.tableName with
    | some policy =>
      rw [governs] at built
      obtain ⟨columns, rows⟩ := rewriteScan_eq explicit governs (good.1 policy governs) built
      exact ⟨columns, funext fun outer => by rw [PlanContext.evalPlan, rows outer]⟩
    | none =>
      rw [governs] at built
      obtain ⟨subqueries', rewritten, rfl⟩ := map_eq_some_iff.mp built
      have shows := (Shows.all (rewriteNodes_shows explicit _ subqueries good.2 rewritten)).2
      refine ⟨rfl, funext fun outer => ?_⟩
      simp only [PlanContext.evalPlan, PlanContext.scanRows, shows, Governance.govern, governs]
  | .filter predicate subqueries input =>
    simp only [AllGovernable, LogicalPlan.scans, forall_mem_append] at good
    simp only [rewriteNode, bind_eq_bind, bind_eq_some_iff] at built
    obtain ⟨subqueries', rewritten, input', below, is⟩ := built
    cases is
    have shows := (Shows.all (rewriteNodes_shows explicit _ subqueries good.1 rewritten)).2
    have inputShows := rewriteNode_shows explicit _ input good.2 below
    refine ⟨inputShows.columns, funext fun outer => ?_⟩
    simp only [PlanContext.evalPlan, inputShows.columns, inputShows.rows, shows]
  | .projection exprs subqueries input =>
    simp only [AllGovernable, LogicalPlan.scans, forall_mem_append] at good
    simp only [rewriteNode, bind_eq_bind, bind_eq_some_iff] at built
    obtain ⟨subqueries', rewritten, input', below, is⟩ := built
    cases is
    have shows := (Shows.all (rewriteNodes_shows explicit _ subqueries good.1 rewritten)).2
    have inputShows := rewriteNode_shows explicit _ input good.2 below
    refine ⟨?_, funext fun outer => ?_⟩
    · simp only [PlanContext.schemaOf, DFSchema.columns, map_map]
      exact map_congr_left fun e _ => by cases e <;> rfl
    · simp only [PlanContext.evalPlan, inputShows.columns, inputShows.rows, shows]
  | .node op subqueries inputs =>
    simp only [AllGovernable, LogicalPlan.scans, forall_mem_append] at good
    simp only [rewriteNode, bind_eq_bind, bind_eq_some_iff] at built
    obtain ⟨subqueries', rewritten, inputs', below, is⟩ := built
    cases is
    have shows := (Shows.all (rewriteNodes_shows explicit _ subqueries good.1 rewritten)).2
    obtain ⟨columns, rows⟩ := Shows.all (rewriteNodes_shows explicit _ inputs good.2 below)
    refine ⟨rw.ctx.nodeNames op _ _ columns, funext fun outer => ?_⟩
    simp only [PlanContext.evalPlan, columns, rows, shows]

theorem rewriteNodes_shows (explicit : Explicit rw.ctx.kernels) (guardRows : Bool)
    (plans : List LogicalPlan) {plans' : List LogicalPlan}
    (good : AllGovernable rw db (LogicalPlan.scansOf plans))
    (built : rw.rewriteNodes guardRows plans = some plans') :
    Forall₂ (Shows rw db) plans' plans := by
  match plans with
  | [] =>
    cases built
    exact .nil
  | plan :: plans =>
    simp only [AllGovernable, LogicalPlan.scansOf, forall_mem_append] at good
    simp only [rewriteNodes, bind_eq_bind, bind_eq_some_iff] at built
    obtain ⟨first, here, rest, later, is⟩ := built
    cases is
    exact .cons (rewriteNode_shows explicit _ plan good.1 here)
      (rewriteNodes_shows explicit _ plans good.2 later)

end

/-- The plan the rewriter returns evaluates to what the caller's plan shows of the governed
database, under the caller's names. -/
theorem evaluate_shows_governed (db : Database) (explicit : Explicit rw.ctx.kernels)
    (plan : LogicalPlan) {plan' : LogicalPlan} (good : AllGovernable rw db plan.scans)
    (built : rw.evaluate plan = some plan') :
    (rw.ctx.schemaOf plan').columns = (rw.ctx.schemaOf plan).columns ∧
      ∀ outer, rw.ctx.evalPlan db plan' outer =
        rw.ctx.evalPlan (rw.gov.govern rw.ctx.kernels db) plan outer := by
  have shows := rewriteNode_shows explicit _ plan good built
  exact ⟨shows.columns, fun outer => congrFun shows.rows outer⟩

end Traversal

/-- An engine over plans whose casts are all written out. -/
def explicitContext : PlanContext where
  kernels := { referenceKernels (fun _ => .int64) with coerce := fun _ v => some v }
  nodeRows _ _ _ _ _ := []
  nodeSchema _ _ := []
  nodeNames _ _ _ _ := rfl
  exprName _ := ""
  exprType _ _ := .null

def eqText (column value : String) : Expr :=
  .binaryExpr (.column ⟨none, column⟩) .eq (.literal (.utf8 (some value)))

theorem redact_plain : ∀ name e,
    (name, MaskType.custom e) ∈ [("owner", MaskType.redact "***")] → isPlain e = true := by
  simp

/-- European accounts, with the owner redacted and the balance withheld. -/
def accountsPolicy : ResolvedPolicy where
  rowFilters := [eqText "region" "EU"]
  columnMasks := [("owner", .redact "***")]
  restrictedColumns := ["balance"]
  plainFilters := by decide
  plainMasks := redact_plain

/-- No row of the table is visible. -/
def sealedPolicy : ResolvedPolicy where
  rowFilters := [eqText "region" ""]
  columnMasks := []
  restrictedColumns := []
  plainFilters := by decide
  plainMasks := plainMasks_nil

def bankRewriter : PlanRewriter where
  ctx := explicitContext
  gov := ⟨id, none, [("accounts", accountsPolicy), ("watchlist", sealedPolicy)]⟩
  col name := ⟨none, name⟩
  getType _ _ := some .utf8
  comparisonCoercion _ _ := some .utf8

def accountsScan (filters : List Expr) : TableScan where
  tableName := .bare "accounts"
  source := [("id", .int64), ("owner", .utf8), ("balance", .int64), ("region", .utf8)]
  projection := some [0, 1, 2]
  filters := filters
  fetch := none
  distinct := by decide

def watchlistScan : TableScan where
  tableName := .bare "watchlist"
  source := [("region", .utf8)]
  projection := none
  filters := []
  fetch := none
  distinct := by decide

/-- One European and one American account, and a watchlist that names Europe. -/
def bankRows : Database := fun tableName _ =>
  if tableName = .bare "watchlist" then
    [fun _ => .utf8 (some "EU")]
  else
    let account (id balance : Int) (owner region : String) : SourceRow := fun
      | "id" => .int64 (some id)
      | "owner" => .utf8 (some owner)
      | "balance" => .int64 (some balance)
      | _ => .utf8 (some region)
    [account 1 10 "ann" "EU", account 2 20 "bob" "US"]

theorem bankRewriter_explicit : Explicit bankRewriter.ctx.kernels :=
  ⟨fun _ _ => rfl, fun _ _ _ => rfl⟩

/-- A predicate on the redacted owner, pushed into a scan that does not show the region. -/
theorem evaluate_shows_accounts : ∃ plan',
    bankRewriter.evaluate (.tableScan (accountsScan [eqText "owner" "***"]) []) = some plan' ∧
      bankRewriter.ctx.evalPlan bankRows plan' (fun _ => .null) =
        [[.int64 (some 1), .utf8 (some "***"), .int64 none]] := by
  have rewrites : (bankRewriter.evaluate
      (.tableScan (accountsScan [eqText "owner" "***"]) [])).isSome = true := by decide
  obtain ⟨plan', built⟩ := isSome_iff_exists.mp rewrites
  refine ⟨plan', built, ?_⟩
  refine ((evaluate_shows_governed bankRows bankRewriter_explicit _ ?_ built).2 _).trans (by decide)
  intro scan member policy _
  obtain rfl := mem_singleton.mp member
  refine ⟨rfl, fun f pushed => ?_, fun _ _ _ _ _ _ _ => rfl⟩
  obtain rfl := mem_singleton.mp pushed
  exact sameRows_of_plain (by decide) _ _

/-- `region IN (SELECT region FROM watchlist)`, pushed into the scan of the accounts. -/
def watchedAccounts : LogicalPlan :=
  .tableScan (accountsScan [.inSubquery (.column ⟨none, "region"⟩) 0 false])
    [.tableScan watchlistScan []]

/-- The rewriter does not go below the scan it replaces: the subquery still reads the rows of the
watchlist that the user may not see. -/
theorem evaluate_reads_sealed_rows :
    (bankRewriter.evaluate watchedAccounts).map
        (fun plan' => bankRewriter.ctx.evalPlan bankRows plan' fun _ => .null) =
      some [[.int64 (some 1), .utf8 (some "***"), .int64 none]] ∧
    bankRewriter.ctx.evalPlan (bankRewriter.gov.govern bankRewriter.ctx.kernels bankRows)
      watchedAccounts (fun _ => .null) = [] :=
  ⟨by decide, by decide⟩

end PlanRewriter

end Sqe.Policy
