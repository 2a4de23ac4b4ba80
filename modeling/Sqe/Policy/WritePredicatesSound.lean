/- GID: Sqe/Policy/WritePredicatesSound
   generality: G
   digest: When the write path gets the row filters and masks the read path applies. -/

import Sqe.Policy.PlanRewriterSound
import Sqe.Policy.WritePredicates

/-!
The probe scan has no pushed predicates, so the rewriter puts no guard above it: the plan is the
row filters under at most one mask projection. The walk reads the filters back in reverse order,
and the masks back as they are, unless every mask has the shape of the guard.
-/

set_option autoImplicit false

namespace Sqe.Policy.WritePredicates

open Sqe.DataFusion Sqe.Library.Traverse List PlanRewriter
open Option (bind_eq_bind bind_eq_some_iff filter_some map_eq_some_iff some.inj)

theorem normalizeColD_name (schema : DFSchema) (c : Column) :
    (normalizeColD schema c).name = c.name := by
  unfold normalizeColD normalizeCol
  split
  · rfl
  · cases found : schema.resolve c with
    | none => rfl
    | some f =>
      have meant := find?_some found
      simp only [Column.means, Bool.and_eq_true, beq_iff_eq] at meant
      exact meant.1

theorem maskOf_column (c : Column) : maskOf (.column c) = none := by
  simp [maskOf, entry, isOwnColumn, Option.filter]

theorem alias_of_maskOf {e body : Expr} {name : String} (masked : maskOf e = some (name, body)) :
    ∃ relation, e = .alias body relation name := by
  cases e with
  | «alias» inner relation n =>
    obtain ⟨is, -⟩ := Option.filter_eq_some_iff.mp masked
    cases is
    exact ⟨relation, rfl⟩
  | column c =>
    rw [maskOf_column] at masked
    cases masked
  | _ => cases masked

section Renamed

variable {g : Column → Column} (names : ∀ c, (g c).name = c.name)
include names

theorem isOwnColumn_mapColumns (name : String) (e : Expr) :
    isOwnColumn name (e.mapColumns g) = isOwnColumn name e := by
  cases e with
  | column c => simp [Expr.mapColumns, Expr.transform, Expr.onColumn, isOwnColumn, names]
  | _ => rfl

theorem maskOf_mapColumns (e : Expr) :
    maskOf (e.mapColumns g) = (maskOf e).map fun (name, body) => (name, body.mapColumns g) := by
  cases e with
  | «alias» body relation name =>
    have own := isOwnColumn_mapColumns names name body
    change (Option.filter _ (some (name, body.mapColumns g))) = _
    simp only [maskOf, entry, filter_some, own]
    split <;> rfl
  | column c =>
    rw [maskOf_column c]
    exact maskOf_column (g c)
  | _ => rfl

theorem isGuardBody_mapColumns (name : String) (e : Expr) :
    isGuardBody name (e.mapColumns g) = isGuardBody name e := by
  cases e with
  | case base branches otherwise =>
    rcases base with _ | base
    · rcases branches with _ | ⟨⟨w, t⟩, _ | ⟨⟨_, _⟩, _⟩⟩
      · rfl
      · cases t <;> cases otherwise <;>
          simp [Expr.mapColumns, Expr.transform, Expr.transformOption, Expr.transformWhens,
            Expr.onColumn, isGuardBody, names]
      · simp [Expr.mapColumns, Expr.transform, Expr.transformOption, Expr.transformWhens,
          Expr.onColumn, isGuardBody]
    · rfl
  | _ => rfl

theorem isGuardEntry_mapColumns (e : Expr) : isGuardEntry (e.mapColumns g) = isGuardEntry e := by
  cases e with
  | «alias» body relation name => exact isGuardBody_mapColumns names name body
  | _ => rfl

end Renamed

theorem isNullLiteral_mapColumns (g : Column → Column) (e : Expr) :
    isNullLiteral (e.mapColumns g) = isNullLiteral e := by
  match e with
  | .cast e _ | .tryCast e _ => exact isNullLiteral_mapColumns g e
  | .alias .. | .column _ | .outerReferenceColumn _ | .literal _ | .binaryExpr .. | .not _ | .is ..
  | .like .. | .between .. | .inList .. | .case .. | .scalarFunction .. | .windowFunction ..
  | .groupingSet _ | .exists .. | .inSubquery .. | .scalarSubquery _ | .setComparison ..
  | .other .. => rfl

def filtersOver (filters : List Expr) (plan : LogicalPlan) : LogicalPlan :=
  filters.foldl (fun p f => .filter f [] p) plan

theorem schemaOf_filtersOver (ctx : PlanContext) (filters : List Expr) (plan : LogicalPlan) :
    ctx.schemaOf (filtersOver filters plan) = ctx.schemaOf plan := by
  induction filters generalizing plan with
  | nil => rfl
  | cons f filters ih => exact ih (.filter f [] plan)

theorem isFilter_filtersOver (filters : List Expr) (scan : TableScan) :
    isFilter (filtersOver filters (.tableScan scan [])) = !filters.isEmpty := by
  have above (filters : List Expr) (f : Expr) (plan : LogicalPlan) :
      isFilter (filtersOver filters (.filter f [] plan)) = true := by
    induction filters generalizing f plan with
    | nil => rfl
    | cons g filters ih => exact ih g (.filter f [] plan)
  cases filters with
  | nil => rfl
  | cons f filters => exact above filters f _

theorem foldlM_builderFilter {ctx : PlanContext} {filters : List Expr} {plan plan' : LogicalPlan}
    (built : filters.foldlM (ctx.builderFilter []) plan = some plan') :
    plan' = filtersOver (filters.map
      (Expr.mapColumns (normalizeColD (ctx.schemaOf plan)))) plan := by
  induction filters generalizing plan with
  | nil => exact (some.inj built).symm
  | cons f filters ih =>
    simp only [foldlM_cons, bind_eq_bind, bind_eq_some_iff] at built
    obtain ⟨next, first, rest⟩ := built
    obtain ⟨e, normalized, rfl⟩ := map_eq_some_iff.mp first
    rw [normalizeExpr_some normalized] at rest
    exact ih rest

theorem gather_filtersOver {k : Kernels} (u : Unparser k) (filters : List Expr)
    (plan : LogicalPlan) (found : Gathered) :
    gather u (filtersOver filters plan) found =
      gather u plan { found with rowFilters := found.rowFilters ++ filters.reverse } := by
  induction filters generalizing plan with
  | nil => simp [filtersOver]
  | cons f filters ih =>
    rw [show filtersOver (f :: filters) plan = filtersOver filters (.filter f [] plan) from rfl,
      ih, gather]
    simp

section Probe

variable {rw : PlanRewriter} {scan : TableScan} {plan' : LogicalPlan}

theorem evaluate_bare (bare : scan.filters = []) :
    rw.evaluate (.tableScan scan []) = rw.rewriteNode false (.tableScan scan []) := by
  simp [evaluate, planHasFalliblePredicate, nodeIsFallible, anyHasFalliblePredicate, bare]

theorem rewriteScan_bare (bare : scan.filters = []) (whole : scan.projection = none)
    (policy : ResolvedPolicy) :
    rw.rewriteScan false policy scan [] =
      (policy.rowFilters.foldlM (rw.ctx.builderFilter []) (.tableScan scan [])).bind
        (rw.applyMasks policy) := by
  have moved : rw.rawOnGoverned false policy scan [] = [] := by
    simp [rawOnGoverned, bare]
  have kept : rw.keptScan false policy scan [] = scan := by
    cases scan
    cases bare
    rfl
  have widened : rw.widenedScan false policy scan [] = (scan, none) := by
    simp [widenedScan, kept, widenScanForRowFilters, whole]
  have last (plan : LogicalPlan) : rw.filterGoverned false policy scan [] plan = some plan := by
    simp [filterGoverned, moved, Expr.conjunction]
  simp only [rewriteScan, widened, guardRowFilters, guarded,
    restoreColumns, last, bind_eq_bind, Option.bind_some, Bool.false_and,
    Bool.false_eq_true, if_false, Option.bind_fun_some]

/-- What governs a table, the empty policy included. -/
def resolved (gov : Governance) (tableName : TableReference) : ResolvedPolicy :=
  (gov.policyOf tableName).getD ⟨[], [], [], plainFilters_nil, plainMasks_nil⟩

def maskEntries (rw : PlanRewriter) (policy : ResolvedPolicy) (scan : TableScan) : List Expr :=
  scan.sourceSchema.map fun f =>
    (rw.maskExpr policy f).mapColumns (normalizeColD scan.sourceSchema)

def probeFilters (policy : ResolvedPolicy) (scan : TableScan) : List Expr :=
  policy.rowFilters.map (Expr.mapColumns (normalizeColD scan.sourceSchema))

theorem governs_of_unmasked {policy : ResolvedPolicy} (toLowercase : String → String)
    (masks : policy.columnMasks = []) (restricted : policy.restrictedColumns = []) (name : String) :
    policy.governs toLowercase name = false := by
  simp [ResolvedPolicy.governs, ResolvedPolicy.isRestricted, ResolvedPolicy.maskFor, masks,
    restricted]

theorem evaluate_probe {policy : ResolvedPolicy} (is : resolved rw.gov scan.tableName = policy)
    (bare : scan.filters = []) (whole : scan.projection = none)
    (built : rw.evaluate (.tableScan scan []) = some plan') :
    (plan' = filtersOver (probeFilters policy scan) (.tableScan scan []) ∧
      ∀ field ∈ scan.source, policy.governs rw.gov.toLowercase field.1 = false) ∨
    (plan' = .projection (maskEntries rw policy scan) []
        (filtersOver (probeFilters policy scan) (.tableScan scan [])) ∧
      ∀ f ∈ scan.sourceSchema, ∀ c ∈ (rw.maskExpr policy f).columnRefs,
        (scan.sourceSchema.resolve c).isSome = true) := by
  rw [evaluate_bare bare, rewriteNode] at built
  unfold resolved at is
  split at built
  next policy' governs =>
    obtain rfl : policy' = policy := by simpa [governs] using is
    rw [rewriteScan_bare bare whole, bind_eq_some_iff] at built
    obtain ⟨filtered, filters, masks⟩ := built
    obtain rfl := foldlM_builderFilter filters
    have schema : rw.ctx.schemaOf (.tableScan scan []) = scan.sourceSchema := by
      simp [PlanContext.schemaOf, TableScan.projectedSchema, whole]
    rw [schema] at masks
    unfold applyMasks at masks
    split at masks
    next unmasked =>
      rw [Bool.and_eq_true, List.isEmpty_iff, List.isEmpty_iff] at unmasked
      exact Or.inl ⟨(some.inj masks).symm, fun field _ =>
        governs_of_unmasked _ unmasked.1 unmasked.2 _⟩
    · simp only [schemaOf_filtersOver, schema] at masks
      split at masks
      next empty =>
        have nothing : scan.source = [] := by
          simpa [TableScan.sourceSchema, qualifiedSchema] using empty
        exact Or.inl ⟨(some.inj masks).symm, by simp [nothing]⟩
      · refine Or.inr ⟨?_, fun f member c reads => ?_⟩
        swap
        · have found := builderProject_resolves masks
            (mem_map_of_mem member) reads
          rwa [schemaOf_filtersOver, schema] at found
        unfold PlanContext.builderProject at masks
        split at masks
        · obtain ⟨es, normalized, rfl⟩ := map_eq_some_iff.mp masks
          obtain rfl := eq_map_of_mapM (fun _ _ => normalizeExpr_some) normalized
          simp only [schemaOf_filtersOver, schema, map_map, maskEntries, probeFilters,
            Function.comp_def]
        · cases masks
  next none =>
    obtain rfl := by simpa [none] using is
    refine Or.inl ⟨(some.inj built).symm, fun field _ => ?_⟩
    exact governs_of_unmasked _ rfl rfl _

end Probe

section Entries

variable (rw : PlanRewriter) (policy : ResolvedPolicy)

def customMask (name : String) : Option Expr :=
  if policy.isRestricted rw.gov.toLowercase name then none
  else match policy.maskFor rw.gov.toLowercase name with
    | some (.custom e) => some e
    | _ => none

def keepsColumn (name : String) : Bool := (customMask rw policy name).any (isOwnColumn name)

def looksGuarded (name : String) : Bool :=
  (customMask rw policy name).any (isGuardBody name)

/-- Above row filters, every column's mask has the shape of the guard. -/
def allLookGuarded (schema : SourceSchema) : Bool :=
  !policy.rowFilters.isEmpty && !schema.isEmpty &&
    schema.all fun field => looksGuarded rw policy field.1

variable {rw policy}

theorem ownTests_applyMask (name : String) (reference : Column) (type : DataType)
    (mask : MaskType) (maskKey : Option (List Nat)) :
    (isOwnColumn name (applyMask reference type mask maskKey) = match mask with
      | .custom e => isOwnColumn name e
      | _ => false) ∧
    isGuardBody name (applyMask reference type mask maskKey) =
      match mask with
      | .custom e => isGuardBody name e
      | _ => false := by
  cases mask with
  | custom e => exact ⟨rfl, rfl⟩
  | nullify => exact ⟨rfl, rfl⟩
  | redact | hash | partialMask | dateShowYear =>
    simp only [applyMask]
    split <;> exact ⟨rfl, rfl⟩

theorem isGuardEntry_maskExpr (f : PlanField) :
    isGuardEntry (rw.maskExpr policy f) = looksGuarded rw policy f.name := by
  unfold maskExpr looksGuarded customMask
  split
  · rfl
  · cases policy.maskFor rw.gov.toLowercase f.name with
    | none => rfl
    | some mask =>
      simp only [isGuardEntry, (ownTests_applyMask ..).2]
      cases mask <;> rfl

theorem maskOf_maskExpr (f : PlanField) :
    (maskOf (rw.maskExpr policy f)).isSome =
      (policy.governs rw.gov.toLowercase f.name && !keepsColumn rw policy f.name) := by
  unfold maskExpr keepsColumn customMask ResolvedPolicy.governs
  split
  next restricted =>
    simp [restricted, maskOf, entry, isOwnColumn, applyMask, typedNull, Option.filter]
  next unrestricted =>
    cases policy.maskFor rw.gov.toLowercase f.name with
    | none => simp [maskOf_column, unrestricted]
    | some mask =>
      simp only [maskOf, entry, filter_some, (ownTests_applyMask ..).1]
      cases mask with
      | custom e =>
        cases own : isOwnColumn f.name e <;> simp [unrestricted, own]
      | _ => simp [unrestricted]

theorem of_maskOf_maskExpr {f : PlanField} {name : String} {body : Expr}
    (masked : maskOf (rw.maskExpr policy f) = some (name, body)) :
    name = f.name ∧
      ((policy.isRestricted rw.gov.toLowercase name = true ∧ body = typedNull f.dataType) ∨
        (policy.isRestricted rw.gov.toLowercase name = false ∧ ∃ mask,
          policy.maskFor rw.gov.toLowercase name = some mask ∧
          body = applyMask (rw.col name) f.dataType mask rw.gov.maskKey)) := by
  obtain ⟨relation, is⟩ := alias_of_maskOf masked
  revert is
  fun_cases rw.maskExpr policy f <;> rintro ⟨⟩
  next restricted => exact ⟨rfl, Or.inl ⟨restricted, rfl⟩⟩
  next unrestricted mask found =>
    exact ⟨rfl, Or.inr ⟨by simpa using unrestricted, mask, found, rfl⟩⟩

end Entries

def HasKey (masks : List (String × String)) (name : String) : Prop := ∃ sql, (name, sql) ∈ masks

section Walk

variable {k : Kernels} {u : Unparser k} {found found' : Gathered}

theorem takeMask_ok {e : Expr} (taken : takeMask u found e = .ok found') :
    (maskOf e = none ∧ found' = found) ∨
      ∃ name body sql, maskOf e = some (name, body) ∧ maskSql u name body = .ok sql ∧
        found'.rowFilters = found.rowFilters ∧
        found'.columnMaskSqls = (name, sql) :: found.columnMaskSqls.filter fun m =>
          m.1 != name := by
  unfold takeMask at taken
  split at taken
  next none => exact Or.inl ⟨none, (Except.ok.inj taken).symm⟩
  next name body masked =>
    obtain ⟨sql, rendered, ⟨⟩⟩ := bind_eq_ok.mp taken
    exact Or.inr ⟨name, body, sql, masked, rendered, rfl, rfl⟩

structure Walked (u : Unparser k) (es : List Expr) (found found' : Gathered) : Prop where
  rowFilters : found'.rowFilters = found.rowFilters
  source : ∀ name sql, (name, sql) ∈ found'.columnMaskSqls → (name, sql) ∈ found.columnMaskSqls ∨
    ∃ e ∈ es, ∃ body, maskOf e = some (name, body) ∧ maskSql u name body = .ok sql
  kept : ∀ name, HasKey found.columnMaskSqls name → HasKey found'.columnMaskSqls name
  added : ∀ e ∈ es, ∀ name body, maskOf e = some (name, body) → HasKey found'.columnMaskSqls name

theorem walked_takeMask {e : Expr} (taken : takeMask u found e = .ok found') :
    Walked u [e] found found' := by
  rcases takeMask_ok taken with ⟨none, rfl⟩ | ⟨name, body, sql, masked, rendered, filters, masks⟩
  · exact ⟨rfl, fun _ _ => Or.inl, fun _ => id, by simp [none]⟩
  · refine ⟨filters, fun n s member => ?_, fun n ⟨s, member⟩ => ?_, fun e' is n b masked' => ?_⟩
    · rw [masks, mem_cons] at member
      rcases member with is | earlier
      · cases is
        exact Or.inr ⟨e, by simp, body, masked, rendered⟩
      · exact Or.inl (mem_filter.mp earlier).1
    · by_cases same : n = name
      · exact ⟨sql, by simp [masks, same]⟩
      · exact ⟨s, by simp [masks, member, same]⟩
    · obtain rfl := mem_singleton.mp is
      rw [masked] at masked'
      cases masked'
      exact ⟨sql, by simp [masks]⟩

theorem Walked.trans {es es' : List Expr} {found'' : Gathered} (first : Walked u es found found')
    (rest : Walked u es' found' found'') : Walked u (es ++ es') found found'' where
  rowFilters := rest.rowFilters.trans first.rowFilters
  source name sql member := by
    rcases rest.source name sql member with earlier | ⟨e, inside, later⟩
    · rcases first.source name sql earlier with start | ⟨e, inside, here⟩
      · exact Or.inl start
      · exact Or.inr ⟨e, mem_append_left _ inside, here⟩
    · exact Or.inr ⟨e, mem_append_right _ inside, later⟩
  kept name key := rest.kept name (first.kept name key)
  added e inside name body masked := by
    rcases mem_append.mp inside with here | later
    · exact rest.kept name (first.added e here name body masked)
    · exact rest.added e later name body masked

theorem foldlM_takeMask {es : List Expr} (walked : es.foldlM (takeMask u) found = .ok found') :
    Walked u es found found' := by
  induction es generalizing found with
  | nil =>
    cases walked
    exact ⟨rfl, fun _ _ => Or.inl, fun _ => id, by simp⟩
  | cons e es ih =>
    obtain ⟨next, taken, rest⟩ := bind_eq_ok.mp walked
    exact (walked_takeMask taken).trans (ih rest)

end Walk

/-- A cast of NULL that succeeds gives NULL. -/
def CastsNulls (k : Kernels) : Prop :=
  ∀ v type w, v.isNull = true → k.cast v type = some w → w.isNull = true

theorem isNull_of_isNullLiteral {k : Kernels} (casts : CastsNulls k) {env : RowEnv} {e : Expr}
    {v : ScalarValue} (null : isNullLiteral e = true) (evaluated : eval k env e = some v) :
    v.isNull = true := by
  match e with
  | .literal w =>
    cases evaluated
    exact null
  | .cast e type =>
    simp only [eval, bind_eq_bind, bind_eq_some_iff] at evaluated
    obtain ⟨w, inner, cast⟩ := evaluated
    exact casts w type v (isNull_of_isNullLiteral casts (e := e) null inner) cast
  | .tryCast e type =>
    simp only [eval, bind_eq_bind, bind_eq_some_iff] at evaluated
    obtain ⟨w, inner, cast⟩ := evaluated
    cases cast
    cases tried : k.cast w type with
    | none => simp
    | some x => exact casts w type x (isNull_of_isNullLiteral casts (e := e) null inner) tried

section Meaning

variable {k : Kernels} (explicit : Explicit k) (tableName : TableReference) (source : SourceSchema)
  (row : SourceRow)

theorem policyEnv_named : Governance.policyEnv tableName source row =
    rowEnv (named tableName (source.map Prod.fst)) ((source.map Prod.fst).map row)
      (fun _ => .null) [] := by
  simp only [Governance.policyEnv, sourceEnv, columns_qualifiedSchema, map_map, Function.comp_def]

include explicit

theorem eval_unnormalized {e : Expr}
    (resolves : ∀ c ∈ e.columnRefs, ((qualifiedSchema tableName source).resolve c).isSome = true) :
    eval k (Governance.policyEnv tableName source row)
        (unnormalizeCol (e.mapColumns (normalizeColD (qualifiedSchema tableName source)))) =
      eval k (Governance.policyEnv tableName source row) e := by
  unfold unnormalizeCol Expr.mapColumns
  rw [eval_mapColumns explicit (fun _ _ => rfl), eval_mapColumns explicit (fun _ _ => rfl)]
  refine eval_congr e ⟨fun c inside => ?_, fun _ _ => rfl, fun _ _ _ _ => rfl,
    fun _ _ _ _ _ => Or.inl rfl⟩
  have meant := name_of_resolves (columns_qualifiedSchema tableName source)
    (resolves c (mem_columnRefs.mpr inside))
  have bare : qualifies tableName ⟨none, c.name⟩ = true := rfl
  simp only [RowEnv.through, policyEnv_named, rowEnv, normalizeColD_name, columnIn_named, bare,
    meant.2]

end Meaning

structure Extracted (rw : PlanRewriter) {k : Kernels} (u : Unparser k) (policy : ResolvedPolicy)
    (scan : TableScan) (found : Gathered) : Prop where
  rowFilters : found.rowFilters = (probeFilters policy scan).reverse
  source : ∀ name sql, (name, sql) ∈ found.columnMaskSqls → ∃ f ∈ scan.sourceSchema, ∃ body,
    maskOf (rw.maskExpr policy f) = some (name, body) ∧
      maskSql u name (body.mapColumns (normalizeColD scan.sourceSchema)) = .ok sql ∧
      ∀ c ∈ body.columnRefs, (scan.sourceSchema.resolve c).isSome = true
  keys : ∀ name, HasKey found.columnMaskSqls name ↔ name ∈ scan.source.map Prod.fst ∧
    policy.governs rw.gov.toLowercase name = true ∧ keepsColumn rw policy name = false ∧
      allLookGuarded rw policy scan.source = false

section Extraction

variable {rw : PlanRewriter} {k : Kernels} {u : Unparser k} {scan : TableScan} {found : Gathered}
  {plan' : LogicalPlan} {policy : ResolvedPolicy}

variable (policy) in
theorem isRowFilterGuard_probe : isRowFilterGuard (maskEntries rw policy scan)
        (filtersOver (probeFilters policy scan) (.tableScan scan [])) =
      allLookGuarded rw policy scan.source := by
  have entries (f : PlanField) :
      isGuardEntry ((rw.maskExpr policy f).mapColumns (normalizeColD scan.sourceSchema)) =
        looksGuarded rw policy f.name := by
    rw [isGuardEntry_mapColumns (normalizeColD_name _), isGuardEntry_maskExpr]
  have all : (maskEntries rw policy scan).all isGuardEntry =
      scan.source.all fun field => looksGuarded rw policy field.1 := by
    simp only [maskEntries, all_map, Function.comp_def, entries]
    simp only [TableScan.sourceSchema, qualifiedSchema, all_map, Function.comp_def]
  have none : (maskEntries rw policy scan).isEmpty = scan.source.isEmpty := by
    simp [maskEntries, TableScan.sourceSchema, qualifiedSchema]
  have filters : (probeFilters policy scan).isEmpty = policy.rowFilters.isEmpty := by
    simp [probeFilters]
  rw [isRowFilterGuard, isFilter_filtersOver, all, none, filters]
  rfl

theorem mem_names {name : String} :
    name ∈ scan.source.map Prod.fst ↔ ∃ f ∈ scan.sourceSchema, f.name = name := by
  simp [TableScan.sourceSchema, qualifiedSchema]

theorem extracted_of_walked (unguarded : allLookGuarded rw policy scan.source = false)
    (resolves : ∀ f ∈ scan.sourceSchema, ∀ c ∈ (rw.maskExpr policy f).columnRefs,
      (scan.sourceSchema.resolve c).isSome = true)
    {start : Gathered} (walked : Walked u (maskEntries rw policy scan) {} start) :
    Extracted rw u policy scan { start with rowFilters := (probeFilters policy scan).reverse } := by
  have source : ∀ name sql, (name, sql) ∈ start.columnMaskSqls → ∃ f ∈ scan.sourceSchema, ∃ body,
      maskOf (rw.maskExpr policy f) = some (name, body) ∧
        maskSql u name (body.mapColumns (normalizeColD scan.sourceSchema)) = .ok sql ∧
        ∀ c ∈ body.columnRefs, (scan.sourceSchema.resolve c).isSome = true := by
    intro name sql member
    rcases walked.source name sql member with none | ⟨e, inside, body', masked, rendered⟩
    · cases none
    · obtain ⟨f, field, rfl⟩ := mem_map.mp inside
      rw [maskOf_mapColumns (normalizeColD_name _), map_eq_some_iff] at masked
      obtain ⟨⟨n, body⟩, masked, is⟩ := masked
      cases is
      refine ⟨f, field, body, masked, rendered, fun c reads => resolves f field c ?_⟩
      obtain ⟨relation, alias_⟩ := alias_of_maskOf masked
      rw [alias_]
      simpa [Expr.columnRefs, Expr.subexprs] using reads
  refine ⟨rfl, source, fun name => ⟨?_, ?_⟩⟩
  · rintro ⟨sql, member⟩
    obtain ⟨f, field, body, masked, -⟩ := source name sql member
    obtain ⟨rfl, -⟩ := of_maskOf_maskExpr masked
    have some : (maskOf (rw.maskExpr policy f)).isSome = true := by
      rw [masked]
      rfl
    rw [maskOf_maskExpr, Bool.and_eq_true, Bool.not_eq_true'] at some
    exact ⟨mem_names.mpr ⟨f, field, rfl⟩, some.1, some.2, unguarded⟩
  · rintro ⟨inside, governed, masks, -⟩
    obtain ⟨f, field, rfl⟩ := mem_names.mp inside
    have some : (maskOf (rw.maskExpr policy f)).isSome = true := by
      rw [maskOf_maskExpr, governed, masks]
      rfl
    obtain ⟨⟨n, body⟩, masked⟩ := Option.isSome_iff_exists.mp some
    obtain ⟨rfl, -⟩ := of_maskOf_maskExpr masked
    refine walked.added _ (mem_map_of_mem field) f.name
      (body.mapColumns (normalizeColD scan.sourceSchema)) ?_
    rw [maskOf_mapColumns (normalizeColD_name _), masked]
    rfl

theorem extracted_of_nothing (whenNone : ∀ field ∈ scan.source,
      policy.governs rw.gov.toLowercase field.1 = true →
        allLookGuarded rw policy scan.source = true) :
    Extracted rw u policy scan
      { rowFilters := (probeFilters policy scan).reverse } := by
  refine ⟨rfl, by simp, fun name => ⟨(fun ⟨_, member⟩ => nomatch member), ?_⟩⟩
  rintro ⟨inside, governed, -, unguarded⟩
  obtain ⟨field, member, rfl⟩ := mem_map.mp inside
  rw [whenNone field member governed] at unguarded
  cases unguarded

theorem gather_probe (is : resolved rw.gov scan.tableName = policy) (bare : scan.filters = [])
    (whole : scan.projection = none)
    (built : rw.evaluate (.tableScan scan []) = some plan')
    (gathered : gather u plan' {} = .ok found) : Extracted rw u policy scan found := by
  rcases evaluate_probe is bare whole built with ⟨rfl, ungoverned⟩ | ⟨rfl, resolves⟩
  · rw [gather_filtersOver] at gathered
    cases gathered
    refine extracted_of_nothing fun field member governed => ?_
    rw [ungoverned field member] at governed
    cases governed
  · rw [gather, isRowFilterGuard_probe] at gathered
    cases guarded : allLookGuarded rw policy scan.source with
    | true =>
      rw [guarded, if_pos rfl, gather_filtersOver] at gathered
      cases gathered
      exact extracted_of_nothing fun _ _ _ => guarded
    | false =>
      rw [guarded, if_neg Bool.false_ne_true] at gathered
      obtain ⟨start, walked, rest⟩ := bind_eq_ok.mp gathered
      have first := foldlM_takeMask walked
      rw [gather_filtersOver, first.rowFilters] at rest
      cases rest
      exact extracted_of_walked guarded resolves first

end Extraction

/-- The write path gets the policy: a row filter that keeps the rows all row filters keep, and for
exactly the governed columns their masks. -/
structure Agrees (engine : WriteEngine) (tableName : TableReference) (schema : SourceSchema)
    (result : WritePolicyPredicates) : Prop where
  noFilter : result.rowFilterSql = none ↔ (resolved engine.rewriter.gov tableName).rowFilters = []
  filter : ∀ sql, result.rowFilterSql = some sql → ∀ row,
    (engine.unparser.meaning sql (Governance.policyEnv tableName schema row)).bind
        ScalarValue.truth = some true ↔
      Governance.admits engine.rewriter.ctx.kernels (resolved engine.rewriter.gov tableName)
        tableName schema row = true
  keys : ∀ name, HasKey result.columnMaskSqls name ↔ name ∈ schema.map Prod.fst ∧
    (resolved engine.rewriter.gov tableName).governs engine.rewriter.gov.toLowercase name = true
  restricted : ∀ field ∈ schema, ∀ sql, (field.1, sql) ∈ result.columnMaskSqls →
    (resolved engine.rewriter.gov tableName).isRestricted engine.rewriter.gov.toLowercase
      field.1 = true → sql = "NULL"
  masks : ∀ field ∈ schema, ∀ sql, (field.1, sql) ∈ result.columnMaskSqls →
    (resolved engine.rewriter.gov tableName).isRestricted engine.rewriter.gov.toLowercase
      field.1 = false → ∀ mask, (resolved engine.rewriter.gov tableName).maskFor
        engine.rewriter.gov.toLowercase field.1 = some mask → ∀ row v,
      eval engine.rewriter.ctx.kernels (Governance.policyEnv tableName schema row)
          (applyMask ⟨none, field.1⟩ field.2 mask engine.rewriter.gov.maskKey) = some v →
        ∃ w, engine.unparser.meaning sql (Governance.policyEnv tableName schema row) = some w ∧
          (w = v ∨ w.isNull = true ∧ v.isNull = true)

section Agreement

variable {rw : PlanRewriter} {u : Unparser rw.ctx.kernels} {policy : ResolvedPolicy}
  {scan : TableScan} {found : Gathered}

theorem governs_of_customMask {name : String} {p : Expr → Bool}
    (custom : (customMask rw policy name).any p = true) :
    policy.governs rw.gov.toLowercase name = true := by
  revert custom
  fun_cases customMask rw policy name <;> intro custom
  case case2 masked => simp [ResolvedPolicy.governs, masked]
  all_goals cases custom

theorem keys_iff (extracted : Extracted rw u policy scan found) :
    (∀ name, HasKey found.columnMaskSqls name ↔ name ∈ scan.source.map Prod.fst ∧
      policy.governs rw.gov.toLowercase name = true) ↔
    (∀ field ∈ scan.source, keepsColumn rw policy field.1 = false) ∧
      allLookGuarded rw policy scan.source = false := by
  constructor
  · intro keys
    have covered {field : String × DataType} (member : field ∈ scan.source) {p : Expr → Bool}
        (custom : (customMask rw policy field.1).any p = true) :=
      ((extracted.keys field.1).mp ((keys field.1).mpr
        ⟨mem_map_of_mem member, governs_of_customMask custom⟩)).2.2
    refine ⟨fun field member => ?_, ?_⟩
    · by_contra keeps
      exact keeps (covered member (eq_true_of_ne_false keeps)).1
    · by_contra guarded
      have all := eq_true_of_ne_false guarded
      simp only [allLookGuarded, Bool.and_eq_true, Bool.not_eq_true', all_eq_true,
        isEmpty_eq_false_iff] at all
      obtain ⟨field, member⟩ := exists_mem_of_ne_nil _ all.1.2
      exact guarded (covered member (all.2 field member)).2
  · rintro ⟨masks, unguarded⟩ name
    rw [extracted.keys name]
    refine ⟨fun ⟨inside, governed, _⟩ => ⟨inside, governed⟩, fun ⟨inside, governed⟩ => ?_⟩
    obtain ⟨field, member, rfl⟩ := mem_map.mp inside
    exact ⟨inside, governed, masks field member, unguarded⟩

theorem rowFilterSql_none_iff (extracted : Extracted rw u policy scan found)
    {sql : Option String} (rendered : rowFilterSql u found.rowFilters = .ok sql) :
    sql = none ↔ policy.rowFilters = [] := by
  have empty : found.rowFilters = [] ↔ policy.rowFilters = [] := by
    simp [extracted.rowFilters, probeFilters]
  rw [← empty]
  cases is : found.rowFilters with
  | nil =>
    rw [is] at rendered
    cases rendered
    simp
  | cons f fs =>
    rw [is, rowFilterSql, Expr.conjunction] at rendered
    dsimp only at rendered
    split at rendered <;> cases rendered
    simp

theorem rowFilterSql_meaning (explicit : Explicit rw.ctx.kernels)
    (extracted : Extracted rw u policy scan found) {sql : String}
    (rendered : rowFilterSql u found.rowFilters = .ok (some sql)) (row : SourceRow) :
    (u.meaning sql (Governance.policyEnv scan.tableName scan.source row)).bind
        ScalarValue.truth = some true ↔
      Governance.admits rw.ctx.kernels policy scan.tableName scan.source row = true := by
  revert rendered
  fun_cases rowFilterSql u found.rowFilters <;> rintro ⟨⟩
  next combined conjunction is =>
    rw [u.faithful _ _ is]
    change Holds _ _ combined ↔ _
    rw [holds_conjunction conjunction, extracted.rowFilters]
    simp only [probeFilters, mem_reverse, mem_map, forall_exists_index, and_imp,
      forall_apply_eq_imp_iff₂, Governance.admits, all_eq_true, decide_eq_true_iff]
    refine forall₂_congr fun f _ => ?_
    rw [Holds, Holds, TableScan.sourceSchema, policyEnv_named,
      eval_normalized explicit (columns_qualifiedSchema _ _)]

theorem maskSql_restricted (extracted : Extracted rw u policy scan found)
    {name sql : String} (member : (name, sql) ∈ found.columnMaskSqls)
    (restricted : policy.isRestricted rw.gov.toLowercase name = true) : sql = "NULL" := by
  obtain ⟨f, -, body, masked, rendered, -⟩ := extracted.source name sql member
  obtain ⟨rfl, ⟨-, rfl⟩ | ⟨unrestricted, -⟩⟩ := of_maskOf_maskExpr masked
  · have null : isNullLiteral ((typedNull f.dataType).mapColumns
        (normalizeColD scan.sourceSchema)) = true := by
      rw [isNullLiteral_mapColumns]
      exact ScalarValue.nullOf_isNull f.dataType
    rw [maskSql, if_pos null] at rendered
    exact (Except.ok.inj rendered).symm
  · rw [restricted] at unrestricted
    cases unrestricted

theorem maskSql_meaning (explicit : Explicit rw.ctx.kernels) (casts : CastsNulls rw.ctx.kernels)
    (extracted : Extracted rw u policy scan found) {field : String × DataType}
    (inside : field ∈ scan.source) {sql : String}
    (member : (field.1, sql) ∈ found.columnMaskSqls)
    (unrestricted : policy.isRestricted rw.gov.toLowercase field.1 = false) {mask : MaskType}
    (found_ : policy.maskFor rw.gov.toLowercase field.1 = some mask)
    (reads : ReadsBack rw policy field)
    {row : SourceRow} {v : ScalarValue}
    (evaluated : eval rw.ctx.kernels (Governance.policyEnv scan.tableName scan.source row)
      (applyMask ⟨none, field.1⟩ field.2 mask rw.gov.maskKey) = some v) :
    ∃ w, u.meaning sql (Governance.policyEnv scan.tableName scan.source row) = some w ∧
      (w = v ∨ w.isNull = true ∧ v.isNull = true) := by
  obtain ⟨f, inSchema, body, masked, rendered, resolves⟩ := extracted.source _ _ member
  obtain ⟨name, ⟨restricted, -⟩ | ⟨-, mask', masked', rfl⟩⟩ := of_maskOf_maskExpr masked
  · rw [unrestricted] at restricted
    cases restricted
  · rw [found_] at masked'
    cases masked'
    have type : f.dataType = field.2 := by
      have here := find_field scan.distinct (mem_sourceSchema.mp inSchema).2
      have there := find_field scan.distinct inside
      simp only [← name] at here
      rw [here] at there
      exact congrArg Prod.snd (some.inj there)
    rw [type, applyMask_reference (reads unrestricted mask found_)] at rendered resolves
    unfold maskSql at rendered
    split at rendered
    next null =>
      cases rendered
      rw [isNullLiteral_mapColumns] at null
      exact ⟨.null, u.readsNull _, Or.inr ⟨rfl, isNull_of_isNullLiteral casts null evaluated⟩⟩
    · split at rendered <;> cases rendered
      next is =>
        refine ⟨v, ?_, Or.inl rfl⟩
        rw [u.faithful _ _ is, TableScan.sourceSchema, eval_unnormalized explicit _ _ _ resolves,
          evaluated]

theorem probeScan_some {reference : TableReference} {schema : SourceSchema}
    (probe : probeScan reference schema = some scan) :
    scan.tableName = reference ∧ scan.source = schema ∧ scan.filters = [] ∧
      scan.projection = none := by
  unfold probeScan at probe
  split at probe <;> cases probe
  exact ⟨rfl, rfl, rfl, rfl⟩

variable {engine : WriteEngine}

theorem extract_ok {catalog : Option String} {namespaceKey tableName : String}
    {schema : SourceSchema} {result : WritePolicyPredicates}
    (extracts : extractWritePredicates engine catalog namespaceKey tableName schema = .ok result) :
    ∃ scan found, scan.tableName = probeReference catalog namespaceKey tableName ∧
      scan.source = schema ∧ Extracted engine.rewriter engine.unparser
        (resolved engine.rewriter.gov scan.tableName) scan found ∧
      rowFilterSql engine.unparser found.rowFilters = .ok result.rowFilterSql ∧
      found.columnMaskSqls = result.columnMaskSqls := by
  revert extracts
  fun_cases extractWritePredicates engine catalog namespaceKey tableName schema <;> intro extracts
  case case3 scan probe rewritten built =>
    obtain ⟨owner, source, bare, whole⟩ := probeScan_some probe
    obtain ⟨found, gathered, rest⟩ := bind_eq_ok.mp extracts
    obtain ⟨sql, rendered, ⟨⟩⟩ := bind_eq_ok.mp rest
    exact ⟨scan, found, owner, source, gather_probe rfl bare whole built gathered, rendered, rfl⟩
  all_goals cases extracts

/-- When extraction succeeds, the write path agrees with the policy exactly when no column's mask
is the column itself and the masks do not all look like the guard. -/
theorem extractWritePredicates_agrees_iff (engine : WriteEngine)
    (explicit : Explicit engine.rewriter.ctx.kernels)
    (casts : CastsNulls engine.rewriter.ctx.kernels) (catalog : Option String)
    (namespaceKey tableName : String) (schema : SourceSchema)
    (references : ∀ field ∈ schema, ReadsBack engine.rewriter
      (resolved engine.rewriter.gov (probeReference catalog namespaceKey tableName)) field)
    (result : WritePolicyPredicates)
    (extracts : extractWritePredicates engine catalog namespaceKey tableName schema = .ok result) :
    Agrees engine (probeReference catalog namespaceKey tableName) schema result ↔
      (∀ field ∈ schema, keepsColumn engine.rewriter
        (resolved engine.rewriter.gov (probeReference catalog namespaceKey tableName))
        field.1 = false) ∧
      allLookGuarded engine.rewriter
        (resolved engine.rewriter.gov (probeReference catalog namespaceKey tableName))
        schema = false := by
  obtain ⟨scan, found, owner, rfl, extracted, rendered, masks⟩ := extract_ok extracts
  rw [← owner] at references ⊢
  rw [← keys_iff extracted]
  refine ⟨fun agrees name => masks ▸ agrees.keys name, fun keys => ?_⟩
  refine ⟨rowFilterSql_none_iff extracted rendered, fun sql is row => ?_,
    fun name => masks ▸ keys name, fun field _ sql member => ?_,
    fun field inside sql member unrestricted mask found_ row v => ?_⟩
  · exact rowFilterSql_meaning explicit extracted (is ▸ rendered) row
  · exact maskSql_restricted extracted (masks ▸ member)
  · exact maskSql_meaning explicit casts extracted inside (masks ▸ member) unrestricted found_
      (references field inside)

end Agreement

/-- The row filter `owner = 'ann'` over the probe. -/
def annsRows : Expr :=
  .binaryExpr (.column ⟨some (.partialRef "bank" "accounts"), "owner"⟩) .eq
    (.literal (.utf8 (some "ann")))

/-- An unparser that renders the row filter and the redaction, and nothing else. -/
def bankUnparser : Unparser explicitContext.kernels where
  exprToSql
    | .binaryExpr (.column c) .eq (.literal (.utf8 (some s))) =>
      if c = ⟨some (.partialRef "bank" "accounts"), "owner"⟩ ∧ s = "ann" then
        .ok "bank.accounts.owner = 'ann'"
      else .error "unsupported"
    | .literal (.utf8 (some s)) => if s = "***" then .ok "'***'" else .error "unsupported"
    | _ => .error "unsupported"
  meaning sql env :=
    if sql = "bank.accounts.owner = 'ann'" then
      eval explicitContext.kernels env annsRows
    else if sql = "'***'" then some (.utf8 (some "***"))
    else if sql = "NULL" then some .null
    else none
  faithful e sql rendered env := by
    split at rendered
    · split at rendered
      next is =>
        cases rendered
        rw [is.1, is.2]
        rfl
      · cases rendered
    · split at rendered
      next is =>
        cases rendered
        rw [is]
        rfl
      · cases rendered
    · cases rendered
  readsNull _ := rfl

/-- The engine of a bank with one policy on its accounts. -/
def bankEngine (policy : ResolvedPolicy) : WriteEngine where
  rewriter :=
    { bankRewriter with gov := ⟨id, none, [("bank.accounts", policy)]⟩ }
  unparser := bankUnparser
  scanError := "duplicate column"
  evaluateError := ⟨.executionFailed, "Plan rewrite failed"⟩

/-- The owner redacted and the balance withheld. -/
def redactedPolicy : ResolvedPolicy where
  rowFilters := [eqText "owner" "ann"]
  columnMasks := [("owner", .redact "***")]
  restrictedColumns := ["balance"]
  plainFilters := by decide
  plainMasks := redact_plain

/-- `CASE WHEN region = 'EU' THEN column END`. -/
def shownInEurope (column : String) : MaskType :=
  .custom (.case none [(eqText "region" "EU", .column ⟨none, column⟩)] none)

/-- Both columns shown on European rows only. -/
def europeanPolicy : ResolvedPolicy where
  rowFilters := [eqText "owner" "ann"]
  columnMasks := [("owner", shownInEurope "owner"), ("region", shownInEurope "region")]
  restrictedColumns := []
  plainFilters := by decide
  plainMasks name e member := by
    simp only [mem_cons, Prod.mk.injEq, not_mem_nil, or_false] at member
    rcases member with ⟨-, is⟩ | ⟨-, is⟩ <;> cases is <;> decide

theorem bankKernels_castsNulls : CastsNulls explicitContext.kernels := by
  intro v type w null cast
  change (if castCovered v.dataType type then castValue v type else none) = some w at cast
  split at cast
  · rw [castValue, if_pos null] at cast
    split at cast
    · exact some.inj cast ▸ null
    · exact some.inj cast ▸ ScalarValue.nullOf_isNull type
  · cases cast

theorem agrees_on_redacted :
    extractWritePredicates (bankEngine redactedPolicy) none "bank" "accounts"
        [("owner", .utf8), ("balance", .int64)] =
      .ok ⟨some "bank.accounts.owner = 'ann'", [("balance", "NULL"), ("owner", "'***'")], []⟩ ∧
    Agrees (bankEngine redactedPolicy) (.partialRef "bank" "accounts")
      [("owner", .utf8), ("balance", .int64)]
      ⟨some "bank.accounts.owner = 'ann'", [("balance", "NULL"), ("owner", "'***'")], []⟩ := by
  refine ⟨rfl, (extractWritePredicates_agrees_iff (bankEngine redactedPolicy)
    bankRewriter_explicit bankKernels_castsNulls none "bank" "accounts" _
    (fun _ _ _ _ _ _ => rfl) _ rfl).mpr ⟨by decide, by decide⟩⟩

/-- The two masks are taken for the guard and dropped. -/
theorem drops_masks_like_guard :
    extractWritePredicates (bankEngine europeanPolicy) none "bank" "accounts"
        [("owner", .utf8), ("region", .utf8)] =
      .ok ⟨some "bank.accounts.owner = 'ann'", [], []⟩ ∧
    ¬Agrees (bankEngine europeanPolicy) (.partialRef "bank" "accounts")
      [("owner", .utf8), ("region", .utf8)] ⟨some "bank.accounts.owner = 'ann'", [], []⟩ := by
  refine ⟨rfl, fun agrees => ?_⟩
  have key : HasKey [] "owner" := (agrees.keys "owner").mpr ⟨by decide, by decide⟩
  obtain ⟨sql, member⟩ := key
  cases member

end Sqe.Policy.WritePredicates
