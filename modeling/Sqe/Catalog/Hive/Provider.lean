/- GID: Sqe/Catalog/Hive/Provider
   generality: G
   digest: Partition planning of the Hive provider loses no row and, when decided, adds none. -/

import Sqe.Catalog.Hive.ProjectionSound
import Sqe.DataFusion.CastLike

/-!
The provider plans a scan from a partition index or from a projection. Both directions are
about one pruner: a partition it drops must hold no matching row, and a partition it keeps
must match every filter over partition columns, because the engine does not apply those again.
-/

set_option autoImplicit false

namespace Sqe.Catalog.Hive

open Sqe.DataFusion Sqe.Library.Traverse List

/-- `HiveTableProvider`, as far as planning reads it. The index has been validated against the
declared keys, and a projection names only declared keys. -/
structure HiveTableProvider where
  keys : List PartitionKey
  index : Option (List PartitionIndexEntry)
  projection : Option ProjectionConfig
  maxIndexEntries : Nat
  tableLocation : String
  index_keys : ∀ entries, index = some entries → ∀ entry ∈ entries, ∀ name,
    (entry.values name).isSome = (keyOf keys name).isSome
  projection_keys : ∀ config, projection = some config → ∀ col ∈ config.columns,
    (keyOf keys col.name).isSome = true

namespace HiveTableProvider

variable (chrono : Chrono) (t : HiveTableProvider)

def plannedEntries (filters : List Expr) : Except Abort (List PartitionIndexEntry) :=
  match t.projection.filter ProjectionConfig.enabled with
  | some proj => do
    let virtuals ← evaluateProjection chrono proj t.tableLocation filters
      (partitionTypes t.keys) t.maxIndexEntries
    return pruneEntries chrono virtuals filters (partitionTypes t.keys)
  | none => match t.index with
      | some entries => .ok (pruneEntries chrono entries filters (partitionTypes t.keys))
      | none => .ok []

def scanEntries (filters : List Expr) : Except Abort (List PartitionIndexEntry) :=
  t.plannedEntries chrono (normalizeDefaultPartitionFilters filters (partitionColumns t.keys))

/-- The partitions of the table: those of the full product of an enabled projection, or those
of the index. -/
def HasPartition (entry : PartitionIndexEntry) : Prop :=
  match t.projection.filter ProjectionConfig.enabled with
  | some proj => InProduct (OnAxis chrono) proj t.tableLocation entry
  | none => ∃ entries, t.index = some entries ∧ entry ∈ entries

/-- The enumeration of an enabled projection reaches the values of the entry. -/
def Reached (entry : PartitionIndexEntry) : Prop :=
  ∀ proj, t.projection.filter ProjectionConfig.enabled = some proj →
    InProduct (ReachedOn chrono) proj t.tableLocation entry

end HiveTableProvider

/-- Arrow reading strings only. -/
def textOnly : TryFromString := fun raw type =>
  if type = .utf8 then some (.utf8 (some raw)) else none

def dateless : Chrono where
  parseDate _ := none
  minDay := 0
  maxDay := 0
  formatDate _ := ""
  ymd _ := (1970, 1, 1)
  fromYmdOpt _ _ _ := none
  format _ _ := none

theorem textOnly_agrees : ParsersAgree dateless textOnly where
  typed raw type v read := by
    unfold textOnly at read
    split at read <;> cases read
    simp_all [ScalarValue.dataType]
  present raw type v _ read := by
    unfold textOnly at read
    split at read <;> cases read
    rfl
  utf8 raw := by simp [textOnly]
  int raw type v n width read _ := by
    unfold textOnly at read
    split at read <;> simp_all
  date raw v d read _ := by simp [textOnly] at read
  sentinel := rfl

def regionKey : PartitionKey := ⟨"region", "string", .utf8, Or.inl (by decide)⟩

def regionEntry (value : String) : PartitionIndexEntry :=
  { values := ValueMap.empty.insert "region" value, location := "s3://events/", fileCount := 1
    totalBytes := 1 }

def eventsTable : HiveTableProvider where
  keys := [regionKey]
  index := some [regionEntry "eu", regionEntry "us"]
  projection := none
  maxIndexEntries := 100000
  tableLocation := "s3://events/"
  index_keys entries listed entry member name := by
    cases listed
    have same (value : String) :
        ((regionEntry value).values name).isSome = (keyOf [regionKey] name).isSome := by
      by_cases region : name = "region"
      · simp [region, regionEntry, ValueMap.insert, keyOf, regionKey]
      · simp [regionEntry, ValueMap.insert, ValueMap.empty, region, keyOf, regionKey,
          Ne.symm region]
    simp only [mem_cons, not_mem_nil, or_false] at member
    rcases member with rfl | rfl <;> exact same _
  projection_keys config declared := by cases declared

/-- A stored row whose data columns are all NULL strings. -/
def blankRow : RowEnv where
  column _ := .utf8 none
  outer _ := .null
  subquery _ := none
  skip _ := true

def regionIsEu : Expr :=
  .binaryExpr (.column ⟨none, "region"⟩) .eq (.literal (.utf8 (some "eu")))

abbrev eventsKernels : Kernels :=
  referenceKernels (columnType eventsTable.keys fun _ => .utf8)

theorem eventsKernels_analysed :
    Analysed eventsKernels (columnType eventsTable.keys fun _ => .utf8) :=
  referenceKernels_analysed _

private theorem eventsTable_hasPartition {value : String} (listed : value = "eu" ∨ value = "us") :
    eventsTable.HasPartition dateless (regionEntry value) := by
  refine ⟨_, rfl, ?_⟩
  rcases listed with rfl | rfl <;> simp

namespace HiveTableProvider

variable {chrono : Chrono} {t : HiveTableProvider}

private theorem HasPartition.probes {entry : PartitionIndexEntry}
    (inside : t.HasPartition chrono entry) :
    Probes t.keys entry entry := by
  intro name raw value
  refine ⟨value, Option.isSome_iff_exists.mp ?_⟩
  unfold HasPartition at inside
  split at inside
  next proj active =>
    obtain ⟨col, member, rfl⟩ := inside.value value
    exact t.projection_keys proj (Option.filter_eq_some_iff.mp active).1 col member
  · obtain ⟨entries, index, member⟩ := inside
    rw [← t.index_keys entries index entry member name, value]
    rfl

private theorem axisProbe_probes {keys : List PartitionKey} {entry : PartitionIndexEntry}
    {name raw : String} (probes : Probes keys entry entry) (value : entry.values name = some raw) :
    Probes keys (axisProbe name raw) entry := by
  intro name' raw' value'
  obtain ⟨rfl, rfl⟩ : name' = name ∧ raw = raw' := by
    by_cases same : name' = name
    · subst same
      simpa [axisProbe, ValueMap.insert] using value'
    · simp [axisProbe, ValueMap.insert, same, ValueMap.empty] at value'
  exact probes _ _ value

theorem not_rejected_of_planned {filters : List Expr} {entry : PartitionIndexEntry}
    {entries : List PartitionIndexEntry} (planned : t.scanEntries chrono filters = .ok entries)
    (kept : entry ∈ entries) {f : Expr} (pushed : f ∈ filters) :
    verdict chrono t.keys entry f ≠ some false := by
  have rewritten := mem_map_of_mem
    (f := Expr.transform (rewriteDefaultPartitionNode (partitionColumns t.keys))) pushed
  unfold scanEntries plannedEntries at planned
  split at planned
  · obtain ⟨virtuals, _, done⟩ := bind_eq_ok.mp planned
    cases done
    exact (mem_pruneEntries.mp kept).2 _ rewritten
  · split at planned
    · cases planned
      exact (mem_pruneEntries.mp kept).2 _ rewritten
    · cases planned
      cases kept

/-- The partition of a row that satisfies every filter, once the enumeration reaches it, is
planned exactly when its entry is not misled about a filter. -/
theorem scanEntries_keeps_iff {tryFromString : TryFromString}
    (parsers : ParsersAgree chrono tryFromString) {k : Kernels} {dataType : Column → DataType}
    (analysed : Analysed k (columnType t.keys dataType)) {filters : List Expr}
    {entry : PartitionIndexEntry} {data : RowEnv} {entries : List PartitionIndexEntry}
    (inside : t.HasPartition chrono entry)
    (reached : t.Reached chrono entry)
    (matching : ∀ f ∈ filters, Holds k (rowEnv t.keys tryFromString entry data) f)
    (planned : t.scanEntries chrono filters = .ok entries) :
    entry ∈ entries ↔ ∀ f ∈ filters, misled chrono t.keys entry f = false := by
  have probes := inside.probes
  refine ⟨fun kept f pushed => Bool.eq_false_iff.mpr fun wrong =>
    not_rejected_of_planned planned kept pushed (rejected_of_misled probes f wrong), ?_⟩
  intro right
  -- No probe of the row is rejected by a rewritten filter.
  have admitted {probe : PartitionIndexEntry} (probing : Probes t.keys probe entry) :
      ∀ f ∈ normalizeDefaultPartitionFilters filters (partitionColumns t.keys),
        evalEntry chrono probe (partitionTypes t.keys) f ≠ some false := by
    intro f rewritten rejected
    obtain ⟨f, member, rfl⟩ := mem_map.mp rewritten
    exact verdict_false parsers analysed probing probes f (right f member) rejected
      (matching f member)
  unfold scanEntries plannedEntries at planned
  unfold HasPartition at inside
  split at planned
  next config active =>
    obtain ⟨-, enabled⟩ := Option.filter_eq_some_iff.mp active
    obtain ⟨virtuals, evaluated, done⟩ := bind_eq_ok.mp planned
    cases done
    refine mem_pruneEntries.mpr ⟨?_, admitted probes⟩
    exact mem_evaluateProjection (reached config active) enabled
      (fun name raw value => admitted (axisProbe_probes probes value)) evaluated
  next inactive =>
    simp only [inactive] at inside
    obtain ⟨entries, index, member⟩ := inside
    rw [index] at planned
    cases planned
    exact mem_pruneEntries.mpr ⟨member, admitted probes⟩

/-- `region = 'eu' OR note IS NULL`: the rows of the partition eu are found, although the second
test is one the entry knows nothing of. -/
theorem scanEntries_keeps_region :
    ∃ entries, eventsTable.scanEntries dateless
        [.binaryExpr regionIsEu .or (.isNull (.column ⟨none, "note"⟩))] = .ok entries ∧
      regionEntry "eu" ∈ entries := by
  have matching : ∀ f ∈ [Expr.binaryExpr regionIsEu .or (.isNull (.column ⟨none, "note"⟩))],
      Holds eventsKernels (rowEnv eventsTable.keys textOnly (regionEntry "eu") blankRow) f := by
    decide
  refine ⟨[regionEntry "eu"], rfl, ?_⟩
  exact (scanEntries_keeps_iff textOnly_agrees eventsKernels_analysed
    (eventsTable_hasPartition (Or.inl rfl)) (fun _ active => by cases active) matching rfl).mpr
    (by decide)

/-- `note IS NULL` on a data column drops every partition, that of a matching row included. -/
theorem scanEntries_loses_null_note :
    ParsersAgree dateless textOnly ∧
      Analysed eventsKernels (columnType eventsTable.keys fun _ => .utf8) ∧
      eventsTable.HasPartition dateless (regionEntry "eu") ∧
      Holds eventsKernels (rowEnv eventsTable.keys textOnly (regionEntry "eu") blankRow)
        (.isNull (.column ⟨none, "note"⟩)) ∧
      eventsTable.scanEntries dateless [.isNull (.column ⟨none, "note"⟩)] = .ok [] :=
  ⟨textOnly_agrees, eventsKernels_analysed, eventsTable_hasPartition (Or.inl rfl), by decide, rfl⟩

end HiveTableProvider

end Sqe.Catalog.Hive
