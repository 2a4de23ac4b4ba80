/- GID: Sqe/Coordinator/PinnedReads
   generality: I
   digest: Which table a time-travel or incremental read loads, and which policy governs it. -/

import Mathlib.Tactic.FinCases
import Sqe.Library.Dotted

/-!
A pinned read registers a provider under an alias, rewrites the statement to it, and gives the scan
its written name back before policy enforcement. Every clause of a statement is resolved on its
own, from the name written before it.
-/

set_option autoImplicit false

namespace Sqe.Coordinator.PinnedReads

open Sqe.Library.Dotted List Option

abbrev Text := List Char

def lower (text : Text) : Text := text.map Char.toLower

def upper (text : Text) : Text := text.map Char.toUpper

def eqIgnoreAsciiCase (a b : Text) : Bool := lower a == lower b

/-- The characters a table name written without quotes is scanned over. -/
def isWordChar (c : Char) : Bool := c.isAlphanum || c == '_'

structure Part where
  value : Text
  quoted : Bool
  unbroken : '"' ∉ value
  word : quoted = false → value ≠ [] ∧ value.all isWordChar = true

def Part.spell (part : Part) : Text :=
  if part.quoted then '"' :: part.value ++ ['"'] else part.value

/-- The name a part stands for: one without quotes folds to lower case. -/
def Part.normalized (part : Part) : Text := if part.quoted then part.value else lower part.value

inductive ObjectName
  | bare (table : Part)
  | inSchema (schema table : Part)
  | full (catalog schema table : Part)

namespace ObjectName

def table : ObjectName → Part
  | .bare table | .inSchema _ table | .full _ _ table => table

def schema? : ObjectName → Option Part
  | .bare _ => none
  | .inSchema schema _ | .full _ schema _ => some schema

def parts : ObjectName → List Part
  | .bare table => [table]
  | .inSchema schema table => [schema, table]
  | .full catalog schema table => [catalog, schema, table]

def text : ObjectName → Text
  | .bare table => table.spell
  | .inSchema schema table => schema.spell ++ '.' :: table.spell
  | .full catalog schema table => catalog.spell ++ '.' :: (schema.spell ++ '.' :: table.spell)

end ObjectName

inductive TableReference
  | bare (table : Text)
  | inSchema (schema table : Text)
  | full (catalog schema table : Text)
deriving DecidableEq

namespace TableReference

def table : TableReference → Text
  | .bare table | .inSchema _ table | .full _ _ table => table

def schema : TableReference → Option Text
  | .bare _ => none
  | .inSchema schema _ | .full _ schema _ => some schema

def catalog : TableReference → Option Text
  | .full catalog _ _ => some catalog
  | _ => none

def display : TableReference → Text
  | .bare table => table
  | .inSchema schema table => schema ++ '.' :: table
  | .full catalog schema table => catalog ++ '.' :: (schema ++ '.' :: table)

end TableReference

/-- `TableReference::from` on the written text. -/
def ObjectName.reference : ObjectName → TableReference
  | .bare table => .bare table.normalized
  | .inSchema schema table => .inSchema schema.normalized table.normalized
  | .full catalog schema table => .full catalog.normalized schema.normalized table.normalized

def isReservedCatalog (catalog : Text) : Bool :=
  eqIgnoreAsciiCase catalog "system".toList || eqIgnoreAsciiCase catalog "datafusion".toList

inductive Source (W : Type)
  | iceberg (warehouse : W)
  | attached (name : Text)
deriving DecidableEq

structure TableId (W : Type) where
  source : Source W
  schema : Text
  table : Text
deriving DecidableEq

structure CatalogConfig (W : Type) where
  name : Text
  warehouse : Text
  catalog : W

/-- The engine's catalogs, by the names they are registered under. -/
structure Engine (W : Type) where
  /-- `flattened_catalogs`, in its order. -/
  flattened : List (CatalogConfig W)
  /-- `resolve_default_catalog`: the catalog of unqualified names. -/
  configDefault : Text
  legacyWarehouse : Text
  /-- Hive roots and attached catalogs. -/
  attached : Text → Bool
  /-- Catalogs the REST service resolves for the caller. -/
  discovered : Text → Option W
  hiveCatalogs : Text → Bool
  upperCase : Text → Bool
  catalogScoped : Bool
  tables : W → Text → Text → Bool
  /-- Letters beyond ASCII that the tokenizer takes into an identifier. -/
  letter : Char → Bool
  /-- No catalog has an empty or a reserved name. -/
  proper : ∀ catalog, catalog = configDefault ∨ (∃ config ∈ flattened, config.name = catalog) ∨
    attached catalog = true ∨ (discovered catalog).isSome = true →
      catalog ≠ [] ∧ isReservedCatalog catalog = false
  /-- `information_schema` is served by the engine, never by an Iceberg catalog. -/
  noInformationSchema : ∀ warehouse schema table, tables warehouse schema table = true →
    eqIgnoreAsciiCase schema "information_schema".toList = false

structure Session where
  defaultCatalog : Option Text
  defaultSchema : Option Text

section Resolve

variable {W : Type} (engine : Engine W) (session : Session)

def Engine.named (name : Text) : Option (CatalogConfig W) :=
  engine.flattened.find? fun config => config.name == name

/-- The catalog that the session is handed with its context: the first of the list, which need not
be the default. -/
def Engine.primary : Option W := engine.flattened.head?.map CatalogConfig.catalog

def Engine.defaultWarehouse : Text :=
  ((engine.named engine.configDefault).map CatalogConfig.warehouse).getD engine.legacyWarehouse

def configuredSessionCatalog (name : Text) : Option W :=
  ((engine.named name).or (engine.flattened.find? fun config => config.warehouse == name)).map
    CatalogConfig.catalog

/-- The default catalog of the session context. -/
def ctxCatalog : Text :=
  match session.defaultCatalog.filter fun catalog => !catalog.isEmpty with
  | some catalog =>
    if (engine.named catalog).isSome || engine.attached catalog ||
        (engine.discovered catalog).isSome then catalog
    else engine.configDefault
  | none => engine.configDefault

def ctxSchema : Text :=
  (session.defaultSchema.filter fun schema => !schema.isEmpty).getD "default".toList

/-- What a catalog name stands for in the session context. -/
def registered (catalog : Text) : Option (Source W) :=
  match engine.named catalog with
  | some config => some (.iceberg config.catalog)
  | none =>
    if engine.attached catalog then some (.attached catalog)
    else (engine.discovered catalog).map .iceberg

variable (reference : TableReference)

def catalogOf : Text :=
  reference.catalog.getD (ctxCatalog engine session)

def resolve : Option (TableId W) :=
  (registered engine (catalogOf engine session reference)).map fun source =>
    ⟨source, reference.schema.getD (ctxSchema session), reference.table⟩

/-- Whether the front door folds the unquoted schema and table of a name to upper case. -/
def foldsUpper (name : ObjectName) : Bool :=
  let catalog := match name with
    | .full catalog _ _ => catalog.normalized
    | _ => session.defaultCatalog.getD engine.configDefault
  engine.upperCase catalog &&
    name.parts.all fun part => !eqIgnoreAsciiCase part.value "information_schema".toList

def folded (upperCase : Bool) (part : Part) : Text :=
  if part.quoted then part.value else if upperCase then upper part.value else lower part.value

/-- The reference a plain `SELECT` is planned with. -/
def plainReference (name : ObjectName) : TableReference :=
  let fold := folded (foldsUpper engine session name)
  match name with
  | .bare table => .bare (fold table)
  | .inSchema schema table => .inSchema (fold schema) (fold table)
  | .full catalog schema table => .full catalog.normalized (fold schema) (fold table)

def plainTable (name : ObjectName) : Option (TableId W) :=
  resolve engine session (plainReference engine session name)

inductive ShowCatalogTarget
  | session
  | named (catalog : Text)

def showCatalogTarget (named : Option Text) : ShowCatalogTarget :=
  match named.or session.defaultCatalog with
  | none => .session
  | some catalog =>
    if catalog = engine.configDefault then .session
    else if catalog = engine.defaultWarehouse then .session
    else .named catalog

def showCatalog (catalog : Option Text) : Option W :=
  match showCatalogTarget engine session catalog with
  | .session => engine.primary
  | .named name =>
    match (configuredSessionCatalog engine name).or (engine.discovered name) with
    | some warehouse => some warehouse
    -- the session's own default keeps the session catalog
    | none => if session.defaultCatalog = some name then engine.primary else none

def explicitCatalogComponent (table : Text) : Option Text :=
  match pieces '.' table with
  | [catalog, _, _] => some catalog
  | _ => none

def resolveReferenceCatalog (table : Text) : Option W :=
  let explicit := explicitCatalogComponent table
  if explicit.isNone && session.defaultCatalog.isNone then engine.primary
  else showCatalog engine session explicit

def splitTarget (table : Text) : Option (Text × Text) :=
  match pieces '.' table with
  | [bareTable] => some ("default".toList, bareTable)
  | [schema, bareTable] => some (schema, bareTable)
  | [_, schema, bareTable] => some (schema, bareTable)
  | _ => none

/-- The clauses of `apply_version_spec`, `process_time_travel_table_factor` and
`apply_incremental_spec`. -/
inductive Clause
  | version
  | systemTime
  | incremental
deriving DecidableEq

variable (clause : Clause) (name : ObjectName)

/-- The table a clause loads, and the name its alias is built from. -/
def loadTarget : Option (TableId W × Text) :=
  match clause with
  | .version | .systemTime => do
    let warehouse ← resolveReferenceCatalog engine session name.text
    let (schema, bareTable) ← splitTarget name.text
    if engine.tables warehouse schema bareTable then
      some (⟨.iceberg warehouse, schema, bareTable⟩, bareTable)
    else none
  | .incremental => do
    let planned ← resolve engine session name.reference
    match planned.source with
    | .iceberg warehouse =>
      if engine.tables warehouse planned.schema planned.table then
        some (planned, name.reference.table)
      else none
    | .attached _ => none

def isIdentChar (c : Char) : Bool :=
  isWordChar c || c == '@' || c == '$' || c == '#' || (decide (128 ≤ c.toNat) && engine.letter c)

/-- The alias is registered only if it reads as one identifier. -/
def pinnedTarget : Option (TableId W × Text) :=
  (loadTarget engine session clause name).filter fun target => target.2.all (isIdentChar engine)

/-- A generated suffix, in lower case. -/
structure Uuid where
  text : Text
  lowered : lower text = text

def Clause.marker : Clause → Text
  | .version => "__sqe_ver_".toList
  | .systemTime => "__sqe_tt_".toList
  | .incremental => "__sqe_incr_".toList

def pinnedAlias (clause : Clause) (bareTable : Text) (uuid : Uuid) : Text :=
  clause.marker ++ (bareTable ++ '_' :: uuid.text)

def inMemory (table : Text) : TableReference :=
  .full "datafusion".toList "public".toList table

def restoreIdentities (identities : List (Text × TableReference)) (scan : TableReference) :
    TableReference :=
  (identities.lookup scan.display).getD scan

/-- The reference of the pinned scan that the policy rewriter sees. Registering and planning both
fold the alias; the recorded identity is keyed by the alias as it was made. -/
def pinnedReference (bareTable : Text) (uuid : Uuid) : TableReference :=
  let made := pinnedAlias clause bareTable uuid
  restoreIdentities [((inMemory made).display, name.reference)] (inMemory (lower made))

def qualify : TableReference :=
  let catalog := some (ctxCatalog engine session) |>.filter fun catalog =>
    !isReservedCatalog catalog
  match reference, catalog with
  | .bare table, some catalog => .full catalog (ctxSchema session) table
  | .bare table, none => .inSchema (ctxSchema session) table
  | .inSchema schema table, some catalog => .full catalog schema table
  | .inSchema schema table, none => .inSchema schema table
  | .full catalog schema table, _ => .full catalog schema table

def isReservedVirtualRef : Bool :=
  reference.catalog.any isReservedCatalog || reference.schema.any fun schema =>
    eqIgnoreAsciiCase ((pieces '.' schema).getLast?.getD schema) "information_schema".toList

def resolvePolicyKeyScoped : Option (Text × Text) :=
  let table := reference.table
  if table.isEmpty then none
  else
    let schema := (reference.schema.filter fun schema => !schema.isEmpty).getD "default".toList
    if reference.catalog.any engine.hiveCatalogs then
      some (reference.catalog.getD [] ++ '.' :: schema, table)
    else if engine.catalogScoped then
      match reference.catalog.filter fun catalog => !catalog.isEmpty with
      | some catalog => some (catalog ++ '.' :: schema, table)
      | none =>
        if isReservedVirtualRef reference then some (schema, table)
        else if reference.catalog.isNone && (pieces '.' schema).head?.any engine.hiveCatalogs then
          some (schema, table)
        else none
    else some (schema, table)

def policyKey : Option (Text × Text) :=
  resolvePolicyKeyScoped engine (qualify engine session reference)

/-- A pinned read that loads a table reads the one the name denotes, under its policy key. -/
def Governed (uuid : Uuid) : Prop :=
  ∀ table bareTable, pinnedTarget engine session clause name = some (table, bareTable) →
    plainTable engine session name = some table ∧
      policyKey engine session (pinnedReference clause name bareTable uuid) =
        policyKey engine session (plainReference engine session name)

end Resolve

variable {part : Part}

private theorem Part.dot_notMem (unquoted : part.quoted = false) : '.' ∉ part.value := by
  intro dot
  have word := List.all_eq_true.mp (part.word unquoted).2 '.' dot
  exact absurd word (by decide)

private theorem Part.pieces_spell (unquoted : part.quoted = false) :
    pieces '.' part.spell = [part.value] := by
  rw [Part.spell, unquoted, if_neg Bool.false_ne_true]
  exact pieces_flat (part.dot_notMem unquoted)

private theorem Part.quote_mem_last {last : Text} (quoted : part.quoted = true)
    (found : (pieces '.' part.spell).getLast? = some last) : '"' ∈ last := by
  rw [Part.spell, quoted, if_pos rfl] at found
  obtain ⟨front, ends⟩ := getLast?_pieces (by decide : '"' ≠ '.') ('"' :: part.value)
  rw [ends, some.injEq] at found
  rw [← found]
  exact mem_append_right _ mem_cons_self

private theorem splitTarget_of_pieces {table schema bareTable : Text}
    (split : splitTarget table = some (schema, bareTable)) :
    (pieces '.' table).getLast? = some bareTable ∧
      (pieces '.' table = [bareTable] ∧ schema = "default".toList ∨
        (pieces '.' table).dropLast.getLast? = some schema) := by
  revert split
  fun_cases splitTarget table <;> rintro ⟨⟩
  case case1 only => rw [only]; exact ⟨rfl, Or.inl ⟨rfl, rfl⟩⟩
  all_goals next more => rw [more]; exact ⟨rfl, Or.inr rfl⟩

/-- The pieces of a name before those of its table. -/
def ObjectName.front : ObjectName → List Text
  | .bare _ => []
  | .inSchema schema _ => pieces '.' schema.spell
  | .full catalog schema _ => pieces '.' catalog.spell ++ pieces '.' schema.spell

private theorem ObjectName.pieces_text (name : ObjectName) :
    pieces '.' name.text = name.front ++ pieces '.' name.table.spell := by
  cases name with
  | bare table => rfl
  | inSchema schema table => exact pieces_append_mark _ _
  | full catalog schema table =>
    simp only [ObjectName.text, ObjectName.front, ObjectName.table, pieces_append_mark,
      append_assoc]

private theorem ObjectName.getLast?_front {name : ObjectName} {schema : Part}
    (has : name.schema? = some schema) :
    name.front.getLast? = (pieces '.' schema.spell).getLast? := by
  cases name with
  | bare table => cases has
  | inSchema schema table => cases has; rfl
  | full catalog schema table =>
    cases has
    exact getLast?_append_of_ne_nil _ (pieces_ne_nil _)

section Governed

variable {W : Type} {engine : Engine W} {session : Session}

variable {bareTable : Text} {table : TableId W} {clause : Clause} {uuid : Uuid}
  {name : ObjectName}

private theorem splitTarget_text {schema : Text}
    (split : splitTarget name.text = some (schema, bareTable))
    (ident : bareTable.all (isIdentChar engine) = true) :
    name.table.quoted = false ∧ bareTable = name.table.value ∧
      (name.schema? = none → schema = "default".toList) ∧
      ∀ part, name.schema? = some part → (pieces '.' part.spell).getLast? = some schema := by
  obtain ⟨last, rest⟩ := splitTarget_of_pieces split
  rw [name.pieces_text] at last rest
  rw [getLast?_append_of_ne_nil _ (pieces_ne_nil _)] at last
  have unquoted : name.table.quoted = false := by
    refine Bool.eq_false_iff.mpr fun quoted => ?_
    have quote := all_eq_true.mp ident _ (Part.quote_mem_last quoted last)
    cases quote
  rw [Part.pieces_spell unquoted] at last rest
  have bare : bareTable = name.table.value := by simpa using last.symm
  refine ⟨unquoted, bare, ?_, ?_⟩
  · intro none
    cases name with
    | bare table =>
      rcases rest with ⟨-, default⟩ | inner
      · exact default
      · cases inner
    | inSchema | full => cases none
  · intro part has
    rw [← ObjectName.getLast?_front has]
    rcases rest with ⟨only, -⟩ | inner
    · have empty : name.front = [] := by simpa using congrArg List.length only
      have some_last := ObjectName.getLast?_front has
      rw [empty] at some_last
      exact absurd (getLast?_eq_none_iff.mp some_last.symm) (pieces_ne_nil _)
    · rw [dropLast_concat] at inner
      exact inner

@[simp] theorem lower_append (a b : Text) : lower (a ++ b) = lower a ++ lower b := map_append

@[simp] theorem length_lower (text : Text) : (lower text).length = text.length := length_map _

private theorem lower_pinnedAlias (clause : Clause) (bareTable : Text) (uuid : Uuid) :
    lower (pinnedAlias clause bareTable uuid) =
      clause.marker ++ (lower bareTable ++ '_' :: uuid.text) := by
  have marked : lower clause.marker = clause.marker := by cases clause <;> decide
  have suffix : lower ('_' :: uuid.text) = '_' :: uuid.text := congrArg _ uuid.lowered
  rw [pinnedAlias, lower_append, lower_append, marked, suffix]

private theorem pinnedReference_eq (clause : Clause) (name : ObjectName) (bareTable : Text)
    (uuid : Uuid) :
    pinnedReference clause name bareTable uuid = if lower bareTable = bareTable then name.reference
      else inMemory (lower (pinnedAlias clause bareTable uuid)) := by
  have same : (inMemory (lower (pinnedAlias clause bareTable uuid))).display =
      (inMemory (pinnedAlias clause bareTable uuid)).display ↔ lower bareTable = bareTable := by
    rw [lower_pinnedAlias, pinnedAlias]
    simp [inMemory, TableReference.display]
  rw [pinnedReference, restoreIdentities, lookup_cons, lookup_nil]
  by_cases lowered : lower bareTable = bareTable
  · rw [if_pos lowered, beq_iff_eq.mpr (same.mpr lowered)]
    rfl
  · rw [if_neg lowered, beq_eq_false_iff_ne.mpr (mt same.mp lowered)]
    rfl

private theorem Engine.exists_of_named {catalog : Text}
    (known : (engine.named catalog).isSome = true) :
    ∃ config ∈ engine.flattened, config.name = catalog := by
  obtain ⟨config, found⟩ := isSome_iff_exists.mp known
  exact ⟨config, mem_of_find?_eq_some found, by simpa using find?_some found⟩

private theorem proper_of_registered {catalog : Text} {source : Source W}
    (known : registered engine catalog = some source) :
    catalog ≠ [] ∧ isReservedCatalog catalog = false := by
  refine engine.proper catalog (.inr ?_)
  revert known
  fun_cases registered engine catalog with
  | case1 config found => exact fun _ => .inl (engine.exists_of_named (by rw [found]; rfl))
  | case2 _ attached => exact fun _ => .inr (.inl attached)
  | case3 =>
    intro known
    obtain ⟨warehouse, found, -⟩ := map_eq_some_iff.mp known
    exact .inr (.inr (by rw [found]; rfl))

private theorem ctxCatalog_proper (engine : Engine W) (session : Session) :
    isReservedCatalog (ctxCatalog engine session) = false := by
  refine (engine.proper _ ?_).2
  fun_cases ctxCatalog engine session with
  | case1 catalog _ known =>
    rw [Bool.or_eq_true, Bool.or_eq_true] at known
    exact .inr ((or_assoc.mp known).imp_left engine.exists_of_named)
  | case2 | case3 => exact .inl rfl

private theorem qualify_eq (reference : TableReference) :
    qualify engine session reference = .full (catalogOf engine session reference)
      (reference.schema.getD (ctxSchema session)) reference.table := by
  have kept : (some (ctxCatalog engine session)).filter (fun catalog =>
      !isReservedCatalog catalog) = some (ctxCatalog engine session) :=
    filter_some_pos (by rw [ctxCatalog_proper]; rfl)
  cases reference <;> simp only [qualify, kept] <;> rfl

def keyNamespace (engine : Engine W) (catalog schema : Text) : Text :=
  let namespaced := if schema.isEmpty then "default".toList else schema
  if engine.hiveCatalogs catalog || engine.catalogScoped then catalog ++ '.' :: namespaced
  else namespaced

private theorem policyKey_eq {reference : TableReference}
    (catalog : catalogOf engine session reference ≠ []) (table : reference.table ≠ []) :
    policyKey engine session reference =
      some (keyNamespace engine (catalogOf engine session reference)
        (reference.schema.getD (ctxSchema session)), reference.table) := by
  rw [policyKey, qualify_eq, resolvePolicyKeyScoped, keyNamespace]
  generalize catalogOf engine session reference = c at *
  generalize reference.schema.getD (ctxSchema session) = ns
  generalize reference.table = t at *
  cases hive : engine.hiveCatalogs c <;> cases keyed : engine.catalogScoped <;>
    cases ns <;>
    simp [TableReference.table, TableReference.schema, TableReference.catalog, hive,
      catalog, table, Option.filter]

private theorem keyNamespace_inj {catalog schema other : Text} (named : schema ≠ [])
    (named' : other ≠ [])
    (same : keyNamespace engine catalog schema = keyNamespace engine catalog other) :
    schema = other := by
  simp only [keyNamespace, List.isEmpty_iff, named, named', if_false] at same
  split at same
  next => simpa using same
  next => exact same

section Names

variable (engine : Engine W) (session : Session) (name : ObjectName)

private theorem catalogOf_plainReference :
    catalogOf engine session (plainReference engine session name) =
      catalogOf engine session name.reference := by
  cases name <;> rfl

private theorem plainReference_table :
    (plainReference engine session name).table =
      folded (foldsUpper engine session name) name.table := by
  cases name <;> rfl

private theorem plainReference_schema :
    (plainReference engine session name).schema =
      name.schema?.map (folded (foldsUpper engine session name)) := by
  cases name <;> rfl

private theorem reference_table : name.reference.table = name.table.normalized := by
  cases name <;> rfl

private theorem reference_schema : name.reference.schema = name.schema?.map Part.normalized := by
  cases name <;> rfl

/-- When the name a clause is written after means the same to the loader, the planner and the
policies. -/
structure Settled (clause : Clause) : Prop where
  folds : ∀ part ∈ name.table :: name.schema?.toList,
    folded (foldsUpper engine session name) part = part.normalized
  lowered : lower name.table.normalized = name.table.normalized
  /-- The text is taken as it is written, quotes and case included. -/
  written : clause ≠ .incremental →
    ∀ part ∈ name.table :: name.schema?.toList, part.spell = part.normalized
  /-- A bare table is looked for in `default`. -/
  schema : clause ≠ .incremental → name.schema? = none → ctxSchema session = "default".toList
  catalog : clause ≠ .incremental → ∀ warehouse,
    resolveReferenceCatalog engine session name.text = some warehouse →
      registered engine (catalogOf engine session name.reference) = some (.iceberg warehouse)

end Names

private theorem forall_parts {P : Part → Prop} :
    (∀ part ∈ name.table :: name.schema?.toList, P part) ↔
    P name.table ∧ ∀ part, name.schema? = some part → P part := by
  simp

private theorem plainReference_of_folds (folds : ∀ part ∈ name.table :: name.schema?.toList,
      folded (foldsUpper engine session name) part = part.normalized) :
    plainReference engine session name = name.reference := by
  obtain ⟨here, there⟩ := forall_parts.mp folds
  cases name with
  | bare table => exact congrArg TableReference.bare here
  | inSchema schema table | full _ schema table =>
    simp only [plainReference, ObjectName.reference, there schema rfl]
    exact congrArg _ here

private theorem Part.spell_eq_normalized {part : Part} :
    part.spell = part.normalized ↔ part.quoted = false ∧ lower part.value = part.value := by
  rw [Part.spell, Part.normalized]
  cases part.quoted with
  | false => exact ⟨fun same => ⟨rfl, same.symm⟩, fun same => same.2.symm⟩
  | true =>
    refine ⟨fun same => ?_, fun same => nomatch same.1⟩
    have size := congrArg List.length same
    simp only [if_true, length_cons, length_append, length_nil] at size
    omega

private theorem pinnedTarget_version (pinned : clause ≠ .incremental)
    (target : pinnedTarget engine session clause name = some (table, bareTable)) :
    ∃ warehouse schema, resolveReferenceCatalog engine session name.text = some warehouse ∧
      splitTarget name.text = some (schema, bareTable) ∧ bareTable.all (isIdentChar engine) = true ∧
      table = ⟨.iceberg warehouse, schema, bareTable⟩ := by
  obtain ⟨loaded, ident⟩ := filter_eq_some_iff.mp target
  cases clause with
  | incremental => exact absurd rfl pinned
  | version | systemTime =>
    obtain ⟨warehouse, found, loaded⟩ := bind_eq_some_iff.mp loaded
    obtain ⟨⟨schema, bare⟩, split, loaded⟩ := bind_eq_some_iff.mp loaded
    simp only [ite_none_right_eq_some, some.injEq, Prod.mk.injEq] at loaded
    obtain ⟨-, rfl, rfl⟩ := loaded
    exact ⟨warehouse, schema, found, split, ident, rfl⟩

private theorem pinnedTarget_incremental
    (target : pinnedTarget engine session .incremental name = some (table, bareTable)) :
    resolve engine session name.reference = some table ∧ bareTable = name.table.normalized := by
  obtain ⟨loaded, -⟩ := filter_eq_some_iff.mp target
  obtain ⟨planned, found, loaded⟩ := bind_eq_some_iff.mp loaded
  rw [← reference_table]
  split at loaded
  next =>
    simp only [ite_none_right_eq_some, some.injEq, Prod.mk.injEq] at loaded
    obtain ⟨-, rfl, rfl⟩ := loaded
    exact ⟨found, rfl⟩
  next => cases loaded

private theorem plainTable_eq_some (plain : plainTable engine session name = some table) :
    registered engine (catalogOf engine session name.reference) = some table.source ∧
      (name.schema?.map (folded (foldsUpper engine session name))).getD (ctxSchema session) =
        table.schema ∧ folded (foldsUpper engine session name) name.table = table.table := by
  obtain ⟨source, known, rfl⟩ := map_eq_some_iff.mp plain
  rw [catalogOf_plainReference] at known
  exact ⟨known, by rw [plainReference_schema], by rw [plainReference_table]⟩

private theorem lowered_of_policyKey {plain : TableReference}
    (catalog : catalogOf engine session plain ≠ [])
    (sized : plain.table.length = bareTable.length)
    (keys : policyKey engine session (pinnedReference clause name bareTable uuid) =
      policyKey engine session plain) : lower bareTable = bareTable := by
  by_contra raised
  have nonempty : plain.table ≠ [] := by
    intro empty
    rw [empty, length_nil, eq_comm, length_eq_zero_iff] at sized
    exact raised (by rw [sized]; rfl)
  have named : (inMemory (lower (pinnedAlias clause bareTable uuid))).table ≠ [] := by
    simp [inMemory, TableReference.table, lower_pinnedAlias]
  have inCatalog : catalogOf engine session
      (inMemory (lower (pinnedAlias clause bareTable uuid))) ≠ [] := cons_ne_nil _ _
  rw [pinnedReference_eq, if_neg raised, policyKey_eq inCatalog named,
    policyKey_eq catalog nonempty, some.injEq, Prod.mk.injEq] at keys
  have longer := congrArg List.length keys.2
  rw [sized, inMemory, TableReference.table, lower_pinnedAlias, length_append,
    length_append, length_lower, length_cons] at longer
  omega

private theorem length_folded (upperCase : Bool) (part : Part) :
    (folded upperCase part).length = part.value.length := by
  unfold folded lower upper
  split
  · rfl
  · split <;> exact length_map _

private theorem normalized_of_policyKey {part : Part} (located : name.schema? = some part)
    (unquoted : part.quoted = false) (catalog : catalogOf engine session name.reference ≠ [])
    (named : name.reference.table ≠ []) (planned : (plainReference engine session name).table ≠ [])
    (keys : policyKey engine session name.reference =
      policyKey engine session (plainReference engine session name)) :
    part.normalized = folded (foldsUpper engine session name) part := by
  have word : 0 < part.value.length := length_pos_iff.mpr (part.word unquoted).1
  have normal : part.normalized ≠ [] := by
    rwa [← length_pos_iff, show part.normalized = folded false part from rfl, length_folded]
  have fold : folded (foldsUpper engine session name) part ≠ [] := by
    rwa [← length_pos_iff, length_folded]
  rw [policyKey_eq catalog named, policyKey_eq (by rwa [catalogOf_plainReference]) planned,
    catalogOf_plainReference, reference_schema, plainReference_schema, located, some.injEq,
    Prod.mk.injEq] at keys
  exact keyNamespace_inj normal fold keys.1

private theorem Settled.governed (settled : Settled engine session name clause) (uuid : Uuid) :
    Governed engine session clause name uuid := by
  intro table bareTable target
  have plain := plainReference_of_folds settled.folds
  suffices known : plainTable engine session name = some table ∧ lower bareTable = bareTable by
    refine ⟨known.1, ?_⟩
    rw [pinnedReference_eq, if_pos known.2, plain]
  rw [plainTable, plain]
  by_cases pinned : clause = .incremental
  · subst pinned
    obtain ⟨found, rfl⟩ := pinnedTarget_incremental target
    exact ⟨found, settled.lowered⟩
  · obtain ⟨warehouse, schema, found, split, ident, rfl⟩ := pinnedTarget_version pinned target
    obtain ⟨-, rfl, bare, qualified⟩ := splitTarget_text split ident
    have written := settled.written pinned
    simp only [Part.spell_eq_normalized] at written
    obtain ⟨here, there⟩ := forall_parts.mp written
    refine ⟨?_, here.2⟩
    rw [resolve, settled.catalog pinned warehouse found, map_some, reference_table,
      reference_schema, Part.normalized, here.1, if_neg Bool.false_ne_true, here.2]
    cases located : name.schema? with
    | none => rw [bare located, ← settled.schema pinned located]; rfl
    | some part =>
      have there := there part located
      have last := qualified part located
      rw [Part.pieces_spell there.1, getLast?_singleton, some.injEq] at last
      subst last
      rw [map_some, getD_some, Part.normalized, there.1, if_neg Bool.false_ne_true, there.2]

private theorem settled_incremental (governed : Governed engine session .incremental name uuid)
    (target : pinnedTarget engine session .incremental name = some (table, bareTable)) :
    Settled engine session name .incremental := by
  obtain ⟨plain, keys⟩ := governed table bareTable target
  obtain ⟨found, rfl⟩ := pinnedTarget_incremental target
  obtain ⟨known, schemas, tables⟩ := plainTable_eq_some plain
  obtain ⟨source, -, rfl⟩ := map_eq_some_iff.mp found
  dsimp only at schemas tables
  rw [reference_table] at tables
  rw [reference_schema] at schemas
  refine ⟨forall_parts.mpr ⟨tables, fun part located => ?_⟩, ?_, fun other => absurd rfl other,
    fun other => absurd rfl other, fun other => absurd rfl other⟩
  · rw [located] at schemas
    exact schemas
  · refine lowered_of_policyKey ?_ (by rw [plainReference_table, tables]) keys
    rw [catalogOf_plainReference]
    exact (proper_of_registered known).1

private theorem settled_version (pinned : clause ≠ .incremental)
    (governed : Governed engine session clause name uuid)
    (target : pinnedTarget engine session clause name = some (table, bareTable)) :
    Settled engine session name clause := by
  obtain ⟨plain, keys⟩ := governed table bareTable target
  obtain ⟨warehouse, schema, found, split, ident, rfl⟩ := pinnedTarget_version pinned target
  obtain ⟨unquoted, rfl, bare, qualified⟩ := splitTarget_text split ident
  obtain ⟨known, schemas, tables⟩ := plainTable_eq_some plain
  dsimp only at known schemas tables
  have proper := (proper_of_registered known).1
  have lowered : lower name.table.value = name.table.value :=
    lowered_of_policyKey (by rwa [catalogOf_plainReference])
      (by rw [plainReference_table, length_folded]) keys
  have normal : name.table.normalized = name.table.value := by
    rw [Part.normalized, unquoted, if_neg Bool.false_ne_true, lowered]
  -- the two policy keys differ in the schema unless it is written in lower case
  have schemaSettled : ∀ part, name.schema? = some part →
      folded (foldsUpper engine session name) part = part.normalized ∧
        part.spell = part.normalized := by
    intro part located
    rw [located, map_some, getD_some] at schemas
    have last := qualified part located
    have plainPart : part.quoted = false := by
      refine Bool.eq_false_iff.mpr fun quoted => part.unbroken ?_
      have quote := Part.quote_mem_last quoted last
      rwa [← schemas, folded, quoted, if_pos rfl] at quote
    rw [Part.pieces_spell plainPart, getLast?_singleton, some.injEq] at last
    subst last
    have nonempty := (name.table.word unquoted).1
    rw [pinnedReference_eq, if_pos lowered] at keys
    have same := normalized_of_policyKey located plainPart proper (by rwa [reference_table, normal])
      (by rwa [plainReference_table, tables]) keys
    refine ⟨same.symm, ?_⟩
    rw [same, schemas, Part.spell, plainPart, if_neg Bool.false_ne_true]
  refine ⟨forall_parts.mpr ⟨by rw [tables, normal], fun part located =>
      (schemaSettled part located).1⟩, by rw [normal, lowered],
    fun _ => forall_parts.mpr ⟨Part.spell_eq_normalized.mpr ⟨unquoted, lowered⟩, fun part located =>
      (schemaSettled part located).2⟩, fun _ none => ?_, fun _ other resolved => ?_⟩
  · rw [none] at schemas
    rw [← bare none, ← schemas]
    rfl
  · rw [found] at resolved
    cases resolved
    exact known

end Governed

/-- The catalogs `glue` and `lake`, with tables in three schemas; the default is `lake`. -/
def glueAndLake : Engine Bool where
  flattened := [⟨"glue".toList, "glue".toList, false⟩, ⟨"lake".toList, "lake".toList, true⟩]
  configDefault := "lake".toList
  legacyWarehouse := "lake".toList
  attached := fun _ => false
  discovered := fun _ => none
  hiveCatalogs := fun _ => false
  upperCase := fun _ => false
  catalogScoped := false
  tables := fun _ schema _ => ["default".toList, "sales".toList, "hr".toList].contains schema
  letter := fun _ => false
  proper := by
    rintro catalog (rfl | ⟨config, listed, rfl⟩ | attached | found)
    · decide
    · fin_cases listed <;> decide
    · cases attached
    · cases found
  noInformationSchema := by
    intro _ schema _ listed
    have listed := contains_iff_mem.mp listed
    fin_cases listed <;> decide

def unquoted (value : Text) (word : value ≠ [] ∧ value.all isWordChar = true)
    (unbroken : '"' ∉ value) : Part :=
  ⟨value, false, unbroken, fun _ => word⟩

def orders : ObjectName := .bare (unquoted "orders".toList (by decide) (by decide))

def people : ObjectName :=
  .inSchema (unquoted "hr".toList (by decide) (by decide))
    (unquoted "People".toList (by decide) (by decide))

def salesOrders : ObjectName :=
  .inSchema (unquoted "sales".toList (by decide) (by decide))
    (unquoted "orders".toList (by decide) (by decide))

/-- A session in `sales` of the catalog `glue`, and one that names no catalog. -/
def inGlue : Session := ⟨some "glue".toList, some "sales".toList⟩

def inSales : Session := ⟨none, some "sales".toList⟩

def suffix : Uuid := ⟨"0".toList, by decide⟩

end Sqe.Coordinator.PinnedReads
