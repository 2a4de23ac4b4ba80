/- GID: Sqe/Write/AlterCommit
   generality: I
   digest: Metadata statements of many coordinators: load, compute and commit in separate steps. -/

import Sqe.Write.ColumnTags

/-!
The catalog applies a commit when its requirements hold, and answers 409 or 5xx as it likes. A
load may come from a cache: it shows any version the table has had. The Ranger projection of
column tags is left out.
-/

set_option autoImplicit false

namespace Sqe.Write.AlterCommit

open Function (update)
open AlterSchema
open ColumnTags (TagMap ColumnTagOp applyTagOp rewriteTagKey rewriteTagKeys)

variable {V : Type}

structure Schema (V : Type) where
  fields : List (NestedField V)
  identifierFieldIds : List Nat

inductive Transform
  | known (name : String)
  | unknown
  deriving DecidableEq

structure PartitionField where
  sourceId : Nat
  fieldId : Int
  name : String
  transform : Transform
  deriving DecidableEq

/-- A schema's id is its place among the schemas. -/
structure Metadata (V : Type) where
  schemas : List (Schema V)
  currentSchemaId : Nat
  lastColumnId : Nat
  specs : List (List PartitionField)
  defaultSpec : List PartitionField
  lastPartitionId : Int
  columnTags : TagMap

variable (m : Metadata V)

def Metadata.currentSchema : Option (Schema V) := m.schemas[m.currentSchemaId]?

inductive TableRequirement
  | lastAssignedFieldIdMatch (id : Nat)
  | currentSchemaIdMatch (id : Nat)
  deriving DecidableEq

inductive TableUpdate (V : Type)
  | addSchema (schema : Schema V)
  /-- Without an id, the schema that the commit added. -/
  | setCurrentSchema (id : Option Nat)
  | addSpec (fields : List PartitionField)
  | setProperties (columnTags : TagMap)

structure Commit (V : Type) where
  updates : List (TableUpdate V)
  requirements : List TableRequirement

def TableRequirement.holds : TableRequirement → Bool
  | .lastAssignedFieldIdMatch id => m.lastColumnId == id
  | .currentSchemaIdMatch id => m.currentSchemaId == id

def Commit.holds (c : Commit V) (m : Metadata V) : Bool :=
  c.requirements.all fun r => r.holds m

/-- Code that the statements and the catalog call: whether a schema is valid, whether two are
structurally equal, and the field that a dotted name stands for. -/
structure Backend (V : Type) where
  builds : Schema V → Bool
  same : Schema V → Schema V → Bool
  fieldByName : List (NestedField V) → String → Option Nat

section Statements

variable (backend : Backend V)

/-- The table, and the id of the schema added last. An equal schema is not added again. -/
def applyUpdate (state : Metadata V × Option Nat) : TableUpdate V → Metadata V × Option Nat
  | .addSchema schema =>
    match state.1.schemas.findIdx? fun s => backend.same s schema with
    | some id => (state.1, some id)
    | none =>
      ({ state.1 with
          schemas := state.1.schemas ++ [schema]
          lastColumnId := max state.1.lastColumnId (highestFieldId schema.fields) },
        some state.1.schemas.length)
  | .setCurrentSchema id =>
    match id.or state.2 with
    | some id => ({ state.1 with currentSchemaId := id }, state.2)
    | none => state
  | .addSpec fields =>
    ({ state.1 with
        specs := state.1.specs ++ [fields]
        defaultSpec := fields
        lastPartitionId := fields.foldr (fun f id => max f.fieldId id) state.1.lastPartitionId },
      state.2)
  | .setProperties tags => ({ state.1 with columnTags := tags }, state.2)

def applyCommit (c : Commit V) (m : Metadata V) : Metadata V :=
  (c.updates.foldl (applyUpdate backend) (m, none)).1

/-- A parsed transform: the source column, the name of the partition field and the transform. -/
structure TransformSql where
  source : String
  target : String
  transform : Transform
  deriving DecidableEq

inductive PartitionEvolution
  | addField (new : TransformSql)
  | dropField (old : TransformSql)
  | replaceField (old new : TransformSql)
  deriving DecidableEq

inductive Statement (V : Type)
  | alterTableSchema (ops : List (AlterOp V))
  | dropNestedColumn (top : String) (rest : List String) (ifExists : Bool)
  | applyPartitionEvolution (evolution : PartitionEvolution)
  | applyIdentifierFields (set : Bool) (columns : List String)
  | setColumnTags (ops : List ColumnTagOp)

inductive Plan (V : Type)
  | fail
  | nothing
  | commit (c : Commit V)

/-- The tag map and whether a change met a name with tags. -/
def noteTagKey (state : TagMap × Bool) (change : TagKeyChange) : TagMap × Bool :=
  (rewriteTagKey state.1 change, state.2 || match change with
    | .rename old new => old != new && !(state.1 old).isEmpty
    | .drop column => !(state.1 column).isEmpty)

def changedTagKeys (current : TagMap) (changes : List TagKeyChange) : Option TagMap :=
  let result := changes.foldl noteTagKey (current, false)
  if result.2 then some result.1 else none

def schemaRequirements : List TableRequirement :=
  [.lastAssignedFieldIdMatch m.lastColumnId, .currentSchemaIdMatch m.currentSchemaId]

/-- What the schema builder accepts with the identifier fields of the current schema. -/
def buildsLike (schema : Schema V) (fields : List (NestedField V)) : Bool :=
  backend.builds ⟨fields, schema.identifierFieldIds⟩

variable (m : Metadata V) (schema : Schema V)

def planAlter (ops : List (AlterOp V)) : Plan V :=
  match alterTableSchema (buildsLike backend schema) schema.fields m.lastColumnId ops with
  | none => .fail
  | some w =>
    .commit {
      updates := [.addSchema ⟨w.fields, schema.identifierFieldIds⟩, .setCurrentSchema none] ++
        (changedTagKeys m.columnTags w.tagKeyChanges).toList.map .setProperties
      requirements := schemaRequirements m }

def planDropNested (top : String) (rest : List String) (ifExists : Bool) : Plan V :=
  match dropNestedColumn (buildsLike backend schema) schema.fields top rest ifExists with
  | none => .fail
  | some none => .nothing
  | some (some fields) =>
    .commit {
      updates := [.addSchema ⟨fields, schema.identifierFieldIds⟩, .setCurrentSchema none]
      requirements := schemaRequirements m }

/-- The partition field that a transform asks for, with its id. -/
def resolveTransform (fields : List (NestedField V)) (id : Int) (new : TransformSql) :
    Option PartitionField :=
  (fields.find? fun f => f.name == new.source).map fun f => ⟨f.id, id, new.target, new.transform⟩

def nextFieldId (lastPartitionId : Int) : Int :=
  if lastPartitionId + 1 ≤ 0 then 1000 else lastPartitionId + 1

def evolvedFields : PartitionEvolution → Option (List PartitionField)
  | .addField new =>
    (resolveTransform schema.fields (nextFieldId m.lastPartitionId) new).bind fun field =>
      if m.defaultSpec.any fun f => f.name == field.name then none
      else some (m.defaultSpec ++ [field])
  | .dropField old =>
    if m.defaultSpec.any fun f => f.name == old.target then
      some (m.defaultSpec.eraseP fun f => f.name == old.target)
    else none
  | .replaceField old new =>
    if m.defaultSpec.any fun f => f.name == old.target then
      (resolveTransform schema.fields (nextFieldId m.lastPartitionId) new).bind fun field =>
        if old.target = field.name then none
        else
          let others := m.defaultSpec.eraseP fun f => f.name == old.target
          if others.any fun f => f.name == field.name then none else some (others ++ [field])
    else none

def planEvolution (evolution : PartitionEvolution) : Plan V :=
  match evolvedFields m schema evolution with
  | none => .fail
  | some fields =>
    if fields.any fun f => f.transform == .unknown then .fail
    else .commit { updates := [.addSpec fields], requirements := [] }

/-- The identifier fields that the statement asks for. -/
def newIdentifiers (schema : Schema V) (set : Bool) (columns : List String) : Option (List Nat) :=
  (columns.mapM (backend.fieldByName schema.fields)).bind fun listed =>
    if set then some listed.dedup
    else if listed.all schema.identifierFieldIds.contains then
      some (schema.identifierFieldIds.filter fun id => !listed.contains id)
    else none

/-- A schema the table has had is selected by its id. -/
def selectSchema : Plan V :=
  match m.schemas.findIdx? fun s => backend.same s schema with
  | some id =>
    if id = m.currentSchemaId then .nothing
    else .commit {
      updates := [.setCurrentSchema (some id)]
      requirements := schemaRequirements m }
  | none =>
    .commit {
      updates := [.addSchema schema, .setCurrentSchema none]
      requirements := schemaRequirements m }

def planIdentifiers (set : Bool) (columns : List String) : Plan V :=
  match newIdentifiers backend schema set columns with
  | none => .fail
  | some ids =>
    if backend.builds ⟨schema.fields, ids⟩ then selectSchema backend m ⟨schema.fields, ids⟩
    else .fail

def planTags (ops : List ColumnTagOp) : Plan V :=
  .commit { updates := [.setProperties (ops.foldl applyTagOp m.columnTags)], requirements := [] }

def plan (statement : Statement V) : Plan V :=
  match m.currentSchema with
  | none => .fail
  | some schema =>
    match statement with
    | .alterTableSchema ops => planAlter backend m schema ops
    | .dropNestedColumn top rest ifExists => planDropNested backend m schema top rest ifExists
    | .applyPartitionEvolution evolution => planEvolution m schema evolution
    | .applyIdentifierFields set columns => planIdentifiers backend m schema set columns
    | .setColumnTags ops => planTags m ops

/-- The statement with no other one between its load and its commit. -/
def runAlone (statement : Statement V) (m : Metadata V) : Option (Metadata V) :=
  match plan backend m statement with
  | .fail => none
  | .nothing => some m
  | .commit c => some (applyCommit backend c m)

end Statements

def schemaCommitAttempts : Nat := 4

/-- It asserts the current schema id and changes it. -/
def schemaCommitGuardsItself (c : Commit V) : Bool :=
  (c.requirements.any fun | .currentSchemaIdMatch _ => true | _ => false) &&
  c.updates.any fun
    | .setCurrentSchema _ => true
    | _ => false

inductive Reply
  | success
  /-- A 409 that is not a failed requirement. -/
  | conflict
  | requirementFailed
  | serverError (applied : Bool)
  deriving DecidableEq

def Reply.applies : Reply → Bool
  | .success => true
  | .serverError applied => applied
  | _ => false

/-- The error of an answer is sent again, unchanged. -/
def schemaCommitMayResend (guarded : Bool) : Reply → Bool
  | .conflict => true
  | .serverError _ => guarded
  | _ => false

inductive Phase (V : Type)
  | waiting
  /-- The commit computed from a loaded version, the sends of it so far, and whether one of them
  was applied, which the statement does not know. -/
  | sending (loaded : Metadata V) (c : Commit V) (attempt : Nat) (landed : Bool)
  | succeeded
  | failed

structure Job (V : Type) where
  statement : Statement V
  coordinator : Nat

structure State (Task V : Type) where
  table : Metadata V
  /-- Every version the table has had, the newest first. -/
  versions : List (Metadata V)
  phase : Task → Phase V
  /-- The task that holds the lock for column tags, on each coordinator. -/
  lock : Nat → Option Task

inductive Event (Task : Type)
  /-- A load that shows the version of that age. -/
  | load (t : Task) (age : Nat)
  | send (t : Task) (reply : Reply)

def Statement.locks : Statement V → Bool
  | .setColumnTags _ => true
  | _ => false

section Steps

variable {Task : Type} [DecidableEq Task] (backend : Backend V) (job : Task → Job V)
variable (s : State Task V)

/-- The task is over; it gives up the lock if it had it. -/
def State.finish (t : Task) (phase : Phase V) : State Task V :=
  { s with
    phase := update s.phase t phase
    lock := if (job t).statement.locks then update s.lock (job t).coordinator none
      else s.lock }

def loadStep (t : Task) (version : Metadata V) : State Task V :=
  match plan backend version (job t).statement with
  | .fail => { s with phase := update s.phase t .failed }
  | .nothing => { s with phase := update s.phase t .succeeded }
  | .commit c =>
    { s with
      phase := update s.phase t (.sending version c 1 false)
      lock := if (job t).statement.locks
        then update s.lock (job t).coordinator (some t) else s.lock }

def State.answer (c : Commit V) (reply : Reply) : State Task V :=
  if reply.applies then
    { s with
      table := applyCommit backend c s.table
      versions := applyCommit backend c s.table :: s.versions }
  else s

def sendStep (t : Task) (loaded : Metadata V) (c : Commit V) (attempt : Nat)
    (landed : Bool) (reply : Reply) : State Task V :=
  let answered := s.answer backend c reply
  if reply = .success then answered.finish job t .succeeded
  else if attempt < schemaCommitAttempts ∧
      schemaCommitMayResend (schemaCommitGuardsItself c) reply then
    { answered with
      phase := update s.phase t
        (.sending loaded c (attempt + 1) (landed || reply.applies)) }
  else answered.finish job t .failed

/-- A load shows a version the table has had; a statement on tags first takes the lock of its
coordinator. A commit is applied only when its requirements hold. -/
def step : Event Task → Option (State Task V)
  | .load t age =>
    match s.phase t, s.versions[age]? with
    | .waiting, some version =>
      if (job t).statement.locks && (s.lock (job t).coordinator).isSome then none
      else some (loadStep backend job s t version)
    | _, _ => none
  | .send t reply =>
    match s.phase t with
    | .sending loaded c attempt landed =>
      if reply.applies && !c.holds s.table then none
      else some (sendStep backend job s t loaded c attempt landed reply)
    | _ => none

end Steps

end Sqe.Write.AlterCommit
