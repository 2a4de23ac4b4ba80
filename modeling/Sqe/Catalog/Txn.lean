/- GID: Sqe/Catalog/Txn
   generality: G
   digest: Transactions on branches of their own, published by one catalog commit. -/

import Mathlib.Logic.Function.Basic
import Sqe.Library.Transition

/-!
Any number of transactions and of other writers against one catalog. A transaction's own statements
run one after another; between any two of its catalog calls the others may do anything. A commit
that the catalog applies found the metadata it was prepared on, so the load and the swap of a
branch commit are one step; those of a publish, whose checks lie between them, are kept apart.
-/

set_option autoImplicit false

namespace Sqe.Catalog.Txn

open Function (update)

abbrev SnapshotId := Nat

/-- What the transactions see of a table: where its metadata lies, `main`, and the branch
`sqe-txn-<id>` of every transaction. -/
structure TableMetadata (ι : Type) where
  location : Nat
  currentSnapshotId : Option SnapshotId
  branches : ι → Option SnapshotId

inductive ErrorKind
  | preconditionFailed
  | catalogCommitConflicts
  | featureUnsupported
  | unexpected
  deriving DecidableEq

structure IcebergError where
  kind : ErrorKind
  retryable : Bool
  deriving DecidableEq

/-- A table the transaction wrote, and `main` when it first did. -/
structure TxnTable (τ : Type) where
  ident : τ
  baseSnapshotId : Option SnapshotId
  deriving DecidableEq

/-- The prepared commit of a `PublishBranchAction`: it moves `main` to the head and removes the
branch, if the table's metadata is still the one it was prepared on. -/
structure TableCommit (τ : Type) where
  ident : τ
  against : Nat
  expectedMain : Option SnapshotId
  head : SnapshotId
  deriving DecidableEq

variable {τ ι : Type} [DecidableEq τ] [DecidableEq ι]

/-- `PublishBranchAction::commit`, run on a loaded table. -/
def publishBranchAction (t : ι) (table : TxnTable τ) (metadata : TableMetadata ι) :
    Except IcebergError (TableCommit τ) :=
  match metadata.branches t with
  | none => .error ⟨.preconditionFailed, false⟩
  | some head =>
    if metadata.currentSnapshotId ≠ table.baseSnapshotId then
      .error ⟨.preconditionFailed, false⟩
    else .ok ⟨table.ident, metadata.location, table.baseSnapshotId, head⟩

inductive Change (τ ι : Type)
  /-- Another writer commits a new snapshot to `main`. -/
  | append (table : τ)
  /-- A rollback sets `main` to a snapshot there is. -/
  | setCurrentSnapshot (table : τ) (id : SnapshotId)
  | touch (table : τ)
  | createBranch (t : ι) (table : τ) (base : SnapshotId)
  /-- The transaction commits a new snapshot to its branch. -/
  | write (t : ι) (table : τ)
  | dropBranch (t : ι) (table : τ)
  /-- The publish commit of the transaction's n-th COMMIT. -/
  | publish (t : ι) (call : Nat) (commits : List (TableCommit τ))

def TableMetadata.setMain (m : TableMetadata ι) (id : SnapshotId) : TableMetadata ι :=
  { m with location := m.location + 1, currentSnapshotId := some id }

def TableMetadata.setBranch (m : TableMetadata ι) (t : ι) (id : Option SnapshotId) :
    TableMetadata ι :=
  { m with location := m.location + 1, branches := update m.branches t id }

/-- The catalog after the commit; a new snapshot takes the given id. -/
def Change.apply (fresh : SnapshotId) (catalog : τ → TableMetadata ι) :
    Change τ ι → τ → TableMetadata ι
  | .append table => update catalog table ((catalog table).setMain fresh)
  | .setCurrentSnapshot table id => update catalog table ((catalog table).setMain id)
  | .touch table => update catalog table
      { catalog table with location := (catalog table).location + 1 }
  | .createBranch t table base => update catalog table ((catalog table).setBranch t (some base))
  | .write t table => update catalog table ((catalog table).setBranch t (some fresh))
  | .dropBranch t table => update catalog table ((catalog table).setBranch t none)
  | .publish t _ commits => fun table => match commits.find? fun c => c.ident = table with
      | none => catalog table
      | some c => ((catalog table).setMain c.head).setBranch t none

inductive SqeErrorCode
  | transactionConflict
  | notSupported
  | catalog
  deriving DecidableEq

inductive Ending
  | committed
  | failed (code : SqeErrorCode)
  | rolledBack
  deriving DecidableEq

inductive Point (τ : Type)
  | idle
  /-- In `target_branch`, about to create the branch at the `main` it loaded. -/
  | claim (table : τ) (base : SnapshotId)
  /-- In `publish_branch`, before the load of an attempt. -/
  | load (table : TxnTable τ) (attempt : Nat)
  /-- In `Transaction::do_commit`, before its reload. -/
  | refresh (table : TxnTable τ) (attempt : Nat)
  | post (table : TxnTable τ) (attempt : Nat) (commit : TableCommit τ)
  /-- In `publish_branches`, with the tables still to prepare and the commits prepared. -/
  | prepare (attempt : Nat) (rest : List (TxnTable τ)) (commits : List (TableCommit τ))
  | postAll (attempt : Nat) (commits : List (TableCommit τ))
  | discard (rest : List (TxnTable τ)) (ending : Ending)
  | ended (ending : Ending)
  deriving DecidableEq

/-- The transaction's scope and where it stands. `lost` tells that a branch commit took effect and
was answered with an error, `call` counts the COMMITs. -/
structure TxnScope (τ : Type) where
  tables : List (TxnTable τ)
  catalogBound : Bool
  lost : Bool
  call : Nat
  point : Point τ

def TxnScope.new : TxnScope τ := ⟨[], false, false, 0, .idle⟩

inductive Answer
  | ok
  /-- The commit took effect and the answer is an error. -/
  | lost (e : IcebergError)
  | refused (e : IcebergError)
  deriving DecidableEq

/-- What happens next to a transaction. `again` tells that the backoff of the commit allows one
more try. -/
inductive TxnEvent (τ : Type)
  /-- The first write to a table loads it. -/
  | claim (table : τ)
  | createBranch (answer : Answer) (again : Bool)
  | write (table : τ) (answer : Answer)
  | publish
  | load
  | loadFails (e : IcebergError) (again : Bool)
  | answer (answer : Answer) (again : Bool)
  /-- `discard` is through with a table; its branch is gone or is left behind. -/
  | drop (dropped : Bool)
  | rollback
  /-- COMMIT failed and left the transaction open. -/
  | reopen

def maxAttempts : Nat := 4

def discard (tables : List (TxnTable τ)) (ending : Ending) : Point τ :=
  match tables with
  | [] => .ended ending
  | table :: rest => .discard (table :: rest) ending

/-- The end of a failed `publish`: a conflict discards the branches. -/
def publishFails (tables : List (TxnTable τ)) (code : SqeErrorCode) : Point τ :=
  if code = .transactionConflict then discard tables (.failed code) else .ended (.failed code)

def isConflict (e : IcebergError) : Bool := e.kind == .catalogCommitConflicts || e.retryable

/-- `publish`, up to its first catalog call. -/
def publish (x : TxnScope τ) : Point τ :=
  if !x.catalogBound then .ended .committed
  else match x.tables with
    | [] => .ended .committed
    | [table] => .load table 1
    | tables => .prepare 1 tables []

/-- What `publish_branch` does with an error of `Transaction::commit`, which itself tries again
after a retryable one as long as its backoff allows. -/
def publishBranchError (table : TxnTable τ) (attempt : Nat) (e : IcebergError) (again : Bool) :
    Point τ :=
  if e.retryable && again then .refresh table attempt
  else if e.kind = .preconditionFailed then publishFails [table] .transactionConflict
  else if isConflict e && decide (attempt < maxAttempts) then .load table (attempt + 1)
  else if isConflict e then publishFails [table] .transactionConflict
  else publishFails [table] .catalog

/-- The end of the loop of `publish_branches` over the tables. -/
def prepared (attempt : Nat) (rest : List (TxnTable τ)) (commits : List (TableCommit τ)) :
    Point τ :=
  match rest with
  | [] => if commits.isEmpty then .ended .committed else .postAll attempt commits
  | table :: rest => .prepare attempt (table :: rest) commits

/-- An empty table whose first write failed before its commit created the branch. -/
def nothingToPublish (t : ι) (table : TxnTable τ) (metadata : TableMetadata ι) : Bool :=
  table.baseSnapshotId.isNone && metadata.currentSnapshotId.isNone && (metadata.branches t).isNone

/-- One round of the loop of `publish_branches` over the tables. -/
def prepareTable (t : ι) (tables : List (TxnTable τ)) (attempt : Nat) (table : TxnTable τ)
    (rest : List (TxnTable τ)) (commits : List (TableCommit τ)) (metadata : TableMetadata ι) :
    Point τ :=
  if nothingToPublish t table metadata then prepared attempt rest commits
  else match publishBranchAction t table metadata with
    | .error e => publishFails tables
        (if e.kind = .preconditionFailed then .transactionConflict else .catalog)
    | .ok commit => prepared attempt rest (commits ++ [commit])

/-- What `publish_branches` does with an error of `commit_transaction`. -/
def publishBranchesError (tables : List (TxnTable τ)) (attempt : Nat) (e : IcebergError) :
    Point τ :=
  if e.kind = .featureUnsupported then publishFails tables .notSupported
  else if isConflict e && decide (attempt < maxAttempts) then .prepare (attempt + 1) tables []
  else if isConflict e then publishFails tables .transactionConflict
  else publishFails tables .catalog

/-- The commits were prepared on the metadata the tables have now. -/
def current (catalog : τ → TableMetadata ι) (commits : List (TableCommit τ)) : Bool :=
  commits.all fun c => (catalog c.ident).location == c.against

/-- The answer to a publish commit: it is applied only to the metadata it was prepared on. -/
def answered (t : ι) (catalog : τ → TableMetadata ι) (x : TxnScope τ)
    (commits : List (TableCommit τ)) (answer : Answer) (onError : IcebergError → Point τ) :
    Option (Option (Change τ ι) × TxnScope τ) :=
  let change := Change.publish t x.call commits
  match answer with
  | .ok => if current catalog commits then
      some (some change, { x with point := .ended .committed }) else none
  | .lost e => if current catalog commits then
      some (some change, { x with point := onError e }) else none
  | .refused e => some (none, { x with point := onError e })

/-- The transaction takes a step: the commit that takes effect, if any, and what becomes of it. -/
def TxnScope.next (t : ι) (catalog : τ → TableMetadata ι) (x : TxnScope τ) :
    TxnEvent τ → Option (Option (Change τ ι) × TxnScope τ)
  | .claim table => match x.point with
      | .idle => if x.tables.any fun claimed => claimed.ident = table then none
          else match (catalog table).currentSnapshotId with
            -- A table without a snapshot gets no branch here: the first write creates it.
            | none => some (none, { x with tables := x.tables ++ [⟨table, none⟩] })
            | some base => some (none, { x with point := .claim table base })
      | _ => none
  | .createBranch answer again => match x.point with
      | .claim table base =>
        let change := Change.createBranch t table base
        match answer with
        | .ok => some (some change, { x with
            tables := x.tables ++ [⟨table, some base⟩]
            catalogBound := true
            point := .idle })
        | .lost e => some (some change, { x with
            lost := true
            point := if e.retryable && again then x.point else .idle })
        | .refused _ => some (none, { x with point := .idle })
      | _ => none
  | .write table answer => match x.point with
      | .idle => match x.tables.find? fun claimed => claimed.ident = table with
          | none => none
          | some claimed =>
            -- A claimed table whose branch is gone is read as stale, unless it was empty.
            if ((catalog table).branches t).isNone && claimed.baseSnapshotId.isSome then none
            else match answer with
              | .ok => some (some (.write t table), { x with catalogBound := true })
              | .lost _ => some (some (.write t table), { x with lost := true })
              | .refused _ => some (none, x)
      | _ => none
  | .publish => match x.point with
      | .idle => some (none, { x with call := x.call + 1, point := publish x })
      | _ => none
  | .load => match x.point with
      | .load table attempt => some (none, { x with point := .refresh table attempt })
      | .refresh table attempt => match publishBranchAction t table (catalog table.ident) with
          | .error e => some (none, { x with point := publishBranchError table attempt e false })
          | .ok commit => some (none, { x with point := .post table attempt commit })
      | .prepare attempt (table :: rest) commits => some (none, { x with
          point := prepareTable t x.tables attempt table rest commits (catalog table.ident) })
      | _ => none
  | .loadFails e again => match x.point with
      | .load table _ => some (none, { x with point := publishFails [table] .catalog })
      | .refresh table attempt => some (none, { x with
          point := publishBranchError table attempt e again })
      | .prepare _ _ _ => some (none, { x with point := publishFails x.tables .catalog })
      | _ => none
  | .answer answer again => match x.point with
      | .post table attempt commit => answered t catalog x [commit] answer
          fun e => publishBranchError table attempt e again
      | .postAll attempt commits => answered t catalog x commits answer
          (publishBranchesError x.tables attempt)
      | _ => none
  | .drop dropped => match x.point with
      | .discard (table :: rest) ending => some (
          if dropped then some (.dropBranch t table.ident) else none,
          { x with point := discard rest ending })
      | _ => none
  | .rollback => match x.point with
      | .idle => some (none, { x with
          point := if x.catalogBound then discard x.tables .rolledBack else .ended .rolledBack })
      | _ => none
  | .reopen => match x.point with
      | .ended (.failed code) => if code = .transactionConflict then none
          else some (none, { x with point := .idle })
      | _ => none

/-- An applied commit: the tables before it, and what every transaction had claimed by then. -/
structure Entry (τ ι : Type) where
  change : Change τ ι
  fresh : SnapshotId
  before : τ → TableMetadata ι
  claims : ι → List (TxnTable τ)

def Entry.after (e : Entry τ ι) : τ → TableMetadata ι := e.change.apply e.fresh e.before

/-- The tables, the transactions, the id the next snapshot takes, and the commits so far, the
latest first. -/
structure State (τ ι : Type) where
  catalog : τ → TableMetadata ι
  txns : ι → TxnScope τ
  nextSnapshot : SnapshotId
  log : List (Entry τ ι)

inductive Event (τ ι : Type)
  | txn (t : ι) (e : TxnEvent τ)
  | append (table : τ)
  | setCurrentSnapshot (table : τ) (id : SnapshotId)
  | touch (table : τ)
  /-- `DROP BRANCH`, or a sweep of old transactions. -/
  | dropBranch (t : ι) (table : τ)

variable (s : State τ ι)

def State.commit (change : Change τ ι) : State τ ι where
  catalog := change.apply s.nextSnapshot s.catalog
  txns := s.txns
  nextSnapshot := s.nextSnapshot + 1
  log := ⟨change, s.nextSnapshot, s.catalog, fun t => (s.txns t).tables⟩ :: s.log

def State.commit? : Option (Change τ ι) → State τ ι
  | none => s
  | some change => s.commit change

def State.setTxn (t : ι) (x : TxnScope τ) : State τ ι :=
  { s with txns := update s.txns t x }

def step : Event τ ι → Option (State τ ι)
  | .txn t e => (TxnScope.next t s.catalog (s.txns t) e).map fun r => (s.commit? r.1).setTxn t r.2
  | .append table => some (s.commit (.append table))
  | .setCurrentSnapshot table id =>
    if id < s.nextSnapshot then some (s.commit (.setCurrentSnapshot table id)) else none
  | .touch table => some (s.commit (.touch table))
  | .dropBranch t table => some (s.commit (.dropBranch t table))

structure Opens : Prop where
  txns : ∀ t, s.txns t = .new
  branches : ∀ table t, (s.catalog table).branches t = none
  snapshots : ∀ table id, (s.catalog table).currentSnapshotId = some id → id < s.nextSnapshot
  log : s.log = []

end Sqe.Catalog.Txn
