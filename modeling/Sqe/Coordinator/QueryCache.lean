/- GID: Sqe/Coordinator/QueryCache
   generality: G
   digest: The result cache, what a SELECT stores in it and what a write evicts. -/

import Mathlib.Data.List.Dedup
import Sqe.Library.Dotted
import Sqe.Library.Transition
import Sqe.Library.Tree

/-!
Any number of SELECTs and of writes against one cache. Every operation on the cache and on its
index of tables is atomic, and between any two of them the others may run. A stored result is known
by where it comes from: the version of each table that was read and the policy it was computed
under. A table's version counts the writes to it.
-/

set_option autoImplicit false

namespace Sqe.Coordinator.QueryCache

open Function (update)
open Sqe.Library
open Sqe.Library.Text (isWhitespace trimEnd)

abbrev Text := List Char

/-- The last dotted segment, without blanks around it and as `str::to_lowercase` folds it. -/
def canonicalTableKey (toLowercase : Text → Text) (tableName : Text) : Text :=
  let segment := (tableName.reverse.takeWhile fun c => c ≠ '.').reverse
  toLowercase (trimEnd (segment.dropWhile isWhitespace))

/-- A write, with what the handler prints of it: the name of the table, the relation with its
alias, or for a DROP the statement. How sqlparser prints them is left open. -/
inductive Statement
  | insert (table : Text)
  | createTableAs (name : Text)
  | drop (statement : Text)
  | delete (relation : Text)
  | update (relation : Text)
  | merge

/-- The text whose table is invalidated; a MERGE drops the whole cache. -/
def Statement.invalidates : Statement → Option Text
  | .insert printed | .createTableAs printed | .drop printed | .delete printed
  | .update printed => some printed
  | .merge => none

section Plans

variable {τ : Type}

/-- A scan, by the name the plan has for it and by the table it reads. The scan of a metadata
function is named after the function and knows the `ns.table` it is about. -/
structure Scan (τ : Type) where
  tableName : Text
  table : τ
  tvfTarget : Option Text := none

/-- A node of the enforced plan, with the scans of its subquery expressions. -/
inductive PlanNode (τ : Type)
  | tableScan (scan : Scan τ)
  | other (subqueryScans : List (Scan τ))

abbrev Plan (τ : Type) := Library.Tree (PlanNode τ)

/-- `extract_table_names`: the walk does not go into subquery expressions. -/
def extractTableNames (plan : Plan τ) : List Text :=
  (plan.labels.filterMap fun | .tableScan scan => some scan.tableName | .other _ => none).dedup

def scans (plan : Plan τ) : List (Scan τ) :=
  plan.labels.flatMap fun
    | .tableScan scan => [scan]
    | .other subqueryScans => subqueryScans

def reads (plan : Plan τ) : List τ := (scans plan).map Scan.table

/-- `append_metadata_tvf_targets` on the names of the plan. This walk enters the subqueries. -/
def tablesTouched (plan : Plan τ) : List Text :=
  ((scans plan).filterMap Scan.tvfTarget).foldl
    (fun tables target => if target ∈ tables then tables else tables ++ [target])
    (extractTableNames plan)

end Plans

/-- `CachedResult`; the last three fields tell where its rows come from. -/
structure CachedResult (τ φ : Type) where
  tablesTouched : List Text
  policyFingerprint : φ
  reads : List τ
  versions : τ → Nat
  computedUnder : φ

inductive SelectPoint (τ κ φ : Type)
  | idle
  /-- It runs, with the versions it has read so far and the policy it was enforced under. -/
  | running (key : κ) (plan : Plan τ) (versions : τ → Option Nat) (policy : Option φ)
  /-- In `store_bound`, with the names still to index. -/
  | indexing (key : κ) (rest : List Text)

inductive WritePoint (τ κ : Type)
  | idle
  | committed (table : τ) (version : Nat) (text : Option Text)
  /-- In `invalidate`, with the keys of the bucket it removed and those still to evict. -/
  | evicting (table : τ) (version : Nat) (bucket : Text) (keys todo : List κ)
  /-- In `invalidate_all`, before the index is cleared. -/
  | clearing (table : τ) (version : Nat)
  | invalidated (table : τ) (version : Nat)

structure State (τ κ φ σ ω : Type) where
  head : τ → Nat
  policy : φ
  cache : κ → Option (CachedResult τ φ)
  tableIndex : Text → List κ
  selects : σ → SelectPoint τ κ φ
  writes : ω → WritePoint τ κ
  /-- The latest version of each table whose write has returned success. -/
  returned : τ → Nat

inductive Event (τ κ φ σ ω : Type)
  /-- The lookup missed and the SELECT runs. -/
  | start (q : σ) (key : κ) (plan : Plan τ)
  /-- The SELECT loads some snapshot of a table. -/
  | read (q : σ) (table : τ) (version : Nat)
  | enforce (q : σ)
  /-- `store_bound`, up to the insert. -/
  | insert (q : σ)
  | index (q : σ)
  | giveUp (q : σ)
  | commit (w : ω) (table : τ) (statement : Statement)
  | removeBucket (w : ω)
  | evict (w : ω)
  | retain (w : ω)
  | evictAll (w : ω)
  | clearIndex (w : ω)
  | success (w : ω)
  | setPolicy (policy : φ)
  /-- A lookup evicts an entry of another policy, or one that is no longer authorized. -/
  | reject (key : κ)

variable {τ κ φ σ ω : Type} [DecidableEq τ] [DecidableEq κ] [DecidableEq σ] [DecidableEq ω]

/-- `store_bound` stamps the fingerprint that is in force when it is called. -/
def cachedResult (plan : Plan τ) (versions : τ → Option Nat) (policy stamp : φ) :
    CachedResult τ φ where
  tablesTouched := tablesTouched plan
  policyFingerprint := stamp
  reads := reads plan
  versions t := (versions t).getD 0
  computedUnder := policy

variable (toLowercase : Text → Text) (s : State τ κ φ σ ω)

def State.setSelect (q : σ) (point : SelectPoint τ κ φ) : State τ κ φ σ ω :=
  { s with selects := update s.selects q point }

/-- The index once the entry of the key, if there is one, goes: the eviction listener takes the key
out of the buckets of its tables. moka runs the listener inside the operation that removes or
replaces the entry. What an `invalidate_all` leaves to it, it does while the key has no entry. -/
def State.unlisted (key : κ) (bucket : Text) : List κ :=
  match s.cache key with
  | none => s.tableIndex bucket
  | some gone =>
    if bucket ∈ gone.tablesTouched.map (canonicalTableKey toLowercase) then
      (s.tableIndex bucket).filter fun other => other ≠ key
    else s.tableIndex bucket

def step : Event τ κ φ σ ω → Option (State τ κ φ σ ω)
  | .start q key plan => match s.selects q with
      | .idle => some (s.setSelect q (.running key plan (fun _ => none) none))
      | _ => none
  | .read q table version => match s.selects q with
      | .running key plan versions policy => if version ≤ s.head table then
          some (s.setSelect q (.running key plan (update versions table (some version)) policy))
          else none
      | _ => none
  | .enforce q => match s.selects q with
      | .running key plan versions _ =>
        some (s.setSelect q (.running key plan versions (some s.policy)))
      | _ => none
  | .insert q => match s.selects q with
      | .running key plan versions (some policy) =>
        if (reads plan).all fun t => (versions t).isSome then some { s with
          cache := update s.cache key (some (cachedResult plan versions policy s.policy))
          tableIndex := s.unlisted toLowercase key
          selects := update s.selects q (.indexing key (tablesTouched plan)) }
        else none
      | _ => none
  | .index q => match s.selects q with
      | .indexing key (name :: rest) => some { s with
          tableIndex := update s.tableIndex (canonicalTableKey toLowercase name)
            (key :: s.tableIndex (canonicalTableKey toLowercase name))
          selects := update s.selects q (.indexing key rest) }
      | .indexing _ [] => some (s.setSelect q .idle)
      | _ => none
  | .giveUp q => match s.selects q with
      | .running _ _ _ _ => some (s.setSelect q .idle)
      | _ => none
  | .commit w table statement => match s.writes w with
      | .idle => some { s with
          head := update s.head table (s.head table + 1)
          writes := update s.writes w (.committed table (s.head table + 1) statement.invalidates) }
      | _ => none
  | .removeBucket w => match s.writes w with
      | .committed table version (some text) =>
        let bucket := canonicalTableKey toLowercase text
        some { s with
          tableIndex := update s.tableIndex bucket []
          writes := update s.writes w
            (.evicting table version bucket (s.tableIndex bucket) (s.tableIndex bucket)) }
      | _ => none
  | .evict w => match s.writes w with
      | .evicting table version bucket keys (key :: todo) => some { s with
          cache := update s.cache key none
          tableIndex := s.unlisted toLowercase key
          writes := update s.writes w (.evicting table version bucket keys todo) }
      | _ => none
  | .retain w => match s.writes w with
      | .evicting table version _ keys [] => some { s with
          tableIndex := fun name => (s.tableIndex name).filter fun key => key ∉ keys
          writes := update s.writes w (.invalidated table version) }
      | _ => none
  | .evictAll w => match s.writes w with
      | .committed table version none => some { s with
          cache := fun _ => none
          writes := update s.writes w (.clearing table version) }
      | _ => none
  | .clearIndex w => match s.writes w with
      | .clearing table version => some { s with
          tableIndex := fun _ => []
          writes := update s.writes w (.invalidated table version) }
      | _ => none
  | .success w => match s.writes w with
      | .invalidated table version => some { s with
          returned := update s.returned table (max (s.returned table) version)
          writes := update s.writes w .idle }
      | _ => none
  | .setPolicy policy => some { s with policy := policy }
  | .reject key => some { s with
      cache := update s.cache key none
      tableIndex := s.unlisted toLowercase key }

def Start : Prop :=
  (∀ key, s.cache key = none) ∧ (∀ name, s.tableIndex name = []) ∧ (∀ q, s.selects q = .idle) ∧
    (∀ w, s.writes w = .idle) ∧ ∀ t, s.returned t = 0

/-- `lookup_bound` of an entry that the caller is still authorized for, under the fingerprint in
force. -/
def lookupBound [DecidableEq φ] (s : State τ κ φ σ ω) (key : κ) (policyFingerprint : φ) :
    Option (CachedResult τ φ) :=
  (s.cache key).filter fun cached => cached.policyFingerprint = policyFingerprint

def WritePoint.begun : WritePoint τ κ → Option (τ × Nat)
  | .evicting table version _ _ _ => some (table, version)
  | .clearing table version => some (table, version)
  | .invalidated table version => some (table, version)
  | _ => none

def WritePoint.isClearing : WritePoint τ κ → Bool
  | .clearing _ _ => true
  | _ => false

/-- The keys an invalidation under way took out of the index. -/
def WritePoint.removed : WritePoint τ κ → List κ
  | .evicting _ _ _ keys _ => keys
  | _ => []

def WritePoint.bucket : WritePoint τ κ → Option Text
  | .evicting _ _ bucket _ _ => some bucket
  | _ => none

/-- A store has yet to index the key under the name. -/
def Pending (selects : σ → SelectPoint τ κ φ) (key : κ) (name : Text) : Prop :=
  ∃ q rest, selects q = .indexing key rest ∧ name ∈ rest

/-- A SELECT stores its result only under the policy it was enforced under, not after a newer write
to a table it reads has begun its invalidation, and not into an invalidation that took its key out
of the index. -/
def StoresInTime : SelectPoint τ κ φ → Prop
  | .running key plan versions policy => policy = some s.policy ∧
      (∀ t ∈ reads plan, ∀ version, versions t = some version →
        s.returned t ≤ version ∧ ∀ w v, (s.writes w).begun = some (t, v) → v ≤ version) ∧
      ∀ w, key ∉ (s.writes w).removed ∧ (s.writes w).isClearing = false
  | _ => True

/-- A write invalidates under a name that every cached result that reads its table is indexed
under, while no store is still to index under it and no other write is evicting its bucket. -/
def FindsReaders : WritePoint τ κ → Prop
  | .committed table _ (some text) =>
    let bucket := canonicalTableKey toLowercase text
    (∀ key cached, s.cache key = some cached → table ∈ cached.reads →
      ∃ name ∈ cached.tablesTouched, canonicalTableKey toLowercase name = bucket) ∧
    (∀ key name, Pending s.selects key name → canonicalTableKey toLowercase name ≠ bucket) ∧
    ∀ w, (s.writes w).bucket ≠ some bucket
  | _ => True

def Orderly : Event τ κ φ σ ω → Prop
  | .insert q => StoresInTime s (s.selects q)
  | .removeBucket w => FindsReaders toLowercase s (s.writes w)
  | _ => True

end Sqe.Coordinator.QueryCache
