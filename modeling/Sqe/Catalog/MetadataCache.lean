/- GID: Sqe/Catalog/MetadataCache
   generality: G
   digest: The table metadata cache, its generations and the loads and invalidations that race. -/

import Mathlib.Logic.Function.Basic
import Sqe.Library.Transition

/-!
Every operation on a map of the cache and on a counter is one step, and so is every answer of the
catalog. A metadata version is its number and an ETag is the number of the version it identifies.
Entries may leave the cache at any time (its bounds, its hard TTL, expiring credentials). Whether
a generation map has reached its bound is left open: any bump may prune.
-/

set_option autoImplicit false

namespace Sqe.Catalog.MetadataCache

open Function (update)

variable {Warehouse Table Token Task : Type} [DecidableEq Warehouse] [DecidableEq Table]
  [DecidableEq Token] [DecidableEq Task]

structure Key (Warehouse Table Token : Type) where
  token : Token
  warehouse : Warehouse
  table : Table
  deriving DecidableEq

def Key.place (k : Key Warehouse Table Token) : Warehouse × Table :=
  (k.warehouse, k.table)

structure Generations (Warehouse Table Token : Type) where
  counter : Nat
  global : Nat
  tables : Table → Option Nat
  keys : Key Warehouse Table Token → Option Nat
  pruneFloor : Nat

structure CacheGeneration where
  global : Nat
  table : Nat
  key : Nat
  deriving DecidableEq

variable (g : Generations Warehouse Table Token)

/-- An absent key reads as the prune floor. -/
def Generations.ofTable (t : Table) : Nat :=
  (g.tables t).getD g.pruneFloor

inductive Progress
  | start
  | global (g : Nat)
  | tableAbsent (g : Nat)
  | table (g t : Nat)
  | keyAbsent (g t : Nat)
  deriving DecidableEq

def readNext (gens : Generations Warehouse Table Token) (k : Key Warehouse Table Token) :
    Progress → Progress ⊕ CacheGeneration
  | .start => .inl (.global gens.global)
  | .global g =>
    match gens.tables k.table with
    | some t => .inl (.table g t)
    | none => .inl (.tableAbsent g)
  | .tableAbsent g => .inl (.table g gens.pruneFloor)
  | .table g t =>
    match gens.keys k with
    | some v => .inr ⟨g, t, v⟩
    | none => .inl (.keyAbsent g t)
  | .keyAbsent g t => .inr ⟨g, t, gens.pruneFloor⟩

/-- A cached version. When it was fetched, and how many stamps had been drawn by then, are noted
for the statements only. -/
structure Entry where
  version : Nat
  etag : Option Nat
  validatedAt : Nat
  fetchedAt : Nat
  drawn : Nat
  deriving DecidableEq

/-- `insert_if_generation`, `revalidate` and `update_etag`. -/
inductive Write
  | insert (entry : Entry)
  | stamp
  | etag (value : Option Nat)
  deriving DecidableEq

def Write.apply (clock : Nat) (e : Entry) : Write → Entry
  | .insert _ => { e with validatedAt := clock }
  | .stamp => { e with validatedAt := clock }
  | .etag value => { e with etag := value }

inductive Phase
  | idle
  | snapshot (p : Progress)
  | getFresh (snap : CacheGeneration)
  | getStale (snap : CacheGeneration)
  /-- Before the conditional `GET` for a stale entry. -/
  | conditional (snap : CacheGeneration) (stale : Entry) (etag : Nat)
  | fullLoad (snap : CacheGeneration) (etag : Option Nat)
  | check (snap : CacheGeneration) (w : Write) (p : Progress)
  /-- Before the entry to be written again is read. -/
  | copy (snap : CacheGeneration) (w : Write)
  | write (snap : CacheGeneration) (w : Write) (e : Entry)
  | recheck (snap : CacheGeneration) (w : Write) (p : Progress)
  | undo
  /-- Before the background `HEAD`. -/
  | head (snap : CacheGeneration)
  | done
  deriving DecidableEq

structure Load where
  phase : Phase
  startedClock : Nat
  startedAt : Nat

structure Result (Warehouse Table Token : Type) where
  key : Key Warehouse Table Token
  version : Nat
  startedClock : Nat
  startedAt : Nat
  fetchedAt : Nat
  drawn : Nat

inductive Scope (Warehouse Table Token : Type)
  | allTokens (table : Table)
  | all
  | key (key : Key Warehouse Table Token)

inductive Stage (Warehouse Table Token : Type)
  | idle
  | started
  | stamped (stamp : Nat)
  /-- The floor is raised, the map not cleared yet. -/
  | raised (stamp : Nat)
  | cleared (stamp : Nat)
  | bumped (stamp : Nat)
  | evicting (stamp : Nat) (keys : List (Key Warehouse Table Token))
  | returned (stamp : Nat)

structure Invalidation (Warehouse Table Token : Type) where
  stage : Stage Warehouse Table Token
  startedAt : Nat
  returnedAt : Nat

structure State (Warehouse Table Token Task : Type) where
  clock : Nat
  steps : Nat
  /-- The catalog's current version of each table. -/
  current : Warehouse × Table → Nat
  /-- When a version was replaced by the next one. -/
  ended : Warehouse × Table → Nat → Nat
  gens : Generations Warehouse Table Token
  cache : List (Key Warehouse Table Token × Entry)
  load : Task → Load
  invalidation : Task → Invalidation Warehouse Table Token
  results : List (Result Warehouse Table Token)

inductive Answer
  | notModified
  /-- With or without the `ETag` header. -/
  | changed (etag : Bool)
  | failed
  /-- The circuit breaker is open. -/
  | refused
  deriving DecidableEq

inductive Event (Warehouse Table Token Task : Type)
  | tick (seconds : Nat)
  | commit (place : Warehouse × Table)
  | evict (key : Key Warehouse Table Token)
  | beginLoad (task : Task)
  | advance (task : Task) (answer : Answer)
  | beginInvalidation (task : Task)
  | proceed (task : Task) (full : Bool)

def get {α : Type} [DecidableEq α] (cache : List (α × Entry)) (k : α) : Option Entry :=
  cache.lookup k

def invalidate {α : Type} [DecidableEq α] (cache : List (α × Entry)) (k : α) : List (α × Entry) :=
  cache.filter fun entry => entry.1 != k

def insert {α : Type} [DecidableEq α] (cache : List (α × Entry)) (k : α) (e : Entry) :
    List (α × Entry) :=
  (k, e) :: invalidate cache k

section Steps

-- The soft TTL in seconds, and by how much each key shortens it.
variable (softTtl : Nat) (jitter : Key Warehouse Table Token → Nat)

def isFresh (clock : Nat) (k : Key Warehouse Table Token) (e : Entry) : Bool :=
  clock < e.validatedAt + (softTtl - jitter k)

variable (key : Task → Key Warehouse Table Token) (scope : Task → Scope Warehouse Table Token)
variable (s : State Warehouse Table Token Task) (task : Task)

def State.goes (phase : Phase) : State Warehouse Table Token Task :=
  { s with load := update s.load task { s.load task with phase := phase } }

def State.gives (version fetchedAt drawn : Nat) : State Warehouse Table Token Task :=
  { s with results :=
      ⟨key task, version, (s.load task).startedClock, (s.load task).startedAt, fetchedAt, drawn⟩
        :: s.results }

/-- The next step of a load or of the background task it leaves. -/
def advance (answer : Answer) : Option (State Warehouse Table Token Task) :=
  let k := key task
  match (s.load task).phase with
  | .idle => none
  | .snapshot p =>
    match readNext s.gens k p with
    | .inl p => some (s.goes task (.snapshot p))
    | .inr snap => some (s.goes task (.getFresh snap))
  | .getFresh snap =>
    match get s.cache k with
    | some e =>
      if isFresh softTtl jitter s.clock k e then
        some ((s.gives key task e.version e.fetchedAt e.drawn).goes task .done)
      else some (s.goes task (.getStale snap))
    | none => some (s.goes task (.getStale snap))
  | .getStale snap =>
    match get s.cache k with
    | some e =>
      match e.etag with
      | some etag => some (s.goes task (.conditional snap e etag))
      | none => some (s.goes task (.fullLoad snap none))
    | none => some (s.goes task (.fullLoad snap none))
  | .conditional snap stale etag =>
    match answer with
    | .notModified =>
      -- Only the ETag of the current version is answered so.
      if etag = s.current k.place then
        some ((s.gives key task stale.version stale.fetchedAt stale.drawn).goes task
          (.check snap .stamp .start))
      else none
    | .changed header =>
      some (s.goes task (.fullLoad snap (if header then some (s.current k.place) else none)))
    | .failed => some (s.goes task (.fullLoad snap none))
    | .refused => some (s.goes task .done)
  | .fullLoad snap etag =>
    match answer with
    | .failed | .refused => some (s.goes task .done)
    | _ =>
      some ((s.gives key task (s.current k.place) s.steps s.gens.counter).goes task (.check snap
          (.insert ⟨s.current k.place, etag, s.clock, s.steps, s.gens.counter⟩) .start))
  | .check snap w p =>
    match readNext s.gens k p with
    | .inl p => some (s.goes task (.check snap w p))
    | .inr now =>
      if now = snap then
        match w with
        | .insert e => some (s.goes task (.write snap w e))
        | _ => some (s.goes task (.copy snap w))
      else some (s.goes task .done)
  | .copy snap w =>
    match get s.cache k with
    | some e => some (s.goes task (.write snap w e))
    | none => some (s.goes task .done)
  | .write snap w e =>
    some ({ s with cache := insert s.cache k (w.apply s.clock e) }.goes task
      (.recheck snap w .start))
  | .recheck snap w p =>
    match readNext s.gens k p with
    | .inl p => some (s.goes task (.recheck snap w p))
    | .inr now =>
      if now = snap then
        match w with
        | .insert e =>
          if e.etag.isNone then some (s.goes task (.head snap))
          else some (s.goes task .done)
        | _ => some (s.goes task .done)
      else some (s.goes task .undo)
  | .undo => some ({ s with cache := invalidate s.cache k }.goes task .done)
  | .head snap =>
    match answer with
    | .changed true =>
      some (s.goes task (.check snap (.etag (some (s.current k.place))) .start))
    | _ => some (s.goes task (.check snap (.etag none) .start))
  | .done => none

def State.stages (stage : Stage Warehouse Table Token) : State Warehouse Table Token Task :=
  { s with invalidation := update s.invalidation task { s.invalidation task with stage := stage } }

def State.returns (stamp : Nat) : State Warehouse Table Token Task :=
  let returned := ⟨.returned stamp, (s.invalidation task).startedAt, s.steps⟩
  { s with invalidation := update s.invalidation task returned }

/-- The stamp goes into the map of the scope. -/
def Generations.put (stamp : Nat) :
    Scope Warehouse Table Token → Generations Warehouse Table Token
  | .allTokens t => { g with tables := update g.tables t (some stamp) }
  | .all => { g with global := stamp }
  | .key k => { g with keys := update g.keys k (some stamp) }

def Generations.clear :
    Scope Warehouse Table Token → Generations Warehouse Table Token
  | .allTokens _ => { g with tables := fun _ => none }
  | .all => g
  | .key _ => { g with keys := fun _ => none }

/-- Only the two maps are pruned. -/
def Scope.prunes : Scope Warehouse Table Token → Bool
  | .all => false
  | _ => true

def proceed (full : Bool) : Option (State Warehouse Table Token Task) :=
  match (s.invalidation task).stage with
  | .idle => none
  | .started =>
    some ({ s with gens := { s.gens with counter := s.gens.counter + 1 } }.stages task
      (.stamped (s.gens.counter + 1)))
  | .stamped stamp =>
    if full && (scope task).prunes then
      some ({ s with gens := { s.gens with pruneFloor := stamp } }.stages task (.raised stamp))
    else some ({ s with gens := s.gens.put stamp (scope task) }.stages task (.bumped stamp))
  | .raised stamp =>
    some ({ s with gens := s.gens.clear (scope task) }.stages task (.cleared stamp))
  | .cleared stamp =>
    some ({ s with gens := s.gens.put stamp (scope task) }.stages task (.bumped stamp))
  | .bumped stamp =>
    match scope task with
    | .allTokens t =>
      some (s.stages task (.evicting stamp ((s.cache.map Prod.fst).filter fun k => k.table == t)))
    | .all => some ({ s with cache := [] }.returns task stamp)
    | .key k => some ({ s with cache := invalidate s.cache k }.returns task stamp)
  | .evicting stamp [] => some (s.returns task stamp)
  | .evicting stamp (k :: keys) =>
    some ({ s with cache := invalidate s.cache k }.stages task (.evicting stamp keys))
  | .returned _ => none

def step (e : Event Warehouse Table Token Task) : Option (State Warehouse Table Token Task) :=
  Option.map (fun next : State Warehouse Table Token Task => { next with steps := s.steps + 1 })
  (match e with
  | .tick seconds => some { s with clock := s.clock + seconds }
  | .commit t =>
    some { s with
      current := update s.current t (s.current t + 1)
      ended := update s.ended t (update (s.ended t) (s.current t) s.clock) }
  | .evict k => some { s with cache := invalidate s.cache k }
  | .beginLoad task =>
    match (s.load task).phase with
    | .idle =>
      some { s with load := update s.load task ⟨.snapshot .start, s.clock, s.steps⟩ }
    | _ => none
  | .advance task answer => advance softTtl jitter key s task answer
  | .beginInvalidation task =>
    match (s.invalidation task).stage with
    | .idle =>
      some { s with invalidation := update s.invalidation task ⟨.started, s.steps, 0⟩ }
    | _ => none
  | .proceed task full => proceed scope s task full)

end Steps

end Sqe.Catalog.MetadataCache
