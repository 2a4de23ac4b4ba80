/- GID: Sqe/Catalog/MetadataCacheInvariant
   generality: G
   digest: What holds of the metadata cache while no write straddles a change, and loads keep it. -/

import Mathlib.Data.Fintype.Basic
import Sqe.Catalog.MetadataCache

set_option autoImplicit false

namespace Sqe.Catalog.MetadataCache

open Sqe.Library.Transition List

variable {Warehouse Table Token Task : Type} (k : Key Warehouse Table Token)

/-- The invalidation is one that every load of the key has to see. -/
def Scope.Covers : Scope Warehouse Table Token → Prop
  | .allTokens t => k.table = t
  | .all => True
  | .key _ => False

/-- The version was the catalog's current one at that time of the clock. -/
structure State.CurrentAt (s : State Warehouse Table Token Task) (place : Warehouse × Table)
    (version time : Nat) : Prop where
  known : version ≤ s.current place
  passed : time ≤ s.clock
  begun : ∀ earlier < version, s.ended place earlier ≤ time
  lasted : version = s.current place ∨ time ≤ s.ended place version

variable (scope : Task → Scope Warehouse Table Token)

/-- No load returned what was fetched before an invalidation began that had itself returned by the
time the load began. -/
def FencesLoads (s : State Warehouse Table Token Task) : Prop :=
  ∀ r ∈ s.results, ∀ i stamp, (scope i).Covers r.key →
    (s.invalidation i).stage = .returned stamp → (s.invalidation i).returnedAt < r.startedAt →
    (s.invalidation i).startedAt ≤ r.fetchedAt

/-- Every load returned a version that was current no more than a soft TTL before it began. -/
def BoundsAge (softTtl : Nat) (s : State Warehouse Table Token Task) : Prop :=
  ∀ r ∈ s.results, ∃ time, s.CurrentAt r.key.place r.version time ∧
    r.startedClock ≤ time + softTtl

section Condition

variable (gens : Generations Warehouse Table Token)

/-- The stamp does not lower the generation it is stored in. -/
def Scope.InOrder (stamp : Nat) :
    Scope Warehouse Table Token → Prop
  | .allTokens t => gens.ofTable t ≤ stamp
  | .all => gens.global ≤ stamp
  | .key _ => True

/-- No table's stamp is above the floor it will read as. -/
def Scope.BelowFloor :
    Scope Warehouse Table Token → Prop
  | .allTokens _ => ∀ t, ∀ g ∈ gens.tables t, g ≤ gens.pruneFloor
  | _ => True

/-- The next step of an invalidation lowers no generation that loads read. -/
def Stage.Clear (sc : Scope Warehouse Table Token)
    (full : Bool) : Stage Warehouse Table Token → Prop
  | .stamped stamp =>
    if full && sc.prunes then gens.pruneFloor ≤ stamp else sc.InOrder gens stamp
  | .raised _ => sc.BelowFloor gens
  | .cleared stamp => sc.InOrder gens stamp
  | _ => True

variable [DecidableEq Warehouse] [DecidableEq Table] [DecidableEq Token]
variable (s : State Warehouse Table Token Task) (k : Key Warehouse Table Token)

/-- What a write rests on still stands. -/
def Write.Stands (e : Entry) : Write → Prop
  | .insert _ => e.version = s.current k.place
  | .stamp => get s.cache k = some e ∧ e.version = s.current k.place
  | .etag value => get s.cache k = some e ∧ ∀ v ∈ value, v ≤ e.version

/-- The next step of a load is no write, or no change has come before it. -/
def Phase.Clear : Phase → Prop
  | .write snap w e =>
    snap.global = s.gens.global ∧ snap.table = s.gens.ofTable k.table ∧ w.Stands s k e
  | _ => True

/-- No step of an invalidation lowers a generation that loads read, and no write to the cache
happens after a change of what it rests on. -/
def Clear (key : Task → Key Warehouse Table Token) (scope : Task → Scope Warehouse Table Token)
    (s : State Warehouse Table Token Task) : Event Warehouse Table Token Task → Prop
  | .advance task _ => (s.load task).phase.Clear s (key task)
  | .proceed task full => (s.invalidation task).stage.Clear s.gens (scope task) full
  | _ => True

instance (gens : Generations Warehouse Table Token) (stamp : Nat)
    (sc : Scope Warehouse Table Token) : Decidable (sc.InOrder gens stamp) :=
  match sc with
  | .allTokens t => inferInstanceAs (Decidable (gens.ofTable t ≤ stamp))
  | .all => inferInstanceAs (Decidable (gens.global ≤ stamp))
  | .key _ => .isTrue trivial

instance [Fintype Table] (gens : Generations Warehouse Table Token)
    (sc : Scope Warehouse Table Token) : Decidable (sc.BelowFloor gens) :=
  match sc with
  | .allTokens _ => inferInstanceAs (Decidable (∀ t, ∀ g ∈ gens.tables t, g ≤ gens.pruneFloor))
  | .all => .isTrue trivial
  | .key _ => .isTrue trivial

instance [Fintype Table] (gens : Generations Warehouse Table Token)
    (sc : Scope Warehouse Table Token) (full : Bool) (stage : Stage Warehouse Table Token) :
    Decidable (stage.Clear gens sc full) :=
  match stage with
  | .stamped stamp => inferInstanceAs (Decidable
      (if full && sc.prunes then gens.pruneFloor ≤ stamp else sc.InOrder gens stamp))
  | .raised _ => inferInstanceAs (Decidable (sc.BelowFloor gens))
  | .cleared stamp => inferInstanceAs (Decidable (sc.InOrder gens stamp))
  | .idle | .started | .bumped _ | .evicting _ _ | .returned _ => .isTrue trivial

instance (e : Entry) (w : Write) : Decidable (w.Stands s k e) :=
  match w with
  | .insert _ => inferInstanceAs (Decidable (e.version = s.current k.place))
  | .stamp => inferInstanceAs
      (Decidable (get s.cache k = some e ∧ e.version = s.current k.place))
  | .etag value => inferInstanceAs
      (Decidable (get s.cache k = some e ∧ ∀ v ∈ value, v ≤ e.version))

instance (phase : Phase) : Decidable (phase.Clear s k) :=
  match phase with
  | .write snap w e => inferInstanceAs (Decidable (snap.global = s.gens.global ∧
      snap.table = s.gens.ofTable k.table ∧ w.Stands s k e))
  | .idle | .snapshot _ | .getFresh _ | .getStale _ | .conditional _ _ _ | .fullLoad _ _
  | .check _ _ _ | .copy _ _ | .recheck _ _ _ | .undo | .head _ | .done => .isTrue trivial

instance [Fintype Table] (key : Task → Key Warehouse Table Token)
    (scope : Task → Scope Warehouse Table Token) (s : State Warehouse Table Token Task)
    (e : Event Warehouse Table Token Task) : Decidable (Clear key scope s e) :=
  match e with
  | .advance task _ => inferInstanceAs (Decidable ((s.load task).phase.Clear s (key task)))
  | .proceed task full =>
    inferInstanceAs (Decidable ((s.invalidation task).stage.Clear s.gens (scope task) full))
  | .tick _ | .commit _ | .evict _ | .beginLoad _ | .beginInvalidation _ => .isTrue trivial

end Condition

variable {s s' : State Warehouse Table Token Task}

def Stage.stamp? : Stage Warehouse Table Token → Option Nat
  | .idle => none
  | .started => none
  | .stamped stamp => some stamp
  | .raised stamp => some stamp
  | .cleared stamp => some stamp
  | .bumped stamp => some stamp
  | .evicting stamp _ => some stamp
  | .returned stamp => some stamp

/-- What no step takes back. -/
structure Later (s s' : State Warehouse Table Token Task) : Prop where
  counter : s.gens.counter ≤ s'.gens.counter
  steps : s.steps ≤ s'.steps
  clock : s.clock ≤ s'.clock
  current : ∀ p, s.current p ≤ s'.current p
  ended : ∀ p v, v < s.current p → s'.ended p v = s.ended p v
  replaced : ∀ p, s.current p < s'.current p → s.clock ≤ s'.ended p (s.current p)
  stamp : ∀ i stamp, (s'.invalidation i).stage.stamp? = some stamp →
    ((s.invalidation i).stage.stamp? = some stamp ∧
      (s'.invalidation i).startedAt = (s.invalidation i).startedAt) ∨ s.gens.counter < stamp
  returned : ∀ i stamp, (s'.invalidation i).stage = .returned stamp →
    ((s.invalidation i).stage = .returned stamp ∧
      (s'.invalidation i).returnedAt = (s.invalidation i).returnedAt) ∨
    s.steps ≤ (s'.invalidation i).returnedAt

theorem Later.of_load (cache : List (Key Warehouse Table Token × Entry)) (load : Task → Load)
    (results : List (Result Warehouse Table Token)) :
    Later s { s with cache := cache, load := load, results := results, steps := s.steps + 1 } where
  counter := Nat.le_refl _
  steps := Nat.le_succ _
  clock := Nat.le_refl _
  current _ := Nat.le_refl _
  ended _ _ _ := rfl
  replaced _ less := absurd less (Nat.lt_irrefl _)
  stamp _ _ has := .inl ⟨has, rfl⟩
  returned _ _ has := .inl ⟨has, rfl⟩

/-- Metadata fetched after a stamp was drawn was fetched after that invalidation began. -/
structure Dated (s : State Warehouse Table Token Task) (drawn fetchedAt : Nat) : Prop where
  bounded : drawn ≤ s.gens.counter
  after : ∀ i stamp, (s.invalidation i).stage.stamp? = some stamp → stamp ≤ drawn →
    (s.invalidation i).startedAt ≤ fetchedAt

private theorem Dated.later {drawn fetchedAt : Nat}
    (dated : Dated s drawn fetchedAt) (later : Later s s') : Dated s' drawn fetchedAt where
  bounded := Nat.le_trans dated.bounded later.counter
  after i stamp has before := by
    rcases later.stamp i stamp has with ⟨had, same⟩ | fresh
    · rw [same]
      exact dated.after i stamp had before
    · exact absurd (Nat.lt_of_lt_of_le fresh (Nat.le_trans before dated.bounded))
        (Nat.lt_irrefl _)

/-- No invalidation that had returned when the load began has a later stamp. -/
def Fenced (s : State Warehouse Table Token Task)
    (k : Key Warehouse Table Token) (startedAt drawn : Nat) : Prop :=
  ∀ i stamp, (scope i).Covers k → (s.invalidation i).stage = .returned stamp →
    (s.invalidation i).returnedAt < startedAt → stamp ≤ drawn

private theorem Fenced.later {scope : Task → Scope Warehouse Table Token}
    {k : Key Warehouse Table Token}
    {startedAt drawn : Nat} (fenced : Fenced scope s k startedAt drawn) (later : Later s s')
    (begun : startedAt ≤ s.steps) : Fenced scope s' k startedAt drawn := by
  intro i stamp covers returned before
  rcases later.returned i stamp returned with ⟨had, same⟩ | now
  · exact fenced i stamp covers had (same ▸ before)
  · omega

/-- A version the catalog has had, with an ETag of it or of an earlier one. -/
structure Fetched (s : State Warehouse Table Token Task) (place : Warehouse × Table)
    (e : Entry) : Prop where
  known : e.version ≤ s.current place
  etag : ∀ v, e.etag = some v → v ≤ e.version
  dated : Dated s e.drawn e.fetchedAt

variable {place : Warehouse × Table}

private theorem Fetched.later
    {e : Entry} (fetched : Fetched s place e) (later : Later s s') : Fetched s' place e where
  known := Nat.le_trans fetched.known (later.current place)
  etag := fetched.etag
  dated := fetched.dated.later later

/-- A version that is current, or was at that time of the clock. -/
def CurrentSince (s : State Warehouse Table Token Task) (place : Warehouse × Table)
    (version time : Nat) : Prop :=
  version = s.current place ∨ time ≤ s.ended place version

private theorem CurrentSince.later
    {version time : Nat} (since : CurrentSince s place version time) (later : Later s s')
    (known : version ≤ s.current place) (past : time ≤ s.clock) :
    CurrentSince s' place version time := by
  rcases Nat.lt_or_eq_of_le known with older | rfl
  · right
    rw [later.ended place version older]
    exact since.resolve_left (Nat.ne_of_lt older)
  · rcases Nat.lt_or_eq_of_le (later.current place) with replaced | same
    · exact .inr (Nat.le_trans past (later.replaced place replaced))
    · exact .inl same

/-- An entry of the cache is not stamped later than its version was current. -/
structure Kept (s : State Warehouse Table Token Task) (place : Warehouse × Table)
    (e : Entry) : Prop extends Fetched s place e where
  past : e.validatedAt ≤ s.clock
  since : CurrentSince s place e.version e.validatedAt

theorem Kept.later {e : Entry} (kept : Kept s place e) (later : Later s s') : Kept s' place e where
  toFetched := kept.toFetched.later later
  past := Nat.le_trans kept.past later.clock
  since := kept.since.later later kept.known kept.past

/-- The parts of a snapshot that invalidations of a whole table raise are bounded. -/
def CacheGeneration.Within (bound : Nat) (snap : CacheGeneration) : Prop :=
  snap.global ≤ bound ∧ snap.table ≤ bound

def Progress.Within (bound : Nat) : Progress → Prop
  | .start => True
  | .global g => g ≤ bound
  | .tableAbsent g => g ≤ bound
  | .table g t => g ≤ bound ∧ t ≤ bound
  | .keyAbsent g t => g ≤ bound ∧ t ≤ bound

section Invariant

variable (softTtl : Nat) (jitter : Key Warehouse Table Token → Nat)
variable (key : Task → Key Warehouse Table Token) (scope : Task → Scope Warehouse Table Token)

/-- What a load that waits before its next step holds. -/
def PhaseOk (s : State Warehouse Table Token Task) (k : Key Warehouse Table Token)
    (startedAt : Nat) : Phase → Prop
  | .snapshot p => p.Within s.gens.counter
  | .getFresh snap => snap.Within s.gens.counter
  | .getStale snap => snap.Within s.gens.counter
  | .conditional snap stale etag =>
    snap.Within s.gens.counter ∧ etag ≤ stale.version ∧ Fetched s k.place stale ∧
      Fenced scope s k startedAt stale.drawn
  | .fullLoad snap etag =>
    snap.Within s.gens.counter ∧ ∀ v, etag = some v → v ≤ s.current k.place
  | .check snap (.insert e) _ => snap.Within e.drawn ∧ Fetched s k.place e
  -- A fetched table is inserted as it is, without reading the entry first.
  | .copy _ (.insert _) => False
  | .write snap (.insert _) e => snap.Within e.drawn ∧ Fetched s k.place e
  | _ => True

/-- An invalidation that is past its bump has removed the entry, will, or is older than it. -/
def Evicted (e : Entry) : Stage Warehouse Table Token → Prop
  | .evicting stamp keys => stamp ≤ e.drawn ∨ k ∈ keys
  | .returned stamp => stamp ≤ e.drawn
  | _ => True

def CacheOk (s : State Warehouse Table Token Task)
    (cache : List (Key Warehouse Table Token × Entry)) : Prop :=
  ∀ k e, (k, e) ∈ cache → Kept s k.place e ∧
    ∀ i, (scope i).Covers k → Evicted k e (s.invalidation i).stage

structure ResultOk (s : State Warehouse Table Token Task) (r : Result Warehouse Table Token) :
    Prop where
  begun : r.startedAt ≤ s.steps
  past : r.startedClock ≤ s.clock
  known : r.version ≤ s.current r.key.place
  dated : Dated s r.drawn r.fetchedAt
  fenced : Fenced scope s r.key r.startedAt r.drawn
  since : CurrentSince s r.key.place r.version (r.startedClock - softTtl)

variable (gens : Generations Warehouse Table Token)

/-- The stamp stands in the generation that the scope raises. -/
def Raised (stamp : Nat) :
    Scope Warehouse Table Token → Prop
  | .allTokens t => stamp ≤ gens.ofTable t
  | .all => stamp ≤ gens.global
  | .key _ => True

def Stage.bumped? : Stage Warehouse Table Token → Option Nat
  | .bumped stamp => some stamp
  | .evicting stamp _ => some stamp
  | .returned stamp => some stamp
  | _ => none

structure Bounded : Prop where
  global : gens.global ≤ gens.counter
  floor : gens.pruneFloor ≤ gens.counter
  tables : ∀ t g, gens.tables t = some g → g ≤ gens.counter

structure Invariant (s : State Warehouse Table Token Task) : Prop where
  bounded : Bounded s.gens
  stamped : ∀ i stamp, (s.invalidation i).stage.stamp? = some stamp → stamp ≤ s.gens.counter
  started : ∀ i, (s.invalidation i).startedAt ≤ s.steps
  raised : ∀ i stamp, (s.invalidation i).stage.bumped? = some stamp →
    Raised s.gens stamp (scope i)
  begun : ∀ task, (s.load task).startedAt ≤ s.steps ∧ (s.load task).startedClock ≤ s.clock
  phase : ∀ task, PhaseOk scope s (key task) (s.load task).startedAt (s.load task).phase
  cache : CacheOk scope s s.cache
  results : ∀ r ∈ s.results, ResultOk softTtl scope s r
  history : ∀ p v, v < s.current p → s.ended p v ≤ s.clock ∧
    ∀ earlier ≤ v, s.ended p earlier ≤ s.ended p v

variable {softTtl jitter key scope}

private theorem CacheGeneration.Within.mono {bound bound' : Nat} {snap : CacheGeneration}
    (within : snap.Within bound) (more : bound ≤ bound') : snap.Within bound' :=
  ⟨Nat.le_trans within.1 more, Nat.le_trans within.2 more⟩

private theorem Progress.Within.mono {bound bound' : Nat} {p : Progress} (within : p.Within bound)
    (more : bound ≤ bound') : p.Within bound' := by
  cases p <;> simp only [Progress.Within] at within ⊢ <;> omega

variable {cache : List (Key Warehouse Table Token × Entry)} {k : Key Warehouse Table Token}

theorem PhaseOk.later {startedAt : Nat} {phase : Phase} (ok : PhaseOk scope s k startedAt phase)
    (later : Later s s') (begun : startedAt ≤ s.steps) : PhaseOk scope s' k startedAt phase := by
  cases phase with
  | snapshot p => exact Progress.Within.mono ok later.counter
  | getFresh snap => exact CacheGeneration.Within.mono ok later.counter
  | getStale snap => exact CacheGeneration.Within.mono ok later.counter
  | conditional snap stale etag =>
    obtain ⟨within, tagged, fetched, fenced⟩ := ok
    exact ⟨within.mono later.counter, tagged, fetched.later later, fenced.later later begun⟩
  | fullLoad snap etag =>
    exact ⟨ok.1.mono later.counter, fun v has => Nat.le_trans (ok.2 v has) (later.current _)⟩
  | check snap w p =>
    cases w with
    | insert e => exact ⟨ok.1, ok.2.later later⟩
    | stamp => trivial
    | etag value => trivial
  | copy snap w =>
    cases w with
    | insert e => exact ok.elim
    | stamp => trivial
    | etag value => trivial
  | write snap w e =>
    cases w with
    | insert first => exact ⟨ok.1, ok.2.later later⟩
    | stamp => trivial
    | etag value => trivial
  | _ => trivial

theorem ResultOk.later {r : Result Warehouse Table Token}
    (ok : ResultOk softTtl scope s r) (later : Later s s') : ResultOk softTtl scope s' r where
  begun := Nat.le_trans ok.begun later.steps
  past := Nat.le_trans ok.past later.clock
  known := Nat.le_trans ok.known (later.current _)
  dated := ok.dated.later later
  fenced := ok.fenced.later later ok.begun
  since := ok.since.later later ok.known (Nat.le_trans (Nat.sub_le _ _) ok.past)

theorem CacheOk.later (ok : CacheOk scope s cache)
    (later : Later s s') (same : s'.invalidation = s.invalidation) : CacheOk scope s' cache := by
  intro k e cached
  obtain ⟨kept, evicted⟩ := ok k e cached
  exact ⟨kept.later later, fun i covers => same ▸ evicted i covers⟩

variable {task : Task} {phase : Phase}

private theorem readNext_within {gens : Generations Warehouse Table Token} (bounded : Bounded gens)
    (k : Key Warehouse Table Token) {p : Progress} (within : p.Within gens.counter) :
    (∀ p', readNext gens k p = .inl p' → p'.Within gens.counter) ∧
      ∀ snap, readNext gens k p = .inr snap → snap.Within gens.counter := by
  cases p with
  | start => exact ⟨by rintro _ ⟨⟩; exact bounded.global, nofun⟩
  | global g =>
    simp only [readNext]
    cases has : gens.tables k.table with
    | none => exact ⟨by rintro _ ⟨⟩; exact within, nofun⟩
    | some t => exact ⟨by rintro _ ⟨⟩; exact ⟨within, bounded.tables _ t has⟩, nofun⟩
  | tableAbsent g => exact ⟨by rintro _ ⟨⟩; exact ⟨within, bounded.floor⟩, nofun⟩
  | table g t =>
    simp only [readNext]
    cases gens.keys k with
    | none => exact ⟨by rintro _ ⟨⟩; exact within, nofun⟩
    | some v => exact ⟨nofun, by rintro _ ⟨⟩; exact within⟩
  | keyAbsent g t => exact ⟨nofun, by rintro _ ⟨⟩; exact within⟩

private theorem Raised.le_drawn {gens : Generations Warehouse Table Token} {stamp drawn : Nat}
    {sc : Scope Warehouse Table Token} {k : Key Warehouse Table Token}
    (raised : Raised gens stamp sc) (covers : sc.Covers k) (global : gens.global ≤ drawn)
    (table : gens.ofTable k.table ≤ drawn) : stamp ≤ drawn := by
  cases sc with
  | allTokens t => exact Nat.le_trans raised (covers ▸ table)
  | all => exact Nat.le_trans raised global
  | key _ => exact covers.elim

section

variable (inv : Invariant softTtl key scope s)
include inv

private theorem Invariant.fenced_now (k : Key Warehouse Table Token)
    (startedAt : Nat) : Fenced scope s k startedAt s.gens.counter := by
  intro i stamp _ returned _
  exact inv.stamped i stamp (by rw [returned]; rfl)

private theorem Invariant.dated_now : Dated s s.gens.counter s.steps :=
  ⟨Nat.le_refl _, fun i _ _ _ => inv.started i⟩

private theorem Invariant.fenced_cached
    {k : Key Warehouse Table Token} {e : Entry} (cached : (k, e) ∈ s.cache) (startedAt : Nat) :
    Fenced scope s k startedAt e.drawn := by
  intro i stamp covers returned _
  have evicted := (inv.cache k e cached).2 i covers
  rw [returned] at evicted
  exact evicted

end

section Moves

variable [DecidableEq Task]

/-- What a step of a load changes, and that all of it is in order. -/
def Moves (softTtl : Nat) (key : Task → Key Warehouse Table Token)
    (scope : Task → Scope Warehouse Table Token) (s : State Warehouse Table Token Task)
    (task : Task) (s' : State Warehouse Table Token Task) : Prop :=
  ∃ phase cache results,
    s' = { s with
      load := Function.update s.load task { s.load task with phase := phase }
      cache := cache
      results := results } ∧
    PhaseOk scope s (key task) (s.load task).startedAt phase ∧ CacheOk scope s cache ∧
    ∀ r ∈ results, ResultOk softTtl scope s r

variable {version fetchedAt drawn : Nat} (inv : Invariant softTtl key scope s)
  (ok : PhaseOk scope s (key task) (s.load task).startedAt phase)
include inv ok

private theorem Invariant.goes : Moves softTtl key scope s task (s.goes task phase) :=
  ⟨phase, s.cache, s.results, rfl, ok, inv.cache, inv.results⟩

private theorem Invariant.gives
    (known : version ≤ s.current (key task).place) (dated : Dated s drawn fetchedAt)
    (fenced : Fenced scope s (key task) (s.load task).startedAt drawn)
    (since : CurrentSince s (key task).place version ((s.load task).startedClock - softTtl)) :
    Moves softTtl key scope s task
      ((s.gives key task version fetchedAt drawn).goes task phase) :=
  ⟨phase, s.cache, _, rfl, ok, inv.cache, forall_mem_cons.mpr
    ⟨⟨(inv.begun task).1, (inv.begun task).2, known, dated, fenced, since⟩, inv.results⟩⟩

private theorem Invariant.caches (cached : CacheOk scope s cache) :
    Moves softTtl key scope s task ({ s with cache := cache }.goes task phase) :=
  ⟨phase, cache, s.results, rfl, ok, cached, inv.results⟩

end Moves

variable [DecidableEq Warehouse] [DecidableEq Table] [DecidableEq Token]

private theorem mem_of_get {e : Entry} (found : get cache k = some e) : (k, e) ∈ cache := by
  obtain ⟨-, -, rfl, -⟩ := lookup_eq_some_iff.mp found
  exact mem_append_right _ mem_cons_self

theorem CacheOk.invalidate (ok : CacheOk scope s cache)
    (k : Key Warehouse Table Token) : CacheOk scope s (invalidate cache k) :=
  fun k' e cached => ok k' e (mem_filter.mp cached).1

private theorem CacheOk.insert (ok : CacheOk scope s cache) {e : Entry}
    (new : Kept s k.place e ∧ ∀ i, (scope i).Covers k → Evicted k e (s.invalidation i).stage) :
    CacheOk scope s (insert cache k e) := by
  intro k' e' cached
  rcases mem_cons.mp cached with written | earlier
  · cases written
    exact new
  · exact ok.invalidate k k' e' earlier

private theorem Invariant.write_ok (inv : Invariant softTtl key scope s) {snap : CacheGeneration}
    {w : Write} {e : Entry} (phase : (s.load task).phase = .write snap w e)
    (global : snap.global = s.gens.global)
    (table : snap.table = s.gens.ofTable (key task).table) (stands : w.Stands s (key task) e) :
    Kept s (key task).place (w.apply s.clock e) ∧ ∀ i, (scope i).Covers (key task) →
      Evicted (key task) (w.apply s.clock e) (s.invalidation i).stage := by
  have held := inv.phase task
  rw [phase] at held
  cases w with
  | insert first =>
    obtain ⟨within, fetched⟩ := held
    refine ⟨⟨⟨fetched.known, fetched.etag, fetched.dated⟩, Nat.le_refl _, .inl stands⟩,
      fun i covers => ?_⟩
    -- A stamp past its bump stands in the generations, and those are the snapshot's.
    have older : ∀ stamp, (s.invalidation i).stage.bumped? = some stamp → stamp ≤ e.drawn :=
      fun stamp has => (inv.raised i stamp has).le_drawn covers (global ▸ within.1)
        (table ▸ within.2)
    cases stage : (s.invalidation i).stage with
    | evicting stamp keys => exact .inl (older stamp (by rw [stage]; rfl))
    | returned stamp => exact older stamp (by rw [stage]; rfl)
    | _ => trivial
  | stamp =>
    obtain ⟨kept, evicted⟩ := inv.cache _ _ (mem_of_get stands.1)
    exact ⟨⟨⟨kept.known, kept.etag, kept.dated⟩, Nat.le_refl _, .inl stands.2⟩, evicted⟩
  | etag value =>
    obtain ⟨kept, evicted⟩ := inv.cache _ _ (mem_of_get stands.1)
    exact ⟨⟨⟨kept.known, stands.2, kept.dated⟩, kept.past, kept.since⟩, evicted⟩

theorem advance_moves [DecidableEq Task] (inv : Invariant softTtl key scope s) {answer : Answer}
    (clear : Clear key scope s (.advance task answer))
    (taken : advance softTtl jitter key s task answer = some s') :
    Moves softTtl key scope s task s' := by
  have held {p : Phase} (at_ : (s.load task).phase = p) :
      PhaseOk scope s (key task) (s.load task).startedAt p := at_ ▸ inv.phase task
  revert taken
  -- the steps that are taken, in the order of `advance`, less those that go where nothing is held
  fun_cases advance softTtl jitter key s task answer <;> rintro ⟨⟩
  all_goals try exact inv.goes trivial
  next at_ p read => exact inv.goes ((readNext_within inv.bounded (key task) (held at_)).1 p read)
  next at_ snap read =>
    exact inv.goes ((readNext_within inv.bounded (key task) (held at_)).2 snap read)
  next e found fresh =>
    have cached := mem_of_get found
    have kept := (inv.cache (key task) e cached).1
    refine inv.gives trivial kept.known kept.dated (inv.fenced_cached cached _) ?_
    have younger := of_decide_eq_true
      (show isFresh softTtl jitter s.clock (key task) e = true from fresh)
    have begun := (inv.begun task).2
    exact kept.since.imp_right fun since => by omega
  next at_ _ _ _ =>
    have here := held at_
    exact inv.goes here
  next at_ _ =>
    have here := held at_
    exact inv.goes here
  next at_ e found etag tagged =>
    have cached := mem_of_get found
    have kept := (inv.cache _ e cached).1
    exact inv.goes ⟨held at_, kept.etag etag tagged, kept.toFetched, inv.fenced_cached cached _⟩
  next at_ _ _ _ => exact inv.goes ⟨held at_, by simp⟩
  next at_ _ => exact inv.goes ⟨held at_, by simp⟩
  next at_ =>
    -- The ETag is of the stale version or an earlier one, and of the current one.
    obtain ⟨-, tagged, fetched, fenced⟩ := held at_
    exact inv.gives trivial fetched.known fetched.dated fenced
      (.inl (Nat.le_antisymm fetched.known tagged))
  next at_ header =>
    refine inv.goes ⟨(held at_).1, fun v has => ?_⟩
    cases header with
    | true => cases has; exact Nat.le_refl _
    | false => cases has
  next at_ => exact inv.goes ⟨(held at_).1, by simp⟩
  next at_ _ _ =>
    obtain ⟨within, tagged⟩ := held at_
    exact inv.gives ⟨within, Nat.le_refl _, tagged, inv.dated_now⟩ (Nat.le_refl _)
      inv.dated_now (inv.fenced_now _ _) (.inl rfl)
  next w _ at_ _ _ =>
    have here := held at_
    exact inv.goes (by cases w <;> exact here)
  next at_ =>
    have here := held at_
    exact inv.goes here
  next w _ _ _ other _ =>
    cases w with
    | insert e => exact (other e rfl).elim
    | _ => exact inv.goes trivial
  next w at_ e found =>
    have here := held at_
    cases w with
    | insert e => exact here.elim
    | _ => exact inv.goes trivial
  next at_ =>
    simp only [Clear, at_, Phase.Clear] at clear
    obtain ⟨global, table, stands⟩ := clear
    exact inv.caches trivial (inv.cache.insert (inv.write_ok at_ global table stands))
  · exact inv.caches trivial (inv.cache.invalidate _)

end Invariant

end Sqe.Catalog.MetadataCache
