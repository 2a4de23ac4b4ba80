/- GID: Sqe/Catalog/TimeTravel
   generality: G
   digest: The snapshot a time-travel clause reads, after any history of the table's refs. -/

import Mathlib.Data.List.Infix
import Sqe.Iceberg.Refs

/-!
One table and the commits to it, in the order the catalog applied them. A commit carries the time of
that, and what the clock of its writer showed, which is the timestamp of the snapshot it adds: the
metadata builder takes one that is up to a minute behind the last, and one that is ahead. A snapshot
is public from the moment a ref reaches it that is no transaction's branch.
-/

set_option autoImplicit false

namespace Sqe.Catalog.TimeTravel

open Sqe.Iceberg.Refs
open Sqe.Iceberg.Refs.TableMetadata (WellFormed mem_of_referenceByName mem_setRef mem_removeRef)
open List

def txnBranchStart : String := "sqe-txn-"

def isTxnRef (name : String) : Bool := txnBranchStart.toList.isPrefixOf name.toList

inductive SqeErrorCode
  | invalidArguments
  | executionFailed
  deriving DecidableEq

structure SqeError where
  code : SqeErrorCode
  message : String
  deriving DecidableEq

def rejectTxnRef (name : String) : Except SqeError Unit :=
  if isTxnRef name then .error ⟨.invalidArguments, s!"'{name}': branch names starting with " ++
    s!"'{txnBranchStart}' are reserved for transactions"⟩
  else .ok ()

def txnPrivateSnapshots (m : TableMetadata) : List SnapshotId :=
  let txnRefs := m.refs.filter fun r => isTxnRef r.1
  let publicRefs := m.refs.filter fun r => !isTxnRef r.1
  if txnRefs.isEmpty then []
  else
    let shared := publicRefs.flatMap fun r => m.ancestry r.2.snapshotId
    (txnRefs.flatMap fun r => m.ancestry r.2.snapshotId).filter fun id => !shared.contains id

inductive VersionRef
  | snapshotId (id : SnapshotId)
  | named (name : String)
  | timestamp (raw : String)
  deriving DecidableEq

/-- The loop over the snapshots, in the order they are listed. -/
def findBest (targetMs : Int) : Option (SnapshotId × Int) → List Snapshot →
    Option (SnapshotId × Int)
  | best, [] => best
  | best, s :: rest => findBest targetMs
      (if s.timestampMs ≤ targetMs ∧ best.all (fun b => b.2 < s.timestampMs) then
        some (s.snapshotId, s.timestampMs) else best) rest

def findSnapshotAtTimestamp (listed : List Snapshot) (targetMs : Int) :
    Except SqeError SnapshotId :=
  match findBest targetMs none listed with
  | some (id, _) => .ok id
  | none => .error ⟨.executionFailed,
      s!"No Iceberg snapshot found at or before timestamp {targetMs}ms. " ++
      "The table may not have existed yet at that point in time."⟩

variable (timeTravelMillis : String → Except SqeError Int)

/-- `time_travel_millis` is a parameter, and so is the order in which the snapshots are listed. -/
def resolveVersionSnapshot
    (listed : List Snapshot) (m : TableMetadata) (version : VersionRef) (table : String) :
    Except SqeError SnapshotId :=
  match version with
  | .snapshotId id =>
    if (snapshotById m.snapshots id).isNone || (txnPrivateSnapshots m).contains id then
      .error ⟨.executionFailed, s!"FOR VERSION AS OF {id}: snapshot id not found on {table}"⟩
    else .ok id
  | .named name => do
    rejectTxnRef name
    match m.referenceByName name with
    | none => .error ⟨.executionFailed,
        s!"FOR VERSION AS OF '{name}': no branch or tag with that name on {table}"⟩
    | some reference => .ok reference.snapshotId
  | .timestamp raw => do
    let targetMs ← timeTravelMillis raw
    findSnapshotAtTimestamp listed targetMs

def resolveSnapshotId (m : TableMetadata) : Option SnapshotId → Option SnapshotId
  | some id =>
    if (snapshotById m.snapshots id).isNone || (txnPrivateSnapshots m).contains id then none
    else some id
  | none => m.currentSnapshotId

inductive Change
  /-- A write in autocommit. -/
  | append (id : SnapshotId)
  /-- A write of a session that has set its write branch. -/
  | write (branch : String) (id : SnapshotId)
  /-- CREATE BRANCH or CREATE TAG. -/
  | createRef (name : String) (retention : SnapshotRetention) (given : Option SnapshotId)
  | dropRef (name : String)
  /-- `set_current_snapshot` and `rollback_to_snapshot`. -/
  | moveMain (id : SnapshotId)
  /-- The first write of a transaction to the table creates its branch. -/
  | startTxn (branch : String)
  | txnWrite (branch : String) (id : SnapshotId)
  /-- COMMIT, which expects `main` where the transaction found it. -/
  | publish (branch : String) (base : Option SnapshotId)
  /-- ROLLBACK, or a transaction that ends without one. -/
  | discard (branch : String)
  deriving DecidableEq

structure Commit where
  time : Int
  clock : Int
  change : Change
  deriving DecidableEq

/-- A new snapshot on top of the branch; the id has to be new. -/
def commitTo (m : TableMetadata) (branch : String) (id : SnapshotId) (time : Int) : TableMetadata :=
  if (snapshotById m.snapshots id).isSome then m
  else (m.addSnapshot ⟨id, (m.referenceByName branch).map SnapshotReference.snapshotId,
    time⟩).setRef branch ⟨id, .branch⟩

/-- A change that is refused leaves the table as it is. -/
def step (m : TableMetadata) (c : Commit) : TableMetadata :=
  match c.change with
  | .append id => commitTo m mainBranch id c.clock
  | .write branch id =>
    if isTxnRef branch || (m.referenceByName branch).all fun r => r.retention ≠ .branch then m
    else commitTo m branch id c.clock
  | .createRef name retention given =>
    if isTxnRef name then m
    else match resolveSnapshotId m given with
      | none => m
      | some id => m.setRef name ⟨id, retention⟩
  | .dropRef name => if name = mainBranch then m else m.removeRef name
  | .moveMain id =>
    if (snapshotById m.snapshots id).isSome then m.setRef mainBranch ⟨id, .branch⟩ else m
  | .startTxn branch =>
    if !isTxnRef branch then m
    else match m.currentSnapshotId with
      | none => m
      | some base => m.setRef branch ⟨base, .branch⟩
  | .txnWrite branch id => if isTxnRef branch then commitTo m branch id c.clock else m
  | .publish branch base =>
    if !isTxnRef branch || m.currentSnapshotId ≠ base then m
    else match m.referenceByName branch with
      | none => m
      | some reference => (m.setRef mainBranch ⟨reference.snapshotId, .branch⟩).removeRef branch
  | .discard branch => if isTxnRef branch then m.removeRef branch else m

def run (commits : List Commit) : TableMetadata := commits.foldl step ⟨[], []⟩

def upTo (commits : List Commit) (time : Int) : List Commit :=
  commits.takeWhile fun c => c.time ≤ time

def IsPublic (m : TableMetadata) (id : SnapshotId) : Prop :=
  ∃ r ∈ m.refs, isTxnRef r.1 = false ∧ Reaches m.snapshots r.2.snapshotId id

def EverPublic (commits : List Commit) (id : SnapshotId) : Prop :=
  ∃ earlier, earlier <+: commits ∧ IsPublic (run earlier) id

def mainAt (commits : List Commit) (time : Int) : Option SnapshotId :=
  (run (upTo commits time)).currentSnapshotId

/-- The branch that the change takes away or sets anew. -/
def Change.clears : Change → Option String
  | .dropRef name => some name
  | .discard branch => some branch
  | .startTxn branch => some branch
  | _ => none

/-- The change takes a transaction's branch away from which alone the snapshot is reached. -/
def Strands (m : TableMetadata) (change : Change) (id : SnapshotId) : Prop :=
  id ∈ txnPrivateSnapshots m ∧ ∃ r ∈ m.refs, change.clears = some r.1 ∧ isTxnRef r.1 = true ∧
    id ∈ m.ancestry r.2.snapshotId

/-- The change sets `main`, a branch or a tag to a snapshot from which the given one is reached. -/
def Change.Exposes (m : TableMetadata) (id : SnapshotId) : Change → Prop
  | .createRef name _ (some head) =>
    isTxnRef name = false ∧ head ∉ txnPrivateSnapshots m ∧ id ∈ m.ancestry head
  | .moveMain head => id ∈ m.ancestry head
  | _ => False

/-- Of the snapshots with a timestamp up to the time, the one that `main` pointed to then is the
latest. -/
def MainIsLatest (commits : List Commit) (time : Int) : Prop :=
  ∀ s ∈ (run commits).snapshots, s.timestampMs ≤ time → mainAt commits time = some s.snapshotId ∨
    ∃ main ∈ (run commits).snapshots, mainAt commits time = some main.snapshotId ∧
      s.timestampMs < main.timestampMs ∧ main.timestampMs ≤ time

/-- What is asked of the history, by what the clause names. -/
def Clean (commits : List Commit) : VersionRef → Prop
  | .snapshotId id => ∀ earlier c, earlier ++ [c] <+: commits →
      Strands (run earlier) c.change id → EverPublic earlier id ∨
        ∃ later c', earlier ++ [c] <+: later ∧ later ++ [c'] <+: commits ∧
          c'.change.Exposes (run later) id
  | .named _ => True
  | .timestamp raw => ∀ time, timeTravelMillis raw = .ok time → MainIsLatest commits time

private theorem run_append (commits : List Commit) (c : Commit) :
    run (commits ++ [c]) = step (run commits) c := by
  rw [run, foldl_append]
  rfl

private theorem isTxnRef_mainBranch : isTxnRef mainBranch = false := by decide

variable {m m' : TableMetadata} {c : Commit} {id : SnapshotId}

private theorem currentSnapshotId_listed (wf : m.WellFormed)
    (current : m.currentSnapshotId = some id) : id ∈ m.snapshots.map Snapshot.snapshotId := by
  obtain ⟨r, found, rfl⟩ := Option.map_eq_some_iff.mp current
  exact wf.listed _ (mem_of_referenceByName found)

private theorem resolveSnapshotId_listed (wf : m.WellFormed)
    {given : Option SnapshotId} (resolved : resolveSnapshotId m given = some id) :
    id ∈ m.snapshots.map Snapshot.snapshotId := by
  cases given with
  | none => exact currentSnapshotId_listed wf resolved
  | some given =>
    dsimp only [resolveSnapshotId] at resolved
    split at resolved
    · cases resolved
    next present =>
      obtain rfl := Option.some.inj resolved
      simp only [Bool.or_eq_true, not_or, Option.isNone_iff_eq_none] at present
      exact snapshotById_isSome_iff.mp (Option.isSome_iff_ne_none.mpr present.1)

inductive Stepped (m : TableMetadata) (c : Commit) : TableMetadata → Prop
  | refused : Stepped m c m
  /-- A snapshot on top of a branch. -/
  | added (branch : String) (id : SnapshotId)
      (fresh : id ∉ m.snapshots.map Snapshot.snapshotId) :
      Stepped m c ((m.addSnapshot ⟨id, (m.referenceByName branch).map SnapshotReference.snapshotId,
        c.clock⟩).setRef branch ⟨id, .branch⟩)
  /-- A public ref is set to a snapshot there is. -/
  | set (name : String) (reference : SnapshotReference) (isPublic : isTxnRef name = false)
      (listed : reference.snapshotId ∈ m.snapshots.map Snapshot.snapshotId) :
      Stepped m c (m.setRef name reference)
  | started (branch : String) (base : SnapshotId) (clears : c.change.clears = some branch)
      (listed : base ∈ m.snapshots.map Snapshot.snapshotId) :
      Stepped m c (m.setRef branch ⟨base, .branch⟩)
  | removed (name : String) (clears : c.change.clears = some name) : Stepped m c (m.removeRef name)
  | published (branch : String) (reference : SnapshotReference)
      (found : m.referenceByName branch = some reference) :
      Stepped m c ((m.setRef mainBranch ⟨reference.snapshotId, .branch⟩).removeRef branch)

private theorem stepped_commitTo (branch : String) (id : SnapshotId) :
    Stepped m c (commitTo m branch id c.clock) := by
  unfold commitTo
  split
  · exact .refused
  next absent => exact .added branch id fun listed => absent (snapshotById_isSome_iff.mpr listed)

private theorem stepped (wf : m.WellFormed) (c : Commit) : Stepped m c (step m c) := by
  obtain ⟨time, clock, change⟩ := c
  fun_cases step m ⟨time, clock, change⟩
  all_goals try exact .refused
  -- the commits that are not refused, in the order of `step`
  next id is => cases is; exact stepped_commitTo mainBranch id
  next branch id is _ => cases is; exact stepped_commitTo branch id
  next name retention given is isPublic id resolved =>
    exact .set name ⟨id, retention⟩ (Bool.eq_false_iff.mpr isPublic)
      (resolveSnapshotId_listed wf resolved)
  next name is _ => exact .removed name (by rw [is]; rfl)
  next id is present =>
    exact .set mainBranch ⟨id, .branch⟩ (by decide) (snapshotById_isSome_iff.mp present)
  next branch is _ base current =>
    exact .started branch base (by rw [is]; rfl) (currentSnapshotId_listed wf current)
  next branch id is _ => cases is; exact stepped_commitTo branch id
  next branch base is _ reference found => exact .published branch reference found
  next branch is _ => exact .removed branch (by rw [is]; rfl)

private theorem Stepped.wellFormed (wf : m.WellFormed) (taken : Stepped m c m') :
    m'.WellFormed := by
  cases taken with
  | refused => exact wf
  | added branch id fresh =>
    refine (wf.addSnapshot fresh fun p child => ?_).setRef mem_cons_self
    obtain ⟨r, found, rfl⟩ := Option.map_eq_some_iff.mp child
    exact wf.listed _ (mem_of_referenceByName found)
  | set name reference isPublic listed => exact wf.setRef listed
  | started branch base clears listed => exact wf.setRef listed
  | removed name clears => exact wf.removeRef
  | published branch reference found =>
    have listed := wf.listed _ (mem_of_referenceByName found)
    exact WellFormed.removeRef (WellFormed.setRef wf listed)

private theorem wellFormed_run (commits : List Commit) : (run commits).WellFormed := by
  induction commits using List.reverseRecOn with
  | nil => exact ⟨trivial, by simp [run], by simp [run]⟩
  | append_singleton commits c ih =>
    rw [run_append]
    exact (stepped ih c).wellFormed ih

def Held (m : TableMetadata) (id : SnapshotId) : Prop :=
  ∃ r ∈ m.refs, isTxnRef r.1 = true ∧ Reaches m.snapshots r.2.snapshotId id

section Held

private theorem isPublic_of_not_private (wf : m.WellFormed)
    (listed : id ∈ m.snapshots.map Snapshot.snapshotId) {r : String × SnapshotReference}
    (member : r ∈ m.refs) (isTxn : isTxnRef r.1 = true)
    (reached : Reaches m.snapshots r.2.snapshotId id) (shown : id ∉ txnPrivateSnapshots m) :
    IsPublic m id := by
  have txn : r ∈ m.refs.filter fun r => isTxnRef r.1 := mem_filter.mpr ⟨member, isTxn⟩
  have walked := mem_ancestry_of_reaches wf.parented reached listed
  unfold txnPrivateSnapshots at shown
  dsimp only at shown
  rw [if_neg (by simpa using ne_nil_of_mem txn), mem_filter] at shown
  have shared : id ∈ (m.refs.filter fun r => !isTxnRef r.1).flatMap
      fun r => m.ancestry r.2.snapshotId := by
    by_contra missing
    exact shown ⟨mem_flatMap.mpr ⟨r, txn, walked⟩, by simpa using missing⟩
  obtain ⟨p, found, walk⟩ := mem_flatMap.mp shared
  obtain ⟨there, isPublic⟩ := mem_filter.mp found
  exact ⟨p, there, by simpa using isPublic, reaches_of_mem_ancestry walk⟩

private theorem Stepped.held (wf : m.WellFormed) (taken : Stepped m c m')
    (kept : ¬ Strands m c.change id)
    (listed : id ∈ m.snapshots.map Snapshot.snapshotId) (held : Held m id) :
    IsPublic m id ∨ IsPublic m' id ∨ Held m' id := by
  obtain ⟨r, member, isTxn, reached⟩ := held
  have cleared (clears : c.change.clears = some r.1) : IsPublic m id :=
    isPublic_of_not_private wf listed member isTxn reached fun hidden => kept
      ⟨hidden, r, member, clears, isTxn, mem_ancestry_of_reaches wf.parented reached listed⟩
  have notMain : r.1 ≠ mainBranch := by
    intro main
    rw [main, isTxnRef_mainBranch] at isTxn
    cases isTxn
  cases taken with
  | refused => exact .inr (.inr ⟨r, member, isTxn, reached⟩)
  | added branch fresh unused =>
    refine .inr (.inr ?_)
    by_cases same : r.1 = branch
    · -- the branch goes on from where it was
      subst same
      refine ⟨_, mem_setRef.mpr (.inl rfl), isTxn, ?_⟩
      refine .parent _ (find?_cons_of_pos (by simp)) ?_ (reached.add unused)
      simp [wf.named r member]
    · exact ⟨r, mem_setRef.mpr (.inr ⟨member, same⟩), isTxn, reached.add unused⟩
  | set name reference isPublic _ =>
    refine .inr (.inr ⟨r, mem_setRef.mpr (.inr ⟨member, ?_⟩), isTxn, reached⟩)
    rintro rfl
    rw [isPublic] at isTxn
    cases isTxn
  | started branch base clears _ =>
    by_cases same : r.1 = branch
    · exact .inl (cleared (same ▸ clears))
    · exact .inr (.inr ⟨r, mem_setRef.mpr (.inr ⟨member, same⟩), isTxn, reached⟩)
  | removed name clears =>
    by_cases same : r.1 = name
    · exact .inl (cleared (same ▸ clears))
    · exact .inr (.inr ⟨r, mem_removeRef.mpr ⟨member, same⟩, isTxn, reached⟩)
  | published branch reference found =>
    by_cases same : r.1 = branch
    · subst same
      obtain rfl := Option.some.inj (found.symm.trans (wf.named r member))
      exact .inr (.inl ⟨_, mem_removeRef.mpr ⟨mem_setRef.mpr (.inl rfl), notMain.symm⟩,
        isTxnRef_mainBranch, reached⟩)
    · exact .inr (.inr ⟨r, mem_removeRef.mpr ⟨mem_setRef.mpr (.inr ⟨member, notMain⟩), same⟩,
        isTxn, reached⟩)

private theorem Stepped.fresh (taken : Stepped m c m')
    (listed : id ∈ m'.snapshots.map Snapshot.snapshotId)
    (unlisted : id ∉ m.snapshots.map Snapshot.snapshotId) : IsPublic m' id ∨ Held m' id := by
  cases taken with
  | added branch new unused =>
    rcases mem_cons.mp listed with rfl | old
    · cases isTxn : isTxnRef branch with
      | false => exact .inl ⟨_, mem_setRef.mpr (.inl rfl), isTxn, .head _⟩
      | true => exact .inr ⟨_, mem_setRef.mpr (.inl rfl), isTxn, .head _⟩
    · exact absurd old unlisted
  | _ => exact absurd listed unlisted

end Held

variable {commits : List Commit} {time : Int}

private theorem snapshotById_of_mem_ancestry {head : SnapshotId} (walked : id ∈ m.ancestry head) :
    (snapshotById m.snapshots head).isSome = true := by
  unfold TableMetadata.ancestry at walked
  cases count : m.snapshots.length with
  | zero => rw [count] at walked; cases walked
  | succ fuel =>
    rw [count] at walked
    obtain ⟨s, found, -⟩ := mem_ancestry_succ.mp walked
    rw [found]
    rfl

private theorem isPublic_setRef {name : String} {head : SnapshotId} (retention : SnapshotRetention)
    (isPublic : isTxnRef name = false) (walked : id ∈ m.ancestry head) :
    IsPublic (m.setRef name ⟨head, retention⟩) id :=
  ⟨_, mem_setRef.mpr (.inl rfl), isPublic, reaches_of_mem_ancestry walked⟩

private theorem isPublic_of_exposes (exposes : c.change.Exposes m id) : IsPublic (step m c) id := by
  obtain ⟨time, clock, change⟩ := c
  cases change with
  | createRef name retention given =>
    cases given with
    | none => cases exposes
    | some head =>
      obtain ⟨isPublic, shown, walked⟩ := exposes
      have present := Option.isSome_iff_ne_none.mp (snapshotById_of_mem_ancestry walked)
      have resolved : resolveSnapshotId m (some head) = some head :=
        if_neg (by simp [present, shown])
      simp only [step, isPublic, resolved, Bool.false_eq_true, if_false]
      exact isPublic_setRef retention isPublic walked
  | moveMain head =>
    simp only [step, snapshotById_of_mem_ancestry exposes, if_true]
    exact isPublic_setRef .branch isTxnRef_mainBranch exposes
  | append | write | dropRef | startTxn | txnWrite | publish | discard => cases exposes

private theorem EverPublic.of_now (now : IsPublic (run commits) id) : EverPublic commits id :=
  ⟨commits, prefix_rfl, now⟩

private theorem EverPublic.later {more : List Commit} (ever : EverPublic commits id)
    (longer : commits <+: more) : EverPublic more id := by
  obtain ⟨earlier, before, now⟩ := ever
  exact ⟨earlier, before.trans longer, now⟩

private theorem everPublic_or_held
    (kept : ∀ earlier c, earlier ++ [c] <+: commits → ¬ Strands (run earlier) c.change id)
    (listed : id ∈ (run commits).snapshots.map Snapshot.snapshotId) :
    EverPublic commits id ∨ Held (run commits) id := by
  induction commits using List.reverseRecOn with
  | nil => cases listed
  | append_singleton commits c ih =>
    have wf := wellFormed_run commits
    have taken := stepped wf c
    rw [← run_append] at taken
    by_cases old : id ∈ (run commits).snapshots.map Snapshot.snapshotId
    · rcases ih (fun earlier c' before => kept earlier c'
          (before.trans (prefix_append _ _))) old with ever | held
      · exact .inl (ever.later (prefix_append _ _))
      · rcases taken.held wf (kept commits c prefix_rfl) old held with was | is | stays
        · exact .inl ((EverPublic.of_now was).later (prefix_append _ _))
        · exact .inl (.of_now is)
        · exact .inr stays
    · exact (taken.fresh listed old).imp_left .of_now

private theorem findBest_spec {target : Int} {best : Option (SnapshotId × Int)}
    {listed : List Snapshot} (found : findBest target best listed = some (id, time)) :
    (best = some (id, time) ∨ ∃ s ∈ listed, s.timestampMs ≤ target ∧ s.snapshotId = id ∧
      s.timestampMs = time) ∧ (∀ b, best = some b → b.2 ≤ time) ∧
      ∀ s ∈ listed, s.timestampMs ≤ target → s.timestampMs ≤ time := by
  induction listed generalizing best with
  | nil =>
    obtain rfl : best = some (id, time) := found
    refine ⟨.inl rfl, fun b same => ?_, fun s member => nomatch member⟩
    exact Option.some.inj same ▸ Int.le_refl _
  | cons s rest ih =>
    obtain ⟨origin, above, later⟩ := ih found
    split at origin
    next better =>
      rw [if_pos better] at above
      have least : s.timestampMs ≤ time := above _ rfl
      refine ⟨.inr ?_, fun b same => ?_, ?_⟩
      · rcases origin with same | ⟨t, member, rest⟩
        · obtain ⟨rfl, rfl⟩ := Prod.mk.inj (Option.some.inj same)
          exact ⟨s, mem_cons_self, better.1, rfl, rfl⟩
        · exact ⟨t, mem_cons_of_mem _ member, rest⟩
      · have lower : b.2 < s.timestampMs := by simpa [same] using better.2
        omega
      · exact forall_mem_cons.mpr ⟨fun _ => least, later⟩
    next worse =>
      rw [if_neg worse] at above
      refine ⟨origin.imp_right ?_, above, forall_mem_cons.mpr ⟨fun early => ?_, later⟩⟩
      · rintro ⟨t, member, rest⟩
        exact ⟨t, mem_cons_of_mem _ member, rest⟩
      · -- the snapshot was passed over for one that is at least as new
        cases held : best with
        | none => simp [held, early] at worse
        | some b =>
          have bound := above b held
          simp only [held, early, true_and, Option.all_some, decide_eq_true_eq] at worse
          omega

private theorem findSnapshotAtTimestamp_eq_main {listed : List Snapshot}
    (lists : listed.Perm (run commits).snapshots) (latest : MainIsLatest commits time)
    (found : findSnapshotAtTimestamp listed time = .ok id) : mainAt commits time = some id := by
  unfold findSnapshotAtTimestamp at found
  split at found
  next best at' loop =>
    obtain rfl := Except.ok.inj found
    obtain ⟨origin, -, newest⟩ := findBest_spec loop
    obtain ⟨s, member, early, rfl, rfl⟩ := origin.resolve_left (by simp)
    rcases latest s (lists.mem_iff.mp member) early with main | ⟨main, there, -, newer, early⟩
    · exact main
    · have least := newest main (lists.mem_iff.mpr there) early
      omega
  next => cases found

/-- After any history, a clause whose condition on the history holds resolves to a snapshot that was
public once, and a time to what `main` pointed to at that time. -/
theorem resolved_snapshot_public (commits : List Commit) (listed : List Snapshot)
    (lists : listed.Perm (run commits).snapshots) (version : VersionRef) (table : String)
    (clean : Clean timeTravelMillis commits version) (id : SnapshotId)
    (resolved : resolveVersionSnapshot timeTravelMillis listed (run commits) version table =
      .ok id) :
    EverPublic commits id ∧ ∀ raw time, version = .timestamp raw →
      timeTravelMillis raw = .ok time → mainAt commits time = some id := by
  cases version with
  | snapshotId given =>
    refine ⟨?_, fun raw time same => nomatch same⟩
    dsimp only [resolveVersionSnapshot] at resolved
    split at resolved
    · cases resolved
    next shown =>
      obtain rfl := Except.ok.inj resolved
      simp only [Bool.or_eq_true, not_or, Option.isNone_iff_eq_none] at shown
      have present := snapshotById_isSome_iff.mp (Option.isSome_iff_ne_none.mpr shown.1)
      by_cases kept : ∀ earlier c, earlier ++ [c] <+: commits →
          ¬ Strands (run earlier) c.change given
      · rcases everPublic_or_held kept present with ever | ⟨r, member, isTxn, reached⟩
        · exact ever
        · exact .of_now (isPublic_of_not_private (wellFormed_run commits) present member isTxn
            reached (by simpa using shown.2))
      · push Not at kept
        obtain ⟨earlier, c, made, strands⟩ := kept
        rcases clean earlier c made strands with ever | ⟨later, c', -, made', exposes⟩
        · exact ever.later ((prefix_append _ _).trans made)
        · exact ⟨later ++ [c'], made', run_append later c' ▸ isPublic_of_exposes exposes⟩
  | named name =>
    refine ⟨?_, fun raw time same => nomatch same⟩
    cases isTxn : isTxnRef name with
    | true => simp [resolveVersionSnapshot, rejectTxnRef, isTxn, bind, Except.bind] at resolved
    | false =>
      cases named : (run commits).referenceByName name with
      | none =>
        simp [resolveVersionSnapshot, rejectTxnRef, isTxn, named, bind, Except.bind] at resolved
      | some reference =>
        obtain rfl : reference.snapshotId = id := by
          simpa [resolveVersionSnapshot, rejectTxnRef, isTxn, named, bind, Except.bind]
            using resolved
        exact .of_now ⟨_, mem_of_referenceByName named, isTxn, .head _⟩
  | timestamp raw =>
    cases parsed : timeTravelMillis raw with
    | error e => simp [resolveVersionSnapshot, parsed, bind, Except.bind] at resolved
    | ok time =>
      have found : findSnapshotAtTimestamp listed time = .ok id := by
        simpa [resolveVersionSnapshot, parsed, bind, Except.bind] using resolved
      have main := findSnapshotAtTimestamp_eq_main lists (clean time parsed) found
      constructor
      · obtain ⟨r, named, rfl⟩ := Option.map_eq_some_iff.mp main
        exact ⟨upTo commits time, takeWhile_prefix _, _, mem_of_referenceByName named,
          isTxnRef_mainBranch, .head _⟩
      · rintro raw' time' same parsed'
        obtain rfl := VersionRef.timestamp.inj same
        obtain rfl := Except.ok.inj (parsed.symm.trans parsed')
        exact main

/-- `EverPublic`, to be evaluated. -/
def everPublic (commits : List Commit) (id : SnapshotId) : Bool :=
  commits.inits.any fun earlier => ((run earlier).refs.filter fun r => !isTxnRef r.1).any
    fun r => ((run earlier).ancestry r.2.snapshotId).contains id

private theorem everPublic_of_everPublic (ever : EverPublic commits id) :
    everPublic commits id = true := by
  obtain ⟨earlier, before, r, member, isPublic, reached⟩ := ever
  have wf := wellFormed_run earlier
  have walked : id ∈ (run earlier).ancestry r.2.snapshotId :=
    mem_ancestry_of_reaches wf.parented reached (reached.listed wf.parented (wf.listed r member))
  simp only [everPublic, any_eq_true, mem_inits, mem_filter, contains_iff_mem]
  exact ⟨earlier, before, r, ⟨member, by simpa using isPublic⟩, walked⟩

def openTxn : List Commit :=
  [⟨10, 10, .append 1⟩, ⟨20, 20, .startTxn "sqe-txn-a"⟩, ⟨30, 30, .txnWrite "sqe-txn-a" 2⟩]

/-- A time after its write resolves to what it wrote, and so does the id once it is rolled back. -/
theorem uncommitted_snapshot_read :
    resolveVersionSnapshot (fun _ => .ok 40) (run openTxn).snapshots (run openTxn)
      (.timestamp "40") "t" = .ok 2 ∧
    mainAt openTxn 40 = some 1 ∧ ¬ EverPublic openTxn 2 ∧
    resolveVersionSnapshot (fun _ => .ok 40)
      (run (openTxn ++ [⟨50, 50, .discard "sqe-txn-a"⟩])).snapshots
      (run (openTxn ++ [⟨50, 50, .discard "sqe-txn-a"⟩])) (.snapshotId 2) "t" = .ok 2 ∧
    ¬ EverPublic (openTxn ++ [⟨50, 50, .discard "sqe-txn-a"⟩]) 2 := by
  refine ⟨by decide +kernel, by decide +kernel, fun ever => ?_, by decide +kernel, fun ever => ?_⟩
  · exact absurd (everPublic_of_everPublic ever) (by decide +kernel)
  · exact absurd (everPublic_of_everPublic ever) (by decide +kernel)

def committedTxn : List Commit := openTxn ++ [⟨40, 40, .publish "sqe-txn-a" (some 1)⟩]

theorem committed_snapshot_read : EverPublic committedTxn 2 ∧ ∀ raw time,
    VersionRef.timestamp "50" = .timestamp raw →
      (fun _ => .ok 50 : String → Except SqeError Int) raw = .ok time →
        mainAt committedTxn time = some 2 := by
  refine resolved_snapshot_public (fun _ => .ok 50) committedTxn
    (run committedTxn).snapshots (List.Perm.refl _) (.timestamp "50") "t" ?_ 2 (by decide +kernel)
  rintro time ⟨⟩
  unfold MainIsLatest
  decide +kernel

end Sqe.Catalog.TimeTravel
