/- GID: Sqe/Write/RowDelta
   generality: I
   digest: What a merge-on-read statement does to the rows that others committed meanwhile. -/

import Sqe.Iceberg.Table
import Sqe.Write.Commit

/-!
The keys to delete and the rows to add are computed once, from the snapshot the statement read.
Each attempt of the commit loop then validates against the snapshot it has itself just loaded, so
the commits of other writers between the read and that load go unseen. The loop is the one of
`Sqe.Write.step`, with the table beside it.
-/

set_option autoImplicit false

namespace Sqe.Write.RowDelta

open Sqe.Library Sqe.Iceberg Option

variable {Row Key : Type} [DecidableEq Key]

/-- What a statement makes of the rows it read: the rows whose keys it deletes, and the rows it
adds. -/
structure Delta (Row : Type) where
  old : List Row
  new : List Row

inductive Statement (Row : Type)
  | delete (where_ : Row → Bool)
  | update (where_ : Row → Bool) (set : Row → Row)
  /-- The clause queries of a MERGE, over the target rows that were read. -/
  | merge (clauses : List Row → Delta Row)

def Statement.delta : Statement Row → List Row → Delta Row
  | .delete where_, rows => ⟨rows.filter where_, []⟩
  | .update where_ set, rows => ⟨rows.filter where_, (rows.filter where_).map set⟩
  | .merge clauses, rows => clauses rows

/-- A row delta on a snapshot, under the sequence number of the commit: an equality delete file of
the old keys and a data file of the new rows, where there are any. -/
def rowDelta (key : Row → Key) (path : Nat) (delta : Delta Row) (sequenceNumber : Nat)
    (base : Snapshot Row) : Snapshot Row where
  dataFiles := base.dataFiles ++
    if delta.new.isEmpty then [] else [⟨path, sequenceNumber, delta.new⟩]
  equalityDeletes := base.equalityDeletes ++
    if delta.old.isEmpty then []
    else [⟨sequenceNumber, fun row => (delta.old.map key).contains (key row)⟩]
  positionDeletes := base.positionDeletes

/-- The call of the commit loop, the snapshot its attempt validates from, the snapshot the
statement read and the table's current one; a new table has none. -/
structure State (Row : Type) where
  call : CommitState
  pinned : Option Location
  read : Option (Snapshot Row)
  current : Option (Snapshot Row)

inductive Event (Row : Type)
  | other (next : Snapshot Row)
  | call (e : CommitEvent)

def Commits : CommitEvent → Prop
  | .accept | .lands _ => True
  | _ => False

section Step

variable (toLowercase : String → String) (key : Row → Key) (statement : Statement Row) (path : Nat)

def State.delta (s : State Row) : Delta Row :=
  statement.delta (s.read.elim [] Snapshot.visible)

def State.committed (s : State Row) : Snapshot Row :=
  rowDelta key path (s.delta statement) (s.call.location + 1) (s.current.getD .empty)

def step (s : State Row) : Event Row → Option (State Row)
  | .other next => some { s with
      call := { s.call with location := s.call.location + 1 }
      current := some next }
  | .call e => (Write.step toLowercase s.call e).bind fun call => match e with
      | .otherCommit => none -- comes with its snapshot
      | .load _ => some { s with
          call := call
          pinned := s.current.map fun _ => s.call.location }
      | .rebase =>
        -- `validate_from_snapshot`, which a table without a snapshot is spared
        if s.pinned.all (· == s.call.location) then some { s with call := call } else none
      | .accept | .lands _ => some { s with
          call := call
          current := some (s.committed key statement path) }
      | _ => some { s with call := call }

/-- A table is as its commits so far made it, without a file of the statement's own. -/
structure Foreign (location : Location) (snapshot : Snapshot Row) : Prop where
  sequenced : ∀ file ∈ snapshot.dataFiles, file.sequenceNumber ≤ location
  deletes : ∀ d ∈ snapshot.equalityDeletes, d.sequenceNumber ≤ location
  fresh : ∀ file ∈ snapshot.dataFiles, file.path ≠ path
  unnamed : ∀ d ∈ snapshot.positionDeletes, ∀ position, (path, position) ∉ d.positions

/-- The statement has read the table and calls the commit loop, if it has anything to commit. -/
structure Starts (s : State Row) : Prop where
  call : Begins s.call ∨ s.call.point = .returned (.ok ()) ∧ s.call.applied = 0 ∧
    s.call.pending = []
  read : s.read = s.current
  foreign : ∀ snapshot, s.current = some snapshot → Foreign path s.call.location snapshot

/-- Other writers commit under the next sequence number and know nothing of the statement's files,
before these are committed. -/
def Others (s : State Row) : Event Row → Prop
  | .other next => s.call.applied = 0 → Foreign path (s.call.location + 1) next
  | .call _ => True

end Step

section Concurrent

variable (key : Row → Key) (path : Nat)

/-- The row version was committed by another writer after the statement's read. -/
def State.Concurrent (s : State Row) (file : DataFile Row) : Prop :=
  file.path ≠ path ∧ ∀ snapshot, s.read = some snapshot → file ∉ snapshot.dataFiles

def KeepsConcurrent (s s' : State Row) : Prop :=
  ∀ before after, s.current.getD .empty = before → s'.current = some after →
    ∀ file position row, s.Concurrent path file → before.Holds file position row →
      after.Holds file position row

/-- The key stands for at most one row of what the statement read. -/
def State.Unique (s : State Row) (k : Key) : Prop :=
  ((s.read.elim [] Snapshot.visible).filter fun row => key row = k).length ≤ 1

/-- No key that was unique is now found in a row of the statement and in a row of another
writer. -/
def KeysOnce (s s' : State Row) : Prop :=
  ∀ after, s'.current = some after → ∀ file position row own position' row',
    s.Concurrent path file → after.Holds file position row → own.path = path →
    after.Holds own position' row' → s.Unique key (key row) → key row ≠ key row'

/-- No row version that another writer committed since the read has a key that the statement
deletes, or a unique one that it writes. -/
def Apart (statement : Statement Row) (s : State Row) : Prop :=
  ∀ file position row, s.Concurrent path file →
    (s.current.getD .empty).Holds file position row →
    key row ∉ (s.delta statement).old.map key ∧
      (s.Unique key (key row) → key row ∉ (s.delta statement).new.map key)

end Concurrent

section Visible

variable (key : Row → Key) (path : Nat) (delta : Delta Row) {location : Location}
  (base : Snapshot Row)

theorem equalityDeleted_rowDelta {sequenceNumber : Nat} (earlier : sequenceNumber ≤ location)
    (row : Row) :
    (rowDelta key path delta (location + 1) base).equalityDeleted sequenceNumber row = true ↔
      base.equalityDeleted sequenceNumber row = true ∨ key row ∈ delta.old.map key := by
  have older : sequenceNumber < location + 1 := Nat.lt_succ_of_le earlier
  unfold rowDelta Snapshot.equalityDeleted
  rw [List.any_append, Bool.or_eq_true]
  refine or_congr_right ?_
  cases old : delta.old with
  | nil => simp
  | cons first rest => simp [older]

variable {file : DataFile Row}

theorem live_rowDelta (earlier : file.sequenceNumber ≤ location) (position : Nat) (row : Row) :
    (rowDelta key path delta (location + 1) base).live file position row = true ↔
      base.live file position row = true ∧ key row ∉ delta.old.map key := by
  have deleted := equalityDeleted_rowDelta key path delta base earlier row
  unfold Snapshot.live
  simp only [Bool.and_eq_true, Bool.not_eq_true', ← Bool.not_eq_true]
  change _ ∧ ¬ base.positionDeleted file.path position = true ↔ _
  tauto

theorem mem_dataFiles_rowDelta :
    file ∈ (rowDelta key path delta (location + 1) base).dataFiles ↔
      file ∈ base.dataFiles ∨ delta.new ≠ [] ∧ file = ⟨path, location + 1, delta.new⟩ := by
  unfold rowDelta
  rw [List.mem_append]
  refine or_congr_right ?_
  cases new : delta.new <;> simp

variable {key path delta base}

theorem holds_rowDelta_iff (foreign : Foreign path location base)
    (other : file.path ≠ path) {position : Nat} {row : Row} :
    (rowDelta key path delta (location + 1) base).Holds file position row ↔
      base.Holds file position row ∧ key row ∉ delta.old.map key := by
  constructor
  · rintro ⟨listed, stored, live⟩
    rcases (mem_dataFiles_rowDelta key path delta base).mp listed with before | ⟨-, rfl⟩
    · have found := (live_rowDelta key path delta base (foreign.sequenced file before) _ _).mp live
      exact ⟨⟨before, stored, found.1⟩, found.2⟩
    · exact absurd rfl other
  · rintro ⟨⟨listed, stored, live⟩, kept⟩
    refine ⟨(mem_dataFiles_rowDelta key path delta base).mpr (.inl listed), stored, ?_⟩
    exact (live_rowDelta key path delta base (foreign.sequenced file listed) _ _).mpr ⟨live, kept⟩

variable (key) in
theorem exists_own_iff (foreign : Foreign path location base) {row : Row} :
    (∃ own position, own.path = path ∧
      (rowDelta key path delta (location + 1) base).Holds own position row) ↔ row ∈ delta.new := by
  constructor
  · rintro ⟨own, position, same, listed, stored, -⟩
    rcases (mem_dataFiles_rowDelta key path delta base).mp listed with before | ⟨-, rfl⟩
    · exact absurd same (foreign.fresh own before)
    · exact List.mem_of_getElem? stored
  · intro added
    obtain ⟨position, stored⟩ := List.mem_iff_getElem?.mp added
    refine ⟨⟨path, location + 1, delta.new⟩, position, rfl, ?_, stored, ?_⟩
    · exact (mem_dataFiles_rowDelta key path delta base).mpr
        (.inr ⟨List.ne_nil_of_mem added, rfl⟩)
    · have undeleted : (rowDelta key path delta (location + 1) base).equalityDeleted
          (location + 1) row = false := by
        rw [Snapshot.equalityDeleted, List.any_eq_false]
        intro d listed
        have old : d.sequenceNumber ≤ location + 1 := by
          rcases List.mem_append.mp listed with before | own
          · exact Nat.le_succ_of_le (foreign.deletes d before)
          · split at own
            · cases own
            · exact Nat.le_of_eq (List.mem_singleton.mp own ▸ rfl)
        simp [Nat.not_lt.mpr old]
      have unnamed : base.positionDeleted path position = false := by
        rw [Snapshot.positionDeleted, List.any_eq_false]
        intro d listed
        simpa using foreign.unnamed d listed position
      simp only [Snapshot.live, undeleted]
      simpa [Snapshot.positionDeleted, rowDelta] using unnamed

end Visible

section Runs

variable {toLowercase : String → String} {key : Row → Key} {statement : Statement Row} {path : Nat}

variable {e : CommitEvent} {s : State Row}

theorem call_step_frame {c c' : CommitState} (still : ¬ Commits e)
    (own : e ≠ .otherCommit) (taken : Write.step toLowercase c e = some c') :
    c'.location = c.location ∧ c'.applied = c.applied := by
  cases e with
  | accept => exact absurd trivial still
  | lands base => exact absurd trivial still
  | otherCommit => exact absurd rfl own
  | load located | loadFails e | rebase | rebaseFails e | refuse e | lose e =>
    simp only [Write.step] at taken
    repeat' split at taken
    all_goals cases taken
    all_goals exact ⟨rfl, rfl⟩

theorem applied_of_commits {c c' : CommitState} (own : Commits e)
    (taken : Write.step toLowercase c e = some c') : c'.applied = c.applied + 1 := by
  cases e with
  | accept | lands base =>
    simp only [Write.step] at taken
    repeat' split at taken
    all_goals cases taken
    all_goals rfl
  | load located | loadFails e | rebase | rebaseFails e | refuse e | lose e | otherCommit =>
    exact absurd own id

/-- Until the statement commits, the table is what other writers made of it. -/
def Untouched (path : Nat) (s : State Row) : Prop :=
  s.call.applied = 0 → ∀ snapshot, s.current = some snapshot → Foreign path s.call.location snapshot

theorem untouched_step {s' : State Row} {e : Event Row} (untouched : Untouched path s)
    (others : Others path s e) (taken : step toLowercase key statement path s e = some s') :
    Untouched path s' := by
  cases e with
  | other next =>
    cases taken
    intro first snapshot same
    cases same
    exact others first
  | call e =>
    obtain ⟨call, inner, outer⟩ := bind_eq_some_iff.mp taken
    cases e with
    | otherCommit => cases outer
    | accept | lands base =>
      cases outer
      intro first
      have applied := applied_of_commits (by exact trivial) inner
      have first : call.applied = 0 := first
      omega
    | rebase =>
      have frame := call_step_frame id (by simp) inner
      dsimp only at outer
      split at outer
      · cases outer
        intro first
        rw [frame.1]
        exact untouched (frame.2 ▸ first)
      · cases outer
    | load located | loadFails e | rebaseFails e | refuse e | lose e =>
      have frame := call_step_frame id (by simp) inner
      cases outer
      intro first
      rw [frame.1]
      exact untouched (frame.2 ▸ first)

theorem foreign_of_untouched (untouched : Untouched path s)
    (first : s.call.applied = 0) : Foreign path s.call.location (s.current.getD .empty) := by
  cases current : s.current with
  | none => exact ⟨by simp [Snapshot.empty], by simp [Snapshot.empty], by simp [Snapshot.empty],
      by simp [Snapshot.empty]⟩
  | some snapshot => exact untouched first snapshot current

theorem current_of_commits {s' : State Row} (own : Commits e)
    (taken : step toLowercase key statement path s (.call e) = some s') :
    s'.current = some (s.committed key statement path) := by
  obtain ⟨call, -, outer⟩ := bind_eq_some_iff.mp taken
  cases e with
  | accept | lands base => cases outer; rfl
  | load located | loadFails e | rebase | rebaseFails e | refuse e | lose e | otherCommit =>
    exact absurd own id

/-- In every run, the statement's commit keeps the concurrent row versions and doubles no key
exactly if it deletes and writes none of their keys. -/
theorem row_delta_loses_nothing_iff {s s' : State Row} {e : CommitEvent}
    (reached : Transition.Reachable (Starts path) (step toLowercase key statement path)
      (Others path) s)
    (first : s.call.applied = 0) (own : Commits e)
    (taken : step toLowercase key statement path s (.call e) = some s') :
    KeepsConcurrent path s s' ∧ KeysOnce key path s s' ↔ Apart key path statement s := by
  have untouched : Untouched path s :=
    reached.invariant (fun s starts _ => starts.foreign)
      fun _ _ _ untouched others taken => untouched_step untouched others taken
  have foreign := foreign_of_untouched untouched first
  have after := current_of_commits own taken
  constructor
  · rintro ⟨keeps, once⟩ file position row concurrent held
    have held' := keeps _ _ rfl after file position row concurrent held
    refine ⟨((holds_rowDelta_iff foreign concurrent.1).mp held').2, fun unique written => ?_⟩
    obtain ⟨row', new, same⟩ := List.mem_map.mp written
    obtain ⟨own', position', isOwn, ownHeld⟩ := (exists_own_iff key foreign).mpr new
    exact once _ after file position row own' position' row' concurrent held' isOwn ownHeld unique
      same.symm
  · intro apart
    constructor
    · rintro _ _ rfl same file position row concurrent held
      obtain rfl := some.inj (after.symm.trans same)
      exact (holds_rowDelta_iff foreign concurrent.1).mpr
        ⟨held, (apart file position row concurrent held).1⟩
    · intro _ same file position row own' position' row' concurrent held isOwn ownHeld unique twice
      obtain rfl := some.inj (after.symm.trans same)
      have before := ((holds_rowDelta_iff foreign concurrent.1).mp held).1
      have new := (exists_own_iff key foreign).mp ⟨own', position', isOwn, ownHeld⟩
      exact (apart file position row concurrent before).2 unique
        (twice ▸ List.mem_map_of_mem new)

end Runs

namespace Sample

/-- Rows of a key and a value; the table holds the value 10 under the key 1. -/
def table : Snapshot (Nat × Nat) := ⟨[⟨1, 1, [(1, 10)]⟩], [], []⟩

/-- `UPDATE t SET v = 30 WHERE k = 1`. -/
def statement : Statement (Nat × Nat) := .update (fun row => row.1 == 1) fun row => (row.1, 30)

/-- Another writer has set the value under the key 1 to 20, as a row delta of its own. -/
def updated : Snapshot (Nat × Nat) :=
  ⟨[⟨1, 1, [(1, 10)]⟩, ⟨2, 2, [(1, 20)]⟩], [⟨2, fun row => row.1 == 1⟩], []⟩

/-- Another writer has appended a row under the key 2. -/
def appended : Snapshot (Nat × Nat) := ⟨[⟨1, 1, [(1, 10)]⟩, ⟨2, 2, [(2, 20)]⟩], [], []⟩

def start : State (Nat × Nat) := ⟨⟨.reload 1 1 none, 1, 0, []⟩, none, some table, some table⟩

variable (next : Snapshot (Nat × Nat))

/-- The first attempt is about to commit, on top of the other writer's snapshot. -/
def posted : State (Nat × Nat) :=
  ⟨⟨.post 1 none (some 2) 2, 2, 0, []⟩, some 2, some table, some next⟩

def committed : State (Nat × Nat) :=
  ⟨⟨.returned (.ok ()), 3, 1, []⟩, some 2, some table,
    some ((posted next).committed Prod.fst statement 9)⟩

theorem starts : Starts 9 start := by
  refine ⟨.inl ⟨rfl, rfl, rfl⟩, rfl, ?_⟩
  rintro _ ⟨⟩
  constructor <;> simp [table, start]

theorem reached {next : Snapshot (Nat × Nat)} (foreign : Foreign 9 2 next) :
    Transition.Reachable (Starts 9) (step id Prod.fst statement 9) (Others 9) (posted next) := by
  have begun : Transition.Reachable (Starts 9) (step id Prod.fst statement 9) (Others 9) start :=
    .start starts
  have others := begun.next (e := Event.other next) (fun _ => foreign) rfl
  have load := others.next (e := Event.call (.load true)) trivial rfl
  exact load.next (e := Event.call .rebase) trivial rfl

theorem accepted :
    step id Prod.fst statement 9 (posted next) (.call .accept) = some (committed next) := rfl

theorem foreign_updated : Foreign 9 2 updated := by
  constructor <;> simp [updated]

theorem foreign_appended : Foreign 9 2 appended := by
  constructor <;> simp [appended]

end Sample

open Sample

/-- The row under the key 2, appended while the statement ran, is still there. -/
theorem append_survives_update :
    KeepsConcurrent 9 (posted appended) (committed appended) ∧
      KeysOnce Prod.fst 9 (posted appended) (committed appended) := by
  refine (row_delta_loses_nothing_iff (reached foreign_appended) rfl (by exact trivial)
    (accepted appended)).mpr ?_
  intro file position row concurrent held
  have listed : file ∈ appended.dataFiles := held.listed
  simp only [appended, List.mem_cons, List.not_mem_nil, or_false] at listed
  rcases listed with rfl | rfl
  · exact absurd (by simp [table]) (concurrent.2 table rfl)
  · have stored : row = (2, 20) := by
      have := List.mem_of_getElem? held.stored
      simpa using this
    subst stored
    exact ⟨by decide, fun _ => by decide⟩

/-- The value 20 that another writer committed while the statement ran is gone, and the statement
reports success. -/
theorem concurrent_update_lost :
    Transition.Reachable (Starts 9) (step id Prod.fst statement 9) (Others 9)
        (posted updated) ∧
      step id Prod.fst statement 9 (posted updated) (.call .accept) =
        some (committed updated) ∧
      (committed updated).call.point = .returned (.ok ()) ∧
      ¬ KeepsConcurrent 9 (posted updated) (committed updated) := by
  refine ⟨reached foreign_updated, accepted _, rfl, fun keeps => ?_⟩
  have held := keeps _ _ rfl rfl ⟨2, 2, [(1, 20)]⟩ 0 (1, 20)
    ⟨by decide, by rintro _ ⟨⟩; simp [table]⟩
    ⟨by simp [posted, updated], rfl, by decide⟩
  exact absurd held.live (by decide)

end Sqe.Write.RowDelta
