/- GID: Sqe/Coordinator/Compaction
   generality: I
   digest: One rewrite_data_files run with its batches, re-dispatches and commits. -/

import Sqe.Iceberg.Table
import Sqe.Library.Transition

/-!
A run plans on one version of the table, and rewrites the files of its groups batch by batch. Each
batch is dispatched to workers that read a pinned snapshot with its deletes applied. The output is
committed under the sequence number of the planned snapshot. A run without partial progress, and
a local one, has a single batch. Other writers commit between any two events. The delays between
attempts are left out.
-/

set_option autoImplicit false

namespace Sqe.Coordinator.Compaction

open Sqe.Library Sqe.Iceberg

variable {Row : Type}

/-- Where the work on a batch stands. `cur` is the snapshot that the workers read. -/
inductive Phase (Row : Type)
  | dispatch (cur : Table Row)
  /-- The workers have written files of these rows. -/
  | aggregated (cur : Table Row) (outputs : List (List Row))
  /-- About to commit, with the snapshot to validate from and the deletes known in it. -/
  | commit (cur : Table Row) (outputs : List (List Row)) (base : Table Row)

/-- A run: the version it planned on, the batches still to be committed, whether one has been
committed, and the work on the first of those left. -/
structure Job (Row : Type) where
  plan : Table Row
  batches : List (List (DataFile Row))
  retryOnConflict : Bool
  attempt : Nat
  phase : Phase Row

structure State (Row : Type) where
  table : Table Row
  job : Option (Job Row)

def maxCommitAttempts : Nat := 4

variable (batch : List (DataFile Row))

def paths : List Nat := batch.map DataFile.path

def references (d : PositionDelete) : Bool :=
  d.referencedDataFile.any (paths batch).contains

/-- A position delete of the reloaded table on a file of the batch that the workers did not know
of. -/
def newCoveringDelete (cur reload : Table Row) : Bool :=
  reload.positionDeletes.any fun d =>
    references batch d && !(cur.positionDeletes.map PositionDelete.path).contains d.path

def coveredPositionDeletes (base : Table Row) : List PositionDelete :=
  base.positionDeletes.filter (references batch)

/-- `RewriteFilesAction` refuses: a position delete newer than the base references a removed file
or references none, or a removed file is gone. -/
def refuses (base table : Table Row) : Bool :=
  table.positionDeletes.any (fun d => decide (base.version < d.sequenceNumber) &&
    (references batch d || d.referencedDataFile.isNone)) ||
  (paths batch).any fun path => !(paths table.dataFiles).contains path

/-- The files of the batch are replaced by the output, pinned to the sequence number. -/
def commitBatch (pin : Nat) (batch : List (DataFile Row)) (outputs : List (List Row))
    (base table : Table Row) : Table Row where
  dataFiles := table.dataFiles.filter (fun f => !(paths batch).contains f.path) ++
    outputs.mapIdx fun i rows => ⟨table.nextPath + i, pin, rows⟩
  equalityDeletes := table.equalityDeletes
  positionDeletes := table.positionDeletes.filter fun d =>
    !(coveredPositionDeletes batch base).contains d
  version := table.version + 1
  nextPath := table.nextPath + outputs.length

inductive Event (Row : Type)
  | other (next : Table Row)
  /-- A run starts, or starts over, with these batches. -/
  | plan (batches : List (List (DataFile Row)))
  /-- The workers answer with files of these rows. -/
  | work (outputs : List (List Row))
  | fail
  /-- The test before a commit, which reloads the table for all but the first batch. -/
  | check
  | commit
  /-- The commit is refused with a retryable conflict. -/
  | conflict

/-- Re-dispatch against the table as it is now, while attempts are left. -/
def redispatch (s : State Row) (job : Job Row) : State Row :=
  if job.attempt < maxCommitAttempts then
    { s with job := some { job with attempt := job.attempt + 1, phase := .dispatch s.table } }
  else { s with job := none }

/-- The run after a batch: later batches are dispatched against the planned snapshot again. -/
def nextBatch (job : Job Row) : List (List (DataFile Row)) → Option (Job Row)
  | [] => none
  | rest => some { job with
      batches := rest, retryOnConflict := true, attempt := 1, phase := .dispatch job.plan }

def step (s : State Row) : Event Row → Option (State Row)
  | .other next => some { s with table := next }
  | .plan batches => match s.job with
      | none => some { s with job := some ⟨s.table, batches, false, 1, .dispatch s.table⟩ }
      | some _ => none
  | .work outputs => match s.job with
      | some ⟨plan, batches, retry, attempt, .dispatch cur⟩ => some { s with
          job := some ⟨plan, batches, retry, attempt, .aggregated cur outputs⟩ }
      | _ => none
  | .fail => some { s with job := none }
  | .check => match s.job with
      | some ⟨plan, batch :: rest, retry, attempt, .aggregated cur outputs⟩ =>
        if !retry then some { s with
          job := some ⟨plan, batch :: rest, retry, attempt, .commit cur outputs plan⟩ }
        else if newCoveringDelete batch cur s.table then
          some (redispatch s ⟨plan, batch :: rest, retry, attempt, .aggregated cur outputs⟩)
        else some { s with
          job := some ⟨plan, batch :: rest, retry, attempt, .commit cur outputs s.table⟩ }
      | _ => none
  | .commit => match s.job with
      | some ⟨plan, batch :: rest, retry, attempt, .commit cur outputs base⟩ =>
        if refuses batch base s.table then none
        else some {
          table := commitBatch plan.version batch outputs base s.table
          job := nextBatch ⟨plan, batch :: rest, retry, attempt, .commit cur outputs base⟩ rest }
      | _ => none
  | .conflict => match s.job with
      | some ⟨plan, batches, retry, attempt, .commit cur outputs base⟩ =>
        if retry then
          some (redispatch s ⟨plan, batches, retry, attempt, .commit cur outputs base⟩)
        else some { s with job := none }
      | _ => none

/-- Other writers commit as `Later` says, a run is planned on live files, each in one batch, and
the workers write what a reader of the pinned snapshot finds in the files of the batch. -/
def Faithful (s : State Row) : Event Row → Prop
  | .other next => next.version = s.table.version + 1 ∧ s.table.Later next ∧ next.WellFormed
  | .plan batches => batches.flatten.Nodup ∧ ∀ f ∈ batches.flatten, f ∈ s.table.dataFiles
  | .work outputs => ∀ job cur, s.job = some job → job.phase = .dispatch cur →
      outputs.flatten.Perm ((job.batches.headD []).flatMap cur.rowsOf)
  | _ => True

/-- Once a run has committed a batch, no other writer commits a position delete on a file of the
batches left that does not reference its data file. -/
def Attributed (s : State Row) : Event Row → Prop
  | .other next => ∀ job, s.job = some job → job.retryOnConflict = true →
      ∀ d ∈ next.positionDeletes, d ∉ s.table.positionDeletes → d.referencedDataFile = none →
        ∀ f ∈ job.batches.flatten, ∀ p ∈ d.positions, p.1 ≠ f.path
  | _ => True

end Sqe.Coordinator.Compaction
