/- GID: Sqe/Coordinator/CompactionSound
   generality: I
   digest: A compaction commit leaves the rows of the table as they were. -/

import Sqe.Coordinator.Compaction
import Mathlib.Data.List.Perm.Subperm

/-!
A batch is read at one version and committed at a later one. What may have changed for its files in
between is: equality deletes, which reach the output through its pinned sequence number, and
position deletes, which must be known to the workers. The invariant says that every position delete
they do not know is caught by one of the two tests before the commit.
-/

set_option autoImplicit false

namespace Sqe.Coordinator.Compaction

open Sqe.Library Sqe.Iceberg List Snapshot

variable {Row : Type} {batch : List (DataFile Row)} {f : DataFile Row} {d : PositionDelete}

theorem references_iff :
    references batch d = true ↔ ∃ f ∈ batch, d.referencedDataFile = some f.path := by
  cases reference : d.referencedDataFile with
  | none => simp [references, reference]
  | some path => simp [references, reference, paths, eq_comm]

/-- A commit that is not refused finds all its files, and every newer position delete references a
file, none of the batch. -/
theorem of_not_refuses {base table : Table Row} (accepted : refuses batch base table = false) :
    (∀ d ∈ table.positionDeletes, base.version < d.sequenceNumber →
      references batch d = false ∧ d.referencedDataFile ≠ none) ∧
    ∀ f ∈ batch, ∃ g ∈ table.dataFiles, g.path = f.path := by
  obtain ⟨deletes, files⟩ := Bool.or_eq_false_iff.mp accepted
  constructor
  · intro d listed newer
    have kept := any_eq_false.mp deletes d listed
    simpa [newer, Option.isNone_iff_eq_none] using kept
  · intro f member
    have kept := any_eq_false.mp files f.path (mem_map_of_mem member)
    simpa [paths] using kept

theorem rowsOf_eq_filter {before after : Snapshot Row} (keeps : Row → Bool)
    (same : ∀ position row, f.rows[position]? = some row →
      after.live f position row = (before.live f position row && keeps row)) :
    after.rowsOf f = (before.rowsOf f).filter keeps := by
  have pointwise : f.rows.zipIdx.filter (fun entry => after.live f entry.2 entry.1) =
      (f.rows.zipIdx.filter fun entry => before.live f entry.2 entry.1).filter
        fun entry => keeps entry.1 := by
    rw [filter_filter]
    refine filter_congr fun entry listed => ?_
    rw [same entry.2 entry.1 (mem_zipIdx_iff_getElem?.mp listed), Bool.and_comm]
  rw [rowsOf, pointwise, rowsOf, filter_map]
  rfl

/-- The workers read the file at one version, the commit finds it at a later one: the rows found
are those read that no equality delete newer than the pinned sequence number removes. -/
theorem rowsOf_read {plan cur table : Table Row} (planWf : plan.WellFormed)
    (curRead : plan.Later cur) (later : cur.Later table)
    (planned : f ∈ plan.dataFiles) (present : f ∈ table.dataFiles)
    (known : ∀ d ∈ table.positionDeletes, ∀ position, (f.path, position) ∈ d.positions →
      d ∈ cur.positionDeletes) :
    table.rowsOf f =
      (cur.rowsOf f).filter fun row => !table.equalityDeleted plan.version row := by
  have read : f ∈ cur.dataFiles := curRead.mem_between planWf later planned present
  have pinned := planWf.sequenced f planned
  refine rowsOf_eq_filter _ fun position row _ => ?_
  rw [Bool.eq_iff_iff, Bool.and_eq_true]
  constructor
  · intro live
    refine ⟨later.dead f read present position row live, ?_⟩
    rw [Bool.not_eq_true', ← Bool.not_eq_true]
    intro deleted
    obtain ⟨d, listed, applies⟩ := any_eq_true.mp deleted
    obtain ⟨newer, removes⟩ := Bool.and_eq_true_iff.mp applies
    have undeleted := (Bool.and_eq_true_iff.mp live).1
    rw [Bool.not_eq_true', equalityDeleted, any_eq_false] at undeleted
    refine undeleted d listed (Bool.and_eq_true_iff.mpr ⟨?_, removes⟩)
    exact decide_eq_true (Nat.lt_of_le_of_lt pinned (of_decide_eq_true newer))
  · rintro ⟨live, survives⟩
    obtain ⟨unmatched, unnamed⟩ := Bool.and_eq_true_iff.mp live
    rw [Bool.not_eq_true', equalityDeleted, any_eq_false] at unmatched survives
    rw [Bool.not_eq_true', positionDeleted, any_eq_false] at unnamed
    refine Bool.and_eq_true_iff.mpr ⟨?_, ?_⟩
    · rw [Bool.not_eq_true', equalityDeleted, any_eq_false]
      intro d listed applies
      obtain ⟨newer, removes⟩ := Bool.and_eq_true_iff.mp applies
      by_cases young : plan.version < d.sequenceNumber
      · exact survives d listed (Bool.and_eq_true_iff.mpr ⟨decide_eq_true young, removes⟩)
      · -- An equality delete of the planned snapshot was applied by the workers.
        have old := curRead.version
        rcases later.equalityDeletes d listed with there | fresh
        · exact unmatched d there applies
        · omega
    · rw [Bool.not_eq_true', positionDeleted, any_eq_false]
      intro d listed names
      have there := known d listed position (contains_iff_mem.mp names)
      exact unnamed d there names

section Commit

variable {pin : Nat} {outputs : List (List Row)} {base table : Table Row}

section

variable (wf : table.WellFormed)
include wf

theorem positionDeleted_commitBatch {path : Nat} (other : path ∉ paths batch) (position : Nat) :
    (commitBatch pin batch outputs base table).positionDeleted path position =
      table.positionDeleted path position := by
  rw [Bool.eq_iff_iff, positionDeleted, positionDeleted, any_eq_true, any_eq_true]
  constructor
  · rintro ⟨d, listed, names⟩
    exact ⟨d, (mem_filter.mp listed).1, names⟩
  · rintro ⟨d, listed, names⟩
    refine ⟨d, mem_filter.mpr ⟨listed, ?_⟩, names⟩
    rw [Bool.not_eq_true', ← Bool.not_eq_true, contains_iff_mem]
    intro covered
    obtain ⟨f, member, reference⟩ := references_iff.mp (mem_filter.mp covered).2
    have same := wf.references d listed f.path reference _ (contains_iff_mem.mp names)
    exact other (mem_map.mpr ⟨f, member, same.symm⟩)

theorem rowsOf_output {path : Nat} (fresh : table.nextPath ≤ path)
    (unbatched : path ∉ paths batch) (rows : List Row) :
    (commitBatch pin batch outputs base table).rowsOf ⟨path, pin, rows⟩ =
      rows.filter fun row => !table.equalityDeleted pin row := by
  have unnamed (position : Nat) : table.positionDeleted path position = false := by
    rw [positionDeleted, any_eq_false]
    intro d listed names
    have used := wf.positionsUsed d listed _ (contains_iff_mem.mp names)
    omega
  have live (position : Nat) (row : Row) :
      (commitBatch pin batch outputs base table).live ⟨path, pin, rows⟩ position row =
        !table.equalityDeleted pin row := by
    rw [Snapshot.live, positionDeleted_commitBatch wf unbatched, unnamed]
    exact Bool.and_true _
  unfold rowsOf
  simp only [live]
  have fst := filter_map (f := Prod.fst) (p := fun row => !table.equalityDeleted pin row)
    (l := rows.zipIdx)
  rw [zipIdx_map_fst] at fst
  exact fst.symm

theorem visible_outputs (used : ∀ f ∈ batch, f.path < table.nextPath) :
    (outputs.mapIdx fun i rows => (⟨table.nextPath + i, pin, rows⟩ : DataFile Row)).flatMap
        (commitBatch pin batch outputs base table).rowsOf =
      outputs.flatten.filter fun row => !table.equalityDeleted pin row := by
  have each (entry : List Row × Nat) :
      (commitBatch pin batch outputs base table).rowsOf
          ⟨table.nextPath + entry.2, pin, entry.1⟩ =
        entry.1.filter fun row => !table.equalityDeleted pin row := by
    refine rowsOf_output wf (Nat.le_add_right _ _) ?_ entry.1
    intro listed
    obtain ⟨f, member, same⟩ := mem_map.mp listed
    have below := used f member
    omega
  have unindexed := flatMap_map Prod.fst
    (fun rows : List Row => rows.filter fun row => !table.equalityDeleted pin row) outputs.zipIdx
  rw [zipIdx_map_fst] at unindexed
  rw [mapIdx_eq_zipIdx_map, flatMap_map, filter_flatten, ← flatMap_def]
  simp only [each]
  exact unindexed.symm

theorem dataFiles_perm (distinct : batch.Nodup) (present : ∀ f ∈ batch, f ∈ table.dataFiles) :
    table.dataFiles.Perm
      (batch ++ table.dataFiles.filter fun f => !(paths batch).contains f.path) := by
  have nodup : table.dataFiles.Nodup := List.Nodup.of_map _ wf.distinct
  refine ((filter_append_perm (fun f => (paths batch).contains f.path) _).symm).trans ?_
  refine List.Perm.append_right _ ?_
  rw [perm_ext_iff_of_nodup (nodup.filter _) distinct]
  intro f
  rw [mem_filter, contains_iff_mem]
  constructor
  · rintro ⟨listed, named⟩
    obtain ⟨g, member, same⟩ := mem_map.mp named
    exact inj_on_of_nodup_map wf.distinct listed (present g member) same.symm ▸ member
  · intro member
    exact ⟨present f member, mem_map_of_mem member⟩

theorem visible_commitBatch {plan cur : Table Row}
    (planWf : plan.WellFormed) (curRead : plan.Later cur) (later : cur.Later table)
    (distinct : batch.Nodup) (planned : ∀ f ∈ batch, f ∈ plan.dataFiles)
    (present : ∀ f ∈ batch, f ∈ table.dataFiles)
    (known : ∀ f ∈ batch, ∀ d ∈ table.positionDeletes, ∀ position,
      (f.path, position) ∈ d.positions → d ∈ cur.positionDeletes)
    (read : outputs.flatten.Perm (batch.flatMap cur.rowsOf)) :
    (commitBatch plan.version batch outputs base table).visible.Perm table.visible := by
  have used : ∀ f ∈ batch, f.path < table.nextPath := fun f member =>
    wf.used f (present f member)
  let rest := table.dataFiles.filter fun f => !(paths batch).contains f.path
  let survives := fun row => !table.equalityDeleted plan.version row
  have untouched : rest.flatMap (commitBatch plan.version batch outputs base table).rowsOf =
      rest.flatMap table.rowsOf := by
    refine flatMap_congr fun f listed => ?_
    have other := (mem_filter.mp listed).2
    rw [Bool.not_eq_true', ← Bool.not_eq_true, contains_iff_mem] at other
    unfold rowsOf Snapshot.live
    simp only [positionDeleted_commitBatch wf other]
    rfl
  have batchRows : batch.flatMap table.rowsOf = (batch.flatMap cur.rowsOf).filter survives := by
    rw [filter_flatMap]
    exact flatMap_congr fun f member =>
      rowsOf_read planWf curRead later (planned f member) (present f member) (known f member)
  calc (commitBatch plan.version batch outputs base table).visible
      = rest.flatMap table.rowsOf ++ outputs.flatten.filter survives := by
        rw [visible, commitBatch, flatMap_append]
        exact congrArg₂ (· ++ ·) untouched (visible_outputs wf used)
    _ |>.Perm (rest.flatMap table.rowsOf ++ batch.flatMap table.rowsOf) := by
        rw [batchRows]
        exact (read.filter survives).append_left _
    _ |>.Perm (batch.flatMap table.rowsOf ++ rest.flatMap table.rowsOf) := perm_append_comm
    _ |>.Perm table.visible := by
        rw [← flatMap_append]
        exact ((dataFiles_perm wf distinct present).flatMap_right _).symm

end

theorem mem_outputs {nextPath : Nat}
    (listed : f ∈ outputs.mapIdx fun i rows => (⟨nextPath + i, pin, rows⟩ : DataFile Row)) :
    f.sequenceNumber = pin ∧ nextPath ≤ f.path ∧ f.path < nextPath + outputs.length := by
  obtain ⟨i, bound, rfl⟩ := mem_mapIdx.mp listed
  exact ⟨rfl, Nat.le_add_right _ _, Nat.add_lt_add_left bound _⟩

theorem outputs_distinct (nextPath : Nat) :
    ((outputs.mapIdx fun i rows => (⟨nextPath + i, pin, rows⟩ : DataFile Row)).map
      DataFile.path).Nodup := by
  have counted : (outputs.mapIdx fun i rows => (⟨nextPath + i, pin, rows⟩ : DataFile Row)).map
      DataFile.path = (List.range outputs.length).map (nextPath + ·) := by
    rw [mapIdx_eq_zipIdx_map, map_map, range_eq_range', ← zipIdx_map_snd, map_map]
    rfl
  rw [counted]
  exact nodup_range.map fun i j same => Nat.add_left_cancel same

theorem mem_dataFiles_commitBatch
    (listed : f ∈ (commitBatch pin batch outputs base table).dataFiles) :
    (f ∈ table.dataFiles ∧ f.path ∉ paths batch) ∨
      f.sequenceNumber = pin ∧ table.nextPath ≤ f.path ∧
        f.path < table.nextPath + outputs.length := by
  rcases mem_append.mp listed with kept | added
  · obtain ⟨there, unbatched⟩ := mem_filter.mp kept
    rw [Bool.not_eq_true', ← Bool.not_eq_true, contains_iff_mem] at unbatched
    exact .inl ⟨there, unbatched⟩
  · exact .inr (mem_outputs added)

theorem later_commitBatch (wf : table.WellFormed) :
    table.Later (commitBatch pin batch outputs base table) where
  version := Nat.le_succ _
  nextPath := Nat.le_add_right _ _
  dataFiles f listed := (mem_dataFiles_commitBatch listed).imp And.left fun added => added.2.1
  equalityDeletes _ := .inl
  positionDeletes _ listed := .inl (mem_filter.mp listed).1
  dead f before after position row live := by
    rcases mem_dataFiles_commitBatch after with ⟨-, unbatched⟩ | ⟨-, unused, -⟩
    · rwa [Snapshot.live, positionDeleted_commitBatch wf unbatched] at live
    · exact absurd (wf.used f before) (Nat.not_lt.mpr unused)

theorem wellFormed_commitBatch (wf : table.WellFormed) (pinned : pin ≤ table.version) :
    (commitBatch pin batch outputs base table).WellFormed where
  sequenced f listed := by
    rcases mem_dataFiles_commitBatch listed with ⟨there, -⟩ | ⟨same, -⟩
    · exact Nat.le_succ_of_le (wf.sequenced f there)
    · rw [same]
      exact Nat.le_succ_of_le pinned
  used f listed := by
    rcases mem_dataFiles_commitBatch listed with ⟨there, -⟩ | ⟨-, -, below⟩
    · exact Nat.lt_of_lt_of_le (wf.used f there) (Nat.le_add_right _ _)
    · exact below
  distinct := by
    rw [commitBatch, map_append]
    refine List.Nodup.append ?_ (outputs_distinct table.nextPath) ?_
    · exact wf.distinct.sublist (filter_sublist.map _)
    · intro path old new
      obtain ⟨f, kept, rfl⟩ := mem_map.mp old
      obtain ⟨g, added, same⟩ := mem_map.mp new
      have used := wf.used f (mem_filter.mp kept).1
      have fresh := (mem_outputs added).2.1
      omega
  deletesUsed d listed :=
    Nat.lt_of_lt_of_le (wf.deletesUsed d (mem_filter.mp listed).1) (Nat.le_add_right _ _)
  positionsUsed d listed p named :=
    Nat.lt_of_lt_of_le (wf.positionsUsed d (mem_filter.mp listed).1 p named)
      (Nat.le_add_right _ _)
  references d listed := wf.references d (mem_filter.mp listed).1

end Commit

variable (table plan : Table Row)

/-- The workers of the run read, or will read, a version between the planned one and the current
one; for the first batch it is the planned one. -/
structure Pinned (retry : Bool) (cur : Table Row) : Prop where
  wf : cur.WellFormed
  planned : plan.Later cur
  current : cur.Later table
  first : retry = false → cur = plan

/-- The base of a commit, after the test before it. -/
structure Tested (retry : Bool) (batch : List (DataFile Row)) (cur base : Table Row) : Prop where
  wf : base.WellFormed
  current : base.Later table
  first : retry = false → base = plan
  clear : retry = true → newCoveringDelete batch cur base = false

def Read (batch : List (DataFile Row)) (cur : Table Row) (outputs : List (List Row)) : Prop :=
  outputs.flatten.Perm (batch.flatMap cur.rowsOf)

def PhaseSound (retry : Bool) (batch : List (DataFile Row)) :
    Phase Row → Prop
  | .dispatch cur => Pinned table plan retry cur
  | .aggregated cur outputs => Pinned table plan retry cur ∧ Read batch cur outputs
  | .commit cur outputs base => Pinned table plan retry cur ∧ Read batch cur outputs ∧
      Tested table plan retry batch cur base

structure JobSound (table : Table Row) (job : Job Row) : Prop where
  planWf : job.plan.WellFormed
  planned : job.plan.Later table
  files : ∀ f ∈ job.batches.flatten, f ∈ job.plan.dataFiles
  distinct : job.batches.flatten.Nodup
  /-- After the first batch, a position delete that is newer than the plan and references no file
  is not on the files left. -/
  attributed : job.retryOnConflict = true → ∀ d ∈ table.positionDeletes,
    job.plan.version < d.sequenceNumber → d.referencedDataFile = none →
      ∀ f ∈ job.batches.flatten, ∀ p ∈ d.positions, p.1 ≠ f.path
  phase : PhaseSound table job.plan job.retryOnConflict (job.batches.headD []) job.phase

structure Sound (s : State Row) : Prop where
  wf : s.table.WellFormed
  job : ∀ job, s.job = some job → JobSound s.table job

section Known

variable {table plan cur base : Table Row} {rest : List (List (DataFile Row))} {retry : Bool}
  {attempt : Nat} {outputs : List (List Row)}

variable
  (sound : JobSound table ⟨plan, batch :: rest, retry, attempt, .commit cur outputs base⟩)
  (wf : table.WellFormed) (accepted : refuses batch base table = false)
include sound wf accepted

theorem known_of_accepted (member : f ∈ batch) (listed : d ∈ table.positionDeletes) {position : Nat}
    (named : (f.path, position) ∈ d.positions) : d ∈ cur.positionDeletes := by
  obtain ⟨pinned, -, tested⟩ := sound.phase
  have quiet := (of_not_refuses accepted).1 d listed
  -- A delete that references a file and names this one references this one.
  have attributed : d.referencedDataFile ≠ none → references batch d = true := by
    intro isSome
    obtain ⟨path, reference⟩ := Option.ne_none_iff_exists'.mp isSome
    have same : f.path = path := wf.references d listed path reference _ named
    exact references_iff.mpr ⟨f, member, same ▸ reference⟩
  rcases pinned.current.positionDeletes d listed with known | ⟨newer, unused⟩
  · exact known
  · exfalso
    cases retry with
    | false =>
      have same : base = cur := (tested.first rfl).trans (pinned.first rfl).symm
      obtain ⟨unreferenced, isSome⟩ := quiet (same ▸ newer)
      rw [attributed isSome] at unreferenced
      cases unreferenced
    | true =>
      rcases tested.current.positionDeletes d listed with based | ⟨young, -⟩
      · by_cases anonymous : d.referencedDataFile = none
        · have planned := pinned.planned.version
          exact sound.attributed rfl d listed (Nat.lt_of_le_of_lt planned newer) anonymous f
            (mem_flatten_of_mem mem_cons_self member) _ named rfl
        · have named : references batch d = true := attributed anonymous
          have kept := any_eq_false.mp (tested.clear rfl) d based
          obtain ⟨known, there, same⟩ : ∃ known ∈ cur.positionDeletes, known.path = d.path := by
            simpa [named] using kept
          have used := pinned.wf.deletesUsed known there
          omega
      · obtain ⟨unreferenced, isSome⟩ := quiet young
        rw [attributed isSome] at unreferenced
        cases unreferenced

omit wf in
theorem present_of_accepted (member : f ∈ batch) : f ∈ table.dataFiles := by
  obtain ⟨g, there, same⟩ := (of_not_refuses accepted).2 f member
  have planned := sound.files f (mem_flatten_of_mem mem_cons_self member)
  exact sound.planned.eq_of_path_eq sound.planWf planned there same ▸ there

theorem visible_of_accepted :
    (commitBatch plan.version batch outputs base table).visible.Perm table.visible := by
  obtain ⟨pinned, read, -⟩ := sound.phase
  have distinct : batch.Nodup := (nodup_append.mp sound.distinct).1
  exact visible_commitBatch wf sound.planWf pinned.planned pinned.current distinct
    (fun f member => sound.files f (mem_flatten_of_mem mem_cons_self member))
    (fun f member => present_of_accepted sound accepted member)
    (fun f member d listed position named =>
      known_of_accepted sound wf accepted member listed named)
    read

theorem jobSound_nextBatch : JobSound (commitBatch plan.version batch outputs base table)
      ⟨plan, rest, true, 1, .dispatch plan⟩ where
  planWf := sound.planWf
  planned := sound.planned.trans sound.planWf (later_commitBatch wf)
  files f member := sound.files f (mem_append_right _ member)
  distinct := (nodup_append.mp sound.distinct).2.1
  attributed _ d listed newer anonymous f member := by
    have there := (mem_filter.mp listed).1
    cases retry with
    | true =>
      exact sound.attributed rfl d there newer anonymous f (mem_append_right _ member)
    | false =>
      -- The first commit refuses such a delete, whatever file it is on.
      have same : base = plan := sound.phase.2.2.first rfl
      exact absurd anonymous ((of_not_refuses accepted).1 d there (same ▸ newer)).2
  phase := ⟨sound.planWf, .refl plan,
    sound.planned.trans sound.planWf (later_commitBatch wf), fun _ => rfl⟩

end Known

section Steps

variable {table next plan cur base : Table Row} {job : Job Row} {retry : Bool}

theorem Pinned.later (pinned : Pinned table plan retry cur) (later : table.Later next) :
    Pinned next plan retry cur :=
  ⟨pinned.wf, pinned.planned, pinned.current.trans pinned.wf later, pinned.first⟩

theorem Tested.later (tested : Tested table plan retry batch cur base)
    (later : table.Later next) : Tested next plan retry batch cur base :=
  ⟨tested.wf, tested.current.trans tested.wf later, tested.first, tested.clear⟩

theorem JobSound.later (sound : JobSound table job) (later : table.Later next)
    (attributed : job.retryOnConflict = true → ∀ d ∈ next.positionDeletes,
      d ∉ table.positionDeletes → d.referencedDataFile = none →
        ∀ f ∈ job.batches.flatten, ∀ p ∈ d.positions, p.1 ≠ f.path) :
    JobSound next job where
  planWf := sound.planWf
  planned := sound.planned.trans sound.planWf later
  files := sound.files
  distinct := sound.distinct
  attributed retried d listed newer anonymous := by
    by_cases there : d ∈ table.positionDeletes
    · exact sound.attributed retried d there newer anonymous
    · exact attributed retried d listed there anonymous
  phase := by
    have phase := sound.phase
    cases at_ : job.phase with
    | dispatch cur =>
      rw [at_] at phase
      exact Pinned.later phase later
    | aggregated cur outputs =>
      rw [at_] at phase
      exact ⟨phase.1.later later, phase.2⟩
    | commit cur outputs base =>
      rw [at_] at phase
      exact ⟨phase.1.later later, phase.2.1, phase.2.2.later later⟩

theorem JobSound.withPhase (sound : JobSound table job) (attempt : Nat) (phase : Phase Row)
    (sound' : PhaseSound table job.plan job.retryOnConflict (job.batches.headD []) phase) :
    JobSound table { job with attempt := attempt, phase := phase } :=
  ⟨sound.planWf, sound.planned, sound.files, sound.distinct, sound.attributed, sound'⟩

theorem sound_redispatch {s : State Row} (wf : s.table.WellFormed) (sound : JobSound s.table job)
    (retried : job.retryOnConflict = true) : Sound (redispatch s job) := by
  unfold redispatch
  split
  · refine ⟨wf, ?_⟩
    rintro _ ⟨⟩
    refine sound.withPhase _ (.dispatch s.table) ⟨wf, sound.planned, .refl _, ?_⟩
    intro first
    rw [show _ = true from retried] at first
    cases first
  · exact ⟨wf, by simp⟩

theorem sound_step {s s' : State Row} {e : Event Row} (sound : Sound s)
    (faithful : Faithful s e) (attributed : Attributed s e) (taken : step s e = some s') :
    Sound s' := by
  obtain ⟨wf, jobs⟩ := sound
  have onward {job : Job Row} (sound : JobSound s.table job) :
      Sound { s with job := some job } := ⟨wf, by rintro _ ⟨⟩; exact sound⟩
  revert taken
  -- the steps that are taken, in the order of `step`
  fun_cases step s e <;> rintro ⟨⟩
  · obtain ⟨-, later, nextWf⟩ := faithful
    exact ⟨nextWf, fun job same => (jobs job same).later later (attributed job same)⟩
  · exact onward ⟨wf, .refl _, faithful.2, faithful.1, nofun, wf, .refl _, .refl _, fun _ => rfl⟩
  next outputs plan batches retry attempt cur same =>
    have sound := jobs _ same
    exact onward (sound.withPhase attempt (.aggregated cur outputs)
      ⟨sound.phase, faithful _ cur same rfl⟩)
  · exact ⟨wf, by simp⟩
  next plan batch rest retry attempt cur outputs same first =>
    have sound := jobs _ same
    have first : retry = false := by simpa using first
    subst first
    exact onward (sound.withPhase attempt (.commit cur outputs plan)
      ⟨sound.phase.1, sound.phase.2, sound.planWf, sound.planned, fun _ => rfl, nofun⟩)
  next retry _ _ _ same retried _ =>
    have retried : retry = true := by simpa using retried
    exact sound_redispatch wf (jobs _ same) retried
  next plan batch rest retry attempt cur outputs same retried clear =>
    have sound := jobs _ same
    have retried : retry = true := by simpa using retried
    subst retried
    exact onward (sound.withPhase attempt (.commit cur outputs s.table)
      ⟨sound.phase.1, sound.phase.2, wf, .refl _, nofun, fun _ => Bool.eq_false_iff.mpr clear⟩)
  next plan batch rest retry attempt cur outputs base same accepted =>
    have accepted : refuses batch base s.table = false := Bool.eq_false_iff.mpr accepted
    have sound := jobs _ same
    refine ⟨wellFormed_commitBatch wf sound.planned.version, ?_⟩
    intro job isNext
    cases rest with
    | nil => cases isNext
    | cons first others =>
      cases isNext
      exact jobSound_nextBatch sound wf accepted
  next same => exact sound_redispatch wf (jobs _ same) rfl
  · exact ⟨wf, by simp⟩

end Steps

def Starts (s : State Row) : Prop := s.table.WellFormed ∧ s.job = none

theorem commit_eq_accepted {s s' : State Row} (taken : step s .commit = some s') :
    ∃ plan batch rest retry attempt cur outputs base,
      s.job = some ⟨plan, batch :: rest, retry, attempt, .commit cur outputs base⟩ ∧
        refuses batch base s.table = false ∧
        s'.table = commitBatch plan.version batch outputs base s.table := by
  simp only [step] at taken
  split at taken
  next plan batch rest retry attempt cur outputs base same =>
    split at taken
    · cases taken
    next accepted =>
      cases taken
      exact ⟨plan, batch, rest, retry, attempt, cur, outputs, base, same,
        Bool.eq_false_iff.mpr accepted, rfl⟩
  next => cases taken

/-- Every commit of a run leaves the multiset of visible rows as it was, where the position deletes
that others commit between its batches reference their data files. -/
theorem compaction_keeps_rows {s s' : State Row}
    (reached : Transition.Reachable Starts step (fun s e => Faithful s e ∧ Attributed s e) s)
    (taken : step s .commit = some s') : s'.table.visible.Perm s.table.visible := by
  have sound : Sound s := by
    refine reached.invariant ?_ ?_
    · rintro s ⟨wf, idle⟩
      refine ⟨wf, fun job same => ?_⟩
      rw [idle] at same
      cases same
    · rintro s e s' sound ⟨faithful, attributed⟩ taken
      exact sound_step sound faithful attributed taken
  obtain ⟨plan, batch, rest, retry, attempt, cur, outputs, base, same, accepted, result⟩ :=
    commit_eq_accepted taken
  rw [result]
  exact visible_of_accepted (sound.job _ same) sound.wf accepted

namespace Sample

def planned : Table Nat where
  dataFiles := [⟨0, 1, [10]⟩, ⟨1, 1, [20, 21]⟩]
  equalityDeletes := []
  positionDeletes := []
  version := 1
  nextPath := 2

def batches : List (List (DataFile Nat)) := [[⟨0, 1, [10]⟩], [⟨1, 1, [20, 21]⟩]]

def halfway : Table Nat where
  dataFiles := [⟨1, 1, [20, 21]⟩, ⟨2, 1, [10]⟩]
  equalityDeletes := []
  positionDeletes := []
  version := 2
  nextPath := 3

variable (reference : Option Nat)

/-- Then another writer deletes the first row of the other file, with or without a reference. -/
def deleted : Table Nat where
  dataFiles := [⟨1, 1, [20, 21]⟩, ⟨2, 1, [10]⟩]
  equalityDeletes := []
  positionDeletes := [⟨3, 3, reference, [(1, 0)]⟩]
  version := 3
  nextPath := 4

def second (attempt : Nat) (phase : Phase Nat) : Job Nat :=
  ⟨planned, [[⟨1, 1, [20, 21]⟩]], true, attempt, phase⟩

theorem planned_wf : planned.WellFormed := by
  constructor <;> simp [planned]

theorem halfway_later : halfway.Later (deleted reference) := by
  constructor <;> try simp [halfway, deleted]
  constructor <;> simp [Snapshot.live, equalityDeleted, positionDeleted]

theorem deleted_wf {reference : Option Nat} (own : ∀ path, reference = some path → path = 1) :
    (deleted reference).WellFormed := by
  constructor <;> try simp [deleted]
  exact fun path same => (own path same).symm

variable {condition : State Nat → Event Nat → Prop}

theorem reaches_deleted (harmless : ∀ s e, (∀ next, e ≠ .other next) → Faithful s e → condition s e)
    (lands : condition ⟨halfway, some (second 1 (.dispatch planned))⟩
      (.other (deleted reference))) :
    Transition.Reachable Starts step condition
      ⟨deleted reference, some (second 1 (.dispatch planned))⟩ := by
  have start : Transition.Reachable Starts step condition ⟨planned, none⟩ :=
    .start ⟨planned_wf, rfl⟩
  have plan := start.next
    (harmless _ (.plan batches) (by simp) ⟨by simp [batches], by simp [batches, planned]⟩) rfl
  have work := plan.next (harmless _ (.work [[10]]) (by simp) (by
    rintro _ _ ⟨⟩ ⟨⟩
    exact .refl _)) rfl
  have check := work.next (harmless _ .check (by simp) trivial) rfl
  have commit := check.next (harmless _ .commit (by simp) trivial) rfl
  exact commit.next (e := .other (deleted reference)) lands rfl

theorem reaches_second {reference : Option Nat}
    (harmless : ∀ s e, (∀ next, e ≠ .other next) → Faithful s e → condition s e)
    (reached : Transition.Reachable Starts step condition
      ⟨deleted reference, some (second 1 (.dispatch planned))⟩) :
    Transition.Reachable Starts step condition
      ⟨deleted reference, some (second 1 (.aggregated planned [[20, 21]]))⟩ := by
  refine .next (e := .work [[20, 21]]) reached (harmless _ _ (by simp) ?_) rfl
  rintro _ _ ⟨⟩ ⟨⟩
  exact .refl _

end Sample

/-- A delete that references its file is found before the second commit, and the batch is read
again. -/
theorem referenced_delete_kept :
    ∃ s s' : State Nat, s.table = Sample.deleted (some 1) ∧ step s .commit = some s' ∧
      s'.table.visible.Perm s.table.visible := by
  have harmless (s : State Nat) (e : Event Nat) (own : ∀ next, e ≠ .other next)
      (faithful : Faithful s e) : Faithful s e ∧ Attributed s e := by
    refine ⟨faithful, ?_⟩
    cases e with
    | other next => exact absurd rfl (own next)
    | plan | work | fail | check | commit | conflict => trivial
  have reached := Sample.reaches_second harmless (Sample.reaches_deleted (some 1) harmless
    ⟨⟨rfl, Sample.halfway_later _, Sample.deleted_wf (by simp)⟩, by
      rintro _ ⟨⟩ -
      simp [Sample.deleted]⟩)
  have again := reached.next (harmless _ .check (by simp) trivial) rfl
  have reread := again.next (harmless _ (.work [[21]]) (by simp) (by
    rintro _ _ ⟨⟩ ⟨⟩
    exact .refl _)) rfl
  have ready := reread.next (harmless _ .check (by simp) trivial) rfl
  exact ⟨_, _, rfl, rfl, compaction_keeps_rows ready rfl⟩

/-- A delete that references no file passes both tests of the second batch, and the row it deleted
is back. -/
theorem unreferenced_delete_lost :
    ∃ s s' : State Nat, Transition.Reachable Starts step Faithful s ∧
      step s .commit = some s' ∧ s.table.visible = [21, 10] ∧ s'.table.visible = [10, 20, 21] := by
  have reached := Sample.reaches_second (fun _ _ _ => id) (Sample.reaches_deleted none
    (fun _ _ _ => id) ⟨rfl, Sample.halfway_later _, Sample.deleted_wf (by simp)⟩)
  have ready := reached.next (e := Event.check) trivial rfl
  exact ⟨_, _, ready, rfl, rfl, rfl⟩

end Sqe.Coordinator.Compaction
