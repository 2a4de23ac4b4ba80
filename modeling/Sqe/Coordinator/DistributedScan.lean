/- GID: Sqe/Coordinator/DistributedScan
   generality: I
   digest: A distributed scan, with the retries of its tasks, reads every undeleted row once. -/

import Sqe.Planner.ScanMorsel
import Sqe.Worker.Scan

set_option autoImplicit false

namespace Sqe.Coordinator

open Sqe.Library.Tiling Option
open Sqe.Planner
open Sqe.Worker List

section Tasks

-- the data files that have position deletes or a deletion vector, with the positions
variable (deleteTasks : String → Option DeleteVector)

def encodeDeletes (paths : List String) : Option (List (String × DeleteVector)) :=
  let tasks := paths.filterMap fun path => (deleteTasks path).map fun deletes => (path, deletes)
  if tasks.isEmpty then none else some tasks

/-- One task for files that are read whole. -/
def filesTask (morsels : List ScanMorsel) : ScanTask where
  dataFilePaths := morsels.map ScanMorsel.filePath
  fileSizesBytes := morsels.map ScanMorsel.fileSizeBytes
  morselId := none
  rowGroupStart := none
  rowGroupEnd := none
  startByte := none
  endByte := none
  deleteTasks := encodeDeletes deleteTasks (morsels.map ScanMorsel.filePath)

def morselTask (morsel : ScanMorsel) : ScanTask :=
  let range :=
    match morsel.startByte, morsel.endByte with
    | some start, some stop => (some start, some stop)
    | _, _ => (none, none)
  { dataFilePaths := [morsel.filePath]
    fileSizesBytes := [morsel.fileSizeBytes]
    morselId := some morsel.morselId
    rowGroupStart := none
    rowGroupEnd := none
    startByte := range.1
    endByte := range.2
    deleteTasks := encodeDeletes deleteTasks [morsel.filePath] }

def groupTasks (group : List ScanMorsel) : List ScanTask :=
  if group.isEmpty then []
  else if group.all fun m => m.startByte.isNone && m.endByte.isNone then
    [filesTask deleteTasks group]
  else group.map (morselTask deleteTasks)

/-- A map of the morsels by name keeps the last one of a name. -/
def morselById (morsels : List ScanMorsel) (id : String) : Option ScanMorsel :=
  morsels.reverse.find? fun m => m.morselId = id

def scanTasks (fileInfo : List (String × Nat)) (morselTarget morselMax targetSizeBytes : Nat)
    (numWorkers : Nat) : List ScanTask :=
  let morsels := planScanMorselsByFile fileInfo morselTarget morselMax fun path =>
    !(deleteTasks path).isSome
  let maxBins := max (max (numWorkers * 32) (numWorkers * 3)) 1
  let units := morsels.map fun m => (m.morselId, max m.compressedBytesEstimate 1)
  let groups := binPackFiles units targetSizeBytes maxBins
  (groups.filter fun group => !group.isEmpty).flatMap fun group =>
    groupTasks deleteTasks (group.filterMap fun unit => morselById morsels unit.1)

/-- Build the tasks; the two defaults bound the size of a morsel. -/
def distributeIcebergScan (defaultTarget defaultMax : Nat) (fileInfo : List (String × Nat))
    (targetSizeBytes numWorkers : Nat) : Except String (List ScanTask) :=
  let morselTarget := min defaultTarget targetSizeBytes
  let morselMax := max defaultMax morselTarget
  let tasks := scanTasks deleteTasks fileInfo morselTarget morselMax targetSizeBytes numWorkers
  if tasks.isEmpty then
    .error ("morsel planning produced no scan tasks from " ++ toString fileInfo.length ++
      " data files")
  else .ok tasks

end Tasks

inductive AttemptPolicy
  | retryElsewhere
  | retrySameWorker
  | failFast
deriving DecidableEq

/-- Why an attempt failed, and whether another healthy worker is found after it. -/
structure AttemptFailure where
  policy : AttemptPolicy
  another : Bool

inductive StreamEnd
  | eof
  /-- A batch that does not have the columns of the plan. -/
  | mismatch
  | failed (failure : AttemptFailure)

inductive Attempt (Row : Type)
  | refused (failure : AttemptFailure)
  | streamed (batches : List (List Row)) (ended : StreamEnd)

section Drive

variable {Row : Type}

/-- Whether a failed attempt is followed by another. -/
def retries (failure : AttemptFailure) (left : Nat) : Bool :=
  match failure.policy with
  | .failFast => false
  | .retrySameWorker => 0 < left
  | .retryElsewhere => 0 < left && failure.another

/-- Run a task with so many retries left: the batches handed on, if it ends without an error. A
stream that fails is dispatched again only if it has handed on nothing. -/
def drive (history : Nat → Attempt Row) : Nat → Nat → Option (List (List Row))
  | left, attempt =>
    match history attempt with
    | .streamed batches .eof => some batches
    | .streamed _ .mismatch => none
    | .streamed batches (.failed failure) =>
      if batches.isEmpty && retries failure left then
        match left with
        | 0 => none
        | left + 1 => drive history left (attempt + 1)
      else none
    | .refused failure =>
      if retries failure left then
        match left with
        | 0 => none
        | left + 1 => drive history left (attempt + 1)
      else none

/-- A stream that ends has carried the rows of the task, in batches of any size. -/
def Attempt.Reads (rows : List Row) : Attempt Row → Prop
  | .streamed batches .eof => batches.flatten = rows
  | _ => True

theorem drive_reads {history : Nat → Attempt Row} {rows : List Row}
    (reads : ∀ attempt, (history attempt).Reads rows) {left attempt : Nat}
    {batches : List (List Row)} (finished : drive history left attempt = some batches) :
    batches.flatten = rows := by
  induction left generalizing attempt with
  | zero =>
    have here := reads attempt
    rw [drive] at finished
    split at finished
    next all outcome =>
      rw [outcome] at here
      cases finished
      exact here
    · cases finished
    · split at finished <;> cases finished
    · split at finished <;> cases finished
  | succ left ih =>
    have here := reads attempt
    rw [drive] at finished
    split at finished
    next all outcome =>
      rw [outcome] at here
      cases finished
      exact here
    · cases finished
    · split at finished
      · exact ih finished
      · cases finished
    · split at finished
      · exact ih finished
      · cases finished

end Drive

section Reads

variable {Row : Type} (deleteTasks : String → Option DeleteVector)
  (store : String → ParquetFile Row)

def liveDeletes (path : String) : Option DeleteVector :=
  (deleteTasks path).filter fun deletes => !deletes.positions.isEmpty

theorem lookup_encodeDeletes {paths : List String} {path : String} (listed : path ∈ paths) :
    (encodeDeletes deleteTasks paths).bind (List.lookup path) = deleteTasks path := by
  have found : (paths.filterMap fun path =>
      (deleteTasks path).map fun deletes => (path, deletes)).lookup path = deleteTasks path := by
    induction paths with
    | nil => cases listed
    | cons first rest ih =>
      by_cases same : path = first
      · subst same
        cases has : deleteTasks path with
        | some deletes => simp [has]
        | none =>
          have absent : ∀ others : List String, (others.filterMap fun path =>
              (deleteTasks path).map fun deletes => (path, deletes)).lookup path = none := by
            intro others
            rw [lookup_eq_none_iff]
            intro entry member
            obtain ⟨other, -, made⟩ := mem_filterMap.mp member
            obtain ⟨deletes, holds, rfl⟩ := map_eq_some_iff.mp made
            simp only [bne_iff_ne, ne_eq]
            rintro rfl
            rw [has] at holds
            cases holds
          exact absent _
      · have later := ih ((mem_cons.mp listed).resolve_left same)
        cases has : deleteTasks first with
        | none => simpa [has] using later
        | some deletes => simpa [has, lookup_cons, beq_false_of_ne same] using later
  simp only [encodeDeletes]
  split
  next empty =>
    rw [List.isEmpty_iff.mp empty] at found
    exact found
  · exact found

theorem loadDeletes_encoded (task : ScanTask) {paths : List String} {path : String}
    (encoded : task.deleteTasks = encodeDeletes deleteTasks paths) (listed : path ∈ paths) :
    loadDeletes task path = liveDeletes deleteTasks path := by
  rw [loadDeletes, encoded, lookup_encodeDeletes deleteTasks listed, liveDeletes]

theorem undeletedRows_liveDeletes (path : String) :
    undeletedRows (store path) (liveDeletes deleteTasks path) =
      undeletedRows (store path) (deleteTasks path) := by
  rw [liveDeletes]
  cases deleteTasks path with
  | none => rfl
  | some deletes =>
    cases empty : deletes.positions.isEmpty with
    | false => rw [filter_some, empty, Bool.not_false, if_pos rfl]
    | true =>
      rw [filter_some, empty, Bool.not_true, if_neg (by decide), undeletedRows,
        undeletedRows, map_some, List.isEmpty_iff.mp empty]
      rfl

def readMorsel (morsel : ScanMorsel) : List Row :=
  openParquetStream (morselTask deleteTasks morsel) (store morsel.filePath)
    (liveDeletes deleteTasks morsel.filePath)

theorem scanTask_morselTask (morsel : ScanMorsel) :
    scanTask store (morselTask deleteTasks morsel) = readMorsel deleteTasks store morsel := by
  have loaded := loadDeletes_encoded deleteTasks (morselTask deleteTasks morsel) rfl
    (mem_singleton_self morsel.filePath)
  rw [readMorsel, ← loaded, scanTask]
  exact flatMap_singleton ..

theorem scanTask_groupTasks (group : List ScanMorsel) :
    (groupTasks deleteTasks group).flatMap (scanTask store) =
      group.flatMap (readMorsel deleteTasks store) := by
  rw [groupTasks]
  split
  next empty =>
    rw [List.isEmpty_iff.mp empty]
    rfl
  · split
    next whole =>
      rw [flatMap_singleton, scanTask, filesTask, flatMap_map]
      refine flatMap_congr fun morsel listed => ?_
      have paths : morsel.filePath ∈ group.map ScanMorsel.filePath := mem_map_of_mem listed
      rw [loadDeletes_encoded deleteTasks _ rfl paths, readMorsel]
      -- neither task has a range
      have unranged := all_eq_true.mp whole morsel listed
      rw [Bool.and_eq_true, isNone_iff_eq_none, isNone_iff_eq_none] at unranged
      simp only [openParquetStream, selectRowGroups, morselTask, unranged.1]
      rfl
    · rw [flatMap_map]
      exact flatMap_congr fun morsel _ => scanTask_morselTask deleteTasks store morsel

theorem perm_planFile {path : String} {size : Nat} (truthful : (store path).Truthful size)
    (targetBytes maxBytes factor : Nat) :
    ((planFileByteMorsels path size targetBytes maxBytes factor
        (!(deleteTasks path).isSome)).flatMap (readMorsel deleteTasks store)).Perm
      (undeletedRows (store path) (deleteTasks path)) := by
  rw [planFileByteMorsels]
  split
  · have whole : selectRowGroups (morselTask deleteTasks (fileMorsel path size factor))
        (store path) = none := rfl
    rw [flatMap_singleton, ← undeletedRows_liveDeletes]
    exact .of_eq (openParquetStream_whole whole truthful.counted _)
  next divided =>
    have none : deleteTasks path = none := by
      cases has : deleteTasks path with
      | none => rfl
      | some deletes => simp [has] at divided
    have tiles := tiles_byteRanges size _ (chunk_pos targetBytes maxBytes) 0 (Nat.zero_le _)
    rw [flatMap_map, none]
    have read : ∀ range ∈ byteRanges size _ (chunk_pos targetBytes maxBytes) 0,
        readMorsel deleteTasks store (byteMorsel path size factor range) =
          (store path).rowsIn range := by
      intro range listed
      rw [readMorsel, byteMorsel, liveDeletes, none]
      exact openParquetStream_range _ rfl rfl rfl rfl (tiles.bounds range listed).2
    rw [flatMap_congr read]
    exact (perm_rowsIn truthful tiles).trans
      (List.Perm.of_eq (undeletedFrom_nil 0 (store path).rows).symm)

theorem morselById_of_mem {morsels : List ScanMorsel}
    (distinct : (morsels.map ScanMorsel.morselId).Nodup) {morsel : ScanMorsel}
    (listed : morsel ∈ morsels) : morselById morsels morsel.morselId = some morsel := by
  rw [morselById]
  cases found : morsels.reverse.find? fun m => m.morselId = morsel.morselId with
  | none =>
    have absent := find?_eq_none.mp found morsel (mem_reverse.mpr listed)
    simp at absent
  | some other =>
    have same : other.morselId = morsel.morselId := by simpa using find?_some found
    have member := mem_reverse.mp (mem_of_find?_eq_some found)
    exact congrArg some (inj_on_of_nodup_map distinct member listed same)

theorem perm_groups {morsels : List ScanMorsel}
    (distinct : (morsels.map ScanMorsel.morselId).Nodup) (targetSizeBytes : Nat) {maxBins : Nat}
    (some : 0 < maxBins) :
    ((binPackFiles (morsels.map fun m => (m.morselId, max m.compressedBytesEstimate 1))
        targetSizeBytes maxBins).flatMap fun group =>
          group.filterMap fun unit => morselById morsels unit.1).Perm morsels := by
  have packed := (flatten_binPackFiles (morsels.map fun m =>
    (m.morselId, max m.compressedBytesEstimate 1)) targetSizeBytes some).filterMap
      fun unit => morselById morsels unit.1
  have found : (morsels.map fun m => (m.morselId, max m.compressedBytesEstimate 1)).filterMap
      (fun unit => morselById morsels unit.1) = morsels := by
    rw [filterMap_map]
    refine (filterMap_congr fun morsel listed => ?_).trans (filterMap_some)
    exact morselById_of_mem distinct listed
  rw [found, filterMap_flatten] at packed
  exact packed

theorem flatMap_nonempty {α β : Type} {f : List α → List β} (nothing : f [] = [])
    (groups : List (List α)) :
    (groups.filter fun group => !group.isEmpty).flatMap f = groups.flatMap f := by
  induction groups with
  | nil => rfl
  | cons group rest ih => cases group <;> simp [ih, nothing]

theorem perm_scanTasks {fileInfo : List (String × Nat)} (distinct : (fileInfo.map Prod.fst).Nodup)
    (truthful : ∀ file ∈ fileInfo, (store file.1).Truthful file.2)
    (morselTarget morselMax targetSizeBytes numWorkers : Nat) :
    ((scanTasks deleteTasks fileInfo morselTarget morselMax targetSizeBytes numWorkers).flatMap
        (scanTask store)).Perm
      (fileInfo.flatMap fun file => undeletedRows (store file.1) (deleteTasks file.1)) := by
  have names := nodup_morselId distinct morselTarget morselMax fun path =>
    !(deleteTasks path).isSome
  have bins : 0 < max (max (numWorkers * 32) (numWorkers * 3)) 1 := by omega
  have groups := (perm_groups names targetSizeBytes bins).flatMap_right
    (readMorsel deleteTasks store)
  have files := List.Perm.flatMap_left fileInfo fun file listed =>
    perm_planFile deleteTasks store (truthful file listed) morselTarget morselMax decodedFactor
  rw [flatMap_assoc] at groups
  rw [scanTasks, flatMap_assoc, flatMap_nonempty rfl]
  refine .trans (.of_eq ?_) (groups.trans (.trans (.of_eq ?_) files))
  · exact flatMap_congr fun group _ => scanTask_groupTasks deleteTasks store _
  · rw [planScanMorselsByFile, flatMap_assoc]

theorem scanTasks_ne_nil {fileInfo : List (String × Nat)}
    (distinct : (fileInfo.map Prod.fst).Nodup) (some : fileInfo ≠ [])
    (morselTarget morselMax targetSizeBytes numWorkers : Nat) :
    scanTasks deleteTasks fileInfo morselTarget morselMax targetSizeBytes numWorkers ≠ [] := by
  have names := nodup_morselId distinct morselTarget morselMax fun path =>
    !(deleteTasks path).isSome
  have bins : 0 < max (max (numWorkers * 32) (numWorkers * 3)) 1 := by omega
  have groups := perm_groups names targetSizeBytes bins
  obtain ⟨file, listed⟩ := exists_mem_of_ne_nil fileInfo some
  obtain ⟨morsel, planned⟩ := exists_mem_of_ne_nil _ (planFileByteMorsels_ne_nil file.1 file.2
    morselTarget morselMax decodedFactor (!(deleteTasks file.1).isSome))
  have inPlan : morsel ∈ planScanMorselsByFile fileInfo morselTarget morselMax fun path =>
      !(deleteTasks path).isSome := mem_flatMap.mpr ⟨file, listed, planned⟩
  obtain ⟨group, packed, found⟩ := mem_flatMap.mp (groups.mem_iff.mpr inPlan)
  intro none
  rw [scanTasks, flatMap_nonempty rfl, flatMap_eq_nil_iff] at none
  have noTask := none group packed
  rw [groupTasks] at noTask
  split at noTask
  next empty =>
    rw [List.isEmpty_iff.mp empty] at found
    cases found
  next full =>
    split at noTask
    · cases noTask
    · rw [map_eq_nil_iff] at noTask
      rw [noTask] at full
      exact full rfl

def Finished (maxRetries : Nat) (tasks : List ScanTask) (outputs : List (List (List Row))) : Prop :=
  Forall₂ (fun task output => ∃ history : Nat → Attempt Row,
    (∀ attempt, (history attempt).Reads (scanTask store task)) ∧
      drive history maxRetries 0 = some output) tasks outputs

theorem flatten_outputs {maxRetries : Nat} {tasks : List ScanTask}
    {outputs : List (List (List Row))} (finished : Finished store maxRetries tasks outputs) :
    outputs.flatten.flatten = tasks.flatMap (scanTask store) := by
  induction finished with
  | nil => rfl
  | cons ended _ ih =>
    obtain ⟨history, reads, run⟩ := ended
    rw [flatten_cons, flatten_append, flatMap_cons, ih, drive_reads reads run]

theorem finished_at_once (maxRetries : Nat) (tasks : List ScanTask) :
    Finished store maxRetries tasks (tasks.map fun task => [scanTask store task]) := by
  rw [Finished, forall₂_map_right_iff]
  refine forall₂_same.mpr fun task _ => ⟨fun _ => .streamed [scanTask store task] .eof, ?_, ?_⟩
  · exact fun _ => flatten_singleton
  · cases maxRetries <;> rfl

end Reads

/-- A scan is distributed whenever there is a file to read. Whatever the sizes of the morsels and
of the tasks, the number of workers and the attempts each task takes, the tasks that end have
together handed on every undeleted row of the files once. -/
theorem distributed_scan_reads_once {Row : Type} (deleteTasks : String → Option DeleteVector)
    (store : String → ParquetFile Row) (fileInfo : List (String × Nat))
    (distinct : (fileInfo.map Prod.fst).Nodup)
    (truthful : ∀ file ∈ fileInfo, (store file.1).Truthful file.2)
    (defaultTarget defaultMax targetSizeBytes numWorkers maxRetries : Nat) :
    (fileInfo ≠ [] → ∃ tasks, distributeIcebergScan deleteTasks defaultTarget defaultMax fileInfo
      targetSizeBytes numWorkers = .ok tasks) ∧
    ∀ tasks outputs, distributeIcebergScan deleteTasks defaultTarget defaultMax fileInfo
        targetSizeBytes numWorkers = .ok tasks →
      Finished store maxRetries tasks outputs →
      (outputs.flatten.flatten).Perm
        (fileInfo.flatMap fun file => undeletedRows (store file.1) (deleteTasks file.1)) := by
  simp only [distributeIcebergScan]
  refine ⟨fun some => ?_, fun tasks outputs built finished => ?_⟩
  · rw [if_neg (by
      rw [List.isEmpty_iff]
      exact scanTasks_ne_nil deleteTasks distinct some _ _ _ _)]
    exact ⟨_, rfl⟩
  · split at built
    · cases built
    · cases built
      rw [flatten_outputs store finished]
      exact perm_scanTasks deleteTasks store distinct truthful _ _ _ _

/-- A file of three row groups, the second without an offset, and a file with a deleted row. -/
def sampleStore : String → ParquetFile Nat := fun path =>
  if path = "a" then ⟨[⟨[1, 2], some 4, 120, 2⟩, ⟨[3], some 0, 90, 1⟩, ⟨[4, 5], none, 60, 2⟩]⟩
  else ⟨[⟨[6, 7, 8], some 4, 40, 3⟩]⟩

def sampleDeletes : String → Option DeleteVector := fun path =>
  if path = "b" then some ⟨[1], pairwise_singleton _ _⟩ else none

/-- The files are read in tasks of a hundred bytes, and all but the deleted row come out. -/
theorem sample_scan_reads_once :
    ∃ tasks outputs, distributeIcebergScan sampleDeletes defaultMorselTargetBytes
        defaultMorselMaxBytes [("a", 300), ("b", 60)] 100 2 = .ok tasks ∧
      Finished sampleStore 2 tasks outputs ∧
      outputs.flatten.flatten.Perm [1, 2, 3, 4, 5, 6, 8] := by
  have truthful : ∀ file ∈ [("a", 300), ("b", 60)], (sampleStore file.1).Truthful file.2 := by
    intro file listed
    simp only [mem_cons, not_mem_nil, or_false] at listed
    rcases listed with rfl | rfl
    · exact ⟨by decide, by decide, by decide, by decide⟩
    · exact ⟨by decide, by decide, by decide, by decide⟩
  obtain ⟨builds, reads⟩ := distributed_scan_reads_once sampleDeletes sampleStore
    [("a", 300), ("b", 60)] (by decide) truthful defaultMorselTargetBytes defaultMorselMaxBytes 100
    2 2
  obtain ⟨tasks, built⟩ := builds (by simp)
  have finished := finished_at_once sampleStore 2 tasks
  exact ⟨tasks, _, built, finished, reads tasks _ built finished⟩

end Sqe.Coordinator
