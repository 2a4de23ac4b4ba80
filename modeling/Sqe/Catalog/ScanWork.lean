/- GID: Sqe/Catalog/ScanWork
   generality: I
   digest: How the Iceberg scan hands the bytes of the data files to its output partitions. -/

import Mathlib.Algebra.Order.Ring.Nat
import Mathlib.Data.List.Flatten
import Mathlib.Data.List.Sort
import Sqe.Library.Interleave
import Sqe.Planner.ScanMorsel

/-!
A scan is planned once. Each output partition then takes its share of the plan: whole small files,
whole files when rows are deleted, byte ranges otherwise. Sizes are natural numbers, as in the
morsel planner.
-/

set_option autoImplicit false

namespace Sqe.Catalog.ScanWork

open Sqe.Library.Interleave Sqe.Library.Tiling
open Sqe.Planner (saturatingMul)
open List

/-- A data file as the manifests list it, with room for more than its magic header. -/
structure DataFile where
  path : String
  size : Nat
  isParquet : Bool
  room : 4 < size
deriving DecidableEq

structure RowGroup (R : Type) where
  compressedSize : Nat
  rows : List R

/-- The row groups of a file lie after its magic header and before its footer. -/
structure Layout (R : Type) (size : Nat) where
  groups : List (RowGroup R)
  fits : 4 + (groups.map RowGroup.compressedSize).sum < size

abbrev Contents (R : Type) := (file : DataFile) → Layout R file.size

/-- The row groups with their midpoints, laid out from an offset on. -/
def midpoints {R : Type} : Nat → List (RowGroup R) → List (Nat × RowGroup R)
  | _, [] => []
  | offset, group :: rest =>
    (offset + group.compressedSize / 2, group) :: midpoints (offset + group.compressedSize) rest

def Layout.rows {R : Type} {size : Nat} (layout : Layout R size) : List R :=
  layout.groups.flatMap RowGroup.rows

def Layout.filterRowGroupsByByteRange {R : Type} {size : Nat} (layout : Layout R size)
    (start length : Nat) : List (RowGroup R) :=
  ((midpoints 4 layout.groups).filter fun entry => within (start, start + length) entry.1).map
    Prod.snd

/-- The rows a task for a byte range decodes. An empty range at the start stands for the file. -/
def Layout.rowsIn {R : Type} {size : Nat} (layout : Layout R size) (start length : Nat) : List R :=
  if start != 0 || length != 0 then
    (layout.filterRowGroupsByByteRange start length).flatMap RowGroup.rows
  else layout.rows

section Midpoints

variable {R : Type}

theorem midpoints_map_snd (offset : Nat) (groups : List (RowGroup R)) :
    (midpoints offset groups).map Prod.snd = groups := by
  induction groups generalizing offset with
  | nil => rfl
  | cons group rest ih => rw [midpoints, map_cons, ih]

theorem midpoints_bounds (offset : Nat) (groups : List (RowGroup R)) :
    ∀ entry ∈ midpoints offset groups, offset ≤ entry.1 ∧
      entry.1 ≤ offset + (groups.map RowGroup.compressedSize).sum := by
  induction groups generalizing offset with
  | nil => intro entry listed; cases listed
  | cons group rest ih =>
    intro entry listed
    rw [map_cons, sum_cons]
    rcases mem_cons.mp listed with rfl | later
    · dsimp only
      omega
    · have bounds := ih _ entry later
      omega

variable {size : Nat}

variable (layout : Layout R size)

theorem Layout.midpoint_lt :
    ∀ entry ∈ midpoints 4 layout.groups, entry.1 < size := fun entry listed =>
  Nat.lt_of_le_of_lt (midpoints_bounds 4 layout.groups entry listed).2 layout.fits

theorem Layout.rowsIn_sublist (start length : Nat) :
    (layout.rowsIn start length).Sublist layout.rows := by
  rw [Layout.rowsIn]
  split
  · have groups := (filter_sublist (l := midpoints 4 layout.groups)
      (p := fun entry => within (start, start + length) entry.1)).map Prod.snd
    rw [midpoints_map_snd] at groups
    exact groups.flatMap _
  · exact .refl _

theorem Layout.rowsIn_whole : layout.rowsIn 0 size = layout.rows := by
  have positive : size ≠ 0 := by
    have fits := layout.fits
    omega
  have all : (midpoints 4 layout.groups).filter
      (fun entry => within (0, 0 + size) entry.1) = midpoints 4 layout.groups :=
    filter_eq_self.mpr fun entry listed => by
      simp [within, layout.midpoint_lt entry listed]
  rw [Layout.rowsIn, if_pos (by simp [positive]), Layout.filterRowGroupsByByteRange, all,
    midpoints_map_snd, Layout.rows]

end Midpoints

structure FileScanTask where
  file : DataFile
  start : Nat
  length : Nat
deriving DecidableEq

def FileScanTask.whole (file : DataFile) : FileScanTask := ⟨file, 0, file.size⟩

def FileScanTask.withByteRange (task : FileScanTask) (range : Nat × Nat) : FileScanTask :=
  { task with start := range.1, length := range.2 }

def divCeil (a b : Nat) : Nat := (a + b - 1) / b

/-- Near-equal ranges of a file that is worth splitting. -/
def chunkRanges (size target : Nat) : List (Nat × Nat) :=
  let chunks := divCeil size target
  let chunkLen := divCeil size chunks
  (List.range chunks).map fun i => (i * chunkLen, min chunkLen (size - i * chunkLen))

def fileByteSplits (size target : Nat) : List (Nat × Nat) :=
  if target == 0 || decide (size < saturatingMul target 2) then [(0, size)]
  else chunkRanges size target

/-- The reader's own splitting of a task. -/
def splitFileScanTask (target : Nat) (task : FileScanTask) : List FileScanTask :=
  let wholeFile := task.start == 0 && (task.length == 0 || task.length == task.file.size)
  if target == 0 || !wholeFile || !task.file.isParquet ||
      decide (task.file.size < saturatingMul target 2) then [task]
  else (chunkRanges task.file.size target).map task.withByteRange

structure SplitRange where
  fileIndex : Nat
  file : DataFile
  start : Nat
  length : Nat
deriving DecidableEq

/-- Longer ranges first, then by the file and the place in it. -/
def SplitRange.precedes (a b : SplitRange) : Prop :=
  ((compare b.length a.length).then (compare a.fileIndex b.fileIndex)).then
    (compare a.start b.start) ≠ .gt

instance : DecidableRel SplitRange.precedes := fun _ _ =>
  inferInstanceAs (Decidable (_ ≠ Ordering.gt))

def orderedSplitRanges (files : List DataFile) (target : Nat) : List SplitRange :=
  (files.zipIdx.flatMap fun (file, idx) =>
    (fileByteSplits file.size (if file.isParquet then target else 0)).map fun range =>
      ⟨idx, file, range.1, range.2⟩).insertionSort SplitRange.precedes

variable {α : Type}

/-- Every `total`-th element, from the place of the partition on. -/
def slice (total partition : Nat) (xs : List α) : List α :=
  (xs.zipIdx.filter fun entry => entry.2 % total == partition).map Prod.fst

/-- The tasks that `assign_all_split_tasks` gives to one partition. -/
def assignSplitTasks (files : List DataFile) (target total partition : Nat) : List FileScanTask :=
  (slice total partition (orderedSplitRanges files target)).map fun range =>
    ⟨range.file, range.start, range.length⟩

structure StaticScanPlan where
  files : List DataFile
  distinct : (files.map DataFile.path).Nodup
  hasDeletes : Bool

variable (plan : StaticScanPlan)

def StaticScanPlan.tasks : List DataFile :=
  plan.files.insertionSort fun a b => a.path ≤ b.path

/-- Larger files first, and the path breaks ties. -/
def DataFile.precedes (a b : DataFile) : Prop :=
  b.size < a.size ∨ a.size = b.size ∧ a.path ≤ b.path

instance : DecidableRel DataFile.precedes := fun a b =>
  inferInstanceAs (Decidable (b.size < a.size ∨ a.size = b.size ∧ a.path ≤ b.path))

def StaticScanPlan.fileEntries : List DataFile :=
  plan.tasks.insertionSort DataFile.precedes

def defaultScanSplitTargetSize : Nat := 32 * 1024 * 1024

structure ScanConfig where
  totalPartitions : Nat
  positive : 0 < totalPartitions
  smallFileThreshold : Nat
  splitTarget : Nat

namespace ScanConfig

def withTargetPartitions (smallFileThreshold targetPartitions : Nat) : ScanConfig where
  totalPartitions := max targetPartitions 1
  positive := Nat.le_max_right _ _
  smallFileThreshold := smallFileThreshold
  splitTarget := defaultScanSplitTargetSize

variable (cfg : ScanConfig) (plan : StaticScanPlan)

def useDirect : Bool :=
  !plan.hasDeletes && decide (0 < cfg.smallFileThreshold) &&
    plan.fileEntries.all fun file => file.size ≤ cfg.smallFileThreshold

def useSplitAssignment : Bool :=
  decide (1 < cfg.totalPartitions) && !cfg.useDirect plan && !plan.hasDeletes

def partitionEntries (partition : Nat) : List DataFile :=
  if 1 < cfg.totalPartitions then slice cfg.totalPartitions partition plan.fileEntries
  else plan.fileEntries

def myTasks (partition : Nat) : List FileScanTask :=
  if cfg.useSplitAssignment plan then
    assignSplitTasks plan.tasks cfg.splitTarget cfg.totalPartitions partition
  else if 1 < cfg.totalPartitions then
    let allowed := (cfg.partitionEntries plan partition).map DataFile.path
    (plan.tasks.filter fun file => allowed.contains file.path).map .whole
  else plan.tasks.map .whole

/-- What one output partition decodes, each unit on its own. -/
def workUnits (partition : Nat) : List FileScanTask :=
  if cfg.useDirect plan then (cfg.partitionEntries plan partition).map .whole
  else (cfg.myTasks plan partition).flatMap (splitFileScanTask cfg.splitTarget)

variable {R : Type} (contents : Contents R)

def unitRows (unit : FileScanTask) : List R :=
  if cfg.useDirect plan then (contents unit.file).rows
  else (contents unit.file).rowsIn unit.start unit.length

def reads (partition : Nat) : List (List R) :=
  (cfg.workUnits plan partition).map (cfg.unitRows plan contents)

/-- The orders in which a partition may hand over what it decodes: small files as they complete,
each at once, and batches of concurrent tasks in any interleaving. -/
def Emits (partition : Nat) (out : List R) : Prop :=
  if cfg.useDirect plan then
    ∃ completed : List (List R), completed.Perm (cfg.reads plan contents partition) ∧
      out = completed.flatten
  else Interleaved (cfg.reads plan contents partition) out

end ScanConfig

theorem divCeil_le_iff (a b c : Nat) (positive : 0 < b) : divCeil a b ≤ c ↔ a ≤ c * b := by
  rw [divCeil, ← Nat.lt_succ_iff, Nat.div_lt_iff_lt_mul positive, Nat.succ_mul]
  omega

theorem divCeil_pos (a b : Nat) (positive : 0 < b) (nonzero : 0 < a) : 0 < divCeil a b := by
  by_contra none
  have bound := (divCeil_le_iff a b 0 positive).mp (by omega)
  omega

theorem tiles_chunks (size chunkLen count first : Nat)
    (last : (first + count) * chunkLen < size) (covered : size ≤ (first + count + 1) * chunkLen) :
    Tiles (first * chunkLen) ((List.range' first (count + 1)).map fun i =>
      (i * chunkLen, i * chunkLen + min chunkLen (size - i * chunkLen))) size := by
  induction count generalizing first with
  | zero =>
    have rest : first * chunkLen + min chunkLen (size - first * chunkLen) = size := by
      rw [Nat.add_zero] at last covered
      rw [Nat.add_one_mul] at covered
      omega
    rw [range'_one, map_singleton, rest]
    exact .cons (by simpa using last) (.nil size)
  | succ count ih =>
    have after : (first + 1) * chunkLen < size :=
      Nat.lt_of_le_of_lt (Nat.mul_le_mul_right _ (by omega)) last
    have full : first * chunkLen + min chunkLen (size - first * chunkLen) =
        (first + 1) * chunkLen := by
      rw [Nat.add_one_mul] at after ⊢
      omega
    have rest := ih (first + 1) (by rwa [Nat.add_right_comm, Nat.add_assoc])
      (by rwa [Nat.add_right_comm first 1])
    rw [range'_succ, map_cons, full]
    have positive : 0 < chunkLen := by
      by_contra none
      obtain rfl : chunkLen = 0 := by omega
      omega
    exact .cons (Nat.mul_lt_mul_of_pos_right (Nat.lt_succ_self first) positive) rest

variable (size target : Nat)

theorem tiles_chunkRanges (positive : 0 < target) (nonempty : 0 < size) :
    Tiles 0 ((chunkRanges size target).map fun range => (range.1, range.1 + range.2)) size := by
  have some : 0 < divCeil size target := divCeil_pos size target positive nonempty
  -- no chunk is longer than the target, so the last one begins inside the file
  have short : divCeil size (divCeil size target) ≤ target := by
    rw [divCeil_le_iff _ _ _ some, Nat.mul_comm]
    exact (divCeil_le_iff _ _ _ positive).mp (Nat.le_refl _)
  have inside : (divCeil size target - 1) * target < size := by
    by_contra beyond
    have fewer := (divCeil_le_iff size target _ positive).mpr (Nat.not_lt.mp beyond)
    omega
  have covered : size ≤ divCeil size target * divCeil size (divCeil size target) := by
    rw [Nat.mul_comm]
    exact (divCeil_le_iff _ _ _ some).mp (Nat.le_refl _)
  have chunks := tiles_chunks size (divCeil size (divCeil size target)) (divCeil size target - 1) 0
    (by rw [Nat.zero_add]; exact Nat.lt_of_le_of_lt (Nat.mul_le_mul_left _ short) inside)
    (by rwa [Nat.zero_add, Nat.sub_add_cancel some])
  rw [Nat.zero_mul, Nat.sub_add_cancel some, ← range_eq_range'] at chunks
  rw [chunkRanges, map_map]
  exact chunks

theorem tiles_fileByteSplits (nonempty : 0 < size) :
    Tiles 0 ((fileByteSplits size target).map fun range => (range.1, range.1 + range.2)) size := by
  rw [fileByteSplits]
  split
  next => exact .cons (by omega) (by rw [Nat.zero_add]; exact .nil size)
  next kept =>
    have positive : 0 < target := by
      simp only [Bool.or_eq_true, beq_iff_eq, not_or] at kept
      omega
    exact tiles_chunkRanges size target positive nonempty

theorem splitFileScanTask_whole (target : Nat) (file : DataFile) :
    splitFileScanTask target (.whole file) =
      (fileByteSplits file.size (if file.isParquet then target else 0)).map
        (FileScanTask.whole file).withByteRange := by
  cases parquet : file.isParquet with
  | false => simp [splitFileScanTask, fileByteSplits, FileScanTask.whole, parquet,
      FileScanTask.withByteRange]
  | true =>
    simp only [splitFileScanTask, fileByteSplits, FileScanTask.whole, parquet, beq_self_eq_true,
      Bool.or_true, Bool.and_self, Bool.not_true, Bool.or_false, if_true]
    rw [apply_ite (List.map _)]
    rfl

theorem chunkRanges_proper (positive : 0 < target) (nonempty : 1 < size)
    (several : 1 < divCeil size target) :
    ∀ range ∈ chunkRanges size target, range.2 ≠ 0 ∧ range.2 ≠ size := by
  intro range listed
  have tiles := tiles_chunkRanges size target positive (by omega)
  have forward := (tiles.bounds _ (mem_map_of_mem listed)).2
  have short : divCeil size (divCeil size target) ≤ size - 1 := by
    rw [divCeil_le_iff _ _ _ (by omega)]
    calc size ≤ (size - 1) * 2 := by omega
      _ ≤ (size - 1) * divCeil size target := Nat.mul_le_mul_left _ several
  obtain ⟨i, -, rfl⟩ := mem_map.mp listed
  omega

theorem chunkRanges_single (single : divCeil size target = 1) :
    chunkRanges size target = [(0, size)] := by
  have whole : divCeil size 1 = size := by
    rw [divCeil, Nat.add_sub_cancel, Nat.div_one]
  simp [chunkRanges, single, whole]

theorem fileByteSplits_proper (nonempty : 1 < size) :
    fileByteSplits size target = [(0, size)] ∨
      ∀ range ∈ fileByteSplits size target, range.2 ≠ 0 ∧ range.2 ≠ size := by
  rw [fileByteSplits]
  split
  next => exact .inl rfl
  next kept =>
    have positive : 0 < target := by
      simp only [Bool.or_eq_true, beq_iff_eq, not_or] at kept
      omega
    have some := divCeil_pos size target positive (by omega)
    by_cases single : divCeil size target = 1
    · exact .inl (chunkRanges_single size target single)
    · exact .inr (chunkRanges_proper size target positive nonempty (by omega))

theorem splitFileScanTask_piece {target : Nat} {file : DataFile} {piece : FileScanTask}
    (listed : piece ∈ splitFileScanTask target (.whole file)) :
    splitFileScanTask target piece = [piece] := by
  have splits := splitFileScanTask_whole target file
  have room := file.room
  rcases fileByteSplits_proper file.size (if file.isParquet then target else 0) (by omega) with
    unsplit | proper
  · rw [unsplit] at splits
    rw [splits] at listed
    obtain rfl := mem_singleton.mp listed
    exact splits
  · rw [splits] at listed
    obtain ⟨range, inSplits, rfl⟩ := mem_map.mp listed
    have part : ((FileScanTask.whole file).withByteRange range).length ≠ 0 ∧
        ((FileScanTask.whole file).withByteRange range).length ≠
          ((FileScanTask.whole file).withByteRange range).file.size := proper range inSplits
    simp [splitFileScanTask, part]

theorem slice_sublist (total partition : Nat) (xs : List α) :
    (slice total partition xs).Sublist xs := by
  have sub := (filter_sublist (p := fun entry : α × Nat => entry.2 % total == partition)
    (l := xs.zipIdx)).map Prod.fst
  rwa [zipIdx_map_fst] at sub

theorem perm_slices (total : Nat) (positive : 0 < total) (xs : List α) :
    ((List.range total).flatMap fun partition => slice total partition xs).Perm xs := by
  have entries := (perm_flatMap_range total (fun entry : α × Nat => entry.2 % total) xs.zipIdx
    fun entry _ => Nat.mod_lt _ positive).map Prod.fst
  rwa [map_flatMap, zipIdx_map_fst] at entries

theorem StaticScanPlan.tasks_perm : plan.tasks.Perm plan.files :=
  perm_insertionSort _ _

theorem StaticScanPlan.fileEntries_perm : plan.fileEntries.Perm plan.files :=
  (perm_insertionSort _ _).trans plan.tasks_perm

namespace ScanConfig

variable (cfg : ScanConfig) (plan : StaticScanPlan)

def pieces (file : DataFile) : List FileScanTask :=
  if cfg.useDirect plan then [.whole file] else splitFileScanTask cfg.splitTarget (.whole file)

theorem pieces_spec {cfg : ScanConfig} {plan : StaticScanPlan} {file : DataFile}
    {piece : FileScanTask} (listed : piece ∈ cfg.pieces plan file) :
    piece.file = file ∧ piece.start + piece.length ≤ file.size := by
  have room := file.room
  rw [pieces] at listed
  split at listed
  · obtain rfl := mem_singleton.mp listed
    exact ⟨rfl, by simp [FileScanTask.whole]⟩
  · rw [splitFileScanTask_whole] at listed
    obtain ⟨range, split, rfl⟩ := mem_map.mp listed
    exact ⟨rfl, (tiles_fileByteSplits _ _ (by omega)).end_le _ (mem_map_of_mem split)⟩

theorem partitionEntries_perm :
    ((List.range cfg.totalPartitions).flatMap (cfg.partitionEntries plan)).Perm plan.files := by
  by_cases several : 1 < cfg.totalPartitions
  · have each : cfg.partitionEntries plan = fun partition =>
        slice cfg.totalPartitions partition plan.fileEntries :=
      funext fun _ => if_pos several
    rw [each]
    exact (perm_slices _ cfg.positive _).trans plan.fileEntries_perm
  · have single : cfg.totalPartitions = 1 := by
      have positive := cfg.positive
      omega
    simpa [partitionEntries, single] using plan.fileEntries_perm

theorem filter_allowed_perm (partition : Nat) :
    (plan.tasks.filter fun file =>
      ((cfg.partitionEntries plan partition).map DataFile.path).contains file.path).Perm
      (cfg.partitionEntries plan partition) := by
  have within : (cfg.partitionEntries plan partition).Sublist plan.fileEntries := by
    rw [partitionEntries]
    split
    · exact slice_sublist _ _ _
    · exact .refl _
  have injective := inj_on_of_nodup_map plan.distinct
  have nodup := List.Nodup.of_map DataFile.path plan.distinct
  refine (perm_ext_iff_of_nodup (((plan.tasks_perm.nodup_iff).mpr nodup).filter _)
    (within.nodup ((plan.fileEntries_perm.nodup_iff).mpr nodup))).mpr fun file => ?_
  rw [mem_filter, plan.tasks_perm.mem_iff, contains_iff_mem, mem_map]
  constructor
  · rintro ⟨listed, other, assigned, same⟩
    have otherListed := plan.fileEntries_perm.mem_iff.mp (within.subset assigned)
    rwa [← injective otherListed listed same]
  · intro assigned
    exact ⟨plan.fileEntries_perm.mem_iff.mp (within.subset assigned), file, assigned, rfl⟩

theorem orderedSplitRanges_perm (target : Nat) :
    ((orderedSplitRanges plan.tasks target).map fun range =>
      (⟨range.file, range.start, range.length⟩ : FileScanTask)).Perm
      (plan.files.flatMap fun file => splitFileScanTask target (.whole file)) := by
  refine .trans ((perm_insertionSort SplitRange.precedes _).map _)
    (.trans (.of_eq ?_) (plan.tasks_perm.flatMap_right _))
  conv_rhs => rw [← zipIdx_map_fst (i := 0) (l := plan.tasks), flatMap_map]
  rw [map_flatMap]
  refine flatMap_congr fun entry _ => ?_
  rw [splitFileScanTask_whole, map_map]
  rfl

theorem assignSplitTasks_perm :
    ((List.range cfg.totalPartitions).flatMap fun partition =>
      assignSplitTasks plan.tasks cfg.splitTarget cfg.totalPartitions partition).Perm
      (plan.files.flatMap fun file => splitFileScanTask cfg.splitTarget (.whole file)) := by
  have dealt := (perm_slices cfg.totalPartitions cfg.positive
    (orderedSplitRanges plan.tasks cfg.splitTarget)).map fun range =>
      (⟨range.file, range.start, range.length⟩ : FileScanTask)
  rw [map_flatMap] at dealt
  exact dealt.trans (orderedSplitRanges_perm plan cfg.splitTarget)

theorem workUnits_perm :
    ((List.range cfg.totalPartitions).flatMap (cfg.workUnits plan)).Perm
      (plan.files.flatMap (cfg.pieces plan)) := by
  have whole := fun partition => cfg.filter_allowed_perm plan partition
  have dealt := cfg.partitionEntries_perm plan
  by_cases direct : cfg.useDirect plan = true
  · have units : cfg.workUnits plan = fun partition =>
        (cfg.partitionEntries plan partition).map .whole := funext fun _ => if_pos direct
    have cut : cfg.pieces plan = fun file => [.whole file] := funext fun _ => if_pos direct
    rw [units, cut, ← map_flatMap, ← map_eq_flatMap]
    exact dealt.map _
  · have cut : cfg.pieces plan = fun file => splitFileScanTask cfg.splitTarget (.whole file) :=
      funext fun _ => if_neg direct
    have units : cfg.workUnits plan = fun partition =>
        (cfg.myTasks plan partition).flatMap (splitFileScanTask cfg.splitTarget) :=
      funext fun _ => if_neg direct
    rw [units, cut, ← flatMap_assoc]
    by_cases split : cfg.useSplitAssignment plan = true
    · have mine : cfg.myTasks plan = fun partition =>
          assignSplitTasks plan.tasks cfg.splitTarget cfg.totalPartitions partition :=
        funext fun _ => if_pos split
      have assigned := cfg.assignSplitTasks_perm plan
      rw [mine]
      refine .trans (.of_eq ?_) assigned
      conv_rhs => rw [← flatMap_singleton' (List.flatMap _ _)]
      refine flatMap_congr fun task listed => ?_
      obtain ⟨file, -, piece⟩ := mem_flatMap.mp (assigned.mem_iff.mp listed)
      exact splitFileScanTask_piece piece
    · by_cases several : 1 < cfg.totalPartitions
      · have mine : cfg.myTasks plan = fun partition => (plan.tasks.filter fun file =>
            ((cfg.partitionEntries plan partition).map DataFile.path).contains file.path).map
              .whole := by
          funext partition
          rw [myTasks, if_neg split, if_pos several]
        rw [mine, ← map_flatMap, flatMap_map]
        exact ((List.Perm.flatMap_left _ fun partition _ => whole partition).trans
          dealt).flatMap_right _
      · have single : cfg.totalPartitions = 1 := by
          have positive := cfg.positive
          omega
        have mine : cfg.myTasks plan = fun _ => plan.tasks.map .whole := by
          funext partition
          rw [myTasks, if_neg split, if_neg several]
        rw [mine, single, ← map_flatMap, flatMap_map]
        simpa using plan.tasks_perm.flatMap_right _

variable {partition : Nat}

theorem mem_workUnits {cfg : ScanConfig} {plan : StaticScanPlan}
    {unit : FileScanTask} (inside : partition < cfg.totalPartitions)
    (assigned : unit ∈ cfg.workUnits plan partition) :
    ∃ file ∈ plan.files, unit ∈ cfg.pieces plan file :=
  mem_flatMap.mp ((cfg.workUnits_perm plan).mem_iff.mp
    (mem_flatMap.mpr ⟨partition, mem_range.mpr inside, assigned⟩))

variable {R : Type} (contents : Contents R)

theorem unitRows_eq_rowsIn {cfg : ScanConfig} {plan : StaticScanPlan} {file : DataFile}
    {unit : FileScanTask} (piece : unit ∈ cfg.pieces plan file) :
    cfg.unitRows plan contents unit = (contents unit.file).rowsIn unit.start unit.length := by
  rw [unitRows]
  split
  next direct =>
    rw [pieces, if_pos direct] at piece
    obtain rfl := mem_singleton.mp piece
    exact (contents file).rowsIn_whole.symm
  next => rfl

theorem Emits.perm {cfg : ScanConfig} {plan : StaticScanPlan} {contents : Contents R} {out : List R}
    (emitted : cfg.Emits plan contents partition out) :
    out.Perm (cfg.reads plan contents partition).flatten := by
  rw [Emits] at emitted
  split at emitted
  · obtain ⟨completed, order, rfl⟩ := emitted
    exact order.flatten
  · exact Interleaved.perm emitted

theorem emits_rotated {first : List R} {later : List (List R)}
    (read : cfg.reads plan contents partition = first :: later) :
    cfg.Emits plan contents partition (later.flatten ++ first) := by
  rw [Emits, read]
  split
  · exact ⟨later ++ [first], perm_append_singleton first later, by simp⟩
  · exact .cons (.flatten later) (.append_swap first later.flatten)

theorem emits_flatten (partition : Nat) :
    cfg.Emits plan contents partition (cfg.reads plan contents partition).flatten := by
  rw [Emits]
  split
  · exact ⟨_, .refl _, rfl⟩
  · exact .flatten _

end ScanConfig

end Sqe.Catalog.ScanWork
