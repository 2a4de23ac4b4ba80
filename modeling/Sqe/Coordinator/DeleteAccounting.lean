/- GID: Sqe/Coordinator/DeleteAccounting
   generality: I
   digest: When compaction's count of deleted rows is the number of rows the deletes remove. -/

import Mathlib.Algebra.BigOperators.Group.List.Basic
import Mathlib.Algebra.Order.Ring.Nat
import Mathlib.Algebra.Order.Sub.Basic
import Mathlib.Data.List.Pairwise
import Mathlib.Data.Multiset.OrderedMonoid

set_option autoImplicit false

namespace Sqe.Coordinator.DeleteAccounting

open List

inductive DataContentType
  | data
  | positionDeletes
  | equalityDeletes
  deriving DecidableEq

variable {Path : Type} [DecidableEq Path]

/-- An entry of a manifest, with what its file holds: the rows of a data file, the rows that a
position-delete file or a deletion vector lists, and the rows whose values an equality-delete file
matches. -/
structure DataFile (Path : Type) where
  filePath : Path
  contentType : DataContentType
  sequenceNumber : Nat
  referencedDataFile : Option Path
  rows : Nat
  listed : List (Path × Nat)
  matched : Path × Nat → Bool

/-- The manifest's count, which is taken to be right. -/
def DataFile.recordCount (file : DataFile Path) : Nat :=
  if file.contentType = .positionDeletes then file.listed.length else file.rows

/-- A position delete applies to the data files that are not younger, an equality delete to those
that are older. -/
def DataFile.removes (d : DataFile Path) (row : DataFile Path × Nat) : Bool :=
  match d.contentType with
  | .data => false
  | .positionDeletes =>
    row.1.sequenceNumber ≤ d.sequenceNumber && decide ((row.1.filePath, row.2) ∈ d.listed)
  | .equalityDeletes =>
    row.1.sequenceNumber < d.sequenceNumber && d.matched (row.1.filePath, row.2)

/-- The data files that are rewritten together. -/
structure Group (Path : Type) where
  files : List (DataFile Path)
  distinct : (files.map DataFile.filePath).Nodup

def DataFile.fileRows (file : DataFile Path) : List (DataFile Path × Nat) :=
  (List.range file.recordCount).map (file, ·)

/-- How a delete names a row. -/
def position (row : DataFile Path × Nat) : Path × Nat := (row.1.filePath, row.2)

variable (group : Group Path) (liveDeletes : List (DataFile Path))

def groupRows : List (DataFile Path × Nat) := group.files.flatMap DataFile.fileRows

def removedRows : List (DataFile Path × Nat) :=
  (groupRows group).filter fun row => liveDeletes.any (·.removes row)

/-- What a correct reader gives and a correct writer writes. -/
def survivingRows : List (DataFile Path × Nat) :=
  (groupRows group).filter fun row => !liveDeletes.any (·.removes row)

/-- The entries whose path is not among those seen, each the first of its path. -/
def firstOfPath : List Path → List (DataFile Path) → List (DataFile Path)
  | _, [] => []
  | seen, d :: rest =>
    if d.filePath ∈ seen then firstOfPath seen rest
    else d :: firstOfPath (d.filePath :: seen) rest

/-- The loop's `deleted` at its end; `none` where it returns early. -/
def deletedRows (groupPaths : List Path) :
    List Path → Nat → List (DataFile Path) → Option Nat
  | _, deleted, [] => some deleted
  | seen, deleted, d :: rest =>
    if d.filePath ∈ seen then deletedRows groupPaths seen deleted rest
    else
      match d.contentType, d.referencedDataFile with
      | .positionDeletes, some path =>
        deletedRows groupPaths (d.filePath :: seen)
          (if path ∈ groupPaths then deleted + d.recordCount else deleted) rest
      | .positionDeletes, none => none
      | .equalityDeletes, _ => none
      | .data, _ => deletedRows groupPaths (d.filePath :: seen) deleted rest

def baseRows : Nat := (group.files.map DataFile.recordCount).sum

def Group.paths : List Path := group.files.map DataFile.filePath

def expectedRowsAfterDeletes : Option Nat :=
  (deletedRows group.paths [] 0 liveDeletes).map (baseRows group - ·)

/-- A position delete of one of the data files. -/
def DataFile.deletesFrom (paths : List Path) (d : DataFile Path) : Bool :=
  d.contentType = .positionDeletes && d.referencedDataFile.any (· ∈ paths)

def coveredPositionDeletes (removed : List Path) (liveDeletes : List (DataFile Path)) :
    List (DataFile Path) :=
  (firstOfPath [] liveDeletes).filter (DataFile.deletesFrom removed)

inductive Abort
  | accountingMismatch (rowsWritten expected files : Nat)
  | rowsIncreased (rowsWritten base : Nat)
  deriving DecidableEq

/-- The check between the write of a group and its commit. -/
def crossCheck (rowsWritten : Nat) : Except Abort Unit :=
  let bound :=
    if baseRows group < rowsWritten then .error (.rowsIncreased rowsWritten (baseRows group))
    else .ok ()
  match expectedRowsAfterDeletes group liveDeletes with
  | some expected =>
    if rowsWritten ≠ expected then
      .error (.accountingMismatch rowsWritten expected group.files.length)
    else bound
  | none => bound

/-- A merge-on-read delete lists every row of the file that matches, those that are deleted
already among them, as soon as one of them is not. -/
def markedByDelete (matching : Nat → Bool) (file : DataFile Path)
    (liveDeletes : List (DataFile Path)) : List (Path × Nat) :=
  let raw := file.fileRows.filter fun row => matching row.2
  if raw.any fun row => !liveDeletes.any (·.removes row) then raw.map position else []

def DataFile.attributable (d : DataFile Path) : Bool :=
  match d.contentType with
  | .data => true
  | .positionDeletes => d.referencedDataFile.isSome
  | .equalityDeletes => false

/-- The entries whose counts are subtracted. -/
def counted : List (DataFile Path) := coveredPositionDeletes group.paths liveDeletes

/-- The rows that are subtracted, as often as they are. -/
def subtracted : List (Path × Nat) := (counted group liveDeletes).flatMap DataFile.listed

def removedPositions : List (Path × Nat) := (removedRows group liveDeletes).map position

/-- What the counted entries list in vain: rows listed again, and rows that stay or are none of the
group's. -/
def surplus : Multiset (Path × Nat) :=
  subtracted group liveDeletes - removedPositions group liveDeletes

/-- The removed rows that no counted entry lists. -/
def missed : Multiset (Path × Nat) :=
  removedPositions group liveDeletes - subtracted group liveDeletes

/-- If the entries can be attributed, as many listings are in vain as rows are missed, or no fewer
and nothing survives. -/
def Accounted : Prop :=
  (firstOfPath [] liveDeletes).all DataFile.attributable →
    (surplus group liveDeletes).card = (missed group liveDeletes).card ∨
      (missed group liveDeletes).card ≤ (surplus group liveDeletes).card ∧
        survivingRows group liveDeletes = []

/-- Every counted entry lists rows of the group that the deletes remove, each once and no other
counted entry the same, and every removed row is listed by one of them. -/
structure Tidy : Prop where
  once : ∀ d ∈ counted group liveDeletes, d.listed.Nodup
  apart : (counted group liveDeletes).Pairwise fun a b => a.listed.Disjoint b.listed
  inside : ∀ d ∈ counted group liveDeletes, ∀ row ∈ d.listed,
    row ∈ removedPositions group liveDeletes
  complete : ∀ row ∈ removedPositions group liveDeletes,
    ∃ d ∈ counted group liveDeletes, row ∈ d.listed

private theorem deletedRows_eq (paths seen : List Path) (deleted : Nat)
    (live : List (DataFile Path)) :
    deletedRows paths seen deleted live =
      if (firstOfPath seen live).all DataFile.attributable then
        some (deleted + (((firstOfPath seen live).filter (DataFile.deletesFrom paths)).flatMap
            DataFile.listed).length)
      else none := by
  fun_induction deletedRows paths seen deleted live with
  | case1 => rfl
  | case2 seen deleted d rest known ih => rw [ih, firstOfPath, if_pos known]
  | case3 seen deleted d rest new path content reference ih =>
    rw [ih, firstOfPath, if_neg new]
    by_cases inside : path ∈ paths <;>
      simp [DataFile.attributable, DataFile.deletesFrom, DataFile.recordCount, content, reference,
        inside, Nat.add_assoc]
  | case4 seen deleted d rest new content reference =>
    simp [firstOfPath, new, DataFile.attributable, content, reference]
  | case5 seen deleted d rest new content =>
    simp [firstOfPath, new, DataFile.attributable, content]
  | case6 seen deleted d rest new content ih =>
    simp [ih, firstOfPath, new, DataFile.attributable, DataFile.deletesFrom, content]

variable (live : List (DataFile Path))

private theorem expectedRows_eq :
    expectedRowsAfterDeletes group live =
      if (firstOfPath [] live).all DataFile.attributable then
        some (baseRows group - (subtracted group live).length)
      else none := by
  rw [expectedRowsAfterDeletes, deletedRows_eq, Nat.zero_add, subtracted, counted,
    coveredPositionDeletes]
  split <;> rfl

private theorem removed_add_surviving :
    (removedRows group live).length + (survivingRows group live).length = baseRows group := by
  have whole : (groupRows group).length = baseRows group := by
    simp [groupRows, baseRows, DataFile.fileRows, length_flatMap]
  rw [← whole]
  exact (length_eq_length_filter_add _).symm

private theorem card_surplus_add :
    (surplus group live).card + (removedRows group live).length =
      (missed group live).card + (subtracted group live).length := by
  have both : surplus group live + removedPositions group live =
      missed group live + subtracted group live :=
    sup_comm (subtracted group live : Multiset (Path × Nat)) (removedPositions group live)
  have cards := congrArg Multiset.card both
  simpa [removedPositions] using cards

private theorem expected_right_iff :
    (∀ n, expectedRowsAfterDeletes group live = some n → n = (survivingRows group live).length) ↔
      Accounted group live := by
  have parts := removed_add_surviving group live
  have sides := card_surplus_add group live
  rw [expectedRows_eq, Accounted, ← length_eq_zero_iff]
  split
  next all =>
    simp only [Option.some.injEq, forall_eq', all, forall_const]
    omega
  next unknown => simp [unknown]

private theorem nodup_removedPositions : (removedPositions group live).Nodup := by
  have rows : ((groupRows group).map position).Nodup := by
    rw [groupRows, map_flatMap, nodup_flatMap]
    refine ⟨fun file _ => ?_, ?_⟩
    · rw [DataFile.fileRows, map_map]
      exact nodup_range.map fun _ _ same => congrArg Prod.snd same
    · refine (pairwise_map.mp group.distinct).imp fun apart => ?_
      simp only [Function.onFun, DataFile.fileRows, map_map]
      intro row here there
      obtain ⟨_, -, rfl⟩ := mem_map.mp here
      obtain ⟨_, -, same⟩ := mem_map.mp there
      exact apart (congrArg Prod.fst same).symm
  exact rows.sublist (filter_sublist.map position)

private theorem tidy_iff : surplus group live = 0 ∧ missed group live = 0 ↔ Tidy group live := by
  have distinct := nodup_removedPositions group live
  have same : surplus group live = 0 ∧ missed group live = 0 ↔
      (subtracted group live).Perm (removedPositions group live) := by
    rw [surplus, missed, tsub_eq_zero_iff_le, tsub_eq_zero_iff_le, ← le_antisymm_iff,
      Multiset.coe_eq_coe]
  rw [same]
  constructor
  · intro perm
    obtain ⟨once, apart⟩ := nodup_flatMap.mp (perm.nodup_iff.mpr distinct)
    refine ⟨once, apart, fun d is row listed => ?_, fun row gone => ?_⟩
    · exact perm.subset (mem_flatMap.mpr ⟨d, is, listed⟩)
    · exact mem_flatMap.mp (perm.symm.subset gone)
  · intro tidy
    have distinct' : (subtracted group live).Nodup := nodup_flatMap.mpr ⟨tidy.once, tidy.apart⟩
    rw [perm_ext_iff_of_nodup distinct' distinct]
    refine fun row => ⟨fun listed => ?_, fun gone => mem_flatMap.mpr (tidy.complete row gone)⟩
    obtain ⟨d, is, listed⟩ := mem_flatMap.mp listed
    exact tidy.inside d is row listed

private theorem crossCheck_ok_iff {written : Nat} (bounded : written ≤ baseRows group) :
    crossCheck group live written = .ok () ↔
      ∀ n, expectedRowsAfterDeletes group live = some n → n = written := by
  simp only [crossCheck, if_neg (Nat.not_lt.mpr bounded)]
  cases expectedRowsAfterDeletes group live with
  | none => simp
  | some expected =>
    by_cases same : written = expected
    · simp [same]
    · simp [same, Ne.symm same]

private theorem mem_firstOfPath (seen : List Path) (live : List (DataFile Path))
    (d : DataFile Path) :
    d ∈ firstOfPath seen live ↔
      d.filePath ∉ seen ∧ live.find? (·.filePath = d.filePath) = some d := by
  fun_induction firstOfPath seen live with
  | case1 => simp
  | case2 seen e rest known ih =>
    rw [ih, find?_cons]
    by_cases same : e.filePath = d.filePath
    · simp [← same, known]
    · simp [same]
  | case3 seen e rest new ih =>
    rw [mem_cons, ih, find?_cons]
    by_cases same : e.filePath = d.filePath
    · simp only [same, mem_cons, true_or, not_true, false_and, or_false, decide_true]
      constructor
      · rintro rfl
        exact ⟨new, rfl⟩
      · exact fun first => (Option.some.inj first.2).symm
    · have other : d ≠ e := fun is => same (is ▸ rfl)
      simp [same, other, Ne.symm same]

/-- The count is exact, and a correct rewrite goes on, exactly for the layouts that are accounted,
as a tidy one is with nothing in vain and nothing missed; the covered entries are all there are
exactly if each is the first of its path. -/
theorem delete_accounting_iff (removed : List Path) :
    ((∀ n, expectedRowsAfterDeletes group live = some n →
        n = (survivingRows group live).length) ↔ Accounted group live) ∧
      (crossCheck group live (survivingRows group live).length = .ok () ↔ Accounted group live) ∧
      (surplus group live = 0 ∧ missed group live = 0 ↔ Tidy group live) ∧
      ((∀ d, d ∈ coveredPositionDeletes removed live ↔ d ∈ live ∧ d.deletesFrom removed) ↔
        ∀ d ∈ live, d.deletesFrom removed →
          live.find? (·.filePath = d.filePath) = some d) := by
  have bounded : (survivingRows group live).length ≤ baseRows group :=
    removed_add_surviving group live ▸ Nat.le_add_left _ _
  refine ⟨expected_right_iff group live,
    (crossCheck_ok_iff group live bounded).trans (expected_right_iff group live),
    tidy_iff group live, ?_⟩
  simp only [coveredPositionDeletes, mem_filter, mem_firstOfPath, not_mem_nil,
    not_false_eq_true, true_and]
  constructor
  · exact fun all d listed covered => ((all d).mpr ⟨listed, covered⟩).1
  · intro first d
    constructor
    · exact fun found => ⟨mem_of_find?_eq_some found.1, found.2⟩
    · exact fun found => ⟨first d found.1 found.2, found.2⟩

section Marking

variable {group live} {matching : Nat → Bool} {file : DataFile Path} {before : List (DataFile Path)}
  {pos other : Nat}

theorem mem_markedByDelete :
    (file.filePath, pos) ∈ markedByDelete matching file before ↔
      (pos < file.recordCount ∧ matching pos = true) ∧
        ∃ other < file.recordCount, matching other = true ∧
          before.any (·.removes (file, other)) = false := by
  have raw : ∀ row, row ∈ file.fileRows.filter (fun row => matching row.2) ↔
      ∃ pos < file.recordCount, matching pos = true ∧ row = (file, pos) := by
    intro row
    simp only [DataFile.fileRows, mem_filter, mem_map, mem_range]
    grind
  rw [markedByDelete]
  split
  next left =>
    obtain ⟨_, found, survives⟩ := any_eq_true.mp left
    obtain ⟨other, inside, matches', rfl⟩ := (raw _).mp found
    rw [and_iff_left ⟨other, inside, matches', by simpa using survives⟩, mem_map]
    simp only [raw]
    constructor
    · rintro ⟨_, ⟨at', inside, matches', rfl⟩, same⟩
      obtain rfl : at' = pos := congrArg Prod.snd same
      exact ⟨inside, matches'⟩
    · rintro ⟨inside, matches'⟩
      exact ⟨_, ⟨pos, inside, matches', rfl⟩, rfl⟩
  next none =>
    refine ⟨nofun, ?_⟩
    rintro ⟨-, other, inside, matches', survives⟩
    have found := (raw _).mpr ⟨other, inside, matches', rfl⟩
    exact absurd (any_eq_true.mpr ⟨_, found, by simpa using survives⟩) none

/-- A delete that matches a row of the file which is left lists the matching rows that are deleted
already again, so that the layout with the entry that deleted them is not tidy. -/
theorem not_tidy_of_marked_again {earlier later : DataFile Path}
    (listed : later.listed = markedByDelete matching file before)
    (known : earlier ∈ counted group live) (added : later ∈ counted group live)
    (apart : earlier ≠ later) (deleted : (file.filePath, pos) ∈ earlier.listed)
    (inside : pos < file.recordCount) (again : matching pos = true)
    (left : other < file.recordCount ∧ matching other = true ∧
      before.any (·.removes (file, other)) = false) :
    ¬ Tidy group live := by
  intro tidy
  have marked : (file.filePath, pos) ∈ later.listed :=
    listed ▸ mem_markedByDelete.mpr ⟨⟨inside, again⟩, other, left⟩
  have : Std.Symm fun a b : DataFile Path => a.listed.Disjoint b.listed := ⟨fun _ _ => .symm⟩
  exact tidy.apart.forall known added apart deleted marked

end Marking

def fileOf (path rows : Nat) : DataFile Nat := ⟨path, .data, 1, none, rows, [], fun _ => false⟩

def deleteOf (path target : Nat) (listed : List (Nat × Nat)) : DataFile Nat :=
  ⟨path, .positionDeletes, 2, some target, 0, listed, fun _ => false⟩

def oneFile : Group Nat := ⟨[fileOf 0 3], by decide⟩

def twoFiles : Group Nat := ⟨[fileOf 0 2, fileOf 1 2], by decide⟩

/-- A second delete that matches a deleted row lists it again, and the rewrite of the row that is
left is refused. Of two vectors in one file the second is neither counted nor dropped. -/
theorem overlapping_and_shared : let first := deleteOf 8 0 (markedByDelete (· = 0) (fileOf 0 3) [])
    let second := deleteOf 9 0 (markedByDelete (· < 2) (fileOf 0 3) [first])
    let vectors := [deleteOf 7 0 [(0, 0)], deleteOf 7 1 [(1, 0)]]
    ((survivingRows oneFile [first, second]).map position = [(0, 2)] ∧
      crossCheck oneFile [first, second] 1 = .error (.accountingMismatch 1 0 1)) ∧
      expectedRowsAfterDeletes twoFiles vectors = some 3 ∧
      (survivingRows twoFiles vectors).map position = [(0, 1), (1, 1)] ∧
      (coveredPositionDeletes twoFiles.paths vectors).map DataFile.referencedDataFile =
        [some 0] := by
  decide

end Sqe.Coordinator.DeleteAccounting
