/- GID: Sqe/Worker/Scan
   generality: I
   digest: The row groups a worker reads for a scan task, and the deleted rows it skips. -/

import Mathlib.Algebra.Order.BigOperators.Group.List
import Mathlib.Data.Int.ConditionallyCompleteOrder
import Mathlib.Data.List.GetD
import Sqe.Library.Tiling

set_option autoImplicit false

namespace Sqe.Worker

open Sqe.Library.Tiling List Option

/-- The deleted positions of a data file, in ascending order. -/
structure DeleteVector where
  positions : List Nat
  ascending : positions.Pairwise (· < ·)

/-- The part of a ticket that says what to read. -/
structure ScanTask where
  dataFilePaths : List String
  fileSizesBytes : List Nat
  morselId : Option String
  rowGroupStart : Option Nat
  rowGroupEnd : Option Nat
  startByte : Option Nat
  endByte : Option Nat
  deleteTasks : Option (List (String × DeleteVector))

/-- A row group, and what the footer says about it: the file offset of its first column, if it has
a column, its compressed size and its number of rows. -/
structure RowGroup (Row : Type) where
  rows : List Row
  columnOffset : Option Int
  compressedSize : Int
  numRows : Int

structure ParquetFile (Row : Type) where
  rowGroups : List (RowGroup Row)

variable {Row : Type}

def ParquetFile.rows (file : ParquetFile Row) : List Row := file.rowGroups.flatMap RowGroup.rows

variable (file : ParquetFile Row)

/-- The footer counts the rows, and its offsets and sizes lie in a file of the given size. -/
structure ParquetFile.Truthful (size : Nat) : Prop where
  counted : ∀ group ∈ file.rowGroups, group.numRows = group.rows.length
  sized : ∀ group ∈ file.rowGroups, 0 ≤ group.compressedSize
  fits : (file.rowGroups.map RowGroup.compressedSize).sum < size
  located : ∀ group ∈ file.rowGroups, ∀ offset, group.columnOffset = some offset →
    0 ≤ offset ∧ offset < size

def asU64 (n : Int) : Nat := (n % 18446744073709551616).toNat

def saturatingAdd (a b : Nat) : Nat := min (a + b) 18446744073709551615

/-- Where each row group begins: at the offset of its first column, or behind the sizes of the
groups before it when that is absent. -/
def rowGroupStarts : Nat → List (RowGroup Row) → List Nat
  | _, [] => []
  | cursor, group :: rest =>
    ((group.columnOffset.map asU64).filter fun offset => decide (0 < offset)).getD cursor ::
      rowGroupStarts (saturatingAdd cursor (asU64 group.compressedSize)) rest

def byByte (range : Nat × Nat) : List Nat :=
  (List.range file.rowGroups.length).filter fun i =>
    within range ((rowGroupStarts 0 file.rowGroups).getD i 0)

variable (task : ScanTask)

/-- The row groups of a range of row groups, if the ticket has one that is valid. -/
def explicitGroups (count : Nat) : Option (List Nat) :=
  if task.rowGroupStart.isSome || task.rowGroupEnd.isSome then
    let start := task.rowGroupStart.getD 0
    let stop := min (task.rowGroupEnd.getD count) count
    if start < stop then some (List.range' start (stop - start)) else none
  else none

/-- The row groups to read, or none when the whole file is to be read. -/
def selectRowGroups (file : ParquetFile Row) : Option (List Nat) :=
  let selected := explicitGroups task file.rowGroups.length
  match task.startByte, task.endByte with
  | some rangeStart, some rangeEnd =>
    if rangeStart < rangeEnd then
      let groups := byByte file (rangeStart, rangeEnd)
      match selected with
      | some explicit => some (explicit.filter fun g => groups.contains g)
      | none => some groups
    else selected
  | _, _ => selected

inductive RowSelector
  | select (count : Nat)
  | skip (count : Nat)
deriving DecidableEq

def groupOffsets : Nat → List Int → List Nat
  | _, [] => []
  | at_, rows :: rest => at_ :: groupOffsets (at_ + rows.toNat) rest

/-- Skip the positions, all at or behind the cursor, and read what lies between them. -/
def selectAround (stop : Nat) : Nat → List Nat → List RowSelector
  | cursor, [] => if cursor < stop then [.select (stop - cursor)] else []
  | cursor, position :: rest =>
    (if cursor < position then [.select (position - cursor)] else []) ++
      .skip 1 :: selectAround stop (position + 1) rest

def rowSelection (deletes : DeleteVector) (groupRows : List Int) (groups : List Nat) :
    List RowSelector :=
  groups.flatMap fun g =>
    let start := (groupOffsets 0 groupRows).getD g 0
    let stop := start + (groupRows.getD g 0).toNat
    selectAround stop start
      ((deletes.positions.dropWhile fun p => decide (p < start)).takeWhile fun p =>
        decide (p < stop))

def applySelection : List RowSelector → List Row → List Row
  | [], _ => []
  | .select count :: rest, rows => rows.take count ++ applySelection rest (rows.drop count)
  | .skip count :: rest, rows => applySelection rest (rows.drop count)

def openParquetStream (file : ParquetFile Row) (deleted : Option DeleteVector) : List Row :=
  let groups := (selectRowGroups task file).getD (List.range file.rowGroups.length)
  let rows := groups.flatMap fun g => (file.rowGroups[g]?.map RowGroup.rows).getD []
  match deleted with
  | none => rows
  | some deletes =>
    applySelection (rowSelection deletes (file.rowGroups.map RowGroup.numRows) groups) rows

def loadDeletes (path : String) : Option DeleteVector :=
  (task.deleteTasks.bind (List.lookup path)).filter fun deletes => !deletes.positions.isEmpty

def scanTask (store : String → ParquetFile Row) (task : ScanTask) : List Row :=
  task.dataFilePaths.flatMap fun path =>
    openParquetStream task (store path) (loadDeletes task path)

def undeletedFrom (deleted : List Nat) : Nat → List Row → List Row
  | _, [] => []
  | at_, row :: rest =>
    if at_ ∈ deleted then undeletedFrom deleted (at_ + 1) rest
    else row :: undeletedFrom deleted (at_ + 1) rest

def undeletedRows (deletes : Option DeleteVector) : List Row :=
  undeletedFrom ((deletes.map DeleteVector.positions).getD []) 0 file.rows

theorem undeletedFrom_append (deleted : List Nat) (at_ : Nat) (rows more : List Row) :
    undeletedFrom deleted at_ (rows ++ more) =
      undeletedFrom deleted at_ rows ++ undeletedFrom deleted (at_ + rows.length) more := by
  induction rows generalizing at_ with
  | nil => rfl
  | cons row rest ih =>
    have shift : at_ + 1 + rest.length = at_ + (row :: rest).length := by
      rw [length_cons]
      omega
    rw [cons_append, undeletedFrom, undeletedFrom, ih, shift]
    split
    · rfl
    · rw [cons_append]

theorem undeletedFrom_of_not_mem {deleted : List Nat} {at_ : Nat} {rows : List Row}
    (kept : ∀ p ∈ deleted, p < at_ ∨ at_ + rows.length ≤ p) :
    undeletedFrom deleted at_ rows = rows := by
  induction rows generalizing at_ with
  | nil => rfl
  | cons row rest ih =>
    rw [length_cons] at kept
    have here : at_ ∉ deleted := fun listed => by
      have side := kept at_ listed
      omega
    rw [undeletedFrom, if_neg here, ih fun p listed => by have side := kept p listed; omega]

theorem undeletedFrom_nil (at_ : Nat) (rows : List Row) : undeletedFrom [] at_ rows = rows :=
  undeletedFrom_of_not_mem (by simp)

theorem undeletedFrom_congr {deleted others : List Nat} {at_ : Nat} {rows : List Row}
    (same : ∀ p, at_ ≤ p → p < at_ + rows.length → (p ∈ deleted ↔ p ∈ others)) :
    undeletedFrom deleted at_ rows = undeletedFrom others at_ rows := by
  induction rows generalizing at_ with
  | nil => rfl
  | cons row rest ih =>
    rw [length_cons] at same
    have here := same at_ (Nat.le_refl _) (by omega)
    rw [undeletedFrom, undeletedFrom, ih fun p low high => same p (by omega) (by omega)]
    simp only [here]

theorem applySelection_around {stop : Nat} (positions : List Nat) (cursor : Nat)
    (rows tail : List Row) (more : List RowSelector) (ascending : positions.Pairwise (· < ·))
    (bounds : ∀ p ∈ positions, cursor ≤ p ∧ p < stop) (length : cursor + rows.length = stop) :
    applySelection (selectAround stop cursor positions ++ more) (rows ++ tail) =
      undeletedFrom positions cursor rows ++ applySelection more tail := by
  induction positions generalizing cursor rows with
  | nil =>
    rw [selectAround, undeletedFrom_nil]
    split
    · have count : stop - cursor = rows.length := by omega
      rw [singleton_append, applySelection, count, take_left, drop_left]
    · have none : rows = [] := length_eq_zero_iff.mp (by omega)
      rw [none, nil_append, nil_append, nil_append]
  | cons position rest ih =>
    obtain ⟨low, high⟩ := bounds position mem_cons_self
    obtain ⟨first, later⟩ := pairwise_cons.mp ascending
    -- the rows before the position, the deleted row, and the rows behind it
    obtain ⟨before, after, rfl, count⟩ : ∃ before after, rows = before ++ after ∧
        before.length = position - cursor :=
      ⟨rows.take (position - cursor), rows.drop (position - cursor),
        (take_append_drop _ _).symm, by rw [length_take]; omega⟩
    rw [length_append] at length
    cases after with
    | nil =>
      rw [length_nil] at length
      omega
    | cons row behind =>
      rw [length_cons] at length
      have kept : undeletedFrom (position :: rest) cursor before = before :=
        undeletedFrom_of_not_mem fun p listed => by
          rcases mem_cons.mp listed with rfl | listed
          · omega
          · have beyond := first p listed
            omega
      have dropped : undeletedFrom (position :: rest) position (row :: behind) =
          undeletedFrom rest (position + 1) behind := by
        rw [undeletedFrom, if_pos mem_cons_self]
        refine undeletedFrom_congr fun p at_least _ => ?_
        rw [mem_cons]
        exact or_iff_right (by omega)
      have reached : cursor + before.length = position := by omega
      have rest_read := ih (position + 1) behind later
        (fun p listed => ⟨first p listed, (bounds p (mem_cons_of_mem _ listed)).2⟩)
        (by omega)
      have skipped : applySelection (.skip 1 :: selectAround stop (position + 1) rest ++ more)
          (row :: behind ++ tail) =
            undeletedFrom rest (position + 1) behind ++ applySelection more tail := rest_read
      rw [undeletedFrom_append, kept, reached, dropped, selectAround]
      split
      · rw [append_assoc, singleton_append, applySelection, ← count,
          append_assoc, take_left, drop_left, skipped, append_assoc]
      · have none : before = [] := length_eq_zero_iff.mp (by omega)
        rw [none, nil_append, nil_append, nil_append]
        exact skipped

theorem while_lt {positions : List Nat} (ascending : positions.Pairwise (· < ·)) (bound : Nat) :
    positions.takeWhile (fun p => decide (p < bound)) =
        (positions.filter fun p => decide (p < bound)) ∧
      positions.dropWhile (fun p => decide (p < bound)) =
        positions.filter fun p => decide (bound ≤ p) := by
  induction positions with
  | nil => exact ⟨rfl, rfl⟩
  | cons first rest ih =>
    obtain ⟨least, later⟩ := pairwise_cons.mp ascending
    by_cases low : first < bound
    · simp [low, ih later]
    · have above : ∀ p ∈ rest, bound ≤ p := fun p listed => by
        have := least p listed
        omega
      have none : rest.filter (fun p => decide (p < bound)) = [] :=
        filter_eq_nil_iff.mpr fun p listed => by simpa using above p listed
      have all : rest.filter (fun p => decide (bound ≤ p)) = rest :=
        filter_eq_self.mpr fun p listed => by simpa using above p listed
      simp [low, Nat.le_of_not_lt low, none, all]

section Groups

variable (deletes : DeleteVector) (file : ParquetFile Row)

def ParquetFile.rowsAt (g : Nat) : List Row := (file.rowGroups[g]?.map RowGroup.rows).getD []

def ParquetFile.groupRows : List Int := file.rowGroups.map RowGroup.numRows

variable {file} in
theorem toNat_groupRows (counted : ∀ group ∈ file.rowGroups, group.numRows = group.rows.length)
    (g : Nat) : (file.groupRows.getD g 0).toNat = (file.rowsAt g).length := by
  rw [ParquetFile.groupRows, ParquetFile.rowsAt, getD_eq_getElem?_getD, getElem?_map]
  cases found : file.rowGroups[g]? with
  | none => rfl
  | some group =>
    have same := counted group (mem_of_getElem? found)
    simp [same]

variable {file} in
theorem applySelection_rowSelection
    (counted : ∀ group ∈ file.rowGroups, group.numRows = group.rows.length) (groups : List Nat) :
    applySelection (rowSelection deletes file.groupRows groups) (groups.flatMap file.rowsAt) =
      groups.flatMap fun g => undeletedFrom deletes.positions
        ((groupOffsets 0 file.groupRows).getD g 0) (file.rowsAt g) := by
  induction groups with
  | nil => rfl
  | cons g rest ih =>
    rw [flatMap_cons, flatMap_cons, ← ih, rowSelection, flatMap_cons]
    dsimp only
    rw [(while_lt deletes.ascending _).2, (while_lt (deletes.ascending.filter _) _).1,
      applySelection_around _ _ _ _ _ ((deletes.ascending.filter _).filter _),
      rowSelection]
    · congr 1
      refine undeletedFrom_congr fun p low high => ?_
      rw [toNat_groupRows counted, mem_filter, mem_filter, decide_eq_true_eq,
        decide_eq_true_eq, and_iff_left high, and_iff_left low]
    · intro p listed
      simp only [mem_filter, decide_eq_true_eq] at listed
      exact ⟨listed.1.2, listed.2⟩
    · rw [toNat_groupRows counted]

end Groups

theorem flatMap_undeletedFrom (deleted : List Nat) (groups : List (RowGroup Row)) (at_ : Nat)
    (counted : ∀ group ∈ groups, group.numRows = group.rows.length) :
    ((List.range groups.length).flatMap fun g => undeletedFrom deleted
        ((groupOffsets at_ (groups.map RowGroup.numRows)).getD g 0)
        ((groups[g]?.map RowGroup.rows).getD [])) =
      undeletedFrom deleted at_ (groups.flatMap RowGroup.rows) := by
  induction groups generalizing at_ with
  | nil => rfl
  | cons group rest ih =>
    have count : group.numRows.toNat = group.rows.length := by
      rw [counted group mem_cons_self]
      rfl
    have later := ih (at_ + group.rows.length) fun g listed =>
      counted g (mem_cons_of_mem _ listed)
    rw [length_cons, range_succ_eq_map, flatMap_cons, flatMap_cons,
      undeletedFrom_append, ← later, flatMap_map, map_cons, groupOffsets, count]
    rfl

theorem openParquetStream_whole {task : ScanTask} {file : ParquetFile Row}
    (whole : selectRowGroups task file = none)
    (counted : ∀ group ∈ file.rowGroups, group.numRows = group.rows.length)
    (deleted : Option DeleteVector) :
    openParquetStream task file deleted = undeletedRows file deleted := by
  cases deleted with
  | none =>
    rw [openParquetStream, whole, undeletedRows]
    have all := flatMap_undeletedFrom [] file.rowGroups 0 counted
    simp only [undeletedFrom_nil] at all
    exact all.trans (undeletedFrom_nil 0 file.rows).symm
  | some deletes =>
    rw [openParquetStream, whole, undeletedRows]
    exact (applySelection_rowSelection deletes counted _).trans
      (flatMap_undeletedFrom deletes.positions file.rowGroups 0 counted)

theorem asU64_le {n : Int} (nonneg : 0 ≤ n) : (asU64 n : Int) ≤ n := by
  rw [asU64]
  omega

theorem rowGroupStarts_length (cursor : Nat) (groups : List (RowGroup Row)) :
    (rowGroupStarts cursor groups).length = groups.length := by
  induction groups generalizing cursor with
  | nil => rfl
  | cons group rest ih => rw [rowGroupStarts, length_cons, length_cons, ih]

theorem rowGroupStarts_lt {size : Nat} (groups : List (RowGroup Row)) (cursor : Nat)
    (sized : ∀ group ∈ groups, 0 ≤ group.compressedSize)
    (fits : cursor + (groups.map RowGroup.compressedSize).sum < size)
    (located : ∀ group ∈ groups, ∀ offset, group.columnOffset = some offset →
      0 ≤ offset ∧ offset < size) :
    ∀ start ∈ rowGroupStarts cursor groups, start < size := by
  induction groups generalizing cursor with
  | nil => simp [rowGroupStarts]
  | cons group rest ih =>
    have size0 := sized group mem_cons_self
    have sizes : 0 ≤ (rest.map RowGroup.compressedSize).sum :=
      sum_nonneg fun n listed => by
        obtain ⟨other, member, rfl⟩ := mem_map.mp listed
        exact sized other (mem_cons_of_mem _ member)
    have cast := asU64_le size0
    rw [map_cons, sum_cons] at fits
    intro start listed
    rcases mem_cons.mp listed with rfl | later
    · cases found : (group.columnOffset.map asU64).filter fun offset => decide (0 < offset) with
      | none =>
        rw [getD_none]
        omega
      | some offset =>
        obtain ⟨mapped, -⟩ := filter_eq_some_iff.mp found
        obtain ⟨recorded, has, rfl⟩ := map_eq_some_iff.mp mapped
        obtain ⟨nonneg, below⟩ := located group mem_cons_self recorded has
        have cast' := asU64_le nonneg
        rw [getD_some]
        omega
    · refine ih _ (forall_mem_cons.mp sized).2 ?_
        (forall_mem_cons.mp located).2 start later
      have saturated : saturatingAdd cursor (asU64 group.compressedSize) ≤
          cursor + asU64 group.compressedSize := Nat.min_le_left _ _
      omega

def ParquetFile.rowsIn (range : Nat × Nat) : List Row :=
  (byByte file range).flatMap file.rowsAt

theorem openParquetStream_range {task : ScanTask} {range : Nat × Nat}
    (noStart : task.rowGroupStart = none) (noEnd : task.rowGroupEnd = none)
    (start : task.startByte = some range.1) (stop : task.endByte = some range.2)
    (forward : range.1 < range.2) : openParquetStream task file none = file.rowsIn range := by
  have selected : selectRowGroups task file = some (byByte file range) := by
    simp [selectRowGroups, explicitGroups, noStart, noEnd, start, stop, forward]
  rw [openParquetStream, selected]
  rfl

theorem perm_rowsIn {file : ParquetFile Row} {size : Nat} (truthful : file.Truthful size)
    {ranges : List (Nat × Nat)} (tiles : Tiles 0 ranges size) :
    (ranges.flatMap file.rowsIn).Perm file.rows := by
  have starts := rowGroupStarts_lt file.rowGroups 0 truthful.sized
    (by simpa using truthful.fits) truthful.located
  have split := tiles.perm_flatMap (fun i => (rowGroupStarts 0 file.rowGroups).getD i 0)
    (List.range file.rowGroups.length) fun i listed => ⟨Nat.zero_le _, starts _ (by
      have below : i < (rowGroupStarts 0 file.rowGroups).length := by
        rw [rowGroupStarts_length]
        exact mem_range.mp listed
      rw [getD_eq_getElem _ _ below]
      exact getElem_mem below)⟩
  have all : (List.range file.rowGroups.length).flatMap file.rowsAt = file.rows := by
    have whole := flatMap_undeletedFrom [] file.rowGroups 0 truthful.counted
    simp only [undeletedFrom_nil] at whole
    exact whole
  rw [← all]
  have read := split.flatMap_right file.rowsAt
  rwa [flatMap_assoc] at read

end Sqe.Worker
