/- GID: Sqe/Iceberg/Table
   generality: G
   digest: Snapshots of data files and delete files, their rows, and a table over time. -/

import Mathlib.Data.List.Nodup

/-!
Rows are of any type. An equality delete removes the rows it matches from the data files of
strictly smaller sequence number; a position delete or a deletion vector removes the positions it
names. A deletion vector is a position delete that references its data file.

A version is counted by its sequence number, and every file that is written gets a path of its own.
`Later` is what holds between two versions of a table whatever was committed between them: files
do not come back, delete files are added under newer sequence numbers, and a row version that was
deleted is not revived.
-/

set_option autoImplicit false

namespace Sqe.Iceberg

structure DataFile (Row : Type) where
  path : Nat
  sequenceNumber : Nat
  rows : List Row

structure EqualityDelete (Row : Type) where
  sequenceNumber : Nat
  removes : Row → Bool

/-- A position delete file: pairs of the path of a data file and a position in it. -/
structure PositionDelete where
  path : Nat
  sequenceNumber : Nat
  referencedDataFile : Option Nat
  positions : List (Nat × Nat)
  deriving DecidableEq

structure Snapshot (Row : Type) where
  dataFiles : List (DataFile Row)
  equalityDeletes : List (EqualityDelete Row)
  positionDeletes : List PositionDelete

namespace Snapshot

variable {Row : Type}

def empty : Snapshot Row := ⟨[], [], []⟩

variable (s : Snapshot Row)

def equalityDeleted (sequenceNumber : Nat) (row : Row) : Bool :=
  s.equalityDeletes.any fun d => decide (sequenceNumber < d.sequenceNumber) && d.removes row

def positionDeleted (path position : Nat) : Bool :=
  s.positionDeletes.any fun d => d.positions.contains (path, position)

/-- A reader finds the row at this position of the file. -/
def live (file : DataFile Row) (position : Nat) (row : Row) : Bool :=
  !s.equalityDeleted file.sequenceNumber row && !s.positionDeleted file.path position

def rowsOf (file : DataFile Row) : List Row :=
  (file.rows.zipIdx.filter fun entry => s.live file entry.2 entry.1).map Prod.fst

def visible : List Row := s.dataFiles.flatMap s.rowsOf

/-- A row version that a reader finds: where it is stored, and its row. -/
structure Holds (file : DataFile Row) (position : Nat) (row : Row) : Prop where
  listed : file ∈ s.dataFiles
  stored : file.rows[position]? = some row
  live : s.live file position row = true

end Snapshot

/-- A version of a table. Every path at or above `nextPath` is still unused. -/
structure Table (Row : Type) extends Snapshot Row where
  version : Nat
  nextPath : Nat

namespace Table

variable {Row : Type}

structure WellFormed (t : Table Row) : Prop where
  sequenced : ∀ f ∈ t.dataFiles, f.sequenceNumber ≤ t.version
  used : ∀ f ∈ t.dataFiles, f.path < t.nextPath
  distinct : (t.dataFiles.map DataFile.path).Nodup
  deletesUsed : ∀ d ∈ t.positionDeletes, d.path < t.nextPath
  positionsUsed : ∀ d ∈ t.positionDeletes, ∀ p ∈ d.positions, p.1 < t.nextPath
  /-- A delete file that references a data file names positions of that file only. -/
  references : ∀ d ∈ t.positionDeletes, ∀ path, d.referencedDataFile = some path →
    ∀ p ∈ d.positions, p.1 = path

structure Later (a b : Table Row) : Prop where
  version : a.version ≤ b.version
  nextPath : a.nextPath ≤ b.nextPath
  dataFiles : ∀ f ∈ b.dataFiles, f ∈ a.dataFiles ∨ a.nextPath ≤ f.path
  equalityDeletes : ∀ d ∈ b.equalityDeletes, d ∈ a.equalityDeletes ∨ a.version < d.sequenceNumber
  positionDeletes : ∀ d ∈ b.positionDeletes,
    d ∈ a.positionDeletes ∨ a.version < d.sequenceNumber ∧ a.nextPath ≤ d.path
  dead : ∀ f ∈ a.dataFiles, f ∈ b.dataFiles → ∀ position row,
    b.live f position row = true → a.live f position row = true

variable {a b c : Table Row}

theorem Later.refl (t : Table Row) : Later t t :=
  ⟨Nat.le_refl _, Nat.le_refl _, fun _ => .inl, fun _ => .inl, fun _ => .inl, fun _ _ _ _ _ => id⟩

theorem Later.mem_between (early : WellFormed a) (first : Later a b) (second : Later b c)
    {f : DataFile Row} (before : f ∈ a.dataFiles) (after : f ∈ c.dataFiles) : f ∈ b.dataFiles := by
  rcases second.dataFiles f after with there | unused
  · exact there
  · have used := early.used f before
    have grown := first.nextPath
    omega

theorem Later.trans (early : WellFormed a) (first : Later a b) (second : Later b c) :
    Later a c where
  version := Nat.le_trans first.version second.version
  nextPath := Nat.le_trans first.nextPath second.nextPath
  dataFiles f listed := by
    rcases second.dataFiles f listed with there | unused
    · exact first.dataFiles f there
    · exact .inr (Nat.le_trans first.nextPath unused)
  equalityDeletes d listed := by
    rcases second.equalityDeletes d listed with there | newer
    · exact first.equalityDeletes d there
    · exact .inr (Nat.lt_of_le_of_lt first.version newer)
  positionDeletes d listed := by
    rcases second.positionDeletes d listed with there | ⟨newer, unused⟩
    · exact first.positionDeletes d there
    · exact .inr ⟨Nat.lt_of_le_of_lt first.version newer, Nat.le_trans first.nextPath unused⟩
  dead f before after position row live :=
    have there := first.mem_between early second before after
    first.dead f before there position row (second.dead f there after position row live)

theorem Later.eq_of_path_eq (early : WellFormed a) (later : Later a b) {f g : DataFile Row}
    (before : f ∈ a.dataFiles) (after : g ∈ b.dataFiles) (same : g.path = f.path) : g = f := by
  rcases later.dataFiles g after with there | unused
  · exact List.inj_on_of_nodup_map early.distinct there before same
  · have used := early.used f before
    omega

end Table

end Sqe.Iceberg
